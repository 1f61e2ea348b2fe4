import ServiceProxy.Lib.ByteStream
import ServiceProxy.Lib.PrefixCode

/-!
# Frames on a QUIC stream (`quic_proxy/framing.rs`, `go/internal/quicproxy/framing.go`)

A frame is the length of its payload in four bytes, the most significant one first, and the payload.

* `readFrame_sim` — the segments do not matter: `read_frame` does what `decodeFrame` does on the bytes in one piece;
* `decodeFrame_eq_ok`, `decodeFrame_eq_error` — what it makes of any bytes;
* `goReadFrame_eq` — `ReadFrame` does the same, up to the name of the error.

Both encoders cut the length to 32 bits: a payload of `2 ^ 32` bytes is sent with the length `0`.  `frames_exact`: for
shorter payloads decoding is the exact inverse image of encoding, and for no others.
-/

namespace ServiceProxy.QuicProxy

open ServiceProxy.Lib

/-! ## The code -/

/-- `read_frame`. -/
def readFrame (r : Stream UInt8) : Io (List UInt8 × Stream UInt8) := do
  let (lenBuf, r) ← r.readExact 4
  let len := ofBe lenBuf
  let (buf, r) ← r.readExact len
  .ok (buf, r)

/-- `write_frame`.  `payload.len() as u32` drops what does not fit. -/
def writeFrame (payload : List UInt8) : List UInt8 := toBe 4 (payload.length % 2 ^ 32) ++ payload

/-- The errors of Go's `io.ReadFull`. -/
inductive GoError
  | eof | unexpectedEof | other
  deriving DecidableEq, Repr

/-- `io.ReadFull`: `EOF` only if no byte was read. -/
def readFull (n : ℕ) (r : Stream UInt8) : Except (Halt GoError) (List UInt8 × Stream UInt8) := do
  let (b, r) ← (r.fill n).mapError (Halt.map fun _ => .other)
  if n ≤ b.length then .ok (b, r)
  else if b.isEmpty then .error (.err .eof)
  else .error (.err .unexpectedEof)

/-- `ReadFrame`. -/
def goReadFrame (r : Stream UInt8) : Except (Halt GoError) (List UInt8 × Stream UInt8) := do
  let (lenBuf, r) ← readFull 4 r
  let (buf, r) ← readFull (ofBe lenBuf) r
  .ok (buf, r)

/-- `WriteFrame`: a `Write` of the length as a `uint32`, and one of the payload. -/
def goWriteFrame (payload : List UInt8) : List UInt8 := toBe 4 (payload.length % 2 ^ 32) ++ payload

/-! ## The bytes in one piece -/

/-- `read_frame` on the bytes `bs`: the payload and the bytes behind the frame. -/
def decodeFrame (e : Ending) (bs : List UInt8) : Io (List UInt8 × List UInt8) := do
  let (lenBuf, bs) ← Plain.readExact e 4 bs
  Plain.readExact e (ofBe lenBuf) bs

section Frames

variable {r : Stream UInt8} {e : Ending} {bs p q rest : List UInt8}

/-- **The segments do not matter.** -/
theorem readFrame_sim (h : At e r bs) : Sim False (At e) (readFrame r) (decodeFrame e bs) := by
  refine (Stream.readExact_sim 4 h).bind fun lenBuf r bs h => ?_
  have hpayload := (Stream.readExact_sim (ofBe lenBuf) h).bind (f := fun p => .ok (p.1, p.2)) (g := fun p => .ok p)
    fun _ _ _ h => Sim.ok h
  cases hbs : Plain.readExact e (ofBe lenBuf) bs with
  | error a =>
    rw [hbs] at hpayload
    simp only [hbs]
    exact hpayload
  | ok p =>
    rw [hbs] at hpayload
    simp only [hbs]
    exact hpayload

theorem ofBe_four (bs : List UInt8) (h : bs.length = 4) : ofBe bs < 2 ^ 32 ∧ toBe 4 (ofBe bs) = bs := by
  have hlt := ofBe_lt bs
  have hback := toBe_ofBe bs
  rw [h] at hlt hback
  exact ⟨hlt, hback⟩

theorem writeFrame_eq (h : p.length < 2 ^ 32) : writeFrame p = toBe 4 p.length ++ p := by
  rw [writeFrame, Nat.mod_eq_of_lt h]

theorem writeFrame_ne_nil (p : List UInt8) : writeFrame p ≠ [] :=
  List.append_ne_nil_of_left_ne_nil (List.ne_nil_of_length_pos (by rw [length_toBe]; decide)) p

/-- **The frame in front of the bytes is returned**, if its payload is short enough to be encoded. -/
theorem decodeFrame_eq_ok : decodeFrame e bs = .ok (p, rest) ↔ p.length < 2 ^ 32 ∧ bs = writeFrame p ++ rest := by
  rw [decodeFrame, bind_eq_ok]
  constructor
  · rintro ⟨⟨lenBuf, bs'⟩, hlen, hpayload⟩
    obtain ⟨hfour, rfl, rfl⟩ := Plain.readExact_eq_ok.1 hlen
    obtain ⟨hle, rfl, rfl⟩ := Plain.readExact_eq_ok.1 hpayload
    obtain ⟨hlt, hback⟩ := ofBe_four (bs.take 4) (by rw [List.length_take]; omega)
    have hp : ((bs.drop 4).take (ofBe (bs.take 4))).length = ofBe (bs.take 4) := by rw [List.length_take]; omega
    rw [← hp] at hlt
    refine ⟨hlt, ?_⟩
    rw [writeFrame_eq hlt, hp, hback, List.append_assoc, List.take_append_drop, List.take_append_drop]
  · rintro ⟨hlt, rfl⟩
    have hnumber : ofBe (toBe 4 p.length) = p.length := by
      rw [ofBe_toBe]
      exact Nat.mod_eq_of_lt hlt
    refine ⟨(toBe 4 p.length, p ++ rest), ?_, ?_⟩
    · rw [writeFrame_eq hlt, List.append_assoc, Plain.readExact_eq_ok]
      exact ⟨by simp, (List.take_left' (length_toBe _ _)).symm, (List.drop_left' (length_toBe _ _)).symm⟩
    · rw [Plain.readExact_eq_ok, hnumber]
      exact ⟨by simp, List.take_left.symm, List.drop_left.symm⟩

theorem decodeFrame_eof (bs : List UInt8) :
    (∃ p rest, decodeFrame .eof bs = .ok (p, rest)) ∨ decodeFrame .eof bs = .error (.err .unexpectedEof) := by
  unfold decodeFrame Plain.readExact
  by_cases hfour : 4 ≤ bs.length
  · rw [if_pos hfour]
    simp only [bind, Except.bind]
    split_ifs
    · exact .inl ⟨_, _, rfl⟩
    · exact .inr rfl
  · rw [if_neg hfour]
    exact .inr rfl

theorem prefixFree_writeFrame : PrefixFree (fun p => p.length < 2 ^ 32) writeFrame := by
  intro p q r s hp hq heq
  have hp' : decodeFrame .eof (writeFrame p ++ r) = .ok (p, r) := decodeFrame_eq_ok.2 ⟨hp, rfl⟩
  have hq' : decodeFrame .eof (writeFrame q ++ s) = .ok (q, s) := decodeFrame_eq_ok.2 ⟨hq, rfl⟩
  rw [heq, hq'] at hp'
  exact (Prod.mk.inj (Except.ok.inj hp')).1.symm

/-- Bytes without a complete frame are the start of one. -/
theorem exists_frame (h : decodeFrame .eof bs = .error (.err .unexpectedEof)) :
    ∃ p, p.length < 2 ^ 32 ∧ bs <+: writeFrame p ∧ bs ≠ writeFrame p := by
  by_cases hfour : bs.length < 4
  · -- the length is cut: let the missing bytes be zeros, and the payload too
    obtain ⟨hlt, hback⟩ := ofBe_four (bs ++ List.replicate (4 - bs.length) 0) (by simp; omega)
    generalize hn : ofBe (bs ++ List.replicate (4 - bs.length) 0) = n at hlt hback
    have hframe : writeFrame (List.replicate n 0) = bs ++ (List.replicate (4 - bs.length) 0 ++ List.replicate n 0) := by
      rw [writeFrame, List.length_replicate, Nat.mod_eq_of_lt hlt, hback, List.append_assoc]
    refine ⟨List.replicate n 0, by rw [List.length_replicate]; exact hlt, ⟨_, hframe.symm⟩, fun heq => ?_⟩
    have := congrArg List.length (heq.trans hframe)
    simp only [List.length_append, List.length_replicate] at this
    omega
  · -- the payload is cut
    obtain ⟨hlt, hback⟩ := ofBe_four (bs.take 4) (by rw [List.length_take]; omega)
    have hshort : (bs.drop 4).length < ofBe (bs.take 4) := by
      by_contra hle
      unfold decodeFrame Plain.readExact at h
      rw [if_pos (by omega)] at h
      simp only [bind, Except.bind] at h
      rw [if_pos (by omega)] at h
      cases h
    generalize hn : ofBe (bs.take 4) = n at hlt hback hshort
    have hpad : (bs.drop 4 ++ List.replicate (n - (bs.drop 4).length) 0).length = n := by
      rw [List.length_append, List.length_replicate]
      omega
    have hframe : writeFrame (bs.drop 4 ++ List.replicate (n - (bs.drop 4).length) 0) =
        bs ++ List.replicate (n - (bs.drop 4).length) 0 := by
      rw [writeFrame, hpad, Nat.mod_eq_of_lt hlt, hback, ← List.append_assoc, List.take_append_drop]
    refine ⟨_, by rw [hpad]; exact hlt, ⟨_, hframe.symm⟩, fun heq => ?_⟩
    have := congrArg List.length (heq.trans hframe)
    simp only [List.length_append, List.length_replicate] at this
    omega

/-- **What is no frame yet is an error**, at the end of the stream. -/
theorem decodeFrame_eq_error : (∃ a, decodeFrame .eof bs = .error (.err a)) ↔
    ∃ p, p.length < 2 ^ 32 ∧ bs <+: writeFrame p ∧ bs ≠ writeFrame p := by
  constructor
  · rintro ⟨a, ha⟩
    rcases decodeFrame_eof bs with ⟨p, rest, hok⟩ | herr
    · rw [ha] at hok
      cases hok
    · exact exists_frame herr
  · rintro ⟨p, hp, ⟨more, hmore⟩, hne⟩
    rcases decodeFrame_eof bs with ⟨q, rest, hok⟩ | herr
    · obtain ⟨hq, hbs⟩ := decodeFrame_eq_ok.1 hok
      rw [hbs, List.append_assoc, ← List.append_nil (writeFrame p)] at hmore
      obtain rfl := prefixFree_writeFrame q p _ _ hq hp hmore
      obtain ⟨rfl, -⟩ := List.append_eq_nil_iff.1 (List.append_cancel_left hmore)
      exact absurd (hbs.trans (List.append_nil _)) hne
    · exact ⟨_, herr⟩

end Frames

/-! ## The two implementations -/

/-- The outcome without the name of the error. -/
def unnamed {ε β : Type} (x : Except (Halt ε) β) : Except (Halt Unit) β := x.mapError (Halt.map fun _ => ())

theorem unnamed_bind {ε ε' β γ : Type} {x : Except (Halt ε) β} {y : Except (Halt ε') β} {f : β → Except (Halt ε) γ}
    {g : β → Except (Halt ε') γ} (h : unnamed x = unnamed y) (hfg : ∀ b, unnamed (f b) = unnamed (g b)) :
    unnamed (x >>= f) = unnamed (y >>= g) := by
  cases x with
  | error a =>
    cases y with
    | error b => exact congrArg _ (Except.error.inj h)
    | ok b => cases h
  | ok a =>
    cases y with
    | error b => cases h
    | ok b =>
      obtain rfl : a = b := Except.ok.inj h
      exact hfg a

theorem readFull_eq (n : ℕ) (r : Stream UInt8) : unnamed (readFull n r) = unnamed (r.readExact n) := by
  have hfill : unnamed ((r.fill n).mapError (Halt.map fun _ => GoError.other)) = unnamed (r.fill n) := by
    cases r.fill n with
    | error a => cases a <;> rfl
    | ok p => rfl
  refine unnamed_bind hfill fun p => ?_
  simp only
  by_cases hn : n ≤ p.1.length
  · rw [if_pos hn, if_neg (Nat.not_lt.2 hn)]
    rfl
  · rw [if_neg hn, if_pos (Nat.not_le.1 hn)]
    split_ifs <;> rfl

/-- **`ReadFrame` does what `read_frame` does**, up to the name of the error. -/
theorem goReadFrame_eq (r : Stream UInt8) : unnamed (goReadFrame r) = unnamed (readFrame r) :=
  unnamed_bind (readFull_eq 4 r) fun p => unnamed_bind (readFull_eq (ofBe p.1) p.2) fun _ => rfl

/-! ## The exact inverse image -/

/-- **Decoding inverts the encoding of `p`**: `p` is returned for exactly the bytes that start with its frame, with what
is behind it left, and what stops inside its frame is an error. -/
structure Inverted (p : List UInt8) : Prop where
  returned : ∀ (r : Stream UInt8) (rest : List UInt8), (∀ seg ∈ r.segs, seg ≠ []) →
    ((∃ r', readFrame r = .ok (p, r') ∧ r'.flat = rest) ↔ r.flat = writeFrame p ++ rest)
  cut : ∀ r : Stream UInt8, (∀ seg ∈ r.segs, seg ≠ []) → r.ending = .eof → r.flat <+: writeFrame p →
    r.flat ≠ writeFrame p → ∃ a, readFrame r = .error (.err a)

section Inverted

variable {r : Stream UInt8} {p rest : List UInt8}

theorem readFrame_eq_ok (hr : ∀ seg ∈ r.segs, seg ≠ []) :
    (∃ r', readFrame r = .ok (p, r') ∧ r'.flat = rest) ↔ p.length < 2 ^ 32 ∧ r.flat = writeFrame p ++ rest := by
  have hsim := readFrame_sim (r := r) ⟨rfl, rfl, hr⟩
  rw [← decodeFrame_eq_ok (e := r.ending)]
  constructor
  · rintro ⟨r', hread, rfl⟩
    obtain ⟨rest, hdecode, hat⟩ := hsim.of_ok hread
    rw [hat.bytes]
    exact hdecode
  · intro hdecode
    obtain ⟨r', hread, hat⟩ := hsim.exists_ok hdecode
    exact ⟨r', hread, hat.bytes⟩

theorem readFrame_eq_error (hr : ∀ seg ∈ r.segs, seg ≠ []) (hending : r.ending = .eof) :
    (∃ a, readFrame r = .error (.err a)) ↔ ∃ p, p.length < 2 ^ 32 ∧ r.flat <+: writeFrame p ∧ r.flat ≠ writeFrame p := by
  have hsim := readFrame_sim (r := r) ⟨rfl, hending, hr⟩
  rw [← decodeFrame_eq_error]
  constructor
  · rintro ⟨a, ha⟩
    exact ⟨a, hsim.eq_error_iff.1 ha⟩
  · rintro ⟨a, ha⟩
    exact ⟨a, hsim.eq_error_iff.2 ha⟩

/-- A payload whose length is no `u32` is not returned. -/
theorem inverted_iff (p : List UInt8) : Inverted p ↔ p.length < 2 ^ 32 := by
  constructor
  · intro h
    have hwf : ∀ seg ∈ (⟨[writeFrame p], .eof⟩ : Stream UInt8).segs, seg ≠ [] := by
      intro seg hseg
      rw [List.mem_singleton.1 hseg]
      exact writeFrame_ne_nil p
    have hreturned := (h.returned _ [] hwf).2 (by simp [Stream.flat])
    exact ((readFrame_eq_ok hwf).1 hreturned).1
  · intro hp
    refine ⟨fun r rest hr => ?_, fun r hr hending hprefix hne => ?_⟩
    · rw [readFrame_eq_ok hr]
      exact and_iff_right hp
    · exact (readFrame_eq_error hr hending).2 ⟨p, hp, hprefix, hne⟩

end Inverted

/-- **Frames, exactly.**  Decoding is the exact inverse image of encoding at a payload if and only if its length is a `u32`.
For such payloads: at the end of the stream `read_frame` fails exactly on the strict prefixes of frames, and a stream is cut
in at most one way into frames and a rest that starts none.  `ReadFrame` and `WriteFrame` do the same on all bytes. -/
theorem frames_exact (p : List UInt8) (r : Stream UInt8) :
    (Inverted p ↔ p.length < 2 ^ 32) ∧
    ((∀ seg ∈ r.segs, seg ≠ []) → r.ending = .eof →
      ((∃ a, readFrame r = .error (.err a)) ↔
        ∃ p, p.length < 2 ^ 32 ∧ r.flat <+: writeFrame p ∧ r.flat ≠ writeFrame p)) ∧
    goWriteFrame p = writeFrame p ∧ unnamed (goReadFrame r) = unnamed (readFrame r) ∧
    ∀ (ps qs : List (List UInt8)) (rest rest' : List UInt8), (∀ p ∈ ps, p.length < 2 ^ 32) → (∀ q ∈ qs, q.length < 2 ^ 32) →
      StartsNone (fun p => p.length < 2 ^ 32) writeFrame rest → StartsNone (fun p => p.length < 2 ^ 32) writeFrame rest' →
      ps.flatMap writeFrame ++ rest = qs.flatMap writeFrame ++ rest' → ps = qs ∧ rest = rest' :=
  ⟨inverted_iff p, fun hr hending => readFrame_eq_error hr hending, rfl, goReadFrame_eq r,
    fun _ _ _ _ hps hqs hrest hrest' heq => prefixFree_writeFrame.split_unique hps hqs hrest hrest' heq⟩

def twoSegments : Stream UInt8 := ⟨[[0, 0], [0, 2, 7, 8, 9]], .open⟩

theorem frames_exact_two : ∃ r', readFrame twoSegments = .ok ([7, 8], r') ∧ r'.flat = [9] :=
  (((frames_exact [7, 8] twoSegments).1.2 (by decide)).returned twoSegments [9] (by decide)).2 (by decide)

/-- **The counter-example.**  A payload of `2 ^ 32` bytes is sent with the length `0`, and an empty payload is returned. -/
theorem huge_payload_lost : ¬ Inverted (List.replicate (2 ^ 32) 0) := by
  intro h
  have hlt := (inverted_iff _).1 h
  rw [List.length_replicate] at hlt
  omega

end ServiceProxy.QuicProxy
