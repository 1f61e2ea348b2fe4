import ServiceProxy.Lib.Rfc9112

/-!
# Reading HTTP/1.1 messages

A recipient that follows RFC 9112: it reads lines up to an empty one (section 2.2), takes the start line and the fields
apart, and reads the body that the fields announce (section 6.3), where `Transfer-Encoding` overrides `Content-Length`.

* `readRequest` — a server: one complete request and the bytes behind it, not enough bytes, or a malformed request;
* `readRequest_head` — what it makes of a well-formed head.
-/

namespace ServiceProxy.Lib.Rfc9112

/-! ## Outcomes -/

/-- What a recipient makes of the bytes it has. -/
inductive Parse (α : Type)
  | complete (a : α) (rest : List UInt8)
  | incomplete
  | malformed
  deriving DecidableEq, Repr

def Parse.map {α β : Type} (f : α → β) : Parse α → Parse β
  | .complete a rest => .complete (f a) rest
  | .incomplete => .incomplete
  | .malformed => .malformed

/-! ## Lines -/

/-- The bytes up to the first CRLF and those behind it. -/
def splitLine : List UInt8 → Option (List UInt8 × List UInt8)
  | [] => none
  | b :: bs =>
    if b = 13 ∧ bs.head? = some 10 then some ([], bs.tail) else (splitLine bs).map fun p => (b :: p.1, p.2)

/-- The lines up to an empty one, and the bytes behind it. -/
def readLines : ℕ → List UInt8 → Option (List (List UInt8) × List UInt8)
  | 0, _ => none
  | n + 1, bs =>
    match splitLine bs with
    | none => none
    | some (line, rest) => if line.isEmpty then some ([], rest) else (readLines n rest).map fun p => (line :: p.1, p.2)

theorem splitLine_append {line : List UInt8} (h : 10 ∉ line) (rest : List UInt8) :
    splitLine (line ++ (crlf ++ rest)) = some (line, rest) := by
  induction line with
  | nil => simp [splitLine, crlf]
  | cons b line ih =>
    simp only [List.mem_cons, not_or] at h
    have hhead : (line ++ (crlf ++ rest)).head? ≠ some 10 := by
      cases line with
      | nil => simp [crlf]
      | cons d line =>
        rintro hd
        obtain rfl : d = 10 := by simpa using hd
        exact h.2 (by simp)
    rw [List.cons_append, splitLine, if_neg (fun hb => hhead hb.2), ih h.2]
    rfl

theorem readLines_append {lines : List (List UInt8)} (h : ∀ line ∈ lines, line ≠ [] ∧ 10 ∉ line) {n : ℕ}
    (hn : lines.length < n) (rest : List UInt8) :
    readLines n (lines.flatMap (· ++ crlf) ++ (crlf ++ rest)) = some (lines, rest) := by
  induction lines generalizing n with
  | nil =>
    obtain ⟨n, rfl⟩ : ∃ m, n = m + 1 := ⟨n - 1, by omega⟩
    have : splitLine ([] ++ (crlf ++ rest)) = some ([], rest) := splitLine_append (by simp) rest
    simp only [List.nil_append] at this
    simp [readLines, this]
  | cons line lines ih =>
    obtain ⟨n, rfl⟩ : ∃ m, n = m + 1 := ⟨n - 1, by omega⟩
    simp only [List.mem_cons, forall_eq_or_imp] at h
    rw [List.flatMap_cons, List.append_assoc, List.append_assoc, readLines, splitLine_append h.1.2]
    simp only [List.isEmpty_iff, h.1.1, if_false]
    rw [ih h.2 (by simpa using hn)]
    rfl

theorem splitLine_more {bs line rest : List UInt8} (h : splitLine bs = some (line, rest)) (more : List UInt8) :
    splitLine (bs ++ more) = some (line, rest ++ more) ∧ rest.length < bs.length := by
  induction bs generalizing line with
  | nil => simp [splitLine] at h
  | cons b bs ih =>
    cases bs with
    | nil => simp [splitLine] at h
    | cons d bs =>
      rw [splitLine, List.head?_cons, List.tail_cons] at h
      rw [List.cons_append, List.cons_append, splitLine, List.head?_cons, List.tail_cons]
      by_cases hb : b = 13 ∧ some d = some 10
      · rw [if_pos hb] at h ⊢
        obtain ⟨rfl, rfl⟩ := Prod.mk.inj (Option.some.inj h)
        refine ⟨rfl, ?_⟩
        simp only [List.length_cons]
        omega
      · rw [if_neg hb] at h ⊢
        obtain ⟨⟨line, rest⟩, hsplit, heq⟩ := Option.map_eq_some_iff.1 h
        obtain ⟨rfl, rfl⟩ := Prod.mk.inj heq
        obtain ⟨hmore, hle⟩ := ih hsplit
        rw [← List.cons_append, hmore]
        exact ⟨rfl, Nat.lt_succ_of_lt hle⟩

theorem readLines_more {n m : ℕ} {bs rest : List UInt8} {lines : List (List UInt8)}
    (h : readLines n bs = some (lines, rest)) (hnm : n ≤ m) (more : List UInt8) :
    readLines m (bs ++ more) = some (lines, rest ++ more) ∧ rest.length < bs.length := by
  induction n generalizing m bs lines with
  | zero => simp [readLines] at h
  | succ n ih =>
    obtain ⟨m, rfl⟩ : ∃ k, m = k + 1 := ⟨m - 1, by omega⟩
    rw [readLines] at h ⊢
    cases hsplit : splitLine bs with
    | none => simp [hsplit] at h
    | some p =>
      obtain ⟨line, bs'⟩ := p
      obtain ⟨hmore, hle⟩ := splitLine_more hsplit more
      rw [hsplit] at h
      rw [hmore]
      simp only at h ⊢
      split_ifs at h ⊢
      · obtain ⟨rfl, rfl⟩ := Prod.mk.inj (Option.some.inj h)
        exact ⟨rfl, hle⟩
      · obtain ⟨⟨lines, rest⟩, hlines, heq⟩ := Option.map_eq_some_iff.1 h
        obtain ⟨rfl, rfl⟩ := Prod.mk.inj heq
        obtain ⟨hmore', hle'⟩ := ih hlines (Nat.le_of_succ_le_succ hnm)
        rw [hmore']
        exact ⟨rfl, Nat.lt_trans hle' hle⟩

/-! ## Fields -/

/-- A space or a tab. -/
def isBlank (b : UInt8) : Bool := b = 32 ∨ b = 9

/-- The value without the white space around it. -/
def trimBlank (v : List UInt8) : List UInt8 := (v.dropWhile isBlank).rdropWhile isBlank

def parseField (line : List UInt8) : Option (List Char × List UInt8) :=
  (splitOnce 58 line).bind fun p => (utf8Decode p.1).bind fun name =>
    if name ≠ [] ∧ name.all isToken then some (name, trimBlank p.2) else none

def parseFields : List (List UInt8) → Option (List (List Char × List UInt8))
  | [] => some []
  | line :: lines => (parseField line).bind fun p => (parseFields lines).map (p :: ·)

def parseRequestLine (line : List UInt8) : Option (List Char × List Char) :=
  (splitOnce 32 line).bind fun p => (splitOnce 32 p.2).bind fun q =>
    (utf8Decode p.1).bind fun method => (utf8Decode q.1).bind fun target =>
      if method ≠ [] ∧ method.all isToken ∧ target ≠ [] ∧ target.all isVisible ∧ q.2 = utf8Encode "HTTP/1.1".toList then
        some (method, target)
      else none

/-! ## Bodies -/

/-- The ways a message says where its body ends. -/
inductive Framing
  | length (n : ℕ)
  | chunked
  deriving DecidableEq, Repr

/-- The values of the fields with the name `n`. -/
def valuesOf (n : List Char) (fs : List (List Char × List UInt8)) : List (List UInt8) :=
  (fs.filter fun p => eqIgnoreAsciiCase p.1 n).map Prod.snd

theorem valuesOf_cons_of_pos {n : List Char} {p : List Char × List UInt8} (h : eqIgnoreAsciiCase p.1 n)
    (fs : List (List Char × List UInt8)) : valuesOf n (p :: fs) = p.2 :: valuesOf n fs := by
  unfold valuesOf
  rw [List.filter_cons, if_pos h, List.map_cons]

theorem valuesOf_cons_of_neg {n : List Char} {p : List Char × List UInt8} (h : ¬ eqIgnoreAsciiCase p.1 n)
    (fs : List (List Char × List UInt8)) : valuesOf n (p :: fs) = valuesOf n fs := by
  unfold valuesOf
  rw [List.filter_cons, if_neg h]

/-- Section 6.3, for a request. -/
def framing (fs : List (List Char × List UInt8)) : Option Framing :=
  match valuesOf transferEncoding fs with
  | [] =>
    match valuesOf contentLength fs with
    | [] => some (.length 0)
    | v :: vs => if vs.all (· = v) then (number? v).map .length else none
  | [v] => if valueIs "chunked".toList v then some .chunked else none
  | _ => none

/-- Section 7.1: chunks up to the last one, and the trailer section. -/
def readChunks : ℕ → List UInt8 → Parse (List UInt8)
  | 0, _ => .incomplete
  | n + 1, bs =>
    match splitLine bs with
    | none => .incomplete
    | some (line, rest) =>
      match (utf8Decode (trimBlank (line.takeWhile (· ≠ 59)))).bind hexNumber? with
      | none => .malformed
      | some 0 =>
        match readLines (rest.length + 1) rest with
        | none => .incomplete
        | some (_, rest) => .complete [] rest
      | some k =>
        if rest.length < k + 2 then .incomplete
        else if (rest.drop k).take 2 = crlf then (readChunks n (rest.drop (k + 2))).map (rest.take k ++ ·)
        else .malformed

def readFramed (bs : List UInt8) : Framing → Parse (List UInt8)
  | .length n => if bs.length < n then .incomplete else .complete (bs.take n) (bs.drop n)
  | .chunked => readChunks (bs.length + 1) bs

/-! ## Requests -/

/-- A request as a server sees it. -/
structure Received where
  method : List Char
  target : List Char
  body : List UInt8
  deriving DecidableEq, Repr

def readRequest (bs : List UInt8) : Parse Received :=
  match readLines (bs.length + 1) bs with
  | none => .incomplete
  | some ([], _) => .malformed
  | some (start :: lines, rest) =>
    match parseRequestLine start, parseFields lines with
    | some (method, target), some fs =>
      match framing fs with
      | some fr => (readFramed rest fr).map fun body => ⟨method, target, body⟩
      | none => .malformed
    | _, _ => .malformed

/-! ## Well-formed heads are read back -/

def Field.received (f : Field) : List Char × List UInt8 := (f.name, trimBlank f.value)

theorem isBlank_of_ows {cs : List Char} (h : ∀ c ∈ cs, c = ' ' ∨ c = '\t') : ∀ b ∈ utf8Encode cs, isBlank b := by
  intro b hb
  obtain ⟨c, hc, hmem⟩ := List.mem_flatMap.1 hb
  rcases h c hc with rfl | rfl
  · obtain rfl : b = 32 := by simpa [String.utf8EncodeChar] using hmem
    decide
  · obtain rfl : b = 9 := by simpa [String.utf8EncodeChar] using hmem
    decide

theorem parseField_line (f : Field) : parseField f.line = some f.received := by
  have hline : f.line = utf8Encode f.name ++ 58 :: (utf8Encode f.before ++ (f.value ++ utf8Encode f.after)) := by
    simp [Field.line, show String.utf8EncodeChar ':' = [58] by decide]
  have hcolon : 58 ∉ utf8Encode f.name := by
    refine notMem_utf8Encode (by decide) fun c hc => ?_
    have := (isToken_iff.1 (f.name_token hc)).2.2
    simp only [List.mem_cons, not_or] at this
    exact this.2.2.2.2.2.1
  rw [parseField, hline, splitOnce_append hcolon]
  simp only [Option.bind_some, utf8Decode_utf8Encode, ne_eq, f.name_ne, not_false_eq_true, f.token, and_self, if_true]
  rw [Field.received, trimBlank, dropWhile_rdropWhile_append (isBlank_of_ows fun _ => f.ows_before)
    (isBlank_of_ows fun _ => f.ows_after)]
  rfl

theorem parseFields_lines (fs : List Field) : parseFields (fs.map Field.line) = some (fs.map Field.received) := by
  induction fs with
  | nil => rfl
  | cons f fs ih => simp [parseFields, parseField_line, ih]

theorem parseRequestLine_line (h : RequestHead) : parseRequestLine h.line = some (h.method, h.target) := by
  have hline : h.line = utf8Encode h.method ++ 32 :: (utf8Encode h.target ++ 32 :: utf8Encode "HTTP/1.1".toList) := by
    simp [RequestHead.line, show String.utf8EncodeChar ' ' = [32] by decide,
      show " HTTP/1.1".toList = ' ' :: "HTTP/1.1".toList by decide]
  have hvisible : ∀ (cs : List Char), (∀ c ∈ cs, 33 ≤ c.toNat) → 32 ∉ utf8Encode cs := by
    intro cs hcs
    refine notMem_utf8Encode (by decide) fun c hc => ?_
    have := hcs c hc
    change c.toNat ≠ 32
    omega
  have hmethod := hvisible h.method fun c hc => (isToken_iff.1 (List.all_eq_true.1 h.token c hc)).1
  have htarget : 32 ∉ utf8Encode h.target := by
    refine hvisible h.target fun c hc => ?_
    have := List.all_eq_true.1 h.visible c hc
    simp only [isVisible, decide_eq_true_eq] at this
    exact this.1
  rw [parseRequestLine, hline, splitOnce_append hmethod]
  simp only [Option.bind_some]
  rw [splitOnce_append htarget]
  simp only [Option.bind_some, utf8Decode_utf8Encode]
  rw [if_pos ⟨h.method_ne, h.token, h.target_ne, h.visible, trivial⟩]

theorem RequestHead.lines_ok (h : RequestHead) {b : UInt8} (hb : b = 13 ∨ b = 10) :
    ∀ line ∈ h.line :: h.fields.map Field.line, line ≠ [] ∧ b ∉ line := by
  have h13 : b.toNat = 13 ∨ b.toNat = 10 := by rcases hb with rfl | rfl <;> decide
  simp only [List.mem_cons, List.mem_map, forall_eq_or_imp, forall_exists_index, and_imp, forall_apply_eq_imp_iff₂]
  refine ⟨⟨by simp [RequestHead.line, h.method_ne], ?_⟩, fun f _ => ⟨by simp [Field.line, f.name_ne], f.notMem_line hb⟩⟩
  refine notMem_utf8Encode (by omega) fun c hc => ?_
  suffices 32 ≤ c.toNat by omega
  rw [List.mem_append, List.mem_append, List.mem_cons] at hc
  rcases hc with (hc | rfl | hc) | hc
  · have := (isToken_iff.1 (List.all_eq_true.1 h.token c hc)).1
    omega
  · decide
  · have := List.all_eq_true.1 h.visible c hc
    simp only [isVisible, decide_eq_true_eq] at this
    omega
  · have : ∀ c ∈ " HTTP/1.1".toList, 32 ≤ c.toNat := by simp
    exact this c hc

theorem RequestHead.bytes_append (h : RequestHead) (rest : List UInt8) :
    h.bytes ++ rest = (h.line :: h.fields.map Field.line).flatMap (· ++ crlf) ++ (crlf ++ rest) := by
  have : ∀ fs : List Field, fs.flatMap Field.bytes = (fs.map Field.line).flatMap (· ++ crlf) := by
    intro fs
    rw [List.flatMap_map]
    rfl
  simp [RequestHead.bytes, this]

theorem length_lines_lt (lines : List (List UInt8)) (rest : List UInt8) :
    lines.length < (lines.flatMap (· ++ crlf) ++ (crlf ++ rest)).length + 1 := by
  have : lines.length ≤ (lines.flatMap (· ++ crlf)).length := by
    induction lines with
    | nil => simp
    | cons line lines ih =>
      have hcrlf : crlf.length = 2 := rfl
      simp only [List.flatMap_cons, List.length_append, List.length_cons]
      omega
  simp only [List.length_append]
  omega

/-- **A server reads a well-formed head back**, and then the body its fields announce. -/
theorem readRequest_head (h : RequestHead) (rest : List UInt8) :
    readRequest (h.bytes ++ rest) =
      match framing (h.fields.map Field.received) with
      | some fr => (readFramed rest fr).map fun body => ⟨h.method, h.target, body⟩
      | none => .malformed := by
  unfold readRequest
  rw [h.bytes_append, readLines_append (h.lines_ok (.inr rfl)) (length_lines_lt _ _)]
  simp only [parseRequestLine_line, parseFields_lines]

/-! ## Which body the fields announce -/

theorem valuesOf_received (n : List Char) (fs : List Field) :
    valuesOf n (fs.map Field.received) = (named n fs).map fun f => trimBlank f.value := by
  simp only [valuesOf, named, List.filter_map, List.map_map]
  rfl

theorem trimBlank_encode {cs : List Char} (h : ∀ c ∈ cs, c.toNat ≠ 32 ∧ c.toNat ≠ 9) :
    trimBlank (utf8Encode cs) = utf8Encode cs := by
  have hneg : ∀ b ∈ utf8Encode cs, ¬ isBlank b := by
    intro b hb hblank
    simp only [isBlank, decide_eq_true_eq] at hblank
    revert hb
    rcases hblank with rfl | rfl
    · exact notMem_utf8Encode (by decide) fun c hc => (h c hc).1
    · exact notMem_utf8Encode (by decide) fun c hc => (h c hc).2
  unfold trimBlank
  rw [dropWhile_of_neg hneg, rdropWhile_of_neg hneg]

theorem trimBlank_of_number? {v : List UInt8} {n : ℕ} (h : number? v = some n) : trimBlank v = v := by
  simp only [number?, Option.bind_eq_some_iff, Option.ite_none_right_eq_some] at h
  obtain ⟨ds, hds, ⟨-, hdigits⟩, -⟩ := h
  rw [utf8Decode_eq_some] at hds
  rw [← hds]
  refine trimBlank_encode fun c hc => ?_
  have := isDigit_toNat (List.all_eq_true.1 hdigits c hc)
  omega

theorem number?_toDigits (n : ℕ) : number? (utf8Encode (Nat.toDigits 10 n)) = some n := by
  have hdigits : (Nat.toDigits 10 n).all Char.isDigit :=
    List.all_eq_true.2 fun c hc => Nat.isDigit_of_mem_toDigits (by decide) (by decide) hc
  rw [number?, utf8Decode_utf8Encode, Option.bind_some, if_pos ⟨Nat.toDigits_ne_nil, hdigits⟩,
    Nat.ofDigitChars_ten_toDigits]

theorem valueIs_encode (n cs : List Char) : valueIs n (utf8Encode cs) = eqIgnoreAsciiCase cs n := by
  rw [valueIs, utf8Decode_utf8Encode]
  rfl

theorem mem_of_mem_trimBlank {v : List UInt8} {b : UInt8} (h : b ∈ trimBlank v) : b ∈ v :=
  (List.dropWhile_suffix _).subset ((List.rdropWhile_prefix _ _).subset h)

theorem framing_of_soleLength {fs : List Field} {n : ℕ} (hte : named transferEncoding fs = [])
    (h : soleLength fs = some n) : framing (fs.map Field.received) = some (.length n) := by
  obtain ⟨f, hf, hn⟩ := soleLength_eq_some.1 h
  simp [framing, valuesOf_received, hte, hf, trimBlank_of_number? hn, hn]

/-- With a `Transfer-Encoding` line, a server that has read all bytes is not done. -/
theorem readRequest_of_transferEncoding {h : RequestHead} (hte : named transferEncoding h.fields ≠ []) (r : Received)
    (rest : List UInt8) : readRequest h.bytes ≠ .complete r rest := by
  have hread := readRequest_head h []
  rw [List.append_nil] at hread
  rw [hread]
  obtain ⟨f, fs, hfs⟩ := List.exists_cons_of_ne_nil hte
  have hframing : framing (h.fields.map Field.received) = some .chunked ∨
      framing (h.fields.map Field.received) = none := by
    simp only [framing, valuesOf_received, hfs, List.map_cons]
    cases fs with
    | nil => simp only [List.map_nil]; split_ifs <;> simp
    | cons => simp
  rcases hframing with h | h <;> rw [h] <;> simp [readFramed, readChunks, splitLine, Parse.map]

/-! ## What a server answers -/

/-- The server may give the answer `a` to the bytes `msg`: by `L`, if it reads a request in them. -/
structure Obeys {A : Type} (L : Received → A → Prop) (msg : List UInt8) (a : A) : Prop where
  read : ∀ m rest, readRequest msg = .complete m rest → L m a

instance {A : Type} (L : Received → A → Prop) [∀ m a, Decidable (L m a)] (msg : List UInt8) (a : A) :
    Decidable (Obeys L msg a) :=
  match h : readRequest msg with
  | .complete m rest =>
    decidable_of_iff (L m a)
      ⟨fun hm => ⟨fun m' rest' h' => by
        obtain ⟨rfl, rfl⟩ := Parse.complete.inj (h.symm.trans h')
        exact hm⟩, fun hm => hm.read m rest h⟩
  | .incomplete => isTrue ⟨fun m rest h' => by rw [h] at h'; cases h'⟩
  | .malformed => isTrue ⟨fun m rest h' => by rw [h] at h'; cases h'⟩

end ServiceProxy.Lib.Rfc9112
