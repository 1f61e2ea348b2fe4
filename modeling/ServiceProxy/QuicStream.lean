import ServiceProxy.QuicFraming
import ServiceProxy.HandleConn

/-!
# One stream of a QUIC client (`handle_quic_stream`)

`handle_quic_stream` reads a frame, forwards its payload to an upstream and writes the body of the answer as a frame.  What a
call meets is a `QuicTalk`; the stream it writes to is a `Sink`, whose writes may take less than they are given, fail or wait.

* `writeAll_ok` — a `write_all` that returns has written all of its bytes;
* `written_writeFrame` — so `write_frame` has written `writeFrame`, and `WriteFrame` the same;
* `wrote_writeFrame` — and a part of it if the stream fails, from which `eq_of_readFrame` nobody reads another payload;
* `handed_iff` — the payloads that a call can hand to `write_frame`: the bodies that can be allocated.

`framed_iff`: a payload is never framed wrongly if and only if its length is a `u32`.
-/

namespace ServiceProxy.QuicProxy

open ServiceProxy.Lib ServiceProxy.Upstream ServiceProxy.ProxyHttp

/-! ## The code -/

/-- The sending side of a stream: what has been written, how many bytes the next `write`s take, what becomes of those after
them, what becomes of a `flush`, and whether the stream was finished. -/
structure Sink where
  written : List UInt8
  takes : List ℕ
  ending : Sent
  flush : Sent
  finished : Bool
  deriving DecidableEq, Repr

/-- `write`: how many of the bytes were taken. -/
def Sink.write (bs : List UInt8) (w : Sink) : Io ℕ × Sink :=
  match w.takes with
  | n :: takes => (.ok (min n bs.length), { w with takes, written := w.written ++ bs.take n })
  | [] =>
    match w.ending with
    | .done => (.ok bs.length, { w with written := w.written ++ bs })
    | .failed e => (.error (.err e), w)
    | .stuck => (.error .pending, w)

/-- The loop of `write_all`.  A `write` that takes nothing is an error (`WriteZero`); the first argument bounds the turns. -/
def Sink.writeAllAux : ℕ → List UInt8 → Sink → Io Unit × Sink
  | 0, bs, w => (if bs.isEmpty then .ok () else .error .pending, w)
  | turns + 1, bs, w =>
    if bs.isEmpty then (.ok (), w)
    else
      match w.write bs with
      | (.ok 0, w) => (.error (.err .other), w)
      | (.ok (n + 1), w) => Sink.writeAllAux turns (bs.drop (n + 1)) w
      | (.error a, w) => (.error a, w)

/-- `write_all`. -/
def Sink.writeAll (bs : List UInt8) (w : Sink) : Io Unit × Sink := Sink.writeAllAux bs.length bs w

/-- `flush`. -/
def Sink.flushed (w : Sink) : Io Unit × Sink :=
  match w.flush with
  | .done => (.ok (), w)
  | .failed e => (.error (.err e), w)
  | .stuck => (.error .pending, w)

/-- `?` between two operations on the stream. -/
def Sink.andThen (x : Io Unit × Sink) (next : Sink → Io Unit × Sink) : Io Unit × Sink :=
  match x with
  | (.ok (), w) => next w
  | (.error a, w) => (.error a, w)

/-- `write_frame`. -/
def Sink.writeFrame (payload : List UInt8) (w : Sink) : Io Unit × Sink :=
  Sink.andThen (w.writeAll (toBe 4 (payload.length % 2 ^ 32))) fun w =>
    Sink.andThen (w.writeAll payload) Sink.flushed

/-- `WriteFrame`.  A `Write` returns an error if it has not written everything. -/
def Sink.goWriteFrame (payload : List UInt8) (w : Sink) : Io Unit × Sink :=
  Sink.andThen (w.writeAll (toBe 4 (payload.length % 2 ^ 32))) fun w => w.writeAll payload

/-- What a call of `handle_quic_stream` meets.  The selector returns `addr` and `tok`. -/
structure QuicTalk where
  recv : Source
  addr : String
  tok : ℤ
  peer : Peer
  send : Sink

/-- The request that `handle_quic_stream` forwards. -/
def echoRequest (addr : String) (payload : List UInt8) : Request :=
  { method := "POST".toList, path := "/echo".toList, host := addr.toList
    headers := [("Content-Type".toList, ["application/octet-stream".toList])], body := payload }

/-- How a call ends, what it did, what it called `write_frame` with, and its stream afterwards. -/
structure QuicResult where
  outcome : Outcome
  effects : List Effect
  frame : Option (List UInt8)
  send : Sink

/-- `handle_quic_stream`. -/
def handleQuicStream (kind : ForwarderKind) (t : QuicTalk) : QuicResult :=
  match readFrame t.recv.1 with
  | .error (.err _) => ⟨.returned, [], none, t.send⟩
  | .error .pending => ⟨.waiting, [], none, t.send⟩
  | .error .panic => ⟨.panicked, [], none, t.send⟩
  | .ok (payload, _) =>
    match kind.forward t.addr (echoRequest t.addr payload) t.peer with
    | (fx, .ok resp) =>
      let fx := .next t.tok :: (fx ++ [.release t.tok])
      match t.send.writeFrame resp.body with
      | (.ok (), w) => ⟨.returned, fx, some resp.body, { w with finished := true }⟩
      | (.error (.err _), w) => ⟨.returned, fx, some resp.body, w⟩
      | (.error .pending, w) => ⟨.waiting, fx, some resp.body, w⟩
      | (.error .panic, w) => ⟨.panicked, fx, some resp.body, w⟩
    | (fx, .error (.err _)) => ⟨.returned, .next t.tok :: (fx ++ [.release t.tok]), none, t.send⟩
    | (fx, .error .pending) => ⟨.waiting, .next t.tok :: fx, none, t.send⟩
    | (fx, .error .panic) => ⟨.panicked, .next t.tok :: fx, none, t.send⟩

/-! ## What is written -/

section Written

variable {w : Sink} {bs p : List UInt8} {n turns : ℕ}

theorem written_write (h : (w.write bs).1 = .ok n) : (w.write bs).2.written = w.written ++ bs.take n := by
  unfold Sink.write at h ⊢
  cases htakes : w.takes with
  | cons m takes =>
    simp only [htakes] at h ⊢
    obtain rfl := Except.ok.inj h
    rw [← List.take_take, List.take_length]
  | nil =>
    simp only [htakes] at h ⊢
    cases hending : w.ending with
    | done =>
      simp only [hending] at h ⊢
      obtain rfl := Except.ok.inj h
      rw [List.take_length]
    | failed e =>
      simp only [hending] at h
      cases h
    | stuck =>
      simp only [hending] at h
      cases h

theorem written_writeAllAux (h : (Sink.writeAllAux turns bs w).1 = .ok ()) :
    (Sink.writeAllAux turns bs w).2.written = w.written ++ bs := by
  induction turns generalizing bs w with
  | zero =>
    cases bs with
    | nil => simp [Sink.writeAllAux]
    | cons b bs => cases h
  | succ turns ih =>
    unfold Sink.writeAllAux at h ⊢
    cases bs with
    | nil => simp
    | cons b bs =>
      simp only [List.isEmpty_cons, Bool.false_eq_true, if_false] at h ⊢
      -- the outcome of one `write`
      rcases hwrite : w.write (b :: bs) with ⟨x, w'⟩
      rw [hwrite] at h
      cases x with
      | error a => cases h
      | ok n =>
        cases n with
        | zero => cases h
        | succ n =>
          have hw' : w'.written = w.written ++ (b :: bs).take (n + 1) := by
            have hfirst : (w.write (b :: bs)).1 = .ok (n + 1) := by rw [hwrite]
            have := written_write hfirst
            rwa [hwrite] at this
          simp only at h ⊢
          rw [ih h, hw', List.append_assoc, List.take_append_drop]

/-- **A `write_all` that returns has written everything.** -/
theorem writeAll_ok (h : (w.writeAll bs).1 = .ok ()) : (w.writeAll bs).2.written = w.written ++ bs := written_writeAllAux h

theorem andThen_of_ok {x : Io Unit × Sink} (h : x.1 = .ok ()) (next : Sink → Io Unit × Sink) :
    Sink.andThen x next = next x.2 := by
  obtain ⟨y, w⟩ := x
  obtain rfl : y = .ok () := h
  rfl

theorem andThen_ok {x : Io Unit × Sink} {next : Sink → Io Unit × Sink} (h : (Sink.andThen x next).1 = .ok ()) :
    x.1 = .ok () := by
  obtain ⟨y, w⟩ := x
  cases y with
  | error a => cases h
  | ok u => rfl

theorem flushed_snd (w : Sink) : w.flushed.2 = w := by
  unfold Sink.flushed
  cases w.flush <;> rfl

theorem writeFrame_eq_flush (p : List UInt8) (w : Sink) :
    w.writeFrame p = Sink.andThen (w.goWriteFrame p) Sink.flushed := by
  unfold Sink.writeFrame Sink.goWriteFrame
  rcases w.writeAll (toBe 4 (p.length % 2 ^ 32)) with ⟨x, w'⟩
  cases x <;> rfl

theorem written_goWriteFrame (h : (w.goWriteFrame p).1 = .ok ()) :
    (w.goWriteFrame p).2.written = w.written ++ writeFrame p := by
  have hlen := andThen_ok h
  rw [Sink.goWriteFrame, andThen_of_ok hlen] at h ⊢
  rw [writeAll_ok h, writeAll_ok hlen, List.append_assoc]
  rfl

theorem written_writeFrame (h : (w.writeFrame p).1 = .ok ()) :
    (w.writeFrame p).2.written = w.written ++ writeFrame p := by
  rw [writeFrame_eq_flush] at h ⊢
  have hgo := andThen_ok h
  rw [andThen_of_ok hgo, flushed_snd, written_goWriteFrame hgo]

end Written

/-! ## Streams that are given up -/

section GivenUp

variable {w w' : Sink} {bs p : List UInt8} {r r' : Stream UInt8}

theorem finished_write {x : Io ℕ} (h : w.write bs = (x, w')) : w'.finished = w.finished := by
  unfold Sink.write at h
  split at h
  · obtain ⟨-, rfl⟩ := Prod.mk.inj h
    rfl
  · split at h <;> obtain ⟨-, rfl⟩ := Prod.mk.inj h <;> rfl

theorem finished_writeAll (bs : List UInt8) (w : Sink) : (w.writeAll bs).2.finished = w.finished := by
  unfold Sink.writeAll
  generalize bs.length = turns
  fun_induction Sink.writeAllAux turns bs w with
  | case1 | case2 => rfl
  | case3 turns bs w hne w' hwrite => exact finished_write hwrite
  | case4 turns bs w hne n w' hwrite ih => exact ih.trans (finished_write hwrite)
  | case5 turns bs w hne a w' hwrite => exact finished_write hwrite

theorem finished_andThen {x : Io Unit × Sink} {next : Sink → Io Unit × Sink}
    (hnext : ∀ w, (next w).2.finished = w.finished) : (Sink.andThen x next).2.finished = x.2.finished := by
  obtain ⟨y, w⟩ := x
  cases y with
  | error a => rfl
  | ok u => exact hnext w

theorem finished_writeFrame (p : List UInt8) (w : Sink) : (w.writeFrame p).2.finished = w.finished := by
  unfold Sink.writeFrame
  rw [finished_andThen, finished_writeAll]
  intro w
  rw [finished_andThen fun w => by rw [flushed_snd], finished_writeAll]

/-- A part of `bs` is written, whatever has become of the rest. -/
def Wrote (bs : List UInt8) (w w' : Sink) : Prop := ∃ q, q <+: bs ∧ w'.written = w.written ++ q

theorem Wrote.refl (bs : List UInt8) (w : Sink) : Wrote bs w w := ⟨[], List.nil_prefix, (List.append_nil _).symm⟩

theorem wrote_write {x : Io ℕ} (h : w.write bs = (x, w')) : Wrote bs w w' := by
  unfold Sink.write at h
  split at h
  · obtain ⟨-, rfl⟩ := Prod.mk.inj h
    exact ⟨_, List.take_prefix _ _, rfl⟩
  · split at h <;> obtain ⟨-, rfl⟩ := Prod.mk.inj h
    · exact ⟨bs, List.prefix_rfl, rfl⟩
    · exact .refl bs w
    · exact .refl bs w

theorem wrote_writeAll (bs : List UInt8) (w : Sink) : Wrote bs w (w.writeAll bs).2 := by
  unfold Sink.writeAll
  generalize bs.length = turns
  fun_induction Sink.writeAllAux turns bs w with
  | case1 bs w | case2 turns bs w hempty => exact .refl bs w
  | case3 turns bs w hne w' hwrite => exact wrote_write hwrite
  | case5 turns bs w hne a w' hwrite => exact wrote_write hwrite
  | case4 turns bs w hne n w' hwrite ih =>
    -- what was taken, and then a part of what is left
    obtain ⟨q, hq, hrest⟩ := ih
    have htaken : w'.written = w.written ++ bs.take (n + 1) := by
      have hok : (w.write bs).1 = .ok (n + 1) := by rw [hwrite]
      have := written_write hok
      rwa [hwrite] at this
    refine ⟨bs.take (n + 1) ++ q, ?_, by rw [hrest, htaken, List.append_assoc]⟩
    have happend := (List.prefix_append_right_inj (bs.take (n + 1))).2 hq
    rwa [List.take_append_drop] at happend

/-- **`WriteFrame` writes a part of the frame**, whatever has become of the stream. -/
theorem wrote_goWriteFrame (p : List UInt8) (w : Sink) : Wrote (writeFrame p) w (w.goWriteFrame p).2 := by
  have hlen := wrote_writeAll (toBe 4 (p.length % 2 ^ 32)) w
  unfold Sink.goWriteFrame
  rcases hfirst : w.writeAll (toBe 4 (p.length % 2 ^ 32)) with ⟨x, w'⟩
  rw [hfirst] at hlen
  cases x with
  | error a =>
    obtain ⟨q, hq, hw⟩ := hlen
    exact ⟨q, hq.trans (List.prefix_append _ _), hw⟩
  | ok u =>
    have hok : (w.writeAll (toBe 4 (p.length % 2 ^ 32))).1 = .ok () := by rw [hfirst]
    have hw := writeAll_ok hok
    rw [hfirst] at hw
    obtain ⟨q, hq, hrest⟩ := wrote_writeAll p w'
    refine ⟨toBe 4 (p.length % 2 ^ 32) ++ q, (List.prefix_append_right_inj _).2 hq, ?_⟩
    change (w'.writeAll p).2.written = _
    change w'.written = _ at hw
    rw [hrest, hw, List.append_assoc]

theorem wrote_writeFrame (p : List UInt8) (w : Sink) : Wrote (writeFrame p) w (w.writeFrame p).2 := by
  have hgo := wrote_goWriteFrame p w
  rw [writeFrame_eq_flush]
  rcases hframe : w.goWriteFrame p with ⟨x, w'⟩
  rw [hframe] at hgo
  cases x with
  | error a => exact hgo
  | ok u =>
    simp only [Sink.andThen, flushed_snd]
    exact hgo

/-- **A client reads no other payload** from a stream with a part of the frame of `p` on it. -/
theorem eq_of_readFrame {q : List UInt8} (hp : p.length < 2 ^ 32) (hq : q <+: writeFrame p) (hr : ∀ seg ∈ r.segs, seg ≠ [])
    (hflat : r.flat = q) (h : readFrame r = .ok (bs, r')) : bs = p := by
  obtain ⟨hbs, hframe⟩ := (readFrame_eq_ok hr).1 ⟨r', h, rfl⟩
  obtain ⟨more, hmore⟩ := hq
  rw [← hflat, hframe, List.append_assoc] at hmore
  exact prefixFree_writeFrame bs p _ [] hbs hp (by rw [hmore, List.append_nil])

/-- `ReadFrame` returns what `read_frame` returns. -/
theorem goReadFrame_ok_iff : goReadFrame r = .ok (p, r') ↔ readFrame r = .ok (p, r') := by
  have hsame := goReadFrame_eq r
  constructor
  · intro h
    rw [h] at hsame
    cases hread : readFrame r with
    | error a =>
      rw [hread] at hsame
      cases hsame
    | ok x =>
      rw [hread] at hsame
      exact congrArg _ (Except.ok.inj hsame).symm
  · intro h
    rw [h] at hsame
    cases hgo : goReadFrame r with
    | error a =>
      rw [hgo] at hsame
      cases hsame
    | ok x =>
      rw [hgo] at hsame
      exact congrArg _ (Except.ok.inj hsame)

end GivenUp

def Sink.new : Sink := { written := [], takes := [], ending := .done, flush := .done, finished := false }

/-- The stream takes everything from now on. -/
def Sink.Ready (w : Sink) : Prop := w.takes = [] ∧ w.ending = .done ∧ w.flush = .done

theorem writeAll_ready {w : Sink} (h : w.Ready) (bs : List UInt8) :
    (w.writeAll bs).1 = .ok () ∧ (w.writeAll bs).2.Ready := by
  obtain ⟨htakes, hending, hflush⟩ := h
  cases bs with
  | nil => exact ⟨rfl, htakes, hending, hflush⟩
  | cons b bs =>
    have hwrite : w.write (b :: bs) = (.ok (bs.length + 1), { w with written := w.written ++ b :: bs }) := by
      unfold Sink.write
      rw [htakes, hending]
      rfl
    have hall : w.writeAll (b :: bs) = (.ok (), { w with written := w.written ++ b :: bs }) := by
      rw [Sink.writeAll, List.length_cons, Sink.writeAllAux, hwrite]
      simp only [List.isEmpty_cons, Bool.false_eq_true, if_false, List.drop_succ_cons, List.drop_length]
      cases bs <;> rfl
    rw [hall]
    exact ⟨rfl, htakes, hending, hflush⟩

/-! ## Payloads -/

/-- A call of `handle_quic_stream` hands the payload to `write_frame`. -/
def Handed (p : List UInt8) : Prop := ∃ kind t, (handleQuicStream kind t).frame = some p

/-- **The payload is not framed wrongly**: unless `write` returns an error, reading what it wrote gives the payload and
leaves nothing. -/
def Framed (write : List UInt8 → Sink → Io Unit × Sink) (p : List UInt8) : Prop :=
  ∀ send : Sink, send.written = [] → (write p send).1 = .ok () → ∀ r : Stream UInt8, (∀ seg ∈ r.segs, seg ≠ []) →
    r.flat = (write p send).2.written → ∃ r', readFrame r = .ok (p, r') ∧ r'.flat = []

section Payload

variable {kind : ForwarderKind} {t : QuicTalk} {p : List UInt8}

theorem readResponse_of_forward {sent : Sent} {answer : Source} {resp : Response} (h : forward sent answer = .ok resp) :
    ∃ r, readResponse answer.1 = .ok (resp, r) := by
  obtain ⟨-, -, h⟩ := bind_eq_ok.1 h
  obtain ⟨⟨resp', r⟩, hread, h⟩ := bind_eq_ok.1 h
  obtain rfl := Except.ok.inj h
  exact ⟨r, hread⟩

theorem frame_eq_some : (handleQuicStream kind t).frame = some p ↔
    ∃ payload r resp, readFrame t.recv.1 = .ok (payload, r) ∧
      (kind.forward t.addr (echoRequest t.addr payload) t.peer).2 = .ok resp ∧ resp.body = p := by
  fun_cases handleQuicStream kind t <;> simp_all

theorem readResponse_of_ok {addr : String} {req : Request} {peer : Peer} {resp : Response}
    (h : (kind.forward addr req peer).2 = .ok resp) :
    ∃ (answer : Source) (r : BufReader UInt8), readResponse answer.1 = .ok (resp, r) := by
  have hforwarded := forwarded kind ⟨⟨⟨[], .eof⟩, by simp⟩, addr, 0, peer, .done⟩ req
  simp only [h] at hforwarded
  generalize (kind.forward addr req peer).1 = fx at hforwarded
  generalize hx : (.ok resp : Except (Halt UpstreamError) Response) = x at hforwarded
  cases hforwarded with
  | @dialed c sent answer => exact ⟨answer, readResponse_of_forward hx.symm⟩
  | @pooled addrs c sent answer => exact ⟨answer, readResponse_of_forward hx.symm⟩
  | failed => cases hx
  | waits => cases hx

/-- **The payloads that can be handed to `write_frame`**: `read_response` returns every body that can be allocated. -/
theorem handed_iff (p : List UInt8) : Handed p ↔ p.length < 2 ^ 63 := by
  constructor
  · rintro ⟨kind, t, hframe⟩
    obtain ⟨payload, -, resp, -, hforward, rfl⟩ := frame_eq_some.1 hframe
    obtain ⟨answer, r, hread⟩ := readResponse_of_ok hforward
    obtain ⟨rest, hdecode, -⟩ := decode_of_readResponse answer.2 hread
    exact (wellRead_decode hdecode).body
  · intro hp
    let resp : Response := { statusCode := 200, headers := [], body := p }
    have hwell : WellRead resp := ⟨show 200 < 2 ^ 16 by decide, HeaderMap.wellRead_nil, hp⟩
    have hne : writeResponse resp ≠ [] := by
      intro hnil
      have hdecode := decode_writeResponse hwell .eof []
      rw [hnil] at hdecode
      cases hdecode
    let answer : Source := ⟨⟨[writeResponse resp], .eof⟩, by simpa using hne⟩
    have hdecode : decode answer.1.ending answer.1.flat = .ok ({ resp with headers := sentHeaders resp }, []) := by
      have := decode_writeResponse hwell .eof []
      simpa [answer, Stream.flat] using this
    obtain ⟨r, hread, -⟩ := readResponse_of_decode answer.2 hdecode
    let recv : Source := ⟨⟨[writeFrame []], .eof⟩, by decide⟩
    obtain ⟨r', hframe, -⟩ : ∃ r', readFrame recv.1 = .ok ([], r') ∧ r'.flat = [] :=
      (readFrame_eq_ok recv.2).2 ⟨by decide, by decide⟩
    have hforward : forward .done answer = .ok { resp with headers := sentHeaders resp } :=
      bind_eq_ok.2 ⟨(), rfl, bind_eq_ok.2 ⟨_, hread, rfl⟩⟩
    exact ⟨.dial, ⟨recv, "a", 0, .conn ⟨"a", 0⟩ .done answer, .new⟩, frame_eq_some.2 ⟨[], r', _, hframe, hforward, rfl⟩⟩

theorem framed_of_written {write : List UInt8 → Sink → Io Unit × Sink}
    (hwrite : ∀ p w, (write p w).1 = .ok () → (write p w).2.written = w.written ++ writeFrame p)
    (hready : ∀ p w, w.Ready → (write p w).1 = .ok ()) (p : List UInt8) : Framed write p ↔ p.length < 2 ^ 32 := by
  constructor
  · intro h
    have hnew : Sink.new.Ready := ⟨rfl, rfl, rfl⟩
    have hok := hready p _ hnew
    have hwritten := hwrite p _ hok
    have hwf : ∀ seg ∈ (⟨[writeFrame p], .eof⟩ : Stream UInt8).segs, seg ≠ [] := by
      intro seg hseg
      rw [List.mem_singleton.1 hseg]
      exact writeFrame_ne_nil p
    have hread := h .new rfl hok ⟨[writeFrame p], .eof⟩ hwf (by rw [hwritten]; simp [Stream.flat, Sink.new])
    exact ((readFrame_eq_ok hwf).1 hread).1
  · intro hp send hfresh hok r hr hflat
    rw [hwrite p send hok, hfresh, List.nil_append] at hflat
    exact (readFrame_eq_ok hr).2 ⟨hp, by rw [hflat, List.append_nil]⟩

theorem goWriteFrame_ready (p : List UInt8) (w : Sink) (h : w.Ready) :
    (w.goWriteFrame p).1 = .ok () ∧ (w.goWriteFrame p).2.Ready := by
  obtain ⟨hlen, hready⟩ := writeAll_ready h (toBe 4 (p.length % 2 ^ 32))
  rw [Sink.goWriteFrame, andThen_of_ok hlen]
  exact writeAll_ready hready p

theorem writeFrame_ready (p : List UInt8) (w : Sink) (h : w.Ready) : (w.writeFrame p).1 = .ok () := by
  obtain ⟨hok, -, -, hflush⟩ := goWriteFrame_ready p w h
  rw [writeFrame_eq_flush, andThen_of_ok hok, Sink.flushed, hflush]

end Payload

/-- **Which payloads are framed wrongly.**  A call of `handle_quic_stream` can hand every body that can be allocated to
`write_frame`; both `write_frame` and `WriteFrame` frame a payload wrongly, without an error, unless its length is a `u32`. -/
theorem framed_iff (p : List UInt8) : (Handed p ↔ p.length < 2 ^ 63) ∧
    (Framed Sink.writeFrame p ↔ p.length < 2 ^ 32) ∧ (Framed Sink.goWriteFrame p ↔ p.length < 2 ^ 32) := by
  refine ⟨handed_iff p, ?_, ?_⟩
  · exact framed_of_written (fun _ _ => written_writeFrame) writeFrame_ready p
  · exact framed_of_written (fun _ _ => written_goWriteFrame) (fun p w h => (goWriteFrame_ready p w h).1) p

/-- **The counter-example.**  An upstream answers with `2 ^ 32` bytes; they are sent behind the length `0`. -/
theorem huge_body_misframed : ¬ ∀ p, Handed p → Framed Sink.writeFrame p := by
  intro h
  have hhanded : Handed (List.replicate (2 ^ 32) 0) := (handed_iff _).2 (by rw [List.length_replicate]; decide)
  have hframed := framed_of_written (fun _ _ => written_writeFrame) writeFrame_ready (List.replicate (2 ^ 32) (0 : UInt8))
  have hlt := hframed.1 (h _ hhanded)
  rw [List.length_replicate] at hlt
  exact Nat.lt_irrefl _ hlt

end ServiceProxy.QuicProxy
