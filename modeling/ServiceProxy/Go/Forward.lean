import ServiceProxy.Go.PoolLend
import ServiceProxy.Go.Dial
import ServiceProxy.Lib.ExchangeRun
import ServiceProxy.Lib.Rfc9112Reply

/-!
# Forwarding over pooled connections in Go (`ForwardPooled`)

The calls of `ForwardPooled` on one pool, any number of them, as exchanges over its connections.  The upstream delimits
requests by their `Content-Length` line, and answers each with interim responses and a final one (`Answer`).  Of
`http.ReadResponse` with a `nil` request it is assumed that it parses exactly one response, interim or final, as the answer
to a `GET` (`ReadsOneResponse`).

`forwardPooled_correct`: responses are not mixed up, as long as the upstream sends no interim response; when it sends one, what
is returned for it is wrong (`interim_mismatch`).
-/

namespace ServiceProxy.Go

open ServiceProxy.Lib
open ServiceProxy.Lib.Exchange (Protocol Net Correct Sound)
open ServiceProxy.Lib.Rfc9112 (StatusHead Reply ReplyBody ReplyHead Extent Field)

/-! ## The library -/

/-- **What is assumed of `http.ReadResponse(r, nil)` and `io.ReadAll`**: they return nothing before the end of a response,
then exactly this response, and what follows it does not matter. -/
structure ReadsOneResponse {β : Type} (net : NetHttp β) : Prop where
  part : ∀ {r : Reply} {segs : List (List UInt8)} {more : List UInt8} {e : Ending} {resp : Response} {left : List UInt8},
    (∀ seg ∈ segs, seg ≠ []) → segs.flatten ++ more = r.bytes → (r.EndsAtClose → e = .eof → more = []) →
    readResponse net ⟨segs, e⟩ = .ok (resp, left) →
    more = [] ∧ left = [] ∧ resp.statusCode = r.head.code ∧ resp.body = r.body.data
  whole : ∀ {r : Reply} {segs : List (List UInt8)} {more : List UInt8} {e : Ending} {resp : Response} {left : List UInt8},
    (∀ seg ∈ segs, seg ≠ []) → segs.flatten = r.bytes ++ more → ¬ r.EndsAtClose →
    readResponse net ⟨segs, e⟩ = .ok (resp, left) → resp.statusCode = r.head.code ∧ resp.body = r.body.data

/-! ## The upstream -/

/-- What the upstream sends for one request: interim responses and a final one.  To a `HEAD` it sends the head of the
response that a `GET` would get. -/
structure Answer where
  method : List Char
  interims : List StatusHead
  final : Reply
  interim : ∀ h ∈ interims, h.code < 200
  status : 200 ≤ final.head.code

def Answer.isHead (a : Answer) : Bool := a.method = "HEAD".toList

def Answer.bytes (a : Answer) : List UInt8 :=
  a.interims.flatMap StatusHead.bytes ++ (a.final.head.bytes ++ if a.isHead then [] else a.final.body.bytes)

/-- The body of the final response. -/
def Answer.body (a : Answer) : List UInt8 := if a.isHead then [] else a.final.body.data

/-- The response carries the status and the body of the final response. -/
def Carries (a : Answer) (resp : Response) : Prop := resp.statusCode = a.final.head.code ∧ resp.body = a.body

/-- `writeRequest` and `readResponse`, and the upstream. -/
def protocol {β : Type} (net : NetHttp β) : Protocol UInt8 Request Answer Response IoError where
  encode := writeRequest
  delimit := Rfc9112.delimit
  bytes := Answer.bytes
  read := readResponse net

/-- The upstream answers the request it has received. -/
def InTurn (s : Net Sys Conn UInt8 Answer Response) : Exchange.Ev Ev Conn Answer → Prop
  | .serve c a => utf8Encode a.method ++ [32] <+: (s.links c).unanswered
  | _ => True

/-- It sends no interim response. -/
def OnlyFinal (_ : Net Sys Conn UInt8 Answer Response) : Exchange.Ev Ev Conn Answer → Prop
  | .serve _ a => a.interims.length = 0
  | _ => True

instance (s : Net Sys Conn UInt8 Answer Response) (e : Exchange.Ev Ev Conn Answer) : Decidable (InTurn s e) := by
  cases e <;> unfold InTurn <;> infer_instance

instance (s : Net Sys Conn UInt8 Answer Response) (e : Exchange.Ev Ev Conn Answer) : Decidable (OnlyFinal s e) := by
  cases e <;> unfold OnlyFinal <;> infer_instance

/-! ## Reading an answer -/

section Reading

variable {β : Type} {net : NetHttp β} {a : Answer} {segs : List (List UInt8)} {more left : List UInt8} {e : Ending}
  {resp : Response}

/-- The answer to a `HEAD`, which is read as if its body followed. -/
theorem read_head (hnet : ReadsOneResponse net) (hhead : a.isHead = true) (hne : ∀ seg ∈ segs, seg ≠ [])
    (hbytes : segs.flatten ++ more = a.final.head.bytes) (he : e = .open ∨ e = .eof ∧ more = [])
    (hread : readResponse net ⟨segs, e⟩ = .ok (resp, left)) : left = [] ∧ more = [] ∧ Carries a resp := by
  have hbody : a.body = [] := if_pos hhead
  by_cases hclose : a.final.EndsAtClose
  · -- the body may be empty
    obtain ⟨body, hb⟩ := hclose
    have hframed := a.final.framed
    rw [hb] at hframed
    let r : Reply := ⟨a.final.head, .untilClose [], hframed⟩
    have hr : segs.flatten ++ more = r.bytes := by simpa [Reply.bytes, ReplyBody.bytes, r] using hbytes
    obtain ⟨rfl, rfl, hcode, hdata⟩ := hnet.part hne hr (fun _ heof => he.elim (by simp [heof]) And.right) hread
    exact ⟨rfl, rfl, hcode, hdata.trans hbody.symm⟩
  · have hr : segs.flatten ++ (more ++ a.final.body.bytes) = a.final.bytes := by
      rw [← List.append_assoc, hbytes]
      rfl
    obtain ⟨hnil, rfl, hcode, hdata⟩ := hnet.part hne hr (fun h => absurd h hclose) hread
    obtain ⟨rfl, hempty⟩ := List.append_eq_nil_iff.1 hnil
    refine ⟨rfl, rfl, hcode, ?_⟩
    rw [hdata, hbody]
    cases hb : a.final.body with
    | none => rfl
    | sized body => rwa [hb] at hempty
    | untilClose body => rwa [hb] at hempty
    | chunked b =>
      rw [hb] at hempty
      simp [ReplyBody.bytes, Rfc9112.ChunkedBody.bytes, Rfc9112.crlf] at hempty

/-- **`readResponse` is a sound reader** of answers without interim responses. -/
theorem sound_final (hnet : ReadsOneResponse net) : Sound (protocol net) (fun a => a.interims.length = 0) Carries where
  delimit_nil := rfl
  read_nil := by
    -- nothing is a part of every response
    rintro ⟨resp, left⟩ hread
    have hempty : ([] : List (List UInt8)).flatten ++ Reply.noContent.bytes = Reply.noContent.bytes := rfl
    have hclose : ¬ Reply.noContent.EndsAtClose := Reply.not_endsAtClose_bodiless _ _
    exact absurd (hnet.part (by simp) hempty (fun h => absurd h hclose) hread).1 (by decide)
  read_exact := by
    intro a segs more e resp left ha hne hbytes he hread
    have hinterims : a.interims = [] := List.length_eq_zero_iff.1 ha
    simp only [protocol, Answer.bytes, hinterims, List.flatMap_nil, List.nil_append] at hbytes hread
    cases hhead : a.isHead with
    | true =>
      rw [hhead, if_pos rfl, List.append_nil] at hbytes
      exact read_head hnet hhead hne hbytes he hread
    | false =>
      rw [hhead, if_neg (by simp)] at hbytes
      have hbody : a.body = a.final.body.data := if_neg (by simp [hhead])
      obtain ⟨rfl, rfl, hcode, hdata⟩ := hnet.part hne hbytes (fun _ heof => he.elim (by simp [heof]) And.right) hread
      exact ⟨rfl, rfl, hcode, hdata.trans hbody.symm⟩

/-- **An interim response is taken for the final one.** -/
theorem interim_mismatch (hnet : ReadsOneResponse net) (ha : a.interims ≠ []) (hne : ∀ seg ∈ segs, seg ≠ [])
    (hbytes : segs.flatten ++ more = a.bytes) (hread : readResponse net ⟨segs, e⟩ = .ok (resp, left)) :
    ¬ Carries a resp := by
  obtain ⟨h, hs, hinterims⟩ := List.exists_cons_of_ne_nil ha
  have hcode : h.code < 200 := a.interim h (by simp [hinterims])
  have hfinal := a.status
  have hclose : ¬ (Reply.bodiless h (.inl hcode)).EndsAtClose := Reply.not_endsAtClose_bodiless _ _
  have hstart : h.bytes <+: segs.flatten ++ more := by
    rw [hbytes, Answer.bytes, hinterims, List.flatMap_cons, List.append_assoc]
    exact List.prefix_append _ _
  have hbodiless : (Reply.bodiless h (.inl hcode)).bytes = h.bytes := List.append_nil _
  suffices resp.statusCode = h.code by
    rintro ⟨hstatus, -⟩
    omega
  rcases Nat.lt_or_ge segs.flatten.length h.bytes.length with hlt | hge
  · -- a part of the interim response
    obtain ⟨rest, hrest⟩ := List.prefix_of_prefix_length_le (List.prefix_append _ more) hstart (Nat.le_of_lt hlt)
    exact (hnet.part hne (hrest.trans hbodiless.symm) (fun h => absurd h hclose) hread).2.2.1
  · obtain ⟨rest, hrest⟩ := List.prefix_of_prefix_length_le hstart (List.prefix_append _ more) hge
    have hwhole : segs.flatten = (Reply.bodiless h (.inl hcode)).bytes ++ rest := by rw [hbodiless, hrest]
    exact (hnet.whole hne hwhole hclose hread).1

end Reading

/-! ## Runs -/

/-- **Pooled forwarding in Go does not mix up responses.**  Any number of calls of `ForwardPooled`, the `i`-th with the
request `reqs i`, in any interleaving, with any segments and any failures: every call that returns no error returns the
status and the body of the final response to that very request and hands back a connection on which everything is read;
provided that the upstream sends no interim response.  What is returned for an answer with one is wrong. -/
theorem forwardPooled_correct {β : Type} {net : NetHttp β} (hnet : ReadsOneResponse net) {addr : String} {maxSize : ℕ}
    {reqs : ℕ → Request} (hreqs : ∀ i, Carried (reqs i)) {es : List (Exchange.Ev Ev Conn Answer)}
    {t : Net Sys Conn UInt8 Answer Response}
    (h : Run (Exchange.step pooling (protocol net) reqs) (fun s e => InTurn s e ∧ OnlyFinal s e)
      (Net.new (Sys.new addr maxSize)) es t) :
    Correct pooling (protocol net) reqs Carries t ∧
      ∀ (a : Answer) (segs : List (List UInt8)) (more : List UInt8) (e : Ending) (resp : Response) (left : List UInt8),
        a.interims ≠ [] → (∀ seg ∈ segs, seg ≠ []) → segs.flatten ++ more = a.bytes →
        readResponse net ⟨segs, e⟩ = .ok (resp, left) → ¬ Carries a resp := by
  refine ⟨?_, fun _ _ _ _ _ _ ha hne hbytes => interim_mismatch hnet ha hne hbytes⟩
  refine Exchange.run_correct discipline (sound_final hnet) (fun i n k hk => ?_) (fun _ _ _ ha => ha.2)
    (placed_new addr maxSize) (fun i => rfl) h
  exact Rfc9112.delimit_take (delimit_writeRequest (hreqs i)) hk

/-! ## The library on small segments -/

/-- `Header.Add`. -/
def Header.add (k : List Char) (v : List UInt8) : Header → Header
  | [] => [(k, [v])]
  | (k', vs) :: m => if k' = k then (k', vs ++ [v]) :: m else (k', vs) :: add k v m

def Header.values (k : List Char) (h : Header) : List (List UInt8) := ((h.find? fun p => p.1 = k).map Prod.snd).getD []

section Values

variable {k k' : List Char} {v : List UInt8} {h : Header}

theorem Header.values_add : (Header.add k' v h).values k = if k' = k then h.values k ++ [v] else h.values k := by
  induction h with
  | nil =>
    by_cases hk : k' = k <;> simp [Header.add, Header.values, hk]
  | cons p h ih =>
    obtain ⟨n, vs⟩ := p
    unfold Header.values at ih ⊢
    by_cases hn : n = k'
    · subst hn
      by_cases hk : n = k <;> simp [Header.add, hk]
    · by_cases hk : n = k
      · subst hk
        simp [Header.add, hn, Ne.symm hn]
      · simpa [Header.add, hn, hk] using ih

theorem Header.values_foldl_add (fs : List (List Char × List UInt8)) (h : Header) :
    (fs.foldl (fun m p => Header.add (canonicalMIMEHeaderKey p.1) p.2 m) h).values k =
      h.values k ++ (fs.filter fun p => canonicalMIMEHeaderKey p.1 = k).map Prod.snd := by
  induction fs generalizing h with
  | nil => simp
  | cons p fs ih =>
    rw [List.foldl_cons, ih, Header.values_add]
    by_cases hk : canonicalMIMEHeaderKey p.1 = k
    · rw [if_pos hk, List.filter_cons_of_pos (by simpa using hk), List.map_cons, List.append_assoc, List.singleton_append]
    · rw [if_neg hk, List.filter_cons_of_neg (by simpa using hk)]

end Values

/-- The library on segments that fit in its buffer: it reads what has arrived, and what is behind the response is lost with
the buffer.  The state of a body is how the connection ends, the bytes behind the head, and where the body ends. -/
def bufferedHttp : NetHttp (Ending × List UInt8 × Extent) where
  readResponse conn :=
    match Rfc9112.readReplyHead conn.flat with
    | none => Plain.atEnd (.error (.err .unexpectedEof)) conn.ending
    | some (h, rest) =>
      match h.extent with
      | none => .error (.err .invalidData)
      | some x =>
        .ok
          { statusCode := h.code
            header := h.fields.foldl (fun m p => Header.add (canonicalMIMEHeaderKey p.1) p.2 m) []
            body := (conn.ending, rest, x) }
  readAll b :=
    match Rfc9112.readReplyBody (b.1 = .eof) b.2.1 b.2.2 with
    | some (body, _) => .ok (body, [])
    | none => Plain.atEnd (.error (.err .unexpectedEof)) b.1

theorem atEnd_ne_ok {α : Type} (e : Ending) (x : α) :
    Plain.atEnd (.error (.err .unexpectedEof)) e ≠ (.ok x : Io α) := by
  cases e <;> simp [Plain.atEnd]

theorem readReply_of_bufferedHttp {segs : List (List UInt8)} {e : Ending} {resp : Response} {left : List UInt8}
    (h : readResponse bufferedHttp ⟨segs, e⟩ = .ok (resp, left)) :
    left = [] ∧ ∃ head rest, Rfc9112.readReply (e = .eof) segs.flatten = some ((head, resp.body), rest) ∧
      resp.statusCode = head.code := by
  obtain ⟨⟨code, header, e', rest, x⟩, hresp, h⟩ := bind_eq_ok.1 h
  obtain ⟨⟨body, left'⟩, hall, h⟩ := bind_eq_ok.1 h
  obtain ⟨rfl, rfl⟩ := Prod.mk.inj (Except.ok.inj h)
  simp only [bufferedHttp] at hresp hall
  split at hresp
  · exact absurd hresp (atEnd_ne_ok _ _)
  · rename_i head rest' hhead
    split at hresp
    · cases hresp
    · rename_i x' hx
      obtain ⟨rfl, rfl, rfl, rfl, rfl⟩ : head.code = code ∧ _ = header ∧ e = e' ∧ rest' = rest ∧ x' = x := by
        simpa using hresp
      split at hall
      · rename_i body' rest'' hbody
        obtain ⟨rfl, rfl⟩ := Prod.mk.inj (Except.ok.inj hall)
        refine ⟨rfl, head, rest'', ?_, rfl⟩
        rw [Rfc9112.readReply, show Rfc9112.readReplyHead segs.flatten = some (head, rest') from hhead, Option.bind_some, hx,
          Option.bind_some, hbody]
        rfl
      · exact absurd hall (atEnd_ne_ok _ _)

/-- **It reads one response.** -/
theorem readsOneResponse_bufferedHttp : ReadsOneResponse bufferedHttp where
  part := by
    intro r segs more e resp left _ hbytes hclose hread
    obtain ⟨hleft, head, rest, hreply, hcode⟩ := readReply_of_bufferedHttp hread
    obtain ⟨hmore, -, rfl, hdata⟩ := Rfc9112.readReply_part hbytes (fun h heof => hclose h (by simpa using heof)) hreply
    exact ⟨hmore, hleft, hcode, hdata⟩
  whole := by
    intro r segs more e resp left _ hbytes hclose hread
    obtain ⟨-, head, rest, hreply, hcode⟩ := readReply_of_bufferedHttp hread
    rw [hbytes, Rfc9112.readReply_whole hclose, Option.some.injEq, Prod.mk.injEq, Prod.mk.injEq] at hreply
    obtain ⟨⟨rfl, hdata⟩, -⟩ := hreply
    exact ⟨hcode, hdata.symm⟩

/-! ## Two runs -/

/-- `HTTP/1.1 200 OK` with the body `h`, to a `GET`. -/
def okAnswer : Answer where
  method := "GET".toList
  interims := []
  final := ⟨Rfc9112.okHead Rfc9112.lengthOne, .sized [104], by unfold Rfc9112.FramedReply; decide⟩
  interim := by simp
  status := by decide

/-- `HTTP/1.1 200 OK` with `hello` in one chunk, to a `GET`. -/
def chunkedAnswer : Answer where
  method := "GET".toList
  interims := []
  final := ⟨Rfc9112.okHead Rfc9112.chunkedField, .chunked Rfc9112.helloChunk, by unfold Rfc9112.FramedReply; decide⟩
  interim := by simp
  status := by decide

/-- `GET / HTTP/1.1`. -/
def getRoot : Request := ⟨"GET".toList, [47], [], [], []⟩

theorem carried_getRoot : Carried getRoot where
  method := by decide
  path := by decide
  host := by decide
  key := by simp [getRoot]
  value := by simp [getRoot]

def conn0 : Conn := ⟨"u:1", 0⟩

/-- The call `0` dials a connection and gets one answer in two segments; the call `1` gets the connection from the channel
and another answer on it. -/
def reusing : List (Exchange.Ev Ev Conn Answer) :=
  [.pool .call, .pool (.run 0 .recv), .pool (.run 0 .add), .pool (.run 0 .dialOk), .start 0, .call 0 (.write 61),
    .call 0 .flush, .serve conn0 okAnswer, .call 0 (.recv 10), .call 0 (.recv 29), .done 0, .pool (.send 0 none),
    .pool .call, .pool (.run 1 .recv), .start 1, .call 1 (.write 61), .call 1 .flush, .serve conn0 chunkedAnswer,
    .call 1 (.recv 62), .done 1, .pool (.send 1 none)]

/-- Two calls, one after the other on one connection. -/
theorem forwardPooled_correct_reused :
    ∃ t, ReadsOneResponse bufferedHttp ∧
      Run (Exchange.step pooling (protocol bufferedHttp) fun _ => getRoot) (fun s e => InTurn s e ∧ OnlyFinal s e)
        (Net.new (Sys.new "u:1" 1)) reusing t ∧
      (t.calls 0).map (fun call => call.phase) =
        some (.returned ⟨200, [("Content-Length".toList, [[49]])], [104]⟩) ∧
      (t.calls 1).map (fun call => call.phase) =
        some (.returned ⟨200, [("Transfer-Encoding".toList, [utf8Encode "chunked".toList])], utf8Encode "hello".toList⟩) ∧
      t.pool.shared.conns = [conn0] ∧ Correct pooling (protocol bufferedHttp) (fun _ => getRoot) Carries t := by
  have hrun : Run (Exchange.step pooling (protocol bufferedHttp) fun _ => getRoot)
      (fun s e => InTurn s e ∧ OnlyFinal s e) (Net.new (Sys.new "u:1" 1)) reusing _ := Run.of_exec_get (by decide)
  exact ⟨_, readsOneResponse_bufferedHttp, hrun, by decide, by decide, by decide,
    (forwardPooled_correct readsOneResponse_bufferedHttp (fun _ => carried_getRoot) hrun).1⟩

/-- `PUT / HTTP/1.1` with `Expect: 100-continue`. -/
def putExpecting : Request :=
  ⟨"PUT".toList, [47], [], [("Expect".toList, [utf8Encode "100-continue".toList])], [120]⟩

theorem carried_putExpecting : Carried putExpecting where
  method := by decide
  path := by decide
  host := by decide
  key := by
    intro k vs hmem
    obtain ⟨rfl, -⟩ := Prod.mk.inj (List.mem_singleton.1 hmem)
    decide
  value := by
    intro k vs hmem v hv
    obtain ⟨-, rfl⟩ := Prod.mk.inj (List.mem_singleton.1 hmem)
    obtain rfl := List.mem_singleton.1 hv
    decide

/-- `HTTP/1.1 100 Continue` and `HTTP/1.1 200 OK`, to a `PUT`. -/
def continueAnswer : Answer where
  method := "PUT".toList
  interims :=
    [{ minor := '1', code := 100, reason := utf8Encode "Continue".toList, fields := []
       minor_digit := Rfc9112.isDigit_one, code_ge := by decide, code_lt := by decide, valid := by decide }]
  final := okAnswer.final
  interim := by simp
  status := by decide

/-- The call reads the interim response. -/
def continuing : List (Exchange.Ev Ev Conn Answer) :=
  [.pool .call, .pool (.run 0 .recv), .pool (.run 0 .add), .pool (.run 0 .dialOk), .start 0,
    .call 0 (.write (writeRequest putExpecting).length), .call 0 .flush, .serve conn0 continueAnswer, .call 0 (.recv 25),
    .done 0, .pool (.send 0 none)]

/-- **The counter-example.**  The upstream answers a `PUT` with `Expect: 100-continue` by `100 Continue` and `200 OK`.  The
call returns the interim response, and the connection goes back to the pool with the final one on it. -/
theorem interim_response_returned :
    ¬ ∀ (β : Type) (net : NetHttp β), ReadsOneResponse net →
      ∀ (addr : String) (maxSize : ℕ) (reqs : ℕ → Request) (es : List (Exchange.Ev Ev Conn Answer))
        (t : Net Sys Conn UInt8 Answer Response), (∀ i, Carried (reqs i)) →
        Run (Exchange.step pooling (protocol net) reqs) InTurn (Net.new (Sys.new addr maxSize)) es t →
        Correct pooling (protocol net) reqs Carries t := by
  intro h
  have hrun : Run (Exchange.step pooling (protocol bufferedHttp) fun _ => putExpecting) InTurn
      (Net.new (Sys.new "u:1" 1)) continuing _ := Run.of_exec_get (by decide)
  have hcorrect := h _ _ readsOneResponse_bufferedHttp _ _ _ _ _ (fun _ => carried_putExpecting) hrun
  have hflight := (hcorrect.settled conn0 (by decide)).1
  revert hflight
  decide

end ServiceProxy.Go
