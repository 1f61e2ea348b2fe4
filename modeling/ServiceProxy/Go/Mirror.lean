import ServiceProxy.Go.Sent
import ServiceProxy.Upstream.WriteResponse

/-!
# The messages of both implementations (`dial.go`, `dial.rs`)

The module `upstream` of Rust mirrors that of Go.  Both write requests and responses by hand, and both leave out the keys that
they write themselves: Go those in canonical spelling, Rust those in any.

* `copied_eq_iff` — when two sets of keys leave the same lines;
* `writeRequest_eq_iff`, `writeResponse_eq_iff` — when both send the same bytes, for the same header in the same order;
* `writers_mirror` — both together, and what is special about canonical keys.
-/

namespace ServiceProxy.Go

open ServiceProxy.Lib
open ServiceProxy.Lib.Rfc9112 (isFieldByte)
open ServiceProxy.Upstream (HeaderMap)

/-! ## From Rust to Go -/

/-- A map of Rust as a header: a string is its bytes. -/
def Header.ofMap (m : HeaderMap) : Header := m.map fun p => (p.1, p.2.map utf8Encode)

def Request.ofRust (req : Upstream.Request) : Request where
  method := req.method
  path := utf8Encode req.path
  host := utf8Encode req.host
  header := .ofMap req.headers
  body := req.body

def Response.ofRust (resp : Upstream.Response) : Response where
  statusCode := resp.statusCode
  header := .ofMap resp.headers
  body := resp.body

/-! ## The lines that are copied -/

section Copied

variable {skips skips' : List Char → Bool} {k : List Char}

theorem headerLine_encode (k v : List Char) : headerLine k (utf8Encode v) = utf8Encode (Upstream.headerLine k v) := by
  have hcrlf : Rfc9112.crlf = utf8Encode Upstream.crlf := by decide
  simp only [headerLine, Upstream.headerLine, hcrlf, utf8Encode_append]

theorem flatMap_headerLine (k : List Char) (vs : List (List Char)) :
    (vs.map utf8Encode).flatMap (headerLine k) = utf8Encode (vs.flatMap (Upstream.headerLine k)) := by
  induction vs with
  | nil => rfl
  | cons v vs ih => simp only [List.map_cons, List.flatMap_cons, utf8Encode_append, ih, headerLine_encode]

theorem flatMap_headerLine_ne_nil {vs : List (List Char)} (h : vs ≠ []) :
    0 < ((vs.map utf8Encode).flatMap (headerLine k)).length := by
  obtain ⟨v, vs, rfl⟩ := List.exists_cons_of_ne_nil h
  simp [headerLine, Rfc9112.crlf]

/-- The lines of Go, which leaves out the keys `skips`. -/
def goLines (skips : List Char → Bool) (m : HeaderMap) : List UInt8 :=
  (Header.ofMap m).flatMap fun (k, values) => if skips k then [] else values.flatMap (headerLine k)

/-- The lines of Rust, which leaves out the keys `skips`. -/
def rustLines (skips : List Char → Bool) (m : HeaderMap) : List Char :=
  m.flatMap fun (k, values) => if skips k then [] else values.flatMap (Upstream.headerLine k)

theorem goLines_cons (skips : List Char → Bool) (k : List Char) (vs : List (List Char)) (m : HeaderMap) :
    goLines skips ((k, vs) :: m) = (if skips k then [] else (vs.map utf8Encode).flatMap (headerLine k)) ++ goLines skips m := rfl

theorem rustLines_cons (skips : List Char → Bool) (k : List Char) (vs : List (List Char)) (m : HeaderMap) :
    utf8Encode (rustLines skips ((k, vs) :: m)) =
      (if skips k then [] else (vs.map utf8Encode).flatMap (headerLine k)) ++ utf8Encode (rustLines skips m) := by
  have hcons : rustLines skips ((k, vs) :: m) =
      (if skips k then [] else vs.flatMap (Upstream.headerLine k)) ++ rustLines skips m := rfl
  rw [hcons, utf8Encode_append]
  split_ifs
  · rfl
  · rw [flatMap_headerLine]

/-- No key with values is left out by `skips'` alone. -/
def LeftOutByBoth (skips skips' : List Char → Bool) (m : HeaderMap) : Prop :=
  ∀ k vs, (k, vs) ∈ m → vs ≠ [] → skips' k → skips k

/-- **When two sets of keys leave the same lines**, the larger of them on the side of Rust. -/
theorem copied_eq_iff (hle : ∀ k, skips k → skips' k) (m : HeaderMap) :
    goLines skips m = utf8Encode (rustLines skips' m) ↔ LeftOutByBoth skips skips' m := by
  -- Rust never sends more; so a line that it leaves out alone is missing
  suffices h : (utf8Encode (rustLines skips' m)).length ≤ (goLines skips m).length ∧
      (goLines skips m = utf8Encode (rustLines skips' m) ↔ LeftOutByBoth skips skips' m) from h.2
  induction m with
  | nil => exact ⟨Nat.le_refl _, iff_of_true rfl fun _ _ hmem => absurd hmem List.not_mem_nil⟩
  | cons p m ih =>
    obtain ⟨k, vs⟩ := p
    obtain ⟨hlen, hiff⟩ := ih
    have hcons : LeftOutByBoth skips skips' ((k, vs) :: m) ↔
        (vs ≠ [] → skips' k → skips k) ∧ LeftOutByBoth skips skips' m := by
      constructor
      · exact fun h => ⟨h k vs List.mem_cons_self, fun k vs hmem => h k vs (List.mem_cons_of_mem _ hmem)⟩
      · rintro ⟨hhead, htail⟩ k' vs' hmem
        rcases List.mem_cons.1 hmem with heq | hmem
        · obtain ⟨rfl, rfl⟩ := Prod.mk.inj heq
          exact hhead
        · exact htail k' vs' hmem
    rw [goLines_cons, rustLines_cons, hcons]
    by_cases hskip : skips k = true
    · have hskip' := hle k hskip
      rw [if_pos hskip, if_pos hskip', List.nil_append, List.nil_append, hiff]
      exact ⟨hlen, (and_iff_right fun _ _ => hskip).symm⟩
    · rw [if_neg hskip]
      by_cases hskip' : skips' k = true
      · rw [if_pos hskip', List.nil_append]
        by_cases hvs : vs = []
        · subst hvs
          rw [List.map_nil, List.flatMap_nil, List.nil_append, hiff]
          exact ⟨hlen, (and_iff_right fun h => absurd rfl h).symm⟩
        · have hpos := flatMap_headerLine_ne_nil (k := k) hvs
          rw [List.length_append]
          refine ⟨by omega, iff_of_false (fun heq => ?_) fun h => hskip (h.1 hvs hskip')⟩
          have hsame := congrArg List.length heq
          rw [List.length_append] at hsame
          omega
      · rw [if_neg hskip', List.length_append, List.length_append, List.append_right_inj, hiff]
        exact ⟨by omega, (and_iff_right fun _ h => absurd h hskip').symm⟩

end Copied

/-! ## Messages -/

theorem skipsInRequest_le (k : List Char) (h : skipsInRequest k) : Upstream.skipsInRequest k := by
  simp only [skipsInRequest, decide_eq_true_eq] at h
  rcases h with rfl | rfl | rfl
  · decide
  · decide
  · decide

theorem skipsInResponse_le (k : List Char) (h : skipsInResponse k) : Upstream.skipsInResponse k := by
  simp only [skipsInResponse, decide_eq_true_eq] at h
  rcases h with rfl | rfl
  · decide
  · decide

theorem leftOutByBoth_of_canonical {m : HeaderMap} (h : ∀ k vs, (k, vs) ∈ m → canonicalMIMEHeaderKey k = k) :
    LeftOutByBoth skipsInRequest Upstream.skipsInRequest m ∧ LeftOutByBoth skipsInResponse Upstream.skipsInResponse m := by
  have hname : ∀ {k n : List Char}, canonicalMIMEHeaderKey k = k → toAsciiLowercase k = n →
      (toAsciiLowercase n = n ∧ n.all Rfc9112.isToken) → k = canonicalMIMEHeaderKey n := by
    rintro k n hk hn ⟨hlower, htoken⟩
    refine eq_canonical htoken hk ?_
    simp [eqIgnoreAsciiCase, hn, hlower]
  constructor
  · intro k vs hmem _ hskip
    simp only [Upstream.skipsInRequest, decide_eq_true_eq] at hskip
    rcases hskip with hk | hk | hk
    · exact hname (h k vs hmem) hk (by decide) ▸ by decide
    · exact hname (h k vs hmem) hk (by decide) ▸ by decide
    · exact hname (h k vs hmem) hk (by decide) ▸ by decide
  · intro k vs hmem _ hskip
    simp only [Upstream.skipsInResponse, decide_eq_true_eq] at hskip
    rcases hskip with hk | hk
    · exact hname (h k vs hmem) hk (by decide) ▸ by decide
    · exact hname (h k vs hmem) hk (by decide) ▸ by decide

theorem isEmpty_utf8Encode (cs : List Char) : (utf8Encode cs).isEmpty = cs.isEmpty := by
  rw [Bool.eq_iff_iff, List.isEmpty_iff, List.isEmpty_iff, utf8Encode_eq_nil]

theorem writeRequest_eq_iff (req : Upstream.Request) :
    writeRequest (.ofRust req) = Upstream.writeRequest req ↔
      LeftOutByBoth skipsInRequest Upstream.skipsInRequest req.headers := by
  rw [← copied_eq_iff skipsInRequest_le]
  have hhost : (if (Request.ofRust req).host.isEmpty then [] else headerLine "Host".toList (Request.ofRust req).host) =
      utf8Encode (if req.host.isEmpty then [] else Upstream.headerLine "Host".toList req.host) := by
    rw [show (Request.ofRust req).host = utf8Encode req.host from rfl, isEmpty_utf8Encode]
    split_ifs
    · rfl
    · exact headerLine_encode _ _
  -- the lines stand between what both write
  let before := utf8Encode (req.method ++ [' '] ++ req.path ++ " HTTP/1.1\r\n".toList ++
    if req.host.isEmpty then [] else Upstream.headerLine "Host".toList req.host)
  let after := utf8Encode ("Content-Length: ".toList ++ Nat.toDigits 10 req.body.length ++
    "\r\nConnection: keep-alive\r\n\r\n".toList) ++ req.body
  have hgo : writeRequest (.ofRust req) = before ++ (goLines skipsInRequest req.headers ++ after) := by
    have hspace : utf8Encode " ".toList = utf8Encode [' '] := by decide
    unfold writeRequest
    rw [hhost]
    simp only [Request.ofRust, copiedLines, goLines, before, after, hspace, utf8Encode_append, List.append_assoc]
  have hrust : Upstream.writeRequest req =
      before ++ (utf8Encode (rustLines Upstream.skipsInRequest req.headers) ++ after) := by
    simp only [Upstream.writeRequest, Upstream.requestHead, Upstream.copiedLines, rustLines, before, after, utf8Encode_append,
      List.append_assoc]
  rw [hgo, hrust, List.append_right_inj, List.append_left_inj]

theorem notMem_reasonPhrase (code : ℕ) : 13 ∉ utf8Encode (Upstream.reasonPhrase code) := by
  unfold Upstream.reasonPhrase
  split
  · decide
  · decide
  · decide
  · decide
  · decide

theorem writeResponse_eq_iff {statusText : ℕ → List UInt8} (resp : Upstream.Response)
    (htext : (statusText resp.statusCode).all isFieldByte) :
    writeResponse statusText (.ofRust resp) = Upstream.writeResponse resp ↔
      statusText resp.statusCode = utf8Encode (Upstream.reasonPhrase resp.statusCode) ∧
        LeftOutByBoth skipsInResponse Upstream.skipsInResponse resp.headers := by
  rw [← copied_eq_iff skipsInResponse_le]
  let before := utf8Encode ("HTTP/1.1 ".toList ++ Nat.toDigits 10 resp.statusCode ++ [' '])
  let after := utf8Encode ("Content-Length: ".toList ++ Nat.toDigits 10 resp.body.length ++
    "\r\nConnection: close\r\n\r\n".toList) ++ resp.body
  have hcrlf : utf8Encode "\r\n".toList = [13, 10] := by decide
  have hcrlf' : utf8Encode Upstream.crlf = [13, 10] := by decide
  have hgo : writeResponse statusText (.ofRust resp) =
      before ++ (statusText resp.statusCode ++ ([13, 10] ++ (goLines skipsInResponse resp.headers ++ after))) := by
    have hspace : utf8Encode " ".toList = utf8Encode [' '] := by decide
    simp only [writeResponse, Response.ofRust, goLines, before, after, hspace, hcrlf, utf8Encode_append, List.append_assoc]
  have hrust : Upstream.writeResponse resp = before ++ (utf8Encode (Upstream.reasonPhrase resp.statusCode) ++
      ([13, 10] ++ (utf8Encode (rustLines Upstream.skipsInResponse resp.headers) ++ after))) := by
    unfold Upstream.writeResponse Upstream.responseHead
    rw [← hcrlf']
    simp only [before, after, utf8Encode_append, List.append_assoc]
    rfl
  rw [hgo, hrust, List.append_right_inj]
  have hnot : 13 ∉ statusText resp.statusCode := fun hmem =>
    (Rfc9112.ne_of_isFieldByte (List.all_eq_true.1 htext 13 hmem)).1 rfl
  constructor
  · intro h
    -- the reasons end at the first carriage return
    have hsplit := congrArg (splitOnce (13 : UInt8)) h
    simp only [List.cons_append, List.nil_append] at hsplit
    rw [splitOnce_append hnot, splitOnce_append (notMem_reasonPhrase _)] at hsplit
    obtain ⟨hreason, hrest⟩ := Prod.mk.inj (Option.some.inj hsplit)
    exact ⟨hreason, List.append_cancel_right (List.cons.inj hrest).2⟩
  · rintro ⟨hreason, hlines⟩
    rw [hreason, hlines]

/-- **When the writers of the two implementations agree.**  They send the same request exactly if each key with values is left
out by both or by neither, and the same response exactly if the texts of the status agree as well; headers of the library, whose
keys are canonical, are left out alike. -/
theorem writers_mirror {statusText : ℕ → List UInt8} (htext : ∀ code, (statusText code).all isFieldByte) :
    (∀ req : Upstream.Request, writeRequest (.ofRust req) = Upstream.writeRequest req ↔
        LeftOutByBoth skipsInRequest Upstream.skipsInRequest req.headers) ∧
      (∀ resp : Upstream.Response, writeResponse statusText (.ofRust resp) = Upstream.writeResponse resp ↔
        statusText resp.statusCode = utf8Encode (Upstream.reasonPhrase resp.statusCode) ∧
          LeftOutByBoth skipsInResponse Upstream.skipsInResponse resp.headers) ∧
      ∀ m : HeaderMap, (∀ k vs, (k, vs) ∈ m → canonicalMIMEHeaderKey k = k) →
        LeftOutByBoth skipsInRequest Upstream.skipsInRequest m ∧ LeftOutByBoth skipsInResponse Upstream.skipsInResponse m :=
  ⟨writeRequest_eq_iff, fun resp => writeResponse_eq_iff resp (htext _), fun _ => leftOutByBoth_of_canonical⟩

/-- A request whose only field has the key `k`. -/
def keyed (k : List Char) : Upstream.Request := ⟨"GET".toList, ['/'], [], [(k, [['x']])], []⟩

/-- Where every status is `OK`: `Host` is left out by both, `host` by Rust alone. -/
theorem writers_mirror_host : writeRequest (.ofRust (keyed "Host".toList)) = Upstream.writeRequest (keyed "Host".toList) ∧
    writeRequest (.ofRust (keyed "host".toList)) ≠ Upstream.writeRequest (keyed "host".toList) := by
  have hok : (utf8Encode "OK".toList).all isFieldByte := by decide
  obtain ⟨hrequest, -, hcanonical⟩ := writers_mirror fun _ : ℕ => hok
  refine ⟨(hrequest _).2 (hcanonical _ fun k vs hmem => ?_).1, fun h => ?_⟩
  · obtain ⟨rfl, -⟩ := Prod.mk.inj (List.mem_singleton.1 hmem)
    decide
  · have hskips := (hrequest _).1 h "host".toList [['x']] List.mem_cons_self (by decide) (by decide)
    revert hskips
    decide

end ServiceProxy.Go
