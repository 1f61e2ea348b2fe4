import ServiceProxy.Go.Forward

/-!
# The echo upstream (`go/cmd/echo-upstream/main.go`)

The handler of `/echo` sends the body of a request back.

* `echo` — what the handler makes of a request: the body it returns is `echoBody`;
* `requestHeader` — `r.Header`, as the server has read it;
* `Sends` — how the server of `net/http` sends what a handler has written: it adds fields of its own, and of the handler's
  fields it changes nothing.

The delay of a response is left open, and so is everything else that takes time.
-/

namespace ServiceProxy.Go

open ServiceProxy.Lib

/-! ## `http.Header` -/

/-- `Header.Set`. -/
def Header.set (k : List Char) (v : List UInt8) : Header → Header
  | [] => [(canonicalMIMEHeaderKey k, [v])]
  | (k', vs) :: m => if k' = canonicalMIMEHeaderKey k then (k', [v]) :: m else (k', vs) :: set k v m

/-- `Header.Get`: the first value, or the empty string. -/
def Header.get (k : List Char) (h : Header) : List UInt8 :=
  (((h.find? fun p => p.1 = canonicalMIMEHeaderKey k).map Prod.snd).bind List.head?).getD []

section Header

variable {k : List Char} {v : List UInt8} {h : Header} {p : List Char × List (List UInt8)}

theorem Header.mem_set (hp : p ∈ Header.set k v h) : p ∈ h ∨ p = (canonicalMIMEHeaderKey k, [v]) := by
  induction h with
  | nil => exact .inr (List.mem_singleton.1 hp)
  | cons q h ih =>
    obtain ⟨k', vs⟩ := q
    simp only [Header.set] at hp
    split_ifs at hp with hk
    · rcases List.mem_cons.1 hp with rfl | hp
      · exact .inr (by rw [hk])
      · exact .inl (List.mem_cons_of_mem _ hp)
    · rcases List.mem_cons.1 hp with rfl | hp
      · exact .inl List.mem_cons_self
      · exact (ih hp).imp_left (List.mem_cons_of_mem _)

theorem Header.mem_set_of_ne (hp : p ∈ h) (hk : p.1 ≠ canonicalMIMEHeaderKey k) : p ∈ Header.set k v h := by
  induction h with
  | nil => cases hp
  | cons q h ih =>
    obtain ⟨k', vs⟩ := q
    simp only [Header.set]
    rcases List.mem_cons.1 hp with rfl | hp
    · rw [if_neg hk]
      exact List.mem_cons_self
    · split_ifs
      · exact List.mem_cons_of_mem _ hp
      · exact List.mem_cons_of_mem _ (ih hp)

end Header

end ServiceProxy.Go

namespace ServiceProxy.EchoUpstream

open ServiceProxy.Lib ServiceProxy.Go
open ServiceProxy.Lib.Rfc9112 (Field StatusHead)

/-! ## The handler -/

/-- `http.Error`. -/
def httpError (header : Header) (error : List UInt8) (code : ℕ) : Response :=
  { statusCode := code
    header := Header.set "X-Content-Type-Options".toList (utf8Encode "nosniff".toList)
      (Header.set "Content-Type".toList (utf8Encode "text/plain; charset=utf-8".toList) header)
    body := error ++ [10] }

/-- The fields that the handler of `/echo` sets first. -/
def identify (upstreamID : List UInt8) : Header :=
  if upstreamID ≠ [] then Header.set "X-Upstream-ID".toList upstreamID [] else []

/-- The handler of `/echo`, when `io.ReadAll` returns `body`, or an error. -/
def echo (upstreamID : List UInt8) (header : Header) (body : Option (List UInt8)) : Response :=
  let w := identify upstreamID
  match body with
  | none => httpError w (utf8Encode "failed to read body".toList) 500
  | some body =>
    if body.length = 0 then
      { statusCode := 200, header := Header.set "Content-Type".toList (utf8Encode "text/plain".toList) w
        body := utf8Encode "echo-ok\n".toList }
    else
      let ct := Header.get "Content-Type".toList header
      { statusCode := 200, header := if ct ≠ [] then Header.set "Content-Type".toList ct w else w, body }

/-- What comes back for the payload. -/
def echoBody (payload : List UInt8) : List UInt8 :=
  if payload.length = 0 then utf8Encode "echo-ok\n".toList else payload

/-- The key under which `Set` files the identity of the upstream. -/
def upstreamIdKey : List Char := "X-Upstream-Id".toList

section Echo

variable {upstreamID payload : List UInt8} {header : Header}

theorem echo_some (upstreamID : List UInt8) (header : Header) (payload : List UInt8) :
    (echo upstreamID header (some payload)).statusCode = 200 ∧
      (echo upstreamID header (some payload)).body = echoBody payload := by
  unfold echo echoBody
  by_cases hlen : payload.length = 0
  · simp only [hlen, if_true, and_self]
  · simp only [hlen, if_false, and_self]

theorem canonical_upstreamId : canonicalMIMEHeaderKey "X-Upstream-ID".toList = upstreamIdKey := by decide

theorem canonical_contentType : canonicalMIMEHeaderKey "Content-Type".toList = "Content-Type".toList := by decide

theorem mem_identify {p : List Char × List (List UInt8)} :
    p ∈ identify upstreamID ↔ upstreamID ≠ [] ∧ p = (upstreamIdKey, [upstreamID]) := by
  unfold identify
  split_ifs with hid
  · rw [Header.set, canonical_upstreamId, List.mem_singleton]
    exact (and_iff_right hid).symm
  · exact ⟨fun h => absurd h List.not_mem_nil, fun h => absurd h.1 hid⟩

theorem echo_header (upstreamID : List UInt8) (header : Header) (payload : List UInt8) :
    (echo upstreamID header (some payload)).header = identify upstreamID ∨
      ∃ ct, (echo upstreamID header (some payload)).header = Header.set "Content-Type".toList ct (identify upstreamID) := by
  unfold echo
  by_cases hlen : payload.length = 0
  · simp only [hlen, if_true]
    exact .inr ⟨_, rfl⟩
  · simp only [hlen, if_false]
    split_ifs
    · exact .inr ⟨_, rfl⟩
    · exact .inl rfl

/-- **The fields of the handler**: the identity, if there is one, and the type. -/
theorem mem_echo_header {p : List Char × List (List UInt8)} (hp : p ∈ (echo upstreamID header (some payload)).header) :
    p.1 = "Content-Type".toList ∨ upstreamID ≠ [] ∧ p = (upstreamIdKey, [upstreamID]) := by
  rcases echo_header upstreamID header payload with h | ⟨ct, h⟩ <;> rw [h] at hp
  · exact .inr (mem_identify.1 hp)
  · rcases Header.mem_set hp with hp | rfl
    · exact .inr (mem_identify.1 hp)
    · exact .inl canonical_contentType

theorem echo_upstreamId (hid : upstreamID ≠ []) :
    (upstreamIdKey, [upstreamID]) ∈ (echo upstreamID header (some payload)).header := by
  have hmem : (upstreamIdKey, [upstreamID]) ∈ identify upstreamID := mem_identify.2 ⟨hid, rfl⟩
  have hne : upstreamIdKey ≠ canonicalMIMEHeaderKey "Content-Type".toList := by decide
  rcases echo_header upstreamID header payload with h | ⟨ct, h⟩ <;> rw [h]
  · exact hmem
  · exact Header.mem_set_of_ne hmem hne

end Echo

/-! ## The server -/

/-- `r.Header` of the request `msg`. -/
def requestHeader (msg : List UInt8) : Header :=
  match Rfc9112.readLines (msg.length + 1) msg with
  | some (_ :: lines, _) => ((Rfc9112.parseFields lines).getD []).foldl (fun h p => Header.add (canonicalMIMEHeaderKey p.1) p.2 h) []
  | _ => []

def ownFields : List (List Char) :=
  ["Date".toList, "Connection".toList, "Content-Type".toList, "Content-Length".toList, "Transfer-Encoding".toList]

/-- **What the server sends of what a handler has written**: the head `head` and the body `body`. -/
structure Sends (r : Response) (head : StatusHead) (body : List UInt8) : Prop where
  status : head.code = r.statusCode
  body : body = r.body
  fields : ∀ p ∈ r.header, (head.fields.filter fun f => f.name = p.1).map Field.value = p.2
  rest : ∀ f ∈ head.fields, f.name ∈ ownFields ∨ f.name ∈ r.header.map Prod.fst

instance (r : Response) (head : StatusHead) (body : List UInt8) : Decidable (Sends r head body) :=
  decidable_of_iff (head.code = r.statusCode ∧ body = r.body ∧
      (∀ p ∈ r.header, (head.fields.filter fun f => f.name = p.1).map Field.value = p.2) ∧
      ∀ f ∈ head.fields, f.name ∈ ownFields ∨ f.name ∈ r.header.map Prod.fst)
    ⟨fun h => ⟨h.1, h.2.1, h.2.2.1, h.2.2.2⟩, fun h => ⟨h.status, h.body, h.fields, h.rest⟩⟩

/-- The upstream with this identity answers the request `msg`, if it is one for `/echo`, with this head and body. -/
structure Echoes (upstreamID msg : List UInt8) (head : StatusHead) (body : List UInt8) : Prop where
  sends : ∀ m rest, Rfc9112.readRequest msg = .complete m rest → m.method = "POST".toList → m.target = "/echo".toList →
    Sends (echo upstreamID (requestHeader msg) (some m.body)) head body

instance (upstreamID msg : List UInt8) (head : StatusHead) (body : List UInt8) :
    Decidable (Echoes upstreamID msg head body) :=
  match h : Rfc9112.readRequest msg with
  | .complete m rest =>
    decidable_of_iff (m.method = "POST".toList → m.target = "/echo".toList →
        Sends (echo upstreamID (requestHeader msg) (some m.body)) head body)
      ⟨fun hs => ⟨fun m' rest' h' => by
        obtain ⟨rfl, rfl⟩ := Rfc9112.Parse.complete.inj (h.symm.trans h')
        exact hs⟩, fun hs => hs.sends m rest h⟩
  | .incomplete => isTrue ⟨fun m rest h' => by rw [h] at h'; cases h'⟩
  | .malformed => isTrue ⟨fun m rest h' => by rw [h] at h'; cases h'⟩

end ServiceProxy.EchoUpstream
