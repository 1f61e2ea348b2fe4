import ServiceProxy.Lib.Rfc9112Delimit
import ServiceProxy.Lib.ByteStream

/-!
# Requests and responses on the upstream connection (`go/internal/upstream/dial.go`)

* `writeRequest` — the bytes `writeRequest` sends;
* `readResponse` — `readResponse` on a connection, over `http.ReadResponse` and `io.ReadAll` (`NetHttp`);
* `delimit_writeRequest` — an upstream that counts the bytes which `Content-Length` announces finds the end of every request
  that `http.ReadRequest` can hand over.

A Go string is a list of bytes; a method and the key of a header are ASCII and are text here.
-/

namespace ServiceProxy.Go

open ServiceProxy.Lib
open ServiceProxy.Lib.Rfc9112 (crlf isToken)

/-! ## Data -/

/-- `http.Header`: the keys with their values, in the order in which `range` visits them. -/
abbrev Header := List (List Char × List (List UInt8))

/-- `type Request`. -/
structure Request where
  method : List Char
  path : List UInt8
  host : List UInt8
  header : Header
  body : List UInt8
  deriving DecidableEq, Repr

/-- `type Response`. -/
structure Response where
  statusCode : ℕ
  header : Header
  body : List UInt8
  deriving DecidableEq, Repr

/-! ## Writing a request -/

/-- The keys that `writeRequest` does not copy. -/
def skipsInRequest (k : List Char) : Bool :=
  k = "Connection".toList ∨ k = "Content-Length".toList ∨ k = "Host".toList

/-- `"%s: %s\r\n"`. -/
def headerLine (k : List Char) (v : List UInt8) : List UInt8 := utf8Encode k ++ utf8Encode ": ".toList ++ v ++ crlf

/-- The field lines `writeRequest` copies from the header. -/
def copiedLines (header : Header) : List UInt8 :=
  header.flatMap fun (k, values) => if skipsInRequest k then [] else values.flatMap (headerLine k)

/-- `writeRequest`. -/
def writeRequest (req : Request) : List UInt8 :=
  utf8Encode req.method ++ utf8Encode " ".toList ++ req.path ++ utf8Encode " HTTP/1.1\r\n".toList ++
    (if req.host.isEmpty then [] else headerLine "Host".toList req.host) ++ copiedLines req.header ++
    utf8Encode ("Content-Length: ".toList ++ Nat.toDigits 10 req.body.length ++
      "\r\nConnection: keep-alive\r\n\r\n".toList) ++
    req.body

/-! ## Reading a response -/

/-- `http.Response`, as far as `readResponse` uses it; `β` is the state of its body. -/
structure HttpResponse (β : Type) where
  statusCode : ℕ
  header : Header
  body : β

/-- What `readResponse` uses of the library: `http.ReadResponse` on a new `bufio.Reader` over the connection and a `nil`
request, and `io.ReadAll` on the body, which also says what is left on the connection. -/
structure NetHttp (β : Type) where
  readResponse : Stream UInt8 → Except (Halt IoError) (HttpResponse β)
  readAll : β → Except (Halt IoError) (List UInt8 × List UInt8)

/-- `readResponse`: the response, and what is left on the connection. -/
def readResponse {β : Type} (net : NetHttp β) (conn : Stream UInt8) : Except (Halt IoError) (Response × List UInt8) := do
  let resp ← net.readResponse conn
  let (body, left) ← net.readAll resp.body
  .ok ({ statusCode := resp.statusCode, header := resp.header, body }, left)

/-! ## What a client can ask for -/

/-- The first letter and every letter after a hyphen in upper case, the others in lower case. -/
def canonicalAux : Bool → List Char → List Char
  | _, [] => []
  | upper, c :: cs => (if upper then c.toUpper else c.toLower) :: canonicalAux (c = '-') cs

/-- `textproto.CanonicalMIMEHeaderKey`: a key with a space or another byte that no token has is returned as it is. -/
def canonicalMIMEHeaderKey (k : List Char) : List Char := if k.all isToken then canonicalAux true k else k

/-- What `http.ReadRequest` makes sure of, and the other handlers: no text ends its line, no key its name, and the keys are
canonical, where a key with a space is any (`foo bar: x` is read). -/
structure Carried (req : Request) : Prop where
  method : '\n' ∉ req.method
  path : 10 ∉ req.path
  host : 10 ∉ req.host
  key : ∀ k vs, (k, vs) ∈ req.header → canonicalMIMEHeaderKey k = k ∧ '\n' ∉ k ∧ ':' ∉ k
  value : ∀ k vs, (k, vs) ∈ req.header → ∀ v ∈ vs, 10 ∉ v

theorem toLower_cases (c : Char) :
    c.toLower.toUpper = c.toUpper ∧ c.toLower.toLower = c.toLower ∧ (c.toLower = '-' ↔ c = '-') ∧
      isToken c.toLower = isToken c := by
  by_cases hc : c.toNat < 128
  · have hascii : ∀ n < 128, (Char.ofNat n).toLower.toUpper = (Char.ofNat n).toUpper ∧
        (Char.ofNat n).toLower.toLower = (Char.ofNat n).toLower ∧ ((Char.ofNat n).toLower = '-' ↔ Char.ofNat n = '-') ∧
        isToken (Char.ofNat n).toLower = isToken (Char.ofNat n) := by
      decide
    have := hascii c.toNat hc
    rwa [Char.ofNat_toNat] at this
  · have hlower : c.toLower = c := by
      unfold Char.toLower
      refine dif_neg fun h => hc ?_
      have hle : c.toNat ≤ 90 := h.2
      omega
    simp only [hlower, and_true]

theorem canonicalAux_toAsciiLowercase (upper : Bool) (k : List Char) :
    canonicalAux upper (toAsciiLowercase k) = canonicalAux upper k := by
  induction k generalizing upper with
  | nil => rfl
  | cons c k ih =>
    obtain ⟨hupper, hlower, hhyphen, -⟩ := toLower_cases c
    have htail : toAsciiLowercase (c :: k) = c.toLower :: toAsciiLowercase k := rfl
    rw [htail, canonicalAux, canonicalAux, hupper, hlower, decide_eq_decide.2 hhyphen, ih]

theorem all_isToken_toAsciiLowercase (k : List Char) : (toAsciiLowercase k).all isToken = k.all isToken := by
  induction k with
  | nil => rfl
  | cons c k ih =>
    have htail : toAsciiLowercase (c :: k) = c.toLower :: toAsciiLowercase k := rfl
    rw [htail, List.all_cons, List.all_cons, ih, (toLower_cases c).2.2.2]

/-- A canonical key that names the token `n` is determined by its letters. -/
theorem eq_canonical {k n : List Char} (hn : n.all isToken) (hk : canonicalMIMEHeaderKey k = k) (h : eqIgnoreAsciiCase k n) :
    k = canonicalMIMEHeaderKey n := by
  simp only [eqIgnoreAsciiCase, decide_eq_true_eq] at h
  have htoken : k.all isToken := by
    rw [← all_isToken_toAsciiLowercase, h, all_isToken_toAsciiLowercase]
    exact hn
  rw [← hk, canonicalMIMEHeaderKey, canonicalMIMEHeaderKey, if_pos htoken, if_pos hn, ← canonicalAux_toAsciiLowercase, h,
    canonicalAux_toAsciiLowercase]

/-! ## The end of a request -/

def copiedFields (header : Header) : List (List UInt8 × List UInt8) :=
  header.flatMap fun (k, values) => if skipsInRequest k then [] else values.map fun v => (utf8Encode k, v)

def startLine (req : Request) : List UInt8 :=
  utf8Encode req.method ++ 32 :: (req.path ++ utf8Encode " HTTP/1.1".toList)

def hostField (req : Request) : List (List UInt8 × List UInt8) :=
  if req.host.isEmpty then [] else [(utf8Encode "Host".toList, req.host)]

theorem headerLine_eq (k : List Char) (v : List UInt8) : headerLine k v = Rfc9112.fieldLine (utf8Encode k, v) ++ crlf := by
  have hsep : utf8Encode ": ".toList = [58, 32] := by decide
  rw [headerLine, hsep]
  simp [Rfc9112.fieldLine]

theorem copiedLines_eq (header : Header) :
    copiedLines header = ((copiedFields header).map Rfc9112.fieldLine).flatMap (· ++ crlf) := by
  induction header with
  | nil => rfl
  | cons p header ih =>
    obtain ⟨k, values⟩ := p
    simp only [copiedLines, copiedFields, List.flatMap_cons, List.map_append, List.flatMap_append] at ih ⊢
    rw [ih]
    congr 1
    split_ifs
    · rfl
    · rw [List.map_map, List.flatMap_map]
      exact List.flatMap_congr fun v _ => headerLine_eq k v

theorem writeRequest_lines (req : Request) :
    writeRequest req = (startLine req :: (hostField req ++ copiedFields req.header ++
        (utf8Encode "Content-Length".toList, utf8Encode (Nat.toDigits 10 req.body.length)) ::
        [(utf8Encode "Connection".toList, utf8Encode "keep-alive".toList)]).map Rfc9112.fieldLine).flatMap (· ++ crlf) ++
      (crlf ++ req.body) := by
  have hstart : utf8Encode " HTTP/1.1\r\n".toList = utf8Encode " HTTP/1.1".toList ++ crlf := by decide
  have hspace : utf8Encode " ".toList = [32] := by decide
  have hlength : utf8Encode "Content-Length: ".toList = utf8Encode "Content-Length".toList ++ [58, 32] := by decide
  have hend : utf8Encode "\r\nConnection: keep-alive\r\n\r\n".toList = crlf ++ (utf8Encode "Connection".toList ++ 58 :: 32 ::
      (utf8Encode "keep-alive".toList ++ (crlf ++ crlf))) := by decide
  have hhost : (if req.host.isEmpty then [] else headerLine "Host".toList req.host) =
      ((hostField req).map Rfc9112.fieldLine).flatMap (· ++ crlf) := by
    unfold hostField
    split_ifs
    · rfl
    · rw [headerLine_eq]
      simp
  unfold writeRequest startLine
  rw [utf8Encode_append, utf8Encode_append, hstart, hspace, hlength, hend, hhost, copiedLines_eq]
  generalize utf8Encode "Content-Length".toList = contentLength
  generalize utf8Encode "Connection".toList = connection
  generalize utf8Encode "keep-alive".toList = keepAlive
  generalize utf8Encode " HTTP/1.1".toList = version
  simp [Rfc9112.fieldLine]

theorem mem_copiedFields {header : Header} {p : List UInt8 × List UInt8} (h : p ∈ copiedFields header) :
    ∃ k vs, (k, vs) ∈ header ∧ ¬ skipsInRequest k ∧ p.1 = utf8Encode k ∧ p.2 ∈ vs := by
  obtain ⟨⟨k, vs⟩, hmem, hp⟩ := List.mem_flatMap.1 h
  simp only at hp
  split_ifs at hp with hskip
  · cases hp
  · obtain ⟨v, hv, rfl⟩ := List.mem_map.1 hp
    exact ⟨k, vs, hmem, hskip, rfl, hv⟩

theorem not_contentLength {k : List Char} (hk : canonicalMIMEHeaderKey k = k) (hskip : ¬ skipsInRequest k) :
    ¬ eqIgnoreAsciiCase k Rfc9112.contentLength := by
  intro h
  have hname : canonicalMIMEHeaderKey Rfc9112.contentLength = "Content-Length".toList := by decide
  have := eq_canonical (by decide) hk h
  rw [hname] at this
  simp [skipsInRequest, this] at hskip

/-- **The upstream finds the end of every request.** -/
theorem delimit_writeRequest {req : Request} (h : Carried req) :
    Rfc9112.delimit (writeRequest req) = some (writeRequest req).length := by
  have hdigits : '\n' ∉ Nat.toDigits 10 req.body.length := by
    intro hlf
    have := isDigit_toNat (Nat.isDigit_of_mem_toDigits (by decide) (by decide) hlf)
    revert this
    decide
  rw [writeRequest_lines]
  refine Rfc9112.delimit_fields (by simp [startLine]) ?_ ?_ ?_
    (show Rfc9112.valueIs Rfc9112.contentLength (utf8Encode "Content-Length".toList) = true by decide)
    (Rfc9112.number?_toDigits _)
  · simp only [startLine, List.mem_append, List.mem_cons, not_or]
    exact ⟨notMem_encode (c := '\n') (by decide) h.method, by decide, h.path, by decide⟩
  · intro p hp
    simp only [List.mem_append, List.mem_cons, List.not_mem_nil, or_false] at hp
    rcases hp with (hp | hp) | rfl | rfl
    · unfold hostField at hp
      split_ifs at hp
      · cases hp
      · obtain rfl := List.mem_singleton.1 hp
        exact ⟨show 10 ∉ utf8Encode "Host".toList by decide, show 58 ∉ utf8Encode "Host".toList by decide, h.host⟩
    · obtain ⟨k, vs, hmem, -, hname, hv⟩ := mem_copiedFields hp
      obtain ⟨-, hlf, hcolon⟩ := h.key k vs hmem
      refine ⟨?_, ?_, h.value k vs hmem _ hv⟩ <;> rw [hname]
      · exact notMem_encode (c := '\n') (by decide) hlf
      · exact notMem_encode (c := ':') (by decide) hcolon
    · exact ⟨show 10 ∉ utf8Encode "Content-Length".toList by decide,
        show 58 ∉ utf8Encode "Content-Length".toList by decide, notMem_encode (c := '\n') (by decide) hdigits⟩
    · exact ⟨show 10 ∉ utf8Encode "Connection".toList by decide, show 58 ∉ utf8Encode "Connection".toList by decide,
        show 10 ∉ utf8Encode "keep-alive".toList by decide⟩
  · -- no line before it has the name
    intro p hp
    rcases List.mem_append.1 hp with hp | hp
    · unfold hostField at hp
      split_ifs at hp
      · cases hp
      · obtain rfl := List.mem_singleton.1 hp
        exact show ¬ Rfc9112.valueIs Rfc9112.contentLength (utf8Encode "Host".toList) by decide
    · obtain ⟨k, vs, hmem, hskip, hname, -⟩ := mem_copiedFields hp
      rw [hname, Rfc9112.valueIs_encode]
      exact not_contentLength (h.key k vs hmem).1 hskip

end ServiceProxy.Go
