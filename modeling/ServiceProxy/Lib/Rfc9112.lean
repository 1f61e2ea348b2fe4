import ServiceProxy.Lib.Text
import ServiceProxy.Lib.Utf8

/-!
# The syntax of HTTP/1.1 messages

The messages of RFC 9112 as data: a value of one of these types is a well-formed message, and `bytes` is how it is sent.
What is ASCII by the grammar is text, what may hold any byte from `0x80` on is a list of bytes.

* `Field` — a field line, with the optional white space around its value;
* `StatusHead`, `RequestHead` — a start line and the fields behind it;
* `Content` — what follows the head: nothing, a body with a known length, or chunks (section 7.1);
* `Message` — a complete request;
* `Answer m` — a complete answer to a request with the method `m`: interim responses and a final one that is framed
  as section 6.3 says.
-/

namespace ServiceProxy.Lib.Rfc9112

/-! ## Characters -/

/-- A character of a `token`: visible ASCII without the delimiters. -/
def isToken (c : Char) : Bool :=
  33 ≤ c.toNat ∧ c.toNat < 127 ∧ c.toNat ∉ [34, 40, 41, 44, 47, 58, 59, 60, 61, 62, 63, 64, 91, 92, 93, 123, 125]

/-- Visible ASCII. -/
def isVisible (c : Char) : Bool := 33 ≤ c.toNat ∧ c.toNat < 127

/-- Optional white space. -/
def isOws (c : Char) : Bool := c = ' ' ∨ c = '\t'

/-- A byte of a field value or a reason phrase: visible, `obs-text`, space or tab. -/
def isFieldByte (b : UInt8) : Bool := b = 9 ∨ 32 ≤ b.toNat ∧ b ≠ 127

def crlf : List UInt8 := [13, 10]

/-! ## Fields -/

structure Field where
  name : List Char
  before : List Char
  value : List UInt8
  after : List Char
  name_ne : name ≠ []
  token : name.all isToken
  ows : (before ++ after).all isOws
  valid : value.all isFieldByte

def Field.line (f : Field) : List UInt8 := utf8Encode (f.name ++ ':' :: f.before) ++ f.value ++ utf8Encode f.after

def Field.bytes (f : Field) : List UInt8 := f.line ++ crlf

section Field

variable {c : Char} {b : UInt8} (f : Field)

theorem isToken_iff : isToken c = true ↔ 33 ≤ c.toNat ∧ c.toNat < 127 ∧
    c.toNat ∉ [34, 40, 41, 44, 47, 58, 59, 60, 61, 62, 63, 64, 91, 92, 93, 123, 125] := by
  simp [isToken]

theorem Field.name_token (h : c ∈ f.name) : isToken c = true := List.all_eq_true.1 f.token c h

theorem Field.colon_notMem : ':' ∉ f.name := by
  intro h
  exact absurd (f.name_token h) (by decide)

theorem isOws_cases (h : isOws c = true) : c = ' ' ∨ c = '\t' := by simpa [isOws] using h

theorem Field.ows_before (h : c ∈ f.before) : c = ' ' ∨ c = '\t' :=
  isOws_cases (List.all_eq_true.1 f.ows c (List.mem_append_left _ h))

theorem Field.ows_after (h : c ∈ f.after) : c = ' ' ∨ c = '\t' :=
  isOws_cases (List.all_eq_true.1 f.ows c (List.mem_append_right _ h))

theorem ne_of_isFieldByte (h : isFieldByte b = true) : b ≠ 13 ∧ b ≠ 10 := by
  constructor <;> rintro rfl <;> exact absurd h (by decide)

theorem Field.notMem_line (hb : b = 13 ∨ b = 10) : b ∉ f.line := by
  have h13 : b.toNat = 13 ∨ b.toNat = 10 := by rcases hb with rfl | rfl <;> decide
  have hname : b ∉ utf8Encode (f.name ++ ':' :: f.before) := by
    refine notMem_utf8Encode (by omega) fun c hc => ?_
    simp only [List.mem_append, List.mem_cons] at hc
    rcases hc with hc | rfl | hc
    · have := (isToken_iff.1 (f.name_token hc)).1
      omega
    · rcases h13 with h | h <;> rw [h] <;> decide
    · rcases f.ows_before hc with rfl | rfl <;> rcases h13 with h | h <;> rw [h] <;> decide
  have hvalue : b ∉ f.value := by
    intro h
    have := ne_of_isFieldByte (List.all_eq_true.1 f.valid b h)
    rcases hb with rfl | rfl <;> simp at this
  have hafter : b ∉ utf8Encode f.after := by
    refine notMem_utf8Encode (by omega) fun c hc => ?_
    rcases f.ows_after hc with rfl | rfl <;> rcases h13 with h | h <;> rw [h] <;> decide
  simp only [Field.line, List.mem_append, not_or]
  exact ⟨⟨hname, hvalue⟩, hafter⟩

end Field

/-- The number of a value that is a string of digits. -/
def number? (value : List UInt8) : Option ℕ :=
  (utf8Decode value).bind fun ds => if ds ≠ [] ∧ ds.all Char.isDigit then some (Nat.ofDigitChars 10 ds 0) else none

/-- The value is the text `cs`, whatever its case. -/
def valueIs (cs : List Char) (value : List UInt8) : Bool := (utf8Decode value).any fun ds => eqIgnoreAsciiCase ds cs

/-- The fields with the name `n`, whatever its case. -/
def named (n : List Char) (fs : List Field) : List Field := fs.filter fun f => eqIgnoreAsciiCase f.name n

def contentLength : List Char := "content-length".toList

def transferEncoding : List Char := "transfer-encoding".toList

/-- The value of the only `Content-Length` line. -/
def soleLength (fs : List Field) : Option ℕ :=
  match named contentLength fs with
  | [f] => number? f.value
  | _ => none

theorem named_cons_of_pos {n : List Char} {f : Field} (h : eqIgnoreAsciiCase f.name n) (fs : List Field) :
    named n (f :: fs) = f :: named n fs := List.filter_cons_of_pos h

theorem named_cons_of_neg {n : List Char} {f : Field} (h : ¬ eqIgnoreAsciiCase f.name n) (fs : List Field) :
    named n (f :: fs) = named n fs := List.filter_cons_of_neg h

theorem soleLength_eq_some {fs : List Field} {n : ℕ} :
    soleLength fs = some n ↔ ∃ f, named contentLength fs = [f] ∧ number? f.value = some n := by
  unfold soleLength
  split
  · rename_i f hf
    constructor
    · intro h
      exact ⟨f, hf, h⟩
    · rintro ⟨g, hg, h⟩
      obtain rfl : f = g := by simpa [hf] using hg
      exact h
  · rename_i hne
    constructor
    · intro h
      cases h
    · rintro ⟨f, hf, -⟩
      exact absurd hf (hne f)

/-- The only `Transfer-Encoding` line says `chunked`. -/
def isChunked (fs : List Field) : Bool :=
  match named transferEncoding fs with
  | [f] => valueIs "chunked".toList f.value
  | _ => false

/-! ## Heads -/

structure StatusHead where
  minor : Char
  code : ℕ
  reason : List UInt8
  fields : List Field
  minor_digit : minor.isDigit
  code_ge : 100 ≤ code
  code_lt : code < 1000
  valid : reason.all isFieldByte

def StatusHead.line (h : StatusHead) : List UInt8 :=
  utf8Encode ("HTTP/1.".toList ++ [h.minor, ' '] ++ Nat.toDigits 10 h.code ++ [' ']) ++ h.reason

def StatusHead.bytes (h : StatusHead) : List UInt8 := h.line ++ crlf ++ h.fields.flatMap Field.bytes ++ crlf

theorem StatusHead.notMem_line (h : StatusHead) {b : UInt8} (hb : b = 13 ∨ b = 10) : b ∉ h.line := by
  have h13 : b.toNat = 13 ∨ b.toNat = 10 := by rcases hb with rfl | rfl <;> decide
  have hreason : b ∉ h.reason := by
    intro hmem
    have := ne_of_isFieldByte (List.all_eq_true.1 h.valid b hmem)
    rcases hb with rfl | rfl <;> simp at this
  have hstart : b ∉ utf8Encode ("HTTP/1.".toList ++ [h.minor, ' '] ++ Nat.toDigits 10 h.code ++ [' ']) := by
    refine notMem_utf8Encode (by omega) fun c hc => ?_
    have h32 : 32 ≤ c.toNat := by
      simp only [List.mem_append, List.mem_cons, List.not_mem_nil, or_false] at hc
      rcases hc with ((hc | rfl | rfl) | hc) | rfl
      · have : ∀ c ∈ "HTTP/1.".toList, 32 ≤ c.toNat := by simp
        exact this c hc
      · have := isDigit_toNat h.minor_digit
        omega
      · decide
      · have := isDigit_toNat (Nat.isDigit_of_mem_toDigits (by decide) (by decide) hc)
        omega
      · decide
    omega
  simp only [StatusHead.line, List.mem_append, not_or]
  exact ⟨hstart, hreason⟩

structure RequestHead where
  method : List Char
  target : List Char
  fields : List Field
  method_ne : method ≠ []
  target_ne : target ≠ []
  token : method.all isToken
  visible : target.all isVisible

def RequestHead.line (h : RequestHead) : List UInt8 := utf8Encode (h.method ++ ' ' :: h.target ++ " HTTP/1.1".toList)

def RequestHead.bytes (h : RequestHead) : List UInt8 := h.line ++ crlf ++ h.fields.flatMap Field.bytes ++ crlf

/-! ## Content -/

/-- The value of a hexadecimal digit. -/
def hexDigit? (c : Char) : Option ℕ :=
  if '0' ≤ c ∧ c ≤ '9' then some (c.toNat - 48)
  else if 'a' ≤ c ∧ c ≤ 'f' then some (c.toNat - 87)
  else if 'A' ≤ c ∧ c ≤ 'F' then some (c.toNat - 55)
  else none

/-- The number of a non-empty string of hexadecimal digits. -/
def hexNumber? (cs : List Char) : Option ℕ :=
  if cs = [] then none else cs.foldl (fun n c => n.bind fun n => (hexDigit? c).map (16 * n + ·)) (some 0)

/-- What stands between the size of a chunk and the end of its line: nothing, or extensions. -/
def isChunkExt (ext : List UInt8) : Bool := ext.all isFieldByte && ext.head?.all (· = 59)

/-- A chunk with data. -/
structure Chunk where
  size : List Char
  ext : List UInt8
  data : List UInt8
  size_eq : hexNumber? size = some data.length
  data_ne : data ≠ []
  valid : isChunkExt ext

def Chunk.bytes (c : Chunk) : List UInt8 := utf8Encode c.size ++ c.ext ++ crlf ++ c.data ++ crlf

/-- A chunked body: its chunks, the last chunk and the trailer section. -/
structure ChunkedBody where
  chunks : List Chunk
  last : List Char
  ext : List UInt8
  trailers : List Field
  last_eq : hexNumber? last = some 0
  valid : isChunkExt ext

def ChunkedBody.bytes (b : ChunkedBody) : List UInt8 :=
  b.chunks.flatMap Chunk.bytes ++ utf8Encode b.last ++ b.ext ++ crlf ++ b.trailers.flatMap Field.bytes ++ crlf

/-- What follows a head. -/
inductive Content
  | absent
  | length (body : List UInt8)
  | chunked (b : ChunkedBody)

def Content.bytes : Content → List UInt8
  | .absent => []
  | .length body => body
  | .chunked b => b.bytes

def Content.body : Content → List UInt8
  | .absent => []
  | .length body => body
  | .chunked b => b.chunks.flatMap Chunk.data

/-! ## Common fields -/

theorem isOws_space : ([' '] ++ []).all isOws := by decide

theorem isDigit_one : '1'.isDigit := by decide

/-- `Content-Length` with these digits. -/
def lengthField (digits : List Char) (h : (utf8Encode digits).all isFieldByte) : Field where
  name := "Content-Length".toList
  before := [' ']
  value := utf8Encode digits
  after := []
  name_ne := by decide
  token := by decide
  ows := isOws_space
  valid := h

/-- `Content-Length: 1`. -/
def lengthOne : Field := lengthField ['1'] (by decide)

/-- `Transfer-Encoding: chunked`. -/
def chunkedField : Field where
  name := "Transfer-Encoding".toList
  before := [' ']
  value := utf8Encode "chunked".toList
  after := []
  name_ne := by decide
  token := by decide
  ows := isOws_space
  valid := by decide

/-- `HTTP/1.1 200 OK` with this field. -/
def okHead (f : Field) : StatusHead :=
  { minor := '1', code := 200, reason := utf8Encode "OK".toList, fields := [f]
    minor_digit := isDigit_one, code_ge := by decide, code_lt := by decide, valid := by decide }

/-- The body `hello` in one chunk. -/
def helloChunk : ChunkedBody where
  chunks :=
    [{ size := ['5'], ext := [], data := utf8Encode "hello".toList
       size_eq := by decide, data_ne := by decide, valid := by decide }]
  last := ['0']
  ext := []
  trailers := []
  last_eq := by decide
  valid := by decide

/-! ## Answers -/

/-- The response has no body, whatever its fields say. -/
def Bodiless (method : List Char) (code : ℕ) : Prop := method = "HEAD".toList ∨ code = 204 ∨ code = 304

instance (method : List Char) (code : ℕ) : Decidable (Bodiless method code) :=
  inferInstanceAs (Decidable (_ ∨ _ ∨ _))

/-- The content of a response is framed by its head. -/
def Framed (method : List Char) (h : StatusHead) : Content → Prop
  | .absent => Bodiless method h.code ∧
      (named contentLength h.fields = [] ∨ h.code ≠ 204 ∧ (soleLength h.fields).isSome)
  | .length body => ¬ Bodiless method h.code ∧ named transferEncoding h.fields = [] ∧
      soleLength h.fields = some body.length
  | .chunked _ => ¬ Bodiless method h.code ∧ named contentLength h.fields = [] ∧ isChunked h.fields

/-- A complete answer to a request with the method `method`. -/
structure Answer (method : List Char) where
  interims : List StatusHead
  final : StatusHead
  content : Content
  interim : ∀ h ∈ interims, h.code < 200 ∧ named contentLength h.fields = [] ∧ named transferEncoding h.fields = []
  status : 200 ≤ final.code
  framed : Framed method final content

def Answer.bytes {method : List Char} (a : Answer method) : List UInt8 :=
  a.interims.flatMap StatusHead.bytes ++ a.final.bytes ++ a.content.bytes

/-! ## Requests -/

/-- The content of a request is framed by its fields. -/
def FramedRequest (fs : List Field) : Content → Prop
  | .absent => named contentLength fs = [] ∧ named transferEncoding fs = []
  | .length body => named transferEncoding fs = [] ∧ soleLength fs = some body.length
  | .chunked _ => named contentLength fs = [] ∧ isChunked fs

structure Message where
  head : RequestHead
  content : Content
  framed : FramedRequest head.fields content

def Message.bytes (m : Message) : List UInt8 := m.head.bytes ++ m.content.bytes

end ServiceProxy.Lib.Rfc9112
