import ServiceProxy.Upstream.Dial
import ServiceProxy.Lib.Rfc9112Read

/-!
# Reading a request from an HTTP/1.1 client (`proxy_http.rs`)

`readHttp11Request` is `read_http11_request` over the segments in which the client's bytes arrive: it reads until the
buffer holds an empty line, hands the header block to `httparse` and then reads the body that `Content-Length` announces.
`httparse` is a parameter: a function of the header block.
-/

namespace ServiceProxy.ProxyHttp

open ServiceProxy.Lib ServiceProxy.Upstream

/-- `std::io::Error`. -/
structure StdError where
  kind : IoError
  msg : List Char
  deriving DecidableEq, Repr

def StdError.ofRead (kind : IoError) : StdError := ⟨kind, "read".toList⟩

/-- The outcome of `httparse::Request::parse` with room for 64 headers, and the request it fills. -/
inductive Parsed
  | complete (len : ℕ) (method path : Option (List Char)) (headers : List (List Char × List UInt8))
  | incomplete
  | error (msg : List Char)
  deriving DecidableEq, Repr

/-- `find_header_end`: where the first `\r\n\r\n` ends. -/
def findHeaderEnd : List UInt8 → Option ℕ
  | [] => none
  | b :: bs => if (b :: bs).take 4 = [13, 10, 13, 10] then some 4 else (findHeaderEnd bs).map (· + 1)

/-- What the header loop of `parse_request` collects. -/
structure Collected where
  headers : HeaderMap
  host : List Char
  contentLength : ℕ
  deriving DecidableEq, Repr

/-- One turn of the header loop of `parse_request`. -/
def Collected.add (c : Collected) (h : List Char × List UInt8) : Collected :=
  let value := fromUtf8Lossy h.2
  { headers := c.headers.push h.1 value
    host := if eqIgnoreAsciiCase h.1 "host".toList then value else c.host
    contentLength :=
      if eqIgnoreAsciiCase h.1 "content-length".toList then (parseUnsigned (2 ^ 64) value).getD 0 else c.contentLength }

def collect (headers : List (List Char × List UInt8)) : Collected := headers.foldl Collected.add ⟨[], [], 0⟩

/-- The body loop of `parse_request`.  The first argument bounds the number of its turns; `vec![0u8; n]` panics above
`isize::MAX`. -/
def bodyLoop : ℕ → ℕ → List UInt8 → Stream UInt8 → Except (Halt StdError) (List UInt8 × Stream UInt8)
  | 0, _, body, conn => .ok (body, conn)
  | turns + 1, contentLength, body, conn =>
    if body.length < contentLength then
      if contentLength - body.length < 2 ^ 63 then do
        let (tmp, conn) ← (conn.read (contentLength - body.length)).mapError (Halt.map .ofRead)
        if tmp.isEmpty then .ok (body, conn) else bodyLoop turns contentLength (body ++ tmp) conn
      else .error .panic
    else .ok (body, conn)

/-- `parse_request`. -/
def parseRequest (httparse : List UInt8 → Parsed) (buf : List UInt8) (hdrEnd : ℕ) (conn : Stream UInt8) :
    Except (Halt StdError) (Request × Stream UInt8) :=
  match httparse (buf.take hdrEnd) with
  | .incomplete => .error (.err ⟨.unexpectedEof, "partial headers".toList⟩)
  | .error msg => .error (.err ⟨.invalidData, msg⟩)
  | .complete _ method path headers => do
    let c := collect headers
    let body := buf.drop hdrEnd
    let (body, conn) ← bodyLoop (c.contentLength - body.length) c.contentLength body conn
    .ok ({ method := method.getD "GET".toList
           path := path.getD "/".toList
           host := c.host
           headers := c.headers
           body := body.take c.contentLength }, conn)

/-- The loop of `read_http11_request`.  The first argument bounds the number of its turns. -/
def readLoop (httparse : List UInt8 → Parsed) :
    ℕ → List UInt8 → Stream UInt8 → Except (Halt StdError) (Request × Stream UInt8)
  | 0, _, _ => .error .pending
  | turns + 1, buf, conn => do
    let (tmp, conn) ← (conn.read 1024).mapError (Halt.map .ofRead)
    if tmp.isEmpty then
      .error (.err ⟨.unexpectedEof, "eof before headers".toList⟩)
    else
      let buf := buf ++ tmp
      match findHeaderEnd buf with
      | some hdrEnd => parseRequest httparse buf hdrEnd conn
      | none =>
        if 1024 * 1024 < buf.length then .error (.err ⟨.invalidData, "headers too large".toList⟩)
        else readLoop httparse turns buf conn

/-- `read_http11_request`. -/
def readHttp11Request (httparse : List UInt8 → Parsed) (conn : Stream UInt8) :
    Except (Halt StdError) (Request × Stream UInt8) :=
  readLoop httparse (conn.flat.length + 1) [] conn

/-! ## The end of the header block -/

theorem findHeaderEnd_bounds {bs : List UInt8} {k : ℕ} (h : findHeaderEnd bs = some k) : 4 ≤ k ∧ k ≤ bs.length := by
  induction bs generalizing k with
  | nil => simp [findHeaderEnd] at h
  | cons b bs ih =>
    simp only [findHeaderEnd] at h
    split_ifs at h with htake
    · have := congrArg List.length htake
      obtain rfl : 4 = k := Option.some.inj h
      simp only [List.length_take, List.length_cons, List.length_nil] at this ⊢
      omega
    · obtain ⟨j, hj, rfl⟩ := Option.map_eq_some_iff.1 h
      have := ih hj
      simp only [List.length_cons]
      omega

theorem findHeaderEnd_suffix {bs : List UInt8} {k : ℕ} (h : findHeaderEnd bs = some k) : [13, 10, 13, 10] <:+ bs.take k := by
  induction bs generalizing k with
  | nil => cases h
  | cons b bs ih =>
    simp only [findHeaderEnd] at h
    split_ifs at h with htake
    · obtain rfl := Option.some.inj h
      exact ⟨[], htake.symm⟩
    · obtain ⟨j, hj, rfl⟩ := Option.map_eq_some_iff.1 h
      rw [List.take_succ_cons]
      exact (ih hj).trans (List.suffix_cons _ _)

theorem findHeaderEnd_append {bs : List UInt8} {k : ℕ} (h : findHeaderEnd bs = some k) (more : List UInt8) :
    findHeaderEnd (bs ++ more) = some k := by
  induction bs generalizing k with
  | nil => simp [findHeaderEnd] at h
  | cons b bs ih =>
    have hlen : 4 ≤ (b :: bs).length := (findHeaderEnd_bounds h).1.trans (findHeaderEnd_bounds h).2
    simp only [findHeaderEnd] at h
    rw [List.cons_append, findHeaderEnd, ← List.cons_append, List.take_append_of_le_length hlen]
    split_ifs at h ⊢ with htake
    · exact h
    · obtain ⟨j, hj, rfl⟩ := Option.map_eq_some_iff.1 h
      rw [ih hj]
      rfl

theorem findHeaderEnd_skip {line : List UInt8} (h : 13 ∉ line) (rest : List UInt8) :
    findHeaderEnd (line ++ rest) = (findHeaderEnd rest).map (· + line.length) := by
  induction line with
  | nil => simp
  | cons b line ih =>
    simp only [List.mem_cons, not_or] at h
    have hne : ((b :: (line ++ rest)).take 4) ≠ [13, 10, 13, 10] := by
      intro htake
      rw [List.take_succ_cons] at htake
      exact h.1 (List.cons.inj htake).1.symm
    rw [List.cons_append, findHeaderEnd, if_neg hne, ih h.2, Option.map_map]
    rfl

/-- The header block ends with its first empty line. -/
theorem findHeaderEnd_lines {lines : List (List UInt8)} (h : ∀ line ∈ lines, line ≠ [] ∧ 13 ∉ line) (hne : lines ≠ [])
    (rest : List UInt8) :
    findHeaderEnd (lines.flatMap (· ++ Rfc9112.crlf) ++ (Rfc9112.crlf ++ rest)) =
      some ((lines.flatMap (· ++ Rfc9112.crlf)).length + 2) := by
  induction lines with
  | nil => exact absurd rfl hne
  | cons line lines ih =>
    simp only [List.mem_cons, forall_eq_or_imp] at h
    rw [List.flatMap_cons, List.append_assoc, List.append_assoc, findHeaderEnd_skip h.1.2]
    have hcrlf : ∀ bs : List UInt8, bs.head? ≠ some 13 →
        findHeaderEnd (Rfc9112.crlf ++ bs) = (findHeaderEnd bs).map (· + 2) := by
      intro bs hbs
      have h1 : ((13 : UInt8) :: 10 :: bs).take 4 ≠ [13, 10, 13, 10] := by
        intro htake
        cases bs with
        | nil => simp at htake
        | cons b bs =>
          simp only [List.take_succ_cons, List.cons.injEq] at htake
          exact hbs (by simp [htake.2.2.1])
      have h2 : ((10 : UInt8) :: bs).take 4 ≠ [13, 10, 13, 10] := by
        intro htake
        rw [List.take_succ_cons] at htake
        exact absurd (List.cons.inj htake).1 (by decide)
      simp only [Rfc9112.crlf, List.cons_append, List.nil_append]
      rw [findHeaderEnd, if_neg h1, findHeaderEnd, if_neg h2, Option.map_map]
      rfl
    cases lines with
    | nil =>
      -- the last line: its end and the empty line are the four bytes
      have : findHeaderEnd (Rfc9112.crlf ++ (Rfc9112.crlf ++ rest)) = some 4 := by
        simp [findHeaderEnd, Rfc9112.crlf]
      simp only [List.flatMap_nil, List.nil_append, List.append_nil, this, Option.map_some, Option.some.injEq,
        List.length_append, show Rfc9112.crlf.length = 2 from rfl]
      omega
    | cons next lines =>
      have hhead : ((next :: lines).flatMap (· ++ Rfc9112.crlf) ++ (Rfc9112.crlf ++ rest)).head? ≠ some 13 := by
        obtain ⟨b, bs, hb⟩ := List.exists_cons_of_ne_nil (h.2 next (by simp)).1
        have hnot := (h.2 next (by simp)).2
        simp only [List.flatMap_cons, hb, List.cons_append, List.head?_cons, ne_eq, Option.some.injEq]
        rintro rfl
        exact hnot (by simp [hb])
      rw [hcrlf _ hhead, ih h.2 (by simp)]
      simp only [Option.map_some, Option.some.injEq, List.length_append, show Rfc9112.crlf.length = 2 from rfl]
      omega

end ServiceProxy.ProxyHttp
