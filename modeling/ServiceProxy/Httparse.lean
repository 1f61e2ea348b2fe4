import ServiceProxy.ProxyHttp

/-!
# What is assumed of `httparse`

`httparse::Request::parse` is not part of the repository.  `Httparse` states what is documented of it: which header blocks
it accepts, what it returns of them, and where a block ends.

* `RequestBlock` — a header block in CRLF lines, with any characters but controls and blanks in the target;
* `headEnd` — the end of a block in lines that end in CRLF or LF, behind the empty lines in front of it;
* `parseBlock` — a parser that does all of this (`parseBlock_spec`).
-/

namespace ServiceProxy.ProxyHttp

open ServiceProxy.Lib
open ServiceProxy.Lib.Rfc9112 (Field isToken isFieldByte trimBlank)

/-! ## Header blocks -/

/-- A character of a request target. -/
def isTarget (c : Char) : Bool := 33 ≤ c.toNat ∧ c.toNat ≠ 127

structure Started (method path : List Char) : Prop where
  method_ne : method ≠ []
  token : method.all isToken
  path_ne : path ≠ []
  target : path.all isTarget

/-- A name and a value, as they are returned for a field line. -/
structure Returned (h : List Char × List UInt8) : Prop where
  name_ne : h.1 ≠ []
  token : h.1.all isToken
  valid : h.2.all isFieldByte
  trimmed : trimBlank h.2 = h.2

/-- A header block in CRLF lines. -/
structure RequestBlock where
  method : List Char
  path : List Char
  fields : List Field
  started : Started method path

def RequestBlock.line (h : RequestBlock) : List UInt8 :=
  utf8Encode h.method ++ 32 :: (utf8Encode h.path ++ 32 :: utf8Encode "HTTP/1.1".toList)

def RequestBlock.lines (h : RequestBlock) : List (List UInt8) := h.line :: h.fields.map Field.line

def RequestBlock.bytes (h : RequestBlock) : List UInt8 := h.lines.flatMap (· ++ Rfc9112.crlf) ++ Rfc9112.crlf

/-! ## The end of a block -/

def skipEmptyLines : List UInt8 → List UInt8
  | 10 :: bs => skipEmptyLines bs
  | 13 :: 10 :: bs => skipEmptyLines bs
  | bs => bs

def stripCr (line : List UInt8) : List UInt8 := if line.getLast? = some 13 then line.dropLast else line

/-- The lines up to an empty one, and the bytes behind it.  The first argument bounds their number. -/
def blockLines : ℕ → List UInt8 → Option (List (List UInt8) × List UInt8)
  | 0, _ => none
  | n + 1, bs =>
    (splitOnce 10 bs).bind fun p =>
      if (stripCr p.1).isEmpty then some ([], p.2)
      else (blockLines n p.2).map fun q => (stripCr p.1 :: q.1, q.2)

/-- How many bytes there are up to the first empty line behind the empty lines in front, with it. -/
def headEnd (bs : List UInt8) : Option ℕ :=
  (blockLines (bs.length + 1) (skipEmptyLines bs)).map fun p => bs.length - p.2.length

/-- **What is assumed of `httparse`.**  It takes a block in CRLF lines with at most 64 fields apart; it only accepts what can
stand on these lines, and trims the values; the length it returns is that of the block. -/
structure Httparse (httparse : List UInt8 → Parsed) : Prop where
  accepts : ∀ h : RequestBlock, h.fields.length ≤ 64 →
    httparse h.bytes = .complete h.bytes.length (some h.method) (some h.path) (h.fields.map Field.received)
  sound : ∀ bs len method path headers, httparse bs = .complete len method path headers →
    (∃ m p, method = some m ∧ path = some p ∧ Started m p) ∧ ∀ h ∈ headers, Returned h
  ends : ∀ bs len method path headers, httparse bs = .complete len method path headers → headEnd bs = some len

section Block

variable (h : RequestBlock) {b : UInt8}

theorem notMem_of_started {cs : List Char} (hcs : ∀ c ∈ cs, 33 ≤ c.toNat) (hb : b.toNat ≤ 32) : b ∉ utf8Encode cs := by
  refine notMem_utf8Encode (by omega) fun c hc => ?_
  have := hcs c hc
  omega

theorem RequestBlock.notMem_method (hb : b.toNat ≤ 32) : b ∉ utf8Encode h.method := by
  refine notMem_of_started (fun c hc => ?_) hb
  exact (Rfc9112.isToken_iff.1 (List.all_eq_true.1 h.started.token c hc)).1

theorem RequestBlock.notMem_path (hb : b.toNat ≤ 32) : b ∉ utf8Encode h.path := by
  refine notMem_of_started (fun c hc => ?_) hb
  have hvisible := List.all_eq_true.1 h.started.target c hc
  simp only [isTarget, decide_eq_true_eq] at hvisible
  exact hvisible.1

theorem RequestBlock.line_ne : h.line ≠ [] := by
  simp [RequestBlock.line]

theorem RequestBlock.notMem_line (hb : b = 13 ∨ b = 10) : b ∉ h.line := by
  have hnat : b.toNat ≤ 32 ∧ b ≠ 32 ∧ b ∉ utf8Encode "HTTP/1.1".toList := by rcases hb with rfl | rfl <;> decide
  simp only [RequestBlock.line, List.mem_append, List.mem_cons, not_or]
  exact ⟨h.notMem_method hnat.1, hnat.2.1, h.notMem_path hnat.1, hnat.2.1, hnat.2.2⟩

theorem RequestBlock.lines_ok (hb : b = 13 ∨ b = 10) : ∀ line ∈ h.lines, line ≠ [] ∧ b ∉ line := by
  intro line hline
  rcases List.mem_cons.1 hline with rfl | hline
  · exact ⟨h.line_ne, h.notMem_line hb⟩
  · obtain ⟨f, -, rfl⟩ := List.mem_map.1 hline
    exact ⟨by simp [Field.line, f.name_ne], f.notMem_line hb⟩

theorem findHeaderEnd_block (rest : List UInt8) : findHeaderEnd (h.bytes ++ rest) = some h.bytes.length := by
  rw [RequestBlock.bytes, List.append_assoc, findHeaderEnd_lines (h.lines_ok (.inl rfl)) (by simp [RequestBlock.lines]),
    List.length_append]
  rfl

end Block

/-! ## A parser that does what is assumed -/

/-- The method and the target of a request line. -/
def parseStart (line : List UInt8) : Option (List Char × List Char) :=
  (splitOnce 32 line).bind fun p => (splitOnce 32 p.2).bind fun q =>
    (utf8Decode p.1).bind fun method => (utf8Decode q.1).bind fun path =>
      if method ≠ [] ∧ method.all isToken ∧ path ≠ [] ∧ path.all isTarget ∧
          (q.2 = utf8Encode "HTTP/1.1".toList ∨ q.2 = utf8Encode "HTTP/1.0".toList) then
        some (method, path)
      else none

/-- The fields of the lines, if there are at most 64 and their values hold no control character. -/
def parseReturned (lines : List (List UInt8)) : Option (List (List Char × List UInt8)) :=
  (Rfc9112.parseFields lines).filter fun fs => decide (fs.length ≤ 64) && fs.all fun f => f.2.all isFieldByte

/-- A parser of header blocks. -/
def parseBlock (bs : List UInt8) : Parsed :=
  match blockLines (bs.length + 1) (skipEmptyLines bs) with
  | some (start :: lines, rest) =>
    match parseStart start, parseReturned lines with
    | some (method, path), some fs => .complete (bs.length - rest.length) (some method) (some path) fs
    | _, _ => .error "invalid token".toList
  | _ => .incomplete

section Parser

variable {bs rest : List UInt8} {lines : List (List UInt8)} {headers : List (List Char × List UInt8)}

theorem stripCr_append_cr (line : List UInt8) : stripCr (line ++ [13]) = line := by
  simp [stripCr]

theorem blockLines_append (hlines : ∀ line ∈ lines, line ≠ [] ∧ 10 ∉ line) {n : ℕ} (hn : lines.length < n)
    (rest : List UInt8) :
    blockLines n (lines.flatMap (· ++ Rfc9112.crlf) ++ (Rfc9112.crlf ++ rest)) = some (lines, rest) := by
  induction lines generalizing n with
  | nil =>
    obtain ⟨n, rfl⟩ : ∃ m, n = m + 1 := ⟨n - 1, by omega⟩
    have hsplit : splitOnce 10 ([13] ++ 10 :: rest) = some ([13], rest) := splitOnce_append (by decide) rest
    rw [blockLines, show [].flatMap (· ++ Rfc9112.crlf) ++ (Rfc9112.crlf ++ rest) = [13] ++ 10 :: rest from rfl, hsplit]
    rfl
  | cons line lines ih =>
    obtain ⟨n, rfl⟩ : ∃ m, n = m + 1 := ⟨n - 1, by omega⟩
    simp only [List.mem_cons, forall_eq_or_imp] at hlines
    have hsplit : ∀ more, splitOnce 10 ((line ++ [13]) ++ 10 :: more) = some (line ++ [13], more) :=
      splitOnce_append (by simp [hlines.1.2])
    have hbytes : (line :: lines).flatMap (· ++ Rfc9112.crlf) ++ (Rfc9112.crlf ++ rest) =
        (line ++ [13]) ++ 10 :: (lines.flatMap (· ++ Rfc9112.crlf) ++ (Rfc9112.crlf ++ rest)) := by
      simp [Rfc9112.crlf]
    rw [hbytes, blockLines, hsplit, Option.bind_some, stripCr_append_cr, if_neg (by simpa using hlines.1.1),
      ih hlines.2 (by simpa using hn)]
    rfl

theorem skipEmptyLines_of_head (hcr : bs.head? ≠ some 13) (hlf : bs.head? ≠ some 10) : skipEmptyLines bs = bs := by
  unfold skipEmptyLines
  split
  · simp at hlf
  · simp at hcr
  · rfl

theorem parseStart_line (h : RequestBlock) : parseStart h.line = some (h.method, h.path) := by
  rw [parseStart, RequestBlock.line, splitOnce_append (h.notMem_method (by decide)), Option.bind_some,
    splitOnce_append (h.notMem_path (by decide)), Option.bind_some, utf8Decode_utf8Encode, Option.bind_some,
    utf8Decode_utf8Encode, Option.bind_some]
  exact if_pos ⟨h.started.method_ne, h.started.token, h.started.path_ne, h.started.target, .inl rfl⟩

theorem started_of_parseStart {line : List UInt8} {m p : List Char} (h : parseStart line = some (m, p)) : Started m p := by
  simp only [parseStart, Option.bind_eq_some_iff, Option.ite_none_right_eq_some] at h
  obtain ⟨-, -, -, -, method, -, path, -, ⟨hm, htoken, hp, htarget, -⟩, heq⟩ := h
  obtain ⟨rfl, rfl⟩ := Prod.mk.inj (Option.some.inj heq)
  exact ⟨hm, htoken, hp, htarget⟩

theorem parseFields_sound (h : Rfc9112.parseFields lines = some headers) :
    ∀ f ∈ headers, f.1 ≠ [] ∧ f.1.all isToken ∧ trimBlank f.2 = f.2 := by
  induction lines generalizing headers with
  | nil =>
    obtain rfl := Option.some.inj h
    simp
  | cons line lines ih =>
    simp only [Rfc9112.parseFields, Option.bind_eq_some_iff, Option.map_eq_some_iff] at h
    obtain ⟨f, hf, fs, hfs, rfl⟩ := h
    simp only [Rfc9112.parseField, Option.bind_eq_some_iff, Option.ite_none_right_eq_some] at hf
    obtain ⟨p, -, name, -, ⟨hne, htoken⟩, heq⟩ := hf
    obtain rfl := Option.some.inj heq
    intro g hg
    rcases List.mem_cons.1 hg with rfl | hg
    · exact ⟨hne, htoken, dropWhile_rdropWhile_idem _⟩
    · exact ih hfs g hg

theorem returned_of_parseReturned (h : parseReturned lines = some headers) : ∀ f ∈ headers, Returned f := by
  rw [parseReturned, Option.filter_eq_some_iff] at h
  intro f hf
  obtain ⟨hne, htoken, htrim⟩ := parseFields_sound h.1 f hf
  have hvalid := h.2
  simp only [Bool.and_eq_true] at hvalid
  exact ⟨hne, htoken, List.all_eq_true.1 hvalid.2 f hf, htrim⟩

theorem parseReturned_lines {fs : List Field} (h : fs.length ≤ 64) :
    parseReturned (fs.map Field.line) = some (fs.map Field.received) := by
  rw [parseReturned, Rfc9112.parseFields_lines, Option.filter_eq_some_iff]
  refine ⟨rfl, ?_⟩
  simp only [List.length_map, h, decide_true, Bool.true_and, List.all_map]
  refine List.all_eq_true.2 fun f _ => List.all_eq_true.2 fun b hb => ?_
  exact List.all_eq_true.1 f.valid b (Rfc9112.mem_of_mem_trimBlank hb)

/-- What `parseBlock` accepts. -/
theorem parseBlock_eq_complete {len : ℕ} {method path : Option (List Char)}
    (h : parseBlock bs = .complete len method path headers) :
    ∃ start lines rest m p, blockLines (bs.length + 1) (skipEmptyLines bs) = some (start :: lines, rest) ∧
      parseStart start = some (m, p) ∧ parseReturned lines = some headers ∧ len = bs.length - rest.length ∧
      method = some m ∧ path = some p := by
  unfold parseBlock at h
  split at h
  · rename_i start lines rest hlines
    split at h
    · rename_i m p fs hstart hfs
      obtain ⟨rfl, rfl, rfl, rfl⟩ := Parsed.complete.inj h
      exact ⟨start, lines, rest, m, p, hlines, hstart, hfs, rfl, rfl, rfl⟩
    · cases h
  · cases h

theorem parseBlock_spec : Httparse parseBlock where
  accepts := by
    intro h hle
    have hbytes : h.bytes = h.lines.flatMap (· ++ Rfc9112.crlf) ++ (Rfc9112.crlf ++ []) := by
      rw [List.append_nil, RequestBlock.bytes]
    have hlines : blockLines (h.bytes.length + 1) h.bytes = some (h.lines, []) := by
      rw [hbytes]
      exact blockLines_append (h.lines_ok (.inr rfl)) (Rfc9112.length_lines_lt _ _) []
    have hskip : skipEmptyLines h.bytes = h.bytes := by
      obtain ⟨b, bs, hb⟩ := List.exists_cons_of_ne_nil h.line_ne
      have hhead : h.bytes.head? = some b := by simp [RequestBlock.bytes, RequestBlock.lines, hb]
      have hnot : ∀ d, d = 13 ∨ d = 10 → h.bytes.head? ≠ some d := by
        intro d hd heq
        obtain rfl := Option.some.inj (hhead.symm.trans heq)
        exact h.notMem_line hd (by simp [hb])
      exact skipEmptyLines_of_head (hnot 13 (.inl rfl)) (hnot 10 (.inr rfl))
    unfold parseBlock
    rw [hskip, hlines]
    simp only [RequestBlock.lines, parseStart_line, parseReturned_lines hle, List.length_nil, Nat.sub_zero]
  sound := by
    intro bs len method path headers h
    obtain ⟨start, lines, rest, m, p, -, hstart, hfs, -, rfl, rfl⟩ := parseBlock_eq_complete h
    exact ⟨⟨m, p, rfl, rfl, started_of_parseStart hstart⟩, returned_of_parseReturned hfs⟩
  ends := by
    intro bs len method path headers h
    obtain ⟨start, lines, rest, m, p, hlines, -, -, rfl, -, -⟩ := parseBlock_eq_complete h
    rw [headEnd, hlines]
    rfl

end Parser

end ServiceProxy.ProxyHttp
