import ServiceProxy.Upstream.WriteResponse

/-!
# A response that is cut short

The upstream closes the connection in the middle of a response: a head with one valid `Content-Length` and a body of that
length, cut after `k` bytes.  `read_line` answers the end of the stream with what it has, or with an empty line, and the
header loop takes an empty line for the end of the head.  So most cuts in the head are not noticed:

* `readHeaders_cut` — what the header loop makes of field lines that are cut;
* `truncated_iff` — `read_response` returns an error exactly if the cut is `Detected`: before the status code, in the name
  of a field, in the middle of a character, or after a digit of `Content-Length` other than `0`.
-/

namespace ServiceProxy.Upstream

open ServiceProxy.Lib
open ServiceProxy.Lib.Rfc9112 (Field StatusHead named soleLength number?)

/-! ## Where a response is cut -/

/-- The field lines are cut in a name, or before its colon. -/
def CutInName : List Field → ℕ → Prop
  | [], _ => False
  | f :: fs, j => (0 < j ∧ j ≤ f.name.length) ∨ CutInName fs (j - f.bytes.length)

instance CutInName.decidable : (fs : List Field) → (j : ℕ) → Decidable (CutInName fs j)
  | [], _ => isFalse False.elim
  | f :: fs, j =>
    haveI := CutInName.decidable fs (j - f.bytes.length)
    inferInstanceAs (Decidable (_ ∨ _))

/-- What is left of the value of the first `Content-Length`. -/
def lengthSeen : List Field → ℕ → List UInt8
  | [], _ => []
  | f :: fs, j =>
    if eqIgnoreAsciiCase f.name Rfc9112.contentLength then f.value.take (j - (f.name.length + 1 + f.before.length))
    else lengthSeen fs (j - f.bytes.length)

/-- The number that its digits denote, `0` if there are none. -/
def numberSeen (fs : List Field) (j : ℕ) : ℕ := (number? (lengthSeen fs j)).getD 0

/-- **The cut is noticed**: it comes before the status code, leaves a text that is not UTF-8, falls in a name, or leaves a
`Content-Length` that is not `0` (and can be allocated). -/
def Detected (h : StatusHead) (k : ℕ) : Prop :=
  k ≤ 9 ∨ utf8Decode (h.bytes.take k) = none ∨ CutInName h.fields (k - (h.line.length + 2)) ∨
    0 < numberSeen h.fields (k - (h.line.length + 2)) ∧ numberSeen h.fields (k - (h.line.length + 2)) < 2 ^ 63

section Fields

variable {f : Field} {fs : List Field} {m : HeaderMap} {contentLength : Option ℕ} {turns j : ℕ} {q body : List UInt8}

theorem not_cutInName_zero : ∀ fs : List Field, ¬ CutInName fs 0
  | [] => id
  | f :: fs => by
    simp only [CutInName, Nat.lt_irrefl, false_and, Nat.zero_sub, false_or]
    exact not_cutInName_zero fs

/-- The number of a text of digits, if it is a `usize`. -/
def usizeOf (value : List UInt8) : Option ℕ := (number? value).filter (· < 2 ^ 64)

/-- The length that the header loop has found when the field lines are cut. -/
def lengthAt (contentLength : Option ℕ) : List Field → ℕ → Option ℕ
  | [], _ => contentLength
  | f :: fs, j =>
    if j ≤ f.name.length then contentLength
    else
      lengthAt (if eqIgnoreAsciiCase f.name Rfc9112.contentLength then
          usizeOf (f.value.take (j - (f.name.length + 1 + f.before.length))) else contentLength) fs (j - f.bytes.length)

theorem lengthAt_zero (fs : List Field) : lengthAt contentLength fs 0 = contentLength := by
  cases fs with
  | nil => rfl
  | cons f fs => exact if_pos (Nat.zero_le _)

/-! ## Lines that are cut -/

theorem readLine_eof (hq : 10 ∉ q) :
    (plain .eof).readLine q =
      match utf8Decode q with
      | some line => .ok (line, [])
      | none => .error (.err .invalidData) := by
  have hread : Plain.readUntil 10 .eof q = .ok (q, []) := Plain.readUntil_eq_ok.2 (.inr ⟨hq, rfl, rfl, rfl⟩)
  change lineOf (Plain.readUntil 10 .eof q) = _
  rw [hread]
  rfl

theorem readHeaders_eof (hq : q = [] ∨ q = [13]) :
    readHeaders (plain .eof) (turns + 1) m contentLength q = .ok ((m, contentLength), []) := by
  rcases hq with rfl | rfl <;> rfl

theorem readHeaders_name {name : List Char} (hname : ∀ c ∈ name, Rfc9112.isToken c) (hne : name ≠ []) :
    ∃ a, readHeaders (plain .eof) (turns + 1) m contentLength (utf8Encode name) = .error (.err a) := by
  have htoken : ∀ c ∈ name, c ≠ '\r' ∧ c ≠ '\n' ∧ c ≠ ':' := by
    intro c hc
    have hc := Rfc9112.isToken_iff.1 (hname c hc)
    refine ⟨?_, ?_, ?_⟩ <;> rintro rfl <;> simp at hc
  have hlf : 10 ∉ utf8Encode name := notMem_encode (c := '\n') (by decide) fun hmem => (htoken _ hmem).2.1 rfl
  have htrim : trimEndMatches isCrOrLf name = name := by
    refine rdropWhile_of_neg fun c hc => ?_
    simp only [isCrOrLf, decide_eq_true_eq, not_or]
    exact ⟨(htoken c hc).1, (htoken c hc).2.1⟩
  have hsplit : splitOnce ':' name = none := by
    cases h : splitOnce ':' name with
    | none => rfl
    | some p =>
      obtain ⟨-, heq⟩ := splitOnce_eq_some.1 h
      exact absurd rfl (htoken ':' (by rw [heq]; simp)).2.2
  refine ⟨.parse ("bad header: ".toList ++ name), ?_⟩
  rw [readHeaders, readLine_eof hlf, utf8Decode_utf8Encode]
  simp only [Except.mapError, bind, Except.bind, htrim]
  rw [if_neg (by simpa using hne), hsplit]

/-- What comes behind the colon before the cut. -/
theorem readHeaders_value {name : List Char} (hcolon : ':' ∉ name) (hname : '\n' ∉ name) (htrim : trim name = name)
    (hq : 10 ∉ q) :
    readHeaders (plain .eof) (turns + 2) m contentLength (utf8Encode (name ++ [':']) ++ q) =
      match utf8Decode q with
      | some value => .ok ((m.push name (trim value), lengthAfter contentLength (name, trim value)), [])
      | none => .error (.err (.io .invalidData)) := by
  have hlf : 10 ∉ utf8Encode (name ++ [':']) ++ q := by
    rw [List.mem_append, not_or]
    exact ⟨notMem_encode (c := '\n') (by decide) (by simp [hname]), hq⟩
  rw [readHeaders, readLine_eof hlf, utf8Decode_encode_append]
  cases hdecode : utf8Decode q with
  | none => rfl
  | some value =>
    have hline : trimEndMatches isCrOrLf (name ++ [':'] ++ value) = name ++ ':' :: trimEndMatches isCrOrLf value := by
      rw [List.append_assoc, List.singleton_append]
      exact rdropWhile_append_cons_of_neg (by decide) value
    simp only [Option.map_some, Except.mapError, bind, Except.bind, hline]
    rw [if_neg (by simp), splitOnce_append hcolon]
    simp only [htrim, trim_trimEndMatches fun _ => isWhitespace_of_isCrOrLf]
    exact readHeaders_eof (.inl rfl)

/-! ## The value of `Content-Length` -/

theorem digits_of_number? {value : List UInt8} (h : (number? value).isSome) :
    ∃ ds : List Char, value = utf8Encode ds ∧ ∀ c ∈ ds, c.isDigit := by
  obtain ⟨n, hn⟩ := Option.isSome_iff_exists.1 h
  simp only [number?, Option.bind_eq_some_iff, Option.ite_none_right_eq_some] at hn
  obtain ⟨ds, hds, ⟨-, hdigits⟩, -⟩ := hn
  exact ⟨ds, (utf8Decode_eq_some.1 hds).symm, List.all_eq_true.1 hdigits⟩

theorem usizeOf_digits {ds : List Char} (hds : ∀ c ∈ ds, c.isDigit) :
    usizeOf (utf8Encode ds) = parseUnsigned (2 ^ 64) ds := by
  rw [usizeOf, number?, utf8Decode_utf8Encode, Option.bind_some]
  by_cases hne : ds = []
  · subst hne
    rfl
  · rw [if_pos ⟨hne, List.all_eq_true.2 hds⟩, parseUnsigned_digits _ hne hds, Option.filter_some]
    simp only [decide_eq_true_eq]

theorem toNat_lt_of_isDigit {c : Char} (h : c.isDigit) : c.toNat < 128 := by
  have := isDigit_toNat h
  omega

/-- What stands behind the colon, but for the line feed. -/
def afterColon (f : Field) : List UInt8 := utf8Encode f.before ++ (f.value ++ (utf8Encode f.after ++ [13]))

/-- **The value of a `Content-Length` line that is cut behind its colon.** -/
theorem decode_length_cut (hvalue : (number? f.value).isSome) (i : ℕ) :
    ∃ text, utf8Decode ((afterColon f).take i) = some text ∧
      parseUnsigned (2 ^ 64) (trim text) = usizeOf (f.value.take (i - f.before.length)) := by
  obtain ⟨ds, hds, hdigits⟩ := digits_of_number? hvalue
  have hows : ∀ c ∈ f.before ++ (f.after ++ ['\r']), isWhitespace c ∧ c.toNat < 128 := by
    intro c hc
    have hc : c = ' ' ∨ c = '\t' ∨ c = '\r' := by
      simp only [List.mem_append, List.mem_singleton] at hc
      rcases hc with hc | hc | hc
      · exact (f.ows_before hc).imp_right .inl
      · exact (f.ows_after hc).imp_right .inl
      · exact .inr (.inr hc)
    rcases hc with rfl | rfl | rfl <;> decide
  have hascii : ∀ c ∈ f.before ++ (ds ++ (f.after ++ ['\r'])), c.toNat < 128 := by
    intro c hc
    rw [List.mem_append, List.mem_append] at hc
    rcases hc with hc | hc | hc
    · exact (hows c (List.mem_append_left _ hc)).2
    · exact toNat_lt_of_isDigit (hdigits c hc)
    · exact (hows c (List.mem_append_right _ hc)).2
  have hbytes : afterColon f = utf8Encode (f.before ++ (ds ++ (f.after ++ ['\r']))) := by
    simp [afterColon, hds, show String.utf8EncodeChar '\r' = [13] by decide]
  have htext : (f.before ++ (ds ++ (f.after ++ ['\r']))).take i = f.before.take i ++
      (ds.take (i - f.before.length) ++ (f.after ++ ['\r']).take (i - f.before.length - ds.length)) := by
    rw [List.take_append, List.take_append]
  have htrim : trim ((f.before ++ (ds ++ (f.after ++ ['\r']))).take i) = ds.take (i - f.before.length) := by
    rw [htext, trim_append (fun c hc => (hows c (List.mem_append_left _ (List.mem_of_mem_take hc))).1)
      (fun c hc => (hows c (List.mem_append_right _ (List.mem_of_mem_take hc))).1)]
    refine trim_of_neg fun c hc => ?_
    rw [not_isWhitespace_of_isDigit (hdigits c (List.mem_of_mem_take hc))]
    simp
  refine ⟨_, by rw [hbytes, take_utf8Encode hascii, utf8Decode_utf8Encode], ?_⟩
  rw [htrim, hds, take_utf8Encode (fun c hc => toNat_lt_of_isDigit (hdigits c hc)),
    usizeOf_digits fun c hc => hdigits c (List.mem_of_mem_take hc)]

/-! ## Field lines that are cut -/

theorem name_ascii (f : Field) : ∀ c ∈ f.name ++ [':'], c.toNat < 128 := by
  intro c hc
  rcases List.mem_append.1 hc with hc | hc
  · have := (Rfc9112.isToken_iff.1 (f.name_token hc)).2.1
    omega
  · obtain rfl := List.mem_singleton.1 hc
    decide

theorem bytes_eq (f : Field) : f.bytes = utf8Encode (f.name ++ [':']) ++ afterColon f ++ [10] := by
  simp [Field.bytes, Field.line, afterColon, Rfc9112.crlf]

theorem take_bytes (f : Field) {j : ℕ} (hj : j < f.bytes.length) :
    f.bytes.take j = utf8Encode ((f.name ++ [':']).take j) ++ (afterColon f).take (j - (f.name.length + 1)) := by
  have hlen : j ≤ (utf8Encode (f.name ++ [':']) ++ afterColon f).length := by
    rw [bytes_eq, List.length_append, List.length_singleton] at hj
    omega
  rw [bytes_eq, List.take_append_of_le_length hlen, List.take_append, take_utf8Encode (name_ascii f),
    length_utf8Encode (name_ascii f), List.length_append, List.length_singleton]

theorem newline_notMem (f : Field) : '\n' ∉ f.name := by
  intro h
  exact absurd (f.name_token h) (by decide)

theorem notMem_afterColon (f : Field) (i : ℕ) : 10 ∉ (afterColon f).take i := by
  intro hmem
  have hline := f.notMem_line (.inr rfl : (10 : UInt8) = 13 ∨ (10 : UInt8) = 10)
  have hmem := List.mem_of_mem_take hmem
  simp only [Field.line, afterColon, utf8Encode_append, utf8Encode_cons, List.mem_append, List.mem_singleton,
    not_or] at hline hmem
  rcases hmem with hmem | hmem | hmem | hmem
  · exact hline.1.1.2.2 hmem
  · exact hline.1.2 hmem
  · exact hline.2 hmem
  · cases hmem

/-- The header loop fails if `bad` holds, else it goes on with the length and the bytes `p`. -/
def Outcome (bad : Prop) (p : Option ℕ × List UInt8)
    (x : Except (Halt UpstreamError) ((HeaderMap × Option ℕ) × List UInt8)) : Prop :=
  bad ∧ (∃ a, x = .error (.err a)) ∨ ¬ bad ∧ ∃ m, x = .ok ((m, p.1), p.2)

/-- **A field line that is cut**: only in the name the header loop is sure to notice. -/
theorem readHeaders_cut_field (hvalue : eqIgnoreAsciiCase f.name Rfc9112.contentLength → (number? f.value).isSome)
    (hj : 0 < j) (hlt : j < f.bytes.length) :
    Outcome (utf8Decode (f.bytes.take j) = none ∨ j ≤ f.name.length) (lengthAt contentLength [f] j, [])
      (readHeaders (plain .eof) (turns + 2) m contentLength (f.bytes.take j)) := by
  rw [take_bytes f hlt]
  by_cases hname : j ≤ f.name.length
  · have htake : (f.name ++ [':']).take j = f.name.take j := List.take_append_of_le_length hname
    have hrest : j - (f.name.length + 1) = 0 := by omega
    rw [htake, hrest, List.take_zero, List.append_nil]
    refine .inl ⟨.inr hname, ?_⟩
    refine readHeaders_name (fun c hc => f.name_token (List.mem_of_mem_take hc)) fun hnil => ?_
    rcases List.take_eq_nil_iff.1 hnil with h | h
    · omega
    · exact f.name_ne h
  · have htake : (f.name ++ [':']).take j = f.name ++ [':'] := List.take_of_length_le (by simp; omega)
    rw [htake, readHeaders_value f.colon_notMem (newline_notMem f) (trim_name f) (notMem_afterColon f _),
      utf8Decode_encode_append, Option.map_eq_none_iff]
    cases hdecode : utf8Decode ((afterColon f).take (j - (f.name.length + 1))) with
    | none => exact .inl ⟨.inl rfl, _, rfl⟩
    | some value =>
      have hlength : lengthAfter contentLength (f.name, trim value) = lengthAt contentLength [f] j := by
        simp only [lengthAt, lengthAfter, if_neg hname]
        by_cases hcl : eqIgnoreAsciiCase f.name Rfc9112.contentLength
        · obtain ⟨text, htext, hparse⟩ := decode_length_cut (hvalue hcl) (j - (f.name.length + 1))
          obtain rfl := Option.some.inj (hdecode.symm.trans htext)
          rw [Nat.sub_sub] at hparse
          rw [if_pos hcl, ← hparse]
          exact if_pos hcl
        · rw [if_neg hcl]
          exact if_neg hcl
      rw [← hlength]
      exact .inr ⟨by simp [hname], _, rfl⟩

theorem lengthAfter_of_number? {v : List Char} (hv : utf8Decode f.value = some v)
    (hvalue : eqIgnoreAsciiCase f.name Rfc9112.contentLength → (number? f.value).isSome) :
    lengthAfter contentLength (f.name, trim v) =
      if eqIgnoreAsciiCase f.name Rfc9112.contentLength then usizeOf f.value else contentLength := by
  by_cases hcl : eqIgnoreAsciiCase f.name Rfc9112.contentLength
  · obtain ⟨ds, hds, hdigits⟩ := digits_of_number? (hvalue hcl)
    rw [hds, utf8Decode_utf8Encode] at hv
    obtain rfl := Option.some.inj hv
    have htrim : trim ds = ds := trim_of_neg fun c hc => by simp [not_isWhitespace_of_isDigit (hdigits c hc)]
    rw [if_pos hcl, hds, usizeOf_digits hdigits, htrim]
    exact if_pos hcl
  · rw [if_neg hcl]
    exact if_neg hcl

theorem length_bytes (f : Field) :
    f.bytes.length = f.name.length + 1 + f.before.length + f.value.length + f.after.length + 2 := by
  have hbefore : ∀ c ∈ f.before, c.toNat < 128 := fun c hc => by rcases f.ows_before hc with rfl | rfl <;> decide
  have hafter : ∀ c ∈ f.after, c.toNat < 128 := fun c hc => by rcases f.ows_after hc with rfl | rfl <;> decide
  rw [bytes_eq, afterColon]
  simp only [List.length_append, length_utf8Encode (name_ascii f), length_utf8Encode hbefore, length_utf8Encode hafter,
    List.length_singleton]
  omega

theorem lengthAt_cons (hj : f.bytes.length ≤ j) :
    lengthAt contentLength (f :: fs) j =
      lengthAt (if eqIgnoreAsciiCase f.name Rfc9112.contentLength then usizeOf f.value else contentLength) fs
        (j - f.bytes.length) := by
  have hlen := length_bytes f
  have hname : ¬ j ≤ f.name.length := by omega
  have hvalue : f.value.take (j - (f.name.length + 1 + f.before.length)) = f.value :=
    List.take_of_length_le (by omega)
  rw [lengthAt, if_neg hname, hvalue]

theorem utf8Decode_bytes_append (f : Field) (rest : List UInt8) :
    utf8Decode (f.bytes ++ rest) = none ↔ utf8Decode f.value = none ∨ utf8Decode rest = none := by
  rw [Field.bytes, List.append_assoc, crlf_eq_encode, crlf, utf8Decode_append_append_eq_none (by decide), decode_field,
    Option.map_eq_none_iff]

/-- **The header loop on field lines that are cut.** -/
theorem readHeaders_cut (hfs : ∀ f ∈ fs, eqIgnoreAsciiCase f.name Rfc9112.contentLength → (number? f.value).isSome)
    (hturns : ((fs.flatMap Field.bytes ++ (Rfc9112.crlf ++ body)).take j).length < turns) :
    Outcome (utf8Decode ((fs.flatMap Field.bytes).take j) = none ∨ CutInName fs j)
      (lengthAt contentLength fs j, body.take (j - ((fs.flatMap Field.bytes).length + 2)))
      (readHeaders (plain .eof) turns m contentLength ((fs.flatMap Field.bytes ++ (Rfc9112.crlf ++ body)).take j)) := by
  induction fs generalizing turns m contentLength j with
  | nil =>
    obtain ⟨n, rfl⟩ : ∃ n, turns = n + 1 := ⟨turns - 1, by omega⟩
    refine .inr ⟨by simp [CutInName, utf8Decode, utf8DecodeAux], m, ?_⟩
    obtain _ | _ | j := j
    · exact readHeaders_eof (.inl rfl)
    · exact readHeaders_eof (.inr rfl)
    · exact readHeaders_crlf .eof n m contentLength (body.take j)
  | cons f fs ih =>
    have hf := hfs f (by simp)
    have hrest : ∀ g ∈ fs, eqIgnoreAsciiCase g.name Rfc9112.contentLength → (number? g.value).isSome :=
      fun g hg => hfs g (List.mem_cons_of_mem _ hg)
    rw [List.flatMap_cons, List.append_assoc] at hturns ⊢
    rcases Nat.lt_or_ge j f.bytes.length with hlt | hge
    -- the cut is in this line
    · have hzero : j - f.bytes.length = 0 := by omega
      have hbody : j - ((f.bytes ++ fs.flatMap Field.bytes).length + 2) = 0 := by
        rw [List.length_append]
        omega
      have hlength : lengthAt contentLength (f :: fs) j = lengthAt contentLength [f] j := by
        simp only [lengthAt, hzero, lengthAt_zero]
      rw [List.take_append_of_le_length (by omega)] at hturns
      rw [List.take_append_of_le_length (by omega), List.take_append_of_le_length (by omega), hbody, hlength]
      simp only [CutInName, hzero, not_cutInName_zero, or_false, List.take_zero]
      rcases Nat.eq_zero_or_pos j with rfl | hpos
      · obtain ⟨n, rfl⟩ : ∃ n, turns = n + 1 := ⟨turns - 1, by omega⟩
        exact .inr ⟨by simp [utf8Decode, utf8DecodeAux], m, readHeaders_eof (.inl rfl)⟩
      · rw [List.length_take] at hturns
        obtain ⟨n, rfl⟩ : ∃ n, turns = n + 2 := ⟨turns - 2, by omega⟩
        simpa only [hpos, true_and] using readHeaders_cut_field hf hpos hlt
    -- the line is whole
    · have hlen := length_bytes f
      have hname : ¬ (0 < j ∧ j ≤ f.name.length) := by omega
      have hbody : j - ((f.bytes ++ fs.flatMap Field.bytes).length + 2) =
          j - f.bytes.length - ((fs.flatMap Field.bytes).length + 2) := by
        rw [List.length_append]
        omega
      rw [List.take_append, List.take_of_length_le hge] at hturns ⊢
      rw [List.take_append, List.take_of_length_le hge, hbody, lengthAt_cons hge, utf8Decode_bytes_append]
      rw [List.length_append] at hturns
      obtain ⟨n, rfl⟩ : ∃ n, turns = n + 1 := ⟨turns - 1, by omega⟩
      rw [readHeaders_field]
      simp only [CutInName, hname, false_or]
      cases hv : utf8Decode f.value with
      | none => exact .inl ⟨.inl (.inl rfl), _, rfl⟩
      | some v =>
        rw [← lengthAfter_of_number? hv hf]
        simpa using ih hrest (by omega)

/-! ## The length that is seen -/

theorem lengthSeen_zero : ∀ fs : List Field, lengthSeen fs 0 = []
  | [] => rfl
  | f :: fs => by
    rw [lengthSeen, Nat.zero_sub, List.take_zero, Nat.zero_sub, lengthSeen_zero fs, ite_self]

theorem numberSeen_zero (fs : List Field) : numberSeen fs 0 = 0 := by
  rw [numberSeen, lengthSeen_zero]
  rfl

theorem lengthAt_of_nil (hfs : named Rfc9112.contentLength fs = []) : lengthAt contentLength fs j = contentLength := by
  induction fs generalizing j with
  | nil => rfl
  | cons f fs ih =>
    by_cases hcl : eqIgnoreAsciiCase f.name Rfc9112.contentLength
    · rw [Rfc9112.named_cons_of_pos hcl] at hfs
      cases hfs
    · rw [Rfc9112.named_cons_of_neg hcl] at hfs
      rw [lengthAt, if_neg hcl, ih hfs, ite_self]

/-- With one `Content-Length`, the header loop finds the length that is seen. -/
theorem lengthAt_none {n : ℕ} (hfs : soleLength fs = some n) : lengthAt none fs j = usizeOf (lengthSeen fs j) := by
  obtain ⟨g, hg, -⟩ := Rfc9112.soleLength_eq_some.1 hfs
  clear hfs
  induction fs generalizing j with
  | nil => cases hg
  | cons f fs ih =>
    rw [lengthAt, lengthSeen]
    by_cases hcl : eqIgnoreAsciiCase f.name Rfc9112.contentLength
    · rw [Rfc9112.named_cons_of_pos hcl] at hg
      rw [if_pos hcl, if_pos hcl, lengthAt_of_nil (List.cons.inj hg).2]
      split_ifs with hname
      · have hzero : j - (f.name.length + 1 + f.before.length) = 0 := by omega
        rw [hzero, List.take_zero]
        rfl
      · rfl
    · rw [Rfc9112.named_cons_of_neg hcl] at hg
      rw [if_neg hcl, if_neg hcl]
      split_ifs with hname
      · have hzero : j - f.bytes.length = 0 := by
          have := length_bytes f
          omega
        rw [hzero, lengthSeen_zero]
        rfl
      · exact ih hg

theorem number?_lengthSeen {n : ℕ} (hfs : soleLength fs = some n) (hj : (fs.flatMap Field.bytes).length ≤ j) :
    number? (lengthSeen fs j) = some n := by
  obtain ⟨g, hg, hn⟩ := Rfc9112.soleLength_eq_some.1 hfs
  clear hfs
  induction fs generalizing j with
  | nil => cases hg
  | cons f fs ih =>
    rw [List.flatMap_cons, List.length_append] at hj
    rw [lengthSeen]
    by_cases hcl : eqIgnoreAsciiCase f.name Rfc9112.contentLength
    · rw [Rfc9112.named_cons_of_pos hcl] at hg
      obtain ⟨rfl, -⟩ := List.cons.inj hg
      have := length_bytes f
      rw [if_pos hcl, List.take_of_length_le (by omega), hn]
    · rw [Rfc9112.named_cons_of_neg hcl] at hg
      rw [if_neg hcl]
      exact ih (by omega) hg

/-- **The body is too short for the length that is seen**, if that is not `0`. -/
theorem readBody_short {value rest : List UInt8} {n : ℕ} (hn : n = (number? value).getD 0)
    (hrest : 0 < n → rest.length < n) :
    (∃ a, readBody (plain .eof) (usizeOf value) rest = .error (.err a)) ↔ 0 < n ∧ n < 2 ^ 63 := by
  cases hvalue : number? value with
  | none =>
    obtain rfl : n = 0 := by simpa [hvalue] using hn
    simp [usizeOf, hvalue, readBody]
  | some n' =>
    obtain rfl : n = n' := by simpa [hvalue] using hn
    rw [usizeOf, hvalue]
    by_cases hsmall : n < 2 ^ 63
    · have husize : n < 2 ^ 64 := by omega
      have hread : readBody (plain .eof) (some n) rest = (Plain.readExact .eof n rest).mapError (Halt.map .io) :=
        if_pos hsmall
      rw [Option.filter_some_pos (by simpa using husize), hread, Plain.readExact]
      by_cases hpos : 0 < n
      · rw [if_neg (Nat.not_le.2 (hrest hpos))]
        exact ⟨fun _ => ⟨hpos, hsmall⟩, fun _ => ⟨_, rfl⟩⟩
      · rw [if_pos (by omega)]
        simp [Except.mapError, hpos]
    -- a length that cannot be allocated is no error that is returned
    · have hlarge : ∀ a, readBody (plain .eof) ((some n).filter (· < 2 ^ 64)) rest ≠ .error (.err a) := by
        intro a
        by_cases husize : n < 2 ^ 64
        · have hpanic : readBody (plain .eof) (some n) rest = .error .panic := if_neg hsmall
          rw [Option.filter_some_pos (by simpa using husize), hpanic]
          simp
        · rw [Option.filter_some_neg (by simpa using husize), readBody]
          simp
      constructor
      · rintro ⟨a, ha⟩
        exact absurd ha (hlarge a)
      · rintro ⟨-, h⟩
        exact absurd h hsmall

end Fields

/-! ## A status line that is cut -/

section StatusLine

variable {version ds : List Char} {h : StatusHead} {k : ℕ}

theorem parseStatusLine_version (hversion : ∀ c ∈ version, isWhitespace c = false) :
    ∃ a, parseStatusLine version = .error (.err a) := by
  unfold parseStatusLine
  by_cases hne : version = []
  · rw [if_pos (by simpa using hne)]
    exact ⟨_, rfl⟩
  · rw [if_neg (by simpa using hne), splitWhitespace_of_neg hne hversion]
    exact ⟨_, rfl⟩

theorem parseStatusLine_version_space (hne : version ≠ []) (hversion : ∀ c ∈ version, isWhitespace c = false) :
    ∃ a, parseStatusLine (version ++ [' ']) = .error (.err a) := by
  unfold parseStatusLine
  rw [if_neg (by simp), splitWhitespace_append hne hversion (by decide)]
  exact ⟨_, rfl⟩

theorem parseStatusLine_digits (hne : version ≠ []) (hversion : ∀ c ∈ version, isWhitespace c = false) (hds : ds ≠ [])
    (hdigits : ∀ c ∈ ds, c.isDigit) (hlt : Nat.ofDigitChars 10 ds 0 < 2 ^ 16) :
    parseStatusLine (version ++ ' ' :: ds) = .ok (Nat.ofDigitChars 10 ds 0) := by
  have htokens : splitWhitespace (version ++ ' ' :: ds) = [version, ds] := by
    rw [splitWhitespace_append hne hversion (by decide),
      splitWhitespace_of_neg hds fun c hc => not_isWhitespace_of_isDigit (hdigits c hc)]
  unfold parseStatusLine
  rw [if_neg (by simp), htokens]
  simp only [parseUnsigned_digits _ hds hdigits, hlt, if_true]

/-- The version of the status line. -/
def versionOf (h : StatusHead) : List Char := "HTTP/1.".toList ++ [h.minor]

theorem not_isWhitespace_versionOf (h : StatusHead) : ∀ c ∈ versionOf h, isWhitespace c = false := by
  intro c hc
  rcases List.mem_append.1 hc with hc | hc
  · exact not_isWhitespace_version hc
  · obtain rfl := List.mem_singleton.1 hc
    exact not_isWhitespace_of_isDigit h.minor_digit

theorem line_eq (h : StatusHead) :
    h.line = utf8Encode (versionOf h ++ ' ' :: (Nat.toDigits 10 h.code ++ [' '])) ++ h.reason := by
  have hstart : "HTTP/1.".toList ++ [h.minor, ' '] ++ Nat.toDigits 10 h.code ++ [' '] =
      versionOf h ++ ' ' :: (Nat.toDigits 10 h.code ++ [' ']) := by
    unfold versionOf
    simp only [List.append_assoc, List.cons_append, List.nil_append]
  rw [StatusHead.line, hstart]

theorem start_ascii (h : StatusHead) : ∀ c ∈ versionOf h ++ ' ' :: (Nat.toDigits 10 h.code ++ [' ']), c.toNat < 128 := by
  have hliteral : ∀ c ∈ "HTTP/1.".toList, c.toNat < 128 := by simp
  intro c hc
  unfold versionOf at hc
  simp only [List.mem_append, List.mem_cons, List.not_mem_nil, or_false] at hc
  rcases hc with (hc | rfl) | rfl | hc | rfl
  · exact hliteral c hc
  · exact toNat_lt_of_isDigit h.minor_digit
  · decide
  · exact toNat_lt_of_isDigit (Nat.isDigit_of_mem_toDigits (by decide) (by decide) hc)
  · decide

/-- **The status line that is cut.** -/
theorem parseStatusLine_cut {text : List Char} (htext : utf8Decode ((h.line ++ [13]).take k) = some text) :
    (k ≤ 9 → ∃ a, parseStatusLine text = .error (.err a)) ∧ (9 < k → ∃ code, parseStatusLine text = .ok code) := by
  have hversion := not_isWhitespace_versionOf h
  have hlen : (versionOf h).length = 8 := rfl
  have hne : versionOf h ≠ [] := List.ne_nil_of_length_pos (by omega)
  have hdigits : ∀ c ∈ Nat.toDigits 10 h.code, c.isDigit := fun c hc =>
    Nat.isDigit_of_mem_toDigits (by decide) (by decide) hc
  have hcode := h.code_lt
  rw [line_eq, List.append_assoc, List.take_append, take_utf8Encode (start_ascii h), length_utf8Encode (start_ascii h),
    utf8Decode_encode_append, Option.map_eq_some_iff] at htext
  obtain ⟨reason, hreason, rfl⟩ := htext
  simp only [List.length_append, List.length_cons, hlen, List.length_nil] at hreason
  -- nothing is left of the reason phrase if the cut comes before it
  have hnil : k ≤ 9 + (Nat.toDigits 10 h.code).length → reason = [] := by
    intro hk
    have hzero : k - (8 + ((Nat.toDigits 10 h.code).length + (0 + 1) + 1)) = 0 := by omega
    rw [hzero] at hreason
    exact (Option.some.inj hreason).symm
  constructor
  · intro hk
    rw [hnil (by omega), List.append_nil]
    rcases Nat.lt_or_ge k 9 with hlt | hge
    · rw [List.take_append_of_le_length (by omega)]
      exact parseStatusLine_version fun c hc => hversion c (List.mem_of_mem_take hc)
    · obtain rfl : k = 8 + 1 := by omega
      rw [← hlen, List.take_length_add_append]
      exact parseStatusLine_version_space hne hversion
  · intro hk
    obtain ⟨i, rfl⟩ : ∃ i, k = 8 + (i + 1) := ⟨k - 9, by omega⟩
    rw [← hlen, List.take_length_add_append, List.take_succ_cons]
    rcases Nat.lt_or_ge (Nat.toDigits 10 h.code).length i with hlt | hge
    · rw [List.take_of_length_le (by simp; omega), List.append_assoc, List.cons_append, List.append_assoc,
        List.singleton_append]
      exact ⟨_, parseStatusLine_code hne hversion (by omega) reason⟩
    · rw [hnil (by omega), List.append_nil, List.take_append_of_le_length hge]
      refine ⟨_, parseStatusLine_digits hne hversion ?_ (fun c hc => hdigits c (List.mem_of_mem_take hc)) ?_⟩
      · intro hnil
        rcases List.take_eq_nil_iff.1 hnil with hi | hi
        · omega
        · exact Nat.toDigits_ne_nil hi
      · have hle := ofDigitChars_take_le (Nat.toDigits 10 h.code) i
        rw [Nat.ofDigitChars_ten_toDigits] at hle
        omega

end StatusLine

/-! ## Responses that are cut -/

section Response

variable {h : StatusHead} {body : List UInt8} {k : ℕ}

theorem decode_cut_line :
    (∃ a, decode .eof ((h.line ++ [13]).take k) = .error (.err a)) ↔
      k ≤ 9 ∨ utf8Decode ((h.line ++ [13]).take k) = none := by
  have hlf : 10 ∉ (h.line ++ [13]).take k := by
    intro hmem
    rcases List.mem_append.1 (List.mem_of_mem_take hmem) with hmem | hmem
    · exact h.notMem_line (.inr rfl) hmem
    · cases List.mem_singleton.1 hmem
  rw [decode, readResponseWith, readLine_eof hlf]
  cases htext : utf8Decode ((h.line ++ [13]).take k) with
  | none => simp [Except.mapError, bind, Except.bind, Halt.map]
  | some text =>
    simp only [Except.mapError, bind, Except.bind, reduceCtorEq, or_false]
    by_cases hle : k ≤ 9
    · obtain ⟨a, ha⟩ := (parseStatusLine_cut htext).1 hle
      rw [ha]
      exact ⟨fun _ => hle, fun _ => ⟨a, rfl⟩⟩
    · obtain ⟨code, hcode⟩ := (parseStatusLine_cut htext).2 (by omega)
      rw [hcode]
      refine ⟨?_, fun h => absurd h hle⟩
      rintro ⟨a, ha⟩
      simp only [readRest, readHeaders_eof (.inl rfl)] at ha
      cases ha

theorem length_line (h : StatusHead) : 9 < h.line.length := by
  have hversion : (versionOf h).length = 8 := rfl
  rw [line_eq, List.length_append, length_utf8Encode (start_ascii h), List.length_append, hversion]
  simp only [List.length_cons, List.length_append]
  omega

theorem crlf_ascii : ∀ c ∈ crlf, c.toNat < 128 := by simp [crlf]

theorem utf8Decode_take_bytes (h : StatusHead) (j : ℕ) :
    utf8Decode (h.bytes.take (h.line.length + 2 + j)) = none ↔ utf8Decode h.reason = none ∨
      utf8Decode ((h.fields.flatMap Field.bytes).take j) = none := by
  have hline : (h.line ++ Rfc9112.crlf).length = h.line.length + 2 := List.length_append
  have htake : h.bytes.take (h.line.length + 2 + j) =
      h.line ++ (utf8Encode crlf ++ ((h.fields.flatMap Field.bytes).take j ++
        utf8Encode (crlf.take (j - (h.fields.flatMap Field.bytes).length)))) := by
    rw [StatusHead.bytes, List.append_assoc _ _ Rfc9112.crlf, ← hline, List.take_length_add_append, List.take_append,
      crlf_eq_encode, take_utf8Encode crlf_ascii, List.append_assoc]
  have hcrlf : ∀ c ∈ crlf.take (j - (h.fields.flatMap Field.bytes).length), c.toNat < 128 := fun c hc =>
    crlf_ascii c (List.mem_of_mem_take hc)
  rw [htake, crlf, utf8Decode_append_append_eq_none (by decide), decode_statusLine, Option.map_eq_none_iff, ← crlf,
    utf8Decode_append_encode _ hcrlf, Option.map_eq_none_iff]

theorem decode_cut_fields (hbody : soleLength h.fields = some body.length) {j : ℕ}
    (hj : j < (h.fields.flatMap Field.bytes).length + 2 + body.length) :
    (∃ a, decode .eof (h.line ++ Rfc9112.crlf ++ (h.fields.flatMap Field.bytes ++ (Rfc9112.crlf ++ body)).take j) =
        .error (.err a)) ↔
      utf8Decode h.reason = none ∨ utf8Decode ((h.fields.flatMap Field.bytes).take j) = none ∨ CutInName h.fields j ∨
        0 < numberSeen h.fields j ∧ numberSeen h.fields j < 2 ^ 63 := by
  obtain ⟨g, hg, hnumber⟩ := Rfc9112.soleLength_eq_some.1 hbody
  have hfs : ∀ f ∈ h.fields, eqIgnoreAsciiCase f.name Rfc9112.contentLength → (number? f.value).isSome := by
    intro f hf hcl
    have hmem : f ∈ named Rfc9112.contentLength h.fields := List.mem_filter.2 ⟨hf, hcl⟩
    rw [hg] at hmem
    rw [List.mem_singleton.1 hmem, hnumber]
    rfl
  have hrest : 0 < numberSeen h.fields j →
      (body.take (j - ((h.fields.flatMap Field.bytes).length + 2))).length < numberSeen h.fields j := by
    intro hpos
    rw [List.length_take]
    rcases Nat.lt_or_ge j (h.fields.flatMap Field.bytes).length with hlt | hge
    · omega
    · have hseen : numberSeen h.fields j = body.length := by
        rw [numberSeen, number?_lengthSeen hbody hge]
        rfl
      omega
  have hturns : ((h.fields.flatMap Field.bytes ++ (Rfc9112.crlf ++ body)).take j).length <
      (h.line ++ Rfc9112.crlf ++ (h.fields.flatMap Field.bytes ++ (Rfc9112.crlf ++ body)).take j).length + 1 := by
    rw [List.length_append]
    omega
  rw [decode, readResponseWith, readLine_crlf (h.notMem_line (.inr rfl)), decode_statusLine]
  cases hreason : utf8Decode h.reason with
  | none => simp [Except.mapError, bind, Except.bind, Halt.map]
  | some reason =>
    simp only [Option.map_some, Except.mapError, bind, Except.bind, parseStatusLine_head, readRest, reduceCtorEq,
      false_or]
    have hcut : Outcome _ _ (readHeaders (plain .eof) _ [] none _) := readHeaders_cut hfs hturns
    rw [← or_assoc]
    rcases hcut with ⟨hbad, a, ha⟩ | ⟨hgood, m, hm⟩
    · rw [ha]
      exact ⟨fun _ => .inl hbad, fun _ => ⟨a, rfl⟩⟩
    · rw [or_iff_right hgood, hm, lengthAt_none hbody]
      refine Iff.trans ?_ (readBody_short rfl hrest)
      simp only
      cases readBody (plain .eof) (usizeOf (lengthSeen h.fields j))
        (body.take (j - ((h.fields.flatMap Field.bytes).length + 2))) with
      | error a => simp
      | ok p => simp

/-- **Which truncated responses `read_response` refuses**, in any segments. -/
theorem truncated_iff (hbody : soleLength h.fields = some body.length) (hk : k < (h.bytes ++ body).length)
    {segs : List (List UInt8)} (hsegs : ∀ seg ∈ segs, seg ≠ []) (hflat : segs.flatten = (h.bytes ++ body).take k) :
    (∃ a, readResponse ⟨segs, .eof⟩ = .error (.err a)) ↔ Detected h k := by
  have hread : ∀ a, readResponse ⟨segs, .eof⟩ = .error (.err a) ↔
      decode .eof ((h.bytes ++ body).take k) = .error (.err a) := by
    intro a
    rw [readResponse_eq_error hsegs, ← hflat]
    rfl
  have hbytes : h.bytes ++ body = h.line ++ Rfc9112.crlf ++ (h.fields.flatMap Field.bytes ++ (Rfc9112.crlf ++ body)) := by
    simp only [StatusHead.bytes, List.append_assoc]
  have hline : (h.line ++ Rfc9112.crlf).length = h.line.length + 2 := List.length_append
  simp only [hread, Detected]
  rcases Nat.lt_or_ge k (h.line.length + 2) with hlt | hge
  · have hcut : ∀ rest, (h.line ++ Rfc9112.crlf ++ rest).take k = (h.line ++ [13]).take k := by
      intro rest
      have hcrlf : h.line ++ Rfc9112.crlf ++ rest = h.line ++ [13] ++ 10 :: rest := by simp [Rfc9112.crlf]
      rw [hcrlf, List.take_append_of_le_length (by rw [List.length_append, List.length_singleton]; omega)]
    have hzero : k - (h.line.length + 2) = 0 := by omega
    rw [hbytes, hcut, StatusHead.bytes, List.append_assoc _ _ Rfc9112.crlf, hcut, hzero, numberSeen_zero]
    simp only [not_cutInName_zero, Nat.lt_irrefl, false_and, or_false]
    exact decode_cut_line
  · obtain ⟨j, rfl⟩ : ∃ j, k = h.line.length + 2 + j := ⟨k - (h.line.length + 2), by omega⟩
    have hnine : ¬ h.line.length + 2 + j ≤ 9 := by
      have := length_line h
      omega
    have hj : j < (h.fields.flatMap Field.bytes).length + 2 + body.length := by
      rw [hbytes, List.length_append, hline, List.length_append, List.length_append] at hk
      simp only [Rfc9112.crlf, List.length_cons, List.length_nil] at hk
      omega
    rw [hbytes, ← hline, List.take_length_add_append, hline, utf8Decode_take_bytes, Nat.add_sub_cancel_left,
      or_iff_right hnine, decode_cut_fields hbody hj, or_assoc]

/-- The response `HTTP/1.1 200 OK` with the body `h`, without that body. -/
theorem truncated_iff_body :
    ∃ a, readResponse ⟨[(Rfc9112.okHead Rfc9112.lengthOne).bytes.take 20,
      (Rfc9112.okHead Rfc9112.lengthOne).bytes.drop 20], .eof⟩ = .error (.err a) := by
  have hbody : soleLength (Rfc9112.okHead Rfc9112.lengthOne).fields = some [(104 : UInt8)].length := by decide
  refine (truncated_iff hbody (k := (Rfc9112.okHead Rfc9112.lengthOne).bytes.length) (by simp) (by decide) ?_).2 ?_
  · decide
  · exact .inr (.inr (.inr (by decide)))

/-- **The counter-example.**  Of the response `HTTP/1.1 200 OK` with the body `h`, only `HTTP/1.1 2` arrives before the
end of the connection.  `read_response` returns a response with the status code `2`. -/
theorem cut_status_code_accepted :
    ¬ ∀ (h : StatusHead) (body : List UInt8) (k : ℕ) (segs : List (List UInt8)), soleLength h.fields = some body.length →
      k < (h.bytes ++ body).length → (∀ seg ∈ segs, seg ≠ []) → segs.flatten = (h.bytes ++ body).take k →
      ∃ a, readResponse ⟨segs, .eof⟩ = .error (.err a) := by
  intro hall
  have hread : (readResponse ⟨[utf8Encode "HTTP/1.1 2".toList], .eof⟩).map Prod.fst = .ok ⟨2, [], []⟩ := by decide
  obtain ⟨a, ha⟩ := hall (Rfc9112.okHead Rfc9112.lengthOne) [104] 10 [utf8Encode "HTTP/1.1 2".toList] (by decide)
    (by decide) (by decide) (by decide)
  rw [ha] at hread
  cases hread

end Response

end ServiceProxy.Upstream
