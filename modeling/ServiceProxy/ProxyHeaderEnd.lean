import ServiceProxy.ProxyFraming
import ServiceProxy.Httparse

/-!
# Two ends of one header block

`read_http11_request` cuts the header block at the first `\r\n\r\n`; `httparse` ends it at the first empty line, and takes a
bare LF for the end of a line.  `parse_request` drops the length that `httparse` returns.

* `EmptyLine`, `LineStart` — an empty line, and where it can be;
* `blockLines_first` — the lines of a block end at the first one.

`ends_agree_iff`: the two ends are the same if and only if the block has no other empty line (`Inner`).  With one, the bytes
between the two ends are neither parsed nor part of the body.
-/

namespace ServiceProxy.ProxyHttp

open ServiceProxy.Lib ServiceProxy.Upstream

/-- The bytes start with an empty line. -/
def EmptyLine (bs : List UInt8) : Prop := [10] <+: bs ∨ [13, 10] <+: bs

/-- A line starts behind these bytes. -/
def LineStart (pre : List UInt8) : Prop := pre = [] ∨ ∃ front, pre = front ++ [10]

/-- There is an empty line before the last two bytes: a line feed, and behind it LF or CRLF. -/
def Inner (bs : List UInt8) : Prop := ∃ front post, bs = front ++ 10 :: post ∧ EmptyLine post ∧ post ≠ [13, 10]

section Lines

variable {n : ℕ} {bs rest line more : List UInt8} {lines : List (List UInt8)}

theorem stripCr_isEmpty : (stripCr line).isEmpty ↔ line = [] ∨ line = [13] := by
  unfold stripCr
  split_ifs with hlast
  · obtain ⟨front, rfl⟩ := List.getLast?_eq_some_iff.1 hlast
    simp
  · rw [List.isEmpty_iff]
    refine ⟨.inl, ?_⟩
    rintro (rfl | rfl)
    · rfl
    · simp at hlast

/-- A line is empty if nothing, or only a carriage return, stands before its line feed. -/
theorem emptyLine_append (h : 10 ∉ line) : EmptyLine (line ++ 10 :: more) ↔ line = [] ∨ line = [13] := by
  constructor
  · rintro (⟨rest, hrest⟩ | ⟨rest, hrest⟩)
    · cases line with
      | nil => exact .inl rfl
      | cons b line =>
        obtain ⟨rfl, -⟩ := List.cons.inj hrest
        exact absurd List.mem_cons_self h
    · cases line with
      | nil => exact .inl rfl
      | cons b line =>
        obtain ⟨rfl, htail⟩ := List.cons.inj hrest
        cases line with
        | nil => exact .inr rfl
        | cons d line =>
          obtain ⟨rfl, -⟩ := List.cons.inj htail
          exact absurd (List.mem_cons_of_mem _ List.mem_cons_self) h
  · rintro (rfl | rfl)
    · exact .inl ⟨more, rfl⟩
    · exact .inr ⟨more, rfl⟩

theorem lineStart_append {pre post : List UInt8} (hline : 10 ∉ line) (heq : line ++ 10 :: more = pre ++ post)
    (hstart : LineStart pre) : pre = [] ∨ ∃ pre', more = pre' ++ post ∧ LineStart pre' := by
  rcases hstart with rfl | ⟨front, rfl⟩
  · exact .inl rfl
  right
  rw [List.append_assoc, List.singleton_append] at heq
  rcases List.append_eq_append_iff.1 heq with ⟨t, rfl, hmore⟩ | ⟨t, hfront, hpost⟩
  · -- the line feed lies in front of this one
    cases t with
    | nil => exact ⟨[], (List.cons.inj hmore).2, .inl rfl⟩
    | cons b t =>
      obtain ⟨rfl, rfl⟩ := List.cons.inj hmore
      exact ⟨t ++ [10], by simp, .inr ⟨t, rfl⟩⟩
  · cases t with
    | nil => exact ⟨[], (List.cons.inj hpost).2.symm, .inl rfl⟩
    | cons b t =>
      obtain ⟨rfl, -⟩ := List.cons.inj hpost
      exact absurd (by rw [hfront]; simp) hline

/-- **The lines of a block end at the first empty line.** -/
theorem blockLines_first (h : blockLines n bs = some (lines, rest)) :
    ∃ front last, bs = front ++ (last ++ rest) ∧ LineStart front ∧ (last = [10] ∨ last = [13, 10]) ∧
      ∀ pre post, bs = pre ++ post → LineStart pre → EmptyLine post → post.length ≤ (last ++ rest).length := by
  induction n generalizing bs lines with
  | zero => cases h
  | succ n ih =>
    simp only [blockLines, Option.bind_eq_some_iff] at h
    obtain ⟨⟨line, more⟩, hsplit, h⟩ := h
    obtain ⟨hline, rfl⟩ := splitOnce_eq_some.1 hsplit
    simp only at h
    by_cases hempty : (stripCr line).isEmpty
    · -- the first line is empty
      rw [if_pos hempty] at h
      obtain ⟨-, rfl⟩ := Prod.mk.inj (Option.some.inj h)
      have hlast : line ++ [10] = [10] ∨ line ++ [10] = [13, 10] := by
        rcases stripCr_isEmpty.1 hempty with rfl | rfl
        · exact .inl rfl
        · exact .inr rfl
      have hbytes : line ++ 10 :: more = [] ++ ((line ++ [10]) ++ more) := by simp
      refine ⟨[], line ++ [10], hbytes, .inl rfl, hlast, fun pre post heq _ _ => ?_⟩
      have := congrArg List.length (hbytes.symm.trans heq)
      simp only [List.nil_append, List.length_append] at this ⊢
      omega
    · rw [if_neg hempty] at h
      obtain ⟨⟨lines', rest'⟩, hlines, heq⟩ := Option.map_eq_some_iff.1 h
      obtain rfl : rest' = rest := (Prod.mk.inj heq).2
      obtain ⟨front, last, hmore, hfront, hlast, hfirst⟩ := ih hlines
      refine ⟨line ++ 10 :: front, last, by rw [hmore]; simp, ?_, hlast, fun pre post heq hpre hpost => ?_⟩
      · rcases hfront with rfl | ⟨f, rfl⟩
        · exact .inr ⟨line, rfl⟩
        · exact .inr ⟨line ++ 10 :: f, by simp⟩
      · rcases lineStart_append hline heq hpre with rfl | ⟨pre', hpre', hstart⟩
        · rw [List.nil_append] at heq
          rw [← heq, emptyLine_append hline] at hpost
          exact absurd (stripCr_isEmpty.2 hpost) hempty
        · exact hfirst pre' post hpre' hstart hpost

theorem skipEmptyLines_suffix (bs : List UInt8) : skipEmptyLines bs <:+ bs := by
  fun_induction skipEmptyLines bs with
  | case1 bs ih => exact ih.trans (List.suffix_cons _ _)
  | case2 bs ih => exact ih.trans ((List.suffix_cons _ _).trans (List.suffix_cons _ _))
  | case3 bs => exact List.suffix_refl _

theorem not_emptyLine_skip (bs : List UInt8) : ¬ EmptyLine (skipEmptyLines bs) := by
  fun_induction skipEmptyLines bs with
  | case1 bs ih => exact ih
  | case2 bs ih => exact ih
  | case3 bs hlf hcr =>
    rintro (⟨rest, rfl⟩ | ⟨rest, rfl⟩)
    · exact hlf rest rfl
    · exact hcr rest rfl

end Lines

/-! ## The two ends -/

section Ends

variable {bs buf : List UInt8} {k len : ℕ}

theorem eq_crlf_of_suffix {post : List UInt8} (hpost : post <:+ bs) (hbs : [13, 10] <:+ bs) (hlen : post.length = 2) :
    post = [13, 10] :=
  (List.suffix_of_suffix_length_le hpost hbs (by simp [hlen])).eq_of_length (by simp [hlen])

/-- **Where the two ends agree**, in the block behind the empty lines in front. -/
theorem rest_eq_nil_iff {n : ℕ} {lines : List (List UInt8)} {rest : List UInt8} (hstart : ¬ EmptyLine bs)
    (hend : [13, 10] <:+ bs) (h : blockLines n bs = some (lines, rest)) : rest = [] ↔ ¬ Inner bs := by
  obtain ⟨front, last, hbs, hfront, hlast, hfirst⟩ := blockLines_first h
  have hempty : EmptyLine (last ++ rest) := by
    rcases hlast with rfl | rfl
    · exact .inl ⟨rest, rfl⟩
    · exact .inr ⟨rest, rfl⟩
  obtain ⟨f, rfl⟩ : ∃ f, front = f ++ [10] := by
    refine hfront.resolve_left ?_
    rintro rfl
    rw [hbs] at hstart
    exact hstart hempty
  constructor
  · rintro rfl ⟨pre, post, hinner, hpost, hne⟩
    -- no empty line comes later, so this one ends the block
    have hshort := hfirst (pre ++ [10]) post (by rw [hinner]; simp) (.inr ⟨pre, rfl⟩) hpost
    have hsuffix : post <:+ bs := ⟨pre ++ [10], by rw [hinner]; simp⟩
    rcases hlast with rfl | rfl
    · have htwo : [10, 10] <:+ bs := ⟨f, by rw [hbs]; simp⟩
      exact absurd (eq_crlf_of_suffix htwo hend rfl) (by decide)
    · rcases hpost with ⟨more, rfl⟩ | ⟨more, rfl⟩
      · cases more with
        | nil =>
          have htwo : [10, 10] <:+ bs := ⟨pre, hinner.symm⟩
          exact absurd (eq_crlf_of_suffix htwo hend rfl) (by decide)
        | cons b more =>
          have hlen : ([10] ++ b :: more).length = 2 := by
            simp only [List.length_append, List.length_cons, List.length_nil] at hshort ⊢
            omega
          exact hne (eq_crlf_of_suffix hsuffix hend hlen)
      · have hmore : more = [] := by
          simp only [List.length_append, List.length_cons, List.length_nil] at hshort
          exact List.length_eq_zero_iff.1 (by omega)
        exact hne (by rw [hmore]; rfl)
  · intro hnone
    by_contra hrest
    refine hnone ⟨f, last ++ rest, by rw [hbs]; simp, hempty, fun heq => ?_⟩
    rcases hlast with rfl | rfl
    · simp at heq
    · exact hrest (List.append_cancel_left (heq.trans (List.append_nil _).symm))

/-- **When the two ends of a header block agree.**  Whatever buffer `read_http11_request` hands to `parse_request`, and
whatever length `httparse` returns for its header block: the body starts where the parsed block ends if and only if there is
no empty line in the block but the last two bytes, and those in front of the request line. -/
theorem ends_agree_iff {httparse : List UInt8 → Parsed} (hspec : Httparse httparse) (hends : findHeaderEnd buf = some k)
    {method path : Option (List Char)} {headers : List (List Char × List UInt8)}
    (hparsed : httparse (buf.take k) = .complete len method path headers) :
    len = k ∧ buf.drop k = buf.drop len ↔ ¬ Inner (skipEmptyLines (buf.take k)) := by
  have hhead := hspec.ends _ _ _ _ _ hparsed
  rw [headEnd, Option.map_eq_some_iff] at hhead
  obtain ⟨⟨lines, rest⟩, hlines, hlen⟩ := hhead
  obtain ⟨skipped, hskipped⟩ := skipEmptyLines_suffix (buf.take k)
  have hk : (buf.take k).length = k := by
    rw [List.length_take, Nat.min_eq_left (findHeaderEnd_bounds hends).2]
  obtain ⟨front, last, hbs, -, hlast, -⟩ := blockLines_first hlines
  have hle := congrArg List.length hskipped
  rw [hbs, List.length_append, List.length_append, List.length_append, hk] at hle
  have hpos : 0 < last.length := by rcases hlast with rfl | rfl <;> decide
  have hend : [13, 10] <:+ skipEmptyLines (buf.take k) := by
    have hblock : [13, 10] <:+ buf.take k := List.IsSuffix.trans ⟨[13, 10], rfl⟩ (findHeaderEnd_suffix hends)
    refine List.suffix_of_suffix_length_le hblock ⟨skipped, hskipped⟩ ?_
    -- an empty line behind a line is at least two bytes
    by_contra hshort
    have hlen' := congrArg List.length hbs
    have hone : skipEmptyLines (buf.take k) = [10] := by
      simp only [List.length_append, List.length_cons, List.length_nil] at hlen' hshort
      rcases hlast with rfl | rfl
      · rw [List.length_singleton] at hlen'
        rw [hbs, List.length_eq_zero_iff.1 (by omega : front.length = 0),
          List.length_eq_zero_iff.1 (by omega : rest.length = 0)]
        rfl
      · simp only [List.length_cons, List.length_nil] at hlen'
        omega
    exact not_emptyLine_skip (buf.take k) (by rw [hone]; exact .inl ⟨[], rfl⟩)
  rw [← rest_eq_nil_iff (not_emptyLine_skip _) hend hlines, ← List.length_eq_zero_iff]
  simp only [hk] at hlen
  constructor
  · rintro ⟨hsame, -⟩
    omega
  · intro hnil
    have hsame : len = k := by omega
    exact ⟨hsame, by rw [hsame]⟩

end Ends

/-- A request in CRLF lines. -/
theorem ends_agree_postHi :
    findHeaderEnd (postHi '2') = some 38 ∧ ¬ Inner (skipEmptyLines ((postHi '2').take 38)) := by
  have hparsed : parseBlock ((postHi '2').take 38) =
      .complete 38 (some "POST".toList) (some "/".toList) [("Content-Length".toList, [50])] := by decide
  exact ⟨findHeaderEnd_postHi.1, (ends_agree_iff parseBlock_spec findHeaderEnd_postHi.1 hparsed).1 ⟨rfl, rfl⟩⟩

/-- A request in LF lines, and behind its empty line a byte and `\r\n\r\n`. -/
def lfRequest : List UInt8 := utf8Encode "GET / HTTP/1.1\nHost: a\n\nX\r\n\r\n".toList

/-- **The counter-example.**  `httparse` ends the block after 24 bytes; `parse_request` takes the body from byte 29 on, and
the `X` behind the block is lost. -/
theorem lf_block_ends_early :
    ¬ ∀ (httparse : List UInt8 → Parsed), Httparse httparse → ∀ (buf : List UInt8) (k len : ℕ)
      (method path : Option (List Char)) (headers : List (List Char × List UInt8)), findHeaderEnd buf = some k →
      httparse (buf.take k) = .complete len method path headers → len = k ∧ buf.drop k = buf.drop len := by
  intro hall
  have hends : findHeaderEnd lfRequest = some 29 := by decide
  have hparsed : parseBlock (lfRequest.take 29) =
      .complete 24 (some "GET".toList) (some "/".toList) [("Host".toList, [97])] := by decide
  have hagree := hall parseBlock parseBlock_spec lfRequest 29 24 _ _ _ hends hparsed
  exact absurd hagree.1 (by decide)

end ServiceProxy.ProxyHttp
