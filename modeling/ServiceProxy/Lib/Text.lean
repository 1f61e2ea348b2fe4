import Mathlib.Algebra.Order.Ring.Nat
import Mathlib.Data.List.DropRight

/-!
# The string functions of Rust

A `str` is a list of characters.  The functions are those of the standard library, under their names; each has one lemma
on an argument that is put together from parts, which is how texts come up in proofs.
-/

namespace ServiceProxy.Lib

/-! ## Characters -/

/-- `char::is_whitespace`: the Unicode property `White_Space`. -/
def isWhitespace (c : Char) : Bool :=
  (9 ≤ c.toNat ∧ c.toNat ≤ 13) ∨ c.toNat ∈ [32, 0x85, 0xA0, 0x1680, 0x2028, 0x2029, 0x202F, 0x205F, 0x3000] ∨
    (0x2000 ≤ c.toNat ∧ c.toNat ≤ 0x200A)

theorem not_isWhitespace {c : Char} (h : 33 ≤ c.toNat) (h' : c.toNat < 128) : isWhitespace c = false := by
  simp only [isWhitespace, List.mem_cons, List.not_mem_nil, or_false, decide_eq_false_iff_not]
  omega

theorem isDigit_toNat {c : Char} (h : c.isDigit) : 48 ≤ c.toNat ∧ c.toNat ≤ 57 := Char.isDigit_iff_toNat.1 h

/-- `str::to_ascii_lowercase`. -/
def toAsciiLowercase (cs : List Char) : List Char := cs.map Char.toLower

/-- `str::eq_ignore_ascii_case`. -/
def eqIgnoreAsciiCase (cs ds : List Char) : Bool := toAsciiLowercase cs = toAsciiLowercase ds

/-! ## Trimming -/

/-- `str::trim_end_matches`. -/
def trimEndMatches (p : Char → Bool) (cs : List Char) : List Char := cs.rdropWhile p

/-- `str::trim`. -/
def trim (cs : List Char) : List Char := (cs.dropWhile isWhitespace).rdropWhile isWhitespace

section Trim

variable {α : Type*} {p : α → Bool} {xs ys : List α}

theorem rdropWhile_append_of_pos (h : ∀ y ∈ ys, p y) : (xs ++ ys).rdropWhile p = xs.rdropWhile p := by
  unfold List.rdropWhile
  rw [List.reverse_append, List.dropWhile_append_of_pos (by simpa using h)]

theorem rdropWhile_of_neg (h : ∀ x ∈ xs, ¬ p x) : xs.rdropWhile p = xs := by
  rw [List.rdropWhile_eq_self_iff]
  intro hne
  exact h _ (List.getLast_mem hne)

theorem rdropWhile_append_cons_of_neg {y : α} (hy : ¬ p y) (zs : List α) :
    (xs ++ y :: zs).rdropWhile p = xs ++ y :: zs.rdropWhile p := by
  induction zs using List.reverseRecOn with
  | nil => exact List.rdropWhile_concat_neg _ _ _ hy
  | append_singleton zs z ih =>
    have hassoc : xs ++ y :: (zs ++ [z]) = xs ++ y :: zs ++ [z] := by simp
    rw [hassoc, List.rdropWhile_concat, List.rdropWhile_concat, ih]
    split_ifs
    · rfl
    · simp

theorem dropWhile_of_neg (h : ∀ x ∈ xs, ¬ p x) : xs.dropWhile p = xs := by
  cases xs with
  | nil => rfl
  | cons x xs => exact List.dropWhile_cons_of_neg (h x (by simp))

theorem dropWhile_rdropWhile_append {zs : List α} (hxs : ∀ x ∈ xs, p x) (hzs : ∀ z ∈ zs, p z) :
    ((xs ++ (ys ++ zs)).dropWhile p).rdropWhile p = (ys.dropWhile p).rdropWhile p := by
  rw [List.dropWhile_append_of_pos hxs, List.dropWhile_append]
  split_ifs with h
  · have hzs' : zs.dropWhile p = [] := List.dropWhile_eq_nil_iff.2 hzs
    rw [List.isEmpty_iff.1 h, hzs']
  · exact rdropWhile_append_of_pos hzs

theorem dropWhile_rdropWhile_idem (xs : List α) :
    (((xs.dropWhile p).rdropWhile p).dropWhile p).rdropWhile p = (xs.dropWhile p).rdropWhile p := by
  have hdrop : ((xs.dropWhile p).rdropWhile p).dropWhile p = (xs.dropWhile p).rdropWhile p := by
    cases htrim : (xs.dropWhile p).rdropWhile p with
    | nil => rfl
    | cons y ys =>
      -- the first element is the first that fails
      have hprefix : y :: ys <+: xs.dropWhile p := by
        rw [← htrim]
        exact List.rdropWhile_prefix _ _
      obtain ⟨more, hmore⟩ := hprefix
      have hhead := List.head?_dropWhile_not p xs
      rw [← hmore] at hhead
      exact List.dropWhile_cons_of_neg (by simpa using hhead)
  rw [hdrop]
  exact List.rdropWhile_idempotent _ _

theorem dropWhile_rdropWhile_eq_self_iff :
    (xs.dropWhile p).rdropWhile p = xs ↔ (∀ x ∈ xs.head?, ¬ p x) ∧ ∀ x ∈ xs.getLast?, ¬ p x := by
  constructor
  · intro h
    have hlen := congrArg List.length h
    have hle := (List.rdropWhile_prefix p (xs.dropWhile p)).length_le
    have hdrop : xs.dropWhile p = xs := (List.dropWhile_suffix p).eq_of_length_le (by omega)
    rw [hdrop] at h
    constructor
    · intro x hx
      obtain ⟨ys, rfl⟩ := List.head?_eq_some_iff.1 hx
      exact fun hp => List.dropWhile_eq_self_iff.1 hdrop (by simp) hp
    · intro x hx
      obtain ⟨ys, rfl⟩ := List.getLast?_eq_some_iff.1 hx
      simpa using List.rdropWhile_eq_self_iff.1 h (by simp)
  · rintro ⟨hhead, hlast⟩
    have hdrop : xs.dropWhile p = xs := by
      cases xs with
      | nil => rfl
      | cons x xs => exact List.dropWhile_cons_of_neg (hhead x rfl)
    rw [hdrop, List.rdropWhile_eq_self_iff]
    intro hne
    exact hlast _ (List.getLast?_eq_some_getLast hne)

end Trim

theorem trimEndMatches_append {p : Char → Bool} {cs ds : List Char} (hcs : ∀ c ∈ cs, ¬ p c) (hds : ∀ c ∈ ds, p c) :
    trimEndMatches p (cs ++ ds) = cs := by
  unfold trimEndMatches
  rw [rdropWhile_append_of_pos hds, rdropWhile_of_neg hcs]

theorem trim_eq_nil_iff {cs : List Char} : trim cs = [] ↔ ∀ c ∈ cs, isWhitespace c := by
  rw [trim, List.rdropWhile_eq_nil_iff]
  constructor
  · intro h
    rw [← List.dropWhile_eq_nil_iff]
    cases hdrop : cs.dropWhile isWhitespace with
    | nil => rfl
    | cons c ds =>
      -- the first character that is kept is no white space
      have hhead := List.head?_dropWhile_not isWhitespace cs
      rw [hdrop] at hhead h
      have hc := h c List.mem_cons_self
      simp [hc] at hhead
  · intro h c hc
    exact h c ((List.dropWhile_suffix _).subset hc)

theorem trim_of_neg {cs : List Char} (h : ∀ c ∈ cs, ¬ isWhitespace c) : trim cs = cs := by
  unfold trim
  rw [dropWhile_of_neg h, rdropWhile_of_neg h]

theorem trim_append {l cs r : List Char} (hl : ∀ c ∈ l, isWhitespace c) (hr : ∀ c ∈ r, isWhitespace c) :
    trim (l ++ (cs ++ r)) = trim cs :=
  dropWhile_rdropWhile_append hl hr

theorem trim_trimEndMatches {p : Char → Bool} (hp : ∀ c, p c → isWhitespace c) (cs : List Char) :
    trim (trimEndMatches p cs) = trim cs := by
  have hsplit : trim ([] ++ (cs.rdropWhile p ++ cs.rtakeWhile p)) = trim (cs.rdropWhile p) :=
    trim_append (by simp) fun c hc => hp c (List.mem_rtakeWhile_imp hc)
  rw [List.nil_append, List.rdropWhile_append_rtakeWhile] at hsplit
  exact hsplit.symm

theorem mem_of_mem_trimEndMatches {p : Char → Bool} {cs : List Char} {c : Char} (h : c ∈ trimEndMatches p cs) : c ∈ cs :=
  (List.rdropWhile_prefix p cs).subset h

theorem mem_of_mem_trim {cs : List Char} {c : Char} (h : c ∈ trim cs) : c ∈ cs :=
  (List.dropWhile_sublist _).subset (mem_of_mem_trimEndMatches h)

theorem getLast_of_trim {cs : List Char} (h : trim cs = cs) (hne : cs ≠ []) : ¬ isWhitespace (cs.getLast hne) := by
  exact (dropWhile_rdropWhile_eq_self_iff.1 h).2 _ (List.getLast?_eq_some_getLast hne)

theorem trim_trim (cs : List Char) : trim (trim cs) = trim cs := dropWhile_rdropWhile_idem cs

/-! ## Splitting -/

/-- `str::split_once` at a character. -/
def splitOnce {α : Type*} [DecidableEq α] (d : α) : List α → Option (List α × List α)
  | [] => none
  | a :: as => if a = d then some ([], as) else (splitOnce d as).map fun p => (a :: p.1, p.2)

theorem splitOnce_append {α : Type*} [DecidableEq α] {d : α} {l : List α} (h : d ∉ l) (r : List α) :
    splitOnce d (l ++ d :: r) = some (l, r) := by
  induction l with
  | nil => simp [splitOnce]
  | cons a l ih =>
    simp only [List.mem_cons, not_or] at h
    simp [splitOnce, Ne.symm h.1, ih h.2]

theorem splitOnce_eq_some {α : Type*} [DecidableEq α] {d : α} {as l r : List α} :
    splitOnce d as = some (l, r) ↔ d ∉ l ∧ as = l ++ d :: r := by
  constructor
  · intro h
    induction as generalizing l with
    | nil => cases h
    | cons a as ih =>
      simp only [splitOnce] at h
      split_ifs at h with ha
      · obtain ⟨rfl, rfl⟩ := Prod.mk.inj (Option.some.inj h)
        exact ⟨List.not_mem_nil, by rw [ha]; rfl⟩
      · obtain ⟨⟨l', r'⟩, hsplit, heq⟩ := Option.map_eq_some_iff.1 h
        obtain ⟨rfl, rfl⟩ := Prod.mk.inj heq
        obtain ⟨hnot, rfl⟩ := ih hsplit
        exact ⟨by simp [hnot, Ne.symm ha], rfl⟩
  · rintro ⟨hnot, rfl⟩
    exact splitOnce_append hnot r

/-- `str::split_whitespace`. -/
def splitWhitespace (cs : List Char) : List (List Char) := (cs.splitOnP isWhitespace).filter fun t => !t.isEmpty

theorem splitWhitespace_append {t rest : List Char} {c : Char} (ht : t ≠ []) (hns : ∀ c ∈ t, isWhitespace c = false)
    (hc : isWhitespace c = true) : splitWhitespace (t ++ c :: rest) = t :: splitWhitespace rest := by
  unfold splitWhitespace
  rw [List.splitOnP_append_cons_of_forall_mem hns c hc]
  exact List.filter_cons_of_pos (by simpa using ht)

theorem splitWhitespace_of_neg {t : List Char} (ht : t ≠ []) (hns : ∀ c ∈ t, isWhitespace c = false) :
    splitWhitespace t = [t] := by
  unfold splitWhitespace
  rw [List.splitOnP_eq_singleton hns]
  exact List.filter_cons_of_pos (by simpa using ht)

/-! ## Numbers -/

def stripPlus : List Char → List Char
  | '+' :: ds => ds
  | ds => ds

/-- `str::parse` to an unsigned integer below `bound`: digits, after an optional `+`. -/
def parseUnsigned (bound : ℕ) (cs : List Char) : Option ℕ :=
  let ds := stripPlus cs
  if ds ≠ [] ∧ ds.all Char.isDigit ∧ Nat.ofDigitChars 10 ds 0 < bound then some (Nat.ofDigitChars 10 ds 0) else none

theorem stripPlus_digits {ds : List Char} (hds : ∀ c ∈ ds, c.isDigit) : stripPlus ds = ds := by
  unfold stripPlus
  split
  · exact absurd (hds '+' (by simp)) (by decide)
  · rfl

theorem parseUnsigned_digits {ds : List Char} (bound : ℕ) (hne : ds ≠ []) (hds : ∀ c ∈ ds, c.isDigit) :
    parseUnsigned bound ds = if Nat.ofDigitChars 10 ds 0 < bound then some (Nat.ofDigitChars 10 ds 0) else none := by
  unfold parseUnsigned
  simp only [stripPlus_digits hds, hne, ne_eq, not_false_eq_true, List.all_eq_true.2 hds, true_and]

theorem ofDigitChars_take_le (ds : List Char) (i : ℕ) : Nat.ofDigitChars 10 (ds.take i) 0 ≤ Nat.ofDigitChars 10 ds 0 := by
  have hsplit : Nat.ofDigitChars 10 ds 0 =
      10 ^ (ds.drop i).length * Nat.ofDigitChars 10 (ds.take i) 0 + Nat.ofDigitChars 10 (ds.drop i) 0 := by
    rw [← Nat.ofDigitChars_eq_ofDigitChars_zero, ← Nat.ofDigitChars_append, List.take_append_drop]
  have hpow : 0 < 10 ^ (ds.drop i).length := Nat.pow_pos (by decide)
  have hle := Nat.le_mul_of_pos_left (Nat.ofDigitChars 10 (ds.take i) 0) hpow
  omega

end ServiceProxy.Lib
