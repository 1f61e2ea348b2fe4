import Mathlib.Algebra.Order.Ring.Nat
import Mathlib.Data.List.Basic

/-!
# UTF-8 on lists of bytes

A Rust `String` is a list of Unicode scalar values, so `List Char`, and its bytes are `utf8Encode`.  `utf8Decode` is
`String::from_utf8`, on the decoder of one character that core has.

* `utf8Decode_eq_some` — decoding is the inverse of encoding;
* `utf8Decode_encode_append` — what is known to be text can be split off in front;
* `isSome_utf8Decode_append` — an ASCII byte never lies inside a character, so what stands before it is valid on its own;
* `mem_utf8Encode` — an ASCII character is found by its byte.
-/

namespace ServiceProxy.Lib

def utf8Encode (cs : List Char) : List UInt8 := cs.flatMap String.utf8EncodeChar

/-- `utf8Decode` with the number of characters it may still read. -/
def utf8DecodeAux : ℕ → List UInt8 → Option (List Char)
  | _, [] => some []
  | 0, _ :: _ => none
  | n + 1, b :: bs =>
    ((b :: bs).toByteArray.utf8DecodeChar? 0).bind fun c =>
      (utf8DecodeAux n ((b :: bs).drop c.utf8Size)).map (c :: ·)

def utf8Decode (bs : List UInt8) : Option (List Char) := utf8DecodeAux bs.length bs

@[simp] theorem utf8Encode_nil : utf8Encode [] = [] := rfl

@[simp] theorem utf8Encode_cons (c : Char) (cs : List Char) :
    utf8Encode (c :: cs) = String.utf8EncodeChar c ++ utf8Encode cs := by
  simp [utf8Encode]

@[simp] theorem utf8Encode_append (cs ds : List Char) : utf8Encode (cs ++ ds) = utf8Encode cs ++ utf8Encode ds := by
  simp [utf8Encode]

@[simp] theorem utf8Encode_eq_nil {cs : List Char} : utf8Encode cs = [] ↔ cs = [] := by
  cases cs with
  | nil => simp
  | cons c cs =>
    have hc : String.utf8EncodeChar c ≠ [] := by
      have := c.utf8Size_pos
      rw [Ne, ← List.length_eq_zero_iff, String.length_utf8EncodeChar]
      omega
    simp [hc]

theorem toByteArray_append (l m : List UInt8) : (l ++ m).toByteArray = l.toByteArray ++ m.toByteArray := by
  simp

/-- The first character of the bytes `bs` is `c` exactly if they start with its bytes. -/
theorem utf8DecodeChar?_eq_some {bs : List UInt8} {c : Char} :
    bs.toByteArray.utf8DecodeChar? 0 = some c ↔ ∃ rest, bs = String.utf8EncodeChar c ++ rest := by
  constructor
  · intro h
    obtain ⟨l, hl⟩ := ByteArray.exists_of_utf8DecodeChar?_eq_some h
    refine ⟨l.data.toList, ?_⟩
    have := congrArg (fun b => b.data.toList) hl
    simpa using this
  · rintro ⟨rest, rfl⟩
    rw [toByteArray_append]
    exact ByteArray.utf8DecodeChar?_utf8EncodeChar_append

theorem utf8DecodeAux_eq_some {n : ℕ} {bs : List UInt8} {cs : List Char} (hn : bs.length ≤ n) :
    utf8DecodeAux n bs = some cs ↔ utf8Encode cs = bs := by
  induction n generalizing bs cs with
  | zero =>
    obtain rfl : bs = [] := by simpa using hn
    simp [utf8DecodeAux, @eq_comm _ []]
  | succ n ih =>
    cases bs with
    | nil => simp [utf8DecodeAux, @eq_comm _ []]
    | cons b bs =>
      simp only [utf8DecodeAux, Option.bind_eq_some_iff, Option.map_eq_some_iff, utf8DecodeChar?_eq_some]
      have hdrop (c : Char) : (List.drop c.utf8Size (b :: bs)).length ≤ n := by
        have := c.utf8Size_pos
        simp only [List.length_drop, List.length_cons] at hn ⊢
        omega
      constructor
      · rintro ⟨c, ⟨rest, hrest⟩, ds, hds, rfl⟩
        rw [ih (hdrop c), hrest, ← String.length_utf8EncodeChar, List.drop_left] at hds
        rw [utf8Encode_cons, hds, hrest]
      · intro h
        cases cs with
        | nil => simp at h
        | cons c cs =>
          rw [utf8Encode_cons] at h
          refine ⟨c, ⟨_, h.symm⟩, cs, ?_, rfl⟩
          rw [ih (hdrop c), ← h, ← String.length_utf8EncodeChar, List.drop_left]

/-- **Decoding is the inverse of encoding.** -/
theorem utf8Decode_eq_some {bs : List UInt8} {cs : List Char} : utf8Decode bs = some cs ↔ utf8Encode cs = bs :=
  utf8DecodeAux_eq_some (Nat.le_refl _)

@[simp] theorem utf8Decode_utf8Encode (cs : List Char) : utf8Decode (utf8Encode cs) = some cs :=
  utf8Decode_eq_some.2 rfl

theorem utf8Decode_append {bs bs' : List UInt8} {cs ds : List Char} (h : utf8Decode bs = some cs)
    (h' : utf8Decode bs' = some ds) : utf8Decode (bs ++ bs') = some (cs ++ ds) := by
  rw [utf8Decode_eq_some] at h h' ⊢
  rw [utf8Encode_append, h, h']

theorem utf8Decode_encode_append (cs : List Char) (bs : List UInt8) :
    utf8Decode (utf8Encode cs ++ bs) = (utf8Decode bs).map (cs ++ ·) := by
  apply Option.ext
  intro ds
  simp only [Option.map_eq_some_iff, utf8Decode_eq_some]
  constructor
  · intro h
    induction cs generalizing ds with
    | nil => exact ⟨ds, by simpa using h, rfl⟩
    | cons c cs ih =>
      rw [utf8Encode_cons, List.append_assoc] at h
      cases ds with
      | nil =>
        have h := congrArg List.length h
        have := c.utf8Size_pos
        simp only [utf8Encode_nil, List.length_nil, List.length_append, String.length_utf8EncodeChar] at h
        omega
      | cons d ds =>
        have hd : (utf8Encode (d :: ds)).toByteArray.utf8DecodeChar? 0 = some d :=
          utf8DecodeChar?_eq_some.2 ⟨_, utf8Encode_cons d ds⟩
        have hc : (utf8Encode (d :: ds)).toByteArray.utf8DecodeChar? 0 = some c :=
          utf8DecodeChar?_eq_some.2 ⟨_, h⟩
        obtain rfl := Option.some.inj (hd.symm.trans hc)
        rw [utf8Encode_cons] at h
        obtain ⟨es, hes, rfl⟩ := ih ds (List.append_cancel_left h)
        exact ⟨es, hes, rfl⟩
  · rintro ⟨es, rfl, rfl⟩
    simp

/-! ## ASCII -/

theorem utf8EncodeChar_of_mem {c : Char} {b : UInt8} (hb : b.toNat < 128) (h : b ∈ String.utf8EncodeChar c) :
    String.utf8EncodeChar c = [b] ∧ c.toNat = b.toNat := by
  unfold String.utf8EncodeChar at h ⊢
  simp only at h ⊢
  split_ifs at h ⊢ with h1 h2 h3 <;> simp only [List.mem_cons, List.not_mem_nil, or_false] at h
  · subst h
    refine ⟨rfl, ?_⟩
    simp only [Char.toNat, UInt8.toNat_ofNat']
    omega
  -- every byte of a longer character is at least `128`
  · rcases h with rfl | rfl <;> simp only [UInt8.toNat_ofNat'] at hb <;> omega
  · rcases h with rfl | rfl | rfl <;> simp only [UInt8.toNat_ofNat'] at hb <;> omega
  · rcases h with rfl | rfl | rfl | rfl <;> simp only [UInt8.toNat_ofNat'] at hb <;> omega

theorem utf8EncodeChar_ascii {c : Char} (h : c.toNat < 128) : String.utf8EncodeChar c = [UInt8.ofNat c.toNat] := by
  unfold String.utf8EncodeChar
  simp only
  rw [if_pos]
  · rfl
  · change c.toNat ≤ 127
    omega

theorem mem_utf8Encode {c : Char} (h : c.toNat < 128) {cs : List Char} :
    UInt8.ofNat c.toNat ∈ utf8Encode cs ↔ c ∈ cs := by
  have hnat : (UInt8.ofNat c.toNat).toNat = c.toNat := by
    simp only [UInt8.toNat_ofNat']
    omega
  simp only [utf8Encode, List.mem_flatMap]
  constructor
  · rintro ⟨d, hd, hmem⟩
    have hdc := (utf8EncodeChar_of_mem (by omega) hmem).2
    obtain rfl : d = c := Char.toNat_inj.1 (by omega)
    exact hd
  · intro hc
    exact ⟨c, hc, by simp [utf8EncodeChar_ascii h]⟩

/-- What stands before an ASCII byte is valid on its own. -/
theorem isSome_utf8Decode_append {bs rest : List UInt8} {b : UInt8} (hb : b.toNat < 128)
    (h : (utf8Decode (bs ++ b :: rest)).isSome) : (utf8Decode bs).isSome := by
  obtain ⟨ds, hds⟩ := Option.isSome_iff_exists.1 h
  rw [utf8Decode_eq_some] at hds
  clear h
  induction ds generalizing bs with
  | nil => simp at hds
  | cons d ds ih =>
    rw [utf8Encode_cons, List.append_eq_append_iff] at hds
    obtain ⟨t, rfl, hds⟩ | ⟨t, hd, ht⟩ := hds
    · obtain ⟨es, hes⟩ := Option.isSome_iff_exists.1 (ih hds)
      have : utf8Decode (String.utf8EncodeChar d ++ t) = some (d :: es) := by
        rw [utf8Decode_eq_some] at hes ⊢
        rw [utf8Encode_cons, hes]
      simp [this]
    · cases t with
      | nil =>
        have : utf8Decode bs = some [d] := utf8Decode_eq_some.2 (by simp [hd])
        simp [this]
      | cons b' t =>
        obtain rfl : b = b' := by simpa using (List.cons.inj ht).1
        have hone := (utf8EncodeChar_of_mem hb (c := d) (by simp [hd])).1
        rw [hone] at hd
        obtain rfl : bs = [] := by
          cases bs with
          | nil => rfl
          | cons => simp at hd
        rfl

theorem notMem_encode {c : Char} (hc : c.toNat < 128) {cs : List Char} (h : c ∉ cs) :
    UInt8.ofNat c.toNat ∉ utf8Encode cs := fun hmem => h ((mem_utf8Encode hc).1 hmem)

theorem notMem_utf8Encode {b : UInt8} (hb : b.toNat < 128) {cs : List Char} (h : ∀ c ∈ cs, c.toNat ≠ b.toNat) :
    b ∉ utf8Encode cs := by
  intro hmem
  obtain ⟨c, hc, hbc⟩ := List.mem_flatMap.1 hmem
  exact h c hc (utf8EncodeChar_of_mem hb hbc).2

theorem utf8Decode_append_encode (bs : List UInt8) {ds : List Char} (hds : ∀ c ∈ ds, c.toNat < 128) :
    utf8Decode (bs ++ utf8Encode ds) = (utf8Decode bs).map (· ++ ds) := by
  cases h : utf8Decode bs with
  | some cs => exact utf8Decode_append h (utf8Decode_utf8Encode _)
  | none =>
    simp only [Option.map_none]
    cases ds with
    | nil => simpa using h
    | cons d ds =>
      by_contra hne
      have hsome := Option.isSome_iff_ne_none.2 hne
      have hd := hds d (by simp)
      rw [utf8Encode_cons, utf8EncodeChar_ascii hd] at hsome
      have := isSome_utf8Decode_append (by simp only [UInt8.toNat_ofNat']; omega) hsome
      simp [h] at this

/-- ASCII text between the bytes splits them into two texts. -/
theorem utf8Decode_append_append_eq_none {bs rest : List UInt8} {d : Char} (hd : d.toNat < 128) (ds : List Char) :
    utf8Decode (bs ++ (utf8Encode (d :: ds) ++ rest)) = none ↔ utf8Decode bs = none ∨ utf8Decode rest = none := by
  cases h : utf8Decode bs with
  | none =>
    have hnone : ¬ (utf8Decode (bs ++ (utf8Encode (d :: ds) ++ rest))).isSome := by
      intro hsome
      rw [utf8Encode_cons, utf8EncodeChar_ascii hd, List.append_assoc, List.singleton_append] at hsome
      have := isSome_utf8Decode_append (by simp only [UInt8.toNat_ofNat']; omega) hsome
      simp [h] at this
    simpa using hnone
  | some cs =>
    have hsplit : bs ++ (utf8Encode (d :: ds) ++ rest) = utf8Encode (cs ++ d :: ds) ++ rest := by
      rw [← utf8Decode_eq_some.1 h, utf8Encode_append, List.append_assoc]
    rw [hsplit, utf8Decode_encode_append]
    simp

theorem length_utf8Encode {cs : List Char} (h : ∀ c ∈ cs, c.toNat < 128) : (utf8Encode cs).length = cs.length := by
  induction cs with
  | nil => rfl
  | cons c cs ih =>
    have hcs := ih fun d hd => h d (List.mem_cons_of_mem _ hd)
    rw [utf8Encode_cons, utf8EncodeChar_ascii (h c (by simp)), List.length_append, hcs, List.length_cons]
    simp only [List.length_cons, List.length_nil]
    omega

theorem take_utf8Encode {cs : List Char} (h : ∀ c ∈ cs, c.toNat < 128) (n : ℕ) :
    (utf8Encode cs).take n = utf8Encode (cs.take n) := by
  have hsplit : utf8Encode cs = utf8Encode (cs.take n) ++ utf8Encode (cs.drop n) := by
    rw [← utf8Encode_append, List.take_append_drop]
  have hlen := length_utf8Encode fun c hc => h c (List.mem_of_mem_take (i := n) hc)
  rw [hsplit]
  rcases Nat.le_total n cs.length with hn | hn
  · exact List.take_left' (by rw [hlen, List.length_take]; omega)
  · rw [List.drop_eq_nil_of_le hn, utf8Encode_nil, List.append_nil]
    exact List.take_of_length_le (by rw [hlen, List.length_take]; omega)

/-! ## Lossy decoding -/

/-- `x` may follow `b` at the start of a character of three or four bytes. -/
def secondOk (b x : UInt8) : Bool :=
  (b = 0xE0 ∧ 0xA0 ≤ x ∧ x ≤ 0xBF) ∨ (0xE1 ≤ b ∧ b ≤ 0xEC ∧ 0x80 ≤ x ∧ x ≤ 0xBF) ∨
  (b = 0xED ∧ 0x80 ≤ x ∧ x ≤ 0x9F) ∨ (0xEE ≤ b ∧ b ≤ 0xEF ∧ 0x80 ≤ x ∧ x ≤ 0xBF) ∨
  (b = 0xF0 ∧ 0x90 ≤ x ∧ x ≤ 0xBF) ∨ (0xF1 ≤ b ∧ b ≤ 0xF3 ∧ 0x80 ≤ x ∧ x ≤ 0xBF) ∨ (b = 0xF4 ∧ 0x80 ≤ x ∧ x ≤ 0x8F)

/-- How many bytes, from `b` on, one replacement character stands for. -/
def invalidLength (b : UInt8) (rest : List UInt8) : ℕ :=
  if rest.head?.any (secondOk b) then
    if 0xF0 ≤ b ∧ (rest.drop 1).head?.any (fun y => 0x80 ≤ y ∧ y ≤ 0xBF) then 3 else 2
  else 1

def fromUtf8LossyAux : ℕ → List UInt8 → List Char
  | 0, _ => []
  | _ + 1, [] => []
  | n + 1, b :: bs =>
    match (b :: bs).toByteArray.utf8DecodeChar? 0 with
    | some c => c :: fromUtf8LossyAux n ((b :: bs).drop c.utf8Size)
    | none => '\uFFFD' :: fromUtf8LossyAux n ((b :: bs).drop (invalidLength b bs))

/-- `String::from_utf8_lossy`: every longest start of a character that is not completed becomes `U+FFFD`. -/
def fromUtf8Lossy (bs : List UInt8) : List Char := fromUtf8LossyAux bs.length bs

example : fromUtf8Lossy [72, 0xE2, 0x82, 105, 0xFF] = ['H', '\uFFFD', 'i', '\uFFFD'] := by decide

/-- A character of the result is the replacement character, or its bytes are among the bytes. -/
theorem mem_fromUtf8Lossy {bs : List UInt8} {c : Char} (h : c ∈ fromUtf8Lossy bs) :
    c = '\uFFFD' ∨ ∀ b ∈ String.utf8EncodeChar c, b ∈ bs := by
  have key : ∀ (n : ℕ) (bs : List UInt8), c ∈ fromUtf8LossyAux n bs →
      c = '\uFFFD' ∨ ∀ b ∈ String.utf8EncodeChar c, b ∈ bs := by
    intro n
    induction n with
    | zero => intro bs h; simp [fromUtf8LossyAux] at h
    | succ n ih =>
      intro bs h
      cases bs with
      | nil => simp [fromUtf8LossyAux] at h
      | cons b bs =>
        rw [fromUtf8LossyAux] at h
        split at h
        · rename_i d hd
          rcases List.mem_cons.1 h with rfl | h
          · obtain ⟨rest, hrest⟩ := utf8DecodeChar?_eq_some.1 hd
            exact .inr fun x hx => by rw [hrest]; exact List.mem_append_left _ hx
          · exact (ih _ h).imp_right fun hb x hx => List.mem_of_mem_drop (hb x hx)
        · rcases List.mem_cons.1 h with rfl | h
          · exact .inl rfl
          · exact (ih _ h).imp_right fun hb x hx => List.mem_of_mem_drop (hb x hx)
  exact key _ _ h

theorem head_fromUtf8Lossy {bs : List UInt8} {c : Char} (h : (fromUtf8Lossy bs).head? = some c) :
    c = '\uFFFD' ∨ String.utf8EncodeChar c <+: bs := by
  cases bs with
  | nil => cases h
  | cons b bs =>
    rw [fromUtf8Lossy, List.length_cons, fromUtf8LossyAux] at h
    split at h
    · rename_i d hd
      obtain rfl : d = c := Option.some.inj h
      obtain ⟨rest, hrest⟩ := utf8DecodeChar?_eq_some.1 hd
      exact .inr ⟨rest, hrest.symm⟩
    · exact .inl (Option.some.inj h).symm

theorem getLast_fromUtf8Lossy {bs : List UInt8} {c : Char} (h : (fromUtf8Lossy bs).getLast? = some c) :
    c = '\uFFFD' ∨ String.utf8EncodeChar c <:+ bs := by
  have key : ∀ (n : ℕ) (bs : List UInt8), bs.length ≤ n → (fromUtf8LossyAux n bs).getLast? = some c →
      c = '\uFFFD' ∨ String.utf8EncodeChar c <:+ bs := by
    intro n
    induction n with
    | zero => intro bs _ h; cases h
    | succ n ih =>
      intro bs hn h
      cases bs with
      | nil => cases h
      | cons b bs =>
        have hlast : ∀ (d : Char) (k : ℕ), 0 < k →
            (d :: fromUtf8LossyAux n ((b :: bs).drop k)).getLast? = some c →
            c = d ∧ (b :: bs).length ≤ k ∨ c = '\uFFFD' ∨ String.utf8EncodeChar c <:+ b :: bs := by
          intro d k hk hlast
          cases htail : fromUtf8LossyAux n ((b :: bs).drop k) with
          | nil =>
            rw [htail] at hlast
            refine .inl ⟨(Option.some.inj hlast).symm, ?_⟩
            by_contra hlt
            obtain ⟨x, xs, hx⟩ := List.exists_cons_of_length_pos (l := (b :: bs).drop k) (by rw [List.length_drop]; omega)
            have hlen := congrArg List.length hx
            simp only [List.length_drop, List.length_cons] at hlen hn
            obtain ⟨m, rfl⟩ : ∃ m, n = m + 1 := ⟨n - 1, by omega⟩
            rw [hx, fromUtf8LossyAux] at htail
            split at htail <;> cases htail
          | cons e es =>
            rw [htail, List.getLast?_cons_cons, ← htail] at hlast
            have hdrop : ((b :: bs).drop k).length ≤ n := by
              simp only [List.length_drop, List.length_cons] at hn ⊢
              omega
            exact .inr ((ih _ hdrop hlast).imp_right fun hsuffix => hsuffix.trans (List.drop_suffix k _))
        rw [fromUtf8LossyAux] at h
        split at h
        · rename_i d hd
          rcases hlast d _ d.utf8Size_pos h with ⟨rfl, hle⟩ | hrest
          · -- the last character takes all the bytes
            obtain ⟨rest, hrest⟩ := utf8DecodeChar?_eq_some.1 hd
            rw [hrest, List.length_append, String.length_utf8EncodeChar] at hle
            obtain rfl : rest = [] := List.length_eq_zero_iff.1 (by omega)
            exact .inr ⟨[], by rw [hrest]; simp⟩
          · exact hrest
        · have hpos : 0 < invalidLength b bs := by
            unfold invalidLength
            split_ifs <;> omega
          rcases hlast _ _ hpos h with ⟨rfl, -⟩ | hrest
          · exact .inl rfl
          · exact hrest
  exact key _ _ (Nat.le_refl _) h

theorem fromUtf8Lossy_utf8Encode (cs : List Char) : fromUtf8Lossy (utf8Encode cs) = cs := by
  have key : ∀ (cs : List Char) (n : ℕ), (utf8Encode cs).length ≤ n → fromUtf8LossyAux n (utf8Encode cs) = cs := by
    intro cs
    induction cs with
    | nil => intro n _; cases n <;> rfl
    | cons c cs ih =>
      intro n hn
      have hpos := c.utf8Size_pos
      simp only [utf8Encode_cons, List.length_append, String.length_utf8EncodeChar] at hn
      obtain ⟨m, rfl⟩ : ∃ m, n = m + 1 := ⟨n - 1, by omega⟩
      obtain ⟨b, bs, hbs⟩ : ∃ b bs, utf8Encode (c :: cs) = b :: bs :=
        List.exists_cons_of_ne_nil (by simp)
      have hdecode : (b :: bs).toByteArray.utf8DecodeChar? 0 = some c :=
        utf8DecodeChar?_eq_some.2 ⟨utf8Encode cs, by rw [← hbs, utf8Encode_cons]⟩
      have hdrop : (b :: bs).drop c.utf8Size = utf8Encode cs := by
        rw [← hbs, utf8Encode_cons, ← String.length_utf8EncodeChar, List.drop_left]
      rw [hbs, fromUtf8LossyAux, hdecode]
      simp only [hdrop]
      rw [ih m (by omega)]
  exact key cs _ (Nat.le_refl _)

end ServiceProxy.Lib
