import Mathlib.Algebra.Order.Ring.Nat
import Mathlib.Data.List.Basic

/-!
# Numbers and messages that say where they end

* `toBe`, `ofBe` — a number in `w` bytes, the most significant one first; each is the inverse of the other below `256 ^ w`;
* `PrefixFree` — no code word goes on where another one has ended;
* `PrefixFree.split_unique` — so a stream is cut into code words in at most one way, up to a rest that starts no code word.
-/

namespace ServiceProxy.Lib

/-! ## Big-endian numbers -/

/-- The last `w` bytes of `n`. -/
def toBe : ℕ → ℕ → List UInt8
  | 0, _ => []
  | w + 1, n => UInt8.ofNat (n / 256 ^ w) :: toBe w n

/-- The number of the bytes. -/
def ofBe : List UInt8 → ℕ
  | [] => 0
  | b :: bs => b.toNat * 256 ^ bs.length + ofBe bs

section BigEndian

variable {w n : ℕ} {bs : List UInt8}

@[simp] theorem length_toBe (w n : ℕ) : (toBe w n).length = w := by
  induction w with
  | zero => rfl
  | succ w ih => rw [toBe, List.length_cons, ih]

theorem ofBe_lt (bs : List UInt8) : ofBe bs < 256 ^ bs.length := by
  induction bs with
  | nil => exact Nat.one_pos
  | cons b bs ih =>
    have hb : b.toNat + 1 ≤ 256 := b.toNat_lt
    calc ofBe (b :: bs) = b.toNat * 256 ^ bs.length + ofBe bs := rfl
      _ < b.toNat * 256 ^ bs.length + 256 ^ bs.length := Nat.add_lt_add_left ih _
      _ = (b.toNat + 1) * 256 ^ bs.length := by rw [Nat.add_mul, Nat.one_mul]
      _ ≤ 256 * 256 ^ bs.length := Nat.mul_le_mul_right _ hb
      _ = 256 ^ (b :: bs).length := by rw [List.length_cons, Nat.pow_succ, Nat.mul_comm]

theorem ofBe_toBe (w n : ℕ) : ofBe (toBe w n) = n % 256 ^ w := by
  induction w with
  | zero => rw [Nat.pow_zero, Nat.mod_one]; rfl
  | succ w ih =>
    have hbyte : (UInt8.ofNat (n / 256 ^ w)).toNat = n / 256 ^ w % 256 := UInt8.toNat_ofNat'
    rw [toBe, ofBe, length_toBe, ih, hbyte, Nat.pow_succ, Nat.mod_mul, Nat.mul_comm, Nat.add_comm]

theorem toBe_add (w q n : ℕ) : toBe w (q * 256 ^ w + n) = toBe w n := by
  induction w generalizing q with
  | zero => rfl
  | succ w ih =>
    have hsplit : q * 256 ^ (w + 1) + n = q * 256 * 256 ^ w + n := by
      rw [Nat.pow_succ, Nat.mul_assoc, Nat.mul_comm 256]
    have hdiv : (q * 256 * 256 ^ w + n) / 256 ^ w = n / 256 ^ w + q * 256 := by
      rw [Nat.add_comm, Nat.add_mul_div_right _ _ (Nat.pow_pos (by decide))]
    have hbyte : UInt8.ofNat (n / 256 ^ w + q * 256) = UInt8.ofNat (n / 256 ^ w) := by
      apply UInt8.toNat_inj.1
      rw [UInt8.toNat_ofNat', UInt8.toNat_ofNat', Nat.add_mul_mod_self_right]
    rw [toBe, toBe, hsplit, hdiv, hbyte, ih]

theorem toBe_ofBe (bs : List UInt8) : toBe bs.length (ofBe bs) = bs := by
  induction bs with
  | nil => rfl
  | cons b bs ih =>
    have hdiv : (b.toNat * 256 ^ bs.length + ofBe bs) / 256 ^ bs.length = b.toNat := by
      rw [Nat.add_comm, Nat.add_mul_div_right _ _ (Nat.pow_pos (by decide)), Nat.div_eq_of_lt (ofBe_lt bs), Nat.zero_add]
    rw [List.length_cons, toBe, ofBe, hdiv, toBe_add, ih, UInt8.ofNat_toNat]

end BigEndian

/-! ## Code words -/

section Codes

variable {α β : Type*} {enc : β → List α} {P : β → Prop} {a b : β} {as bs : List β} {r s : List α}

/-- Where one code word starts, no other one does. -/
def PrefixFree (P : β → Prop) (enc : β → List α) : Prop :=
  ∀ a b r s, P a → P b → enc a ++ r = enc b ++ s → a = b

/-- No code word is complete in these bytes. -/
def StartsNone (P : β → Prop) (enc : β → List α) (r : List α) : Prop := ∀ a s, P a → r ≠ enc a ++ s

/-- **A stream is cut in at most one way** into code words and a rest that starts none. -/
theorem PrefixFree.split_unique (h : PrefixFree P enc) (has : ∀ a ∈ as, P a) (hbs : ∀ b ∈ bs, P b)
    (hr : StartsNone P enc r) (hs : StartsNone P enc s) (heq : as.flatMap enc ++ r = bs.flatMap enc ++ s) :
    as = bs ∧ r = s := by
  induction as generalizing bs with
  | nil =>
    cases bs with
    | nil => exact ⟨rfl, by simpa using heq⟩
    | cons b bs =>
      rw [List.flatMap_nil, List.nil_append, List.flatMap_cons, List.append_assoc] at heq
      exact absurd heq (hr b _ (hbs b (by simp)))
  | cons a as ih =>
    rw [List.flatMap_cons, List.append_assoc] at heq
    cases bs with
    | nil => exact absurd heq.symm (hs a _ (has a (by simp)))
    | cons b bs =>
      rw [List.flatMap_cons, List.append_assoc] at heq
      obtain rfl := h a b _ _ (has a (by simp)) (hbs b (by simp)) heq
      obtain ⟨rfl, rfl⟩ := ih (fun x hx => has x (List.mem_cons_of_mem _ hx)) (fun x hx => hbs x (List.mem_cons_of_mem _ hx))
        (List.append_cancel_left heq)
      exact ⟨rfl, rfl⟩

end Codes

end ServiceProxy.Lib
