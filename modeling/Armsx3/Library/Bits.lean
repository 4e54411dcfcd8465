import Mathlib

/-!
# Bits — masks as sets of bits

The tests programs make on bit masks, read as statements about the single bits, and alignment to powers
of two.
-/

namespace Bits

open BitVec Bool Nat

variable {w : Nat}

/-- Every bit of `a` is one of `b`. -/
def Sub (a b : BitVec w) : Prop := ∀ i, a.getLsbD i = true → b.getLsbD i = true

theorem Sub.refl (a : BitVec w) : Sub a a := fun _ h => h

theorem Sub.trans {a b c : BitVec w} (hab : Sub a b) (hbc : Sub b c) : Sub a c := fun i h => hbc i (hab i h)

theorem Sub.zero (a : BitVec w) : Sub 0 a := by
  intro i h
  rw [ofNat_eq_ofNat, getLsbD_zero] at h
  cases h

theorem Sub.and_left (a b : BitVec w) : Sub (a &&& b) a := by
  intro i h
  rw [getLsbD_and, and_eq_true] at h
  exact h.1

variable {a b : BitVec w}

theorem and_eq_right_iff : a &&& b = b ↔ Sub b a := by
  constructor
  · intro h i hi
    have hbit := congrArg (fun v => v.getLsbD i) h
    simp only [getLsbD_and, hi, Bool.and_true] at hbit
    exact hbit
  · intro h
    apply eq_of_getLsbD_eq
    intro i _
    rw [getLsbD_and]
    cases hb : b.getLsbD i
    · exact and_false _
    · rw [h i hb]
      rfl

theorem eq_zero_iff {a : BitVec w} : a = 0 ↔ ∀ i, a.getLsbD i = false := by
  constructor
  · intro h i
    rw [h, ofNat_eq_ofNat, getLsbD_zero]
  · intro h
    apply eq_of_getLsbD_eq
    intro i _
    rw [h i, ofNat_eq_ofNat, getLsbD_zero]

theorem and_ne_zero_iff : a &&& b ≠ 0 ↔ ∃ i, a.getLsbD i = true ∧ b.getLsbD i = true := by
  rw [ne_eq, eq_zero_iff, not_forall]
  simp only [getLsbD_and, not_eq_false, and_eq_true]

theorem agree_of_xor_and {a b m : BitVec w} (h : (a ^^^ b) &&& m = 0) (i : Nat)
    (hi : m.getLsbD i = true) : a.getLsbD i = b.getLsbD i := by
  have hbit := eq_zero_iff.mp h i
  rw [getLsbD_and, getLsbD_xor, hi, Bool.and_true] at hbit
  simpa using hbit

theorem getLsbD_masked (a b k : BitVec w) (i : Nat) : ((a ||| b) &&& ~~~k).getLsbD i = true ↔
      (a.getLsbD i = true ∨ b.getLsbD i = true) ∧ k.getLsbD i = false := by
  rw [getLsbD_and, getLsbD_or, getLsbD_not]
  by_cases hi : i < w
  · simp [hi]
  · simp [hi, getLsbD_of_ge _ _ (Nat.le_of_not_lt hi)]

theorem Sub.masked {a a' : BitVec w} (h : Sub a a') (b k : BitVec w) :
    Sub ((a ||| b) &&& ~~~k) ((a' ||| b) &&& ~~~k) := by
  intro i hi
  rw [getLsbD_masked] at hi ⊢
  exact ⟨hi.1.imp_left (h i), hi.2⟩

/-! ## Alignment -/

theorem toNat_and_neg {k : Nat} {x a : BitVec w} (ha : a.toNat = 2 ^ k) :
    (x &&& (0 - a)).toNat = x.toNat - x.toNat % 2 ^ k := by
  have hx := x.isLt
  have hlt := ha ▸ a.isLt
  have hpos := Nat.two_pow_pos k
  have hneg : (0 - a).toNat = 2 ^ w - 2 ^ k := by
    rw [toNat_sub, ha]
    simp only [ofNat_eq_ofNat, toNat_ofNat, zero_mod, add_zero]
    exact mod_eq_of_lt (by omega)
  have hsub : x.toNat - x.toNat % 2 ^ k = 2 ^ k * (x.toNat / 2 ^ k) := by
    have hdiv := div_add_mod x.toNat (2 ^ k)
    omega
  rw [toNat_and, hneg, hsub]
  apply eq_of_testBit_eq
  intro i
  rw [testBit_and, testBit_two_pow_mul, testBit_div_two_pow]
  have hmask : (2 ^ w - 2 ^ k).testBit i = (decide (i < w) && !decide (i < k)) := by
    have h := testBit_two_pow_sub_succ (x := 2 ^ k - 1) (n := w) (by omega) i
    rw [testBit_two_pow_sub_one] at h
    rw [← h]
    congr 1
    omega
  rw [hmask]
  by_cases hi : i < k
  · simp [hi]
  have hki : i - k + k = i := by omega
  rw [hki]
  by_cases hiw : i < w
  · simp [hi, hiw]
    omega
  · have hbit : x.toNat.testBit i = false :=
      Nat.testBit_lt_two_pow (lt_of_lt_of_le hx (Nat.pow_le_pow_right (by decide) (by omega)))
    simp [hbit]

end Bits
