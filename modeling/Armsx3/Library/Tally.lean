import Mathlib

/-!
# Tally — counting the members of a finite family that meet a test

`count p f` is the number of indices at which the family `f` meets `p`.  A change of one member is
read off `count_eq` and `count_update`, so that an invariant over several counts becomes arithmetic.
-/

namespace Tally

open Finset

variable {ι α : Type*} [Fintype ι] {p : α → Bool} {f : ι → α}

def count (p : α → Bool) (f : ι → α) : Nat := ∑ i, (p (f i)).toNat

theorem exists_of_count_pos (h : 0 < count p f) : ∃ i, p (f i) = true := by
  have ⟨i, _, hi⟩ := exists_ne_zero_of_sum_ne_zero (Nat.pos_iff_ne_zero.mp h)
  exact ⟨i, Bool.toNat_eq_one.mp (by have hle := Bool.toNat_le (p (f i)); omega)⟩

theorem count_eq_zero (h : ∀ i, p (f i) = false) : count p f = 0 := by
  apply sum_eq_zero
  intro i _
  rw [h i]
  rfl

variable [DecidableEq ι]

/-- The members other than `i` that meet the test. -/
def others (p : α → Bool) (f : ι → α) (i : ι) : Nat := ∑ j ∈ univ.erase i, (p (f j)).toNat

theorem count_eq (p : α → Bool) (f : ι → α) (i : ι) : count p f = others p f i + (p (f i)).toNat :=
  (sum_erase_add univ (fun j => (p (f j)).toNat) (mem_univ i)).symm

theorem count_update (p : α → Bool) (f : ι → α) (i : ι) (x : α) :
    count p (Function.update f i x) = others p f i + (p x).toNat := by
  rw [count_eq p _ i, Function.update_self]
  congr 1
  apply sum_congr rfl
  intro j hj
  rw [Function.update_of_ne (ne_of_mem_erase hj)]

theorem others_pos {i j : ι} (hij : j ≠ i) (h : p (f j) = true) : 0 < others p f i := by
  have hle :=
    single_le_sum (f := fun j => (p (f j)).toNat) (fun _ _ => Nat.zero_le _)
      (mem_erase.mpr ⟨hij, mem_univ j⟩)
  rw [h] at hle
  exact hle

end Tally
