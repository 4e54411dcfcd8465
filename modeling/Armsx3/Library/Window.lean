import Mathlib

/-!
# Window — completions out of order, recorded in a mask

Numbered operations are completed in any order.  All those before `base` are complete, and a mask says which of
the next ones are, the first one in its highest bit.
-/

namespace Window

open List Bool

/-- How many of the numbers below `n` come before the first one without `p`. -/
def countWhile (p : Nat → Bool) (n : Nat) : Nat := (range n).findIdx fun i => !p i

section Count

variable {p : Nat → Bool} {n i k : Nat}

theorem countWhile_le : countWhile p n ≤ n := by
  have hle : (range n).findIdx (fun i => !p i) ≤ (range n).length := findIdx_le_length
  rwa [length_range] at hle

theorem of_lt_countWhile (h : i < countWhile p n) : p i = true := by
  have hnot := not_of_lt_findIdx h
  simpa using hnot

theorem countWhile_stop (h : countWhile p n < n) : p (countWhile p n) = false := by
  have hlt : (range n).findIdx (fun i => !p i) < (range n).length := by
    rwa [length_range]
  have hget := findIdx_getElem (w := hlt)
  rw [getElem_range, not_eq_true'] at hget
  exact hget

theorem countWhile_eq (hk : k ≤ n) (hall : ∀ i, i < k → p i = true) (hstop : k < n → p k = false) :
    countWhile p n = k := by
  rcases Nat.lt_trichotomy (countWhile p n) k with hlt | heq | hgt
  · have hfalse := countWhile_stop (p := p) (n := n) (by omega)
    rw [hall _ hlt] at hfalse
    cases hfalse
  · exact heq
  · have hle := countWhile_le (p := p) (n := n)
    have htrue := of_lt_countWhile hgt
    rw [hstop (by omega)] at htrue
    cases htrue

end Count

variable {w : Nat} {mask m : BitVec w} {base i : Nat} {done : Nat → Prop}

/-- The number of ones that the word starts with. -/
def leadingOnes (m : BitVec w) : Nat := countWhile m.getMsbD w

theorem getMsbD_leadingOnes (m : BitVec w) : m.getMsbD (leadingOnes m) = false := by
  by_cases hlt : leadingOnes m < w
  · exact countWhile_stop hlt
  · simp [BitVec.getMsbD, hlt]

/-- `mask` is right about which operations are complete. -/
structure Tracks (mask : BitVec w) (base : Nat) (done : Nat → Prop) : Prop where
  before : ∀ i, i < base → done i
  bits : ∀ i, i < w → (mask.getMsbD i = true ↔ done (base + i))
  within : ∀ i, done i → i < base + w
  first : ¬ done base

theorem Tracks.zero : Tracks (0 : BitVec w) 0 fun _ => False :=
  ⟨fun i h => by omega, fun i _ => by simp, fun _ h => h.elim, id⟩

theorem Tracks.complete (h : Tracks mask base done) (hlt : i < base + w)
    (hm : ∀ k, k < w → m.getMsbD k = (mask.getMsbD k || decide (base + k = i))) :
    Tracks (m <<< leadingOnes m) (base + leadingOnes m) fun j => done j ∨ j = i := by
  have hlead : leadingOnes m ≤ w := countWhile_le
  -- the bits before the shift
  have hbits : ∀ k, k < w → (m.getMsbD k = true ↔ done (base + k) ∨ base + k = i) := by
    intro k hk
    rw [hm k hk, or_eq_true, h.bits k hk, decide_eq_true_iff]
  refine ⟨?_, ?_, ?_, ?_⟩
  · intro j hj
    by_cases hjb : j < base
    · exact Or.inl (h.before j hjb)
    have hone := of_lt_countWhile (show j - base < countWhile _ w by
      show j - base < leadingOnes m
      omega)
    have hdone := (hbits (j - base) (by omega)).mp hone
    rwa [show base + (j - base) = j by omega] at hdone
  · intro k hk
    rw [BitVec.getMsbD_shiftLeft]
    by_cases hin : k + leadingOnes m < w
    · rw [hbits _ hin, show base + (k + leadingOnes m) = base + leadingOnes m + k by omega]
    -- beyond the old window nothing is complete
    have hzero : m.getMsbD (k + leadingOnes m) = false := by simp [BitVec.getMsbD, hin]
    rw [hzero]
    constructor
    · intro hf
      cases hf
    · intro hdone
      rcases hdone with hdone | hdone
      · have hwithin := h.within _ hdone
        omega
      · omega
  · intro j hj
    rcases hj with hj | hj
    · have hwithin := h.within j hj
      omega
    · omega
  · intro hdone
    by_cases hin : leadingOnes m < w
    · have hone := (hbits _ hin).mpr hdone
      rw [getMsbD_leadingOnes] at hone
      cases hone
    · rcases hdone with hdone | hdone
      · have hwithin := h.within _ hdone
        omega
      · omega

theorem Tracks.countWhile_eq {p : Nat → Bool} {n : Nat} (h : Tracks mask base done)
    (hp : ∀ i, p i = true ↔ done i) (hn : base ≤ n) : countWhile p n = base := by
  apply Window.countWhile_eq hn
  · intro i hi
    exact (hp i).mpr (h.before i hi)
  · intro _
    rw [← not_eq_true, hp]
    exact h.first

end Window
