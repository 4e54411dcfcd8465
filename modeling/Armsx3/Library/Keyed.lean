import Mathlib

/-!
# Keyed — lists in the order of a key

A cursor that goes through a list key by key finds under each key exactly the elements with that key, and put together
they are the list again.
-/

namespace Keyed

open List Bool Nat

variable {α : Type*} {key : α → Nat} {xs : List α}

def Sorted (key : α → Nat) (xs : List α) : Prop := xs.Pairwise fun a b => key a ≤ key b

section

variable (h : Sorted key xs)
include h

theorem Sorted.concat {x : α} (hx : ∀ a ∈ xs, key a ≤ key x) : Sorted key (xs ++ [x]) := by
  refine pairwise_append.mpr ⟨h, pairwise_singleton .., fun a ha b hb => ?_⟩
  rw [mem_singleton.mp hb]
  exact hx a ha

theorem Sorted.filter_append (k : Nat) : xs.filter (fun a => key a ≤ k) ++ xs.filter (fun a => k < key a) = xs := by
  induction xs with
  | nil => rfl
  | cons a xs ih =>
    have ⟨hall, hxs⟩ := pairwise_cons.mp h
    by_cases ha : key a ≤ k
    · have hgt := not_lt.mpr ha
      simp only [filter_cons, ha, hgt, decide_true, decide_false, if_true, false_eq_true, if_false, cons_append, ih hxs]
    have hgt := Nat.lt_of_not_le ha
    -- nothing behind an element with a larger key has a smaller one
    have hnone : xs.filter (fun a => key a ≤ k) = [] := by
      refine filter_eq_nil_iff.mpr fun b hb hle => ?_
      have hab := hall b hb
      have hbk := of_decide_eq_true hle
      omega
    have hrest := ih hxs
    rw [hnone, nil_append] at hrest
    simp only [filter_cons, ha, hgt, decide_true, decide_false, if_true, false_eq_true, if_false, hnone,
      nil_append, hrest]

theorem Sorted.filter_le (k : Nat) :
    xs.filter (fun a => key a ≤ k) = xs.take (xs.filter fun a => key a ≤ k).length := by
  have happend := h.filter_append k
  generalize hys : xs.filter (fun a => decide (key a ≤ k)) = ys at happend ⊢
  rw [← happend, take_left']
  rfl

theorem Sorted.takeWhile_dropWhile (k : Nat) :
    (xs.dropWhile fun a => key a < k).takeWhile (fun a => key a = k) = xs.filter fun a => key a = k := by
  induction xs with
  | nil => rfl
  | cons a xs ih =>
    have ⟨hall, hxs⟩ := pairwise_cons.mp h
    rcases lt_trichotomy (key a) k with ha | ha | ha
    · have hne : ¬key a = k := by omega
      simp only [dropWhile_cons, filter_cons, ha, hne, decide_true, decide_false, if_true,
        false_eq_true, if_false, ih hxs]
    · -- the cursor is in front of the first element with the key, and the rest has been passed over already
      have hrest : xs.dropWhile (fun a => key a < k) = xs := by
        cases xs with
        | nil => rfl
        | cons b =>
          have hab := hall b mem_cons_self
          have hb : ¬key b < k := by omega
          simp only [dropWhile_cons, hb, decide_false, false_eq_true, if_false]
      have htail := ih hxs
      rw [hrest] at htail
      simp only [dropWhile_cons, takeWhile_cons, filter_cons, ha, lt_irrefl k, decide_true,
        decide_false, if_true, false_eq_true, if_false, htail]
    · have hlt : ¬key a < k := by omega
      have hne : ¬key a = k := by omega
      have hnone : xs.filter (fun a => key a = k) = [] := by
        refine filter_eq_nil_iff.mpr fun b hb heq => ?_
        have hab := hall b hb
        have hbk := of_decide_eq_true heq
        omega
      simp only [dropWhile_cons, takeWhile_cons, filter_cons, hlt, hne, decide_false, false_eq_true, if_false, hnone]

theorem Sorted.flatMap_range (n : Nat) :
    (List.range n).flatMap (fun i => xs.filter fun a => key a = i) = xs.filter fun a => key a < n := by
  induction n with
  | zero =>
    symm
    refine filter_eq_nil_iff.mpr fun a _ hlt => ?_
    have ha := of_decide_eq_true hlt
    omega
  | succ n ih =>
    have hsorted : Sorted key (xs.filter fun a => key a < n + 1) := List.Pairwise.filter _ h
    rw [range_succ, flatMap_append, ih, flatMap_singleton]
    cases n with
    | zero =>
      have hnone : xs.filter (fun a => key a < 0) = [] :=
        filter_eq_nil_iff.mpr fun a _ hlt => absurd (of_decide_eq_true hlt) (not_lt_zero _)
      rw [hnone, nil_append]
      refine filter_congr fun a _ => ?_
      simp only [decide_eq_decide]
      omega
    | succ n =>
      have happend := hsorted.filter_append n
      rw [filter_filter, filter_filter] at happend
      rw [← happend]
      congr 1
      all_goals
        refine filter_congr fun a _ => ?_
        simp only [← decide_and, decide_eq_decide]
        omega

end

theorem dropWhile_dropWhile {p q : α → Bool} (hpq : ∀ a, p a = true → q a = true) :
    (xs.dropWhile p).dropWhile q = xs.dropWhile q := by
  induction xs with
  | nil => rfl
  | cons a xs ih =>
    by_cases hp : p a = true
    · simp only [dropWhile_cons, hp, hpq a hp, if_true, ih]
    · simp only [dropWhile_cons, hp, false_eq_true, if_false]

theorem takeWhile_append_sublist {p q : α → Bool} {ys : List α} (hpq : ∀ a, p a = true → q a = true)
    (hys : ys <+ xs.dropWhile q) : xs.takeWhile p ++ ys <+ xs := by
  induction xs with
  | nil => exact hys
  | cons a xs ih =>
    by_cases hp : p a = true
    · rw [dropWhile_cons_of_pos (hpq a hp)] at hys
      rw [takeWhile_cons_of_pos hp]
      exact (ih hys).cons_cons a
    · rw [takeWhile_cons_of_neg hp]
      exact hys.trans (dropWhile_sublist q)

theorem drop_length_takeWhile (p : α → Bool) : xs.drop (xs.takeWhile p).length = xs.dropWhile p := by
  induction xs with
  | nil => rfl
  | cons a xs ih =>
    by_cases hp : p a = true
    · simp only [takeWhile_cons, dropWhile_cons, hp, if_true, length_cons, drop_succ_cons, ih]
    · simp only [takeWhile_cons, dropWhile_cons, hp, false_eq_true, if_false, length_nil, drop_zero]

end Keyed
