import Mathlib

/-!
# Guarded — sections of a program that one thread is in at a time

`loc` says where each thread is and `inside` which places belong to the section.  The lock can also be taken with
nobody inside, as when its holder has given up.
-/

structure Guarded {τ π : Type*} (loc : τ → π) (inside : π → Prop) (locked : Prop) : Prop where
  unique : ∀ t u, inside (loc t) → inside (loc u) → t = u
  locked : ∀ t, inside (loc t) → locked

namespace Guarded

open Function

variable {τ π : Type*} {loc : τ → π} {inside : π → Prop} {locked locked' : Prop}

theorem free (h : Guarded loc inside locked) (hfree : ¬ locked) (t : τ) : ¬ inside (loc t) :=
  fun ht => hfree (h.locked t ht)

theorem of_free (h : ∀ t, ¬ inside (loc t)) : Guarded loc inside locked :=
  ⟨fun t _ ht => (h t ht).elim, fun t ht => (h t ht).elim⟩

variable [DecidableEq τ] {x : τ} {p : π}

theorem enter (h : Guarded loc inside locked) (hfree : ¬ locked) (hlocked : locked') :
    Guarded (update loc x p) inside locked' := by
  have hx : ∀ t, inside (update loc x p t) → t = x := by
    intro t ht
    by_cases htx : t = x
    · exact htx
    · rw [update_of_ne htx] at ht
      exact (h.free hfree t ht).elim
  exact ⟨fun t u ht hu => (hx t ht).trans (hx u hu).symm, fun _ _ => hlocked⟩

theorem move (h : Guarded loc inside locked) (hp : inside p → inside (loc x)) (hlocked : locked → locked') :
    Guarded (update loc x p) inside locked' := by
  have hold : ∀ t, inside (update loc x p t) → inside (loc t) := by
    intro t ht
    by_cases htx : t = x
    · rw [htx, update_self] at ht
      exact htx ▸ hp ht
    · rwa [update_of_ne htx] at ht
  exact ⟨fun t u ht hu => h.unique t u (hold t ht) (hold u hu), fun t ht => hlocked (h.locked t (hold t ht))⟩

theorem leave (h : Guarded loc inside locked) (hx : inside (loc x)) (hp : ¬ inside p) (t : τ) :
    ¬ inside (update loc x p t) := by
  intro ht
  by_cases htx : t = x
  · rw [htx, update_self] at ht
    exact hp ht
  · rw [update_of_ne htx] at ht
    exact htx (h.unique t x ht hx)

theorem free_of_update (hx : ¬ inside (loc x)) (h : ∀ t, ¬ inside (update loc x p t)) (t : τ) : ¬ inside (loc t) := by
  by_cases htx : t = x
  · rw [htx]
    exact hx
  · have ht := h t
    rwa [update_of_ne htx] at ht

end Guarded
