import Mathlib

/-!
# Holder — the thread in a critical section

A lock is `some (t, k)` while the thread `t` is at `k` in its critical section.  `Ok k p` says that a thread at `k` is
at `p` in its call.
-/

namespace Holder

open Function

variable {τ κ π : Type*} {lock : Option (τ × κ)} {t : τ} {k : κ} {pc : τ → π} {p : π}

theorem entered {P : τ → κ → Prop} (h : P t k) (u : τ) (k' : κ) (hu : some (t, k) = some (u, k')) : P u k' := by
  cases hu
  exact h

theorem left {P : τ → κ → Prop} (u : τ) (k : κ) (hu : none = some (u, k)) : P u k := nomatch hu

theorem outside {Ok : κ → π → Prop} (h : ∀ u k, lock = some (u, k) → Ok k (pc u)) (hpc : pc t = p)
    (hp : ∀ k, ¬ Ok k p) (k : κ) : lock ≠ some (t, k) :=
  fun hlock => hp k (hpc ▸ h t k hlock)

theorem free (h : lock = none) (k : κ) : lock ≠ some (t, k) := by
  rw [h]
  exact nofun

theorem other {u : τ} {k' : κ} (h : lock = some (u, k')) (hut : u ≠ t) (k : κ) : lock ≠ some (t, k) := by
  rw [h]
  intro hk
  cases hk
  exact hut rfl

variable [DecidableEq τ]

theorem moved {Ok : κ → π → Prop} (h : ∀ u k, lock = some (u, k) → Ok k (pc u)) (hfree : ∀ k, lock ≠ some (t, k))
    (p : π) (u : τ) (k : κ) (hlock : lock = some (u, k)) : Ok k (update pc t p u) := by
  have hut : u ≠ t := fun hut => hfree k (hut ▸ hlock)
  rw [update_of_ne hut]
  exact h u k hlock

theorem forall_update {P : π → Prop} (h : ∀ u, P (pc u)) (hp : P p) (u : τ) : P (update pc t p u) :=
  (forall_update_iff pc fun _ => P).mpr ⟨hp, fun u _ => h u⟩ u

end Holder
