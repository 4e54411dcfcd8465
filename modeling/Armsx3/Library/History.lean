import Mathlib

/-!
# History — the log of the calls on a shared object

Each call on a concurrent object enters the log once, at the moment at which it takes effect.  `replay` runs a
sequential object over the log, and `Accounted` says that every call that was issued is either in the log, once, or
still held by the thread that makes it.
-/

namespace History

open Function List Nat Option

section Replay

variable {σ ο : Type*} (step : σ → ο → Option σ)

/-- The state of the sequential object after the calls of the log, when each of them has the result that the log
gives it. -/
def replay (s : σ) : List ο → Option σ
  | [] => some s
  | o :: log => (step s o).bind fun s' => replay s' log

variable {step}

theorem replay_append (s : σ) (log log' : List ο) :
    replay step s (log ++ log') = (replay step s log).bind fun s' => replay step s' log' := by
  induction log generalizing s with
  | nil => rfl
  | cons o log ih =>
    show (step s o).bind (fun s' => replay step s' (log ++ log')) = _
    rw [show replay step s (o :: log) = (step s o).bind fun s' => replay step s' log from rfl, bind_assoc]
    congr 1
    funext t
    exact ih t

theorem replay_concat {s t u : σ} {log : List ο} {o : ο} (h : replay step s log = some t) (ho : step t o = some u) :
    replay step s (log ++ [o]) = some u := by
  rw [replay_append, h, bind_some]
  show (step t o).bind _ = some u
  rw [ho]
  rfl

end Replay

section Accounted

variable {ι : Type*} {issued : Nat} {done : List Nat} {held : ι → Option Nat}

/-- Calls are numbered as they are issued; `done` has the numbers of those in the log and `held` the number of the
call that a thread has still to enter. -/
structure Accounted (issued : Nat) (done : List Nat) (held : ι → Option Nat) : Prop where
  nodup : done.Nodup
  doneLt : ∀ k ∈ done, k < issued
  heldLt : ∀ i k, held i = some k → k < issued
  heldNotDone : ∀ i k, held i = some k → k ∉ done
  heldInj : ∀ i j k, held i = some k → held j = some k → i = j
  total : ∀ k < issued, k ∈ done ∨ ∃ i, held i = some k

theorem Accounted.init : Accounted 0 [] (fun _ : ι => none) where
  nodup := nodup_nil
  doneLt := nofun
  heldLt := nofun
  heldNotDone := nofun
  heldInj := nofun
  total := fun k h => absurd h (not_lt_zero k)

variable [DecidableEq ι]

theorem Accounted.issue (h : Accounted issued done held) {i : ι} (hi : held i = none) :
    Accounted (issued + 1) done (update held i (some issued)) := by
  -- the new number is above every number that is held or done
  have hheld : ∀ j k, update held i (some issued) j = some k → (j = i ∧ k = issued) ∨ held j = some k := by
    intro j k hk
    by_cases hj : j = i
    · rw [hj, update_self] at hk
      exact .inl ⟨hj, (some.inj hk).symm⟩
    · rw [update_of_ne hj] at hk
      exact .inr hk
  refine ⟨h.nodup, fun k hk => lt_succ_of_lt (h.doneLt k hk), ?_, ?_, ?_, ?_⟩
  · intro j k hk
    rcases hheld j k hk with ⟨_, rfl⟩ | hk
    · exact lt_succ_self _
    · exact lt_succ_of_lt (h.heldLt j k hk)
  · intro j k hk hdone
    rcases hheld j k hk with ⟨_, rfl⟩ | hk
    · exact absurd (h.doneLt _ hdone) (Nat.lt_irrefl _)
    · exact h.heldNotDone j k hk hdone
  · intro j j' k hj hj'
    rcases hheld j k hj with ⟨hji, hk⟩ | hold
    · rcases hheld j' k hj' with ⟨hji', _⟩ | hold'
      · exact hji.trans hji'.symm
      · have := h.heldLt j' k hold'
        omega
    · rcases hheld j' k hj' with ⟨_, hk⟩ | hold'
      · have := h.heldLt j k hold
        omega
      · exact h.heldInj j j' k hold hold'
  · intro k hk
    rcases Nat.lt_succ_iff_lt_or_eq.mp hk with hk | rfl
    · rcases h.total k hk with hk | ⟨j, hj⟩
      · exact .inl hk
      · have hji : j ≠ i := fun hji => by rw [hji, hi] at hj; cases hj
        exact .inr ⟨j, by rw [update_of_ne hji]; exact hj⟩
    · exact .inr ⟨i, update_self ..⟩

theorem Accounted.settle (h : Accounted issued done held) {i : ι} {k : Nat} (hi : held i = some k) :
    Accounted issued (done ++ [k]) (update held i none) := by
  have hheld : ∀ j l, update held i none j = some l → j ≠ i ∧ held j = some l := by
    intro j l hl
    by_cases hj : j = i
    · rw [hj, update_self] at hl
      cases hl
    · rw [update_of_ne hj] at hl
      exact ⟨hj, hl⟩
  refine ⟨?_, ?_, ?_, ?_, ?_, ?_⟩
  · apply List.Nodup.append h.nodup (nodup_singleton k)
    intro l hl hlk
    rw [mem_singleton.mp hlk] at hl
    exact h.heldNotDone i k hi hl
  · exact forall_mem_append.mpr ⟨h.doneLt, forall_mem_singleton.mpr (h.heldLt i k hi)⟩
  · exact fun j l hl => h.heldLt j l (hheld j l hl).2
  · intro j l hl hdone
    have ⟨hj, hl⟩ := hheld j l hl
    rcases mem_append.mp hdone with hdone | hdone
    · exact h.heldNotDone j l hl hdone
    · rw [mem_singleton.mp hdone] at hl
      exact hj (h.heldInj j i k hl hi)
  · exact fun j j' l hj hj' => h.heldInj j j' l (hheld j l hj).2 (hheld j' l hj').2
  · intro l hl
    rcases h.total l hl with hl | ⟨j, hj⟩
    · exact .inl (mem_append_left _ hl)
    by_cases hji : j = i
    · rw [hji, hi] at hj
      cases hj
      exact .inl (mem_append_right _ (mem_singleton_self k))
    · exact .inr ⟨j, by rw [update_of_ne hji]; exact hj⟩

end Accounted

end History
