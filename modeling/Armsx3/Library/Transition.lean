import Mathlib

/-!
# Transition — executable transition systems and their invariants

A system is a set of initial states and a partial step function: an event that is not enabled, or
on which the program aborts, has no successor.  Runs are lists of events, so that a concrete run
can be evaluated.
-/

namespace Transition

open Option

structure System (σ ε : Type*) where
  init : σ → Prop
  step : σ → ε → Option σ

namespace System

variable {σ ε : Type*} (M : System σ ε)

def run (s : σ) : List ε → Option σ
  | [] => some s
  | e :: es => (M.step s e).bind fun s' => run s' es

/-- The states some run from some initial state ends in. -/
def Reachable (s : σ) : Prop := ∃ s₀ es, M.init s₀ ∧ M.run s₀ es = some s

/-- The same system with only the steps that meet `C`. -/
def restrict (C : σ → ε → Prop) [∀ s e, Decidable (C s e)] : System σ ε where
  init := M.init
  step s e := if C s e then M.step s e else none

variable {M}

theorem run_cons (s : σ) (e : ε) (es : List ε) : M.run s (e :: es) = (M.step s e).bind fun s' => M.run s' es := rfl

variable {s s' : σ} {e : ε} {es : List ε}

theorem run_cons_eq_some : M.run s (e :: es) = some s' ↔ ∃ t, M.step s e = some t ∧ M.run t es = some s' := by
  rw [run_cons, bind_eq_some_iff]

theorem run_append (s : σ) (es fs : List ε) : M.run s (es ++ fs) = (M.run s es).bind fun s' => M.run s' fs := by
  induction es generalizing s with
  | nil => rfl
  | cons e es ih =>
    rw [List.cons_append, run_cons, run_cons, bind_assoc]
    congr 1
    funext t
    exact ih t

theorem run_preserves {P : σ → Prop} (hstep : ∀ s e s', P s → M.step s e = some s' → P s')
    (hs : P s) (hrun : M.run s es = some s') : P s' := by
  induction es generalizing s with
  | nil => exact some.inj hrun ▸ hs
  | cons e es ih =>
    have ⟨t, ht, hrest⟩ := run_cons_eq_some.mp hrun
    exact ih (hstep s e t hs ht) hrest

theorem Reachable.of_init {s : σ} (hs : M.init s) : M.Reachable s := ⟨s, [], hs, rfl⟩

theorem Reachable.run (hs : M.Reachable s) (hrun : M.run s es = some s') : M.Reachable s' := by
  have ⟨s0, fs, hinit, hfs⟩ := hs
  refine ⟨s0, fs ++ es, hinit, ?_⟩
  rw [run_append, hfs, bind_some, hrun]

theorem Reachable.step (hs : M.Reachable s) (he : M.step s e = some s') : M.Reachable s' := by
  have hrun : M.run s [e] = some s' := by rw [run_cons, he]; rfl
  exact hs.run hrun

theorem Reachable.invariant {P : σ → Prop} (hinit : ∀ s, M.init s → P s)
    (hstep : ∀ s e s', P s → M.step s e = some s' → P s') {s : σ} (hs : M.Reachable s) : P s := by
  have ⟨s0, es, h0, hrun⟩ := hs
  exact run_preserves hstep (hinit s0 h0) hrun

theorem exists_run (s0 : σ) (es : List ε) (P : σ → Prop) [DecidablePred P]
    (hrun : (M.run s0 es).any (fun s => decide (P s)) = true) : ∃ s, M.run s0 es = some s ∧ P s := by
  cases hs : M.run s0 es with
  | none => rw [hs] at hrun; cases hrun
  | some s =>
    rw [hs] at hrun
    exact ⟨s, rfl, of_decide_eq_true hrun⟩

theorem Reachable.exists_of_run {s0 : σ} (h0 : M.init s0) (es : List ε) (P : σ → Prop)
    [DecidablePred P] (hrun : (M.run s0 es).any (fun s => decide (P s)) = true) : ∃ s, M.Reachable s ∧ P s := by
  have ⟨s, hs, hP⟩ := exists_run s0 es P hrun
  exact ⟨s, ⟨s0, es, h0, hs⟩, hP⟩

theorem Reachable.exists_of_run_and {P Q : σ → Prop} [DecidablePred P] (hQ : ∀ {s}, M.Reachable s → Q s) {s0 : σ}
    (h0 : M.init s0) (es : List ε) (hrun : (M.run s0 es).any (fun s => decide (P s)) = true) :
    ∃ s, M.Reachable s ∧ P s ∧ Q s := by
  have ⟨s, hs, hP⟩ := exists_of_run h0 es P hrun
  exact ⟨s, hs, hP, hQ hs⟩

theorem step_restrict {C : σ → ε → Prop} [∀ s e, Decidable (C s e)] :
    (M.restrict C).step s e = some s' ↔ C s e ∧ M.step s e = some s' := by
  simp only [restrict]
  split
  next hc =>
    simp only [hc, true_and]
  next hc =>
    simp only [hc, false_and, reduceCtorEq]

end System

end Transition
