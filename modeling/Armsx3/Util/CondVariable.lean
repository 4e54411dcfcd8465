import Armsx3.Library.Tally
import Armsx3.Library.Transition

/-!
# CondVariable — the lightweight condition variable

`cond_variable`: one word with the number of waiters in its low 13 bits and a count of signals above.  `noticed` marks
the threads that were registered when a notify found waiters; no call reads it.
-/

namespace Armsx3.Util.CondVariable

open Transition Function Bool Tally

def cWaiterMax : Nat := 0x1fff

def cSignalMax : Nat := 0x7ffff

/-- Returns the new word, which the thread then waits on. -/
def addWaiter (value : Nat) : Option Nat :=
  if value / 2 ^ 13 = cSignalMax ∨ value % 2 ^ 13 = cWaiterMax then none else some (value + 1)

/-- The cleanup of `imp_wait`. -/
def removeWaiter (value : Nat) : Nat :=
  let value := (value + (2 ^ 32 - 1)) % 2 ^ 32
  if value % 2 ^ 13 = 0 then 0 else value

/-- The first update of `imp_wake`. -/
def addSignal (value : Nat) : Option Nat :=
  if value = 0 ∨ value / 2 ^ 13 = cSignalMax then none else some (value + 2 ^ 13)

inductive Pc
  | idle
  | waiting (old : Nat)
  | leaving
  | waking (all : Bool)
  | notifying (all : Bool)
deriving DecidableEq

def Pc.registered : Pc → Bool
  | .waiting _ | .leaving => true
  | _ => false

structure State (τ : Type) where
  value : Nat := 0
  pc : τ → Pc := fun _ => .idle
  woken : τ → Bool := fun _ => false
  noticed : τ → Bool := fun _ => false

/-- `back` is the return from the atomic wait, with a timeout or without; `notify` names the thread it wakes when it
wakes one. -/
inductive Event (τ : Type)
  | wait (t : τ)
  | back (t : τ) (timeout : Bool)
  | cleanup (t : τ)
  | call (t : τ) (all : Bool)
  | wake (t : τ)
  | notify (t : τ) (one : Option τ)

variable {τ : Type} [DecidableEq τ]

def step (s : State τ) : Event τ → Option (State τ)
  | .wait t =>
    if s.pc t ≠ .idle then none
    else match addWaiter s.value with
      | none => some s
      | some value => some { s with
          value := value, pc := update s.pc t (.waiting value)
          woken := update s.woken t false, noticed := update s.noticed t false }
  | .back t timeout =>
    match s.pc t with
    | .waiting old =>
      if s.value ≠ old ∨ s.woken t = true ∨ timeout = true then some { s with pc := update s.pc t .leaving } else none
    | _ => none
  | .cleanup t =>
    if s.pc t ≠ .leaving then none
    else some { s with value := removeWaiter s.value, pc := update s.pc t .idle }
  | .call t all =>
    if s.pc t ≠ .idle then none else if s.value = 0 then some s else some { s with pc := update s.pc t (.waking all) }
  | .wake t =>
    match s.pc t with
    | .waking all =>
      let noticed := fun u => s.noticed u || (s.pc u).registered
      match addSignal s.value with
      | none => some { s with pc := update s.pc t .idle, noticed := noticed }
      | some value =>
        -- when the count has reached its maximum, all are woken
        let all := all || value / 2 ^ 13 = cSignalMax
        some { s with value := value, pc := update s.pc t (.notifying all), noticed := noticed }
    | _ => none
  | .notify t one =>
    match s.pc t with
    | .notifying all => some { s with
        pc := update s.pc t .idle, woken := fun u => s.woken u || all || one = some u }
    | _ => none

def system (τ : Type) [DecidableEq τ] : System (State τ) (Event τ) := ⟨fun s => s = {}, step⟩

variable [Fintype τ] {s s' : State τ} {e : Event τ} {t : τ} {p : Pc}

/-- What the word of a waiting thread says of the current one. -/
def WordOk (value : Nat) (noticed : Bool) : Pc → Prop
  | .waiting old => old / 2 ^ 13 < cSignalMax ∧ old / 2 ^ 13 + noticed.toNat ≤ value / 2 ^ 13
  | _ => True

structure Inv (s : State τ) : Prop where
  small : s.value < 2 ^ 32
  zero : s.value % 2 ^ 13 = 0 → s.value = 0
  count : s.value % 2 ^ 13 = count Pc.registered s.pc
  word : ∀ t, WordOk s.value (s.noticed t) (s.pc t)

theorem WordOk.mono {v v' : Nat} {n n' : Bool} (h : WordOk v n p) (hle : v / 2 ^ 13 + n'.toNat ≤ v' / 2 ^ 13 + n.toNat) :
    WordOk v' n' p := by
  cases p with
  | waiting =>
    have ⟨hmax, hold⟩ := h
    exact ⟨hmax, by omega⟩
  | _ => trivial

theorem Inv.registered_pos (h : Inv s) (ht : (s.pc t).registered = true) : 0 < s.value % 2 ^ 13 := by
  rw [h.count, count_eq _ _ t, ht]
  exact Nat.succ_pos _

/-- A thread moves, and the number of waiters with it. -/
theorem Inv.move (h : Inv s) {value : Nat} {woken noticed : τ → Bool} (hsmall : value < 2 ^ 32)
    (hzero : value % 2 ^ 13 = 0 → value = 0)
    (hcount : value % 2 ^ 13 + (s.pc t).registered.toNat = s.value % 2 ^ 13 + p.registered.toNat)
    (hp : WordOk value (noticed t) p) (hword : ∀ u, u ≠ t → WordOk value (noticed u) (s.pc u)) :
    Inv ⟨value, update s.pc t p, woken, noticed⟩ := by
  refine ⟨hsmall, hzero, ?_, (forall_update_iff s.pc fun u x => WordOk value (noticed u) x).mpr ⟨hp, hword⟩⟩
  have hold := count_eq Pc.registered s.pc t
  have hs := h.count
  rw [count_update]
  show value % 2 ^ 13 = _
  omega

section

variable (h : Inv s)
include h

theorem Inv.wait {value : Nat} (hpc : s.pc t = .idle) (hadd : addWaiter s.value = some value) :
    Inv ⟨value, update s.pc t (.waiting value), update s.woken t false, update s.noticed t false⟩ := by
  unfold addWaiter cSignalMax cWaiterMax at hadd
  split at hadd <;> cases hadd
  have hsmall := h.small
  refine h.move (by omega) (by omega) ?_ ?_ fun u hut => ?_
  · rw [hpc]
    simp only [Pc.registered, toNat_true, toNat_false]
    omega
  · rw [update_self]
    exact ⟨by unfold cSignalMax; omega, Nat.le_refl _⟩
  · rw [update_of_ne hut]
    exact (h.word u).mono (by omega)

theorem Inv.cleanup (hpc : s.pc t = .leaving) :
    Inv { s with value := removeWaiter s.value, pc := update s.pc t .idle } := by
  have hpos := h.registered_pos (by rw [hpc]; rfl)
  have hsmall := h.small
  have hvalue : (s.value + (2 ^ 32 - 1)) % 2 ^ 32 = s.value - 1 := by omega
  have hcount : s.value % 2 ^ 13 - 1 + (s.pc t).registered.toNat = s.value % 2 ^ 13 + Pc.idle.registered.toNat := by
    rw [hpc]
    simp only [Pc.registered, toNat_true, toNat_false]
    omega
  simp only [removeWaiter, hvalue]
  split
  · refine h.move (by omega) (fun _ => rfl) (by omega) trivial fun u hut => ?_
    -- the last waiter has left, so no other one is there
    have hothers : ¬ (s.pc u).registered = true := by
      intro hu
      have hcount := count_eq Pc.registered s.pc t
      have hone := others_pos hut hu
      rw [← h.count, hpc] at hcount
      simp only [Pc.registered, toNat_true] at hcount
      omega
    cases hpu : s.pc u <;> rw [hpu] at hothers <;> first | exact trivial | exact absurd rfl hothers
  · refine h.move (by omega) (by omega) (by omega) trivial fun u _ => ?_
    exact (h.word u).mono (by omega)

/-- The signal count goes up, or it is at its maximum and the words of all waiters are below it. -/
theorem Inv.wake {all : Bool} {value : Nat} {p : Pc} (hpc : s.pc t = .waking all) (hp : p.registered = false)
    (hvalue : addSignal s.value = some value ∨ addSignal s.value = none ∧ value = s.value) :
    Inv ⟨value, update s.pc t p, s.woken, fun u => s.noticed u || (s.pc u).registered⟩ := by
  have hsmall := h.small
  have hzero := h.zero
  have hfree : ∀ v n, WordOk v n p := by intro v n; cases p <;> trivial
  unfold addSignal cSignalMax at hvalue
  split_ifs at hvalue with hnone
  · have hvalue := (hvalue.resolve_left nofun).2
    subst hvalue
    refine h.move hsmall hzero (by rw [hpc, hp]; rfl) (hfree _ _) fun u _ => ?_
    have hu := h.word u
    cases hpu : s.pc u with
    | waiting old =>
      have hpos := h.registered_pos (by rw [hpu]; rfl)
      rw [hpu] at hu
      refine ⟨hu.1, ?_⟩
      have hmax := hu.1
      have hle := toNat_le (s.noticed u || (Pc.waiting old).registered)
      unfold cSignalMax at hmax
      omega
    | _ => trivial
  · have hvalue := Option.some.inj (hvalue.resolve_right fun hno => nomatch hno.1)
    subst hvalue
    refine h.move (by omega) (by omega) (by rw [hpc, hp]; simp only [Pc.registered]; omega) (hfree _ _) fun u _ => ?_
    have hle := toNat_le (s.noticed u || (s.pc u).registered)
    exact (h.word u).mono (by omega)

theorem Inv.goto {woken : τ → Bool} (hr : (s.pc t).registered = p.registered) (hp : ∀ v n, WordOk v n p) :
    Inv { s with pc := update s.pc t p, woken := woken } :=
  h.move h.small h.zero (by rw [hr]) (hp _ _) fun u _ => h.word u

theorem Inv.step (he : step s e = some s') : Inv s' := by
  cases e <;> simp only [CondVariable.step] at he
  case wait t =>
    split at he
    · cases he
    rename_i hpc
    split at he <;> cases he
    · exact h
    next hadd =>
      exact h.wait (not_not.mp hpc) hadd
  case back t timeout =>
    split at he
    next hpc =>
      split at he <;> cases he
      exact h.goto (by rw [hpc]; rfl) fun _ _ => trivial
    · cases he
  case cleanup t =>
    split at he
    · cases he
    next hpc =>
      rw [← Option.some.inj he]
      exact h.cleanup (not_not.mp hpc)
  case call t all =>
    split at he
    · cases he
    rename_i hpc
    split at he <;> cases he
    · exact h
    · exact h.goto (by rw [not_not.mp hpc]; rfl) fun _ _ => trivial
  case wake t =>
    split at he
    next hpc =>
      split at he <;> cases he <;> rename_i hsig
      · exact h.wake hpc rfl (.inr ⟨hsig, rfl⟩)
      · exact h.wake hpc rfl (.inl hsig)
    · cases he
  case notify t one =>
    split at he <;> cases he
    rename_i hpc
    exact h.goto (by rw [hpc]; rfl) fun _ _ => trivial

end

/-- The waits that return: those of the threads a notify has found, and all of them once a field is at its maximum. -/
structure Safe (s : State τ) : Prop where
  waiters : s.value % 2 ^ 13 = count Pc.registered s.pc
  noticed : ∀ t old, s.pc t = .waiting old → s.noticed t = true → (step s (.back t false)).isSome
  saturated : s.value / 2 ^ 13 = cSignalMax → ∀ t old, s.pc t = .waiting old → (step s (.back t false)).isSome
  full : s.value / 2 ^ 13 = cSignalMax ∨ s.value % 2 ^ 13 = cWaiterMax → ∀ t, s.pc t = .idle → step s (.wait t) = some s

end Armsx3.Util.CondVariable
