import Armsx3.Library.Tally
import Armsx3.Library.Transition

/-!
# Reservation — the lock bits and the time stamp of a reservation word

A word counts the shared holders in its low six bits, has `rsrv_unique_lock` above them, and above that the time of
the last update in steps of 128.  A shared holder that has changed the memory adds 127, which takes its count back and
moves the time on.  With fewer than 64 holders neither gets at the bit between (`Balanced`).
-/

namespace Armsx3.Vm.Reservation

open Transition Tally Function Option

/-- `r & rsrv_unique_lock` -/
def uniqueLocked (r : Nat) : Bool := r / 64 % 2 == 1

def add64 (r k : Nat) : Nat := (r + k) % 2 ^ 64

/-- Where a thread is: outside, with a value that it has loaded, or a holder. -/
inductive Pc
  | out
  | loaded (rtime : Nat)
  | shared
  | unique
deriving DecidableEq

def Pc.isShared (p : Pc) : Bool := p == .shared

def Pc.isUnique (p : Pc) : Bool := p == .unique

/-- `updates` are the successful ones that were completed. -/
structure State (n : Nat) where
  res : Nat
  pc : Fin n → Pc := fun _ => .out
  updates : Nat := 0

inductive Event (n : Nat)
  | load (t : Fin n)
  | sharedLock (t : Fin n)
  | sharedRelease (t : Fin n) (result : Bool)
  /-- The rest of an attempt of `reservation_lock` or `reservation_lock_internal`. -/
  | lock (t : Fin n)
  | release (t : Fin n) (success : Bool)
  /-- The rest of `try_reservation_update`. -/
  | tryUpdate (t : Fin n)

namespace State

variable {n : Nat} (s : State n)

def go (t : Fin n) (p : Pc) : State n := { s with pc := update s.pc t p }

/-- `reservation_try_lock` -/
def tryLock (t : Fin n) (rtime : Nat) : State n :=
  if s.res = rtime then { s.go t .unique with res := if uniqueLocked rtime then rtime else rtime + 64 }
  else s.go t .out

/-- An attempt that fails ends outside, where the next one starts or the call gives up. -/
def step : Event n → Option (State n)
  | .load t => if s.pc t = .out then some (s.go t (.loaded s.res)) else none
  | .sharedLock t =>
    if s.pc t = .out then
      some (if uniqueLocked s.res then s else { s.go t .shared with res := add64 s.res 1 })
    else none
  | .sharedRelease t result =>
    if s.pc t = .shared then
      -- `fetch_add(127)` or `fetch_sub(1)`
      some { s.go t .out with
        res := add64 s.res (if result then 127 else 2 ^ 64 - 1)
        updates := s.updates + result.toNat }
    else none
  | .lock t =>
    match s.pc t with
    -- both callers of `reservation_try_lock` test `rtime & 127` first
    | .loaded rtime => some (if rtime % 128 = 0 then s.tryLock t rtime else s.go t .out)
    | _ => none
  | .release t success =>
    if s.pc t = .unique then
      some { s.go t .out with
        res := add64 s.res (if success then 64 else 2 ^ 64 - 64)
        updates := s.updates + success.toNat }
    else none
  | .tryUpdate t =>
    match s.pc t with
    | .loaded rtime =>
      some (if uniqueLocked rtime = false ∧ s.res = rtime then
        { s.go t .out with res := add64 rtime 128, updates := s.updates + 1 }
      else s.go t .out)
    | _ => none

/-- There are fewer than 64 shared holders at a time. -/
def FewShared : Event n → Prop
  | .sharedLock _ => count Pc.isShared s.pc + 1 < 64
  | _ => True

instance : (e : Event n) → Decidable (s.FewShared e)
  | .sharedLock _ => inferInstanceAs (Decidable (_ < _))
  | .load _ | .sharedRelease _ _ | .lock _ | .release _ _ | .tryUpdate _ => inferInstanceAs (Decidable True)

end State

/-- Any number of threads and one word, which starts with a time stamp. -/
def system (n start : Nat) : System (State n) (Event n) where
  init s := s = { res := start } ∧ start % 128 = 0 ∧ start < 2 ^ 64
  step := State.step

structure Safe {n : Nat} (start : Nat) (s : State n) : Prop where
  exclusive : ∀ t u, t ≠ u → s.pc t = .unique → s.pc u ≠ .unique ∧ s.pc u ≠ .shared
  stamp : s.res / 128 * 128 = (start + 128 * s.updates) % 2 ^ 64
  free : (∀ t, s.pc t ≠ .unique ∧ s.pc t ≠ .shared) → s.res % 128 = 0

/-! ## The word and its holders -/

/-- The low bits are the number of holders, and a unique holder counts for 64. -/
structure Balanced (start res updates shared unique : Nat) : Prop where
  word : res = (start + 128 * updates + shared + 64 * unique) % 2 ^ 64
  start : start % 128 = 0
  bits : shared + 64 * unique ≤ 64
  few : shared < 64

def Inv {n : Nat} (start : Nat) (s : State n) : Prop :=
  Balanced start s.res s.updates (count Pc.isShared s.pc) (count Pc.isUnique s.pc)

section

variable {n start res updates shared unique : Nat} {s s' : State n} {t : Fin n} {p q : Pc}

theorem Balanced.res_mod (h : Balanced start res updates shared unique) : res % 128 = shared + 64 * unique := by
  have ⟨hword, hstart, hbits, _⟩ := h
  omega

theorem Balanced.uniqueLocked_iff (h : Balanced start res updates shared unique) :
    uniqueLocked res = false ↔ unique = 0 := by
  have ⟨_, _, hbits, hfew⟩ := h
  rw [uniqueLocked, beq_eq_false_iff_ne]
  omega

section

variable (h : Inv start s)
include h

theorem Inv.move {a b c d : Nat} (ht : s.pc t = p) (hp : p.isShared.toNat = a ∧ p.isUnique.toNat = b)
    (hq : q.isShared.toNat = c ∧ q.isUnique.toNat = d) (hmove : ∀ shared unique, count Pc.isShared s.pc = shared + a →
      Balanced start s.res s.updates (shared + a) (unique + b) →
      Balanced start res updates (shared + c) (unique + d)) : Inv start ⟨res, update s.pc t q, updates⟩ := by
  have hshared := count_eq Pc.isShared s.pc t
  have hunique := count_eq Pc.isUnique s.pc t
  rw [ht, hp.1] at hshared
  rw [ht, hp.2] at hunique
  unfold Inv at h ⊢
  rw [hshared, hunique] at h
  rw [count_update, count_update, hq.1, hq.2]
  exact hmove _ _ hshared h

theorem Inv.go (ht : s.pc t = p) (hp : p.isShared.toNat = 0 ∧ p.isUnique.toNat = 0)
    (hq : q.isShared.toNat = 0 ∧ q.isUnique.toNat = 0) : Inv start (s.go t q) :=
  h.move ht hp hq fun _ _ _ hb => hb

theorem Inv.tryLock {rtime : Nat} (ht : s.pc t = p)
    (hp : p.isShared.toNat = 0 ∧ p.isUnique.toNat = 0) (hclean : rtime % 128 = 0) : Inv start (s.tryLock t rtime) := by
  unfold State.tryLock
  split
  next hres =>
    apply h.move ht hp ⟨rfl, rfl⟩
    intro shared unique _ hb
    -- without lock bits there is no other holder
    have hmod := hb.res_mod
    have hfree := hb.uniqueLocked_iff.mpr (by omega)
    have ⟨hword, hstart, hbits, hfew⟩ := hb
    rw [← hres, if_neg (by rw [hfree]; decide)]
    show Balanced start (s.res + 64) s.updates (shared + 0) (unique + 1)
    constructor <;> omega
  · exact h.go ht hp ⟨rfl, rfl⟩

theorem Inv.sharedLock (ht : s.pc t = .out) (hfew : count Pc.isShared s.pc + 1 < 64)
    (hlocked : uniqueLocked s.res = false) : Inv start ⟨add64 s.res 1, update s.pc t .shared, s.updates⟩ := by
  apply h.move (a := 0) (c := 1) (d := 0) ht ⟨rfl, rfl⟩ ⟨rfl, rfl⟩
  intro shared unique hshared hb
  have hnone := hb.uniqueLocked_iff.mp hlocked
  have ⟨hword, hstart, hbits, hfew'⟩ := hb
  unfold add64
  constructor <;> omega

/-- A holder leaves; `k` is what it adds to the word. -/
theorem Inv.leave {a b k : Nat} (ht : s.pc t = p) (hp : p.isShared.toNat = a ∧ p.isUnique.toNat = b)
    (ok : Bool) (hk : k + a + 64 * b = 2 ^ 64 + 128 * ok.toNat ∨ k + a + 64 * b = 128 * ok.toNat) :
    Inv start ⟨add64 s.res k, update s.pc t .out, s.updates + ok.toNat⟩ := by
  apply h.move (c := 0) (d := 0) ht hp ⟨rfl, rfl⟩
  intro shared unique _ ⟨hword, hstart, hbits, hfew⟩
  unfold add64
  constructor <;> omega

theorem inv_step {e : Event n} (hfew : s.FewShared e) (hs : s.step e = some s') : Inv start s' := by
  cases e with
  | load =>
    have ⟨ht, rfl⟩ := ite_some_none_eq_some.mp hs
    exact h.go ht ⟨rfl, rfl⟩ ⟨rfl, rfl⟩
  | sharedLock =>
    have ⟨ht, rfl⟩ := ite_some_none_eq_some.mp hs
    split_ifs with hlocked
    · exact h
    · exact h.sharedLock ht hfew (Bool.eq_false_iff.mpr hlocked)
  | sharedRelease t result =>
    have ⟨ht, rfl⟩ := ite_some_none_eq_some.mp hs
    apply h.leave ht ⟨rfl, rfl⟩
    cases result <;> decide
  | lock =>
    simp only [State.step] at hs
    split at hs
    next rtime ht =>
      cases hs
      split_ifs with hclean
      · exact h.tryLock ht ⟨rfl, rfl⟩ hclean
      · exact h.go ht ⟨rfl, rfl⟩ ⟨rfl, rfl⟩
    · cases hs
  | release t success =>
    have ⟨ht, rfl⟩ := ite_some_none_eq_some.mp hs
    apply h.leave ht ⟨rfl, rfl⟩
    cases success <;> decide
  | tryUpdate =>
    simp only [State.step] at hs
    split at hs
    next rtime ht =>
      cases hs
      split_ifs with hres
      · rw [← hres.2]
        exact h.leave ht ⟨rfl, rfl⟩ true (Or.inr rfl)
      · exact h.go ht ⟨rfl, rfl⟩ ⟨rfl, rfl⟩
    · cases hs

theorem Inv.safe : Safe start s := by
  have ⟨hword, hstart, hbits, hfew⟩ := h
  refine ⟨fun t u htu ht => ?_, by omega, fun hfree => ?_⟩
  · rw [count_eq _ _ t, count_eq Pc.isUnique _ t, ht] at hbits
    have hbits : others Pc.isShared s.pc t + 0 + 64 * (others Pc.isUnique s.pc t + 1) ≤ 64 := hbits
    constructor
    · intro hu
      have hpos : 0 < others Pc.isUnique s.pc t := others_pos htu.symm (by rw [hu]; rfl)
      omega
    · intro hu
      have hpos : 0 < others Pc.isShared s.pc t := others_pos htu.symm (by rw [hu]; rfl)
      omega
  · have hshared : count Pc.isShared s.pc = 0 := count_eq_zero fun t => beq_eq_false_iff_ne.mpr (hfree t).2
    have hunique : count Pc.isUnique s.pc = 0 := count_eq_zero fun t => beq_eq_false_iff_ne.mpr (hfree t).1
    omega

end

end

end Armsx3.Vm.Reservation
