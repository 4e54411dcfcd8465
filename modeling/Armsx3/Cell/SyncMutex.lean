import Armsx3.Library.Transition

/-!
# SyncMutex — the ticket mutex and the barrier of cellSync

Every update of a control word is one step; a blocking call repeats its step until it succeeds or the thread is
stopped.  The state also lists the tickets, the locks that were taken and the updates that succeeded; no call reads
these lists.
-/

namespace Armsx3.Cell.SyncMutex

open Transition Function List Option

/-- `CellSyncMutex::Counter`, two fields of 16 bits. -/
structure Counter where
  rel : Nat := 0
  acq : Nat := 0
deriving DecidableEq

namespace Counter

/-- Returns the ticket too. -/
def lockBegin (c : Counter) : Counter × Nat := ({ c with acq := (c.acq + 1) % 2 ^ 16 }, c.acq)

def tryLock (c : Counter) : Option Counter :=
  if c.rel ≠ c.acq then none else some { c with acq := (c.acq + 1) % 2 ^ 16 }

def unlock (c : Counter) : Counter := { c with rel := (c.rel + 1) % 2 ^ 16 }

end Counter

inductive Pc
  | idle (busy : Bool)
  | waiting (order : Nat)
  | holding
deriving DecidableEq

/-- `tickets` and `acquired` are the threads that took a ticket and the mutex, in order. -/
structure State (τ : Type) where
  ctrl : Counter := {}
  pc : τ → Pc := fun _ => .idle false
  tickets : List τ := []
  acquired : List τ := []
  released : Nat := 0

inductive Event (τ : Type)
  | lock (t : τ)
  | spin (t : τ)
  | stop (t : τ)
  | tryLock (t : τ)
  | unlock (t : τ)

variable {τ : Type}

def step [DecidableEq τ] (s : State τ) : Event τ → Option (State τ)
  | .lock t =>
    match s.pc t with
    | .idle _ => some { s with
        ctrl := s.ctrl.lockBegin.1, pc := update s.pc t (.waiting s.ctrl.lockBegin.2), tickets := s.tickets ++ [t] }
    | _ => none
  | .spin t =>
    match s.pc t with
    | .waiting order =>
      if s.ctrl.rel ≠ order then some s
      else some { s with pc := update s.pc t .holding, acquired := s.acquired ++ [t] }
    | _ => none
  | .stop t =>
    match s.pc t with
    | .waiting _ => some { s with pc := update s.pc t (.idle false) }
    | _ => none
  | .tryLock t =>
    match s.pc t with
    | .idle _ =>
      match s.ctrl.tryLock with
      | none => some { s with pc := update s.pc t (.idle true) }
      | some ctrl => some { s with
          ctrl := ctrl, pc := update s.pc t .holding, tickets := s.tickets ++ [t], acquired := s.acquired ++ [t] }
    | _ => none
  | .unlock t =>
    match s.pc t with
    | .holding => some { s with
        ctrl := s.ctrl.unlock, pc := update s.pc t (.idle false), released := s.released + 1 }
    | _ => none

def system (τ : Type) [DecidableEq τ] : System (State τ) (Event τ) := ⟨fun s => s = {}, step⟩

/-- A lock leaves fewer than 65536 tickets outstanding. -/
def Few (s : State τ) : Event τ → Prop
  | .lock _ => s.tickets.length + 1 < s.released + 2 ^ 16
  | _ => True

instance (s : State τ) (e : Event τ) : Decidable (Few s e) :=
  match e with
  | .lock _ => inferInstanceAs (Decidable (_ < _))
  | .spin _ | .stop _ | .tryLock _ | .unlock _ => .isTrue trivial

variable {s s' : State τ} {e : Event τ} {t : τ}

def PcOk (s : State τ) (t : τ) : Pc → Prop
  | .idle _ => True
  | .waiting order => ∃ i, s.acquired.length ≤ i ∧ s.tickets[i]? = some t ∧ order = i % 2 ^ 16
  | .holding => s.acquired.length = s.released + 1 ∧ s.tickets[s.released]? = some t

theorem PcOk.congr {p : Pc} (h : PcOk s t p)
    (hw : ∀ i, s.acquired.length ≤ i → s.tickets[i]? = some t → s'.acquired.length ≤ i ∧ s'.tickets[i]? = some t)
    (hh : PcOk s t .holding → PcOk s' t .holding) : PcOk s' t p := by
  cases p with
  | idle => trivial
  | waiting =>
    have ⟨i, hi, hti, hord⟩ := h
    exact ⟨i, (hw i hi hti).1, (hw i hi hti).2, hord⟩
  | holding => exact hh h

structure Inv (s : State τ) : Prop where
  rel : s.ctrl.rel = s.released % 2 ^ 16
  acq : s.ctrl.acq = s.tickets.length % 2 ^ 16
  few : s.tickets.length < s.released + 2 ^ 16
  served : s.acquired <+: s.tickets
  one : s.released ≤ s.acquired.length
  pc : ∀ t, PcOk s t (s.pc t)

section

variable (h : Inv s)
include h

theorem Inv.tryLock_free {ctrl : Counter} (hlock : s.ctrl.tryLock = some ctrl) : s.tickets.length = s.released := by
  have hle := h.served.length_le
  have ⟨hrel, hacq, hfew, _, hone, _⟩ := h
  unfold Counter.tryLock at hlock
  split at hlock
  · cases hlock
  · omega

variable [DecidableEq τ]

theorem Inv.goto (busy : Bool) : Inv { s with pc := update s.pc t (.idle busy) } :=
  { h with pc := (forall_update_iff s.pc (PcOk _)).mpr ⟨trivial, fun u _ => (h.pc u).congr (fun _ => And.intro) id⟩ }

theorem Inv.lock (hfew : s.tickets.length + 1 < s.released + 2 ^ 16) :
    Inv { s with
      ctrl := s.ctrl.lockBegin.1, pc := update s.pc t (.waiting s.ctrl.lockBegin.2), tickets := s.tickets ++ [t] } := by
  have hle := h.served.length_le
  have hmono : ∀ i u, s.tickets[i]? = some u → (s.tickets ++ [t])[i]? = some u := fun i u hu => by
    rw [getElem?_append_left (getElem?_eq_some_iff.mp hu).1, hu]
  refine { h with acq := ?_, few := ?_, served := h.served.trans (prefix_append _ _), pc := ?_ }
  · simp only [Counter.lockBegin, h.acq, length_append, length_singleton, Nat.mod_add_mod]
  · rw [length_append]
    exact hfew
  · refine (forall_update_iff s.pc (PcOk _)).mpr ⟨⟨s.tickets.length, hle, by simp, h.acq⟩, fun u _ => ?_⟩
    exact (h.pc u).congr (fun i hi hu => ⟨hi, hmono i u hu⟩) fun hu => ⟨hu.1, hmono _ u hu.2⟩

theorem Inv.acquire {order : Nat} (hpc : s.pc t = .waiting order) (hrel : s.ctrl.rel = order) :
    Inv { s with pc := update s.pc t .holding, acquired := s.acquired ++ [t] } := by
  have hp := h.pc t
  rw [hpc] at hp
  have ⟨i, hi, hti, hord⟩ := hp
  have hlt := (List.getElem?_eq_some_iff.mp hti).1
  -- the ticket is the oldest one that is not served, since fewer than 65536 are outstanding
  have ⟨hir, hlen⟩ : i = s.released ∧ s.acquired.length = s.released := by
    have ⟨hmod, _, hfew, _, hone, _⟩ := h
    omega
  have hlen' : (s.acquired ++ [t]).length = s.released + 1 := by rw [length_append, hlen, length_singleton]
  subst hir
  refine { h with served := ?_, one := by rw [hlen']; exact Nat.le_succ _, pc := ?_ }
  · have ⟨rest, hrest⟩ := h.served
    rw [← hrest, ← hlen, getElem?_append_right (Nat.le_refl _), Nat.sub_self] at hti
    cases rest with
    | nil => cases hti
    | cons v rest =>
      cases hti
      exact ⟨rest, by rw [append_assoc]; exact hrest⟩
  · refine (forall_update_iff s.pc (PcOk _)).mpr ⟨⟨hlen', hti⟩, fun u hut => (h.pc u).congr (fun i hi hu => ?_) ?_⟩
    · have hne : i ≠ s.released := by
        intro hi
        rw [hi, hti] at hu
        exact hut (some.inj hu).symm
      exact ⟨by rw [hlen']; omega, hu⟩
    · intro hu
      have hheld := hu.1
      omega

theorem Inv.unlock (hpc : s.pc t = .holding) :
    Inv { s with ctrl := s.ctrl.unlock, pc := update s.pc t (.idle false), released := s.released + 1 } := by
  have hp := h.pc t
  rw [hpc] at hp
  have ⟨hlen, hti⟩ := hp
  refine { h with rel := ?_, few := ?_, one := Nat.le_of_eq hlen.symm, pc := ?_ }
  · simp only [Counter.unlock, h.rel, Nat.mod_add_mod]
  · have hfew := h.few
    show s.tickets.length < s.released + 1 + 2 ^ 16
    omega
  · refine (forall_update_iff s.pc (PcOk _)).mpr ⟨trivial, fun u hut => (h.pc u).congr (fun _ => And.intro) fun hu => ?_⟩
    exact absurd (some.inj (hu.2.symm.trans hti)) hut

end

variable [DecidableEq τ]

theorem Inv.step (h : Inv s) (hfew : Few s e) (he : step s e = some s') : Inv s' := by
  cases e with rw [SyncMutex.step] at he
  | lock =>
    split at he <;> cases he
    exact h.lock hfew
  | spin =>
    split at he
    next order hpc =>
      split at he <;> cases he
      · exact h
      next hrel =>
        exact h.acquire hpc (not_not.mp hrel)
    · cases he
  | stop =>
    split at he <;> cases he
    exact h.goto _
  | tryLock t =>
    split at he
    · split at he <;> cases he
      · exact h.goto _
      rename_i ctrl hlock
      have hfree := h.tryLock_free hlock
      -- an uncontended try is a ticket that is served at once
      have hlocked := h.lock (t := t) (by omega)
      have hacq := hlocked.acquire (update_self _ _ _) (h.rel.trans (hfree ▸ h.acq.symm))
      simp only [update_idem] at hacq
      unfold Counter.tryLock at hlock
      split at hlock <;> cases hlock
      exact hacq
    · cases he
  | unlock =>
    split at he <;> cases he
    rename_i hpc
    exact h.unlock hpc

structure Safe (s : State τ) : Prop where
  exclusive : ∀ t u, s.pc t = .holding → s.pc u = .holding → t = u
  ordered : s.acquired <+: s.tickets
  tryLock : ∀ ctrl, s.ctrl.tryLock = some ctrl → s.tickets.length = s.released

theorem mutex_safe (hs : ((system τ).restrict Few).Reachable s) : Safe s := by
  have h := hs.invariant (P := Inv)
    (fun s hs => by cases hs; exact ⟨rfl, rfl, by simp, nil_prefix, Nat.le_refl _, fun _ => trivial⟩)
    (fun s e s' h he => h.step (System.step_restrict.mp he).1 (System.step_restrict.mp he).2)
  refine ⟨fun t u ht hu => ?_, h.served, fun ctrl => h.tryLock_free⟩
  have hpt := h.pc t
  have hpu := h.pc u
  rw [ht] at hpt
  rw [hu] at hpu
  exact some.inj (hpt.2.symm.trans hpu.2)

theorem mutex_safe_contended : ∃ s : State Nat, s.tickets = [0, 1] ∧ s.pc 1 = .holding ∧ Safe s := by
  have ⟨s, hs, hp⟩ := System.Reachable.exists_of_run (M := (system Nat).restrict Few) rfl
    [.lock 0, .lock 1, .spin 0, .unlock 0, .spin 1] (fun s => s.tickets = [0, 1] ∧ s.pc 1 = .holding) (by decide +kernel)
  exact ⟨s, hp.1, hp.2, mutex_safe hs⟩

end Armsx3.Cell.SyncMutex

namespace Armsx3.Cell.SyncBarrier

open Transition Function List

/-- `CellSyncBarrier::ctrl_t`; `value` is an `s16`, its sign bit says that the threads are leaving. -/
structure Ctrl where
  value : Int
  count : Nat

def s16 (v : Int) : Int := (v + 2 ^ 15) % 2 ^ 16 - 2 ^ 15

inductive Call
  | notify
  | wait
deriving DecidableEq

namespace Ctrl

def tryNotify (c : Ctrl) : Option Ctrl :=
  if c.value < 0 then none
  else
    let value := s16 (c.value + 1)
    -- `value |= 0x8000`
    some { c with value := if value = c.count then value - 0x8000 else value }

def tryWait (c : Ctrl) : Option Ctrl :=
  if 0 ≤ c.value then none
  else
    let value := s16 (c.value - 1)
    some { c with value := if value = -0x8000 then 0 else value }

def attempt (c : Ctrl) : Call → Option Ctrl
  | .notify => c.tryNotify
  | .wait => c.tryWait

end Ctrl

def cellSyncBarrierInitialize (totalCount : Nat) : Option Ctrl :=
  if totalCount = 0 ∨ 32767 < totalCount then none else some ⟨0, totalCount⟩

/-- `pc` is the blocking call a thread is in, `log` lists the updates that succeeded. -/
structure State (τ : Type) where
  ctrl : Ctrl
  pc : τ → Option Call := fun _ => none
  log : List Call := []

inductive Event (τ : Type)
  | call (t : τ) (c : Call)
  | spin (t : τ)
  | stop (t : τ)
  | tryCall (t : τ) (c : Call)

variable {τ : Type} [DecidableEq τ] {s s' : State τ} {e : Event τ} {c : Call}

/-- One update by `t`, which is not in a call after it has succeeded. -/
def State.attempt (s : State τ) (t : τ) (c : Call) : State τ :=
  match s.ctrl.attempt c with
  | none => s
  | some ctrl => ⟨ctrl, update s.pc t none, s.log ++ [c]⟩

def step (s : State τ) : Event τ → Option (State τ)
  | .call t c => if s.pc t = none then some { s with pc := update s.pc t (some c) } else none
  | .spin t => (s.pc t).map (s.attempt t)
  | .stop t => if s.pc t = none then none else some { s with pc := update s.pc t none }
  | .tryCall t c => if s.pc t = none then some (s.attempt t c) else none

def system (τ : Type) [DecidableEq τ] : System (State τ) (Event τ) :=
  ⟨fun s => ∃ total ctrl, cellSyncBarrierInitialize total = some ctrl ∧ s = ⟨ctrl, fun _ => none, []⟩, step⟩

def round (n : Nat) : List Call := replicate n .notify ++ replicate n .wait

theorem round_getElem? {n j : Nat} (hj : j < 2 * n) : (round n)[j]? = some (if j < n then .notify else .wait) := by
  unfold round
  split
  · rw [getElem?_append_left (by simpa), getElem?_replicate, if_pos (by assumption)]
  · rw [getElem?_append_right (by rw [length_replicate]; omega), length_replicate, getElem?_replicate, if_pos (by omega)]

/-- The word in front of step `j` of a round. -/
def wordAt (n j : Nat) : Int := if j < n then j else 2 * n - j - 0x8000

structure InRound (s : State τ) (k j : Nat) : Prop where
  pos : 0 < s.ctrl.count
  small : s.ctrl.count ≤ 32767
  inside : j < 2 * s.ctrl.count
  value : s.ctrl.value = wordAt s.ctrl.count j
  log : s.log = (replicate k (round s.ctrl.count)).flatten ++ (round s.ctrl.count).take j

theorem s16_of_lt {v : Int} (hlo : -0x8000 ≤ v) (hhi : v < 0x8000) : s16 v = v := by
  unfold s16
  omega

theorem Ctrl.tryNotify_eq {v : Int} {n : Nat} (hlo : 0 ≤ v) (hhi : v < 0x7fff) :
    tryNotify ⟨v, n⟩ = some ⟨if v + 1 = n then v + 1 - 0x8000 else v + 1, n⟩ := by
  simp only [tryNotify, s16_of_lt (v := v + 1) (by omega) (by omega)]
  rw [if_neg (by omega)]

theorem Ctrl.tryWait_eq {v : Int} {n : Nat} (hlo : -0x8000 < v) (hhi : v < 0) :
    tryWait ⟨v, n⟩ = some ⟨if v - 1 = -0x8000 then 0 else v - 1, n⟩ := by
  simp only [tryWait, s16_of_lt (v := v - 1) (by omega) (by omega)]
  rw [if_neg (by omega)]

theorem Ctrl.attempt_eq {n j : Nat} {ctrl : Ctrl} (hn : n ≤ 32767) (hj : j < 2 * n)
    (h : Ctrl.attempt ⟨wordAt n j, n⟩ c = some ctrl) :
    (round n)[j]? = some c ∧ ctrl = ⟨if j + 1 = 2 * n then 0 else wordAt n (j + 1), n⟩ := by
  rw [round_getElem? hj]
  by_cases hlt : j < n
  · rw [wordAt, if_pos hlt] at h
    rw [if_pos hlt, if_neg (by omega)]
    cases c with
    | notify =>
      rw [attempt, tryNotify_eq (by omega) (by omega)] at h
      cases h
      refine ⟨rfl, ?_⟩
      rw [wordAt, Ctrl.mk.injEq]
      refine ⟨?_, rfl⟩
      split <;> split <;> omega
    | wait => cases h
  · rw [wordAt, if_neg hlt] at h
    rw [if_neg hlt]
    cases c with
    | notify =>
      rw [attempt, tryNotify] at h
      split at h
      · cases h
      next hneg =>
        simp only at hneg
        omega
    | wait =>
      rw [attempt, tryWait_eq (by omega) (by omega)] at h
      cases h
      refine ⟨rfl, ?_⟩
      rw [wordAt, if_neg (by omega : ¬ j + 1 < n), Ctrl.mk.injEq]
      refine ⟨?_, rfl⟩
      split <;> split <;> omega

theorem InRound.attempt {k j : Nat} (h : InRound s k j) (t : τ) (c : Call) : ∃ k j, InRound (s.attempt t c) k j := by
  have ⟨hpos, hsmall, hin, hval, hlog⟩ := h
  unfold State.attempt
  split
  · exact ⟨k, j, h⟩
  rename_i ctrl hctrl
  have hs : s.ctrl = ⟨wordAt s.ctrl.count j, s.ctrl.count⟩ := by rw [← hval]
  rw [hs] at hctrl
  have ⟨hget, hnew⟩ := Ctrl.attempt_eq hsmall hin hctrl
  have htake : (round s.ctrl.count).take j ++ [c] = (round s.ctrl.count).take (j + 1) := by
    rw [take_add_one, hget, Option.toList_some]
  subst hnew
  by_cases hlast : j + 1 = 2 * s.ctrl.count
  · -- the round is complete
    refine ⟨k + 1, 0, hpos, hsmall, Nat.mul_pos Nat.two_pos hpos, by simp [hlast, wordAt, hpos], ?_⟩
    have hall : (round s.ctrl.count).take (j + 1) = round s.ctrl.count :=
      take_of_length_le (by simp only [round, length_append, length_replicate]; omega)
    simp only [hlog, append_assoc, htake, hall, replicate_succ', flatten_append, flatten_singleton, take_zero, append_nil]
  · refine ⟨k, j + 1, hpos, hsmall, ?_, by simp [hlast], ?_⟩
    · show j + 1 < 2 * s.ctrl.count
      omega
    · simp only [hlog, append_assoc, htake]

theorem InRound.step {k j : Nat} (h : InRound s k j) (he : step s e = some s') : ∃ k j, InRound s' k j := by
  have hpc : ∀ pc : τ → Option Call, InRound { s with pc := pc } k j := fun _ => { h with }
  cases e with
  | call | stop =>
    rw [SyncBarrier.step] at he
    split at he <;> cases he
    exact ⟨k, j, hpc _⟩
  | spin t =>
    have ⟨c, _, hc⟩ := Option.map_eq_some_iff.mp he
    exact hc ▸ h.attempt t c
  | tryCall t c =>
    rw [SyncBarrier.step] at he
    split at he <;> cases he
    exact h.attempt t c

theorem barrier_rounds (hs : (system τ).Reachable s) : ∃ k j, j < 2 * s.ctrl.count ∧
    s.log = (replicate k (round s.ctrl.count)).flatten ++ (round s.ctrl.count).take j := by
  have ⟨k, j, h⟩ : ∃ k j, InRound s k j := by
    refine hs.invariant (P := fun s => ∃ k j, InRound s k j) ?_ fun s e s' ⟨k, j, h⟩ he => h.step he
    rintro s ⟨total, ctrl, hinit, rfl⟩
    unfold cellSyncBarrierInitialize at hinit
    split at hinit <;> cases hinit
    have hpos : 0 < total := by omega
    exact ⟨0, 0, hpos, by show total ≤ 32767; omega, by show 0 < 2 * total; omega, by simp [wordAt, hpos], rfl⟩
  exact ⟨k, j, h.inside, h.log⟩

theorem barrier_rounds_two : ∃ s : State Nat, s.log = [.notify, .notify, .wait] ∧ ∃ k j, j < 2 * s.ctrl.count ∧
      s.log = (replicate k (round s.ctrl.count)).flatten ++ (round s.ctrl.count).take j := by
  have ⟨s, hs, hp⟩ := System.Reachable.exists_of_run (M := system Nat) ⟨2, _, rfl, rfl⟩
    [.call 0 .wait, .tryCall 1 .notify, .spin 0, .tryCall 2 .notify, .tryCall 1 .notify, .spin 0]
    (fun s => s.log = [.notify, .notify, .wait]) (by decide +kernel)
  exact ⟨s, hp, barrier_rounds hs⟩

end Armsx3.Cell.SyncBarrier
