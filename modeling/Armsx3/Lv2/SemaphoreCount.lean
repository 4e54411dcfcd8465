import Armsx3.Lv2.Semaphore
import Armsx3.Lv2.Waiters

/-!
# The counter of a semaphore counts its waiters

`lv2_sema::val` is `-n` while `n` threads are queued.  Inside a critical section the two differ:
a waiter has paid with `val--` before it is linked, and `post` has raised `val` before it unlinks
the threads it wakes.  `entering` and `leaving` are these differences.
-/

namespace Armsx3.Lv2.Semaphore

open Transition Function Holder List

/-- Waiters the counter has been lowered for that are not in the queue. -/
def entering : Option (Tid × Crit) → Int
  | some (_, .waitEmplace _) => 1
  | some (_, .timeoutRestore) => 1
  | _ => 0

/-- Waiters the counter has been raised for that still are in the queue. -/
def leaving : Option (Tid × Crit) → Int
  | some (_, .postSchedule left _) => left
  | _ => 0

def appended : Option (Tid × Crit) → List Tid
  | some (_, .postSchedule _ ws) => ws
  | _ => []

def Pc.sleeps : Pc → Prop
  | .sleeping _ => True
  | _ => False

def Pc.waits : Pc → Prop
  | .sleeping _ | .timedOut => True
  | _ => False

def waits (s : State) (t : Tid) : Prop := (s.pc t).waits ∧ s.mutex ≠ some (t, .timeoutRestore)

def sleeps (s : State) (t : Tid) : Prop := (s.pc t).sleeps

def PcOk (c : Sema) : Pc → Prop
  | .waitCas _ val => 0 < val
  | .postLoad count => count < 2 ^ 31
  | .postCas count val => 0 < count ∧ count < 2 ^ 31 ∧ 0 ≤ val ∧ count ≤ c.max - val
  | .postLock count => 0 < count ∧ count < 2 ^ 31
  | _ => True

def CritOk : Crit → Pc → Prop
  | .waitDec timed, p => p = .waitLock timed
  | .waitEmplace timed, p => p = .waitLock timed
  | .timeoutUnqueue, p => p = .timedOut
  | .timeoutRestore, p => p = .timedOut
  | .postAdd count, p => p = .postLock count
  | .postSchedule _ _, p => ∃ count, p = .postLock count

structure Inv (c : Sema) (s : State) : Prop where
  waiters : Waiters s.sq s.handed (appended s.mutex) s.sched (sleeps s) (waits s)
  pc_ok : ∀ t, PcOk c (s.pc t)
  crit_ok : ∀ t k, s.mutex = some (t, k) → CritOk k (s.pc t)
  count : (s.sq.length : Int) + entering s.mutex = max (-s.val) 0 + leaving s.mutex
  account : c.initial + s.posted = s.acquired + s.handed.length + max s.val 0 + leaving s.mutex
  val_le : s.val ≤ c.max
  failed : s.failed = false

/-! ## Frame lemmas -/

theorem Pc.waits_of_sleeps {p : Pc} (h : p.sleeps) : p.waits := by
  cases p <;> first | exact h.elim | trivial

variable {s s' : State} {t : Tid} {p q : Pc}

theorem waiters_outside {queue released app : List Tid}
    {sched : Sched} (h : Waiters queue released app sched (sleeps s) (waits s))
    (hupd : s'.pc = update s.pc t p) (hpc : s.pc t = q) (hold : ¬ q.waits) (hnew : ¬ p.waits)
    (hrestore : ∀ u, s'.mutex = some (u, .timeoutRestore) ↔ s.mutex = some (u, .timeoutRestore)) :
    Waiters queue released app sched (sleeps s') (waits s') := by
  subst hpc
  apply h.congr
  · intro u
    unfold sleeps
    rw [hupd]
    exact update_iff (fun hs => hold (Pc.waits_of_sleeps hs)) (fun hs => hnew (Pc.waits_of_sleeps hs)) u
  · intro u
    unfold waits
    rw [hupd, update_iff hold hnew, ne_eq, hrestore u]

theorem waits_congr (hpc : s'.pc = s.pc) (h : ∀ u, s.mutex ≠ some (u, .timeoutRestore))
    (h' : ∀ u, s'.mutex ≠ some (u, .timeoutRestore)) (u : Tid) : waits s' u ↔ waits s u := by
  unfold waits
  rw [hpc]
  exact and_congr_right fun _ => iff_of_true (h' u) (h u)

theorem waits_idle (hupd : s'.pc = update s.pc t .idle) (hrestore : ∀ u, u ≠ t →
    (s'.mutex = some (u, .timeoutRestore) ↔ s.mutex = some (u, .timeoutRestore))) (u : Tid) :
    waits s' u ↔ waits s u ∧ u ≠ t := by
  unfold waits
  rw [hupd, update_iff_and (show ¬ Pc.idle.waits from id), and_right_comm]
  exact and_congr_left fun hut => and_congr_right fun _ => not_congr (hrestore u hut)

variable {c : Sema} {s : State}

theorem Inv.crit_update (h : Inv c s) (hfree : ∀ k, s.mutex ≠ some (t, k)) (p : Pc) :
    ∀ u k, s.mutex = some (u, k) → CritOk k (update s.pc t p u) :=
  moved h.crit_ok hfree p

variable {timed : Bool}

theorem Inv.free_of_sleeping (h : Inv c s) (hpc : s.pc t = .sleeping timed) : ∀ k, s.mutex ≠ some (t, k) :=
  outside h.crit_ok hpc fun k hk => by cases k <;> simp [CritOk] at hk

theorem Inv.outside (h : Inv c s) {g : Tid → CellError} {w : Tid → Int} {v po ac : Int}
    (hfree : ∀ k, s.mutex ≠ some (t, k)) (hpc : s.pc t = q) (hold : ¬ q.waits) (hnew : ¬ p.waits)
    (hp : PcOk c p) (hcount : max (-v) 0 = max (-s.val) 0)
    (haccount : po - ac - max v 0 = s.posted - s.acquired - max s.val 0) (hle : v ≤ c.max) :
    Inv c { s with pc := update s.pc t p, gpr3 := g, value := w, val := v, posted := po
                   acquired := ac } where
  waiters := waiters_outside h.waiters rfl hpc hold hnew fun _ => Iff.rfl
  pc_ok := forall_update h.pc_ok hp
  crit_ok := h.crit_update hfree p
  count := by
    have := h.count
    simp only at *
    omega
  account := by
    have := h.account
    simp only at *
    omega
  val_le := hle
  failed := h.failed

variable {k : Crit}

theorem Inv.unlock (h : Inv c s) {g : Tid → CellError} {v ac : Int} (hm : s.mutex = some (t, k))
    (hpc : s.pc t = q) (hold : ¬ q.waits) (hnew : ¬ p.waits) (hp : PcOk c p)
    (happ : appended s.mutex = []) (hcount : s.sq.length = max (-v) 0)
    (haccount : c.initial + s.posted = ac + s.handed.length + max v 0) (hle : v ≤ c.max) :
    Inv c { s with pc := update s.pc t p, gpr3 := g, val := v, acquired := ac
                   mutex := none } where
  waiters := by
    have hw := h.waiters
    rw [happ] at hw
    refine waiters_outside hw rfl hpc hold hnew fun u => ⟨nofun, fun hu => ?_⟩
    -- the thread of `timeoutRestore` waits
    rw [hm] at hu
    cases hu
    have hq := hpc.symm.trans (h.crit_ok t _ hm)
    rw [hq] at hold
    exact absurd trivial hold
  pc_ok := forall_update h.pc_ok hp
  crit_ok := Holder.left
  count := by
    simp only [entering, leaving]
    omega
  account := by
    simp only [leaving]
    omega
  val_le := hle
  failed := h.failed

theorem Inv.lock (h : Inv c s) (hm : s.mutex = none) (hk : CritOk k (s.pc t)) (hrestore : k ≠ .timeoutRestore)
    (happ : appended (some (t, k)) = []) (hent : entering (some (t, k)) = 0)
    (hlea : leaving (some (t, k)) = 0) : Inv c { s with mutex := some (t, k) } where
  waiters := by
    have hw := h.waiters
    rw [hm] at hw
    rw [happ]
    refine hw.congr (fun u => Iff.rfl) (waits_congr rfl (hm ▸ nofun) fun u hu => hrestore ?_)
    cases hu
    rfl
  __ := h
  crit_ok := entered hk
  count := by
    have := h.count
    rw [hm] at this
    rw [hent, hlea]
    exact this
  account := by
    have := h.account
    rw [hm] at this
    rw [hlea]
    exact this

/-! ## The wait loop -/

theorem inv_wake (h : Inv c s) (hpc : s.pc t = .sleeping timed) (hsig : s.sched.signal t = true) :
    Inv c ({ s with sched := s.sched.resetSignal t, acquired := s.acquired + 1
                    handed := s.handed.erase t }.ret t .ok) where
  waiters := h.waiters.wake hsig (update_iff_and id) (waits_idle rfl fun _ _ => Iff.rfl)
  pc_ok := forall_update h.pc_ok trivial
  crit_ok := h.crit_update (h.free_of_sleeping hpc) .idle
  __ := h
  account := by
    have hmem := (h.waiters.signal t hsig).1
    have hlen := length_erase_add_one hmem
    have := h.account
    simp only [State.ret] at *
    omega

theorem inv_timeout (h : Inv c s) (hpc : s.pc t = .sleeping timed) :
    Inv c ({ s with sched := s.sched.checkState t }.goto t .timedOut) where
  waiters := by
    refine (h.waiters.timeout (update_iff_and (P := Pc.sleeps) id)).congr (fun u => Iff.rfl) fun u => ?_
    simp only [waits, State.goto, update_apply]
    split <;> simp_all [Pc.waits]
  pc_ok := forall_update h.pc_ok trivial
  crit_ok := h.crit_update (h.free_of_sleeping hpc) .timedOut
  __ := h

/-! ## The critical sections -/

section Critical

variable {c : Sema} {s : State} (h : Inv c s) {t : Tid}
include h

/-- What the invariant says while the mutex is held. -/
theorem Inv.crit {k : Crit} (hm : s.mutex = some (t, k)) : CritOk k (s.pc t) ∧
    Waiters s.sq s.handed (appended (some (t, k))) s.sched (sleeps s) (waits s) ∧
    (s.sq.length : Int) + entering (some (t, k)) = max (-s.val) 0 + leaving (some (t, k)) ∧
    c.initial + s.posted = s.acquired + s.handed.length + max s.val 0 + leaving (some (t, k)) := by
  rw [← hm]
  exact ⟨h.crit_ok t k hm, h.waiters, h.count, h.account⟩

theorem inv_waitDec (hm : s.mutex = some (t, .waitDec timed)) : Inv c (runCrit c s t (.waitDec timed)) := by
  have hle := h.val_le
  have ⟨hpc, hw, hcount, haccount⟩ := h.crit hm
  simp only [entering, leaving] at hcount haccount
  rw [runCrit]
  split
  · refine ⟨?_, h.pc_ok, ?_, ?_, ?_, ?_, h.failed⟩
    · exact hw.congr (fun u => Iff.rfl) (waits_congr rfl (hm ▸ nofun) nofun)
    · exact entered hpc
    all_goals simp only [entering, leaving]; omega
  · refine h.unlock hm hpc id id trivial (by rw [hm]; rfl) ?_ ?_ ?_
    all_goals simp only; omega

theorem inv_waitEmplace (hm : s.mutex = some (t, .waitEmplace timed)) : Inv c (runCrit c s t (.waitEmplace timed)) := by
  have ⟨hpc, hw, hcount, haccount⟩ := h.crit hm
  simp only [CritOk] at hpc
  simp only [entering, leaving] at hcount haccount
  rw [runCrit]
  refine ⟨?_, forall_update h.pc_ok trivial, ?_, ?_, ?_, h.val_le, h.failed⟩
  · refine hw.emplace (by simp only [waits, hpc, Pc.waits, false_and, not_false_eq_true]) ?_ ?_
    · exact update_iff_or trivial
    · intro u
      simp only [waits, State.goto, update_apply]
      split <;> simp_all [Pc.waits]
  · exact Holder.left
  · simp only [State.goto, entering, leaving, length_cons]
    omega
  · exact haccount

theorem inv_timeoutUnqueue (hm : s.mutex = some (t, .timeoutUnqueue)) : Inv c (runCrit c s t .timeoutUnqueue) := by
  have ⟨hpc, hw, hcount, haccount⟩ := h.crit hm
  simp only [CritOk] at hpc
  simp only [entering, leaving] at hcount haccount
  have hwaits : waits s t := by
    simp only [waits, hpc, hm, Pc.waits, true_and, ne_eq, Option.some.injEq, Prod.mk.injEq,
      reduceCtorEq, and_false, not_false_eq_true]
  have hsleeps : ¬ sleeps s t := by simp only [sleeps, hpc, Pc.sleeps, not_false_eq_true]
  rw [runCrit]
  split
  · -- a post has taken the thread out of the queue before it got the mutex
    rename_i hnone
    have hmem : t ∈ s.handed := by
      rcases hw.queue_or_released hwaits with hq | hr
      · exact absurd hq.1 (unqueue_eq_none.mp hnone)
      · exact hr.2
    have hlen := length_erase_add_one hmem
    refine ⟨?_, forall_update h.pc_ok trivial, ?_, ?_, ?_, h.val_le, h.failed⟩
    · refine (hw.leave hmem hsleeps (waits_idle rfl fun u hut => ?_)).congr (update_iff hsleeps id)
        fun u => Iff.rfl
      exact iff_of_false nofun (hm ▸ nofun)
    · exact Holder.left
    · exact hcount
    · simp only [State.ret, leaving]
      omega
  next sq hsome =>
    have hperm := unqueue_perm hsome
    have hlen := hperm.length_eq
    rw [length_cons] at hlen
    refine ⟨?_, h.pc_ok, ?_, ?_, haccount, h.val_le, h.failed⟩
    · refine hw.cancel hperm hsleeps fun u => ?_
      simp only [waits, hm, ne_eq, Option.some.injEq, Prod.mk.injEq, and_true, reduceCtorEq,
        and_false, not_false_eq_true]
      rw [eq_comm]
    · exact entered hpc
    · simp only [entering, leaving]
      omega

theorem inv_timeoutRestore (hm : s.mutex = some (t, .timeoutRestore)) : Inv c (runCrit c s t .timeoutRestore) := by
  have ⟨hpc, hw, hcount, haccount⟩ := h.crit hm
  simp only [CritOk] at hpc
  simp only [entering, leaving] at hcount haccount
  -- the thread itself is one the counter was lowered for
  have hneg : s.val < 0 := by omega
  simp only [runCrit, if_pos hneg]
  refine ⟨?_, forall_update h.pc_ok trivial, ?_, ?_, ?_, ?_, ?_⟩
  · refine hw.congr (fun u => ?_) fun u => ?_
    · simp only [sleeps, State.ret, update_apply]
      split <;> simp_all [Pc.sleeps]
    · simp only [waits, State.ret, update_apply]
      split <;> simp_all [Pc.waits, eq_comm]
  · exact Holder.left
  · simp only [State.ret, entering, leaving]
    omega
  · simp only [State.ret, leaving]
    omega
  · have hmax := c.max_pos
    simp only [State.ret]
    omega
  · simp only [State.ret, h.failed, hneg, decide_true, Bool.not_true, Bool.or_self]

/-- There are fewer than `2^31` threads, so the unsigned test of `post` compares `count` with
`max - val` itself. -/
theorem postAdd_fits {count : Int} (hm : s.mutex = some (t, .postAdd count)) :
    count % 2 ^ 32 ≤ (c.max - s.val) % 2 ^ 32 ↔ count ≤ c.max - s.val := by
  have hcount := h.count
  have hle := h.val_le
  have hmax := c.max_lt
  have hlen := Tid.length_lt (nodup_append.mp h.waiters.nodup).1
  have hpc := h.crit_ok t _ hm
  have hrange := h.pc_ok t
  simp only [CritOk] at hpc
  simp only [hpc, PcOk] at hrange
  simp only [hm, entering, leaving] at hcount
  rw [Int.emod_eq_of_lt (by omega) (by omega), Int.emod_eq_of_lt (by omega) (by omega)]

theorem inv_postAdd {count : Int} (hm : s.mutex = some (t, .postAdd count)) :
    Inv c (runCrit c s t (.postAdd count)) := by
  have hfits := postAdd_fits h hm
  have ⟨hpc, hw, hcount, haccount⟩ := h.crit hm
  have hrange := h.pc_ok t
  simp only [CritOk] at hpc
  simp only [hpc, PcOk] at hrange
  simp only [entering, leaving] at hcount haccount
  rw [runCrit]
  split
  · refine ⟨?_, h.pc_ok, ?_, ?_, ?_, ?_, h.failed⟩
    · exact hw.congr (fun u => Iff.rfl) (waits_congr rfl (hm ▸ nofun) nofun)
    · exact entered ⟨count, hpc⟩
    all_goals simp only [entering, leaving]; omega
  · refine h.unlock hm hpc id id trivial (by rw [hm]; rfl) ?_ ?_ h.val_le
    all_goals simp only; omega

theorem inv_postSchedule_zero {app : List Tid} (hm : s.mutex = some (t, .postSchedule 0 app)) :
    Inv c (runCrit c s t (.postSchedule 0 app)) := by
  have ⟨⟨count, hpc⟩, hw, hcount, haccount⟩ := h.crit hm
  simp only [entering, leaving] at hcount haccount
  refine ⟨?_, forall_update h.pc_ok trivial, ?_, hcount, haccount, h.val_le, h.failed⟩
  · exact waiters_outside hw.awakeAll rfl hpc id id fun u => iff_of_false nofun (hm ▸ nofun)
  · exact Holder.left

theorem inv_postSchedule_succ {left : Nat} {app : List Tid} (hm : s.mutex = some (t, .postSchedule (left + 1) app)) :
    Inv c (runCrit c s t (.postSchedule (left + 1) app)) := by
  have ⟨hpc, hw, hcount, haccount⟩ := h.crit hm
  simp only [entering, leaving] at hcount haccount
  rw [runCrit]
  split
  · -- `ensure(sem.schedule(...))`: the counter says that one more thread is queued
    rename_i hnone
    rw [schedule_eq_none] at hnone
    rw [hnone, length_nil] at hcount
    omega
  rename_i u sq hsome
  have hperm := schedule_perm hsome
  have hlen := hperm.length_eq
  rw [length_cons] at hlen
  refine ⟨?_, h.pc_ok, ?_, ?_, ?_, h.val_le, h.failed⟩
  · exact (hw.release hperm).congr (fun u => Iff.rfl) (waits_congr rfl (hm ▸ nofun) nofun)
  · exact entered hpc
  · simp only [entering, leaving]
    omega
  · simp only [leaving, length_cons]
    omega

theorem inv_runCrit (hm : s.mutex = some (t, k)) : Inv c (runCrit c s t k) := by
  cases k with
  | waitDec => exact inv_waitDec h hm
  | waitEmplace => exact inv_waitEmplace h hm
  | timeoutUnqueue => exact inv_timeoutUnqueue h hm
  | timeoutRestore => exact inv_timeoutRestore h hm
  | postAdd => exact inv_postAdd h hm
  | postSchedule left =>
    cases left with
    | zero => exact inv_postSchedule_zero h hm
    | succ => exact inv_postSchedule_succ h hm

end Critical

/-! ## Every step -/

theorem inv_runFree (h : Inv c s) (hfree : ∀ k, s.mutex ≠ some (t, k)) (hrun : runFree c s t = some s') : Inv c s' := by
  have hpcok := h.pc_ok t
  unfold runFree at hrun
  cases hpc : s.pc t with simp only [hpc, PcOk] at hrun hpcok
  | idle => cases hrun
  | waitLoad =>
    cases hrun
    refine h.outside hfree hpc id ?_ ?_ rfl rfl h.val_le
    · split <;> exact id
    · split
      · assumption
      · trivial
  | waitCas =>
    split at hrun <;> cases hrun
    · refine h.outside hfree hpc id id trivial ?_ ?_ ?_
      all_goals have := h.val_le; simp only; omega
    · exact h.outside hfree hpc id id trivial rfl rfl h.val_le
  | waitLock timed | timedOut | postLock count =>
    split at hrun <;> cases hrun
    rename_i hm
    exact h.lock hm hpc (by simp) rfl rfl rfl
  | sleeping =>
    split at hrun <;> cases hrun
    rename_i hsig
    exact inv_wake h hpc hsig
  | postLoad =>
    split at hrun
    next hfits =>
      cases hrun
      exact h.outside hfree hpc id id ⟨hfits.2.1, hpcok, hfits.1, hfits.2.2⟩ rfl rfl h.val_le
    · split at hrun <;> cases hrun
      · exact h.outside hfree hpc id id trivial rfl rfl h.val_le
      · exact h.outside hfree hpc id id ⟨by omega, hpcok⟩ rfl rfl h.val_le
  | postCas =>
    split at hrun <;> cases hrun
    · refine h.outside hfree hpc id id trivial ?_ ?_ ?_
      all_goals simp only; omega
    · exact h.outside hfree hpc id id ⟨hpcok.1, hpcok.2.1⟩ rfl rfl h.val_le

theorem inv_step {e : Event} (h : Inv c s) (hstep : step c s e = some s') : Inv c s' := by
  have hidle : ∀ t, s.pc t = .idle → ∀ k, s.mutex ≠ some (t, k) := by
    intro t hpc
    exact outside h.crit_ok hpc fun k hk => by cases k <;> simp [CritOk] at hk
  cases e with simp only [step] at hstep
  | wait t timed | getValue t =>
    split at hstep <;> cases hstep
    rename_i hpc
    exact h.outside (hidle t hpc) hpc id id trivial rfl rfl h.val_le
  | trywait t =>
    split at hstep
    next hpc =>
      split at hstep <;> cases hstep
      · refine h.outside (hidle t hpc) hpc id id trivial ?_ ?_ ?_
        all_goals have := h.val_le; simp only; omega
      · exact h.outside (hidle t hpc) hpc id id trivial rfl rfl h.val_le
    · cases hstep
  | post t count =>
    split at hstep <;> cases hstep
    rename_i hpc
    have hlt : count.toInt < 2 ^ 31 := BitVec.toInt_lt
    exact h.outside (hidle t hpc) hpc id id hlt rfl rfl h.val_le
  | timeout =>
    split at hstep <;> cases hstep
    rename_i hpc
    exact inv_timeout h hpc
  | run =>
    split at hstep
    next holder crit hm =>
      split at hstep
      next hht =>
        subst hht
        cases hstep
        exact inv_runCrit h hm
      next hne =>
        exact inv_runFree h (other hm hne) hstep
    next hm =>
      exact inv_runFree h (free hm) hstep

theorem inv_initial (h : Initial c s) : Inv c s := by
  have ⟨hval, hsq, hmutex, hasleep, hsignal, hpc, hfailed, hposted, hacquired, hhanded⟩ := h
  refine ⟨?_, fun t => ?_, fun t k ht => ?_, ?_, ?_, ?_, hfailed⟩
  · rw [hsq, hhanded, hmutex]
    exact .none_waits hasleep hsignal (fun t => by simp [sleeps, hpc, Pc.sleeps])
      fun t => by simp [waits, hpc, Pc.waits]
  · rw [hpc]; trivial
  · rw [hmutex] at ht; cases ht
  · have := c.initial_nonneg
    simp only [hsq, hval, hmutex, entering, leaving, length_nil]
    omega
  · have := c.initial_nonneg
    simp only [hhanded, hval, hposted, hacquired, hmutex, leaving, length_nil]
    omega
  · rw [hval]; exact c.initial_le

theorem inv_reachable (h : (system c).Reachable s) : Inv c s := h.invariant (fun _ => inv_initial) fun _ _ _ => inv_step

/-- The units that were acquired: by the calls that have returned with one, and by the threads a
post has selected, whose calls can only return with one. -/
def State.completed (s : State) : Int := s.acquired + s.handed.length

end Armsx3.Lv2.Semaphore
