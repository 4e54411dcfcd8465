import Armsx3.Library.Transition
import Armsx3.Lv2.Sync

/-!
# Rwlock — `sys_rwlock_*` over `lv2_rwlock`

The owner word is `0` when the lock is free, `-2 n` for `n` readers and `id << 1` for a writer; its
lowest bit is set while threads wait.  A step of the model is one access to shared state.  The word
is an `s64`; the model takes it as an integer, so a run with `2^62` readers is outside.
-/

namespace Armsx3.Lv2.Rwlock

open Transition Function

/-! ## The owner word -/

def setWait (val : Int) : Int := val + (1 - val % 2)

def clearWait (val : Int) : Int := val - val % 2

def writerWord (t : Tid) : Int := 2 * t.id

/-- The test of the readers' fast paths: `val <= 0 && !(val & 1)` -/
def readable (val : Int) : Bool := decide (val ≤ 0) && decide (val % 2 = 0)

inductive Pc
  | idle
  | rlockLoad (timed : Bool)
  | rlockCas (timed : Bool) (val : Int)
  | rlockLock (timed : Bool)
  | rSleeping (timed : Bool)
  | rTimedOut
  | rTimedOutEmpty
  | rTimedOutLock
  | runlockLoad
  | runlockCas (val : Int)
  | runlockLock
  | wlockLoad (timed : Bool)
  | wlockCas (timed : Bool)
  | wlockLock (timed : Bool)
  | wSleeping (timed : Bool)
  | wTimedOut
  | trywlockLoad
  | trywlockCas
  | wunlockLoad
  | wunlockCas
  | wunlockLock
  deriving DecidableEq

inductive Crit
  | rlockFetch (timed : Bool)
  | rlockEmplace (timed : Bool)
  | rUnqueue
  | runlockFetch
  | runlockSchedule
  | runlockStore (u : Tid)
  | wlockFetch (timed : Bool)
  | wlockEmplace (timed : Bool) (old : Int)
  | wUnqueue
  | wTimeout
  | wTimeoutReaders (size : Nat) (appended : List Tid)
  | wTimeoutAwake (appended : List Tid)
  | wunlockSchedule
  | wunlockStore (u : Tid)
  | wunlockReaders (size : Nat) (appended : List Tid)
  | awakeAll (appended : List Tid)
  deriving DecidableEq

/-- The object, its threads and the history: the read locks returned to the guest and those released, the writers that
hold the lock, and the readers and the writer it was given to whose calls did not return yet. -/
structure State where
  owner : Int
  rq : List Tid
  wq : List Tid
  mutex : Option (Tid × Crit)
  sched : Sched
  pc : Tid → Pc
  gpr3 : Tid → CellError
  failed : Bool
  acquired : List Tid
  released : List Tid
  writing : Tid → Bool
  rhanded : List Tid
  whanded : List Tid

inductive Event
  | rlock (t : Tid) (timed : Bool)
  | tryrlock (t : Tid)
  | runlock (t : Tid)
  | wlock (t : Tid) (timed : Bool)
  | trywlock (t : Tid)
  | wunlock (t : Tid)
  | timeout (t : Tid)
  | run (t : Tid)

namespace State

variable (s : State)

def goto (t : Tid) (p : Pc) : State := { s with pc := update s.pc t p }

def ret (t : Tid) (e : CellError) : State :=
  { s with pc := update s.pc t .idle, gpr3 := update s.gpr3 t e }

def retRead (t : Tid) : State := { s with acquired := t :: s.acquired }.ret t .ok

def retWrite (t : Tid) : State := { s with writing := update s.writing t true }.ret t .ok

/-- The word stored for a writer that was taken out of the queue:
`cpu->id << 1 | !!rwlock->wq | !!rwlock->rq` -/
def handWord (u : Tid) : Int :=
  if s.wq = [] ∧ s.rq = [] then writerWord u else setWait (writerWord u)

end State

def trywlockRet (s : State) (t : Tid) (val : Int) : State :=
  if val / 2 = t.id then s.ret t .edeadlk else s.ret t .ebusy

def wunlockRet (s : State) (t : Tid) (val : Int) : State :=
  if val / 2 ≠ t.id then s.ret t .eperm
  else if val % 2 = 1 then s.goto t .wunlockLock
  else s.ret t .ok

def runFree (s : State) (t : Tid) : Option State :=
  match s.pc t with
  | .idle => none
  | .rlockLoad timed =>
    some (s.goto t (if readable s.owner then .rlockCas timed s.owner else .rlockLock timed))
  | .rlockCas timed val =>
    if s.owner = val then some ({ s with owner := val - 2 }.retRead t)
    else some (s.goto t (.rlockLock timed))
  | .rlockLock timed =>
    if s.mutex = none then some { s with mutex := some (t, .rlockFetch timed) } else none
  | .rSleeping _ =>
    if s.sched.signal t then
      some ({ s with sched := s.sched.resetSignal t, rhanded := s.rhanded.erase t }.retRead t)
    else none
  | .rTimedOut => some (s.goto t (if s.rq = [] then .rTimedOutEmpty else .rTimedOutLock))
  | .rTimedOutEmpty =>
    -- `rwlock->mutex.lock_unlock()`
    if s.mutex = none then some ({ s with rhanded := s.rhanded.erase t }.retRead t) else none
  | .rTimedOutLock => if s.mutex = none then some { s with mutex := some (t, .rUnqueue) } else none
  | .runlockLoad =>
    some (s.goto t (if s.owner < 0 ∧ s.owner % 2 = 0 then .runlockCas s.owner else .runlockLock))
  | .runlockCas val =>
    if s.owner = val then
      some ({ s with owner := val + 2, released := t :: s.released }.ret t .ok)
    else some (s.goto t .runlockLock)
  | .runlockLock => if s.mutex = none then some { s with mutex := some (t, .runlockFetch) } else none
  | .wlockLoad timed =>
    if s.owner = 0 then some (s.goto t (.wlockCas timed))
    else if s.owner / 2 = t.id then some (s.ret t .edeadlk)
    else some (s.goto t (.wlockLock timed))
  | .wlockCas timed =>
    if s.owner = 0 then some ({ s with owner := writerWord t }.retWrite t)
    else some (s.goto t (.wlockLock timed))
  | .wlockLock timed =>
    if s.mutex = none then some { s with mutex := some (t, .wlockFetch timed) } else none
  | .wSleeping _ =>
    if s.sched.signal t then
      some ({ s with sched := s.sched.resetSignal t, whanded := s.whanded.erase t }.retWrite t)
    else none
  | .wTimedOut => if s.mutex = none then some { s with mutex := some (t, .wUnqueue) } else none
  | .trywlockLoad =>
    if s.owner = 0 then some (s.goto t .trywlockCas) else some (trywlockRet s t s.owner)
  | .trywlockCas =>
    if s.owner = 0 then some ({ s with owner := writerWord t }.retWrite t)
    else some (trywlockRet s t s.owner)
  | .wunlockLoad =>
    if s.owner = writerWord t then some (s.goto t .wunlockCas)
    else some (wunlockRet s t s.owner)
  | .wunlockCas =>
    if s.owner = writerWord t then
      some (wunlockRet { s with owner := 0, writing := update s.writing t false } t s.owner)
    else some (wunlockRet s t s.owner)
  | .wunlockLock =>
    if s.mutex = none then some { s with mutex := some (t, .wunlockSchedule) } else none

def runCrit (protocol : Protocol) (s : State) (t : Tid) : Crit → State
  | .rlockFetch timed =>
    if readable s.owner then { s with owner := s.owner - 2, mutex := none }.retRead t
    else { s with owner := setWait s.owner, mutex := some (t, .rlockEmplace timed) }
  | .rlockEmplace timed =>
    { s with rq := t :: s.rq, sched := (s.sched.sleep t).enqueued t, mutex := none }.goto t
      (.rSleeping timed)
  | .rUnqueue =>
    match unqueue s.rq t with
    | none => { s with rhanded := s.rhanded.erase t, mutex := none }.retRead t
    | some rq => { s with rq := rq, mutex := none }.ret t .etimedout
  | .runlockFetch =>
    if s.owner < -1 then
      { s with owner := s.owner + 2, released := t :: s.released, mutex := none }.ret t .ok
    else if 0 ≤ s.owner then { s with mutex := none }.ret t .eperm
    else { s with mutex := some (t, .runlockSchedule) }
  | .runlockSchedule =>
    match schedule protocol s.sched.prio s.wq with
    | some (u, wq) =>
      { s with wq := wq, whanded := u :: s.whanded, mutex := some (t, .runlockStore u) }
    | none =>
      -- `ensure(!rwlock->rq)`
      { s with owner := 0, released := t :: s.released, mutex := none
               failed := s.failed || !s.rq.isEmpty }.ret t .ok
  | .runlockStore u =>
    { s with owner := s.handWord u, released := t :: s.released, mutex := some (t, .awakeAll [u]) }
  | .wlockFetch timed =>
    if s.owner = 0 then { s with owner := writerWord t, mutex := none }.retWrite t
    else { s with owner := setWait s.owner, mutex := some (t, .wlockEmplace timed s.owner) }
  | .wlockEmplace timed old =>
    let s' := { s with wq := t :: s.wq, sched := (s.sched.sleep t).enqueued t, mutex := none }
    -- the call returns `CELL_EDEADLK` here although the thread is linked
    if old / 2 = t.id then s'.ret t .edeadlk else s'.goto t (.wSleeping timed)
  | .wUnqueue =>
    match unqueue s.wq t with
    | none => { s with whanded := s.whanded.erase t, mutex := none }.retWrite t
    | some wq => { s with wq := wq, mutex := some (t, .wTimeout) }
  | .wTimeout =>
    if s.rq ≠ [] ∧ s.wq = [] ∧ s.owner < 0 then
      { s with mutex := some (t, .wTimeoutReaders 0 []) }
    else if s.rq = [] ∧ s.wq = [] then
      { s with owner := clearWait s.owner, mutex := none }.ret t .etimedout
    else { s with mutex := none }.ret t .etimedout
  | .wTimeoutReaders size appended =>
    match schedule .fifo s.sched.prio s.rq with
    | some (u, rq) =>
      { s with rq := rq, rhanded := u :: s.rhanded
               mutex := some (t, .wTimeoutReaders (size + 1) (u :: appended)) }
    | none =>
      { s with owner := clearWait (s.owner - 2 * size), mutex := some (t, .wTimeoutAwake appended) }
  | .wTimeoutAwake appended =>
    { s with sched := s.sched.awakeAll appended, mutex := none }.ret t .etimedout
  | .wunlockSchedule =>
    match schedule protocol s.sched.prio s.wq with
    | some (u, wq) =>
      { s with wq := wq, whanded := u :: s.whanded, mutex := some (t, .wunlockStore u) }
    | none =>
      if s.rq ≠ [] then { s with mutex := some (t, .wunlockReaders 0 []) }
      else
        { s with owner := 0, writing := update s.writing t false
                 mutex := none }.ret t .ok
  | .wunlockStore u =>
    { s with owner := s.handWord u, writing := update s.writing t false
             mutex := some (t, .awakeAll [u]) }
  | .wunlockReaders size appended =>
    match schedule .fifo s.sched.prio s.rq with
    | some (u, rq) =>
      { s with rq := rq, rhanded := u :: s.rhanded
               mutex := some (t, .wunlockReaders (size + 1) (u :: appended)) }
    | none =>
      { s with owner := -2 * size, writing := update s.writing t false
               mutex := some (t, .awakeAll appended) }
  | .awakeAll appended => { s with sched := s.sched.awakeAll appended, mutex := none }.ret t .ok

def step (protocol : Protocol) (s : State) : Event → Option State
  | .rlock t timed => if s.pc t = .idle then some (s.goto t (.rlockLoad timed)) else none
  | .tryrlock t =>
    if s.pc t = .idle then
      if readable s.owner then some ({ s with owner := s.owner - 2 }.retRead t)
      else some (s.ret t .ebusy)
    else none
  | .runlock t => if s.pc t = .idle then some (s.goto t .runlockLoad) else none
  | .wlock t timed => if s.pc t = .idle then some (s.goto t (.wlockLoad timed)) else none
  | .trywlock t => if s.pc t = .idle then some (s.goto t .trywlockLoad) else none
  | .wunlock t => if s.pc t = .idle then some (s.goto t .wunlockLoad) else none
  | .timeout t =>
    if s.pc t = .rSleeping true then
      some ({ s with sched := s.sched.checkState t }.goto t .rTimedOut)
    else if s.pc t = .wSleeping true then
      some ({ s with sched := s.sched.checkState t }.goto t .wTimedOut)
    else none
  | .run t =>
    match s.mutex with
    | some (h, crit) => if h = t then some (runCrit protocol s t crit) else runFree s t
    | none => runFree s t

def Initial (s : State) : Prop :=
  s.owner = 0 ∧ s.rq = [] ∧ s.wq = [] ∧ s.mutex = none ∧ (∀ t, s.sched.asleep t = false) ∧
    (∀ t, s.sched.signal t = false) ∧ (∀ t, s.pc t = .idle) ∧ s.failed = false ∧
    s.acquired = [] ∧ s.released = [] ∧ (∀ t, s.writing t = false) ∧ s.rhanded = [] ∧ s.whanded = []

def State.created : State :=
  ⟨0, [], [], none, .running, fun _ => .idle, fun _ => .ok, false, [], [], fun _ => false, [], []⟩

theorem initial_created : Initial .created :=
  ⟨rfl, rfl, rfl, rfl, fun _ => rfl, fun _ => rfl, fun _ => rfl, rfl, rfl, rfl, fun _ => rfl, rfl, rfl⟩

def system (protocol : Protocol) : System State Event where
  init := Initial
  step := step protocol

end Armsx3.Lv2.Rwlock
