import Armsx3.Library.Transition
import Armsx3.Lv2.Sync

/-!
# Mutex — `lv2_mutex` with its condition variables

The word `control` holds the owner and the head of the wait queue, and is changed by atomic operations: `try_lock` and
`try_unlock` outside `lv2_mutex::mutex`, `reown` under it, `try_own` in both ways.  The queues of the condition
variables are changed under it only, so an action on one and the operation on `control` that follows are one step.
-/

namespace Armsx3.Lv2.Mutex

open Transition Function

abbrev CondId := Nat

/-- The constants of an `lv2_mutex`; `recursive` is `SYS_SYNC_RECURSIVE`. -/
structure Attr where
  protocol : Protocol
  recursive : Bool

/-- Where a thread is.  The last argument of the places in `sys_cond_wait` is the recursive value
to be restored; `lockCas` and `tryCas` keep the `sq` they have loaded. -/
inductive Pc
  | idle
  | lockLoad (timed : Bool)
  | lockCas (timed : Bool) (sq : Option Tid)
  | lockTest (timed : Bool)
  | lockSpin (timed : Bool)
  | lockOwn (timed : Bool)
  | lockSleep (timed : Bool)
  | lockWait (timed : Bool)
  | lockTimedOut
  | lockTimedOutEmpty
  | lockTimedOutLock
  | tryLoad
  | tryCas (sq : Option Tid)
  | unlockLoad
  | unlockCas
  | unlockLock
  | unlockAwake
  | condTest (c : CondId) (timed : Bool)
  | condLock (c : CondId) (timed : Bool)
  | condSleep (c : CondId) (timed : Bool) (count : Nat)
  | condWait (c : CondId) (timed : Bool) (count : Nat)
  | condTimedOut (c : CondId) (count : Nat)
  | condResleep (c : CondId) (count : Nat)
  | condReturn (count : Nat)
  | signalLoad (c : CondId)
  | signalLock (c : CondId)
  | signalAllLoad (c : CondId)
  | signalAllLock (c : CondId)
  | signalToLoad (c : CondId) (u : Tid)
  | signalToLock (c : CondId) (u : Tid)
  | signalEmpty (e : CellError)
  deriving DecidableEq

inductive Crit
  | lockUnqueue
  | unlockReown
  | condEnter (c : CondId) (timed : Bool)
  | condSleep (c : CondId) (timed : Bool) (count : Nat) (appended : List Tid)
  | condCancel (c : CondId) (count : Nat)
  | condResleep (c : CondId) (count : Nat)
  | signal (c : CondId)
  | signalAll (c : CondId)
  | signalAllLoop (c : CondId) (sq : List Tid) (result : Option Tid)
  | signalTo (c : CondId) (u : Tid)
  | awake (u : Tid)
  deriving DecidableEq

/-- Where a thread waits: nowhere, in the queue of a condition variable or in that of the mutex; or
the mutex was given to it and its call did not return yet. -/
inductive Loc
  | out
  | cond (c : CondId)
  | queue
  | owner
  deriving DecidableEq

/-- An owner of `none` is the word 0.  `loc`, `held` and `entry` are history: where a thread waits, how many of its
locks it did not unlock yet, and the recursive value when it last called `sys_cond_wait`. -/
structure State where
  owner : Option Tid
  sq : List Tid
  lockCount : Nat
  cq : CondId → List Tid
  mutex : Option (Tid × Crit)
  sched : Sched
  pc : Tid → Pc
  gpr3 : Tid → CellError
  failed : Bool
  loc : Tid → Loc
  held : Tid → Nat
  entry : Tid → Nat

inductive Event
  | lock (t : Tid) (timed : Bool)
  | trylock (t : Tid)
  | unlock (t : Tid)
  | condWait (t : Tid) (c : CondId) (timed : Bool)
  | signal (t : Tid) (c : CondId)
  | signalAll (t : Tid) (c : CondId)
  | signalTo (t : Tid) (c : CondId) (u : Tid)
  | spin (t : Tid)
  | timeout (t : Tid)
  | run (t : Tid)

namespace State

variable (s : State)

def goto (t : Tid) (p : Pc) : State := { s with pc := update s.pc t p }

def ret (t : Tid) (e : CellError) : State :=
  { s with pc := update s.pc t .idle, gpr3 := update s.gpr3 t e }

def retLocked (t : Tid) : State :=
  { s with loc := update s.loc t .out
           held := update s.held t (s.held t + 1) }.ret t .ok

def unlocked (t : Tid) : State := { s with held := update s.held t (s.held t - 1) }

def relock (a : Attr) (t : Tid) : State :=
  if a.recursive then
    if s.lockCount = 0xffffffff then s.ret t .ekresource
    else { s with lockCount := s.lockCount + 1 }.retLocked t
  else s.ret t .edeadlk

def tryOwn (u : Tid) : State × Bool :=
  match s.owner with
  | some _ =>
    ({ s with sq := u :: s.sq, sched := s.sched.enqueued u
              loc := update s.loc u .queue }, false)
  | none => ({ s with owner := some u, loc := update s.loc u .owner }, true)

def reown (a : Attr) : State × Option Tid :=
  match schedule a.protocol s.sched.prio s.sq with
  | some (u, sq) =>
    ({ s with owner := some u, sq := sq, loc := update s.loc u .owner }, some u)
  | none => ({ s with owner := none }, none)

end State

/-- `lv2_obj::unqueue` from the queue of a condition variable, or `schedule`, then `try_own` for the
thread `u` that was taken out; `rest` is what is left of the queue. -/
def signalOwn (s : State) (t : Tid) (c : CondId) (u : Tid) (rest : List Tid) : State :=
  match { s with cq := update s.cq c rest }.tryOwn u with
  | (s', true) => { s' with mutex := some (t, .awake u) }
  | (s', false) => { s' with mutex := none }.ret t .ok

def signalAllDone (s : State) (t : Tid) : Option Tid → State
  | some u => { s with mutex := some (t, .awake u) }
  | none => { s with mutex := none }.ret t .ok

def runFree (a : Attr) (s : State) (t : Tid) : Option State :=
  match s.pc t with
  | .lockLoad timed =>
    match s.owner with
    | none => some (s.goto t (.lockCas timed s.sq.head?))
    | some o => some (if o = t then s.relock a t else s.goto t (.lockTest timed))
  | .lockCas timed sq =>
    if s.owner = none ∧ s.sq.head? = sq then some ({ s with owner := some t }.retLocked t)
    else some (s.goto t (.lockTest timed))
  | .lockTest timed => some (s.goto t (if s.sq = [] then .lockSpin timed else .lockOwn timed))
  | .lockSpin timed => some (s.goto t (.lockOwn timed))
  | .lockOwn timed =>
    match s.tryOwn t with
    | (s', true) => some (s'.retLocked t)
    | (s', false) =>
      some ({ s' with sched := { s'.sched with
        cancelSleep := update s'.sched.cancelSleep t 1 } }.goto t (.lockSleep timed))
  | .lockSleep timed =>
    if s.sched.cancelSleep t = 2 then
      some ({ s with sched := { s.sched with
        cancelSleep := update s.sched.cancelSleep t 0 } }.retLocked t)
    else some ({ s with sched := s.sched.sleep t }.goto t (.lockWait timed))
  | .lockWait _ =>
    if s.sched.signal t then some ({ s with sched := s.sched.resetSignal t }.retLocked t) else none
  | .lockTimedOut => some (s.goto t (if s.sq = [] then .lockTimedOutEmpty else .lockTimedOutLock))
  | .lockTimedOutEmpty => if s.mutex = none then some (s.retLocked t) else none
  | .lockTimedOutLock =>
    if s.mutex = none then some { s with mutex := some (t, .lockUnqueue) } else none
  | .tryLoad =>
    match s.owner with
    | none => some (s.goto t (.tryCas s.sq.head?))
    | some o => some (if o = t then s.relock a t else s.ret t .ebusy)
  | .tryCas sq =>
    if s.owner = none ∧ s.sq.head? = sq then some ({ s with owner := some t }.retLocked t)
    else some (s.ret t .ebusy)
  | .unlockLoad =>
    if s.owner ≠ some t then some (s.ret t .eperm)
    else if s.lockCount ≠ 0 then
      some (({ s with lockCount := s.lockCount - 1 }.unlocked t).ret t .ok)
    else some (s.goto t (if s.sq = [] then .unlockCas else .unlockLock))
  | .unlockCas =>
    if s.owner = some t ∧ s.sq = [] then some (({ s with owner := none }.unlocked t).ret t .ok)
    else some (s.goto t .unlockLock)
  | .unlockLock => if s.mutex = none then some { s with mutex := some (t, .unlockReown) } else none
  | .condTest c timed =>
    some (if s.owner ≠ some t then s.ret t .eperm else s.goto t (.condLock c timed))
  | .condLock c timed =>
    if s.mutex = none then some { s with mutex := some (t, .condEnter c timed) } else none
  | .condWait _ _ count =>
    if s.sched.signal t then
      some ({ s with sched := s.sched.resetSignal t }.goto t (.condReturn count))
    else none
  | .condTimedOut c count =>
    if s.mutex = none then some { s with mutex := some (t, .condCancel c count) } else none
  | .condReturn count =>
    -- `ensure(cond->mutex->control.raw().owner == ppu.id)`
    some { s with failed := s.failed || decide (s.owner ≠ some t), lockCount := count
                  loc := update s.loc t .out, pc := update s.pc t .idle }
  | .signalLoad c => some (s.goto t (if s.cq c = [] then .signalEmpty .ok else .signalLock c))
  | .signalLock c => if s.mutex = none then some { s with mutex := some (t, .signal c) } else none
  | .signalAllLoad c => some (s.goto t (if s.cq c = [] then .signalEmpty .ok else .signalAllLock c))
  | .signalAllLock c =>
    if s.mutex = none then some { s with mutex := some (t, .signalAll c) } else none
  | .signalToLoad c u =>
    some (s.goto t (if s.cq c = [] then .signalEmpty .eperm else .signalToLock c u))
  | .signalToLock c u =>
    if s.mutex = none then some { s with mutex := some (t, .signalTo c u) } else none
  | .signalEmpty e => if s.mutex = none then some (s.ret t e) else none
  | .idle | .unlockAwake | .condSleep _ _ _ | .condResleep _ _ => none

def runCrit (a : Attr) (s : State) (t : Tid) : Crit → State
  | .lockUnqueue =>
    match unqueue s.sq t with
    | none => { s with mutex := none }.retLocked t
    | some sq =>
      { s with sq := sq, loc := update s.loc t .out, mutex := none }.ret t .etimedout
  | .unlockReown =>
    match s.reown a with
    | (s', some u) => { s'.unlocked t with mutex := some (t, .awake u) }.goto t .unlockAwake
    | (s', none) => { s'.unlocked t with mutex := none }.ret t .ok
  | .condEnter c timed =>
    let s' := { s with cq := update s.cq c (t :: s.cq c), sched := s.sched.enqueued t
                       loc := update s.loc t (.cond c), lockCount := 0 }.reown a
    { s'.1 with mutex := some (t, .condSleep c timed s.lockCount s'.2.toList) }.goto t
      (.condSleep c timed s.lockCount)
  | .condSleep c timed count appended =>
    { s with sched := (s.sched.sleep t).awakeAll appended, mutex := none }.goto t
      (.condWait c timed count)
  | .condCancel c count =>
    match unqueue (s.cq c) t with
    | some rest =>
      match { s with cq := update s.cq c rest
                     gpr3 := update s.gpr3 t .etimedout }.tryOwn t with
      | (s', true) => { s' with mutex := none }.goto t (.condReturn count)
      | (s', false) =>
        { s' with mutex := some (t, .condResleep c count) }.goto t (.condResleep c count)
    | none =>
      if s.owner = some t then { s with mutex := none }.goto t (.condReturn count)
      else { s with mutex := some (t, .condResleep c count) }.goto t (.condResleep c count)
  | .condResleep c count =>
    { s with sched := s.sched.sleep t, mutex := none }.goto t (.condWait c false count)
  | .signal c =>
    match schedule a.protocol s.sched.prio (s.cq c) with
    | some (u, rest) => signalOwn s t c u rest
    | none => { s with mutex := none }.ret t .ok
  | .signalAll c =>
    { s with cq := update s.cq c [], mutex := some (t, .signalAllLoop c (s.cq c) none) }
  | .signalAllLoop c sq result =>
    match schedule .priority s.sched.prio sq with
    | some (u, rest) =>
      match s.tryOwn u with
      | (s', true) =>
        -- `ensure(!std::exchange(result, cpu))`
        { s' with failed := s'.failed || result.isSome
                  mutex := some (t, .signalAllLoop c rest (some u)) }
      | (s', false) => { s' with mutex := some (t, .signalAllLoop c rest result) }
    | none => signalAllDone s t result
  | .signalTo c u =>
    match unqueue (s.cq c) u with
    | some rest => signalOwn s t c u rest
    | none => { s with mutex := none }.ret t .eperm
  | .awake u => { s with sched := s.sched.awake u, mutex := none }.ret t .ok

def step (a : Attr) (s : State) : Event → Option State
  | .lock t timed => if s.pc t = .idle then some (s.goto t (.lockLoad timed)) else none
  | .trylock t => if s.pc t = .idle then some (s.goto t .tryLoad) else none
  | .unlock t => if s.pc t = .idle then some (s.goto t .unlockLoad) else none
  | .condWait t c timed =>
    if s.pc t = .idle then
      some ({ s with gpr3 := update s.gpr3 t .ok
                     entry := update s.entry t s.lockCount }.goto t (.condTest c timed))
    else none
  | .signal t c => if s.pc t = .idle then some (s.goto t (.signalLoad c)) else none
  | .signalAll t c => if s.pc t = .idle then some (s.goto t (.signalAllLoad c)) else none
  | .signalTo t c u => if s.pc t = .idle then some (s.goto t (.signalToLoad c u)) else none
  -- one more turn of the busy waiting before `try_own`
  | .spin t =>
    match s.pc t with
    | .lockSpin timed => some (s.goto t (.lockLoad timed))
    | _ => none
  | .timeout t =>
    match s.pc t with
    | .lockWait true => some ({ s with sched := s.sched.checkState t }.goto t .lockTimedOut)
    | .condWait c true count =>
      some ({ s with sched := s.sched.checkState t }.goto t (.condTimedOut c count))
    | _ => none
  | .run t =>
    match s.mutex with
    | some (h, crit) => if h = t then some (runCrit a s t crit) else runFree a s t
    | none => runFree a s t

theorem State.tryOwn_free {s : State} (h : s.owner = none) (u : Tid) :
    s.tryOwn u = ({ s with owner := some u, loc := update s.loc u .owner }, true) := by
  unfold State.tryOwn
  rw [h]

theorem State.tryOwn_owned {s : State} (h : s.owner ≠ none) (u : Tid) :
    s.tryOwn u = ({ s with sq := u :: s.sq, sched := s.sched.enqueued u
                           loc := update s.loc u .queue }, false) := by
  unfold State.tryOwn
  split
  · rfl
  next hnone =>
    exact absurd hnone h

def Initial (s : State) : Prop :=
  s.owner = none ∧ s.sq = [] ∧ s.lockCount = 0 ∧ (∀ c, s.cq c = []) ∧ s.mutex = none ∧
    (∀ t, s.sched.asleep t = false) ∧ (∀ t, s.sched.signal t = false) ∧
    (∀ t, s.sched.cancelSleep t = 0) ∧ (∀ t, s.pc t = .idle) ∧ s.failed = false ∧
    (∀ t, s.loc t = .out) ∧ (∀ t, s.held t = 0)

def State.created : State :=
  ⟨none, [], 0, fun _ => [], none, .running, fun _ => .idle, fun _ => .ok, false, fun _ => .out, fun _ => 0, fun _ => 0⟩

theorem initial_created : Initial .created :=
  ⟨rfl, rfl, rfl, fun _ => rfl, rfl, fun _ => rfl, fun _ => rfl, fun _ => rfl, fun _ => rfl, rfl,
    fun _ => rfl, fun _ => rfl⟩

def system (a : Attr) : System State Event where
  init := Initial
  step := step a

end Armsx3.Lv2.Mutex
