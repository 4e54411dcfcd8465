import Armsx3.Library.Transition
import Armsx3.Lv2.Sync

/-!
# Lwmutex — the lightweight mutex of guest memory and the kernel object under it

The guest's `sys_lwmutex_t` has the owner and the number of waiters in one 64-bit word, the kernel's `lv2_lwmutex` a
signal and the head of the wait queue in another.  Each step is one operation on one of them.  Deleting the mutex, its
condition variables and the setting `hle_lwmutex` are left out.
-/

namespace Armsx3.Lv2.Lwmutex

open Transition Function

/-- `sys_lwmutex_t::attribute`; `recursive` is `SYS_SYNC_RECURSIVE`. -/
structure Attr where
  protocol : Protocol
  recursive : Bool

def Attr.retry (a : Attr) : Bool := a.protocol == .retry

/-- The owner word: `lwmutex_free`, `lwmutex_reserved`, `lwmutex_dead`, or the id of a thread. -/
inductive Owner
  | free
  | reserved
  | dead
  | thread (t : Tid)
  deriving DecidableEq

structure Pass where
  timed : Bool
  retry : Bool
  deriving DecidableEq

/-- Where a thread is.  The places named `sys…` are in the kernel.  `spin` and `spinCas` have the
number of turns left; `sysUnlockCas` keeps the signal that was loaded. -/
inductive Pc
  | idle
  | lockCas (timed : Bool)
  | spin (p : Pass) (turns : Nat)
  | spinCas (p : Pass) (turns : Nat)
  | inc (p : Pass)
  | cas (p : Pass)
  | decLocked
  | sysLock (p : Pass)
  | sysOwn (p : Pass)
  | sysSleep (p : Pass)
  | sysWait (p : Pass)
  | sysTimedOut (p : Pass)
  | sysTimedOutEmpty (p : Pass)
  | sysTimedOutLock (p : Pass)
  | retryReturn (timed : Bool)
  | dec (p : Pass)
  | decTimedOut
  | exchange
  | tryCas
  | sysTrylock
  | tryExchange
  | unlockLoad
  | unlockCas
  | unlockRelease
  | sysUnlock
  | sysUnlockLoad
  | sysUnlockCas (signaled : BitVec 32)
  | sysUnlockLock
  | sysUnlockAwake
  deriving DecidableEq

inductive Crit
  | unqueue (p : Pass)
  | reown
  | awake (u : Tid)
  deriving DecidableEq

/-- Where a thread is in its wait: nowhere or in the queue; or it was given the mutex and is still to
write the owner word; or it was woken with `CELL_EBUSY` and is still to try again. -/
inductive Loc
  | out
  | queue
  | granted
  | woken
  deriving DecidableEq

/-- Who has a mutex whose owner word is `lwmutex_reserved`. -/
inductive Token
  | none
  | unlocker (t : Tid)
  | signal
  | thread (t : Tid)
  deriving DecidableEq

/-- `failed` is one of the exceptions "Locking failed", `carried` a change of the owner word by a 64-bit operation on
the waiters.  `loc`, `token`, `held` (the locks that are not unlocked yet) and `gaveUp` (woken with `CELL_EBUSY` when
the time was up) are history. -/
structure State where
  owner : Owner
  waiter : Nat
  recursiveCount : Nat
  signaled : BitVec 32
  sq : List Tid
  mutex : Option (Tid × Crit)
  sched : Sched
  pc : Tid → Pc
  gpr3 : Tid → CellError
  failed : Bool
  carried : Bool
  loc : Tid → Loc
  token : Token
  held : Tid → Nat
  gaveUp : Bool

inductive Event
  | lock (t : Tid) (timed : Bool)
  | trylock (t : Tid)
  | unlock (t : Tid)
  | timeout (t : Tid)
  | expire (t : Tid)
  | run (t : Tid)

def Event.tid : Event → Tid
  | .lock t _ | .trylock t | .unlock t | .timeout t | .expire t | .run t => t

/-- What `try_unlock` and `reown` store in `signaled`: `unlock2 ? s32{smin} : 1`. -/
def signalBit (unlock2 : Bool) : BitVec 32 := if unlock2 then 0x80000000#32 else 1#32

/-- What a signal that was taken makes of `gpr[3]`: `~signal & 1` is `CELL_EBUSY`. -/
def signalResult (signal : BitVec 32) : CellError := if signal.getLsbD 0 then .ok else .ebusy

namespace State

variable (s : State)

def goto (t : Tid) (p : Pc) : State := { s with pc := update s.pc t p }

def ret (t : Tid) (e : CellError) : State :=
  { s with pc := update s.pc t .idle, gpr3 := update s.gpr3 t e }

def own (t : Tid) : State :=
  { s with owner := .thread t, held := update s.held t (s.held t + 1) }

def disown (t : Tid) (o : Owner) : State :=
  { s with owner := o, held := update s.held t (s.held t - 1) }

def incWaiter : State :=
  if s.waiter + 1 = 2 ^ 32 then { s with waiter := 0, carried := true }
  else { s with waiter := s.waiter + 1 }

def decWaiter : State :=
  if s.waiter = 0 then { s with waiter := 2 ^ 32 - 1, carried := true }
  else { s with waiter := s.waiter - 1 }

def relock (a : Attr) (t : Tid) : State :=
  if a.recursive then
    if s.recursiveCount = 0xffffffff then s.ret t .ekresource
    else { s with recursiveCount := s.recursiveCount + 1
                  held := update s.held t (s.held t + 1) }.ret t .ok
  else s.ret t .edeadlk

def sysReturn (t : Tid) (p : Pass) : State :=
  s.goto t (if p.retry then .retryReturn p.timed else .dec p)

def takeSignal (t : Tid) : State :=
  { s with signaled := 0
           gpr3 := update s.gpr3 t (signalResult s.signaled)
           loc := update s.loc t (if s.signaled.getLsbD 0 then .granted else .woken)
           token := if s.signaled.getLsbD 0 then .thread t else s.token }

def storeSignal (unlock2 : Bool) : State :=
  { s with signaled := s.signaled ||| signalBit unlock2
           token := if unlock2 then s.token else .signal }

/-- The owner word becomes the thread that has got the mutex from the kernel; anything but
`lwmutex_reserved` before is the exception. -/
def exchangeOwner (t : Tid) : State :=
  { s.own t with failed := s.failed || decide (s.owner ≠ .reserved)
                 loc := update s.loc t .out, token := .none }

/-- A thread of the queue is taken out for the unlocking one.  `_sys_lwmutex_unlock2` also stores its
result, under the mutex. -/
def release (unlock2 : Bool) (u : Tid) (sq : List Tid) : State :=
  { s with sq := sq
           gpr3 := if unlock2 then update s.gpr3 u .ebusy else s.gpr3
           loc := update s.loc u (if unlock2 then .woken else .granted)
           token := if unlock2 then s.token else .thread u }

end State

def afterDec (a : Attr) (s : State) (t : Tid) (p : Pass) : State :=
  if p.retry then
    if s.gpr3 t ≠ .ebusy then s.ret t (s.gpr3 t) else s.goto t (.spin ⟨p.timed, true⟩ 10)
  else if s.gpr3 t = .ok then s.goto t .exchange
  else if s.gpr3 t = .ebusy ∧ a.retry then s.goto t (.spin ⟨p.timed, true⟩ 10)
  else s.ret t (s.gpr3 t)

def runFree (a : Attr) (s : State) (t : Tid) : Option State :=
  match s.pc t with
  | .lockCas timed =>
    match s.owner with
    | .free => some ((s.own t).ret t .ok)
    | .dead => some (s.ret t .einval)
    | .reserved => some (s.goto t (.spin ⟨timed, false⟩ 10))
    | .thread o =>
      some (if o = t then s.relock a t else s.goto t (.spin ⟨timed, false⟩ 10))
  | .spin p 0 => some (s.goto t (.inc p))
  | .spin p (n + 1) => some (s.goto t (if s.owner = .free then .spinCas p n else .spin p n))
  | .spinCas p n =>
    if s.owner = .free then
      some ({ s.own t with loc := update s.loc t .out }.ret t .ok)
    else some (s.goto t (.spin p n))
  | .inc p => some (s.incWaiter.goto t (.cas p))
  | .cas p =>
    if s.owner = .free then
      some ({ s.own t with loc := update s.loc t .out }.goto t .decLocked)
    else
      some ({ s with loc := update s.loc t .out
                     gpr3 := update s.gpr3 t .ok }.goto t (.sysLock p))
  | .decLocked => some (s.decWaiter.ret t .ok)
  | .sysLock p =>
    if s.signaled ≠ 0 then some ((s.takeSignal t).sysReturn t p)
    else some ({ s with sched := { s.sched with
      cancelSleep := update s.sched.cancelSleep t 1 } }.goto t (.sysOwn p))
  | .sysOwn p =>
    -- `try_own`
    if s.signaled ≠ 0 then
      some ({ s.takeSignal t with sched := { s.sched with
        cancelSleep := update s.sched.cancelSleep t 0 } }.sysReturn t p)
    else
      some ({ s with sq := t :: s.sq, sched := s.sched.enqueued t
                     loc := update s.loc t .queue }.goto t (.sysSleep p))
  | .sysSleep p =>
    if s.sched.cancelSleep t = 2 then
      some ({ s with sched := { s.sched with
        cancelSleep := update s.sched.cancelSleep t 0 } }.sysReturn t p)
    else some ({ s with sched := s.sched.sleep t }.goto t (.sysWait p))
  | .sysWait p =>
    if s.sched.signal t then some ({ s with sched := s.sched.resetSignal t }.sysReturn t p)
    else none
  | .sysTimedOut p =>
    some (s.goto t (if s.sq = [] then .sysTimedOutEmpty p else .sysTimedOutLock p))
  | .sysTimedOutEmpty p => if s.mutex = none then some (s.sysReturn t p) else none
  | .sysTimedOutLock p =>
    if s.mutex = none then some { s with mutex := some (t, .unqueue p) } else none
  | .retryReturn timed =>
    if s.gpr3 t = .ok then
      some ({ s.own t with loc := update s.loc t .out }.goto t (.dec ⟨timed, true⟩))
    else some (s.goto t (.dec ⟨timed, true⟩))
  | .dec p => some (afterDec a s.decWaiter t p)
  | .decTimedOut => some (s.decWaiter.ret t .etimedout)
  | .exchange | .tryExchange => some ((s.exchangeOwner t).ret t .ok)
  | .tryCas =>
    match s.owner with
    | .free => some ((s.own t).ret t .ok)
    | .dead => some (s.ret t .einval)
    | .reserved => some (s.goto t .sysTrylock)
    | .thread o => some (if o = t then s.relock a t else s.ret t .ebusy)
  | .sysTrylock =>
    if s.signaled.getLsbD 0 then some ((s.takeSignal t).goto t .tryExchange)
    else some (s.ret t .ebusy)
  | .unlockLoad =>
    if s.owner ≠ .thread t then some (s.ret t .eperm)
    else if s.recursiveCount ≠ 0 then
      some ({ s with recursiveCount := s.recursiveCount - 1
                     held := update s.held t (s.held t - 1) }.ret t .ok)
    else some (s.goto t .unlockCas)
  | .unlockCas =>
    if s.owner = .thread t ∧ s.waiter = 0 then some ((s.disown t .free).ret t .ok)
    else some (s.goto t .unlockRelease)
  | .unlockRelease =>
    if a.retry then some ((s.disown t .free).goto t .sysUnlock)
    else some ({ s.disown t .reserved with token := .unlocker t }.goto t .sysUnlock)
  -- `try_unlock`
  | .sysUnlock => some (s.goto t (if s.sq = [] then .sysUnlockLoad else .sysUnlockLock))
  | .sysUnlockLoad => some (s.goto t (.sysUnlockCas s.signaled))
  | .sysUnlockCas signaled =>
    if s.signaled = signaled ∧ s.sq = [] then some ((s.storeSignal a.retry).ret t .ok)
    else some (s.goto t .sysUnlockLock)
  | .sysUnlockLock => if s.mutex = none then some { s with mutex := some (t, .reown) } else none
  | .idle | .sysUnlockAwake => none

def runCrit (a : Attr) (s : State) (t : Tid) : Crit → State
  | .unqueue p =>
    match unqueue s.sq t with
    | none => { s with mutex := none }.sysReturn t p
    | some sq =>
      { s with sq := sq, loc := update s.loc t .out
               gpr3 := update s.gpr3 t .etimedout, mutex := none }.sysReturn t p
  | .reown =>
    match schedule a.protocol s.sched.prio s.sq with
    | some (u, sq) =>
      { s.release a.retry u sq with mutex := some (t, .awake u) }.goto t .sysUnlockAwake
    | none => { s.storeSignal a.retry with mutex := none }.ret t .ok
  | .awake u => { s with sched := s.sched.awake u, mutex := none }.ret t .ok

def step (a : Attr) (s : State) : Event → Option State
  | .lock t timed => if s.pc t = .idle then some (s.goto t (.lockCas timed)) else none
  | .trylock t => if s.pc t = .idle then some (s.goto t .tryCas) else none
  | .unlock t => if s.pc t = .idle then some (s.goto t .unlockLoad) else none
  | .timeout t =>
    match s.pc t with
    | .sysWait p =>
      if p.timed then some ({ s with sched := s.sched.checkState t }.goto t (.sysTimedOut p))
      else none
    | _ => none
  -- `timeout <= time_diff` in the loop for `SYS_SYNC_RETRY`
  | .expire t =>
    match s.pc t with
    | .retryReturn true =>
      if s.gpr3 t ≠ .ok ∧ s.gpr3 t ≠ .etimedout then
        some ({ s with loc := update s.loc t .out, gaveUp := true }.goto t .decTimedOut)
      else none
    | _ => none
  | .run t =>
    match s.mutex with
    | some (h, crit) => if h = t then some (runCrit a s t crit) else runFree a s t
    | none => runFree a s t

@[simp] theorem State.decWaiter_pc (s : State) : s.decWaiter.pc = s.pc := by
  unfold State.decWaiter
  split <;> rfl

@[simp] theorem State.decWaiter_gpr3 (s : State) : s.decWaiter.gpr3 = s.gpr3 := by
  unfold State.decWaiter
  split <;> rfl

@[simp] theorem State.incWaiter_pc (s : State) : s.incWaiter.pc = s.pc := by
  unfold State.incWaiter
  split <;> rfl

/-! ## A step moves one thread -/

section Others

variable {a : Attr} {s s' : State} {t u : Tid} (hu : u ≠ t)
include hu

theorem State.goto_pc (p : Pc) : (s.goto t p).pc u = s.pc u := update_of_ne hu _ _

theorem State.ret_pc (e : CellError) : (s.ret t e).pc u = s.pc u := update_of_ne hu _ _

theorem State.relock_pc : (s.relock a t).pc u = s.pc u := by
  unfold State.relock
  split
  · split <;> exact State.ret_pc hu _
  · exact State.ret_pc hu _

theorem afterDec_pc (p : Pass) : (afterDec a s t p).pc u = s.pc u := by
  unfold afterDec
  repeat' split
  all_goals first | exact State.ret_pc hu _ | exact State.goto_pc hu _

theorem runFree_pc (h : runFree a s t = some s') : s'.pc u = s.pc u := by
  unfold runFree at h
  repeat' split at h
  all_goals
    cases h <;> first
    | rfl
    | exact State.ret_pc hu _
    | exact State.goto_pc hu _
    | exact State.relock_pc hu
    | rw [afterDec_pc hu, State.decWaiter_pc]
    | rw [State.ret_pc hu, State.decWaiter_pc]
    | rw [State.goto_pc hu, State.incWaiter_pc]

theorem runCrit_pc (k : Crit) : (runCrit a s t k).pc u = s.pc u := by
  cases k with
  | unqueue =>
    rw [runCrit]
    split <;> exact State.goto_pc hu _
  | reown =>
    rw [runCrit]
    split
    · exact State.goto_pc hu _
    · exact State.ret_pc hu _
  | awake => exact State.ret_pc hu _

end Others

theorem step_pc {a : Attr} {s s' : State} {e : Event} {u : Tid} (hu : u ≠ e.tid)
    (h : step a s e = some s') : s'.pc u = s.pc u := by
  cases e with
  | run =>
    simp only [step] at h
    split at h
    · split at h
      · cases h
        exact runCrit_pc hu _
      · exact runFree_pc hu h
    · exact runFree_pc hu h
  | _ =>
    simp only [step] at h
    repeat' split at h
    all_goals cases h <;> exact update_of_ne hu _ _

def Initial (s : State) : Prop :=
  s.owner = .free ∧ s.waiter = 0 ∧ s.recursiveCount = 0 ∧ s.signaled = 0 ∧ s.sq = [] ∧
  s.mutex = none ∧ (∀ t, s.sched.asleep t = false ∧ s.sched.signal t = false ∧ s.sched.cancelSleep t = 0) ∧
  (∀ t, s.pc t = .idle) ∧ s.failed = false ∧ s.carried = false ∧ (∀ t, s.loc t = .out) ∧
  s.token = .none ∧ (∀ t, s.held t = 0) ∧ s.gaveUp = false

def system (a : Attr) : System State Event := ⟨Initial, step a⟩

def State.created : State where
  owner := .free
  waiter := 0
  recursiveCount := 0
  signaled := 0
  sq := []
  mutex := none
  sched := .running
  pc _ := .idle
  gpr3 _ := .ok
  failed := false
  carried := false
  loc _ := .out
  token := .none
  held _ := 0
  gaveUp := false

theorem initial_created : Initial .created :=
  ⟨rfl, rfl, rfl, rfl, rfl, rfl, fun _ => ⟨rfl, rfl, rfl⟩, fun _ => rfl, rfl, rfl, fun _ => rfl, rfl, fun _ => rfl, rfl⟩

theorem run_pc {a : Attr} {s s' : State} {es : List Event} {u : Tid} (hes : ∀ e ∈ es, u ≠ e.tid)
    (hrun : (system a).run s es = some s') : s'.pc u = s.pc u := by
  induction es generalizing s with
  | nil =>
    cases hrun
    rfl
  | cons e es ih =>
    have ⟨s1, hstep, hrest⟩ := System.run_cons_eq_some.mp hrun
    rw [ih (fun e' he' => hes e' (List.mem_cons_of_mem _ he')) hrest]
    exact step_pc (hes e List.mem_cons_self) hstep

end Armsx3.Lv2.Lwmutex
