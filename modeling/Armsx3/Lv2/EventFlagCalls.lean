import Armsx3.Library.Transition
import Armsx3.Lv2.EventFlag

/-!
# EventFlagCalls — `sys_event_flag_wait`, `trywait`, `set`, `clear` and `cancel` on one flag

The pattern is changed by atomic operations, most of them outside the mutex: `trywait`, `clear` and
the first look of `wait` never take it.  The list of waiters is only changed under the mutex.
-/

namespace Armsx3.Lv2.EventFlag

open Transition Function

/-- The constants of an `lv2_event_flag`; `single` is `SYS_SYNC_WAITER_SINGLE`. -/
structure Attr where
  protocol : Protocol
  single : Bool

/-- Where a thread is.  `timedOutEmpty` is the branch that has seen `sq` empty and only waits for
the mutex to be given back. -/
inductive Pc
  | idle
  | waitFetch (timed : Bool)
  | waitLock (timed : Bool)
  | sleeping (timed : Bool)
  | timedOut
  | timedOutEmpty
  | timedOutLock
  | trywaitFetch (a : Args)
  | setTest (bitptn : BitVec 64)
  | setLock (bitptn : BitVec 64)
  | clearStore (bitptn : BitVec 64)
  | cancelLock
  deriving DecidableEq

inductive Crit
  | wait (timed : Bool)
  | waitSleep (timed : Bool)
  | unqueue
  | setLoad (bitptn : BitVec 64)
  | setPass (bitptn pattern : BitVec 64)
  | setCommit (bitptn pattern toWrite dependantMask : BitVec 64) (count : Nat)
  | setRemove
  | setAwake (appended : List Tid)
  | cancelLoad
  | cancel (pattern : BitVec 64) (value : Nat) (appended : List Tid)
  deriving DecidableEq

/-- `args`, `gpr3` and `gpr6` are registers, `result` and `num` what the calls store for the guest. -/
structure State where
  pattern : BitVec 64
  sq : List Tid
  mutex : Option (Tid × Crit)
  sched : Sched
  pc : Tid → Pc
  args : Tid → Args
  gpr3 : Tid → Option CellError
  gpr6 : Tid → BitVec 64
  result : Tid → BitVec 64
  num : Tid → Nat
  handed : List Tid

inductive Event
  | wait (t : Tid) (bitptn : BitVec 64) (mode : BitVec 32) (timed : Bool)
  | trywait (t : Tid) (bitptn : BitVec 64) (mode : BitVec 32)
  | set (t : Tid) (bitptn : BitVec 64)
  | clear (t : Tid) (bitptn : BitVec 64)
  | cancel (t : Tid)
  | timeout (t : Tid)
  | run (t : Tid)

namespace State

variable (s : State)

def goto (t : Tid) (p : Pc) : State := { s with pc := update s.pc t p }

def ret (t : Tid) (e : CellError) : State :=
  { s with pc := update s.pc t .idle, gpr3 := update s.gpr3 t (some e) }

def retStore (t : Tid) (e : CellError) (val : BitVec 64) : State :=
  { s with result := update s.result t val }.ret t e

def retWaiter (t : Tid) : State :=
  { s with pc := update s.pc t .idle, result := update s.result t (s.gpr6 t)
           handed := s.handed.erase t }

end State

def runFree (s : State) (t : Tid) : Option State :=
  match s.pc t with
  | .idle => none
  | .waitFetch timed =>
    match checkPattern s.pattern (s.args t) with
    | some pattern =>
      some ({ s with pattern := pattern, gpr6 := update s.gpr6 t s.pattern }.retStore t
        .ok s.pattern)
    | none =>
      some ({ s with gpr6 := update s.gpr6 t s.pattern }.goto t (.waitLock timed))
  | .waitLock timed => if s.mutex = none then some { s with mutex := some (t, .wait timed) } else none
  | .sleeping _ =>
    if s.sched.signal t then some ({ s with sched := s.sched.resetSignal t }.retWaiter t) else none
  | .timedOut => some (s.goto t (if s.sq = [] then .timedOutEmpty else .timedOutLock))
  | .timedOutEmpty => if s.mutex = none then some (s.retWaiter t) else none
  | .timedOutLock => if s.mutex = none then some { s with mutex := some (t, .unqueue) } else none
  | .trywaitFetch a =>
    match checkPattern s.pattern a with
    | some pattern => some ({ s with pattern := pattern }.retStore t .ok s.pattern)
    | none => some (s.retStore t .ebusy 0)
  | .setTest bitptn =>
    some (if s.pattern &&& bitptn = bitptn then s.ret t .ok else s.goto t (.setLock bitptn))
  | .setLock bitptn =>
    if s.mutex = none then some { s with mutex := some (t, .setLoad bitptn) } else none
  | .clearStore bitptn => some ({ s with pattern := s.pattern &&& bitptn }.ret t .ok)
  | .cancelLock => if s.mutex = none then some { s with mutex := some (t, .cancelLoad) } else none

def runCrit (c : Attr) (s : State) (t : Tid) : Crit → State
  | .wait timed =>
    match checkPattern s.pattern (s.args t) with
    | some pattern =>
      { s with pattern := pattern, gpr6 := update s.gpr6 t s.pattern
               mutex := none }.retStore t .ok s.pattern
    | none =>
      { s with gpr6 := update s.gpr6 t s.pattern, mutex := some (t, .waitSleep timed) }
  | .waitSleep timed =>
    if c.single ∧ s.sq ≠ [] then { s with mutex := none }.retStore t .eperm 0
    else
      { s with sq := t :: s.sq, sched := (s.sched.sleep t).enqueued t, mutex := none }.goto t
        (.sleeping timed)
  | .unqueue =>
    match unqueue s.sq t with
    | none => { s with mutex := none }.retWaiter t
    | some sq =>
      { s with sq := sq, gpr6 := update s.gpr6 t s.pattern
               mutex := none }.retStore t .etimedout s.pattern
  | .setLoad bitptn => { s with mutex := some (t, .setPass bitptn s.pattern) }
  | .setPass bitptn pattern =>
    let p := pass s.args bitptn (getNextOrder c.protocol s.sched.prio s.sq) pattern s.gpr3 s.gpr6
    { s with gpr3 := p.gpr3, gpr6 := p.gpr6
             mutex := some (t, .setCommit bitptn pattern p.toWrite p.dependantMask p.count) }
  | .setCommit bitptn pattern toWrite dependantMask count =>
    match commit bitptn pattern ⟨toWrite, dependantMask, count, s.gpr3, s.gpr6⟩ s.pattern with
    | none => { s with mutex := some (t, .setPass bitptn s.pattern) }
    | some x =>
      if count = 0 then { s with pattern := x, mutex := none }.ret t .ok
      else { s with pattern := x, mutex := some (t, .setRemove) }
  | .setRemove =>
    let woken := s.sq.filter fun u => s.gpr3 u = some .ok
    { s with sq := s.sq.filter fun u => s.gpr3 u ≠ some .ok, handed := woken ++ s.handed
             mutex := some (t, .setAwake woken) }
  | .setAwake appended => { s with sched := s.sched.awakeAll appended, mutex := none }.ret t .ok
  | .cancelLoad => { s with mutex := some (t, .cancel s.pattern 0 []) }
  | .cancel pattern value appended =>
    match schedule .fifo s.sched.prio s.sq with
    | some (u, sq) =>
      { s with sq := sq, handed := u :: s.handed
               gpr3 := update s.gpr3 u (some .ecanceled)
               gpr6 := update s.gpr6 u pattern
               mutex := some (t, .cancel pattern (value + 1) (u :: appended)) }
    | none =>
      { s with sched := s.sched.awakeAll appended, num := update s.num t value
               mutex := none }.ret t .ok

def step (c : Attr) (s : State) : Event → Option State
  | .wait t bitptn mode timed =>
    if s.pc t = .idle then
      match checkMode mode with
      | none => some (s.retStore t .einval 0)
      | some m =>
        some ({ s with args := update s.args t ⟨bitptn, m⟩
                       gpr3 := update s.gpr3 t none
                       gpr6 := update s.gpr6 t 0 }.goto t (.waitFetch timed))
    else none
  | .trywait t bitptn mode =>
    if s.pc t = .idle then
      match checkMode mode with
      | none => some (s.retStore t .einval 0)
      | some m => some (s.goto t (.trywaitFetch ⟨bitptn, m⟩))
    else none
  | .set t bitptn => if s.pc t = .idle then some (s.goto t (.setTest bitptn)) else none
  | .clear t bitptn => if s.pc t = .idle then some (s.goto t (.clearStore bitptn)) else none
  | .cancel t =>
    if s.pc t = .idle then
      some ({ s with num := update s.num t 0 }.goto t .cancelLock)
    else none
  | .timeout t =>
    if s.pc t = .sleeping true then
      some ({ s with sched := s.sched.checkState t }.goto t .timedOut)
    else none
  | .run t =>
    match s.mutex with
    | some (h, crit) => if h = t then some (runCrit c s t crit) else runFree s t
    | none => runFree s t

def Initial (s : State) : Prop :=
  s.sq = [] ∧ s.mutex = none ∧ (∀ t, s.sched.asleep t = false) ∧
    (∀ t, s.sched.signal t = false) ∧ (∀ t, s.pc t = .idle) ∧ s.handed = []

def State.created (pattern : BitVec 64) : State :=
  ⟨pattern, [], none, .running, fun _ => .idle, fun _ => ⟨0, .and, .keep⟩, fun _ => none,
    fun _ => 0, fun _ => 0, fun _ => 0, []⟩

theorem initial_created (pattern : BitVec 64) : Initial (.created pattern) :=
  ⟨rfl, rfl, fun _ => rfl, fun _ => rfl, fun _ => rfl, rfl⟩

def system (c : Attr) : System State Event where
  init := Initial
  step := step c

end Armsx3.Lv2.EventFlag
