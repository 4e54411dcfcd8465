import Armsx3.Library.Transition
import Armsx3.Lv2.Sync

/-!
# Semaphore — `sys_semaphore_*` over `lv2_sema`

The counter `val` is changed without the mutex on the fast paths and under it on the slow ones, so
a step of the model is one access to shared state.
-/

namespace Armsx3.Lv2.Semaphore

open Transition Function

/-- The constants of an `lv2_sema`, with what `sys_semaphore_create` has checked of them. -/
structure Sema where
  protocol : Protocol
  max : Int
  initial : Int
  max_pos : 0 < max
  max_lt : max < 2 ^ 31
  initial_nonneg : 0 ≤ initial
  initial_le : initial ≤ max

inductive Pc
  | idle
  | waitLoad (timed : Bool)
  | waitCas (timed : Bool) (val : Int)
  | waitLock (timed : Bool)
  | sleeping (timed : Bool)
  | timedOut
  | postLoad (count : Int)
  | postCas (count val : Int)
  | postLock (count : Int)
  deriving DecidableEq

inductive Crit
  | waitDec (timed : Bool)
  | waitEmplace (timed : Bool)
  | timeoutUnqueue
  | timeoutRestore
  | postAdd (count : Int)
  | postSchedule (left : Nat) (appended : List Tid)
  deriving DecidableEq

/-- The object, its threads and the history: the units posted, the calls that returned with a unit, and the threads
`post` has given one that did not return yet.  `failed` is set by an `ensure`. -/
structure State where
  val : Int
  sq : List Tid
  mutex : Option (Tid × Crit)
  sched : Sched
  pc : Tid → Pc
  gpr3 : Tid → CellError
  value : Tid → Int
  failed : Bool
  posted : Int
  acquired : Int
  handed : List Tid

inductive Event
  | wait (t : Tid) (timed : Bool)
  | trywait (t : Tid)
  | post (t : Tid) (count : BitVec 32)
  | getValue (t : Tid)
  | timeout (t : Tid)
  | run (t : Tid)

namespace State

variable (s : State)

def goto (t : Tid) (p : Pc) : State := { s with pc := update s.pc t p }

def ret (t : Tid) (e : CellError) : State :=
  { s with pc := update s.pc t .idle, gpr3 := update s.gpr3 t e }

end State

def runFree (c : Sema) (s : State) (t : Tid) : Option State :=
  match s.pc t with
  | .waitLoad timed =>
    some (s.goto t (if 0 < s.val then .waitCas timed s.val else .waitLock timed))
  | .waitCas timed val =>
    if s.val = val then
      some ({ s with val := val - 1, acquired := s.acquired + 1 }.ret t .ok)
    else some (s.goto t (.waitLock timed))
  | .waitLock timed =>
    if s.mutex = none then some { s with mutex := some (t, .waitDec timed) } else none
  | .sleeping _ =>
    -- `state.test_and_reset(cpu_flag::signal)`; without the flag the thread goes on waiting
    if s.sched.signal t then
      some ({ s with sched := s.sched.resetSignal t, acquired := s.acquired + 1,
                     handed := s.handed.erase t }.ret t .ok)
    else none
  | .timedOut =>
    if s.mutex = none then some { s with mutex := some (t, .timeoutUnqueue) } else none
  | .postLoad count =>
    if 0 ≤ s.val ∧ 0 < count ∧ count ≤ c.max - s.val then some (s.goto t (.postCas count s.val))
    else if count ≤ 0 then some (s.ret t .einval)
    else some (s.goto t (.postLock count))
  | .postCas count val =>
    if s.val = val then
      some ({ s with val := val + count, posted := s.posted + count }.ret t .ok)
    else some (s.goto t (.postLock count))
  | .postLock count =>
    if s.mutex = none then some { s with mutex := some (t, .postAdd count) } else none
  | .idle => none

def runCrit (c : Sema) (s : State) (t : Tid) : Crit → State
  | .waitDec timed =>
    if s.val ≤ 0 then { s with val := s.val - 1, mutex := some (t, .waitEmplace timed) }
    else { s with val := s.val - 1, mutex := none, acquired := s.acquired + 1 }.ret t .ok
  | .waitEmplace timed =>
    { s with sq := t :: s.sq, mutex := none, sched := (s.sched.sleep t).enqueued t }.goto t
      (.sleeping timed)
  | .timeoutUnqueue =>
    match unqueue s.sq t with
    | none =>
      { s with mutex := none, acquired := s.acquired + 1, handed := s.handed.erase t }.ret t .ok
    | some sq => { s with sq := sq, mutex := some (t, .timeoutRestore) }
  | .timeoutRestore =>
    { s with val := if s.val < 0 then s.val + 1 else s.val, mutex := none
             failed := s.failed || !decide (s.val < 0) }.ret t .etimedout
  | .postAdd count =>
    -- `count + 0u <= sem->max + 0u - val`
    if count % 2 ^ 32 ≤ (c.max - s.val) % 2 ^ 32 then
      { s with val := s.val + count, posted := s.posted + count
               mutex := some (t, .postSchedule (min (-(min s.val 0)) count).toNat []) }
    else { s with mutex := none }.ret t .ebusy
  | .postSchedule 0 appended =>
    { s with mutex := none, sched := s.sched.awakeAll appended }.ret t .ok
  | .postSchedule (left + 1) appended =>
    match schedule c.protocol s.sched.prio s.sq with
    | none => { s with failed := true, mutex := some (t, .postSchedule left appended) }
    | some (u, sq) =>
      { s with sq := sq, handed := u :: s.handed
               mutex := some (t, .postSchedule left (u :: appended)) }

def step (c : Sema) (s : State) : Event → Option State
  | .wait t timed => if s.pc t = .idle then some (s.goto t (.waitLoad timed)) else none
  | .trywait t =>
    if s.pc t = .idle then
      -- `val.try_dec(0)`
      if 0 < s.val then some ({ s with val := s.val - 1, acquired := s.acquired + 1 }.ret t .ok)
      else some (s.ret t .ebusy)
    else none
  | .post t count => if s.pc t = .idle then some (s.goto t (.postLoad count.toInt)) else none
  | .getValue t =>
    if s.pc t = .idle then
      some ({ s with value := update s.value t (max 0 s.val) }.ret t .ok)
    else none
  | .timeout t =>
    if s.pc t = .sleeping true then
      some ({ s with sched := s.sched.checkState t }.goto t .timedOut)
    else none
  | .run t =>
    match s.mutex with
    | some (h, crit) => if h = t then some (runCrit c s t crit) else runFree c s t
    | none => runFree c s t

def Initial (c : Sema) (s : State) : Prop :=
  s.val = c.initial ∧ s.sq = [] ∧ s.mutex = none ∧ (∀ t, s.sched.asleep t = false) ∧
    (∀ t, s.sched.signal t = false) ∧ (∀ t, s.pc t = .idle) ∧ s.failed = false ∧
    s.posted = 0 ∧ s.acquired = 0 ∧ s.handed = []

def State.created (c : Sema) : State :=
  ⟨c.initial, [], none, .running, fun _ => .idle, fun _ => .ok, fun _ => 0, false, 0, 0, []⟩

theorem initial_created (c : Sema) : Initial c (.created c) :=
  ⟨rfl, rfl, rfl, fun _ => rfl, fun _ => rfl, fun _ => rfl, rfl, rfl, rfl, rfl⟩

def system (c : Sema) : System State Event where
  init := Initial c
  step := step c

end Armsx3.Lv2.Semaphore
