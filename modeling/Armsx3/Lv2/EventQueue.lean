import Armsx3.Library.Transition
import Armsx3.Lv2.Sync

/-!
# EventQueue — `lv2_event_queue::send`, `sys_event_queue_receive`, `tryreceive` and `drain`

An event goes into the registers of a sleeping receiver, or into the list of events when no thread sleeps.  Apart from
one look at `pq` after a timeout every access is made under the mutex; the model takes the actions of its holder one at
a time.
-/

namespace Armsx3.Lv2.EventQueue

open Transition Function

structure Ev where
  source : BitVec 64
  data1 : BitVec 64
  data2 : BitVec 64
  data3 : BitVec 64
  deriving DecidableEq

inductive QueueType
  | ppu | spu
  deriving DecidableEq

/-- The constants of an `lv2_event_queue`, with what `sys_event_queue_create` has checked. -/
structure Queue where
  protocol : Protocol
  type : QueueType
  size : Nat
  size_pos : 0 < size
  size_le : size ≤ 127

/-- An event as a receiver finds it: in `gpr[4..7]`, or in the inbound mailbox of an SPU, which
keeps the low halves of three of the words. -/
inductive Packet
  | regs (event : Ev)
  | mbox (data1 data2 data3 : BitVec 32)
  deriving DecidableEq

def QueueType.packet : QueueType → Ev → Packet
  | .ppu, e => .regs e
  | .spu, e => .mbox (e.data1.setWidth 32) (e.data2.setWidth 32) (e.data3.setWidth 32)

/-- Where a thread is.  `timedOutEmpty` is the branch that has seen `pq` empty and only waits for
the mutex to be given back. -/
inductive Pc
  | idle
  | sendLock (event : Ev)
  | recvLock (timed : Bool)
  | sleeping (timed : Bool)
  | timedOut
  | timedOutEmpty
  | timedOutLock
  | tryLock (size : Int)
  | tryCopy (events : List Ev)
  | spuTryLock
  | drainLock
  deriving DecidableEq

inductive Crit
  | send (event : Ev)
  | sendStore (u : Tid) (event : Ev)
  | sendAwake (u : Tid)
  | recv (timed : Bool)
  | unqueue
  | tryPop (size : Int) (events : List Ev)
  | spuTry
  | drain
  deriving DecidableEq

/-- The object, its threads and the history: the events sent, those that have left the queue with their receiver
(`none` is a drain), what the calls of each thread have returned, and the threads that were handed an event and did
not return yet. -/
structure State where
  events : List Ev
  pq : List Tid
  sq : List Tid
  mutex : Option (Tid × Crit)
  sched : Sched
  pc : Tid → Pc
  gpr3 : Tid → CellError
  data : Tid → Packet
  failed : Bool
  sent : List Ev
  left : List (Ev × Option Tid)
  received : Tid → List Packet
  handed : List Tid

inductive Event
  | send (t : Tid) (event : Ev)
  | receive (t : Tid) (timed : Bool)
  | tryreceive (t : Tid) (size : BitVec 32)
  | spuReceive (t : Tid)
  | spuTryreceive (t : Tid)
  | drain (t : Tid)
  | timeout (t : Tid)
  | run (t : Tid)

namespace State

variable (s : State)

def goto (t : Tid) (p : Pc) : State := { s with pc := update s.pc t p }

def ret (t : Tid) (e : CellError) : State :=
  { s with pc := update s.pc t .idle, gpr3 := update s.gpr3 t e }

def retWith (t : Tid) (ps : List Packet) : State :=
  { s with pc := update s.pc t .idle, gpr3 := update s.gpr3 t .ok
           received := update s.received t (s.received t ++ ps) }

end State

def runFree (s : State) (t : Tid) : Option State :=
  match s.pc t with
  | .idle => none
  | .sendLock event => if s.mutex = none then some { s with mutex := some (t, .send event) } else none
  | .recvLock timed => if s.mutex = none then some { s with mutex := some (t, .recv timed) } else none
  | .sleeping _ =>
    if s.sched.signal t then
      some ({ s with sched := s.sched.resetSignal t
                     handed := s.handed.erase t }.retWith t [s.data t])
    else none
  | .timedOut => some (s.goto t (if s.pq = [] then .timedOutEmpty else .timedOutLock))
  | .timedOutEmpty =>
    -- `queue->mutex.lock_unlock()`
    if s.mutex = none then
      some ({ s with handed := s.handed.erase t }.retWith t [s.data t])
    else none
  | .timedOutLock => if s.mutex = none then some { s with mutex := some (t, .unqueue) } else none
  | .tryLock size =>
    if s.mutex = none then some { s with mutex := some (t, .tryPop size []) } else none
  | .tryCopy events => some (s.retWith t (events.map .regs))
  | .spuTryLock => if s.mutex = none then some { s with mutex := some (t, .spuTry) } else none
  | .drainLock => if s.mutex = none then some { s with mutex := some (t, .drain) } else none

def runCrit (c : Queue) (s : State) (t : Tid) : Crit → State
  | .send event =>
    if s.pq = [] ∧ s.sq = [] then
      if s.events.length < c.size then
        { s with events := s.events ++ [event], sent := s.sent ++ [event], mutex := none }.ret t .ok
      else { s with mutex := none }.ret t .ebusy
    else
      match c.type with
      | .ppu =>
        match schedule c.protocol s.sched.prio s.pq with
        | none => { s with failed := true, mutex := none }.ret t .ok
        | some (u, pq) =>
          { s with pq := pq, handed := u :: s.handed, sent := s.sent ++ [event]
                   left := s.left ++ [(event, some u)], mutex := some (t, .sendStore u event) }
      | .spu =>
        match schedule c.protocol s.sched.prio s.sq with
        | none => { s with failed := true, mutex := none }.ret t .ok
        | some (u, sq) =>
          { s with sq := sq, handed := u :: s.handed, sent := s.sent ++ [event]
                   left := s.left ++ [(event, some u)], mutex := some (t, .sendStore u event) }
  | .sendStore u event =>
    { s with data := update s.data u (c.type.packet event)
             mutex := some (t, .sendAwake u) }
  | .sendAwake u => { s with sched := s.sched.awake u, mutex := none }.ret t .ok
  | .recv timed =>
    match s.events with
    | [] =>
      match c.type with
      | .ppu =>
        { s with pq := t :: s.pq, sched := (s.sched.sleep t).enqueued t, mutex := none }.goto t
          (.sleeping timed)
      | .spu =>
        { s with sq := t :: s.sq, sched := (s.sched.sleep t).enqueued t, mutex := none }.goto t
          (.sleeping timed)
    | event :: events =>
      { s with events := events, left := s.left ++ [(event, some t)]
               data := update s.data t (c.type.packet event)
               mutex := none }.retWith t [c.type.packet event]
  | .unqueue =>
    match unqueue s.pq t with
    | none => { s with handed := s.handed.erase t, mutex := none }.retWith t [s.data t]
    | some pq => { s with pq := pq, mutex := none }.ret t .etimedout
  | .tryPop size taken =>
    match s.events with
    | [] => { s with mutex := none }.goto t (.tryCopy taken)
    | event :: events =>
      if taken.length < size then
        -- the events are collected in a `std::array<sys_event_t, 127>`
        { s with events := events, left := s.left ++ [(event, some t)]
                 failed := s.failed || decide (127 ≤ taken.length)
                 mutex := some (t, .tryPop size (taken ++ [event])) }
      else { s with mutex := none }.goto t (.tryCopy taken)
  | .spuTry =>
    match s.events with
    | [] => { s with mutex := none }.ret t .ebusy
    | event :: events =>
      { s with events := events, left := s.left ++ [(event, some t)]
               data := update s.data t (c.type.packet event)
               mutex := none }.retWith t [c.type.packet event]
  | .drain =>
    { s with events := [], left := s.left ++ s.events.map fun e => (e, none)
             mutex := none }.ret t .ok

def step (c : Queue) (s : State) : Event → Option State
  | .send t event => if s.pc t = .idle then some (s.goto t (.sendLock event)) else none
  | .receive t timed =>
    if s.pc t = .idle then
      some (if c.type = .ppu then s.goto t (.recvLock timed) else s.ret t .einval)
    else none
  | .tryreceive t size =>
    if s.pc t = .idle then
      some (if c.type = .ppu then s.goto t (.tryLock size.toInt) else s.ret t .einval)
    else none
  -- an SPU thread only reaches queues `sys_spu_thread_bind_queue` has found to be of its type
  | .spuReceive t =>
    if s.pc t = .idle ∧ c.type = .spu then some (s.goto t (.recvLock false)) else none
  | .spuTryreceive t =>
    if s.pc t = .idle ∧ c.type = .spu then some (s.goto t .spuTryLock) else none
  | .drain t => if s.pc t = .idle then some (s.goto t .drainLock) else none
  | .timeout t =>
    if s.pc t = .sleeping true then
      some ({ s with sched := s.sched.checkState t }.goto t .timedOut)
    else none
  | .run t =>
    match s.mutex with
    | some (h, crit) => if h = t then some (runCrit c s t crit) else runFree s t
    | none => runFree s t

def Initial (s : State) : Prop :=
  s.events = [] ∧ s.pq = [] ∧ s.sq = [] ∧ s.mutex = none ∧ (∀ t, s.sched.asleep t = false) ∧
    (∀ t, s.sched.signal t = false) ∧ (∀ t, s.pc t = .idle) ∧ s.failed = false ∧
    s.sent = [] ∧ s.left = [] ∧ (∀ t, s.received t = []) ∧ s.handed = []

def State.created : State :=
  ⟨[], [], [], none, .running, fun _ => .idle, fun _ => .ok, fun _ => .mbox 0 0 0, false, [], [], fun _ => [], []⟩

theorem initial_created : Initial .created :=
  ⟨rfl, rfl, rfl, rfl, fun _ => rfl, fun _ => rfl, fun _ => rfl, rfl, rfl, rfl, fun _ => rfl, rfl⟩

def system (c : Queue) : System State Event where
  init := Initial
  step := step c

end Armsx3.Lv2.EventQueue
