import Armsx3.Lv2.Sync
import Armsx3.Library.Transition

/-!
# Scheduler — the run list of the LV2 scheduler

`sleep_unlocked`, `awake_unlocked` and `schedule_all` of `lv2.cpp`, under `g_mutex`.  The run list `g_ppu` is the list
of its nodes.  `start_time`, `hw_sleep_time`, `cpu_flag::yield`, `preempt` and `notify`, which only delay or preempt,
are left out.
-/

namespace Armsx3.Lv2

open Function

structure Scheduler where
  ppu : List Tid
  waiting : List (Nat × Tid)
  pending : Int
  toSleep : List Tid
  ready : Bool
  prio : Tid → Int
  /-- `cpu_flag::suspend` and `cpu_flag::signal` -/
  suspend : Tid → Bool
  signal : Tid → Bool
  ackSuspend : Tid → Bool
  cancelSleep : Tid → Nat
  /-- counts the insertions into the run list; when a thread was last put at the end of a group, and when it last became
  runnable or yielded -/
  clock : Nat
  entered : Tid → Nat
  runnable : Tid → Nat

namespace Scheduler

variable (s : Scheduler)

def acknowledge (t : Tid) : Scheduler :=
  if s.ackSuspend t then
    { s with ackSuspend := update s.ackSuspend t false, pending := s.pending - 1 }
  else s

/-! ## Sleeping -/

def insertWaiting (waitUntil : Nat) (t : Tid) : List (Nat × Tid) → List (Nat × Tid)
  | [] => [(waitUntil, t)]
  | e :: rest => if e.1 > waitUntil then (waitUntil, t) :: e :: rest else e :: insertWaiting waitUntil t rest

def registerTimeout (t : Tid) (timeout now : Nat) : Scheduler :=
  if timeout ≠ 0 then
    { s with waiting := insertWaiting (now + min timeout (2 ^ 64 - 1 - now)) t s.waiting }
  else s

def sleepUnlocked (t : Tid) (timeout now : Nat) : Scheduler × Bool :=
  let s := s.acknowledge t
  -- 2 signals that the operation was cancelled and replaced with a short yield
  let returnVal := s.cancelSleep t ≠ 2
  let s := { s with cancelSleep := update s.cancelSleep t 0 }
  if s.signal t then (s, false)
  else
    let s := { s with suspend := update s.suspend t true }
    match unqueue s.ppu t with
    | none => if t ∈ s.toSleep then ({ s with toSleep := s.toSleep.erase t }, true) else (s, false)
    | some l => ({ s with ppu := l }.registerTimeout t timeout now, returnVal)

/-! ## Waking up -/

/-- The walk of `emplace_thread`, `none` if the thread is found in the list. -/
def emplaceWalk (prio : Tid → Int) (cpu : Tid) : List Tid → Option (List Tid)
  | [] => some [cpu]
  | next :: rest =>
    if next = cpu then none
    else if prio next > prio cpu then some (cpu :: next :: rest)
    else (emplaceWalk prio cpu rest).map (next :: ·)

/-- `emplace_thread`; `awakes` tells whether the thread has not been runnable before. -/
def emplaceThread (cpu : Tid) (awakes : Bool) : Scheduler × Bool :=
  match emplaceWalk s.prio cpu s.ppu with
  | none =>
    -- the next sleep call of the thread is cancelled
    ({ s with cancelSleep :=
        if s.cancelSleep cpu = 1 then update s.cancelSleep cpu 2 else s.cancelSleep }, false)
  | some l =>
    ({ s with
        ppu := l
        waiting := s.waiting.eraseP fun e => e.2 = cpu
        clock := s.clock + 1
        entered := update s.entered cpu s.clock
        runnable := if awakes then update s.runnable cpu s.clock else s.runnable }, true)

def emplaceAll (toAwake : List Tid) : Scheduler × Bool :=
  toAwake.foldl (fun r t => let r' := r.1.emplaceThread t true; (r'.1, r.2 || r'.2)) (s, false)

def suspendThread (t : Tid) : Scheduler :=
  if s.suspend t then s
  else
    { s with
      ackSuspend := update s.ackSuspend t true
      pending := s.pending + 1
      suspend := update s.suspend t true }

def suspendOthers (ppuThreads : Nat) (current : Option Tid) : Scheduler :=
  let s := (s.ppu.drop ppuThreads).foldl suspendThread s
  match current with
  | some t => s.acknowledge t
  | none => s

/-- The rotation of a yield: the new list and the new position of the thread, `none` if there is no other thread of its
priority behind it. -/
def rotate (prio : Tid → Int) (cpu : Tid) : List Tid → Option (List Tid × Nat)
  | [] => none
  | ppu :: rest =>
    if ppu = cpu then
      match rest.takeWhile (fun t => prio t = prio cpu) with
      | [] => none
      | t :: group =>
        some (t :: group ++ cpu :: rest.dropWhile (fun t => prio t = prio cpu), group.length + 1)
    else (rotate prio cpu rest).map fun r => (ppu :: r.1, r.2 + 1)

def rotated (cpu : Tid) (l : List Tid) : Scheduler :=
  { s with
    ppu := l
    clock := s.clock + 1
    entered := update s.entered cpu s.clock
    runnable := update s.runnable cpu s.clock }

def awakeSetPrio (ppuThreads : Nat) (cpu : Tid) (prio : Int) (current : Option Tid) : Scheduler × Bool :=
  -- pushes the thread to the back of its priority list, if it is not the current one
  if s.prio cpu = prio ∧ current = some cpu then (s, true)
  else
    let s' := { s with prio := update s.prio cpu prio }
    match unqueue s.ppu cpu with
    | none => (s', true)
    | some l =>
      let r := { s' with ppu := l }.emplaceThread cpu false
      (r.1.suspendOthers ppuThreads current, r.2)

def awakeYield (ppuThreads : Nat) (cpu : Tid) (toAwake : List Tid) (current : Option Tid) : Scheduler × Bool :=
  match rotate s.prio cpu s.ppu with
  | none => (s, false)
  | some (l, i) =>
    -- below `ppu_threads` threads were rotated, but no context switch was made
    if i < ppuThreads then (s.rotated cpu l, false)
    else (((s.rotated cpu l).emplaceAll toAwake).1.suspendOthers ppuThreads current, true)

/-- `awake_unlocked(cpu)`, where without a thread those of `g_to_awake` are woken up -/
def awakeEnqueue (ppuThreads : Nat) (cpu : Option Tid) (toAwake : List Tid) (current : Option Tid) : Scheduler × Bool :=
  let r := match cpu with
    | some t => s.emplaceThread t true
    | none => s.emplaceAll toAwake
  (r.1.suspendOthers ppuThreads current, r.2)

/-! ## Scheduling -/

def wake (t : Tid) : Scheduler :=
  if s.suspend t then
    { s with suspend := update s.suspend t false, signal := update s.signal t true }
  else s

def scheduleAll (ppuThreads now : Nat) : Scheduler :=
  let s := if s.pending = 0 ∧ s.ready then (s.ppu.take ppuThreads).foldl wake s else s
  { s with waiting := s.waiting.dropWhile fun e => e.1 ≤ now }

end Scheduler

inductive SchedEvent
  | sleep (t : Tid) (timeout now : Nat)
  | awake (cpu : Option Tid) (toAwake : List Tid) (current : Option Tid)
  | yield (cpu : Tid) (toAwake : List Tid) (current : Option Tid)
  | setPriority (cpu : Tid) (prio : Int) (current : Option Tid)
  | scheduleAll (now : Nat)
  /-- `check_state` takes back `cpu_flag::signal` -/
  | checkState (t : Tid)
  /-- a thread outside of the run list is created or exits -/
  | outside (t : Tid) (prio : Int) (suspend : Bool)
  | makeReady

def schedSystem (ppuThreads : Nat) : Transition.System Scheduler SchedEvent where
  init s := s.ppu = [] ∧ s.waiting = [] ∧ s.pending = 0 ∧ s.ready = false ∧ (∀ t, s.ackSuspend t = false) ∧
    ∀ t, s.entered t < s.clock
  step s
    | .sleep t timeout now => some (s.sleepUnlocked t timeout now).1
    | .awake cpu toAwake current => some (s.awakeEnqueue ppuThreads cpu toAwake current).1
    | .yield cpu toAwake current => some (s.awakeYield ppuThreads cpu toAwake current).1
    | .setPriority cpu prio current => some (s.awakeSetPrio ppuThreads cpu prio current).1
    | .scheduleAll now => some (s.scheduleAll ppuThreads now)
    | .checkState t => some { s with signal := update s.signal t false }
    | .outside t prio suspend =>
      if t ∉ s.ppu ∧ s.ackSuspend t = false then
        some { s with prio := update s.prio t prio, suspend := update s.suspend t suspend }
      else none
    | .makeReady => some { s with ready := true }

/-- The order of the run list, for a time at which threads have come into their group. -/
def Scheduler.Before (s : Scheduler) (since : Tid → Nat) (a b : Tid) : Prop :=
  s.prio a < s.prio b ∨ s.prio a = s.prio b ∧ since a < since b

structure SchedSafe (ppuThreads : Nat) (s : Scheduler) : Prop where
  nodup : s.ppu.Nodup
  /-- by priority, and in one group in the order in which the threads were put at its end -/
  ordered : s.ppu.Pairwise (s.Before s.entered)
  /-- a yield moves the caller to the end of its group, and nobody else -/
  yields : ∀ cpu ∈ s.ppu, ∀ current, ∃ before group after,
    s.ppu = before ++ cpu :: (group ++ after) ∧ (∀ t ∈ group, s.prio t = s.prio cpu) ∧
      (∀ t ∈ after, s.prio cpu < s.prio t) ∧
      (s.awakeYield ppuThreads cpu [] current).1.ppu = before ++ (group ++ cpu :: after)
  deadlines : s.waiting.Pairwise fun a b => a.1 ≤ b.1
  single : (s.waiting.map Prod.snd).Nodup
  apart : ∀ e ∈ s.waiting, e.2 ∉ s.ppu
  pending : ∃ acks : Finset Tid, (∀ t, t ∈ acks ↔ s.ackSuspend t = true) ∧ s.pending = acks.card
  /-- all threads that are not to run are suspended -/
  beyond : ∀ t ∈ s.ppu.drop ppuThreads, s.suspend t = true
  /-- with no response pending, none of the threads that are to run stays suspended -/
  scheduled : s.pending = 0 → s.ready = true → ∀ now, ∀ t ∈ s.ppu.take ppuThreads,
    (s.scheduleAll ppuThreads now).suspend t = false

end Armsx3.Lv2
