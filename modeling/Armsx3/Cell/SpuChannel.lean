import Armsx3.Library.History
import Armsx3.Library.Transition

/-!
# SpuChannel — an inbound channel of an SPU

`spu_channel::push`, called by any number of threads, and `spu_channel::pop_wait`, called by the owner.  Every atomic
operation is one step.  The function that `pop_wait` gives to `fetch_op` stores to `jostling_value`, so load,
evaluation and commit are three.  The log has the calls in the order in which they take effect; no call reads it.
-/

namespace Armsx3.Cell

open Function

structure ChannelData where
  count : Bool := false
  occupy : Bool := false
  wait : Bool := false
  value : BitVec 32 := 0
deriving DecidableEq, Repr

namespace ChannelData

def pushed (d : ChannelData) (value : BitVec 32) (toOr : Bool) : ChannelData where
  count := true
  value := if toOr then d.value ||| value else value

def released (d : ChannelData) : ChannelData := { d with occupy := false, wait := false }

def awaiting (pop : Bool) : ChannelData where
  occupy := pop
  wait := true

def content (d : ChannelData) : Option (BitVec 32) := if d.count then some d.value else none

end ChannelData

/-- A call with its effect; `peek` is `pop_wait` without `pop`. -/
inductive ChannelCall
  | push (id : Nat) (value : BitVec 32) (toOr : Bool)
  | pop (value : BitVec 32)
  | peek (value : BitVec 32)
deriving DecidableEq, Repr

namespace ChannelCall

/-- The channel as a sequential object: one value or none. -/
def apply : Option (BitVec 32) → ChannelCall → Option (Option (BitVec 32))
  | content, .push _ value toOr => some (some (if toOr then content.getD 0 ||| value else value))
  | content, .pop value => if content = some value then some none else none
  | content, .peek value => if content = some value then some content else none

def pushId : ChannelCall → Option Nat
  | .push id _ _ => some id
  | _ => none

def readValue : ChannelCall → Option (BitVec 32)
  | .push _ _ _ => none
  | .pop value => some value
  | .peek value => some value

end ChannelCall

/-- Where a thread is in `push`; `oldWait` is `bit_wait` of the word that was read. -/
inductive PushAt
  | out
  | op (id : Nat) (value : BitVec 32) (toOr : Bool)
  | jostle (id : Nat) (value : BitVec 32) (toOr : Bool) (oldWait : Bool)
  | clear (oldWait : Bool)
  | notify
deriving DecidableEq, Repr

namespace PushAt

def owed : PushAt → Option Nat
  | .op id _ _ => some id
  | .jostle id _ _ _ => some id
  | _ => none

/-- Before the exchange of `jostling_value`. -/
def jostling : PushAt → Bool
  | .jostle _ _ _ _ => true
  | _ => false

/-- After the exchange of `jostling_value`, before the waiting bit is turned off. -/
def clearing : PushAt → Bool
  | .clear _ => true
  | _ => false

/-- Between its effect and the notification that it owes. -/
def finishing : PushAt → Bool
  | .clear _ => true
  | .notify => true
  | _ => false

end PushAt

inductive PopAt
  | out
  | loaded (pop : Bool) (old : ChannelData)
  | evaluated (pop : Bool) (old : ChannelData)
  | waiting (pop : Bool)
  | asleep (pop : Bool)
  | take (pop : Bool)
  | aborting (pop : Bool)
  | received (value : BitVec 32)
  | withdraw
deriving DecidableEq, Repr

structure Channel (n : Nat) where
  data : ChannelData := {}
  /-- `none` is `bit_occupy`. -/
  jostlingValue : Option (BitVec 32) := some 0
  spu : PopAt := .out
  threads : Fin n → PushAt := fun _ => .out
  /-- An `ensure` has failed. -/
  fault : Bool := false
  log : List ChannelCall := []
  issued : Nat := 0
  /-- What the calls of `pop_wait` that were not aborted returned. -/
  results : List (BitVec 32) := []
  /-- The value of a pop that is in the log and has not returned. -/
  delivered : Option (BitVec 32) := none
  /-- A push has taken effect since the SPU began to wait. -/
  written : Bool := false

namespace Channel

variable {n : Nat}

def setThread (s : Channel n) (p : Fin n) (l : PushAt) : Channel n :=
  { s with threads := update s.threads p l }

/-! ## `push` -/

def startPush (s : Channel n) (p : Fin n) (value : BitVec 32) (toOr : Bool) : Option (Channel n) :=
  match s.threads p with
  | .out => some { s with issued := s.issued + 1, threads := update s.threads p (.op s.issued value toOr) }
  | _ => none

def pushData (s : Channel n) (p : Fin n) (id : Nat) (value : BitVec 32) (toOr : Bool) : Channel n :=
  { s with
    data := s.data.pushed value toOr
    log := s.log ++ [.push id value toOr]
    written := true
    threads := update s.threads p (if s.data.wait then .notify else .out) }

/-- The value goes to `jostling_value`, which serves the pop that waits. -/
def pushJostling (s : Channel n) (p : Fin n) (id : Nat) (value : BitVec 32) (toOr oldWait : Bool) : Channel n :=
  { s with
    jostlingValue := some value
    log := s.log ++ [.push id value toOr, .pop value]
    delivered := some value
    written := true
    threads := update s.threads p (.clear oldWait) }

/-- `data.fetch_and(~occupy_ored_wait)` with the two checks behind it. -/
def clearWait (s : Channel n) (p : Fin n) (oldWait : Bool) : Channel n :=
  if s.data.wait && oldWait then { s with data := s.data.released, threads := update s.threads p .notify }
  else { s with data := s.data.released, fault := true, threads := update s.threads p .out }

def notify (s : Channel n) (p : Fin n) : Channel n :=
  { s with
    spu := match s.spu with
      | .asleep pop => .waiting pop
      | l => l
    threads := update s.threads p .out }

def pushStep (s : Channel n) (p : Fin n) : Option (Channel n) :=
  match s.threads p with
  | .out => none
  | .op id value toOr =>
    if s.data.occupy then some (s.setThread p (.jostle id value toOr s.data.wait))
    else some (s.pushData p id value toOr)
  | .jostle id value toOr oldWait =>
    -- `compare_and_swap_test(bit_occupy, value)`, and the loop again when it fails
    if s.jostlingValue = none then some (s.pushJostling p id value toOr oldWait)
    else some (s.setThread p (.op id value toOr))
  | .clear oldWait => some (s.clearWait p oldWait)
  | .notify => some (s.notify p)

/-! ## `pop_wait` -/

/-- `fetch_op` reads the word; without `pop` the function gives up on a value, and there is nothing to commit. -/
def load (s : Channel n) (pop : Bool) : Channel n :=
  if s.data.count && !pop then
    { s with spu := .out, log := s.log ++ [.peek s.data.value], results := s.results ++ [s.data.value] }
  else { s with spu := .loaded pop s.data }

/-- The function of `fetch_op`, which stores to `jostling_value` itself. -/
def evaluate (s : Channel n) (pop : Bool) (old : ChannelData) : Channel n :=
  { s with
    jostlingValue := if pop && !old.count then none else s.jostlingValue
    spu := .evaluated pop old }

def commit (s : Channel n) (pop : Bool) (old : ChannelData) : Channel n :=
  if s.data = old then
    if old.count then
      { s with
        data := {}
        spu := .out
        log := s.log ++ [.pop old.value]
        results := s.results ++ [old.value] }
    else { s with data := .awaiting pop, spu := .waiting pop, written := false }
  else s.load pop

def take (s : Channel n) (pop : Bool) : Channel n :=
  if pop then
    { s with
      jostlingValue := some 0
      spu := .out
      results := s.results ++ [s.jostlingValue.getD 0]
      delivered := none }
  else { s with spu := .out, log := s.log ++ [.peek s.data.value], results := s.results ++ [s.data.value] }

def abort (s : Channel n) (pop : Bool) : Channel n :=
  if pop then
    match s.jostlingValue with
    | some value => { s with jostlingValue := some 0, spu := .received value }
    | none => { s with jostlingValue := some 0, spu := .withdraw }
  else { s with data := { s.data with wait := false }, spu := .out }

/-- An aborted call that was served waits until the notifying thread has finished its operation. -/
def returnReceived (s : Channel n) (value : BitVec 32) : Channel n :=
  if s.data.wait then s else { s with spu := .out, results := s.results ++ [value], delivered := none }

def withdraw (s : Channel n) : Channel n :=
  if s.data.wait then { s with data := s.data.released, spu := .out }
  else { s with data := s.data.released, spu := .out, fault := true }

def popStep (s : Channel n) : Option (Channel n) :=
  match s.spu with
  | .out | .waiting _ | .asleep _ => none
  | .loaded pop old => some (s.evaluate pop old)
  | .evaluated pop old => some (s.commit pop old)
  | .take pop => some (s.take pop)
  | .aborting pop => some (s.abort pop)
  | .received value => some (s.returnReceived value)
  | .withdraw => some s.withdraw

def startPop (s : Channel n) (pop : Bool) : Option (Channel n) :=
  match s.spu with
  | .out => some (s.load pop)
  | _ => none

def check (s : Channel n) : Option (Channel n) :=
  match s.spu with
  | .waiting pop => some (if s.data.wait then s else { s with spu := .take pop })
  | _ => none

/-- `wait_on`: the thread sleeps if the upper half of the word is still the one it left. -/
def sleep (s : Channel n) : Option (Channel n) :=
  match s.spu with
  | .waiting pop =>
    some (if s.data.wait ∧ s.data.occupy = pop ∧ s.data.count = false then { s with spu := .asleep pop } else s)
  | _ => none

def wake (s : Channel n) : Option (Channel n) :=
  match s.spu with
  | .asleep pop => some { s with spu := .waiting pop }
  | _ => none

def stop (s : Channel n) : Option (Channel n) :=
  match s.spu with
  | .waiting pop => if s.data.wait then some { s with spu := .aborting pop } else none
  | _ => none

end Channel

inductive ChannelEvent (n : Nat)
  | startPush (p : Fin n) (value : BitVec 32) (toOr : Bool)
  | push (p : Fin n)
  | startPop (pop : Bool)
  | pop
  | check
  | sleep
  | wake
  | stop
deriving DecidableEq, Repr

namespace Channel

variable {n : Nat}

def step (s : Channel n) : ChannelEvent n → Option (Channel n)
  | .startPush p value toOr => s.startPush p value toOr
  | .push p => s.pushStep p
  | .startPop pop => s.startPop pop
  | .pop => s.popStep
  | .check => s.check
  | .sleep => s.sleep
  | .wake => s.wake
  | .stop => s.stop

end Channel

def channelSystem (n : Nat) : Transition.System (Channel n) (ChannelEvent n) where
  init s := s = {}
  step := Channel.step

/-- The SPU offers `jostling_value` only while no push is between its look at an occupied word and its exchange. -/
def OffersAlone {n : Nat} (s : Channel n) : ChannelEvent n → Prop
  | .pop => ∀ old : ChannelData, s.spu = .loaded true old → old.count = false → ∀ p, (s.threads p).jostling = false
  | _ => True

instance {n : Nat} (s : Channel n) (e : ChannelEvent n) : Decidable (OffersAlone s e) :=
  match e with
  | .pop =>
    match h : s.spu with
    | .loaded true old =>
      decidable_of_iff (old.count = false → ∀ p, (s.threads p).jostling = false)
        ⟨fun hp old' ho => by rw [h] at ho; injection ho with _ ho; exact ho ▸ hp, fun hp => hp old h⟩
    | .loaded false _ | .out | .evaluated _ _ | .waiting _ | .asleep _ | .take _ | .aborting _ | .received _
    | .withdraw => .isTrue fun _ ho => by rw [h] at ho; cases ho
  | .startPush _ _ _ | .push _ | .startPop _ | .check | .sleep | .wake | .stop => .isTrue trivial

structure ChannelSafe {n : Nat} (s : Channel n) : Prop where
  /-- The calls have the effects and results of some sequential order. -/
  sequential : (History.replay ChannelCall.apply none s.log).isSome
  /-- The SPU is given the values that were read in that order, and holds one back only during a call. -/
  returned : s.log.filterMap ChannelCall.readValue = s.results ++ s.delivered.toList
  complete : s.spu = .out → s.delivered = none
  /-- Every push is in that order once, or has not taken effect yet. -/
  accounted : History.Accounted s.issued (s.log.filterMap ChannelCall.pushId) fun p => (s.threads p).owed
  ensures : s.fault = false
  /-- An SPU that sleeps on after a push will be notified by it. -/
  awake : ∀ pop, s.spu = .asleep pop → s.written = true → ∃ p, (s.threads p).finishing = true
  /-- An SPU that looks after a push finds the waiting bit clear, or the push at the point of clearing it. -/
  seen : ∀ pop, s.spu = .waiting pop → s.written = true → s.data.wait = true → ∃ p, (s.threads p).clearing = true

end Armsx3.Cell
