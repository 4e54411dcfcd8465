import Armsx3.Library.History
import Armsx3.Library.Transition

/-!
# SpuMailbox — the inbound mailbox of an SPU

`spu_channel_4_t`: the pushes, of which the group mutex admits one at a time, and the SPU's `try_pop` and `pop_wait`.
Three entries stand in the word `values`, the fourth in `value3`, which a push writes first.

Every atomic operation is one step; the functions the SPU gives to `fetch_op` touch other words, so load, evaluation
and commit are three.  Sleeping and notification are left out: a waiting SPU may look at the word at any time.
-/

namespace Armsx3.Cell

/-- `sync_var_t`; `waiting` is the pair of its bits `bit_occupy` and `bit_wait`. -/
structure SyncVar where
  occupy : Bool := false
  wait : Bool := false
  count : Nat := 0
  value3Inval : BitVec 16 := 0
  value0 : BitVec 32 := 0
  value1 : BitVec 32 := 0
  value2 : BitVec 32 := 0
deriving DecidableEq, Repr

namespace SyncVar

def pushed (w : SyncVar) (value : BitVec 32) : SyncVar :=
  match w.count with
  | 0 => { w with count := 1, value0 := value }
  | 1 => { w with count := 2, value1 := value }
  | 2 => { w with count := 3, value2 := value }
  | _ => { w with count := 4, value3Inval := w.value3Inval + 1 }

def popped (w : SyncVar) (value3 : BitVec 32) : SyncVar :=
  { w with
    occupy := false
    wait := false
    count := w.count - 1
    value0 := w.value1
    value1 := w.value2
    value2 := value3 }

def awaiting (w : SyncVar) (popValue : Bool) : SyncVar := { w with occupy := popValue, wait := true }

def released (w : SyncVar) : SyncVar := { w with occupy := false, wait := false }

end SyncVar

/-- What a call of the SPU returns: an entry with the count before its removal, 0 of `try_pop`, or the count that
`pop_wait` without `pop_value` has waited for. -/
inductive MailboxRead
  | pop (count : Nat) (value : BitVec 32)
  | empty
  | peek (count : Nat)
deriving DecidableEq, Repr

/-- A call with its result; a push returns the old count and the new one. -/
inductive MailboxCall
  | push (value : BitVec 32) (old new : Nat)
  | read (r : MailboxRead)
deriving DecidableEq, Repr

namespace MailboxCall

/-- The mailbox as a sequential object: a queue of four entries, the newest of which is replaced when it is full. -/
def apply : List (BitVec 32) → MailboxCall → Option (List (BitVec 32))
  | q, .push value old new =>
    if old = q.length ∧ new = min (q.length + 1) 4 then
      some (if q.length < 4 then q ++ [value] else q.dropLast ++ [value])
    else none
  | value' :: q, .read (.pop count value) => if count = q.length + 1 ∧ value = value' then some q else none
  | [], .read (.pop _ _) => none
  | q, .read .empty => if q = [] then some q else none
  | q, .read (.peek count) => if count = q.length ∧ q ≠ [] then some q else none

def pushValue : MailboxCall → Option (BitVec 32)
  | .push value _ _ => some value
  | .read _ => none

def pushResult : MailboxCall → Option (Nat × Nat)
  | .push _ old new => some (old, new)
  | .read _ => none

def readResult : MailboxCall → Option MailboxRead
  | .push _ _ _ => none
  | .read r => some r

end MailboxCall

/-- Where the push is; `oldCount` and `oldWait` are parts of the word that its `fetch_op` returned. -/
inductive MailboxPush
  | out
  | start (value : BitVec 32)
  | word (value : BitVec 32)
  | jostle (value : BitVec 32) (oldCount : Nat) (oldWait : Bool)
  | clear (oldCount : Nat)
deriving DecidableEq, Repr

namespace MailboxPush

def owed : MailboxPush → Option (BitVec 32)
  | .start value => some value
  | .word value => some value
  | .jostle value _ _ => some value
  | _ => none

def result : MailboxPush → Option (Nat × Nat)
  | .clear oldCount => some (oldCount, min (oldCount + 1) 4)
  | _ => none

/-- Between the write of `value3` and the update of the word. -/
def atWord : MailboxPush → Bool
  | .word _ => true
  | _ => false

def jostling : MailboxPush → Bool
  | .jostle _ _ _ => true
  | _ => false

def clearing : MailboxPush → Bool
  | .clear _ => true
  | _ => false

end MailboxPush

inductive MailboxPop
  | tryPop
  | popWait (popValue : Bool)
deriving DecidableEq, Repr

def MailboxPop.pops : MailboxPop → Bool
  | .tryPop => true
  | .popWait popValue => popValue

/-- Where the SPU is; `fulls` belongs to the word that was read, and `value3` is what the function found there. -/
inductive MailboxSpu
  | out
  | loaded (call : MailboxPop) (old : SyncVar) (fulls : Nat)
  | evaluated (call : MailboxPop) (old : SyncVar) (fulls : Nat) (value3 : BitVec 32)
  | waiting (popValue : Bool)
  | take (popValue : Bool)
  | aborting
  | exchanging (popValue : Bool)
deriving DecidableEq, Repr

structure Mailbox where
  values : SyncVar := {}
  /-- `none` is `jostling_flag`. -/
  jostlingValue : Option (BitVec 32) := some 0
  value3 : BitVec 32 := 0
  pusher : MailboxPush := .out
  spu : MailboxSpu := .out
  /-- A push has returned with `op_done` false. -/
  refused : Bool := false
  /-- How often `value3_inval` was incremented. -/
  fulls : Nat := 0
  log : List MailboxCall := []
  issued : List (BitVec 32) := []
  pushResults : List (Nat × Nat) := []
  /-- What the calls of the SPU that were not aborted returned. -/
  results : List MailboxRead := []
  /-- The result of a read that is in the log and has not returned. -/
  delivered : Option MailboxRead := none

namespace Mailbox

/-! ## `push` -/

def startPush (s : Mailbox) (value : BitVec 32) : Option Mailbox :=
  match s.pusher with
  | .out => some { s with pusher := .start value, issued := s.issued ++ [value] }
  | _ => none

def returnPush (s : Mailbox) (oldCount : Nat) : Mailbox :=
  { s with pusher := .out, pushResults := s.pushResults ++ [(oldCount, min (oldCount + 1) 4)] }

def pushWord (s : Mailbox) (value : BitVec 32) : Mailbox :=
  let entered : Mailbox :=
    { s with
      values := s.values.pushed value
      fulls := if s.values.count < 3 then s.fulls else s.fulls + 1
      log := s.log ++ [.push value s.values.count (min (s.values.count + 1) 4)] }
  if s.values.wait then
    { entered with
      log := entered.log ++ [.read (.peek 1)]
      delivered := some (.peek 1)
      pusher := .clear s.values.count }
  else entered.returnPush s.values.count

/-- The value goes to `jostling_value`, which serves the pop that waits. -/
def pushJostling (s : Mailbox) (value : BitVec 32) (oldCount : Nat) (oldWait : Bool) : Mailbox :=
  let entered : Mailbox :=
    { s with
      jostlingValue := some value
      log := s.log ++ [.push value oldCount (min (oldCount + 1) 4), .read (.pop 1 value)]
      delivered := some (.pop 1 value) }
  if oldWait then { entered with pusher := .clear oldCount } else entered.returnPush oldCount

def clearWait (s : Mailbox) (oldCount : Nat) : Mailbox :=
  if s.values.wait then { s with values := s.values.released }.returnPush oldCount
  else { s with values := s.values.released, pusher := .out, refused := true }

def pushStep (s : Mailbox) : Option Mailbox :=
  match s.pusher with
  | .out => none
  | .start value => some { s with value3 := value, pusher := .word value }
  | .word value =>
    if s.values.occupy then some { s with pusher := .jostle value s.values.count s.values.wait }
    else some (s.pushWord value)
  | .jostle value oldCount oldWait =>
    -- `compare_and_swap_test(jostling_flag, value)`, and the loop again when it fails
    if s.jostlingValue = none then some (s.pushJostling value oldCount oldWait)
    else some { s with pusher := .start value }
  | .clear oldCount => some (s.clearWait oldCount)

/-! ## `try_pop` and `pop_wait` -/

def load (s : Mailbox) (call : MailboxPop) : Mailbox := { s with spu := .loaded call s.values s.fulls }

/-- The function of `fetch_op`, which reads `value3` or stores to `jostling_value`. -/
def evaluate (s : Mailbox) (call : MailboxPop) (old : SyncVar) (fulls : Nat) : Mailbox :=
  { s with
    jostlingValue := match call, old.count with
      | .popWait true, 0 => none
      | .popWait false, 0 => some 0
      | _, _ => s.jostlingValue
    spu := .evaluated call old fulls s.value3 }

def returnRead (s : Mailbox) (r : MailboxRead) : Mailbox :=
  { s with spu := .out, log := s.log ++ [.read r], results := s.results ++ [r] }

def commit (s : Mailbox) (call : MailboxPop) (old : SyncVar) (value3 : BitVec 32) : Mailbox :=
  if s.values = old then
    if old.count = 0 then
      match call with
      | .tryPop => s.returnRead .empty
      | .popWait popValue => { s with values := old.awaiting popValue, spu := .waiting popValue }
    else if call.pops then { s with values := old.popped value3 }.returnRead (.pop old.count old.value0)
    else s.returnRead (.peek old.count)
  else s.load call

def take (s : Mailbox) (popValue : Bool) : Mailbox :=
  if popValue then
    { s with
      jostlingValue := some 0
      spu := .out
      results := s.results ++ [.pop 1 (s.jostlingValue.getD 0)]
      delivered := none }
  else { s with spu := .out, results := s.results ++ [.peek 1], delivered := none }

def abort (s : Mailbox) : Mailbox :=
  match s.jostlingValue with
  | some value =>
    { s with jostlingValue := some 0, spu := .out, results := s.results ++ [.pop 1 value], delivered := none }
  | none => { s with jostlingValue := some 0, spu := .exchanging true }

/-- `exchange(waiting, 0)`: the call ends without a result if the bit was still set. -/
def exchange (s : Mailbox) (popValue : Bool) : Mailbox :=
  { s with values := s.values.released, spu := if s.values.wait then .out else .take popValue }

def spuStep (s : Mailbox) : Option Mailbox :=
  match s.spu with
  | .out | .waiting _ => none
  | .loaded call old fulls => some (s.evaluate call old fulls)
  | .evaluated call old _ value3 => some (s.commit call old value3)
  | .take popValue => some (s.take popValue)
  | .aborting => some s.abort
  | .exchanging popValue => some (s.exchange popValue)

def startRead (s : Mailbox) (call : MailboxPop) : Option Mailbox :=
  match s.spu with
  | .out => some (s.load call)
  | _ => none

def check (s : Mailbox) : Option Mailbox :=
  match s.spu with
  | .waiting popValue => some (if s.values.wait then s else { s with spu := .take popValue })
  | _ => none

def stop (s : Mailbox) : Option Mailbox :=
  match s.spu with
  | .waiting popValue =>
    if s.values.wait then some { s with spu := if popValue then .aborting else .exchanging false } else none
  | _ => none

end Mailbox

inductive MailboxEvent
  | startPush (value : BitVec 32)
  | push
  | startRead (call : MailboxPop)
  | spu
  | check
  | stop
deriving DecidableEq, Repr

def Mailbox.step (s : Mailbox) : MailboxEvent → Option Mailbox
  | .startPush value => s.startPush value
  | .push => s.pushStep
  | .startRead call => s.startRead call
  | .spu => s.spuStep
  | .check => s.check
  | .stop => s.stop

def mailboxSystem : Transition.System Mailbox MailboxEvent where
  init s := s = {}
  step := Mailbox.step

/-- The SPU and the push do not meet between the two writes of a push:
a pop reads the fourth entry of a full queue only while no push has written it and not yet updated the word;
an empty queue is waited on only while no push is behind its update of the word;
fewer than 2^16 pushes onto a full queue come between load and commit;
an SPU that has waited for the count is not aborted between the entry and the waiting bit of a push. -/
def Mailbox.Apart (s : Mailbox) : Prop :=
  match s.spu with
  | .loaded call old _ =>
    (call.pops = true → old.count = 4 → s.pusher.atWord = false) ∧
    (call ≠ .tryPop → old.count = 0 → s.pusher.jostling = false ∧ s.pusher.clearing = false)
  | .evaluated _ _ fulls _ => s.fulls < fulls + 2 ^ 16
  | .exchanging false => s.pusher.clearing = false
  | _ => True

instance (s : Mailbox) : Decidable s.Apart :=
  match h : s.spu with
  | .loaded call old _ =>
    decidable_of_iff ((call.pops = true → old.count = 4 → s.pusher.atWord = false) ∧
      (call ≠ .tryPop → old.count = 0 → s.pusher.jostling = false ∧ s.pusher.clearing = false))
      (by rw [Mailbox.Apart, h])
  | .evaluated _ _ fulls _ => decidable_of_iff (s.fulls < fulls + 2 ^ 16) (by rw [Mailbox.Apart, h])
  | .exchanging false => decidable_of_iff (s.pusher.clearing = false) (by rw [Mailbox.Apart, h])
  | .exchanging true | .out | .waiting _ | .take _ | .aborting => .isTrue (by rw [Mailbox.Apart, h]; trivial)

def MailboxApart (s : Mailbox) : MailboxEvent → Prop
  | .spu => s.Apart
  | _ => True

instance (s : Mailbox) (e : MailboxEvent) : Decidable (MailboxApart s e) :=
  match e with
  | .spu => inferInstanceAs (Decidable s.Apart)
  | .startPush _ | .push | .startRead _ | .check | .stop => .isTrue trivial

/-- The results are those of the calls of the log, made one after the other on a queue of four entries. -/
structure MailboxSafe (s : Mailbox) : Prop where
  sequential : (History.replay MailboxCall.apply [] s.log).isSome
  /-- Every push that was begun is in the log, in order, or has not been entered yet. -/
  pushes : s.log.filterMap MailboxCall.pushValue ++ s.pusher.owed.toList = s.issued
  /-- The pushes return the results of the log, and one is held back only during a call. -/
  pushReturned : s.log.filterMap MailboxCall.pushResult = s.pushResults ++ s.pusher.result.toList
  /-- The SPU is given the results of the log, and one is held back only during a call. -/
  readReturned : s.log.filterMap MailboxCall.readResult = s.results ++ s.delivered.toList
  complete : s.spu = .out → s.delivered = none
  accepted : s.refused = false

end Armsx3.Cell
