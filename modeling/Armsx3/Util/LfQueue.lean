import Armsx3.Library.LinkedList
import Armsx3.Library.Transition

/-!
# LfQueue — the list that consumers drain at once

`lf_queue<T>` of `lockless.h`.  A step is one atomic operation on the head, or one access to a thread's own nodes.
Nodes are allocated at any address that is not in use, also at one just freed.
-/

namespace Armsx3.Util

open Transition LinkedList Function

namespace LfQueue

structure FatPtr where
  ptr : Nat := 0
  isNonNull : Nat := 0
deriving DecidableEq, Repr

inductive Producer (α : Type)
  | idle
  | load (data : α) (Notify : Bool)
  /-- `new lf_queue_item<T>(load(oldv), ...)` -/
  | new (data : α) (Notify : Bool) (oldv : FatPtr)
  | cas (data : α) (Notify : Bool) (oldv : FatPtr) (item : Nat)
  | notify
deriving DecidableEq, Repr

/-- A consumer, with the number of the batch it has withdrawn. -/
inductive Consumer
  | idle
  /-- `load(m_head)` of `reverse` -/
  | check
  /-- the exchange of `reverse` if `fifo`, and of `pop_all_reversed` otherwise -/
  | exchange (fifo : Bool)
  | withdrawn (batch head : Nat)
  /-- the loop of `reverse` -/
  | reversing (batch head prev : Nat)
  /-- with a slice that is not empty -/
  | slice (batch head : Nat)
  /-- `wait`: the check of the head, the wait for `is_non_null`, and asleep in it -/
  | waitCheck
  | wait
  | asleep
deriving DecidableEq, Repr

def Consumer.batch? : Consumer → Option Nat
  | .withdrawn k _ | .reversing k _ _ | .slice k _ => some k
  | _ => none

inductive Event (α P C : Type)
  | push (p : P) (data : α) (Notify : Bool)
  | produce (p : P)
  | new (p : P) (item : Nat)
  | notify (p : P) (woken : Option C)
  | popAll (c : C)
  | popAllReversed (c : C)
  | consume (c : C)
  /-- `pop_front` of the slice, after its first element was read -/
  | popFront (c : C)
  | wait (c : C)
  | wake (c : C)

end LfQueue

open LfQueue

/-- What was seen: the elements in the order of their successful compare-and-swaps (`pushed`), the results of their
pushes (`returned`), and of each of the `batches` its kind and the elements read from it. -/
structure LfQueue (α P C : Type) where
  heap : Heap α
  head : FatPtr
  producer : P → Producer α
  consumer : C → Consumer
  /-- A pointer was followed to memory that is not in use. -/
  crashed : Bool
  pushed : List α
  returned : List Bool
  batches : Nat
  fifo : Nat → Bool
  delivered : Nat → List α
  /-- The first element of the queue was pushed without a notification. -/
  silent : Bool

namespace LfQueue

variable {α P C : Type} [DecidableEq P] [DecidableEq C] [Fintype C]

def setProducer (s : LfQueue α P C) (p : P) (pc : Producer α) : LfQueue α P C :=
  { s with producer := update s.producer p pc }

def setConsumer (s : LfQueue α P C) (c : C) (pc : Consumer) : LfQueue α P C :=
  { s with consumer := update s.consumer c pc }

def produce (s : LfQueue α P C) (p : P) : Option (LfQueue α P C) :=
  match s.producer p with
  | .load data Notify => some (s.setProducer p (.new data Notify s.head))
  | .cas data Notify oldv item =>
    if s.head = oldv then
      some { s.setProducer p (if oldv.ptr = 0 ∧ Notify then .notify else .idle) with
        head := ⟨item, 1⟩
        pushed := s.pushed ++ [data]
        returned := s.returned ++ [decide (oldv.ptr = 0)]
        silent := if oldv.ptr = 0 then !Notify else s.silent }
    else
      some { s.setProducer p (.cas data Notify s.head item) with
        heap := setLink s.heap item s.head.ptr
        crashed := s.crashed || (s.heap item).isNone }
  | _ => none

def allocate (s : LfQueue α P C) (p : P) (item : Nat) : Option (LfQueue α P C) :=
  match s.producer p with
  | .new data Notify oldv =>
    if item ≠ 0 ∧ (s.heap item).isNone then
      some { s.setProducer p (.cas data Notify oldv item) with
        heap := update s.heap item (some ⟨oldv.ptr, data⟩) }
    else none
  | _ => none

def follow (s : LfQueue α P C) (ptr : Nat) (k : Node α → LfQueue α P C) : LfQueue α P C :=
  match s.heap ptr with
  | none => { s with crashed := true }
  | some node => k node

def consume (s : LfQueue α P C) (c : C) : Option (LfQueue α P C) :=
  match s.consumer c with
  | .check => some (s.setConsumer c (if s.head.ptr = 0 then .idle else .exchange true))
  | .exchange fifo =>
    if s.head.ptr = 0 then some { s.setConsumer c .idle with head := {} }
    else
      some { s.setConsumer c
          (if fifo then .withdrawn s.batches s.head.ptr else .slice s.batches s.head.ptr) with
        head := {}
        batches := s.batches + 1
        fifo := update s.fifo s.batches fifo
        delivered := update s.delivered s.batches [] }
  | .withdrawn k head => some <| s.follow head fun node =>
    if node.link = 0 then s.setConsumer c (.slice k head)
    else { s.setConsumer c (.reversing k head node.link) with heap := setLink s.heap head 0 }
  | .reversing k head prev => some <| s.follow prev fun node =>
    { s.setConsumer c (if node.link = 0 then .slice k prev else .reversing k prev node.link) with
      heap := setLink s.heap prev head }
  | .waitCheck => some (s.setConsumer c (if s.head.ptr = 0 then .wait else .idle))
  | .wait => some (s.setConsumer c (if s.head.isNonNull = 0 then .asleep else .idle))
  | _ => none

def popFront (s : LfQueue α P C) (c : C) : Option (LfQueue α P C) :=
  match s.consumer c with
  | .slice k head => some <| s.follow head fun node =>
    { s.setConsumer c (if node.link = 0 then .idle else .slice k node.link) with
      heap := free s.heap head
      delivered := update s.delivered k (s.delivered k ++ [node.data]) }
  | _ => none

def enter (s : LfQueue α P C) (c : C) (pc : Consumer) : Option (LfQueue α P C) :=
  if s.consumer c = .idle then some (s.setConsumer c pc) else none

def wake (s : LfQueue α P C) (c : C) : Option (LfQueue α P C) :=
  if s.consumer c = .asleep then some (s.setConsumer c .idle) else none

def NoneAsleep (s : LfQueue α P C) : Prop := ∀ c, s.consumer c ≠ .asleep

instance (s : LfQueue α P C) : Decidable s.NoneAsleep :=
  inferInstanceAs (Decidable (∀ c, s.consumer c ≠ .asleep))

def step (s : LfQueue α P C) : Event α P C → Option (LfQueue α P C)
  | .push p data Notify =>
    match s.producer p with
    | .idle => some (s.setProducer p (.load data Notify))
    | _ => none
  | .produce p => s.produce p
  | .new p item => s.allocate p item
  | .notify p woken =>
    match s.producer p with
    | .notify =>
      match woken with
      | none => if s.NoneAsleep then some (s.setProducer p .idle) else none
      | some c => (s.setProducer p .idle).wake c
    | _ => none
  | .popAll c => s.enter c .check
  | .popAllReversed c => s.enter c (.exchange false)
  | .consume c => s.consume c
  | .popFront c => s.popFront c
  | .wait c => s.enter c .waitCheck
  | .wake c => s.wake c

def init : LfQueue α P C where
  heap := fun _ => none
  head := {}
  producer := fun _ => .idle
  consumer := fun _ => .idle
  crashed := false
  pushed := []
  returned := []
  batches := 0
  fifo := fun _ => true
  delivered := fun _ => []
  silent := false

def marks : List α → List Bool
  | [] => []
  | _ :: l => true :: l.map fun _ => false

def inOrder (fifo : Bool) (l : List α) : List α := if fifo then l else l.reverse

/-- `content` has the elements of each batch from the oldest to the newest, and `queue` the nodes that are
linked from the head. -/
structure Safe (s : LfQueue α P C) (content : Nat → List α) (queue : List (Nat × α)) : Prop where
  linked : Linked s.heap s.head.ptr queue
  order : s.pushed = (List.range s.batches).flatMap content ++ (queue.map Prod.snd).reverse
  results : s.returned =
    ((List.range s.batches).flatMap fun k => marks (content k)) ++ marks (queue.map Prod.snd).reverse
  nonempty : ∀ k, k < s.batches → content k ≠ []
  /-- A batch belongs to one consumer. -/
  exclusive : ∀ c c' k, (s.consumer c).batch? = some k → (s.consumer c').batch? = some k → c = c'
  /-- What was read and what is left of a slice are the batch. -/
  reading : ∀ c k head, s.consumer c = .slice k head → ∃ l, Linked s.heap head l ∧
    s.delivered k ++ l.map Prod.snd = inOrder (s.fifo k) (content k)
  /-- While a list is turned round, nothing is lost, and there is an end to it. -/
  reversing : ∀ c k head prev, s.consumer c = .reversing k head prev → ∃ l l',
    Linked s.heap prev l ∧ Linked s.heap head l' ∧ s.delivered k = [] ∧ s.fifo k = true ∧
    (l.map Prod.snd).reverse ++ l'.map Prod.snd = content k
  withdrawn : ∀ c k head, s.consumer c = .withdrawn k head → ∃ l, Linked s.heap head l ∧
    s.delivered k = [] ∧ s.fifo k = true ∧ (l.map Prod.snd).reverse = content k
  /-- A batch that nobody has any more was read as a whole. -/
  read : ∀ k, k < s.batches → (∀ c, (s.consumer c).batch? ≠ some k) → s.delivered k = inOrder (s.fifo k) (content k)
  crashed : s.crashed = false
  /-- The only consumer does not sleep over elements, unless it will be woken or nobody was to wake it. -/
  notified : ∀ c, (∀ c', c' = c) → s.consumer c = .asleep → queue ≠ [] → (∃ p, s.producer p = .notify) ∨ s.silent = true

end LfQueue

def lfQueueSystem (α P C : Type) [DecidableEq P] [DecidableEq C] [Fintype C] : System (LfQueue α P C) (Event α P C) where
  init s := s = LfQueue.init
  step := LfQueue.step

end Armsx3.Util
