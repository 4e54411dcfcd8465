import Armsx3.Library.ByteStore
import Armsx3.Library.Transition

/-!
# SyncQueue — the bounded queue of cellSync

Every update of the control word is one step, and so is every copy of an element; a blocking call repeats its first
update until it succeeds or the thread is stopped.
-/

namespace Armsx3.Cell.SyncQueue

inductive SyncError
  | NULL_POINTER | ALIGN | INVAL | BUSY
deriving DecidableEq, Repr

/-- `ctrl_t`: `next` and `count` are bit fields of 24 bits, `pop` and `push` of 8 bits. -/
structure Ctrl where
  next : Nat := 0
  pop : Nat := 0
  count : Nat := 0
  push : Nat := 0
deriving DecidableEq, Repr

namespace Ctrl

def tryPushBegin (c : Ctrl) (depth : Nat) : Option (Ctrl × Nat) :=
  if c.push ≠ 0 ∨ c.count + c.pop ≥ depth then none
  else
    let next := if c.next + 1 ≠ depth then c.next + 1 else 0
    some ({ c with next := next % 2 ^ 24, count := (c.count + 1) % 2 ^ 24, push := 1 }, c.next)

def pushEnd (c : Ctrl) : Ctrl := { c with push := 0 }

/-- `ctrl.next + depth - count` in 32 bits. -/
def front (c : Ctrl) (depth : Nat) : Nat := (c.next + depth + (2 ^ 32 - c.count)) % 2 ^ 32

def tryPopBegin (c : Ctrl) (depth : Nat) : Option (Ctrl × Nat) :=
  if c.pop ≠ 0 ∨ c.count ≤ c.push then none
  else some ({ c with pop := 1, count := c.count - 1 }, c.front depth)

def tryPeekBegin (c : Ctrl) (depth : Nat) : Option (Ctrl × Nat) :=
  if c.pop ≠ 0 ∨ c.count ≤ c.push then none
  else some ({ c with pop := 1 }, c.front depth)

def popEnd (c : Ctrl) : Ctrl := { c with pop := 0 }

def tryClearBegin1 (c : Ctrl) : Option Ctrl := if c.pop ≠ 0 then none else some { c with pop := 1 }

def tryClearBegin2 (c : Ctrl) : Option Ctrl := if c.push ≠ 0 then none else some { c with push := 1 }

def checkDepth (c : Ctrl) (depth : Nat) : Bool := !(c.next > depth || c.count > depth)

end Ctrl

structure Queue where
  size : Nat
  depth : Nat
deriving DecidableEq, Repr

def cellSyncQueueInitialize (queue buffer size depth : BitVec 32) : Except SyncError Queue :=
  if queue = 0 then .error .NULL_POINTER
  else if size ≠ 0 ∧ buffer = 0 then .error .NULL_POINTER
  else if queue.toNat % 32 ≠ 0 ∨ buffer.toNat % 16 ≠ 0 then .error .ALIGN
  else if depth = 0 ∨ size.toNat % 16 ≠ 0 then .error .INVAL
  else .ok ⟨size.toNat, depth.toNat⟩

/-- A call; the ones that are not blocking are the try variants. -/
inductive Call
  | push (blocking : Bool) (element : List UInt8)
  | pop (blocking : Bool)
  | peek (blocking : Bool)
  | clear
deriving DecidableEq, Repr

/-- Where a thread is: outside with the result of its last call, after an exception, or in front of the named
step.  Between the begin and end of a push or pop it knows its position. -/
inductive Pc
  | idle (result : Option SyncError)
  | failed
  | begin (call : Call)
  | pushCopy (position : Nat) (element : List UInt8)
  | pushEnd (position : Nat)
  | popCopy (peek : Bool) (position : Nat)
  | popEnd (peek : Bool) (position : Nat) (got : List UInt8)
  | clear2
  | clearStore
deriving DecidableEq, Repr

/-- `pushed` and `popped` are the elements since the last clear, and `taken` is the number of pops that have
begun since then. -/
structure State (τ : Type) where
  ctrl : Ctrl := {}
  mem : Nat → UInt8
  loc : τ → Pc := fun _ => .idle none
  pushed : List (List UInt8) := []
  popped : List (List UInt8) := []
  taken : Nat := 0

/-- `call` has an argument that says whether the pointer to the element is null; `stop` ends a loop of a
blocking call. -/
inductive Event (τ : Type)
  | call (t : τ) (c : Call) (null : Bool)
  | step (t : τ)
  | stop (t : τ)

variable {τ : Type} [DecidableEq τ]

namespace State

def goto (s : State τ) (t : τ) (p : Pc) : State τ := { s with loc := Function.update s.loc t p }

def busy (s : State τ) (t : τ) (blocking : Bool) : State τ :=
  if blocking then s else s.goto t (.idle (some .BUSY))

def begin (q : Queue) (s : State τ) (t : τ) : Call → State τ
  | .push blocking element =>
    match s.ctrl.tryPushBegin q.depth with
    | none => s.busy t blocking
    | some (ctrl, position) =>
      { s.goto t (.pushCopy position element) with ctrl := ctrl, pushed := s.pushed ++ [element] }
  | .pop blocking =>
    match s.ctrl.tryPopBegin q.depth with
    | none => s.busy t blocking
    | some (ctrl, position) =>
      { s.goto t (.popCopy false position) with ctrl := ctrl, taken := s.taken + 1 }
  | .peek blocking =>
    match s.ctrl.tryPeekBegin q.depth with
    | none => s.busy t blocking
    | some (ctrl, position) => { s.goto t (.popCopy true position) with ctrl := ctrl }
  | .clear =>
    match s.ctrl.tryClearBegin1 with
    | none => s
    | some ctrl => { s.goto t .clear2 with ctrl := ctrl }

/-- `&queue->buffer[position * queue->size]`, from the start of the buffer. -/
def offset (q : Queue) (position : Nat) : Nat := position * q.size % 2 ^ 32

def element (q : Queue) (s : State τ) (position : Nat) : List UInt8 :=
  ByteStore.read s.mem (offset q position) q.size

def exec (q : Queue) (s : State τ) (t : τ) : Option (State τ) :=
  match s.loc t with
  | .idle _ => none
  | .failed => none
  | .begin call => some (s.begin q t call)
  | .pushCopy position element =>
    some { s.goto t (.pushEnd position) with mem := ByteStore.write s.mem (offset q position) element }
  | .pushEnd _ => some { s.goto t (.idle none) with ctrl := s.ctrl.pushEnd }
  | .popCopy peek position =>
    let got := s.element q (position % q.depth)
    some { s.goto t (.popEnd peek position got) with
      popped := if peek then s.popped else s.popped ++ [got] }
  | .popEnd _ _ _ => some { s.goto t (.idle none) with ctrl := s.ctrl.popEnd }
  | .clear2 =>
    match s.ctrl.tryClearBegin2 with
    | none => some s
    | some ctrl => some { s.goto t .clearStore with ctrl := ctrl }
  | .clearStore =>
    some { s.goto t (.idle none) with ctrl := {}, pushed := [], popped := [], taken := 0 }

def call (q : Queue) (s : State τ) (t : τ) (c : Call) (null : Bool) : State τ :=
  if null ∧ c ≠ .clear then s.goto t (.idle (some .NULL_POINTER))
  else if s.ctrl.checkDepth q.depth then s.goto t (.begin c)
  else s.goto t .failed

end State

def Call.Fits (q : Queue) : Call → Prop
  | .push _ element => element.length = q.size
  | _ => True

instance (q : Queue) : ∀ c, Decidable (Call.Fits q c)
  | .push _ _ => inferInstanceAs (Decidable (_ = _))
  | .pop _ | .peek _ | .clear => isTrue trivial

def Pc.waits : Pc → Bool
  | .begin (.push blocking _) => blocking
  | .begin (.pop blocking) => blocking
  | .begin (.peek blocking) => blocking
  | .begin .clear => true
  | .clear2 => true
  | _ => false

def step (q : Queue) (s : State τ) : Event τ → Option (State τ)
  | .call t c null =>
    match s.loc t with
    | .idle _ => if c.Fits q then some (s.call q t c null) else none
    | _ => none
  | .step t => s.exec q t
  | .stop t => if (s.loc t).waits then some (s.goto t (.idle none)) else none

/-- The queue as `cellSyncQueueInitialize` leaves it, with any memory. -/
def system (q : Queue) : Transition.System (State τ) (Event τ) where
  init s := ∃ mem, s = { mem := mem }
  step := step q

end Armsx3.Cell.SyncQueue
