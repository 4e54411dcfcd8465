import Armsx3.Library.Transition
import Armsx3.Library.Window

/-!
# LfQueue — the lock-free queue of cellSync

`_cellSyncLFQueueGetPushPointer`, `_cellSyncLFQueueCompletePushPointer` and the same two calls for pops.  A queue
of direction PPU2SPU has its pushes here and its pops on the SPUs, one of direction SPU2PPU the other way round.
A call is one step, the iteration of its loop that goes through.
-/

namespace Armsx3.Cell.LfQueue

inductive SyncError
  | AGAIN | INVAL | STAT | PERM | BUSY | NULL_POINTER | ALIGN
deriving DecidableEq, Repr

inductive Direction
  | SPU2SPU | SPU2PPU | PPU2SPU | ANY2ANY
deriving DecidableEq, Repr

/-- `pop1_t` and `push1_t`: the published position `m_h1` or `m_h5`, the mask of completions behind it `m_h2` or
`m_h6`, the mark of a thread that waits `m_h3` or `m_h7`, and the position to be handed out next `m_h4` or
`m_h8`. -/
structure Side where
  published : Nat := 0
  mask : BitVec 16 := 0
  waiting : Nat := 0
  reserved : Nat := 0
deriving DecidableEq, Repr

/-- `pack` is the word of three fields in `push2` and `pop2`, and `hs1` and `hs2` list the waiting SPUs. -/
structure LFQueue where
  depth : Nat
  direction : Direction
  pop1 : Side := {}
  push1 : Side := {}
  pop2 : Nat := 0
  push2 : Nat := 0
  hs1 : List Nat := List.replicate 15 0
  hs2 : List Nat := List.replicate 15 0
  bs : Int := -1
deriving DecidableEq, Repr

def syncLFQueueInitialize (depth : Nat) (direction : Direction) : LFQueue :=
  match direction with
  | .ANY2ANY => { depth := depth, direction := direction, pop2 := 0xffff, push2 := 0xffff }
  | _ => { depth := depth, direction := direction }

def toDirection : Nat → Option Direction
  | 0 => some .SPU2SPU
  | 1 => some .SPU2PPU
  | 2 => some .PPU2SPU
  | 3 => some .ANY2ANY
  | _ => none

def cellSyncLFQueueInitialize (queue buffer size depth direction : BitVec 32) : Except SyncError LFQueue :=
  if queue = 0 then .error .NULL_POINTER
  else if size ≠ 0 ∧ buffer = 0 then .error .NULL_POINTER
  else if size ≠ 0 ∧ (size.toNat > 0x4000 ∨ size.toNat % 16 ≠ 0) then .error .INVAL
  else if depth = 0 ∨ depth.toNat > 0x7fff then .error .INVAL
  else match toDirection direction.toNat with
    | none => .error .INVAL
    | some dir =>
      if queue.toNat % 128 ≠ 0 ∨ buffer.toNat % 16 ≠ 0 then .error .ALIGN
      else .ok (syncLFQueueInitialize depth.toNat dir)

/-! ## Pointers -/

def s16 (x : Nat) : Int := if x < 2 ^ 15 then x else (x : Int) - 2 ^ 16

/-- A difference of two positions, which go up to twice the depth. -/
def wrap (depth : Nat) (x : Int) : Int := if x < 0 then x + depth * 2 else x

/-- What an attempt to get a pointer comes to: a result, another try, or waiting for an event. -/
inductive Attempt (α : Type)
  | ret (res : Option SyncError) (side : α) (pointer : Option Int)
  | retry
  | receive (side : α)

def Attempt.map {α β : Type} (f : α → β) : Attempt α → Attempt β
  | ret res side pointer => ret res (f side) pointer
  | retry => retry
  | receive side => receive (f side)

/-- The loop body of both calls that hand out pointers; `room` is the test of the positions, and `var1` says that
an event was received before. -/
def getPointer (depth : Nat) (bs : Int) (room : Bool) (old : Side) (isBlocking : Nat) (useEventQueue var1 : Bool) :
    Attempt Side :=
  let side := if var1 then { old with waiting := 0 } else old
  if isBlocking ≠ 0 ∧ useEventQueue ∧ bs = -1 then .ret (some .STAT) old none
  else if useEventQueue ∧ ((side.published : Int) ≠ s16 side.reserved ∨ side.waiting ≠ 0) then
    .ret (some .BUSY) side none
  else if room then
    let pointer := s16 side.reserved
    let next := { side with reserved := if pointer + 1 ≥ depth * 2 then 0 else (side.reserved + 1) % 2 ^ 16 }
    -- a waiting thread is to get its event first
    if side.waiting = 0 then .ret none next (some pointer) else .receive next
  else if isBlocking = 0 then .ret (some .AGAIN) old none
  else if ¬ useEventQueue then .retry
  else if isBlocking ≠ 3 then .receive old
  else .receive { side with waiting := 3 }

def getPushPointer (q : LFQueue) (isBlocking : Nat) (useEventQueue var1 : Bool) : Attempt LFQueue :=
  if q.direction ≠ .PPU2SPU then .ret (some .PERM) q none
  else
    (getPointer q.depth q.bs (wrap q.depth (s16 q.push1.reserved - q.pop1.published) < q.depth) q.push1 isBlocking
      useEventQueue var1).map fun side => { q with push1 := side }

def getPopPointer (q : LFQueue) (isBlocking : Nat) (useEventQueue var1 : Bool) : Attempt LFQueue :=
  if q.direction ≠ .SPU2PPU then .ret (some .PERM) q none
  else
    (getPointer q.depth q.bs (wrap q.depth (q.push1.published - s16 q.pop1.reserved) > 0) q.pop1 isBlocking
      useEventQueue var1).map fun side => { q with pop1 := side }

/-! ## Completions -/

/-- `1 slw (15 - var1)` in 16 bits; the machine takes the shift count modulo 32. -/
def completionBit (var1 : Int) : BitVec 16 :=
  let count := BitVec.ofInt 32 (15 - var1)
  if count &&& 0x30 ≠ 0 then 0 else 1 <<< (count.toNat % 32)

def countlZero {w : Nat} (x : BitVec w) : Nat := Window.countWhile (fun i => !x.getMsbD i) w

/-- `var9`: how many positions are published by the completion of `pointer`. -/
def advance (depth : Nat) (side : Side) (pointer : Int) : Nat :=
  let bit := completionBit (wrap depth (pointer - side.published))
  countlZero ((~~~(bit ||| side.mask)).setWidth 32) - 16

/-- `var3` and `var5`: the position and mask after that. -/
def complete (depth : Nat) (side : Side) (pointer : Int) : Side :=
  let bit := completionBit (wrap depth (pointer - side.published))
  let count := advance depth side pointer
  let position := side.published + count
  { side with
    published := (if position ≥ depth * 2 then position - depth * 2 else position) % 2 ^ 16
    mask := if BitVec.ofNat 32 count &&& 0x30 ≠ 0 then 0 else (side.mask ||| bit) <<< count }

def packFirst (pack : Nat) : Nat := pack / 2 ^ 10 % 2 ^ 5
def packMiddle (pack : Nat) : Nat := pack / 2 ^ 5 % 2 ^ 5
def packLast (pack : Nat) : Nat := pack % 2 ^ 5

def packDistance (a b : Nat) : Int := if (a : Int) - b < 0 then (a : Int) - b + 0x1e else (a : Int) - b

def packNext (pack : Nat) : Nat :=
  pack % 2 ^ 10 + pack / 2 ^ 15 * 2 ^ 15 + (if packFirst pack = 0x1d then 0 else (packFirst pack + 1) * 2 ^ 10)

/-- What a completion comes to: the queue and the SPU that gets a signal, an `ensure` that fires, or another
try. -/
inductive Completion
  | done (q : LFQueue) (signal : Option Nat)
  | perm
  | ensureFailed
  | retry

/-- The entry of the SPU that is woken, with `var2` the pointers that the SPUs hold and `var9` the positions that
are published; `none` is an `ensure` that fires, or an entry behind the end. -/
def wake (hs : List Nat) (pack : Nat) (var2 : Int) (var9 : Nat) : Option Nat :=
  let var8 := BitVec.ofInt 32 (packDistance (packLast pack) (packFirst pack))
  if var9 > 1 ∧ var8.toNat > 1 ∧ ¬ 16 - var2 ≤ 1 then none
  else hs[if packFirst pack ≥ 15 then packFirst pack - 15 else packFirst pack]?

def completePushPointer (q : LFQueue) (pointer : Int) (fpSendSignal : Bool) : Completion :=
  if q.direction ≠ .PPU2SPU then .perm
  else
    let var2 := wrap q.depth (s16 q.pop1.reserved - q.pop1.published)
    let var4 := packDistance (packFirst q.push2) (packMiddle q.push2)
    let push1 := complete q.depth q.push1 pointer
    if var2 + var4 ≤ 15 ∧ packFirst q.push2 ≠ packLast q.push2 then
      match wake q.hs1 q.push2 var2 (advance q.depth q.push1 pointer) with
      | none => .ensureFailed
      | some spu =>
        if fpSendSignal then .done { q with push1 := push1, push2 := packNext q.push2 } (some spu)
        else .ensureFailed
    else if ¬ var2 + var4 < 16 then .ensureFailed
    else if packLast q.push2 = packFirst q.push2 then .done { q with push1 := push1 } none
    else .retry

/-- `_cellSyncLFQueueCompletePopPointer`, which has one `ensure` less. -/
def completePopPointer (q : LFQueue) (pointer : Int) (fpSendSignal noQueueFull : Bool) : Completion :=
  if q.direction ≠ .SPU2PPU then .perm
  else
    let var2 := wrap q.depth (s16 q.push1.reserved - q.push1.published)
    let var4 := packDistance (packFirst q.pop2) (packMiddle q.pop2)
    let pop1 := complete q.depth q.pop1 pointer
    if noQueueFull ∨ var2 + var4 > 15 ∨ packFirst q.pop2 = packLast q.pop2 then
      if packLast q.pop2 = packFirst q.pop2 then .done { q with pop1 := pop1 } none else .retry
    else
      match wake q.hs2 q.pop2 var2 (advance q.depth q.pop1 pointer) with
      | none => .ensureFailed
      | some spu =>
        if fpSendSignal then .done { q with pop1 := pop1, pop2 := packNext q.pop2 } (some spu)
        else .ensureFailed

/-! ## Runs -/

inductive Role
  | push | pop
deriving DecidableEq, Repr

def Role.direction : Role → Direction
  | push => .PPU2SPU
  | pop => .SPU2PPU

def Role.own (r : Role) (q : LFQueue) : Side :=
  match r with
  | push => q.push1
  | pop => q.pop1

def Role.peer (r : Role) (q : LFQueue) : Side :=
  match r with
  | push => q.pop1
  | pop => q.push1

def Role.setPeer (r : Role) (q : LFQueue) (side : Side) : LFQueue :=
  match r with
  | push => { q with pop1 := side }
  | pop => { q with push1 := side }

def Role.get (r : Role) (q : LFQueue) (isBlocking : Nat) (useEventQueue : Bool) : Attempt LFQueue :=
  match r with
  | push => getPushPointer q isBlocking useEventQueue false
  | pop => getPopPointer q isBlocking useEventQueue false

def Role.complete (r : Role) (q : LFQueue) (pointer : Int) (fpSendSignal noQueueFull : Bool) : Completion :=
  match r with
  | push => completePushPointer q pointer fpSendSignal
  | pop => completePopPointer q pointer fpSendSignal noQueueFull

/-- `pointers` are the ones that were handed out, `completed` the numbers of those that were completed, and
`failed` says that a completion did not return. -/
structure State where
  queue : LFQueue
  pointers : List Int := []
  completed : List Nat := []
  failed : Bool := false
deriving DecidableEq, Repr

inductive Event
  | get (isBlocking : Nat) (useEventQueue : Bool)
  | complete (i : Nat) (fpSendSignal noQueueFull : Bool)
  | peerGet
  | peerComplete
deriving DecidableEq, Repr

def succ (depth position : Nat) : Nat := if position + 1 ≥ depth * 2 then 0 else position + 1

def distance (depth a b : Nat) : Nat := (a + depth * 2 - b) % (depth * 2)

/-- A pointer for an SPU: there is an element to be popped, or room for one to be pushed. -/
def peerRoom (r : Role) (q : LFQueue) : Bool :=
  match r with
  | .push => distance q.depth q.push1.published q.pop1.reserved > 0
  | .pop => distance q.depth q.push1.reserved q.pop1.published < q.depth

def getStep (s : State) : Attempt LFQueue → Option State
  | .ret none q (some pointer) => some { s with queue := q, pointers := s.pointers ++ [pointer] }
  | .ret _ q _ => some { s with queue := q }
  | _ => none

def completeStep (s : State) (i : Nat) : Completion → State
  | .done q _ => { s with queue := q, completed := s.completed ++ [i] }
  | _ => { s with failed := true }

/-- A pointer that was handed out is completed once, in any order.  The SPUs take and complete pointers of their
side; where they stand is all that the calls here see of it. -/
def step (r : Role) (s : State) : Event → Option State
  | .get isBlocking useEventQueue => getStep s (r.get s.queue isBlocking useEventQueue)
  | .complete i fpSendSignal noQueueFull =>
    if i ∈ s.completed then none
    else s.pointers[i]?.map fun pointer =>
      completeStep s i (r.complete s.queue pointer fpSendSignal noQueueFull)
  | .peerGet =>
    let side := r.peer s.queue
    if peerRoom r s.queue then
      some { s with queue := r.setPeer s.queue { side with reserved := succ s.queue.depth side.reserved } }
    else none
  | .peerComplete =>
    let side := r.peer s.queue
    if side.published ≠ side.reserved then
      some { s with queue := r.setPeer s.queue { side with published := succ s.queue.depth side.published } }
    else none

def system (r : Role) (depth : Nat) : Transition.System State Event where
  init s := s = { queue := syncLFQueueInitialize depth r.direction }
  step := step r

end Armsx3.Cell.LfQueue
