import Armsx3.Library.Transition

/-!
# DrawClause — the draw commands between begin and end

The ranges of the draw commands are merged and sorted as they are appended; a barrier is either the restart of a
primitive inside of a range, or a modifier that has to be executed before a range is drawn.
-/

namespace Armsx3.Rsx

abbrev Word := BitVec 32

structure DrawRange where
  first : Word := 0
  count : Word := 0
deriving DecidableEq, Repr

inductive BarrierType
  | primitiveRestart
  | vertexBaseModifier
  | indexBaseModifier
  | vertexArrayOffsetModifier
  | transformConstantLoadModifier
  | transformConstantUpdate
deriving DecidableEq, Repr

structure Barrier where
  drawId : Nat
  timestamp : Nat
  address : Word
  index : Word
  arg0 : Word
  arg1 : Word
  type : BarrierType
deriving DecidableEq, Repr

namespace Barrier

def lt (b other : Barrier) : Bool :=
  if b.address ≠ ~~~0 then b.address < other.address else b.timestamp < other.timestamp

def isModifier (b : Barrier) : Bool := b.type ≠ .primitiveRestart

end Barrier

structure DrawClause where
  ranges : List DrawRange := []
  barriers : List Barrier := []
  /-- `~0u` while there is no range -/
  currentRangeIndex : Nat := 0xffffffff
  lastExecutionBarrierIndex : Nat := 0
  currentBarrierIt : Nat := 0
  isDisjointPrimitive : Bool := false
  primitiveBarrierEnable : Bool := false
deriving DecidableEq, Repr

/-- `_do_barrier_insert`: the loop over the barriers. -/
def insertBarrierLoop (val : Barrier) : List Barrier → List Barrier
  | [] => []
  | b :: rest => if b.lt val then b :: insertBarrierLoop val rest else val :: b :: rest

def doBarrierInsert (barriers : List Barrier) (val : Barrier) : List Barrier :=
  if barriers.getLast?.all (·.lt val) then barriers ++ [val] else insertBarrierLoop val barriers

/-- What the loop of `append` finds for a new range. -/
inductive Place
  | duplicate
  | insert (index : Nat)
  | append
deriving DecidableEq, Repr

/-- The loop of `append`, from the range at `index` on. -/
def findPlace (first count : Word) : Nat → List DrawRange → Place
  | _, [] => .append
  | index, range :: rest =>
    if range.first = first ∧ range.count = count then .duplicate
    else if range.first > first then .insert index
    else findPlace first count (index + 1) rest

namespace DrawClause

def reset (isDisjointPrimitive : Bool) : DrawClause := { isDisjointPrimitive := isDisjointPrimitive }

def current (c : DrawClause) : DrawRange := c.ranges.getD c.currentRangeIndex {}

def appendDrawCommand (c : DrawClause) (range : DrawRange) : DrawClause :=
  { c with currentRangeIndex := c.ranges.length, ranges := c.ranges ++ [range] }

def insertDrawCommand (c : DrawClause) (index : Nat) (range : DrawRange) : DrawClause :=
  { c with
    currentRangeIndex := index
    ranges := c.ranges.insertIdx index range
    -- all barrier draw ids after this one
    barriers := c.barriers.map fun b => { b with drawId := if b.drawId ≥ index then b.drawId + 1 else b.drawId } }

/-- `insert_command_barrier` with `primitive_restart_barrier` -/
def insertRestart (c : DrawClause) (arg0 arg1 index : Word) : DrawClause :=
  { c with
    barriers := doBarrierInsert c.barriers {
      drawId := c.currentRangeIndex
      timestamp := 0
      address := c.current.first + c.current.count
      index := index
      arg0 := arg0
      arg1 := arg1
      type := .primitiveRestart } }

def breakSequence (c : DrawClause) : DrawClause :=
  if (c.ranges.getLast?.getD {}).count > 0 then c.appendDrawCommand {}
  else
    -- back-to-back modifiers
    { c with currentRangeIndex := c.ranges.length - 1 }

/-- `insert_command_barrier` with a modifier; `tag` is what `get_shared_tag` returns. -/
def insertModifier (c : DrawClause) (type : BarrierType) (arg0 arg1 index : Word) (tag : Nat) : DrawClause :=
  let c := c.breakSequence
  { c with
    barriers := doBarrierInsert c.barriers {
      drawId := c.currentRangeIndex
      timestamp := tag
      address := ~~~0
      index := index
      arg0 := arg0
      arg1 := arg1
      type := type }
    lastExecutionBarrierIndex := c.currentRangeIndex }

/-- `insert_command_barrier`; without a range its `ensure` fails. -/
def insertCommandBarrier (c : DrawClause) (type : BarrierType) (arg0 arg1 index : Word) (tag : Nat) :
    Option DrawClause :=
  if c.ranges = [] then none
  else if type = .primitiveRestart then some (c.insertRestart arg0 arg1 index)
  else some (c.insertModifier type arg0 arg1 index tag)

/-- The restart of a primitive between two ranges that are merged. -/
def restartIf (c : DrawClause) (enable : Bool) : DrawClause :=
  if !c.isDisjointPrimitive && enable then c.insertRestart 0 0 0 else c

/-- `append` where there are ranges, and none of the shortcuts applies. -/
def appendSorted (c : DrawClause) (first count : Word) : DrawClause :=
  match findPlace first count c.lastExecutionBarrierIndex (c.ranges.drop c.lastExecutionBarrierIndex) with
  | .duplicate => c
  | .insert index => c.insertDrawCommand index ⟨first, count⟩
  | .append => c.appendDrawCommand ⟨first, count⟩

def append (c : DrawClause) (first count : Word) : DrawClause :=
  let enable := c.primitiveBarrierEnable
  let c := { c with primitiveBarrierEnable := false }
  if c.ranges = [] then c.appendDrawCommand ⟨first, count⟩
  else
    let last := c.current
    if last.count = 0 then { c with ranges := c.ranges.set c.currentRangeIndex ⟨first, count⟩ }
    else if last.first + last.count = first then
      let c := c.restartIf enable
      { c with ranges := c.ranges.set c.currentRangeIndex ⟨last.first, last.count + count⟩ }
    else c.appendSorted first count

def isEmpty (c : DrawClause) : Bool := c.ranges.isEmpty

/-! ## Execution -/

def compile (c : DrawClause) : DrawClause := { c with currentRangeIndex := 0xffffffff }

def start (c : DrawClause) : DrawClause := { c with currentRangeIndex := 0, currentBarrierIt := 0 }

/-- `execute_pipeline_dependencies`: the modifiers that it executes. -/
def executePipelineDependencies (c : DrawClause) : List Barrier :=
  ((c.barriers.drop c.currentBarrierIt).takeWhile fun b => b.drawId = c.currentRangeIndex).filter (·.isModifier)

def advanceBarrierIt (c : DrawClause) : DrawClause :=
  { c with
    currentBarrierIt := c.currentBarrierIt +
      ((c.barriers.drop c.currentBarrierIt).takeWhile fun b => b.drawId < c.currentRangeIndex).length }

/-- `next`, and what it returns; `none` if its `ensure` fails. -/
def next (c : DrawClause) : Option (DrawClause × Bool) :=
  let c := { c with currentRangeIndex := c.currentRangeIndex + 1 }
  if c.currentRangeIndex ≥ c.ranges.length then some ({ c with currentRangeIndex := 0 }, false)
  else
    let c := c.advanceBarrierIt
    if c.current.count = 0 then
      -- dangling execution barrier
      if c.currentRangeIndex > 0 ∧ c.currentRangeIndex + 1 = c.ranges.length then
        some ({ c with currentRangeIndex := 0 }, false)
      else none
    else some (c, true)

/-- `post_execute_cleanup`: the modifiers that it executes. -/
def postExecuteCleanup (c : DrawClause) : Option (List Barrier) :=
  if c.currentRangeIndex ≠ 0 then none
  else if c.ranges.length > 1 ∧ (c.ranges.getLast?.getD {}).count = 0 then
    some { c with currentRangeIndex := c.ranges.length - 1 }.executePipelineDependencies
  else some []

end DrawClause

inductive Action
  | modifier (b : Barrier)
  | draw (range : DrawRange)
deriving DecidableEq, Repr

namespace DrawClause

/-- From the current range on: the dependencies, the draw, and `next`. -/
def drawLoop : Nat → DrawClause → Option (List Action × DrawClause)
  | 0, _ => none
  | n + 1, c =>
    let actions := c.executePipelineDependencies.map .modifier ++ [.draw c.current]
    match c.next with
    | none => none
    | some (c, false) => some (actions, c)
    | some (c, true) => (drawLoop n c).map fun r => (actions ++ r.1, r.2)

def execute (c : DrawClause) : Option (List Action) :=
  match drawLoop c.ranges.length c.compile.start with
  | none => none
  | some (actions, c) => c.postExecuteCleanup.map fun rest => actions ++ rest.map .modifier

end DrawClause

end Armsx3.Rsx
