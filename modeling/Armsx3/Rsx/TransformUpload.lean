import Armsx3.Rsx.DrawClause

/-!
# TransformUpload — uploads to the transform program and the transform constants

The handlers of the transform registers of `nv4097`, and of the commands around them that make up a draw clause.
Every word that is stored is entered in a record.  What the handlers read from the FIFO is given with each command,
since the guest can change it at any time.
-/

namespace Armsx3.Rsx

open List

/-- `max_vertex_program_instructions` of four words each -/
def transformProgramWords : Nat := 544 * 4

def transformConstantWords : Nat := 468 * 4

/-- What a handler reads from the FIFO: `get_remaining_args_count`, `fifo_read_limit`, `get_pos`, and the words that
`get_current_arg_ptr` returns. -/
structure FifoArgs where
  remaining : Word
  readLimit : Word
  getPos : Word
  words : List Word

inductive Store
  | program (i : Nat)
  | constant (i : Nat)
deriving DecidableEq, Repr

structure UploadState where
  transformProgramLoad : Word := 0
  transformConstantLoad : Word := 0
  transformProgram : Nat → Word := fun _ => 0
  transformConstants : Nat → Word := fun _ => 0
  vertexProgramUcodeDirty : Bool := false
  transformConstantsDirty : Bool := false
  inBeginEnd : Bool := false
  clause : DrawClause := .reset false
  tag : Nat := 0
  /-- the words that have been stored -/
  stores : List Store := []

def copyDataSwap (dst : Nat → Word) (pos : Nat) (words : List Word) : Nat → Word :=
  fun i => if pos ≤ i ∧ i < pos + words.length then words.getD (i - pos) 0 else dst i

def dataChanges (dst : Nat → Word) (pos : Nat) (words : List Word) : Bool :=
  (range words.length).any fun i => dst (pos + i) ≠ words.getD i 0

def minWord (a b : Word) : Word := if a ≤ b then a else b

/-- `count` in both handlers; `index` is that of the register among the 32 of its method. -/
def FifoArgs.count (args : FifoArgs) (index : Word) : Word :=
  minWord (minWord (args.remaining + 1) args.readLimit) (32 - index)

/-- `rcount` of `set_transform_constant`: addresses outside of the usable range are ignored. -/
def clampConstants (load index count : Word) : Word :=
  let max := (load + index / 4) * 4 + count + index % 4
  let limit : Word := 468 * 4
  if max > limit then if max - count < limit then count - (max - limit) else 0 else count

def clampProgram (loadPos index count : Word) : Word :=
  let max := loadPos * 4 + count + index % 4
  if max > 544 * 4 then count - (max - 544 * 4) else count

namespace UploadState

def storeConstants (s : UploadState) (id subreg : Word) (words : List Word) : UploadState :=
  let pos := id.toNat * 4 + subreg.toNat
  { s with
    transformConstants := copyDataSwap s.transformConstants pos words
    stores := s.stores ++ (range words.length).map fun i => .constant (pos + i) }

def batchDecode (s : UploadState) (index : Word) (words : List Word) : UploadState :=
  s.storeConstants (s.transformConstantLoad + index / 4) (index % 4) words

def insertBarrier (s : UploadState) (type : BarrierType) (arg0 arg1 index : Word) : Option UploadState :=
  (s.clause.insertCommandBarrier type arg0 arg1 index s.tag).map fun c => { s with clause := c, tag := s.tag + 1 }

def inDraw (s : UploadState) : Bool := s.inBeginEnd && !s.clause.isEmpty

def setTransformConstant (s : UploadState) (index : Word) (args : FifoArgs) : Option UploadState :=
  let load := s.transformConstantLoad
  let rcount := clampConstants load index (args.count index)
  if rcount = 0 then some s
  else if s.inDraw then s.insertBarrier .transformConstantUpdate args.getPos rcount index
  else
    let words := args.words.take rcount.toNat
    let pos := (load + index / 4).toNat * 4 + (index % 4).toNat
    some { s.storeConstants (load + index / 4) (index % 4) words with
      transformConstantsDirty := s.transformConstantsDirty || dataChanges s.transformConstants pos words }

/-- `set_transform_constant_load`, with the write to the register before it. -/
def setTransformConstantLoad (s : UploadState) (arg : Word) : Option UploadState :=
  -- deferred: the register is rolled back to the value in the latch
  if s.inDraw then s.insertBarrier .transformConstantLoadModifier arg 0 0
  else some { s with transformConstantLoad := arg }

/-- `set_transform_program::impl`; the comparison of two pairs of words only finds changes early. -/
def setTransformProgram (s : UploadState) (index : Word) (args : FifoArgs) : UploadState :=
  let loadPos := s.transformProgramLoad
  let rcount := clampProgram loadPos index (args.count index)
  if rcount = 0 then s
  else
    let words := args.words.take rcount.toNat
    let pos := (loadPos * 4 + index % 4).toNat
    { s with
      transformProgram := copyDataSwap s.transformProgram pos words
      stores := s.stores ++ (range words.length).map fun i => .program (pos + i)
      vertexProgramUcodeDirty :=
        s.vertexProgramUcodeDirty || words.length < 4 || dataChanges s.transformProgram pos words
      transformProgramLoad := loadPos + (BitVec.ofNat 32 words.length + index % 4) / 4 }

/-- An action of the draw clause; `memory` is what the guest memory holds from an address on. -/
def applyAction (memory : Word → Nat → Word) (s : UploadState) : Action → UploadState
  | .draw _ => s
  | .modifier b =>
    match b.type with
    | .transformConstantLoadModifier => { s with transformConstantLoad := b.arg0 }
    | .transformConstantUpdate => s.batchDecode b.index ((range b.arg1.toNat).map (memory b.arg0))
    | _ => s

def isPrimitiveDisjointed (primitive : Nat) : Bool :=
  -- line strip, line loop, polygon, quad strip, triangle fan and triangle strip are not
  !(primitive ∈ [3, 4, 6, 7, 9, 10])

def setBeginEnd (s : UploadState) (arg : Word) (memory : Word → Nat → Word) : Option UploadState :=
  let prim := arg.toNat % 256
  if prim ≠ 0 then
    -- `to_primitive_type`
    if prim ≤ 10 then some { s with clause := .reset (isPrimitiveDisjointed prim), inBeginEnd := true }
    else some { s with inBeginEnd := true }
  else if s.clause.isEmpty then some { s with inBeginEnd := false }
  else s.clause.execute.map fun actions => { actions.foldl (applyAction memory) s with inBeginEnd := false }

end UploadState

inductive UploadEvent
  | transformProgramLoad (arg : Word)
  | transformProgram (index : Fin 32) (args : FifoArgs)
  | transformConstantLoad (arg : Word)
  | transformConstant (index : Fin 32) (args : FifoArgs)
  | beginEnd (arg : Word) (memory : Word → Nat → Word)
  | draw (first count : Word)
  | drawBarrier
  /-- changes of the vertex base, the index base and the array offsets -/
  | modifier (type : BarrierType) (arg0 index : Word)

def uploadStep (s : UploadState) : UploadEvent → Option UploadState
  | .transformProgramLoad arg => some { s with transformProgramLoad := arg }
  | .transformProgram index args => some (s.setTransformProgram (BitVec.ofNat 32 index) args)
  | .transformConstantLoad arg => s.setTransformConstantLoad arg
  | .transformConstant index args => s.setTransformConstant (BitVec.ofNat 32 index) args
  | .beginEnd arg memory => s.setBeginEnd arg memory
  | .draw first count => some { s with clause := s.clause.append first count }
  | .drawBarrier => some { s with clause := { s.clause with primitiveBarrierEnable := true } }
  | .modifier type arg0 index =>
    if type ∈ [.vertexBaseModifier, .indexBaseModifier, .vertexArrayOffsetModifier] ∧ s.inDraw then
      s.insertBarrier type arg0 0 index
    else none

def uploadSystem : Transition.System UploadState UploadEvent where
  init s := s = {}
  step := uploadStep

end Armsx3.Rsx
