import Armsx3.Rsx.FlowGraph

/-!
# FragmentCfg — from the code of a fragment program to its flow graph

`deconstruct_fragment_program`: one pass over the instructions, in which an IF or LOOP makes the blocks for
the addresses it names.  `none` stands for an exception.
-/

namespace Armsx3.Rsx

structure Quad where
  w0 : BitVec 32 := 0
  w1 : BitVec 32 := 0
  w2 : BitVec 32 := 0
  w3 : BitVec 32 := 0
deriving DecidableEq, Repr

namespace Quad

def swapHalves (w : BitVec 32) : BitVec 32 := ((w <<< 8) &&& 0xff00ff00) ||| ((w >>> 8) &&& 0x00ff00ff)

def decode (q : Quad) : Quad := ⟨swapHalves q.w0, swapHalves q.w1, swapHalves q.w2, swapHalves q.w3⟩

def words (q : Quad) : List (BitVec 32) := [q.w0, q.w1, q.w2, q.w3]

def isEnd (q : Quad) : Bool := q.w0.getLsbD 0

/-- `dst.opcode | (src1.opcode_hi << 6)` -/
def opcode (q : Quad) : Nat := (q.w0.toNat / 2 ^ 24) % 2 ^ 6 + q.w2.toNat / 2 ^ 31 * 2 ^ 6

def includesLiteralConstant (q : Quad) : Bool :=
  q.w1.toNat % 4 = 2 || q.w2.toNat % 4 = 2 || q.w3.toNat % 4 = 2

/-- `src2.end_offset >> 2u` -/
def endAddr (q : Quad) : Nat := q.w3.toNat / 4

/-- `src1.else_offset >> 2u` -/
def elseAddr (q : Quad) : Nat := q.w2.toNat % 2 ^ 31 / 4

end Quad

def opNOP : Nat := 0x00
def opFENCT : Nat := 0x3d
def opFENCB : Nat := 0x3e
def opBRK : Nat := 0x40
def opCAL : Nat := 0x41
def opIFE : Nat := 0x42
def opLOOP : Nat := 0x43
def opREP : Nat := 0x44
def opRET : Nat := 0x45

structure CfgState where
  pc : Nat
  «end» : Bool
  bb : Nat
  graph : FlowGraph
  endBlocks : List Nat
  elseBlocks : List Nat
deriving DecidableEq, Repr

def isMergeEdge (type : EdgeType) : Bool := type = .ENDIF || type = .ENDLOOP

/-- The block that `parent` continues with after its branches. -/
def mergeOf (g : FlowGraph) (parent : Nat) (type : EdgeType) : Option Nat :=
  (g.block? parent).bind fun p => (p.succ.find? fun e => e.type = type).map FlowEdge.target

/-- `safe_insert_block`, which returns the block with the ID. -/
def safeInsertBlock (g : FlowGraph) (parent id : Nat) (type : EdgeType) : Option FlowGraph :=
  match g.block? id with
  | some found =>
    if found.isOfType .ELSE ∧ isMergeEdge type then
      -- an ELSE block is not where the branch before it continues
      (found.pred.head?).bind fun e =>
        (mergeOf g e.source .ENDIF).map fun succ => g.link parent succ type
    else some (g.link parent id type)
  | none => some (g.push parent id type)

def frontEdge (b : BasicBlock) : Option FlowEdge := b.pred.find? fun e => !isMergeEdge e.type

/-- The end of the current block when another one starts at `pc`. -/
def closeBlock (s : CfgState) : Option FlowGraph :=
  (s.graph.block? s.bb).bind fun b =>
    match frontEdge b with
    | some e =>
      match e.type with
      | .IF | .ELSE => (mergeOf s.graph e.source .ENDIF).map fun t => s.graph.link s.bb t .ENDIF
      | .LOOP => (mergeOf s.graph e.source .ENDLOOP).map fun t => s.graph.link s.bb t .ENDLOOP
      | _ => some s.graph
    | none => some s.graph

/-- The start of an iteration: a block that starts here becomes the current one. -/
def enter (s : CfgState) : Option CfgState :=
  if s.pc ∈ s.endBlocks ∨ s.pc ∈ s.elseBlocks then
    (closeBlock s).map fun g => { s with graph := g, bb := s.pc }
  else some s

def pushInstruction (s : CfgState) (inst : Instruction) : CfgState :=
  { s with graph := s.graph.modify s.bb fun b => { b with instructions := b.instructions ++ [inst] } }

def invertConditionalExecutionMask (inst : Instruction) : Instruction :=
  { inst with bytecode := inst.bytecode.modify 1 fun w => w ^^^ (0b111 <<< 18) }

/-- The blocks behind an IF or LOOP at `pc`: the one that follows it, the ELSE block if there is one, and
the one where the branches meet. -/
def insertBranches (g : FlowGraph) (parent pc : Nat) (entry : EdgeType) (els : Option Nat)
    (merge : EdgeType) (endAddr : Nat) : Option FlowGraph :=
  (safeInsertBlock g parent (pc + 1) entry).bind fun g =>
  (els.elim (some g) fun elseAddr => safeInsertBlock g parent elseAddr .ELSE).bind fun g =>
  safeInsertBlock g parent endAddr merge

def branch (s : CfgState) (inst : Instruction) (entry : EdgeType) (els : Option Nat)
    (merge : EdgeType) (endAddr : Nat) : Option CfgState :=
  (insertBranches (pushInstruction s inst).graph s.bb s.pc entry els merge endAddr).map fun g =>
  { s with
    pc := s.pc + 1
    bb := s.pc + 1
    graph := g
    endBlocks := s.endBlocks ++ [endAddr]
    elseBlocks := s.elseBlocks ++ els.toList }

/-- `RSX_FP_OPCODE_IFE`, which is dropped if there is nothing in the branches.  If only the first branch is
empty, the ELSE branch takes its place under the opposite condition. -/
def execIf (s : CfgState) (q : Quad) (inst : Instruction) : Option CfgState :=
  if q.endAddr = s.pc + 1 then some { s with pc := s.pc + 1 }
  else if q.elseAddr = s.pc + 1 then
    branch s (invertConditionalExecutionMask inst) .IF none .ENDIF q.endAddr
  else if q.endAddr = q.elseAddr then branch s inst .IF none .ENDIF q.endAddr
  else branch s inst .IF (some q.elseAddr) .ENDIF q.endAddr

def execLoop (s : CfgState) (q : Quad) (inst : Instruction) : Option CfgState :=
  if q.endAddr = s.pc + 1 then some { s with pc := s.pc + 1 }
  else branch s inst .LOOP none .ENDLOOP q.endAddr

/-- The rest of an iteration.  The words of a literal are loaded from where the instruction is. -/
def exec (data : Nat → Quad) (s : CfgState) : Option CfgState :=
  let q := (data s.pc).decode
  let s := { s with «end» := q.isEnd }
  if q.opcode = opNOP then
    some { s with pc := s.pc + (if q.includesLiteralConstant then 1 else 0) + 1 }
  else
    let inst : Instruction := { bytecode := q.words, addr := s.pc * 16, opcode := q.opcode }
    if q.opcode = opCAL then none
    else if q.opcode = opBRK ∨ q.opcode = opFENCT ∨ q.opcode = opFENCB ∨ q.opcode = opRET then
      some { pushInstruction s inst with pc := s.pc + 1 }
    else if q.opcode = opIFE then execIf s q inst
    else if q.opcode = opLOOP ∨ q.opcode = opREP then execLoop s q inst
    else if q.includesLiteralConstant then
      let inst := { inst with bytecode := q.words ++ q.words, length := inst.length + 4 }
      some { pushInstruction s inst with pc := s.pc + 1 + 1 }
    else some { pushInstruction s inst with pc := s.pc + 1 }

def step (data : Nat → Quad) (s : CfgState) : Option CfgState := (enter s).bind (exec data)

def scan (data : Nat → Quad) : Nat → CfgState → Option CfgState
  | 0, s => if s.end then some s else none
  | n + 1, s => if s.end then some s else (step data s).bind (scan data n)

def start : CfgState := ⟨0, false, 0, ⟨[{ }]⟩, [], []⟩

def sortEdges (b : BasicBlock) : BasicBlock :=
  { b with
    pred := b.pred.mergeSort fun x y => x.source ≥ y.source
    succ := b.succ.mergeSort fun x y => x.target ≤ y.target }

def sortGraph (g : FlowGraph) : FlowGraph :=
  ⟨(g.blocks.map sortEdges).mergeSort fun x y => x.id ≤ y.id⟩

def deconstructFragmentProgram (data : Nat → Quad) (fuel : Nat) : Option FlowGraph :=
  (scan data fuel start).map fun s => sortGraph s.graph

end Armsx3.Rsx
