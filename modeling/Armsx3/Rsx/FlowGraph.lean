import Mathlib

/-!
# FlowGraph — the flow graph of a fragment program

A block is known by its ID, the address of its first instruction, which stands for the pointer to the block: a block is
only made for an address that has none.
-/

namespace Armsx3.Rsx

open List

structure Register where
  id : Nat := 0
  f16 : Bool := false
deriving DecidableEq, Repr

/-- A register with the mask of the components that are meant. -/
structure RegisterRef where
  reg : Register := {}
  mask : BitVec 4 := 0
deriving DecidableEq, Repr

structure Instruction where
  bytecode : List (BitVec 32) := []
  addr : Nat := 0
  opcode : Nat := 0
  length : Nat := 4
  srcs : List RegisterRef := []
  dsts : List RegisterRef := []
deriving DecidableEq, Repr

inductive EdgeType
  | NONE
  | IF
  | ELSE
  | ENDIF
  | LOOP
  | ENDLOOP
deriving DecidableEq, Repr

/-- `source` and `target` are the IDs of `from` and `to`. -/
structure FlowEdge where
  type : EdgeType := .NONE
  source : Nat
  target : Nat
deriving DecidableEq, Repr

structure BasicBlock where
  id : Nat := 0
  instructions : List Instruction := []
  succ : List FlowEdge := []
  pred : List FlowEdge := []
  prologue : List Instruction := []
  epilogue : List Instruction := []
  inputList : List RegisterRef := []
  clobberList : List RegisterRef := []
deriving DecidableEq, Repr

namespace BasicBlock

def insertSucc (b : BasicBlock) (target : Nat) (type : EdgeType) : BasicBlock :=
  { b with succ := b.succ ++ [⟨type, b.id, target⟩] }

def insertPred (b : BasicBlock) (source : Nat) (type : EdgeType) : BasicBlock :=
  { b with pred := b.pred ++ [⟨type, source, b.id⟩] }

def isOfType (b : BasicBlock) (type : EdgeType) : Bool :=
  match b.pred with
  | [e] => e.type = type
  | _ => false

def addrs (b : BasicBlock) : List Nat := b.instructions.map Instruction.addr

end BasicBlock

structure FlowGraph where
  blocks : List BasicBlock := []
deriving DecidableEq, Repr

namespace FlowGraph

def block? (g : FlowGraph) (id : Nat) : Option BasicBlock := g.blocks.find? fun b => b.id = id

def modify (g : FlowGraph) (id : Nat) (f : BasicBlock → BasicBlock) : FlowGraph :=
  ⟨g.blocks.map fun b => if b.id = id then f b else b⟩

def link (g : FlowGraph) (source target : Nat) (type : EdgeType) : FlowGraph :=
  (g.modify source fun b => b.insertSucc target type).modify target fun b => b.insertPred source type

/-- `push` with a parent -/
def push (g : FlowGraph) (parent id : Nat) (type : EdgeType) : FlowGraph :=
  FlowGraph.link ⟨g.blocks ++ [{ id := id }]⟩ parent id type

variable {g : FlowGraph} {i j : Nat} {f : BasicBlock → BasicBlock} {b : BasicBlock}

theorem id_of_block? (h : g.block? i = some b) : b.id = i := by
  simpa using find?_some h

theorem block?_modify (hf : ∀ b, (f b).id = b.id) :
    (g.modify i f).block? j = if j = i then (g.block? j).map f else g.block? j := by
  unfold block? modify
  simp only
  induction g.blocks with
  | nil => simp
  | cons b l ih =>
    rw [map_cons, find?_cons, find?_cons, ih]
    by_cases hb : b.id = i
    · by_cases hj : j = i
      · simp [hb, hj, hf]
      · have hne := Ne.symm hj
        simp [hb, hj, hf, hne]
    · by_cases hj : j = i
      · simp [hb, hj]
      · simp [hb, hj]

def linked (source target : Nat) (type : EdgeType) (j : Nat) (b : BasicBlock) : BasicBlock :=
  { b with
    succ := if j = source then b.succ ++ [⟨type, source, target⟩] else b.succ
    pred := if j = target then b.pred ++ [⟨type, source, target⟩] else b.pred }

theorem block?_link {source target : Nat} {type : EdgeType} :
    (g.link source target type).block? j = (g.block? j).map (linked source target type j) := by
  unfold link
  rw [block?_modify (by exact fun _ => rfl), block?_modify (by exact fun _ => rfl)]
  cases hb : g.block? j with
  | none => simp
  | some b =>
    have hid := id_of_block? hb
    unfold linked BasicBlock.insertSucc BasicBlock.insertPred
    by_cases hs : j = source
    · have hid' := hid.trans hs
      by_cases ht : j = target
      · simp [hs ▸ ht, hs, hid']
      · simp [hs, hs ▸ ht, hid']
    · by_cases ht : j = target
      · have hid' := hid.trans ht
        simp [ht, ht ▸ hs, hid']
      · simp [hs, ht]

theorem block?_append (h : g.block? i = none) :
    FlowGraph.block? ⟨g.blocks ++ [{ id := i }]⟩ j = if j = i then some { id := i } else g.block? j := by
  unfold block? at h ⊢
  rw [find?_append, find?_singleton]
  by_cases hj : j = i
  · rw [hj, h]
    simp
  · have hne := Ne.symm hj
    simp [hj, hne]

theorem block?_push {parent : Nat} {type : EdgeType} (h : g.block? i = none) : (g.push parent i type).block? j =
      (if j = i then some { id := i } else g.block? j).map (linked parent i type j) := by
  unfold push
  rw [block?_link, block?_append h]

end FlowGraph

end Armsx3.Rsx
