import Armsx3.Rsx.FragmentCode

/-!
# FragmentAssembler — from the assembler back to instructions

`FPIR::compile` lays out the instructions of an assembled program, with the half-words as the hardware
has them.
-/

namespace Armsx3.Rsx

open List

/-- An instruction of `FPIR` that is no flow control; its opcode is the one that is encoded in its words.
    The assembler has no fences. -/
structure FpirInst where
  words : Quad
  literal : Quad := {}
  plain : words.opcode = opNOP ∨ words.Ordinary
  noFence : words.opcode ≠ opFENCT ∧ words.opcode ≠ opFENCB

namespace FpirInst

/-- `load` makes it 8 when an operand is a literal. -/
def length (i : FpirInst) : Nat := if i.words.includesLiteralConstant then 8 else 4

def bytecode (i : FpirInst) : List (BitVec 32) := i.words.words ++ i.literal.words

end FpirInst

/-- A `be_t<u16>` in little-endian memory. -/
def be16 (h : BitVec 16) : BitVec 16 := h.extractLsb' 0 8 ++ h.extractLsb' 8 8

def compileWord (w : BitVec 32) : BitVec 32 :=
  let low := be16 (w.extractLsb' 0 16)
  let hi := be16 (w.extractLsb' 16 16)
  low.setWidth 32 ||| hi.setWidth 32 <<< 16

def compile (insts : List FpirInst) : List (BitVec 32) :=
  insts.flatMap fun i => (i.bytecode.take i.length).map compileWord

/-- `v128::loadu(data, pc)` -/
def loadu (data : List (BitVec 32)) (pc : Nat) : Quad :=
  ⟨data.getD (4 * pc) 0, data.getD (4 * pc + 1) 0, data.getD (4 * pc + 2) 0, data.getD (4 * pc + 3) 0⟩

/-- `from_source` sets the end bit of the last instruction, and of no other one. -/
def EndMarked : List FpirInst → Prop
  | [] => False
  | [i] => i.words.isEnd = true
  | i :: j :: insts => i.words.isEnd = false ∧ EndMarked (j :: insts)

/-- The instruction that is made of one at `pc`. -/
def decoded (pc : Nat) (i : FpirInst) : Instruction :=
  { bytecode := if i.words.includesLiteralConstant then i.words.words ++ i.words.words else i.words.words
    addr := pc * 16
    opcode := i.words.opcode
    length := i.length }

/-- The instructions of the block; there is none for a NOP. -/
def decodedFrom (pc : Nat) : List FpirInst → List Instruction
  | [] => []
  | i :: insts =>
    (if i.words.opcode = opNOP then [] else [decoded pc i]) ++ decodedFrom (pc + i.length / 4) insts

def oneBlock (insts : List Instruction) : FlowGraph := ⟨[{ instructions := insts }]⟩

theorem swapHalves_compileWord (w : BitVec 32) : Quad.swapHalves (compileWord w) = w := by
  apply BitVec.eq_of_getLsbD_eq
  intro i hi
  simp only [Quad.swapHalves, compileWord, be16, BitVec.getLsbD_or, BitVec.getLsbD_and,
    BitVec.getLsbD_shiftLeft, BitVec.getLsbD_ushiftRight, BitVec.getLsbD_setWidth,
    BitVec.getLsbD_append, BitVec.getLsbD_extractLsb']
  interval_cases i <;> simp

theorem loadu_append {pre : List (BitVec 32)} {pc : Nat} (h : pre.length = 4 * pc)
    (w0 w1 w2 w3 : BitVec 32) (rest : List (BitVec 32)) :
    loadu (pre ++ w0 :: w1 :: w2 :: w3 :: rest) pc = ⟨w0, w1, w2, w3⟩ := by
  simp [loadu, ← h]

theorem compile_cons (i : FpirInst) (insts : List FpirInst) : ∃ l, l.length + 4 = i.length ∧ compile (i :: insts) =
      i.words.words.map compileWord ++ (l ++ compile insts) := by
  unfold FpirInst.length
  split
  next hlit => exact ⟨i.literal.words.map compileWord, rfl, by
    simp [compile, FpirInst.length, hlit, FpirInst.bytecode, Quad.words]⟩
  next hlit => exact ⟨[], rfl, by
    simp [compile, FpirInst.length, hlit, FpirInst.bytecode, Quad.words]⟩

/-- One turn of the loop.  No block is started, since no instruction names an address. -/
theorem step_inst {data : Nat → Quad} {pc : Nat} {i : FpirInst} (h : (data pc).decode = i.words)
    (acc : List Instruction) : step data ⟨pc, false, 0, oneBlock acc, [], []⟩ =
      some ⟨pc + i.length / 4, i.words.isEnd, 0,
        oneBlock (acc ++ if i.words.opcode = opNOP then [] else [decoded pc i]), [], []⟩ := by
  have hpush : ∀ inst, (oneBlock acc).modify 0 (fun b =>
      { b with instructions := b.instructions ++ [inst] }) = oneBlock (acc ++ [inst]) := fun _ => rfl
  unfold step enter exec
  simp only [not_mem_nil, or_self, if_false, Option.bind_some, h, FpirInst.length]
  rcases i.plain with hnop | ⟨hnop, hbrk, hcal, hife, hloop, hrep, hret⟩
  · simp only [hnop, if_true, append_nil]
    split <;> rfl
  simp only [hnop, hbrk, hcal, hife, hloop, hrep, hret, i.noFence, or_self, if_false, pushInstruction, hpush]
  split
  next hlit => simp [decoded, FpirInst.length, hlit]
  next hlit => simp [decoded, FpirInst.length, hlit]

theorem scan_compile {insts : List FpirInst} (hend : EndMarked insts) {pre : List (BitVec 32)} {pc : Nat}
    (hpre : pre.length = 4 * pc) (acc : List Instruction) :
    ∃ pc', scan (loadu (pre ++ compile insts)) insts.length ⟨pc, false, 0, oneBlock acc, [], []⟩ =
      some ⟨pc', true, 0, oneBlock (acc ++ decodedFrom pc insts), [], []⟩ := by
  induction insts generalizing pre pc acc with
  | nil => exact hend.elim
  | cons i insts ih =>
    obtain ⟨l, hl, hcompile⟩ := compile_cons i insts
    have hload : (loadu (pre ++ compile (i :: insts)) pc).decode = i.words := by
      rw [hcompile]
      simp only [Quad.words, map_cons, map_nil, cons_append, nil_append]
      rw [loadu_append hpre]
      simp only [Quad.decode, swapHalves_compileWord]
    rw [length_cons, scan, if_neg Bool.false_ne_true, step_inst hload]
    simp only [Option.bind_some, decodedFrom]
    cases insts with
    | nil =>
      refine ⟨pc + i.length / 4, ?_⟩
      rw [show i.words.isEnd = true from hend, length_nil, scan, if_pos rfl, decodedFrom, append_nil]
    | cons =>
      -- what is behind the instruction is compiled behind its own words
      have hnext : (pre ++ i.words.words.map compileWord ++ l).length = 4 * (pc + i.length / 4) := by
        have hlen : (i.words.words.map compileWord).length = 4 := rfl
        have hdiv : i.length = 4 ∨ i.length = 8 := by unfold FpirInst.length; split <;> simp
        rw [length_append, length_append]
        omega
      obtain ⟨pc', hscan⟩ :=
        ih hend.2 hnext (acc ++ if i.words.opcode = opNOP then [] else [decoded pc i])
      simp only [append_assoc] at hscan
      exact ⟨pc', by rw [hend.1, hcompile, hscan]⟩

theorem deconstruct_compile {insts : List FpirInst} (hend : EndMarked insts) :
    deconstructFragmentProgram (loadu (compile insts)) insts.length = some (oneBlock (decodedFrom 0 insts)) := by
  have hpre : ([] : List (BitVec 32)).length = 4 * 0 := rfl
  obtain ⟨pc, hscan⟩ := scan_compile hend hpre []
  simp only [nil_append] at hscan
  unfold deconstructFragmentProgram
  rw [show start = ⟨0, false, 0, oneBlock [], [], []⟩ from rfl, hscan]
  simp [sortGraph, sortEdges, oneBlock]

/-! ## The round trip -/

/-- The opcode, the length and the words of the instruction itself. -/
def SameWords (i : FpirInst) (inst : Instruction) : Prop :=
  inst.opcode = i.words.opcode ∧ inst.length = i.length ∧ inst.bytecode.take 4 = i.words.words

theorem sameWords_decodedFrom (insts : List FpirInst) (pc : Nat) :
    List.Forall₂ SameWords (insts.filter fun i => i.words.opcode ≠ opNOP) (decodedFrom pc insts) := by
  induction insts generalizing pc with
  | nil => exact .nil
  | cons i insts ih =>
    rw [decodedFrom, filter_cons]
    by_cases hnop : i.words.opcode = opNOP
    · simp only [hnop, ne_eq, not_true_eq_false, decide_false, Bool.false_eq_true, if_false, if_true, nil_append]
      exact ih _
    simp only [hnop, ne_eq, not_false_eq_true, decide_true, if_true, if_false, singleton_append]
    refine .cons ⟨rfl, rfl, ?_⟩ (ih _)
    simp only [decoded]
    split <;> rfl

/-- Every assembled program comes back as one block with its instructions other than NOPs in order. -/
theorem deconstruct_assembled (insts : List FpirInst) (hend : EndMarked insts) :
    ∃ fuel b, deconstructFragmentProgram (loadu (compile insts)) fuel = some ⟨[b]⟩ ∧
      List.Forall₂ SameWords (insts.filter fun i => i.words.opcode ≠ opNOP) b.instructions :=
  ⟨insts.length, _, deconstruct_compile hend, sameWords_decodedFrom insts 0⟩

/-- A `MOV` with a literal, and the end bit. -/
def movLiteral : FpirInst := ⟨⟨0x01000001, 2, 0, 0⟩, ⟨1, 2, 3, 4⟩, by decide, by decide⟩

def nop : FpirInst := ⟨{}, {}, by decide, by decide⟩

theorem deconstruct_assembled_mov : ∃ fuel b,
    deconstructFragmentProgram (loadu (compile [nop, movLiteral])) fuel = some ⟨[b]⟩ ∧
      List.Forall₂ SameWords [movLiteral] b.instructions :=
  deconstruct_assembled [nop, movLiteral] ⟨rfl, rfl⟩

/-- There is one instruction for two, and in the place of its literal it has its own words again. -/
theorem deconstruct_differs : EndMarked [nop, movLiteral] ∧ ∃ b inst,
    deconstructFragmentProgram (loadu (compile [nop, movLiteral])) 2 = some ⟨[b]⟩ ∧
      b.instructions = [inst] ∧ inst.length = 8 ∧ inst.bytecode ≠ movLiteral.bytecode := by
  have hend : EndMarked [nop, movLiteral] := ⟨rfl, rfl⟩
  exact ⟨hend, _, decoded 1 movLiteral, deconstruct_compile hend, rfl, rfl, by decide⟩

end Armsx3.Rsx
