import Armsx3.Rsx.FragmentCfg

/-!
# FragmentCode — structured fragment programs and how they run

A program of ordinary instructions, IF, ELSE and LOOP as a tree, what its instructions look like in memory,
and the sequences of instructions that it can execute.
-/

namespace Armsx3.Rsx

/-- A list of statements.  `nop` and `op` say how many slots the instruction takes: a literal takes one
more.  An IF without ELSE has nothing in its second branch. -/
inductive Code
  | done
  | nop (n : Nat) (rest : Code)
  | op (n : Nat) (rest : Code)
  | ife (thn els rest : Code)
  | loop (body rest : Code)
deriving DecidableEq, Repr

namespace Code

def size : Code → Nat
  | done => 0
  | nop n rest => n + rest.size
  | op n rest => n + rest.size
  | ife thn els rest => 1 + thn.size + els.size + rest.size
  | loop body rest => 1 + body.size + rest.size

end Code

/-! ## Memory -/

def Quad.Ordinary (q : Quad) : Prop :=
  q.opcode ≠ opNOP ∧ q.opcode ≠ opBRK ∧ q.opcode ≠ opCAL ∧ q.opcode ≠ opIFE ∧ q.opcode ≠ opLOOP ∧
  q.opcode ≠ opREP ∧ q.opcode ≠ opRET

instance (q : Quad) : Decidable q.Ordinary := inferInstanceAs (Decidable (_ ∧ _))

def Quad.nopSize (q : Quad) : Nat := if q.includesLiteralConstant then 2 else 1

def Quad.opSize (q : Quad) : Nat :=
  if q.opcode = opFENCT ∨ q.opcode = opFENCB then 1
  else if q.includesLiteralConstant then 2 else 1

/-- The memory from address `a` on holds the code; the instruction before address `last` has the end bit. -/
def Encodes (data : Nat → Quad) (last : Nat) : Code → Nat → Prop
  | .done, _ => True
  | .nop n rest, a =>
    (data a).decode.opcode = opNOP ∧ (data a).decode.nopSize = n ∧
    (data a).decode.isEnd = decide (a + n = last) ∧ Encodes data last rest (a + n)
  | .op n rest, a =>
    (data a).decode.Ordinary ∧ (data a).decode.opSize = n ∧
    (data a).decode.isEnd = decide (a + n = last) ∧ Encodes data last rest (a + n)
  | .ife thn els rest, a =>
    (data a).decode.opcode = opIFE ∧ (data a).decode.elseAddr = a + 1 + thn.size ∧
    (data a).decode.endAddr = a + 1 + thn.size + els.size ∧
    (data a).decode.isEnd = decide (a + 1 = last) ∧ Encodes data last thn (a + 1) ∧
    Encodes data last els (a + 1 + thn.size) ∧ Encodes data last rest (a + 1 + thn.size + els.size)
  | .loop body rest, a =>
    ((data a).decode.opcode = opLOOP ∨ (data a).decode.opcode = opREP) ∧
    (data a).decode.endAddr = a + 1 + body.size ∧ (data a).decode.isEnd = decide (a + 1 = last) ∧
    Encodes data last body (a + 1) ∧ Encodes data last rest (a + 1 + body.size)

instance Encodes.decidable (data : Nat → Quad) (last : Nat) : ∀ c a, Decidable (Encodes data last c a)
  | .done, _ => isTrue trivial
  | .nop n rest, a =>
    have := decidable data last rest (a + n)
    inferInstanceAs (Decidable (_ ∧ _))
  | .op n rest, a =>
    have := decidable data last rest (a + n)
    inferInstanceAs (Decidable (_ ∧ _))
  | .ife thn els rest, a =>
    have := decidable data last thn (a + 1)
    have := decidable data last els (a + 1 + thn.size)
    have := decidable data last rest (a + 1 + thn.size + els.size)
    inferInstanceAs (Decidable (_ ∧ _))
  | .loop body rest, a =>
    have := decidable data last body (a + 1)
    have := decidable data last rest (a + 1 + body.size)
    inferInstanceAs (Decidable (_ ∧ _))

theorem Quad.nopSize_pos (q : Quad) : 0 < q.nopSize := by
  unfold Quad.nopSize
  split <;> omega

theorem Quad.opSize_pos (q : Quad) : 0 < q.opSize := by
  unfold Quad.opSize
  split
  · omega
  · split <;> omega

theorem Encodes.size_pos {data : Nat → Quad} {last a : Nat} {c : Code} (h : Encodes data last c a)
    (hne : c ≠ .done) : 0 < c.size := by
  cases c with
  | done => exact absurd rfl hne
  | nop =>
    have hpos := (data a).decode.nopSize_pos
    have hn := h.2.1
    simp only [Code.size]
    omega
  | op =>
    have hpos := (data a).decode.opSize_pos
    have hn := h.2.1
    simp only [Code.size]
    omega
  | ife | loop =>
    simp only [Code.size]
    omega

/-! ## Executions -/

/-- The sequences of instructions, by their addresses in bytes, that the code from slot `a` on can execute.
A NOP is no instruction here, and neither is an IF or LOOP with nothing in it. -/
def Executes : Code → Nat → List Nat → Prop
  | .done, _, t => t = []
  | .nop n rest, a, t => Executes rest (a + n) t
  | .op n rest, a, t => ∃ u, t = a * 16 :: u ∧ Executes rest (a + n) u
  | .ife thn els rest, a, t =>
    if thn = .done ∧ els = .done then Executes rest (a + 1) t
    else ∃ u v : List Nat, t = a * 16 :: (u ++ v) ∧ (Executes thn (a + 1) u ∨ Executes els (a + 1 + thn.size) u) ∧
      Executes rest (a + 1 + thn.size + els.size) v
  | .loop body rest, a, t =>
    if body = .done then Executes rest (a + 1) t
    else ∃ (us : List (List Nat)) (v : List Nat), t = a * 16 :: (us.flatten ++ v) ∧
      (∀ u ∈ us, Executes body (a + 1) u) ∧ Executes rest (a + 1 + body.size) v

def Consecutive (c : Code) (x y : Nat) : Prop := ∃ t, Executes c 0 t ∧ [x, y] <:+: t

/-- The end of the list is not reached in the block that the list was started in, nor in a branch that ends
there: the last IF or LOOP with something in it is followed by more.  `front` says that there is none in
front. -/
def Code.blocked (front : Bool) : Code → Bool
  | done => !front
  | nop _ rest => rest.blocked front
  | op _ rest => rest.blocked front
  | ife thn els rest =>
    if thn = done ∧ els = done then rest.blocked front else rest ≠ done && rest.blocked false
  | loop body rest =>
    if body = done then rest.blocked front else rest ≠ done && rest.blocked false

/-- `x` is one of the instructions of the slots from `a` up to `e`, and `y` is not. -/
def Leaves (a e x y : Nat) : Prop := (a * 16 ≤ x ∧ x < e * 16) ∧ ¬ (a * 16 ≤ y ∧ y < e * 16)

instance (a e x y : Nat) : Decidable (Leaves a e x y) := inferInstanceAs (Decidable (_ ∧ _))

/-- From `x` to `y` a branch is left whose last IF or LOOP is followed by more. -/
def Crosses : Code → Nat → Nat → Nat → Prop
  | .done, _, _, _ => False
  | .nop n rest, a, x, y => Crosses rest (a + n) x y
  | .op n rest, a, x, y => Crosses rest (a + n) x y
  | .ife thn els rest, a, x, y =>
    (thn.blocked true ∧ Leaves (a + 1) (a + 1 + thn.size) x y) ∨
    (els.blocked true ∧ Leaves (a + 1 + thn.size) (a + 1 + thn.size + els.size) x y) ∨
    Crosses thn (a + 1) x y ∨ Crosses els (a + 1 + thn.size) x y ∨
    Crosses rest (a + 1 + thn.size + els.size) x y
  | .loop body rest, a, x, y =>
    (body.blocked true ∧ Leaves (a + 1) (a + 1 + body.size) x y) ∨
    Crosses body (a + 1) x y ∨ Crosses rest (a + 1 + body.size) x y

end Armsx3.Rsx
