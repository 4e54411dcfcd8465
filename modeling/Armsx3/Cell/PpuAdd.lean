import Mathlib

/-!
# PpuAdd — the carrying additions and subtractions of the interpreter

`ADDC` or `SUBFC` on the lowest limbs and `ADDE` or `SUBFE` on the others work on numbers of any length, so the
registers are named by any type `ι`.
-/

namespace Armsx3.Cell.Ppu

open Function List

structure AddFlagsResult where
  result : BitVec 64
  carry : Bool

def add64Flags (a b : BitVec 64) : AddFlagsResult := ⟨a + b, a + b < a⟩

def add64FlagsCarry (a b : BitVec 64) (c : Bool) : AddFlagsResult :=
  let r := add64Flags (a + b) (.ofNat 64 c.toNat)
  ⟨r.result, (add64Flags a b).carry || r.carry⟩

structure Opcode (ι : Type*) where
  rd : ι
  ra : ι
  rb : ι
  oe : Bool
  rc : Bool

/-- `cr0` is field 0 of the condition register: less, greater, equal and summary overflow. -/
structure Thread (ι : Type*) where
  gpr : ι → BitVec 64
  ca : Bool
  ov : Bool
  so : Bool
  cr0 : Bool × Bool × Bool × Bool

variable {ι : Type*} [DecidableEq ι]

def Thread.ovSet (s : Thread ι) (bit : Bool) : Thread ι := { s with ov := bit, so := s.so || bit }

def Thread.crSet (s : Thread ι) (a : BitVec 64) : Thread ι :=
  { s with cr0 := (a.slt 0, (0#64).slt a, a = 0, s.so) }

/-- What the four instructions do with the sum `r` of `RA`, which a subtraction complements, and `RB`. -/
def Thread.write (s : Thread ι) (op : Opcode ι) (RA RB : BitVec 64) (r : AddFlagsResult) : Thread ι :=
  let s := { s with gpr := update s.gpr op.rd r.result, ca := r.carry }
  let s := if op.oe then s.ovSet (RA >>> 63 = RB >>> 63 ∧ RA >>> 63 ≠ s.gpr op.rd >>> 63) else s
  if op.rc then s.crSet r.result else s

def addc (s : Thread ι) (op : Opcode ι) : Thread ι :=
  let RA := s.gpr op.ra
  let RB := s.gpr op.rb
  s.write op RA RB (add64Flags RA RB)

def adde (s : Thread ι) (op : Opcode ι) : Thread ι :=
  let RA := s.gpr op.ra
  let RB := s.gpr op.rb
  s.write op RA RB (add64FlagsCarry RA RB s.ca)

def subfc (s : Thread ι) (op : Opcode ι) : Thread ι :=
  let RA := s.gpr op.ra
  let RB := s.gpr op.rb
  s.write op (~~~RA) RB (add64FlagsCarry (~~~RA) RB true)

def subfe (s : Thread ι) (op : Opcode ι) : Thread ι :=
  let RA := s.gpr op.ra
  let RB := s.gpr op.rb
  s.write op (~~~RA) RB (add64FlagsCarry (~~~RA) RB s.ca)

def execute (first rest : Thread ι → Opcode ι → Thread ι) (s : Thread ι) : List (Opcode ι) → Thread ι
  | [] => s
  | op :: ops => ops.foldl rest (first s op)

/-! ## Numbers of several limbs -/

section Numbers

variable {ι : Type*} {op x : Opcode ι} {ops : List (Opcode ι)} {a : Opcode ι → BitVec 64}

/-- No instruction reads or writes a register that an earlier one wrote. -/
def Fresh (ops : List (Opcode ι)) : Prop := ops.Pairwise fun x y => y.rd ≠ x.rd ∧ y.ra ≠ x.rd ∧ y.rb ≠ x.rd

/-- The number whose limbs are `a op`, the lowest first. -/
def value (a : Opcode ι → BitVec 64) : List (Opcode ι) → Nat
  | [] => 0
  | op :: ops => (a op).toNat + 2 ^ 64 * value a ops

/-- The same in two's complement: the highest limb has the sign. -/
def signed (a : Opcode ι → BitVec 64) : List (Opcode ι) → Int
  | [] => 0
  | [op] => (a op).toInt
  | op :: x :: ops => (a op).toNat + 2 ^ 64 * signed a (x :: ops)

def span (n : Nat) : Nat := 2 ^ (64 * n)

/-- `x` is a number of `n` limbs in two's complement. -/
def Fits (n : Nat) (x : Int) : Prop := -span n ≤ 2 * x ∧ 2 * x < span n

theorem span_succ (n : Nat) : span (n + 1) = 2 ^ 64 * span n := by
  rw [span, span, Nat.mul_succ, pow_add, Nat.mul_comm]

theorem fits_succ {n l : Nat} {x : Int} (hl : l < 2 ^ 64) : Fits (n + 2) (l + 2 ^ 64 * x) ↔ Fits (n + 1) x := by
  rw [Fits, Fits, span_succ (n + 1), span_succ n]
  generalize span n = p
  omega

theorem value_cons : value a (op :: ops) = (a op).toNat + 2 ^ 64 * value a ops := rfl

theorem signed_cons : signed a (op :: x :: ops) = (a op).toNat + 2 ^ 64 * signed a (x :: ops) := rfl

theorem value_lt : value a ops < span ops.length := by
  induction ops with
  | nil => exact Nat.one_pos
  | cons op =>
    rw [value_cons, length_cons, span_succ]
    omega

theorem value_not : value (~~~a ·) ops + value a ops + 1 = span ops.length := by
  induction ops with
  | nil => rfl
  | cons op =>
    rw [value_cons, value_cons, BitVec.toNat_not, length_cons, span_succ]
    omega

theorem signed_not : signed (~~~a ·) (op :: ops) = -signed a (op :: ops) - 1 := by
  have hlt := (a op).isLt
  induction ops generalizing op with
  | nil =>
    simp only [signed, BitVec.toInt_eq_toNat_cond, BitVec.toNat_not]
    omega
  | cons x ops ih =>
    rw [signed_cons, signed_cons, ih (a x).isLt, BitVec.toNat_not]
    omega

end Numbers

/-! ## One limb -/

theorem add64FlagsCarry_toNat (a b : BitVec 64) (c : Bool) :
    (add64FlagsCarry a b c).result.toNat + (add64FlagsCarry a b c).carry.toNat * 2 ^ 64 =
      a.toNat + b.toNat + c.toNat := by
  have hc := c.toNat_le
  have hbit : ∀ p [Decidable p], (decide p).toNat = if p then 1 else 0 := fun p _ => Bool.cond_decide p _ _
  simp only [add64FlagsCarry, add64Flags, BitVec.lt_def, BitVec.toNat_add, BitVec.toNat_ofNat, ← Bool.decide_or, hbit]
  split <;> omega

theorem overflow_iff {a b d : BitVec 64} {c k : Bool} (h : d.toNat + k.toNat * 2 ^ 64 = a.toNat + b.toNat + c.toNat) :
    (a >>> 63 = b >>> 63 ∧ a >>> 63 ≠ d >>> 63) ↔ ¬ Fits 1 (a.toInt + b.toInt + c.toNat) := by
  have hc := c.toNat_le
  simp only [Ne, ← BitVec.toNat_inj, BitVec.toNat_ushiftRight, Nat.shiftRight_eq_div_pow, Fits, span,
    BitVec.toInt_eq_toNat_cond]
  omega

variable {s : Thread ι} {op : Opcode ι} {ops : List (Opcode ι)} {RA RB : BitVec 64} {r : AddFlagsResult}

theorem write_gpr_ca : (s.write op RA RB r).gpr = update s.gpr op.rd r.result ∧ (s.write op RA RB r).ca = r.carry := by
  unfold Thread.write
  cases op.oe <;> cases op.rc <;> exact ⟨rfl, rfl⟩

theorem write_ov (h : op.oe = true) : (s.write op RA RB r).ov =
    decide (RA >>> 63 = RB >>> 63 ∧ RA >>> 63 ≠ r.result >>> 63) := by
  simp only [Thread.write, h, if_true, update_self]
  cases op.rc <;> rfl

/-! ## Runs -/

/-- The addition with the carry of the limb below; `f` is what is done to the first operand. -/
def carried (f : BitVec 64 → BitVec 64) (s : Thread ι) (op : Opcode ι) : Thread ι :=
  s.write op (f (s.gpr op.ra)) (s.gpr op.rb) (add64FlagsCarry (f (s.gpr op.ra)) (s.gpr op.rb) s.ca)

theorem addc_eq : addc s op = carried id { s with ca := false } op := by
  simp [addc, carried, add64FlagsCarry, add64Flags, Thread.write]

theorem subfc_eq : subfc s op = carried (~~~·) { s with ca := true } op := rfl

variable {f : BitVec 64 → BitVec 64} {a b d : Opcode ι → BitVec 64}

theorem run_gpr {r : ι} (h : ∀ x ∈ ops, x.rd ≠ r) : (ops.foldl (carried f) s).gpr r = s.gpr r := by
  induction ops generalizing s with
  | nil => rfl
  | cons op ops ih =>
    rw [foldl_cons, ih fun x hx => h x (.tail _ hx), carried, write_gpr_ca.1, update_of_ne (h op (.head _)).symm]

/-- The operands of a run and its results. -/
def Limbs (f : BitVec 64 → BitVec 64) (s : Thread ι) (a b d : Opcode ι → BitVec 64) (ops : List (Opcode ι)) : Prop :=
  ∀ x ∈ ops, f (s.gpr x.ra) = a x ∧ s.gpr x.rb = b x ∧ (ops.foldl (carried f) s).gpr x.rd = d x

theorem Limbs.cons (h : Fresh (op :: ops)) (hl : Limbs f s a b d (op :: ops)) : Limbs f (carried f s op) a b d ops ∧
    (d op).toNat + (carried f s op).ca.toNat * 2 ^ 64 = (a op).toNat + (b op).toNat + s.ca.toNat ∧
    (op.oe = true → ((carried f s op).ov = true ↔ ¬ Fits 1 ((a op).toInt + (b op).toInt + s.ca.toNat))) := by
  have hop := (pairwise_cons.mp h).1
  have ⟨ha, hb, hd⟩ := hl op (.head _)
  have hs : carried f s op = s.write op (a op) (b op) (add64FlagsCarry (a op) (b op) s.ca) := by
    rw [carried, ha, hb]
  rw [foldl_cons, run_gpr fun x hx => (hop x hx).1, hs, write_gpr_ca.1, update_self] at hd
  have hsum := add64FlagsCarry_toNat (a op) (b op) s.ca
  rw [hd] at hsum
  refine ⟨fun x hx => ?_, by rwa [hs, write_gpr_ca.2], fun hoe => ?_⟩
  · have hgpr : ∀ r, r ≠ op.rd → (carried f s op).gpr r = s.gpr r := by
      intro r hr
      rw [hs, write_gpr_ca.1, update_of_ne hr]
    rw [hgpr _ (hop x hx).2.1, hgpr _ (hop x hx).2.2]
    exact hl x (.tail _ hx)
  · rw [hs, write_ov hoe, hd, decide_eq_true_iff]
    exact overflow_iff hsum

/-- The carry into the limbs above makes the limb and them the exact sum. -/
theorem carried_run (h : Fresh (op :: ops)) (hl : Limbs f s a b d (op :: ops)) :
    value d (op :: ops) + ((op :: ops).foldl (carried f) s).ca.toNat * span (op :: ops).length =
      value a (op :: ops) + value b (op :: ops) + s.ca.toNat ∧
    (((op :: ops).getLast (by simp)).oe = true → (((op :: ops).foldl (carried f) s).ov = true ↔
      ¬ Fits (op :: ops).length (signed a (op :: ops) + signed b (op :: ops) + s.ca.toNat))) := by
  have ⟨htail, hlimb, hov⟩ := hl.cons h
  rw [foldl_cons]
  induction ops generalizing op s with
  | nil => exact ⟨by simpa [value, span] using hlimb, hov⟩
  | cons x ops ih =>
    have hx := (pairwise_cons.mp h).2
    have ⟨htail', hlimb', hov'⟩ := htail.cons hx
    have ⟨hsum, hlast⟩ := ih hx htail htail' hlimb' hov'
    have hexact : signed a (op :: x :: ops) + signed b (op :: x :: ops) + s.ca.toNat = (d op).toNat + 2 ^ 64 *
        (signed a (x :: ops) + signed b (x :: ops) + (carried f s op).ca.toNat) := by
      rw [signed_cons, signed_cons]
      omega
    rw [foldl_cons, length_cons]
    refine ⟨?_, fun hoe => ?_⟩
    · simp only [span_succ, Nat.mul_left_comm, value_cons] at hsum ⊢
      omega
    · rw [hlast hoe, hexact, length_cons, fits_succ (d op).isLt]

theorem multi_precision (s : Thread ι) (h : Fresh ops) (hne : ops ≠ []) :
    let sum := execute addc adde s ops
    let diff := execute subfc subfe s ops
    value (sum.gpr ·.rd) ops + sum.ca.toNat * span ops.length = value (s.gpr ·.ra) ops + value (s.gpr ·.rb) ops ∧
    (value (diff.gpr ·.rd) ops : Int) = (value (s.gpr ·.rb) ops - value (s.gpr ·.ra) ops : Int) % span ops.length ∧
    (diff.ca = true ↔ value (s.gpr ·.ra) ops ≤ value (s.gpr ·.rb) ops) ∧
    ((ops.getLast hne).oe = true →
      (sum.ov = true ↔ ¬ Fits ops.length (signed (s.gpr ·.ra) ops + signed (s.gpr ·.rb) ops)) ∧
      (diff.ov = true ↔ ¬ Fits ops.length (signed (s.gpr ·.rb) ops - signed (s.gpr ·.ra) ops))) := by
  have ⟨op, l, hops⟩ := exists_cons_of_ne_nil hne
  subst hops
  intro sum diff
  have hsum : (op :: l).foldl (carried id) { s with ca := false } = sum := by
    rw [foldl_cons, ← addc_eq]
    rfl
  have hdiff : (op :: l).foldl (carried (~~~·)) { s with ca := true } = diff := by
    rw [foldl_cons, ← subfc_eq]
    rfl
  have ⟨hsumVal, hsumOv⟩ := carried_run (f := id) (s := { s with ca := false }) h fun _ _ => ⟨rfl, rfl, rfl⟩
  have ⟨hval, hov⟩ := carried_run (f := (~~~·)) (s := { s with ca := true }) h fun _ _ => ⟨rfl, rfl, rfl⟩
  rw [hsum] at hsumVal hsumOv
  rw [hdiff] at hval hov
  dsimp only [Bool.toNat_true] at hval hov
  have hlt : value (diff.gpr ·.rd) (op :: l) < span (op :: l).length := value_lt
  -- the complement and 1 stand for the difference
  have hnot : value (~~~s.gpr ·.ra) (op :: l) + value (s.gpr ·.ra) (op :: l) + 1 = span (op :: l).length := value_not
  refine ⟨hsumVal, ?_, ?_, fun hoe => ⟨?_, ?_⟩⟩
  · have hwrap : (value (s.gpr ·.rb) (op :: l) - value (s.gpr ·.ra) (op :: l) + span (op :: l).length : Int) =
        value (diff.gpr ·.rd) (op :: l) + diff.ca.toNat * span (op :: l).length := by omega
    rw [← Int.add_emod_right, hwrap, Int.add_mul_emod_self_right, Int.emod_eq_of_lt (by omega) (by omega)]
  · cases hca : diff.ca <;> simp only [hca, Bool.toNat_true, Bool.toNat_false] at hval
    · exact ⟨by rintro ⟨⟩, fun hle => by omega⟩
    · exact ⟨fun _ => by omega, fun _ => rfl⟩
  · rw [hsumOv hoe, Bool.toNat_false, Nat.cast_zero, Int.add_zero]
    exact Iff.rfl
  · rw [hov hoe, signed_not, Nat.cast_one, show ∀ x y : Int, -x - 1 + y + 1 = y - x by
      intros
      omega]

/-- Two limbs, with a carry out of each and a sum that is out of range. -/
theorem multi_precision_two :
    let s : Thread (Fin 32) := ⟨fun r => if r < 2 then 2 ^ 64 - 1 else 2 ^ 63, false, false, false, default⟩
    let ops : List (Opcode (Fin 32)) := [⟨4, 0, 1, false, false⟩, ⟨5, 2, 3, true, true⟩]
    let sum := execute addc adde s ops
    (Fresh ops ∧ sum.gpr 4 = 2 ^ 64 - 2 ∧ sum.gpr 5 = 1 ∧ sum.ca = true ∧ sum.ov = true) ∧
      value (sum.gpr ·.rd) ops + sum.ca.toNat * span 2 = value (s.gpr ·.ra) ops + value (s.gpr ·.rb) ops := by
  intro s ops sum
  have h : Fresh ops := by
    unfold Fresh
    decide
  exact ⟨⟨h, by decide +kernel⟩, (multi_precision s h (by decide)).1⟩

end Armsx3.Cell.Ppu
