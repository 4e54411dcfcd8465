import Mathlib

/-!
# FifoRing — the command words of the RSX

Method headers with their arguments, words that do nothing and words of flow control.  `ringRead` says what a sequence
of words stands for.
-/

namespace Armsx3.Rsx

open List Nat

def isMethod (cmd : BitVec 32) : Bool := cmd &&& 0xa0030003 == 0

/-- A jump of the old or the new kind, a call or a return. -/
def isFlow (cmd : BitVec 32) : Bool :=
  cmd &&& 0xe0000003 == 0x20000000 || cmd &&& 0xe0000003 == 0x00000001 || cmd &&& 0x00000003 == 0x00000002 ||
    cmd &&& 0xffff0003 == 0x00020000

def methodCount (cmd : BitVec 32) : Nat := (cmd >>> 18 &&& 0x7ff).toNat

def methodReg (cmd : BitVec 32) : Nat := (cmd &&& 0xfffc).toNat

/-- 0 for `RSX_METHOD_NON_INCREMENT_CMD`, otherwise 4. -/
def methodInc (cmd : BitVec 32) : Nat := if cmd &&& 0xe0030003 == 0x40000000 then 0 else 4

/-! ## What a sequence of words stands for -/

inductive RingPlace
  | command
  | args (reg inc left : Nat)
  | stopped
deriving DecidableEq, Repr

structure RingRead where
  place : RingPlace := .command
  pairs : List (Nat × BitVec 32) := []
deriving DecidableEq, Repr

def RingRead.next (r : RingRead) (word : BitVec 32) : RingRead :=
  match r.place with
  | .command =>
    if isMethod word then
      if methodCount word = 0 then r
      else { r with place := .args (methodReg word) (methodInc word) (methodCount word) }
    else { r with place := .stopped }
  | .args reg inc left =>
    { place := if left = 1 then .command else .args (reg + inc) inc (left - 1), pairs := r.pairs ++ [(reg, word)] }
  | .stopped => r

def ringRead (words : List (BitVec 32)) : RingRead := words.foldl RingRead.next {}

theorem ringRead_concat (words : List (BitVec 32)) (word : BitVec 32) :
    ringRead (words ++ [word]) = (ringRead words).next word := foldl_concat ..

theorem ringRead_take_succ {words : List (BitVec 32)} {k : Nat} {word : BitVec 32} (h : words[k]? = some word) :
    ringRead (words.take (k + 1)) = (ringRead (words.take k)).next word := by
  rw [take_add_one, h]
  exact ringRead_concat ..

/-! ## Packets -/

/-- A header with its arguments; the base register is `4 * method`. -/
structure Packet where
  method : BitVec 14
  increment : Bool
  args : List (BitVec 32)
  pos : 0 < args.length
  lt : args.length < 2 ^ 11

namespace Packet

variable (p : Packet)

def header : BitVec 32 :=
  0#1 ++ BitVec.ofBool (!p.increment) ++ 0#1 ++ BitVec.ofNat 11 p.args.length ++ 0#2 ++ p.method ++ 0#2

def words : List (BitVec 32) := p.header :: p.args

def reg (i : Nat) : Nat := 4 * p.method.toNat + (if p.increment then 4 * i else 0)

def pairs : List (Nat × BitVec 32) := p.args.zipIdx.map fun a => (p.reg a.2, a.1)

theorem isMethod_header : isMethod p.header = true := by
  have h : p.header &&& 0xa0030003 = 0 := by
    apply BitVec.eq_of_getLsbD_eq
    intro i hi
    rw [header]
    simp only [BitVec.getLsbD_and, BitVec.getLsbD_append]
    interval_cases i <;> simp
  rw [isMethod, h]
  rfl

theorem methodCount_header : methodCount p.header = p.args.length := by
  have h : p.header >>> 18 &&& 0x7ff = BitVec.setWidth 32 (BitVec.ofNat 11 p.args.length) := by
    apply BitVec.eq_of_getLsbD_eq
    intro i hi
    rw [header]
    simp only [BitVec.getLsbD_and, BitVec.getLsbD_ushiftRight, BitVec.getLsbD_append, BitVec.getLsbD_setWidth]
    interval_cases i <;> simp
  rw [methodCount, h, BitVec.toNat_setWidth, BitVec.toNat_ofNat]
  have := p.lt
  omega

theorem methodReg_header : methodReg p.header = 4 * p.method.toNat := by
  have h : p.header &&& (0xfffc : BitVec 32) = BitVec.setWidth 32 p.method <<< 2 := by
    apply BitVec.eq_of_getLsbD_eq
    intro i hi
    rw [header]
    simp only [BitVec.getLsbD_and, BitVec.getLsbD_shiftLeft, BitVec.getLsbD_append, BitVec.getLsbD_setWidth]
    interval_cases i <;> simp
  rw [methodReg, h, BitVec.toNat_shiftLeft, BitVec.toNat_setWidth, shiftLeft_eq]
  omega

theorem methodInc_header : methodInc p.header = if p.increment then 4 else 0 := by
  have h : p.header &&& 0xe0030003 = if p.increment then 0 else 0x40000000 := by
    apply BitVec.eq_of_getLsbD_eq
    intro i hi
    rw [header]
    simp only [BitVec.getLsbD_and, BitVec.getLsbD_append]
    cases p.increment <;> interval_cases i <;> simp
  rw [methodInc, h]
  cases p.increment <;> rfl

theorem foldl_args (reg inc k : Nat) (args : List (BitVec 32)) (hne : args ≠ []) (r : RingRead)
    (hr : r.place = .args (reg + inc * k) inc args.length) :
    args.foldl RingRead.next r =
      { place := .command, pairs := r.pairs ++ (args.zipIdx k).map fun a => (reg + inc * a.2, a.1) } := by
  induction args generalizing k r with
  | nil => exact absurd rfl hne
  | cons arg args ih =>
    rw [foldl_cons, zipIdx_cons, map_cons]
    cases args with
    | nil =>
      rw [RingRead.next, hr]
      rfl
    | cons arg' args =>
      have hnext : r.next arg =
          { place := .args (reg + inc * (k + 1)) inc (args.length + 1), pairs := r.pairs ++ [(reg + inc * k, arg)] } := by
        rw [RingRead.next, hr]
        show RingRead.mk (if args.length + 1 + 1 = 1 then _ else _) _ = _
        rw [if_neg (by omega), mul_succ, add_assoc]
        rfl
      rw [hnext, ih (k + 1) (cons_ne_nil arg' args) _ rfl, append_assoc]
      rfl

theorem foldl_words (r : RingRead) (hr : r.place = .command) :
    p.words.foldl RingRead.next r = { place := .command, pairs := r.pairs ++ p.pairs } := by
  have hpos := p.pos
  have hcount := p.methodCount_header
  have hnext : r.next p.header = { r with place := .args (4 * p.method.toNat) (if p.increment then 4 else 0) p.args.length } := by
    rw [RingRead.next, hr]
    rw [if_pos p.isMethod_header, if_neg (by omega), methodReg_header, methodInc_header, hcount]
  rw [words, foldl_cons, hnext,
    foldl_args (4 * p.method.toNat) _ 0 p.args (ne_nil_of_length_pos hpos) _ (by rw [mul_zero, add_zero])]
  congr 3
  funext a
  rw [reg]
  cases p.increment with
  | true => rfl
  | false => rw [if_neg (by decide), if_neg (by decide), zero_mul]

end Packet

theorem ringRead_packets (ps : List Packet) : ringRead (ps.flatMap Packet.words) =
    { pairs := ps.flatMap Packet.pairs } := by
  have hall : ∀ r : RingRead, r.place = .command →
      (ps.flatMap Packet.words).foldl RingRead.next r = { place := .command, pairs := r.pairs ++ ps.flatMap Packet.pairs } := by
    induction ps with
    | nil =>
      intro r hr
      rw [flatMap_nil, flatMap_nil, append_nil, ← hr]
      rfl
    | cons p ps ih =>
      intro r hr
      rw [flatMap_cons, flatMap_cons, foldl_append, p.foldl_words r hr, ih _ rfl, append_assoc]
  exact hall {} rfl

end Armsx3.Rsx
