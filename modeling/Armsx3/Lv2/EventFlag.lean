import Armsx3.Library.Bits
import Armsx3.Library.Selection
import Armsx3.Lv2.Sync

/-!
# EventFlag — the evaluation of the waiters in `sys_event_flag_set`

`sys_event_flag_set` evaluates all waiters in one pass on a snapshot of the pattern, leaves a verdict for each in
`gpr[3]`, and commits with one atomic operation that fails if a bit the pass depends on has changed since; then it
starts over.
-/

namespace Armsx3.Lv2.EventFlag

open Function List

inductive Cond
  | and | or
  deriving DecidableEq

inductive Clear
  | keep | bits | all
  deriving DecidableEq

structure Mode where
  cond : Cond
  clear : Clear
  deriving DecidableEq

/-- `lv2_event_flag::check_mode`, with the meaning of the modes it lets pass. -/
def checkMode (mode : BitVec 32) : Option Mode := do
  let cond ←
    if mode &&& 0xf = 0x1 then some Cond.and else if mode &&& 0xf = 0x2 then some .or else none
  let clear ←
    if mode &&& ~~~0xf = 0 then some Clear.keep
    else if mode &&& ~~~0xf = 0x10 then some .bits
    else if mode &&& ~~~0xf = 0x20 then some .all
    else none
  return ⟨cond, clear⟩

structure Args where
  bitptn : BitVec 64
  mode : Mode
  deriving DecidableEq

def Args.satisfied (a : Args) (pattern : BitVec 64) : Prop :=
  match a.mode.cond with
  | .and => pattern &&& a.bitptn = a.bitptn
  | .or => pattern &&& a.bitptn ≠ 0

instance (a : Args) (pattern : BitVec 64) : Decidable (a.satisfied pattern) :=
  match a with
  | ⟨bitptn, .and, _⟩ => inferInstanceAs (Decidable (pattern &&& bitptn = bitptn))
  | ⟨bitptn, .or, _⟩ => inferInstanceAs (Decidable (pattern &&& bitptn ≠ 0))

/-- `lv2_event_flag::check_pattern`: the pattern after a successful check. -/
def checkPattern (pattern : BitVec 64) (a : Args) : Option (BitVec 64) :=
  if (a.mode.cond = .and ∧ pattern &&& a.bitptn ≠ a.bitptn) ∨ (a.mode.cond = .or ∧ pattern &&& a.bitptn = 0) then none
  else
    match a.mode.clear with
    | .keep => some pattern
    | .bits => some (pattern &&& ~~~a.bitptn)
    | .all => some 0

/-! ## One pass over the waiters -/

/-- The locals of a pass and the registers it writes; `none` in `gpr3` is `-1`. -/
structure Pass where
  toWrite : BitVec 64
  dependantMask : BitVec 64
  count : Nat
  gpr3 : Tid → Option CellError
  gpr6 : Tid → BitVec 64

/-- The results of `get_next` in a row: the last waiter of the list that is not marked, with the
smallest priority if the protocol asks for it. -/
def getNextOrder (protocol : Protocol) (prio : Tid → Prio) (sq : List Tid) : List Tid :=
  Selection.extract (fun t => if protocol = .priority then (prio t).prio else 0) sq.length sq

/-- A waiter whose check succeeds; `mask` are the bits of the old pattern this depends on. -/
def Pass.accept (p : Pass) (t : Tid) (mask toWrite : BitVec 64) : Pass :=
  { p with toWrite := toWrite, dependantMask := p.dependantMask ||| mask, count := p.count + 1
           gpr3 := update p.gpr3 t (some .ok), gpr6 := update p.gpr6 t p.toWrite }

def Pass.reject (p : Pass) (t : Tid) : Pass :=
  { p with gpr3 := update p.gpr3 t none, gpr6 := update p.gpr6 t p.toWrite }

/-- `dependant_mask_or`: a waiter that is satisfied by the new bits does not depend on the old. -/
def dependantMaskOr (bitptn toWrite : BitVec 64) (a : Args) : BitVec 64 :=
  if a.mode.cond = .or ∨ bitptn &&& a.bitptn &&& toWrite = a.bitptn then 0 else a.bitptn

def examine (args : Tid → Args) (bitptn : BitVec 64) : List Tid → Pass → Pass
  | [], p => p
  | t :: ts, p =>
    match checkPattern p.toWrite (args t) with
    | some toWrite =>
      let p' := p.accept t (dependantMaskOr bitptn p.toWrite (args t)) toWrite
      -- nothing is left for the waiters that follow
      if toWrite = 0 then p' else examine args bitptn ts p'
    | none => examine args bitptn ts (p.reject t)

def pass (args : Tid → Args) (bitptn : BitVec 64) (order : List Tid) (pattern : BitVec 64)
    (gpr3 : Tid → Option CellError) (gpr6 : Tid → BitVec 64) : Pass :=
  let p := examine args bitptn order ⟨pattern ||| bitptn, 0, 0, gpr3, gpr6⟩
  { p with dependantMask := p.dependantMask &&& ~~~bitptn }

/-- The atomic operation that commits a pass made from the snapshot `pattern`. -/
def commit (bitptn pattern : BitVec 64) (p : Pass) (x : BitVec 64) : Option (BitVec 64) :=
  if (x ^^^ pattern) &&& p.dependantMask ≠ 0 then none
  else some ((x ||| bitptn) &&& ~~~((pattern ||| bitptn) &&& ~~~p.toWrite))

def toWake (sq : List Tid) (p : Pass) : List Tid :=
  if p.count = 0 then [] else sq.filter fun t => p.gpr3 t = some .ok

/-! ## What an evaluation is -/

/-- The waiters examined one by one: the pattern at the end and the satisfied waiters. -/
def evaluate (args : Tid → Args) : BitVec 64 → List Tid → BitVec 64 × List Tid
  | pattern, [] => (pattern, [])
  | pattern, t :: ts =>
    match checkPattern pattern (args t) with
    | some pattern' => ((evaluate args pattern' ts).1, t :: (evaluate args pattern' ts).2)
    | none => evaluate args pattern ts

/-- The waiters that are examined one by one until no bit is left. -/
def examined (args : Tid → Args) : BitVec 64 → List Tid → List Tid
  | _, [] => []
  | pattern, t :: ts =>
    t :: match checkPattern pattern (args t) with
      | some pattern' => if pattern' = 0 then [] else examined args pattern' ts
      | none => examined args pattern ts

/-- Protocol order: by arrival, and under the priority protocol by priority first.  The thread that
came last is the head of the queue. -/
def protocolOrder (protocol : Protocol) (prio : Tid → Prio) (sq : List Tid) : List Tid :=
  if protocol = .priority then
    List.insertionSort (fun t u => (prio t).prio ≤ (prio u).prio) sq.reverse
  else sq.reverse

variable {sq : List Tid}

theorem getNextOrder_eq (protocol : Protocol) (prio : Tid → Prio)
    (h : sq.Nodup) : getNextOrder protocol prio sq = protocolOrder protocol prio sq := by
  have hsort := Selection.extract_eq_insertionSort (fun t => if protocol = .priority then (prio t).prio else 0) h rfl
  unfold getNextOrder protocolOrder
  rw [hsort]
  by_cases hp : protocol = .priority
  · simp only [hp, if_true]
  · simp only [hp, if_false]
    apply List.Pairwise.insertionSort_eq
    exact pairwise_of_forall fun _ _ => le_refl (0 : Int)

theorem mem_protocolOrder {protocol : Protocol} {prio : Tid → Prio} {t : Tid} :
    t ∈ protocolOrder protocol prio sq ↔ t ∈ sq := by
  unfold protocolOrder
  split
  · rw [mem_insertionSort, mem_reverse]
  · exact mem_reverse

theorem nodup_protocolOrder (protocol : Protocol) (prio : Tid → Prio)
    (h : sq.Nodup) : (protocolOrder protocol prio sq).Nodup := by
  have hrev := nodup_reverse.mpr h
  unfold protocolOrder
  split
  · exact (perm_insertionSort _ _).nodup_iff.mpr hrev
  · exact hrev

/-! ## The check of a pattern -/

def Args.clearMask (a : Args) : BitVec 64 :=
  match a.mode.clear with
  | .keep => 0
  | .bits => a.bitptn
  | .all => BitVec.allOnes 64

theorem checkPattern_eq (pattern : BitVec 64) (a : Args) : checkPattern pattern a =
      if a.satisfied pattern then some (pattern &&& ~~~a.clearMask) else none := by
  have hguard : ((a.mode.cond = .and ∧ pattern &&& a.bitptn ≠ a.bitptn) ∨
      (a.mode.cond = .or ∧ pattern &&& a.bitptn = 0)) ↔ ¬ a.satisfied pattern := by
    unfold Args.satisfied
    cases a.mode.cond <;> simp
  unfold checkPattern
  by_cases hs : a.satisfied pattern
  · rw [if_neg (fun hg => hguard.mp hg hs), if_pos hs]
    unfold Args.clearMask
    cases a.mode.clear with
    | keep =>
      have hnot : ~~~(0 : BitVec 64) = BitVec.allOnes 64 := by decide
      rw [hnot, BitVec.and_allOnes]
    | bits => rfl
    | all =>
      have hnot : ~~~BitVec.allOnes 64 = 0 := by decide
      rw [hnot, BitVec.ofNat_eq_ofNat, BitVec.and_zero]
  · rw [if_pos (hguard.mpr hs), if_neg hs]

theorem Args.satisfied_mono {a : Args} {x y : BitVec 64} (h : Bits.Sub x y) (hx : a.satisfied x) : a.satisfied y := by
  unfold satisfied at *
  split at hx
  · rw [Bits.and_eq_right_iff] at hx ⊢
    exact hx.trans h
  · rw [Bits.and_ne_zero_iff] at hx ⊢
    have ⟨i, hxi, hai⟩ := hx
    exact ⟨i, h i hxi, hai⟩

end Armsx3.Lv2.EventFlag
