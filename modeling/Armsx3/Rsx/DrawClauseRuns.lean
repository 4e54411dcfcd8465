import Armsx3.Rsx.DrawClauseOrder

/-!
# DrawClauseRuns — building a draw clause

Runs of `append` and `insert_command_barrier` with a record of the modifiers, in the order they were inserted, and of
the ranges, each with the number of modifiers before it.
-/

namespace Armsx3.Rsx

open DrawClause List Option BitVec Transition

/-- A modifier as it was inserted; its draw id may change later. -/
structure Modifier where
  type : BarrierType
  index : Word
  arg0 : Word
  arg1 : Word
  timestamp : Nat
deriving DecidableEq, Repr

def Barrier.modifier (b : Barrier) : Modifier := { b with }

structure ClauseRun where
  clause : DrawClause
  tag : Nat
  modifiers : List Modifier := []
  /-- each with the number of modifiers that were inserted before -/
  appended : List (DrawRange × Nat) := []
deriving DecidableEq, Repr

inductive ClauseEvent
  | append (first count : Word)
  | barrier (type : BarrierType) (arg0 arg1 index : Word)
  /-- `primitive_barrier_enable` is set -/
  | enableBarrier
  /-- the shared tag is taken somewhere else -/
  | getSharedTag

def ClauseRun.insert (s : ClauseRun) (type : BarrierType) (arg0 arg1 index : Word) (c : DrawClause) : ClauseRun :=
  if type = .primitiveRestart then { s with clause := c }
  else { s with clause := c, tag := s.tag + 1, modifiers := s.modifiers ++ [⟨type, index, arg0, arg1, s.tag⟩] }

def clauseStep (s : ClauseRun) : ClauseEvent → Option ClauseRun
  | .append first count =>
    if count = 0 then none
    else some { s with
      clause := s.clause.append first count
      appended := s.appended ++ [(⟨first, count⟩, s.modifiers.length)] }
  | .barrier type arg0 arg1 index =>
    (s.clause.insertCommandBarrier type arg0 arg1 index s.tag).map (s.insert type arg0 arg1 index)
  | .enableBarrier => some { s with clause := { s.clause with primitiveBarrierEnable := true } }
  | .getSharedTag => some { s with tag := s.tag + 1 }

def clauseSystem : System ClauseRun ClauseEvent where
  init s := ∃ isDisjointPrimitive tag, s = { clause := .reset isDisjointPrimitive, tag := tag }
  step := clauseStep

/-! ## The invariant -/

/-- `range` contains `part`; vertex numbers have 32 bits. -/
def Covers (range part : DrawRange) : Prop :=
  ∃ offset : Nat, part.first = range.first + BitVec.ofNat 32 offset ∧ offset + part.count.toNat ≤ range.count.toNat

theorem Covers.refl (range : DrawRange) : Covers range range := ⟨0, (add_zero _).symm, le_of_eq (zero_add _)⟩

def DrawClause.before (c : DrawClause) (i : Nat) : List Barrier := (modifiersOf c.barriers).filter (·.drawId ≤ i)

structure ClauseInv (s : ClauseRun) : Prop where
  current : s.clause.lastExecutionBarrierIndex ≤ s.clause.currentRangeIndex ∧
    s.clause.currentRangeIndex < s.clause.ranges.length
  counts : ∀ i range, s.clause.ranges[i]? = some range → range.count = 0 →
    i + 1 = s.clause.ranges.length ∧ i = s.clause.lastExecutionBarrierIndex ∧ i = s.clause.currentRangeIndex ∧ 0 < i
  modifiers : (modifiersOf s.clause.barriers).map (·.modifier) = s.modifiers
  ordered : Ordered s.clause.barriers
  ids : ∀ b ∈ s.clause.barriers, b.drawId < s.clause.ranges.length
  modifierIds : ∀ b ∈ modifiersOf s.clause.barriers, 0 < b.drawId ∧ b.drawId ≤ s.clause.lastExecutionBarrierIndex
  lastBarrier : 0 < s.clause.lastExecutionBarrierIndex →
    ∃ b ∈ modifiersOf s.clause.barriers, b.drawId = s.clause.lastExecutionBarrierIndex
  restarts : ∀ b ∈ s.clause.barriers, b.isModifier = false → b.address ≠ ~~~0
  stamps : ∀ b ∈ modifiersOf s.clause.barriers, b.address = ~~~0 ∧ b.timestamp < s.tag
  appended : ∀ p ∈ s.appended, ∃ i range, s.clause.ranges[i]? = some range ∧ range.count ≠ 0 ∧ Covers range p.1 ∧
    (s.clause.before i).length = p.2

structure Fresh (s : ClauseRun) : Prop where
  ranges : s.clause.ranges = []
  barriers : s.clause.barriers = []
  lastBarrier : s.clause.lastExecutionBarrierIndex = 0
  modifiers : s.modifiers = []
  appended : s.appended = []

variable {s s' : ClauseRun} {first count : Word}

theorem ClauseInv.length_modifiers (h : ClauseInv s) : (modifiersOf s.clause.barriers).length = s.modifiers.length := by
  rw [← h.modifiers, length_map]

variable {i : Nat}

theorem ClauseInv.before_last (h : ClauseInv s) (hi : s.clause.lastExecutionBarrierIndex ≤ i) :
    (s.clause.before i).length = s.modifiers.length := by
  have hall : s.clause.before i = modifiersOf s.clause.barriers :=
    filter_eq_self.mpr fun b hb => decide_eq_true (le_trans (h.modifierIds b hb).2 hi)
  rw [hall, h.length_modifiers]

theorem ClauseInv.getElem_current (h : ClauseInv s) :
    s.clause.ranges[s.clause.currentRangeIndex]? = some s.clause.current := by
  have hlt := h.current.2
  unfold DrawClause.current
  rw [getD_eq_getElem?_getD, List.getElem?_eq_getElem hlt]
  rfl

theorem ClauseInv.counts_of_current (h : ClauseInv s) (hcount : s.clause.current.count ≠ 0)
    {range : DrawRange} (hi : s.clause.ranges[i]? = some range) : range.count ≠ 0 := by
  intro hzero
  have ⟨_, _, hcurrent, _⟩ := h.counts i range hi hzero
  rw [hcurrent, h.getElem_current] at hi
  exact hcount (by rw [some.inj hi]; exact hzero)

/-- A change of the clause under which the modifiers stay as they are. -/
theorem ClauseInv.of_modifiers (h : ClauseInv s) {c : DrawClause}
    (hmods : modifiersOf c.barriers = modifiersOf s.clause.barriers)
    (hexec : c.lastExecutionBarrierIndex = s.clause.lastExecutionBarrierIndex)
    (hcurrent : c.lastExecutionBarrierIndex ≤ c.currentRangeIndex ∧ c.currentRangeIndex < c.ranges.length)
    (hcounts : ∀ i range, c.ranges[i]? = some range → range.count = 0 →
      i + 1 = c.ranges.length ∧ i = c.lastExecutionBarrierIndex ∧ i = c.currentRangeIndex ∧ 0 < i)
    (hordered : Ordered c.barriers) (hids : ∀ b ∈ c.barriers, b.drawId < c.ranges.length)
    (hrestarts : ∀ b ∈ c.barriers, b.isModifier = false → b.address ≠ ~~~0)
    (happended : ∀ p ∈ s.appended, ∃ i range, c.ranges[i]? = some range ∧ range.count ≠ 0 ∧ Covers range p.1 ∧
      (s.clause.before i).length = p.2) : ClauseInv { s with clause := c } := by
  have hbefore : c.before = s.clause.before := by
    funext i
    unfold before
    rw [hmods]
  refine ⟨hcurrent, hcounts, ?_, hordered, hids, ?_, ?_, hrestarts, ?_, ?_⟩
  · exact (congrArg _ hmods).trans h.modifiers
  · intro b hb
    rw [hexec]
    exact h.modifierIds b (hmods ▸ hb)
  · rw [hexec, hmods]
    exact h.lastBarrier
  · exact fun b hb => h.stamps b (hmods ▸ hb)
  · rw [hbefore]
    exact happended

/-! ## Restarts -/

/-- Where a restart of the current range is inserted: there are only restarts, or the modifiers in front of which it
is put are not of an earlier range, and there are no restarts behind it. -/
def RestartClear (c : DrawClause) : Prop :=
  c.current.first + c.current.count ≠ ~~~0 ∧ ((∀ b ∈ c.barriers, b.isModifier = false) ∨
      ((∀ b ∈ c.barriers, b.isModifier = true → c.currentRangeIndex ≤ b.drawId) ∧
        ∀ b ∈ c.barriers, b.isModifier = false → b.address < c.current.first + c.current.count))

instance (c : DrawClause) : Decidable (RestartClear c) := inferInstanceAs (Decidable (_ ∧ _))

theorem insertRestart_inv (h : ClauseInv s) (hclear : RestartClear s.clause) (arg0 arg1 index : Word) :
    ClauseInv { s with clause := s.clause.insertRestart arg0 arg1 index } := by
  have hmods : modifiersOf (s.clause.insertRestart arg0 arg1 index).barriers = modifiersOf s.clause.barriers :=
    modifiersOf_insert_restart rfl
  have ⟨haddress, hplace⟩ := hclear
  refine h.of_modifiers hmods rfl h.current h.counts ?_ ?_ ?_ h.appended
  · rcases hplace with hnone | ⟨hlater, hsmaller⟩
    · refine Ordered.of_restarts fun b hb => ?_
      rcases mem_doBarrierInsert hb with hb | hb
      · rw [hb]
        rfl
      · exact hnone b hb
    by_cases hnil : modifiersOf s.clause.barriers = []
    · refine Ordered.of_restarts fun b hb => ?_
      rcases mem_doBarrierInsert hb with hb | hb
      · rw [hb]
        rfl
      refine Bool.eq_false_iff.mpr fun hmod => ?_
      have hmem := mem_modifiersOf.mpr ⟨hb, hmod⟩
      rw [hnil] at hmem
      cases hmem
    refine h.ordered.insert_restart rfl hnil ?_ ?_ ?_ ?_
    · intro b hb hrestart
      unfold Barrier.lt
      rw [if_pos (h.restarts b hb hrestart)]
      exact decide_eq_true (hsmaller b hb hrestart)
    · intro b hb
      unfold Barrier.lt
      rw [if_neg (not_not.mpr (h.stamps b hb).1)]
      rfl
    · intro b hb
      have ⟨hmem, hmod⟩ := mem_modifiersOf.mp hb
      exact hlater b hmem hmod
    · cases hfirst : modifiersOf s.clause.barriers with
      | nil => exact absurd hfirst hnil
      | cons b =>
        have hb : b ∈ modifiersOf s.clause.barriers := by
          rw [hfirst]
          exact mem_cons_self
        exact ⟨b, mem_cons_self, le_trans (h.modifierIds b hb).2 h.current.1⟩
  · intro b hb
    rcases mem_doBarrierInsert hb with hb | hb
    · rw [hb]
      exact h.current.2
    · exact h.ids b hb
  · intro b hb hrestart
    rcases mem_doBarrierInsert hb with hb | hb
    · rw [hb]
      exact haddress
    · exact h.restarts b hb hrestart

/-! ## Modifiers -/

theorem lt_allOnes {a : Word} (h : a ≠ ~~~0) : a < ~~~0 := by
  have hmax : (~~~(0 : Word)).toNat = 2 ^ 32 - 1 := by decide
  rw [lt_def, hmax]
  have hne : a.toNat ≠ 2 ^ 32 - 1 := fun heq => h (eq_of_toNat_eq (heq.trans hmax.symm))
  omega

theorem ClauseInv.insert_last (h : ClauseInv s) {v : Barrier} (hv : v.address = ~~~0) (htag : v.timestamp = s.tag) :
    doBarrierInsert s.clause.barriers v = s.clause.barriers ++ [v] := by
  refine doBarrierInsert_last fun b hb => ?_
  unfold Barrier.lt
  cases hmod : b.isModifier with
  | false =>
    have haddress := h.restarts b hb hmod
    rw [if_pos haddress, hv]
    exact decide_eq_true (lt_allOnes haddress)
  | true =>
    have ⟨haddress, hstamp⟩ := h.stamps b (mem_modifiersOf.mpr ⟨hb, hmod⟩)
    rw [if_neg (not_not.mpr haddress), htag]
    exact decide_eq_true hstamp

theorem breakSequence_spec (h : ClauseInv s) : let c := s.clause.breakSequence
    c.barriers = s.clause.barriers ∧ c.currentRangeIndex + 1 = c.ranges.length ∧
      s.clause.lastExecutionBarrierIndex ≤ c.currentRangeIndex ∧
      (s.clause.lastExecutionBarrierIndex = 0 → ∀ b ∈ s.clause.barriers, b.drawId < c.currentRangeIndex) ∧
      0 < c.currentRangeIndex ∧
      s.clause.ranges.length ≤ c.ranges.length ∧
      (∀ (i : Nat) (range : DrawRange), c.ranges[i]? = some range → range.count = 0 → i = c.currentRangeIndex) ∧
      ∀ (i : Nat) (range : DrawRange), s.clause.ranges[i]? = some range → range.count ≠ 0 →
        i < c.currentRangeIndex ∧ c.ranges[i]? = some range := by
  have ⟨hle, hlt⟩ := h.current
  unfold breakSequence
  split_ifs with hlast
  · have hnonzero : ∀ (i : Nat) (range : DrawRange), s.clause.ranges[i]? = some range → range.count ≠ 0 := by
      intro i range hi hzero
      have ⟨hend, _⟩ := h.counts i range hi hzero
      have hi' : s.clause.ranges.getLast? = some range := by
        rw [getLast?_eq_getElem?, ← hi]
        congr 1
        omega
      rw [hi', getD_some, hzero] at hlast
      exact absurd hlast (by decide)
    refine ⟨rfl, ?_, ?_, ?_, ?_, ?_, ?_, ?_⟩
    · show s.clause.ranges.length + 1 = (s.clause.ranges ++ [_]).length
      rw [length_append]
      rfl
    · exact le_of_lt (lt_of_le_of_lt hle hlt)
    · exact fun _ b hb => h.ids b hb
    · exact Nat.zero_lt_of_lt hlt
    · show s.clause.ranges.length ≤ (s.clause.ranges ++ [_]).length
      rw [length_append]
      exact Nat.le_add_right ..
    · intro i range hi hzero
      have hi : (s.clause.ranges ++ [({} : DrawRange)])[i]? = some range := hi
      rcases Nat.lt_trichotomy i s.clause.ranges.length with hcmp | hcmp | hcmp
      · rw [getElem?_append_left hcmp] at hi
        exact absurd hzero (hnonzero i range hi)
      · exact hcmp
      · have hlen := (List.getElem?_eq_some_iff.mp hi).1
        rw [length_append, length_singleton] at hlen
        omega
    · intro i range hi _
      have hlen := (List.getElem?_eq_some_iff.mp hi).1
      refine ⟨hlen, ?_⟩
      show (s.clause.ranges ++ [_])[i]? = some range
      rw [getElem?_append_left hlen]
      exact hi
  · -- the last range is the one that an earlier modifier has started
    have hend : s.clause.ranges.length - 1 < s.clause.ranges.length := by omega
    have hget := List.getElem?_eq_getElem hend
    rw [getLast?_eq_getElem?, hget, getD_some] at hlast
    have hzero : (s.clause.ranges[s.clause.ranges.length - 1]).count = 0 := by
      by_contra hne
      exact hlast (Nat.pos_of_ne_zero fun heq => hne (eq_of_toNat_eq heq))
    have ⟨hn, hexec, hcurrent, h0⟩ := h.counts _ _ hget hzero
    refine ⟨rfl, hn, le_of_eq hexec.symm, ?_, h0, le_refl _, ?_, ?_⟩
    · intro hnone
      omega
    · intro i range hi hcount
      have ⟨hi', _⟩ := h.counts i range hi hcount
      show i = s.clause.ranges.length - 1
      omega
    · intro i range hi hcount
      have hlen := (List.getElem?_eq_some_iff.mp hi).1
      refine ⟨?_, hi⟩
      show i < s.clause.ranges.length - 1
      by_contra hge
      have hieq : i = s.clause.ranges.length - 1 := by omega
      rw [hieq, hget] at hi
      exact hcount (by rw [← some.inj hi]; exact hzero)

theorem insertModifier_inv (h : ClauseInv s) {type : BarrierType} (htype : type ≠ .primitiveRestart)
    (arg0 arg1 index : Word) :
    ClauseInv { s with
      clause := s.clause.insertModifier type arg0 arg1 index s.tag
      tag := s.tag + 1
      modifiers := s.modifiers ++ [⟨type, index, arg0, arg1, s.tag⟩] } := by
  have ⟨hbarriers, hend, hexec, hbelow, hpos, hlen, hzero, hkeep⟩ := breakSequence_spec h
  let v : Barrier := {
    drawId := s.clause.breakSequence.currentRangeIndex
    timestamp := s.tag
    address := ~~~0
    index := index
    arg0 := arg0
    arg1 := arg1
    type := type }
  have hv : v.isModifier = true := decide_eq_true htype
  have hpush : (s.clause.insertModifier type arg0 arg1 index s.tag).barriers = s.clause.barriers ++ [v] := by
    show doBarrierInsert s.clause.breakSequence.barriers v = _
    rw [hbarriers]
    exact h.insert_last rfl rfl
  have hmods : modifiersOf (s.clause.barriers ++ [v]) = modifiersOf s.clause.barriers ++ [v] := by
    rw [modifiersOf_append]
    congr 1
    exact filter_cons_of_pos hv
  have hall : ∀ {P : Barrier → Prop}, (∀ b ∈ s.clause.barriers, P b) → P v →
      ∀ b ∈ (s.clause.insertModifier type arg0 arg1 index s.tag).barriers, P b := by
    intro P hold hnew
    rw [hpush]
    exact forall_mem_append.mpr ⟨hold, forall_mem_singleton.mpr hnew⟩
  have hallMods : ∀ {P : Barrier → Prop}, (∀ b ∈ modifiersOf s.clause.barriers, P b) → P v →
      ∀ b ∈ modifiersOf (s.clause.insertModifier type arg0 arg1 index s.tag).barriers, P b := by
    intro P hold hnew
    rw [hpush, hmods]
    exact forall_mem_append.mpr ⟨hold, forall_mem_singleton.mpr hnew⟩
  have hlast : s.clause.breakSequence.currentRangeIndex < s.clause.breakSequence.ranges.length := by omega
  refine ⟨⟨le_refl _, hlast⟩, ?_, ?_, ?_, ?_, ?_, ?_, ?_, ?_, ?_⟩
  · intro i range hi hcount
    have hi' := hzero i range hi hcount
    rw [hi']
    exact ⟨hend, rfl, rfl, hpos⟩
  · rw [hpush, hmods, map_append, h.modifiers]
    rfl
  · rw [hpush]
    refine h.ordered.push hv (fun b hb => le_trans (h.modifierIds b hb).2 hexec) fun hnil => hbelow ?_
    by_contra hne
    have ⟨b, hb, _⟩ := h.lastBarrier (Nat.pos_of_ne_zero hne)
    rw [hnil] at hb
    cases hb
  · exact hall (fun b hb => lt_of_lt_of_le (h.ids b hb) hlen) hlast
  · refine hallMods (fun b hb => ?_) ⟨hpos, le_refl _⟩
    have ⟨h0, hle⟩ := h.modifierIds b hb
    exact ⟨h0, le_trans hle hexec⟩
  · intro _
    refine ⟨v, ?_, rfl⟩
    rw [hpush, hmods]
    exact mem_append_right _ mem_cons_self
  · refine hall h.restarts fun hrestart => ?_
    rw [hv] at hrestart
    cases hrestart
  · refine hallMods (fun b hb => ?_) ⟨rfl, Nat.lt_succ_self _⟩
    have ⟨haddress, hstamp⟩ := h.stamps b hb
    exact ⟨haddress, Nat.lt_succ_of_lt hstamp⟩
  · intro p hp
    have ⟨i, range, hi, hcount, hcovers, hlength⟩ := h.appended p hp
    have ⟨hbefore, hi'⟩ := hkeep i range hi hcount
    refine ⟨i, range, hi', hcount, hcovers, ?_⟩
    show ((modifiersOf (s.clause.insertModifier type arg0 arg1 index s.tag).barriers).filter _).length = _
    have hskip : [v].filter (fun b => decide (b.drawId ≤ i)) = [] :=
      filter_cons_of_neg fun hle => absurd (of_decide_eq_true hle) (not_le.mpr hbefore)
    rw [hpush, hmods, filter_append, hskip, append_nil]
    exact hlength

/-! ## Ranges -/

theorem findPlace_spec (first count : Word) (ranges : List DrawRange) (start : Nat) :
    match findPlace first count start ranges with
    | .duplicate => ∃ j : Nat, ranges[j]? = some ⟨first, count⟩
    | .insert index => start ≤ index ∧ index < start + ranges.length
    | .append => True := by
  induction ranges generalizing start with
  | nil => trivial
  | cons range rest ih =>
    unfold findPlace
    by_cases hsame : range.first = first ∧ range.count = count
    · rw [if_pos hsame]
      refine ⟨0, ?_⟩
      rw [← hsame.1, ← hsame.2]
      rfl
    rw [if_neg hsame]
    by_cases hgt : range.first > first
    · rw [if_pos hgt]
      exact ⟨Nat.le_refl _, Nat.lt_add_of_pos_right (Nat.succ_pos _)⟩
    rw [if_neg hgt]
    have hrest := ih (start + 1)
    split at hrest
    · have ⟨j, hj⟩ := hrest
      exact ⟨j + 1, hj⟩
    · have ⟨hlow, hhigh⟩ := hrest
      rw [length_cons]
      exact ⟨by omega, by omega⟩
    · trivial

section

variable (h : ClauseInv s)
include h

theorem ClauseInv.record {part : DrawRange} {range : DrawRange}
    (hi : s.clause.ranges[i]? = some range) (hcount : range.count ≠ 0) (hcovers : Covers range part)
    (hexec : s.clause.lastExecutionBarrierIndex ≤ i) :
    ClauseInv { s with appended := s.appended ++ [(part, s.modifiers.length)] } := by
  refine { h with appended := ?_ }
  exact forall_mem_append.mpr
    ⟨h.appended, forall_mem_singleton.mpr ⟨i, range, hi, hcount, hcovers, h.before_last hexec⟩⟩

theorem ClauseInv.setEnable (enable : Bool) :
    ClauseInv { s with clause := { s.clause with primitiveBarrierEnable := enable } } :=
  { h with }

theorem setCurrent_inv (range : DrawRange) (hcount : range.count ≠ 0)
    (hcovers : s.clause.current.count ≠ 0 → ∀ part, Covers s.clause.current part → Covers range part) :
    ClauseInv { s with
      clause := { s.clause with ranges := s.clause.ranges.set s.clause.currentRangeIndex range } } := by
  have hlen : (s.clause.ranges.set s.clause.currentRangeIndex range).length = s.clause.ranges.length := length_set
  have hself := getElem?_set_self (a := range) h.current.2
  have hother : ∀ i, i ≠ s.clause.currentRangeIndex →
      (s.clause.ranges.set s.clause.currentRangeIndex range)[i]? = s.clause.ranges[i]? := fun i hi =>
    getElem?_set_ne (Ne.symm hi)
  refine h.of_modifiers rfl rfl ⟨h.current.1, ?_⟩ ?_ h.ordered ?_ h.restarts ?_
  · rw [hlen]
    exact h.current.2
  · intro i range' hi hzero
    by_cases heq : i = s.clause.currentRangeIndex
    · rw [heq, hself] at hi
      exact absurd hzero (by rw [← some.inj hi]; exact hcount)
    · rw [hother i heq] at hi
      exact absurd (h.counts i range' hi hzero).2.2.1 heq
  · intro b hb
    rw [hlen]
    exact h.ids b hb
  · intro p hp
    have ⟨i, range', hi, hcount', hcovers', hlength⟩ := h.appended p hp
    by_cases heq : i = s.clause.currentRangeIndex
    · have hcurrent : s.clause.current = range' := by
        rw [heq, h.getElem_current] at hi
        exact some.inj hi
      rw [heq] at hlength
      rw [← hcurrent] at hcount' hcovers'
      exact ⟨_, range, hself, hcount, hcovers hcount' p.1 hcovers', hlength⟩
    · exact ⟨i, range', (hother i heq).trans hi, hcount', hcovers', hlength⟩

theorem appendDrawCommand_inv (hcurrent : s.clause.current.count ≠ 0) (range : DrawRange)
    (hcount : range.count ≠ 0) : ClauseInv { s with clause := s.clause.appendDrawCommand range } := by
  have hlen : (s.clause.ranges ++ [range]).length = s.clause.ranges.length + 1 := length_append
  have hexec := lt_of_le_of_lt h.current.1 h.current.2
  refine h.of_modifiers rfl rfl ⟨le_of_lt hexec, ?_⟩ ?_ h.ordered ?_ h.restarts ?_
  · show s.clause.ranges.length < (s.clause.ranges ++ [range]).length
    omega
  · intro i range' hi hzero
    have hi : (s.clause.ranges ++ [range])[i]? = some range' := hi
    by_cases hlt : i < s.clause.ranges.length
    · rw [getElem?_append_left hlt] at hi
      exact absurd hzero (h.counts_of_current hcurrent hi)
    rw [getElem?_append_right (Nat.le_of_not_lt hlt)] at hi
    have hrange := mem_singleton.mp (mem_of_getElem? hi)
    exact absurd hzero (by rw [hrange]; exact hcount)
  · intro b hb
    show b.drawId < (s.clause.ranges ++ [range]).length
    have hlt := h.ids b hb
    omega
  · intro p hp
    have ⟨i, range', hi, hrest⟩ := h.appended p hp
    refine ⟨i, range', ?_, hrest⟩
    show (s.clause.ranges ++ [range])[i]? = some range'
    rw [List.getElem?_append_left (List.getElem?_eq_some_iff.mp hi).1]
    exact hi

theorem insertDrawCommand_inv (hcurrent : s.clause.current.count ≠ 0) (range : DrawRange)
    (hcount : range.count ≠ 0) {index : Nat} (hexec : s.clause.lastExecutionBarrierIndex ≤ index)
    (hindex : index < s.clause.ranges.length) (hmodifiers : ∀ b ∈ modifiersOf s.clause.barriers, b.drawId < index) :
    ClauseInv { s with clause := s.clause.insertDrawCommand index range } := by
  let f : Barrier → Barrier := fun b => { b with drawId := if b.drawId ≥ index then b.drawId + 1 else b.drawId }
  have hmods : modifiersOf (s.clause.barriers.map f) = modifiersOf s.clause.barriers := by
    have hcomm : modifiersOf (s.clause.barriers.map f) = (modifiersOf s.clause.barriers).map f := filter_map ..
    have hsame : ∀ b ∈ modifiersOf s.clause.barriers, f b = b := by
      intro b hb
      have hlt := hmodifiers b hb
      show ({ b with drawId := if b.drawId ≥ index then b.drawId + 1 else b.drawId } : Barrier) = b
      rw [if_neg (not_le.mpr hlt)]
    rw [hcomm]
    exact (map_congr_left hsame).trans (map_id' _)
  have hget : ∀ j : Nat, (s.clause.insertDrawCommand index range).ranges[j]? = if j < index then s.clause.ranges[j]?
      else if j = index then if j ≤ s.clause.ranges.length then some range else none
      else s.clause.ranges[j - 1]? := fun j => getElem?_insertIdx
  have hlen : (s.clause.insertDrawCommand index range).ranges.length = s.clause.ranges.length + 1 :=
    length_insertIdx_of_le_length (le_of_lt hindex) range
  refine h.of_modifiers hmods rfl ⟨hexec, ?_⟩ ?_ ?_ ?_ ?_ ?_
  · show index < (s.clause.insertDrawCommand index range).ranges.length
    omega
  · intro i range' hi hzero
    have hi := (hget i).symm.trans hi
    split at hi
    · exact absurd hzero (h.counts_of_current hcurrent hi)
    split at hi
    · split at hi
      · exact absurd hzero (by rw [← some.inj hi]; exact hcount)
      · cases hi
    · exact absurd hzero (h.counts_of_current hcurrent hi)
  · refine h.ordered.renumber (fun _ => rfl) (fun a b hab => ?_) fun a b hab => ?_
    · show (if a.drawId ≥ index then a.drawId + 1 else a.drawId) < if b.drawId ≥ index then b.drawId + 1 else b.drawId
      split <;> split <;> omega
    · show (if a.drawId ≥ index then a.drawId + 1 else a.drawId) ≤ if b.drawId ≥ index then b.drawId + 1 else b.drawId
      split <;> split <;> omega
  · intro b hb
    have ⟨a, ha, hab⟩ := mem_map.mp hb
    have hlt := h.ids a ha
    rw [hlen, ← hab]
    show (if a.drawId ≥ index then a.drawId + 1 else a.drawId) < _
    split <;> omega
  · intro b hb hrestart
    have ⟨a, ha, hab⟩ := mem_map.mp hb
    rw [← hab] at hrestart ⊢
    exact h.restarts a ha hrestart
  · intro p hp
    have ⟨i, range', hi, hcount', hcovers, hlength⟩ := h.appended p hp
    by_cases hlt : i < index
    · refine ⟨i, range', ?_, hcount', hcovers, hlength⟩
      rw [hget, if_pos hlt]
      exact hi
    · refine ⟨i + 1, range', ?_, hcount', hcovers, ?_⟩
      · rw [hget, if_neg (by omega), if_neg (by omega)]
        exact hi
      · rw [h.before_last (by omega), ← hlength]
        exact (h.before_last (by omega)).symm

end

theorem covers_merged {last : DrawRange} (hadjacent : last.first + last.count = first)
    (hcount : last.count.toNat + count.toNat < 2 ^ 32) : Covers ⟨last.first, last.count + count⟩ ⟨first, count⟩ ∧
      ∀ part, Covers last part → Covers ⟨last.first, last.count + count⟩ part := by
  have hsum : (last.count + count).toNat = last.count.toNat + count.toNat := by
    exact Nat.mod_eq_of_lt hcount
  constructor
  · refine ⟨last.count.toNat, ?_, ?_⟩
    · rw [ofNat_toNat, setWidth_eq]
      exact hadjacent.symm
    · exact le_of_eq hsum.symm
  · intro part ⟨offset, hfirst, hend⟩
    refine ⟨offset, hfirst, ?_⟩
    show offset + part.count.toNat ≤ (last.count + count).toNat
    omega

/-! ## Steps -/

/-- A range that is inserted is not put in front of the range that a modifier belongs to. -/
def InsertClear (barriers : List Barrier) : Place → Prop
  | .insert index => ∀ b ∈ barriers, b.isModifier = true → b.drawId < index
  | _ => True

/-- An appended range is neither put in front of a modifier, nor is it merged into one that gets too long, or with a
restart that is not clear. -/
def AppendClear (c : DrawClause) (first count : Word) : Prop :=
  (c.current.first + c.current.count = first → c.current.count.toNat + count.toNat < 2 ^ 32 ∧
      (c.isDisjointPrimitive = false → c.primitiveBarrierEnable = true → RestartClear c)) ∧
    (c.current.first + c.current.count ≠ first → InsertClear c.barriers
      (findPlace first count c.lastExecutionBarrierIndex (c.ranges.drop c.lastExecutionBarrierIndex)))

def ClauseClear (s : ClauseRun) : ClauseEvent → Prop
  | .append first count => s.clause.ranges ≠ [] → s.clause.current.count ≠ 0 → AppendClear s.clause first count
  | .barrier type _ _ _ => type = .primitiveRestart → RestartClear s.clause
  | _ => True

instance (barriers : List Barrier) (place : Place) : Decidable (InsertClear barriers place) :=
  match place with
  | .insert index => inferInstanceAs (Decidable (∀ b ∈ barriers, b.isModifier = true → b.drawId < index))
  | .duplicate | .append => isTrue trivial

instance (c : DrawClause) (first count : Word) : Decidable (AppendClear c first count) :=
  inferInstanceAs (Decidable (_ ∧ _))

instance (s : ClauseRun) (e : ClauseEvent) : Decidable (ClauseClear s e) :=
  match e with
  | .append _ _ | .barrier _ _ _ _ => inferInstanceAs (Decidable (_ → _))
  | .enableBarrier | .getSharedTag => isTrue trivial

theorem appendSorted_inv (h : ClauseInv s) (hcurrent : s.clause.current.count ≠ 0) (hcount : count ≠ 0)
    (hclear : InsertClear s.clause.barriers (findPlace first count s.clause.lastExecutionBarrierIndex
      (s.clause.ranges.drop s.clause.lastExecutionBarrierIndex))) :
    ClauseInv { s with
      clause := s.clause.appendSorted first count
      appended := s.appended ++ [(⟨first, count⟩, s.modifiers.length)] } := by
  have hspec := findPlace_spec first count
    (s.clause.ranges.drop s.clause.lastExecutionBarrierIndex) s.clause.lastExecutionBarrierIndex
  have hexec := lt_of_le_of_lt h.current.1 h.current.2
  unfold appendSorted
  split
  · -- the range is there already
    rename_i hplace
    rw [hplace] at hspec
    have ⟨j, hj⟩ := hspec
    rw [getElem?_drop] at hj
    exact h.record hj hcount (Covers.refl _) (Nat.le_add_right ..)
  next index hplace =>
    rw [hplace] at hspec hclear
    have ⟨hlow, hhigh⟩ := hspec
    rw [length_drop] at hhigh
    have hmods : ∀ b ∈ modifiersOf s.clause.barriers, b.drawId < index := by
      intro b hb
      have ⟨hmem, hmod⟩ := mem_modifiersOf.mp hb
      exact hclear b hmem hmod
    have hinv := insertDrawCommand_inv h hcurrent ⟨first, count⟩ hcount hlow (by omega) hmods
    refine hinv.record ?_ hcount (Covers.refl _) hlow
    show (s.clause.ranges.insertIdx index _)[index]? = _
    rw [getElem?_insertIdx_self, if_pos (by omega)]
  · have hinv := appendDrawCommand_inv h hcurrent ⟨first, count⟩ hcount
    refine hinv.record ?_ hcount (Covers.refl _) (le_of_lt hexec)
    exact getElem?_concat_length

theorem append_inv (h : ClauseInv s) (hcount : count ≠ 0) (hclear : ClauseClear s (.append first count)) :
    ClauseInv { s with
      clause := s.clause.append first count
      appended := s.appended ++ [(⟨first, count⟩, s.modifiers.length)] } := by
  have hne := ne_nil_of_length_pos (Nat.zero_lt_of_lt h.current.2)
  have henable := h.setEnable false
  unfold DrawClause.append
  dsimp only
  rw [if_neg hne]
  split
  · -- an execution barrier has left an empty range
    rename_i hzero
    have hset := setCurrent_inv henable ⟨first, count⟩ hcount fun hcurrent => absurd hzero hcurrent
    exact hset.record (getElem?_set_self h.current.2) hcount (Covers.refl _) h.current.1
  rename_i hcurrent
  have hclear := hclear hne hcurrent
  split_ifs with hadjacent
  · have hclear := hclear.1 hadjacent
    have ⟨hnew, hold⟩ := covers_merged hadjacent hclear.1
    have hnonzero : s.clause.current.count + count ≠ 0 := by
      intro hsum
      have hnat := congrArg BitVec.toNat hsum
      have hpos : count.toNat ≠ 0 := fun h0 => hcount (eq_of_toNat_eq h0)
      rw [toNat_add, Nat.mod_eq_of_lt hclear.1] at hnat
      have hzero : (0 : Word).toNat = 0 := rfl
      omega
    have hrestart : ∀ c, c = restartIf { s.clause with primitiveBarrierEnable := false }
        s.clause.primitiveBarrierEnable → ClauseInv { s with clause := c } ∧ c.ranges = s.clause.ranges ∧
          c.currentRangeIndex = s.clause.currentRangeIndex ∧
          c.lastExecutionBarrierIndex = s.clause.lastExecutionBarrierIndex := by
      intro c hc
      unfold restartIf at hc
      split at hc
      next hgo =>
        have ⟨hdisjoint, henabled⟩ := (Bool.and_eq_true ..).mp hgo
        have hdisjoint : s.clause.isDisjointPrimitive = false := by simpa using hdisjoint
        rw [hc]
        exact ⟨insertRestart_inv henable (hclear.2 hdisjoint henabled) 0 0 0, rfl, rfl, rfl⟩
      · rw [hc]
        exact ⟨henable, rfl, rfl, rfl⟩
    have ⟨hinv, hranges, hindex, hexec⟩ := hrestart _ rfl
    generalize restartIf { s.clause with primitiveBarrierEnable := false }
      s.clause.primitiveBarrierEnable = c at hinv hranges hindex hexec ⊢
    have hsame : c.current = s.clause.current := by
      unfold DrawClause.current
      rw [hranges, hindex]
    have hset := setCurrent_inv hinv ⟨s.clause.current.first, s.clause.current.count + count⟩ hnonzero
      fun _ part hpart => hold part (hsame ▸ hpart)
    refine hset.record (getElem?_set_self hinv.current.2) hnonzero hnew ?_
    exact hinv.current.1
  · exact appendSorted_inv henable hcurrent hcount (hclear.2 hadjacent)

theorem append_fresh (h : Fresh s) (hcount : count ≠ 0) :
    ClauseInv { s with
      clause := s.clause.append first count
      appended := s.appended ++ [(⟨first, count⟩, s.modifiers.length)] } := by
  have ⟨hranges, hbarriers, hexec, hmods, happended⟩ := h
  have hclause : s.clause.append first count =
      appendDrawCommand { s.clause with primitiveBarrierEnable := false } ⟨first, count⟩ := by
    exact if_pos hranges
  rw [hclause]
  cases s with | mk c tag mods app =>
  cases c
  subst hranges hbarriers hexec hmods happended
  refine ⟨⟨le_refl _, zero_lt_one⟩, ?_, rfl, .of_restarts nofun, nofun, nofun, nofun, nofun, nofun, ?_⟩
  · intro i range hi hzero
    have hrange := mem_singleton.mp (mem_of_getElem? hi)
    rw [hrange] at hzero
    exact absurd hzero hcount
  · intro p hp
    rw [mem_singleton.mp hp]
    exact ⟨0, ⟨first, count⟩, rfl, hcount, Covers.refl _, rfl⟩

theorem clauseStep_inv {e : ClauseEvent} (h : ClauseInv s) (hclear : ClauseClear s e)
    (hstep : clauseStep s e = some s') : ClauseInv s' := by
  cases e with
  | append =>
    unfold clauseStep at hstep
    dsimp only at hstep
    split at hstep
    · cases hstep
    next hcount =>
      cases hstep
      exact append_inv h hcount hclear
  | barrier type arg0 arg1 index =>
    have ⟨c, hc, hs'⟩ := map_eq_some_iff.mp hstep
    unfold insertCommandBarrier at hc
    unfold ClauseRun.insert at hs'
    split at hc
    · cases hc
    split_ifs at hc with htype
    · rw [if_pos htype] at hs'
      rw [← hs', ← some.inj hc]
      exact insertRestart_inv h (hclear htype) arg0 arg1 index
    · rw [if_neg htype] at hs'
      rw [← hs', ← some.inj hc]
      exact insertModifier_inv h htype arg0 arg1 index
  | enableBarrier =>
    cases hstep
    exact h.setEnable true
  | getSharedTag =>
    cases hstep
    refine { h with stamps := ?_ }
    intro b hb
    have ⟨haddress, hstamp⟩ := h.stamps b hb
    exact ⟨haddress, Nat.lt_succ_of_lt hstamp⟩

theorem clauseStep_fresh {e : ClauseEvent} (h : Fresh s) (hstep : clauseStep s e = some s') :
    Fresh s' ∨ ClauseInv s' := by
  cases e with
  | append =>
    unfold clauseStep at hstep
    dsimp only at hstep
    split at hstep
    · cases hstep
    next hcount =>
      cases hstep
      exact .inr (append_fresh h hcount)
  | barrier =>
    have ⟨c, hc, _⟩ := map_eq_some_iff.mp hstep
    unfold insertCommandBarrier at hc
    rw [if_pos h.ranges] at hc
    cases hc
  | enableBarrier | getSharedTag =>
    cases hstep
    exact .inl { h with }

theorem clauseRun_inv (hs : (clauseSystem.restrict ClauseClear).Reachable s) : Fresh s ∨ ClauseInv s := by
  refine hs.invariant (P := fun s => Fresh s ∨ ClauseInv s) ?_ ?_
  · intro s0 ⟨isDisjointPrimitive, tag, hs0⟩
    rw [hs0]
    exact .inl ⟨rfl, rfl, rfl, rfl, rfl⟩
  · intro s1 e s2 hinv hstep
    have ⟨hclear, hstep⟩ := System.step_restrict.mp hstep
    rcases hinv with hfresh | hinv
    · exact clauseStep_fresh hfresh hstep
    · exact .inr (clauseStep_inv hinv hclear hstep)

end Armsx3.Rsx
