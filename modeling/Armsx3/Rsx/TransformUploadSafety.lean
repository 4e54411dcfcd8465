import Armsx3.Library.Keyed
import Armsx3.Rsx.TransformUpload

/-!
# TransformUploadSafety — uploads inside of their arrays

The handlers limit the number of words with sums in 32 bits.  A deferred write is limited with the load that is in the
register when it comes, and executed, without a limit, with that of a deferred change before it.
-/

namespace Armsx3.Rsx

open DrawClause UploadState Option Nat Transition System.Reachable

/-! ## Limits -/

section Limits

variable {load index count : Word}

theorem toNat_four : (4 : Word).toNat = 4 := rfl

theorem toNat_div_four (index : Word) : (index / 4).toNat = index.toNat / 4 := BitVec.toNat_udiv

theorem toNat_mod_four (index : Word) : (index % 4).toNat = index.toNat % 4 := BitVec.toNat_umod

def constantPos (load index : Word) : Nat := (load.toNat + index.toNat / 4) * 4 + index.toNat % 4

theorem toNat_sub_excess {max limit : Word} (hmax : limit.toNat ≤ max.toNat)
    (hcount : max.toNat - limit.toNat ≤ count.toNat) :
    (count - (max - limit)).toNat = count.toNat - (max.toNat - limit.toNat) := by
  have hexcess := BitVec.toNat_sub_of_le hmax
  rw [BitVec.toNat_sub_of_le (by rw [BitVec.le_def, hexcess]; exact hcount), hexcess]

theorem clampConstants_spec (h : constantPos load index + count.toNat < 2 ^ 32) : clampConstants load index count = 0 ∨
      constantPos load index + (clampConstants load index count).toNat ≤ transformConstantWords := by
  unfold constantPos at h ⊢
  have hmax : ((load + index / 4) * 4 + count + index % 4).toNat =
      (load.toNat + index.toNat / 4) * 4 + count.toNat + index.toNat % 4 := by
    rw [BitVec.toNat_add, BitVec.toNat_add, BitVec.toNat_mul, BitVec.toNat_add, toNat_div_four, toNat_mod_four, toNat_four]
    omega
  have hlimit : (468 * 4 : Word).toNat = 1872 := rfl
  unfold clampConstants transformConstantWords
  generalize (load + index / 4) * 4 + count + index % 4 = max at hmax ⊢
  by_cases hover : max > 468 * 4
  · rw [if_pos hover]
    have hover : 1872 < max.toNat := hover
    have hsub : (max - count).toNat = max.toNat - count.toNat := by
      refine BitVec.toNat_sub_of_le ?_
      rw [BitVec.le_def]
      omega
    by_cases hstart : max - count < 468 * 4
    · have hstart : (max - count).toNat < 1872 := hstart
      right
      rw [if_pos (by exact hstart), toNat_sub_excess (by omega) (by omega)]
      omega
    · rw [if_neg hstart]
      exact .inl rfl
  · rw [if_neg hover]
    have hover : ¬1872 < max.toNat := hover
    right
    omega

theorem clampProgram_spec (h : (load * 4 + index % 4).toNat ≤ transformProgramWords) (hcount : count.toNat ≤ 32) :
    (load * 4 + index % 4).toNat + (clampProgram load index count).toNat ≤ transformProgramWords := by
  unfold transformProgramWords at h ⊢
  have hmax : (load * 4 + count + index % 4).toNat = (load * 4 + index % 4).toNat + count.toNat := by
    rw [show load * 4 + count + index % 4 = load * 4 + index % 4 + count by
      rw [BitVec.add_assoc, BitVec.add_comm count, ← BitVec.add_assoc], BitVec.toNat_add]
    omega
  have hlimit : (544 * 4 : Word).toNat = 2176 := rfl
  unfold clampProgram
  generalize load * 4 + count + index % 4 = max at hmax ⊢
  by_cases hover : max > 544 * 4
  · have hover' : 2176 < max.toNat := hover
    rw [if_pos hover, toNat_sub_excess (by omega) (by omega)]
    omega
  · rw [if_neg hover]
    have hover : ¬2176 < max.toNat := hover
    omega

theorem count_le (args : FifoArgs) (i : Fin 32) : (args.count (BitVec.ofNat 32 i)).toNat ≤ 32 := by
  have hrange : (32 - BitVec.ofNat 32 i.val).toNat ≤ 32 := by
    have hi : (BitVec.ofNat 32 i.val).toNat = i.val := by
      rw [BitVec.toNat_ofNat]
      omega
    rw [BitVec.toNat_sub_of_le]
    · exact sub_le ..
    · rw [BitVec.le_def, hi]
      show i.val ≤ 32
      omega
  unfold FifoArgs.count
  generalize minWord (args.remaining + 1) args.readLimit = a
  unfold minWord
  split_ifs with hle
  · exact le_trans hle hrange
  · exact hrange

end Limits

/-! ## Barriers of the clause -/

section Barriers

variable {c c' : DrawClause}

/-- The modifiers among the actions of a clause. -/
def modifiers (actions : List Action) : List Barrier :=
  actions.filterMap fun
    | .modifier b => some b
    | .draw _ => none

theorem modifiers_append (as bs : List Action) : modifiers (as ++ bs) = modifiers as ++ modifiers bs :=
  List.filterMap_append

theorem modifiers_map (L : List Barrier) : modifiers (L.map .modifier) = L := by
  unfold modifiers
  rw [List.filterMap_map]
  exact List.filterMap_some

/-- The iterator passes the barriers of a range with the next one. -/
theorem dependencies_sublist {M : List Barrier}
    (hM : M.Sublist (c.barriers.drop
      { c with currentRangeIndex := c.currentRangeIndex + 1 }.advanceBarrierIt.currentBarrierIt)) :
    (c.executePipelineDependencies ++ M).Sublist (c.barriers.drop c.currentBarrierIt) := by
  unfold advanceBarrierIt at hM
  dsimp only at hM
  rw [← List.drop_drop, Keyed.drop_length_takeWhile] at hM
  unfold executePipelineDependencies
  refine (List.filter_sublist.append_right M).trans (Keyed.takeWhile_append_sublist (fun b hb => ?_) hM)
  exact decide_eq_true (lt_succ_of_le (of_decide_eq_true hb).le)

theorem postExecuteCleanup_sublist {rest : List Barrier} (h : c.postExecuteCleanup = some rest) :
    rest.Sublist (c.barriers.drop c.currentBarrierIt) := by
  have ⟨_, h⟩ := ite_none_left_eq_some.mp h
  split at h
  · cases h
    exact List.filter_sublist.trans (List.takeWhile_sublist _)
  · cases h
    exact List.nil_sublist _

/-- A last range that is not empty leaves nothing to the clean-up. -/
theorem postExecuteCleanup_nil {rest : List Barrier} (h : c.postExecuteCleanup = some rest)
    (hlast : c.ranges.length > 1 → (c.ranges.getD (c.ranges.length - 1) {}).count ≠ 0) : rest = [] := by
  have ⟨_, h⟩ := ite_none_left_eq_some.mp h
  rw [List.getLast?_eq_getElem?, ← List.getD_eq_getElem?_getD, if_neg fun hc => hlast hc.1 hc.2] at h
  exact (some.inj h).symm

theorem next_cases {more : Bool} (h : c.next = some (c', more)) :
    let d := { c with currentRangeIndex := c.currentRangeIndex + 1 }.advanceBarrierIt
    (more = false ∧ c.currentRangeIndex + 1 ≥ c.ranges.length ∧ c' = { c with currentRangeIndex := 0 }) ∨
      (more = false ∧ c.currentRangeIndex + 2 = c.ranges.length ∧ c' = { d with currentRangeIndex := 0 }) ∨
      more = true ∧ c.currentRangeIndex + 1 < c.ranges.length ∧ d.current.count ≠ 0 ∧ c' = d := by
  unfold next at h
  dsimp only at h
  split at h
  next hend =>
    cases h
    exact .inl ⟨rfl, hend, rfl⟩
  next hend =>
    split at h
    · split at h
      next hlast =>
        cases h
        exact .inr (.inl ⟨rfl, hlast.2, rfl⟩)
      · cases h
    next hcount =>
      cases h
      exact .inr (.inr ⟨rfl, lt_of_not_ge hend, hcount, rfl⟩)

/-- The loop and the clean-up execute modifiers in the order of the barriers, and none of them twice. -/
theorem drawLoop_sublist (n : Nat) {actions : List Action} {rest : List Barrier}
    (hindex : c.currentRangeIndex < c.ranges.length) (hcurrent : c.currentRangeIndex = 0 ∨ c.current.count ≠ 0)
    (hrest : c'.postExecuteCleanup = some rest) (h : drawLoop n c = some (actions, c')) :
    (modifiers actions ++ rest).Sublist (c.barriers.drop c.currentBarrierIt) := by
  induction n generalizing c actions with
  | zero => cases h
  | succ n ih =>
    have hhere : modifiers (c.executePipelineDependencies.map .modifier ++ [.draw c.current]) =
        c.executePipelineDependencies := by
      rw [modifiers_append, modifiers_map]
      exact List.append_nil _
    unfold drawLoop at h
    split at h
    · cases h
    next d hnext =>
      cases h
      rw [hhere]
      obtain ⟨_, hend, rfl⟩ | ⟨_, hlast, rfl⟩ | ⟨hmore, _⟩ := next_cases hnext
      · -- the last range was drawn, so it is not an empty one
        have hnil := postExecuteCleanup_nil hrest fun hlen => by
          have hlen : c.ranges.length > 1 := hlen
          have hcount := hcurrent.resolve_left (by omega)
          rwa [current, show c.currentRangeIndex = c.ranges.length - 1 by omega] at hcount
        rw [hnil, List.append_nil]
        exact List.filter_sublist.trans (List.takeWhile_sublist _)
      · have hsub := postExecuteCleanup_sublist hrest
        exact dependencies_sublist hsub
      · cases hmore
    next d hnext =>
      obtain ⟨r, hr, heq⟩ := map_eq_some_iff.mp h
      obtain ⟨rfl, rfl⟩ := Prod.mk.inj heq
      obtain ⟨hmore, _⟩ | ⟨hmore, _⟩ | ⟨_, hlt, hcount, rfl⟩ := next_cases hnext
      · cases hmore
      · cases hmore
      rw [modifiers_append, hhere, List.append_assoc]
      exact dependencies_sublist (ih hlt (.inr hcount) hr)

theorem execute_sublist {actions : List Action} (hne : c.ranges ≠ []) (h : c.execute = some actions) :
    (modifiers actions).Sublist c.barriers := by
  unfold execute at h
  split at h
  · cases h
  next hloop =>
    obtain ⟨rest, hrest, rfl⟩ := map_eq_some_iff.mp h
    rw [modifiers_append, modifiers_map]
    exact drawLoop_sublist _ (List.length_pos_iff.mpr hne) (.inl rfl) hrest hloop

end Barriers

/-! ## Steps -/

def InBounds (s : UploadState) : Prop :=
  ∀ store ∈ s.stores, match store with
    | .program i => i < transformProgramWords
    | .constant i => i < transformConstantWords

/-- A deferred write stays inside with the load. -/
def Fits (load : Word) (b : Barrier) : Prop :=
  b.type = .transformConstantUpdate → constantPos load b.index + b.arg1.toNat ≤ transformConstantWords

instance (load : Word) (b : Barrier) : Decidable (Fits load b) := inferInstanceAs (Decidable (_ → _))

/-- Every deferred write fits the load in the register and those that are deferred before it. -/
def Deferred (load : Word) (L : List Barrier) : Prop :=
  (∀ b ∈ L, Fits load b) ∧ L.Pairwise fun a b => a.type = .transformConstantLoadModifier → Fits a.arg0 b

/-- The values in the registers with which the limits are right. -/
def UploadClear (s : UploadState) : UploadEvent → Prop
  | .transformProgram index _ =>
    (s.transformProgramLoad * 4 + BitVec.ofNat 32 index % 4).toNat ≤ transformProgramWords
  | .transformConstant index args => s.inDraw = false →
    constantPos s.transformConstantLoad (BitVec.ofNat 32 index) + (args.count (BitVec.ofNat 32 index)).toNat < 2 ^ 32
  | .beginEnd arg _ => arg.toNat % 256 = 0 → Deferred s.transformConstantLoad s.clause.barriers
  | _ => True

instance (s : UploadState) (e : UploadEvent) : Decidable (UploadClear s e) :=
  match e with
  | .transformProgram _ _ => inferInstanceAs (Decidable (_ ≤ _))
  | .transformConstant _ _ => inferInstanceAs (Decidable (_ → _ < _))
  | .beginEnd _ _ => inferInstanceAs (Decidable (_ → _ ∧ _))
  | .transformProgramLoad _ | .transformConstantLoad _ | .draw _ _ | .drawBarrier | .modifier _ _ _ => isTrue trivial

variable {s s' : UploadState}

theorem inBounds_storeConstants (h : InBounds s) {load index : Word} {n : Nat}
    (hpos : constantPos load index + n ≤ transformConstantWords) {words : List Word} (hwords : words.length ≤ n) :
    InBounds (s.storeConstants (load + index / 4) (index % 4) words) := by
  have hmod := toNat_mod_four index
  unfold constantPos transformConstantWords at hpos
  have hid : (load + index / 4).toNat = load.toNat + index.toNat / 4 := by
    rw [BitVec.toNat_add, toNat_div_four]
    omega
  intro store hstore
  rcases List.mem_append.mp hstore with hstore | hstore
  · exact h store hstore
  have ⟨i, hi, heq⟩ := List.mem_map.mp hstore
  have hi := List.mem_range.mp hi
  rw [← heq]
  unfold transformConstantWords
  omega

theorem insertBarrier_inBounds (h : InBounds s) {type : BarrierType} {arg0 arg1 index : Word}
    (hs' : s.insertBarrier type arg0 arg1 index = some s') : InBounds s' := by
  have ⟨c, _, heq⟩ := map_eq_some_iff.mp hs'
  rw [← heq]
  exact h

theorem setTransformConstant_inBounds (h : InBounds s) {index : Word} {args : FifoArgs}
    (hclear : s.inDraw = false → constantPos s.transformConstantLoad index + (args.count index).toNat < 2 ^ 32)
    (hs' : s.setTransformConstant index args = some s') : InBounds s' := by
  unfold setTransformConstant at hs'
  dsimp only at hs'
  split at hs'
  · cases hs'
    exact h
  next hne =>
    split at hs'
    · exact insertBarrier_inBounds h hs'
    next hdraw =>
      cases hs'
      have hpos := (clampConstants_spec (hclear (Bool.eq_false_iff.mpr hdraw))).resolve_left hne
      exact inBounds_storeConstants h hpos (List.length_take_le _ _)

theorem setTransformProgram_inBounds (h : InBounds s) {i : Fin 32} {args : FifoArgs}
    (hclear : (s.transformProgramLoad * 4 + BitVec.ofNat 32 i % 4).toNat ≤ transformProgramWords) :
    InBounds (s.setTransformProgram (BitVec.ofNat 32 i) args) := by
  have hspec := clampProgram_spec hclear (count_le args i)
  unfold setTransformProgram
  dsimp only
  split
  · exact h
  intro store hstore
  rcases List.mem_append.mp hstore with hstore | hstore
  · exact h store hstore
  have ⟨j, hj, heq⟩ := List.mem_map.mp hstore
  have hj := List.mem_range.mp hj
  rw [List.length_take] at hj
  rw [← heq]
  omega

/-- The load in effect is the one in the register or one that is deferred before. -/
theorem applyActions_inBounds (memory : Word → Nat → Word) (actions : List Action) (h : InBounds s)
    (hfit : Deferred s.transformConstantLoad (modifiers actions)) : InBounds (actions.foldl (applyAction memory) s) := by
  induction actions generalizing s with
  | nil => exact h
  | cons action rest ih =>
    cases action with
    | draw => exact ih h hfit
    | modifier b =>
      have ⟨hload, hpairs⟩ := hfit
      have ⟨hbehind, hpairs⟩ := List.pairwise_cons.mp hpairs
      have hrest : ∀ a ∈ modifiers rest, Fits s.transformConstantLoad a :=
        fun a ha => hload a (List.mem_cons_of_mem _ ha)
      rw [List.foldl_cons]
      unfold applyAction
      dsimp only
      split
      next htype => exact ih h ⟨fun a ha => hbehind a ha htype, hpairs⟩
      next htype =>
        refine ih (inBounds_storeConstants h (hload b List.mem_cons_self htype) ?_) ⟨hrest, hpairs⟩
        rw [List.length_map, List.length_range]
      · exact ih h ⟨hrest, hpairs⟩

theorem setBeginEnd_inBounds (h : InBounds s) {arg : Word} {memory : Word → Nat → Word}
    (hclear : arg.toNat % 256 = 0 → Deferred s.transformConstantLoad s.clause.barriers)
    (hs' : s.setBeginEnd arg memory = some s') : InBounds s' := by
  unfold setBeginEnd at hs'
  dsimp only at hs'
  split at hs'
  · split at hs'
    · cases hs'
      exact h
    · cases hs'
      exact h
  next hprim =>
    split at hs'
    · cases hs'
      exact h
    next hempty =>
      have ⟨actions, hactions, heq⟩ := map_eq_some_iff.mp hs'
      rw [← heq]
      have ⟨hload, hpairs⟩ := hclear (not_not.mp hprim)
      have hsub := execute_sublist (fun hnil => hempty (List.isEmpty_iff.mpr hnil)) hactions
      exact applyActions_inBounds memory actions h ⟨fun b hb => hload b (hsub.subset hb), hpairs.sublist hsub⟩

theorem uploadStep_inBounds {e : UploadEvent} (h : InBounds s) (hclear : UploadClear s e)
    (hstep : uploadStep s e = some s') : InBounds s' := by
  cases e with
  | transformProgramLoad | draw | drawBarrier =>
    cases hstep
    exact h
  | transformProgram =>
    cases hstep
    exact setTransformProgram_inBounds h hclear
  | transformConstantLoad arg =>
    have hstep : s.setTransformConstantLoad arg = some s' := hstep
    unfold setTransformConstantLoad at hstep
    split at hstep
    · exact insertBarrier_inBounds h hstep
    · cases hstep
      exact h
  | transformConstant => exact setTransformConstant_inBounds h hclear hstep
  | beginEnd => exact setBeginEnd_inBounds h hclear hstep
  | modifier =>
    have ⟨_, hstep⟩ := ite_none_right_eq_some.mp hstep
    exact insertBarrier_inBounds h hstep

theorem uploads_in_bounds (hs : (uploadSystem.restrict UploadClear).Reachable s) : InBounds s := by
  refine hs.invariant ?_ ?_
  · rintro _ rfl
    exact nofun
  · intro s e s' h hstep
    have ⟨hclear, hstep⟩ := System.step_restrict.mp hstep
    exact uploadStep_inBounds h hclear hstep

def allArgs : FifoArgs := ⟨31, 32, 0, List.replicate 32 1⟩

/-- Constants up to the last one, behind a load that is raised in a clause and outside, and the end of the transform
program. -/
theorem uploads_in_bounds_limits : ∃ s, (uploadSystem.restrict UploadClear).Reachable s ∧
    .constant 1871 ∈ s.stores ∧ .program 2175 ∈ s.stores ∧ InBounds s := by
  have ⟨s, hs, hconstant, hprogram⟩ := exists_of_run (M := uploadSystem.restrict UploadClear) rfl
    [.transformProgramLoad 540, .transformProgram 0 allArgs, .beginEnd 5 (fun _ _ => 0), .draw 0 3,
      .transformConstant 1 allArgs, .transformConstantLoad 460, .transformConstant 0 allArgs,
      .beginEnd 0 (fun _ _ => 0), .beginEnd 0 (fun _ _ => 0), .transformConstantLoad 464, .transformConstant 0 allArgs]
    (fun s => .constant 1871 ∈ s.stores ∧ .program 2175 ∈ s.stores) (by decide +kernel)
  exact ⟨s, hs, hconstant, hprogram, uploads_in_bounds hs⟩

/-- A load of the transform program behind its end, a load of the constants for which the sum wraps, and a load that is
deferred in a clause. -/
theorem uploads_out_of_bounds : (∃ s, uploadSystem.Reachable s ∧ .program 2400 ∈ s.stores) ∧
    (∃ s, uploadSystem.Reachable s ∧ .constant (2 ^ 32) ∈ s.stores) ∧
    ∃ s, uploadSystem.Reachable s ∧ .constant 2075 ∈ s.stores := by
  refine ⟨?_, ?_, ?_⟩
  · exact exists_of_run rfl
      [.transformProgramLoad 600, .transformProgram 0 allArgs] _ (by decide +kernel)
  · exact exists_of_run rfl
      [.transformConstantLoad 0x40000000, .transformConstant 0 allArgs] _
      (by decide +kernel)
  · exact exists_of_run rfl
      [.beginEnd 5 (fun _ _ => 0), .draw 0 3, .transformConstantLoad 511, .transformConstant 0 allArgs,
        .beginEnd 0 (fun _ _ => 0)] _ (by decide +kernel)

end Armsx3.Rsx
