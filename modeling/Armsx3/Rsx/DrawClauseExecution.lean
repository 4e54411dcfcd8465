import Armsx3.Rsx.DrawClauseRuns

/-!
# DrawClauseExecution — executing a draw clause

The walk over the ranges with the iterator over the barriers executes, before each range, the modifiers with its draw
id.
-/

namespace Armsx3.Rsx

open List DrawClause Transition Option

def actionModifiers (actions : List Action) : List Modifier :=
  actions.filterMap fun
    | .modifier b => some b.modifier
    | .draw _ => none

theorem actionModifiers_append (xs ys : List Action) :
    actionModifiers (xs ++ ys) = actionModifiers xs ++ actionModifiers ys := filterMap_append

theorem actionModifiers_modifier (bs : List Barrier) : actionModifiers (bs.map .modifier) = bs.map (·.modifier) := by
  unfold actionModifiers
  rw [filterMap_map]
  exact congrFun filterMap_eq_map' bs

namespace DrawClause

def modifiersAt (c : DrawClause) (i : Nat) : List Barrier := (modifiersOf c.barriers).filter (·.drawId = i)

def actionsAt (c : DrawClause) (i : Nat) : List Action :=
  (c.modifiersAt i).map .modifier ++ [.draw (c.ranges.getD i {})]

def dangling (c : DrawClause) : Bool := (c.ranges.getLast?.getD {}).count = 0

def drawn (c : DrawClause) : Nat := if c.dangling then c.ranges.length - 1 else c.ranges.length

end DrawClause

/-- `c'` is `c` while the range with index `i` is drawn. -/
structure At (c c' : DrawClause) (i : Nat) : Prop where
  ranges : c'.ranges = c.ranges
  barriers : c'.barriers = c.barriers
  index : c'.currentRangeIndex = i
  cursor : c.barriers.drop c'.currentBarrierIt = c.barriers.dropWhile fun b => b.drawId < i

structure Done (c c' : DrawClause) : Prop where
  ranges : c'.ranges = c.ranges
  barriers : c'.barriers = c.barriers
  index : c'.currentRangeIndex = 0
  cursor : c.dangling = true →
    c.barriers.drop c'.currentBarrierIt = c.barriers.dropWhile fun b => b.drawId < c.ranges.length - 1

structure Walkable (c : DrawClause) : Prop where
  ordered : Ordered c.barriers
  drawn : 0 < c.drawn
  counts : ∀ i, i < c.drawn → (c.ranges.getD i {}).count ≠ 0

variable {c c' : DrawClause} {i : Nat}

theorem At.execute (h : At c c' i) (hc : Ordered c.barriers) : c'.executePipelineDependencies = c.modifiersAt i := by
  unfold executePipelineDependencies
  rw [h.barriers, h.cursor, h.index]
  exact hc.execute i

theorem At.current (h : At c c' i) : c'.current = c.ranges.getD i {} := by
  unfold DrawClause.current
  rw [h.ranges, h.index]

theorem At.advance (h : At c c' i) :
    At c (advanceBarrierIt { c' with currentRangeIndex := c'.currentRangeIndex + 1 }) (i + 1) := by
  refine ⟨h.ranges, h.barriers, congrArg (· + 1) h.index, ?_⟩
  show c.barriers.drop (c'.currentBarrierIt +
    ((c'.barriers.drop c'.currentBarrierIt).takeWhile fun b => b.drawId < c'.currentRangeIndex + 1).length) = _
  rw [h.barriers, h.index, ← drop_drop, Keyed.drop_length_takeWhile, h.cursor]
  refine Keyed.dropWhile_dropWhile fun b hb => ?_
  exact decide_eq_true (Nat.lt_succ_of_lt (of_decide_eq_true hb))

theorem drawn_eq (hdrawn : 0 < c.drawn) : (c.dangling = false ∧ c.drawn = c.ranges.length) ∨
      (c.dangling = true ∧ c.drawn + 1 = c.ranges.length ∧ (c.ranges.getD c.drawn {}).count = 0) := by
  unfold drawn at hdrawn ⊢
  cases hdangling : c.dangling with
  | false => exact .inl ⟨rfl, rfl⟩
  | true =>
    rw [hdangling] at hdrawn
    have hpos : 0 < c.ranges.length - 1 := hdrawn
    refine .inr ⟨rfl, ?_, ?_⟩
    · show c.ranges.length - 1 + 1 = c.ranges.length
      omega
    · have hzero := of_decide_eq_true hdangling
      rw [getLast?_eq_getElem?] at hzero
      exact hzero

theorem At.next (h : At c c' i) (hc : Walkable c) (hi : i < c.drawn) :
    (i + 1 = c.drawn ∧ ∃ d, c'.next = some (d, false) ∧ Done c d) ∨
      (i + 1 < c.drawn ∧ ∃ d, c'.next = some (d, true) ∧ At c d (i + 1)) := by
  have hadvance := h.advance
  have hcurrent := congrArg DrawRange.count hadvance.current
  have hlen := congrArg length h.ranges
  have hlen' := congrArg length hadvance.ranges
  have hindex := h.index
  have hindex' := hadvance.index
  unfold DrawClause.next
  dsimp only
  generalize advanceBarrierIt { c' with currentRangeIndex := c'.currentRangeIndex + 1 } = d at *
  rcases drawn_eq hc.drawn with ⟨hdangling, hdrawn⟩ | ⟨hdangling, hdrawn, hzero⟩
  · by_cases hend : i + 1 = c.drawn
    · refine .inl ⟨hend, _, if_pos (by omega), h.ranges, h.barriers, rfl, fun htrue => ?_⟩
      rw [hdangling] at htrue
      cases htrue
    · refine .inr ⟨by omega, d, ?_, hadvance⟩
      rw [if_neg (by omega), if_neg (by rw [hcurrent]; exact hc.counts (i + 1) (by omega))]
  · have hmore : ¬c'.currentRangeIndex + 1 ≥ c'.ranges.length := by omega
    by_cases hend : i + 1 = c.drawn
    · refine .inl ⟨hend, { d with currentRangeIndex := 0 }, ?_, hadvance.ranges, hadvance.barriers, rfl, fun _ => ?_⟩
      · rw [if_neg hmore, if_pos (by rw [hcurrent, hend]; exact hzero), if_pos (by omega)]
      · have hcursor := hadvance.cursor
        rw [hend, show c.drawn = c.ranges.length - 1 by omega] at hcursor
        exact hcursor
    · refine .inr ⟨by omega, d, ?_, hadvance⟩
      rw [if_neg hmore, if_neg (by rw [hcurrent]; exact hc.counts (i + 1) (by omega))]

theorem drawLoop_spec (hc : Walkable c) (n : Nat) (h : At c c' i) (hi : i < c.drawn) (hn : c.drawn - i ≤ n) :
    ∃ d, drawLoop n c' = some ((range' i (c.drawn - i)).flatMap c.actionsAt, d) ∧ Done c d := by
  induction n generalizing c' i with
  | zero => omega
  | succ n ih =>
    unfold drawLoop
    rw [h.execute hc.ordered, h.current]
    have hsplit : c.drawn - i = c.drawn - (i + 1) + 1 := by omega
    rcases h.next hc hi with ⟨hend, d, hnext, hdone⟩ | ⟨hmore, d, hnext, hat⟩
    · refine ⟨d, ?_, hdone⟩
      rw [hnext, hsplit, hend, Nat.sub_self]
      rw [range'_one, flatMap_singleton]
      rfl
    · have ⟨d', hloop, hdone⟩ := ih hat hmore (by omega)
      refine ⟨d', ?_, hdone⟩
      rw [hnext]
      dsimp only
      rw [hloop, hsplit, range'_succ, flatMap_cons]
      rfl

def DrawClause.trailing (c : DrawClause) : List Barrier := if c.dangling then c.modifiersAt (c.ranges.length - 1) else []

theorem execute_eq (hc : Walkable c) :
    c.execute = some ((range c.drawn).flatMap c.actionsAt ++ c.trailing.map .modifier) := by
  have hstart : At c c.compile.start 0 := by
    refine ⟨rfl, rfl, rfl, ?_⟩
    symm
    refine (dropWhile_eq_self_iff).mpr fun _ hlt => ?_
    exact absurd (of_decide_eq_true hlt) (Nat.not_lt_zero _)
  have hfuel : c.drawn ≤ c.ranges.length := by
    unfold drawn
    split <;> omega
  have ⟨d, hloop, hdone⟩ := drawLoop_spec hc c.ranges.length hstart hc.drawn (by omega)
  have hcleanup : d.postExecuteCleanup = some c.trailing := by
    unfold postExecuteCleanup trailing
    have hlen := congrArg length hdone.ranges
    have hlast := congrArg getLast? hdone.ranges
    rw [if_neg (not_not.mpr hdone.index), hlen, hlast]
    rcases drawn_eq hc.drawn with ⟨hdangling, _⟩ | ⟨hdangling, hdrawn, _⟩
    · have hcount := of_decide_eq_false hdangling
      rw [hdangling, if_neg fun hall => hcount hall.2]
      rfl
    have hcount := of_decide_eq_true hdangling
    have hpos := hc.drawn
    have hat : At c { d with currentRangeIndex := c.ranges.length - 1 } (c.ranges.length - 1) :=
      ⟨hdone.ranges, hdone.barriers, rfl, hdone.cursor hdangling⟩
    rw [hdangling, if_pos ⟨by omega, hcount⟩, hat.execute hc.ordered]
    rfl
  unfold execute
  rw [hloop]
  dsimp only
  rw [hcleanup, Nat.sub_zero, range_eq_range']
  rfl

theorem actionModifiers_range (hc : Ordered c.barriers) (n : Nat) : actionModifiers ((range n).flatMap c.actionsAt) =
      ((modifiersOf c.barriers).filter (·.drawId < n)).map (·.modifier) := by
  rw [← hc.sorted.flatMap_range n]
  induction n with
  | zero => rfl
  | succ n ih =>
    rw [range_succ, flatMap_append, flatMap_append, actionModifiers_append, ih, map_append,
      flatMap_singleton, flatMap_singleton]
    congr 1
    unfold actionsAt
    rw [actionModifiers_append, actionModifiers_modifier]
    exact append_nil _

/-! ## Clauses that were built by a run -/

variable {s : ClauseRun}

theorem ClauseInv.getD_ranges {i : Nat} {range : DrawRange} (hi : s.clause.ranges[i]? = some range) :
    s.clause.ranges.getD i {} = range := by
  rw [getD_eq_getElem?_getD, hi, getD_some]

theorem ClauseInv.walkable (h : ClauseInv s) : Walkable s.clause := by
  have hpos := Nat.zero_lt_of_lt h.current.2
  have hlast : s.clause.ranges.length - 1 < s.clause.ranges.length := by omega
  have hget := getElem?_eq_getElem hlast
  have hdangling : s.clause.dangling = true → 1 < s.clause.ranges.length := by
    intro htrue
    have hzero := of_decide_eq_true htrue
    rw [getLast?_eq_getElem?, hget, getD_some] at hzero
    have ⟨_, _, _, h0⟩ := h.counts _ _ hget hzero
    omega
  refine ⟨h.ordered, ?_, fun i hi => ?_⟩
  · unfold drawn
    split
    next htrue =>
      have hlen := hdangling htrue
      omega
    · exact hpos
  intro hzero
  have hlt : i < s.clause.ranges.length := by
    unfold drawn at hi
    split at hi <;> omega
  have hi' := getElem?_eq_getElem hlt
  rw [ClauseInv.getD_ranges hi'] at hzero
  have ⟨hend, _⟩ := h.counts i _ hi' hzero
  -- the only range that can be empty is the last one, and then it is not drawn
  have htrue : s.clause.dangling = true := by
    unfold dangling
    rw [getLast?_eq_getElem?, show s.clause.ranges.length - 1 = i by omega, hi', getD_some]
    exact decide_eq_true hzero
  unfold drawn at hi
  rw [htrue, if_pos rfl] at hi
  omega

/-- Every modifier is executed once, in the order of insertion, and each range that was appended is drawn after exactly
the modifiers that were inserted before it. -/
structure ClauseExecuted (s : ClauseRun) (actions : List Action) : Prop where
  modifiers : actionModifiers actions = s.modifiers
  drawn : ∀ p ∈ s.appended, ∃ pre range post, actions = pre ++ .draw range :: post ∧ Covers range p.1 ∧
    actionModifiers pre = s.modifiers.take p.2

theorem ClauseInv.executed (h : ClauseInv s) : ClauseExecuted s
      ((range s.clause.drawn).flatMap s.clause.actionsAt ++ s.clause.trailing.map .modifier) := by
  have hc := h.walkable
  have hsorted := h.ordered.sorted
  constructor
  · rw [actionModifiers_append, actionModifiers_range h.ordered, actionModifiers_modifier, ← map_append, ← h.modifiers]
    congr 1
    unfold trailing
    have hids := fun b hb =>
      h.ids b (mem_modifiersOf.mp hb).1
    have hall := filter_eq_self.mpr fun b hb => decide_eq_true (hids b hb)
    rcases drawn_eq hc.drawn with ⟨hdangling, hdrawn⟩ | ⟨hdangling, hdrawn, _⟩
    · rw [hdangling, hdrawn, hall]
      exact append_nil _
    have hrange := hsorted.flatMap_range (s.clause.drawn + 1)
    rw [range_succ, flatMap_append, hsorted.flatMap_range, flatMap_singleton, hdrawn, hall] at hrange
    rw [hdangling, show s.clause.ranges.length - 1 = s.clause.drawn by omega]
    exact hrange
  · intro p hp
    have ⟨i, range, hi, hcount, hcovers, hlength⟩ := h.appended p hp
    have hlt := (List.getElem?_eq_some_iff.mp hi).1
    have hdrawn : i < s.clause.drawn := by
      rcases drawn_eq hc.drawn with ⟨_, hdrawn⟩ | ⟨_, hdrawn, hzero⟩
      · omega
      have hne : i ≠ s.clause.drawn := by
        intro heq
        rw [← heq, ClauseInv.getD_ranges hi] at hzero
        exact hcount hzero
      omega
    have hsplit : List.range s.clause.drawn =
        List.range i ++ i :: (List.range (s.clause.drawn - (i + 1))).map (i + 1 + ·) := by
      rw [show s.clause.drawn = i + 1 + (s.clause.drawn - (i + 1)) by omega, range_add, range_succ,
        append_assoc, Nat.add_sub_cancel_left]
      rfl
    have hhere : s.clause.actionsAt i = (s.clause.modifiersAt i).map .modifier ++ [.draw range] := by
      rw [actionsAt, ClauseInv.getD_ranges hi]
    refine ⟨(List.range i).flatMap s.clause.actionsAt ++ (s.clause.modifiersAt i).map .modifier, range,
      ((List.range (s.clause.drawn - (i + 1))).map (i + 1 + ·)).flatMap s.clause.actionsAt ++
        s.clause.trailing.map .modifier, ?_, hcovers, ?_⟩
    · rw [hsplit, flatMap_append, flatMap_cons, hhere]
      simp only [append_assoc, cons_append, nil_append]
    have hbefore : actionModifiers ((List.range i).flatMap s.clause.actionsAt ++
        (s.clause.modifiersAt i).map .modifier) = (s.clause.before i).map (·.modifier) := by
      have hrange := hsorted.flatMap_range (i + 1)
      rw [range_succ, flatMap_append, hsorted.flatMap_range, flatMap_singleton] at hrange
      rw [actionModifiers_append, actionModifiers_range h.ordered, actionModifiers_modifier, ← map_append]
      refine congrArg _ (hrange.trans (filter_congr fun b _ => ?_))
      simp only [Nat.lt_succ_iff]
    rw [hbefore, ← hlength, ← h.modifiers, ← map_take]
    exact congrArg _ (hsorted.filter_le i)

/-- In every run in which no range is put in front of a modifier, and no restart of a primitive where a modifier is
behind it. -/
theorem clause_executes (hs : (clauseSystem.restrict ClauseClear).Reachable s) (hne : s.appended ≠ []) :
    ∃ actions, s.clause.execute = some actions ∧ ClauseExecuted s actions := by
  rcases clauseRun_inv hs with hfresh | hinv
  · exact absurd hfresh.appended hne
  · exact ⟨_, execute_eq hinv.walkable, hinv.executed⟩

theorem clauseSystem_init (isDisjointPrimitive : Bool) :
    clauseSystem.init { clause := .reset isDisjointPrimitive, tag := 0 } :=
  ⟨isDisjointPrimitive, 0, rfl⟩

/-- A restart of a primitive, a modifier with two ranges, and one at the end. -/
theorem clause_executes_modifiers : ∃ s, (clauseSystem.restrict ClauseClear).Reachable s ∧
    s.modifiers.length = 2 ∧ s.appended.map (·.2) = [0, 0, 1, 1] ∧
    ∃ actions, s.clause.execute = some actions ∧ ClauseExecuted s actions := by
  have ⟨s, hs, hmodifiers, happended⟩ := System.Reachable.exists_of_run
    (M := clauseSystem.restrict ClauseClear) (clauseSystem_init false)
    [.append 0 3, .enableBarrier, .append 3 3, .barrier .vertexBaseModifier 7 0 0, .append 20 4, .append 30 1,
      .barrier .indexBaseModifier 8 0 0]
    (fun s => s.modifiers.length = 2 ∧ s.appended.map (·.2) = [0, 0, 1, 1]) (by decide +kernel)
  refine ⟨s, hs, hmodifiers, happended, clause_executes hs fun hnil => ?_⟩
  rw [hnil] at happended
  cases happended

def Action.summary : Action → Sum Word DrawRange
  | .modifier b => .inl b.arg0
  | .draw range => .inr range

/-- A range that is put in front of the range of a modifier is drawn before it; and a restart of a primitive in front
of two modifiers keeps both from being executed. -/
theorem clause_misordered : (∃ s, clauseSystem.Reachable s ∧ s.appended = [(⟨0, 10⟩, 0), (⟨20, 5⟩, 1), (⟨10, 3⟩, 1)] ∧
      s.clause.execute.map (·.map (·.summary)) = some [.inr ⟨0, 10⟩, .inr ⟨10, 3⟩, .inl 7, .inr ⟨20, 5⟩]) ∧
    ∃ s, clauseSystem.Reachable s ∧ s.modifiers.length = 2 ∧ s.clause.execute.map actionModifiers = some [] := by
  constructor
  · exact System.Reachable.exists_of_run (clauseSystem_init true)
      [.append 0 10, .barrier .vertexBaseModifier 7 0 0, .append 20 5, .append 10 3] _ (by decide +kernel)
  · exact System.Reachable.exists_of_run (clauseSystem_init false)
      [.append 0 3, .barrier .vertexBaseModifier 7 0 0, .append 0 3, .barrier .vertexBaseModifier 8 0 0, .append 10 3,
        .barrier .primitiveRestart 0 0 0] _ (by decide +kernel)

end Armsx3.Rsx
