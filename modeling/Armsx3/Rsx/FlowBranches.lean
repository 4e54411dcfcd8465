import Armsx3.Rsx.FlowGrowth

/-!
# FlowBranches — the blocks around an IF or LOOP

What the graph looks like after the blocks for the branches have been made, and after the current block has
been closed because another one starts.
-/

namespace Armsx3.Rsx

open FlowGraph List Option

variable {g g' : FlowGraph} {p a i e T : Nat} {type : EdgeType}

theorem safeInsertBlock_new (h : g.block? i = none) : safeInsertBlock g p i type = some (g.push p i type) := by
  unfold safeInsertBlock
  rw [h]

theorem safeInsertBlock_merge (h : Target g i T) (hm : isMergeEdge type = true) :
    safeInsertBlock g p i type = some (g.link p T type) ∧ IsMerge g T := by
  unfold safeInsertBlock
  rcases h with ⟨⟨b, hb, hpred⟩, hT⟩ | ⟨b, ed, hb, hpred, htype, hlead⟩
  · have hnot : b.isOfType .ELSE = false := by
      unfold BasicBlock.isOfType
      split
      next ed hed =>
        have hmerge := hpred.2 ed (hed ▸ mem_singleton_self ed)
        rw [decide_eq_false_iff_not]
        intro hels
        rw [hels] at hmerge
        cases hmerge
      · rfl
    rw [hb]
    simp only [hnot, Bool.false_eq_true, false_and, if_false, hT]
    exact ⟨trivial, b, hb, hpred⟩
  · have hels : b.isOfType .ELSE = true := by
      unfold BasicBlock.isOfType
      rw [hpred]
      simp [htype]
    rw [hb]
    simp only [hels, hm, and_self, if_true, hpred, head?_cons, bind_some, hlead.1, map_some]
    exact ⟨trivial, hlead.2⟩

/-! ## Opening branches -/

inductive Branching : EdgeType → Option Nat → EdgeType → Prop
  | ife (els : Option Nat) : Branching .IF els .ENDIF
  | loop : Branching .LOOP none .ENDLOOP

structure Opened (g g' : FlowGraph) (p a : Nat) (els : Option Nat) (e T : Nat) : Prop where
  grows : Grows g g'
  untouched : ∀ i, i ≠ p → Untouched g g' i
  isNone : ∀ i, i ≠ a + 1 → els ≠ some i → i ≠ e → g.block? i = none → g'.block? i = none
  entry : Virgin g' (a + 1) ∧ Front g' (a + 1) T
  other : ∀ ea, els = some ea → Virgin g' ea ∧ Front g' ea T ∧ Target g' ea T
  target : Target g' e T
  virgin : Virgin g' e
  edges : ∀ x b, g.block? p = some b → x ∈ b.addrs →
    EdgeFrom g' x (a + 1) ∧ (∀ ea, els = some ea → EdgeFrom g' x ea) ∧ EdgeFrom g' x T

/-- `T` is where the branches that end at `e` meet: a new block, or one that is there for a branch further out. -/
def Meets (g : FlowGraph) (p e T : Nat) : Prop :=
  (g.block? e = none ∧ T = e) ∨ (Target g e T ∧ Virgin g e ∧ e ≠ p)

theorem Meets.mono (h : Meets g p e T) (hgrows : Grows g g') (hnone : g.block? e = none → g'.block? e = none)
    (huntouched : e ≠ p → Untouched g g' e) : Meets g' p e T := by
  rcases h with ⟨hn, hT⟩ | ⟨htarget, hvirgin, hep⟩
  · exact .inl ⟨hnone hn, hT⟩
  · exact .inr ⟨htarget.mono hgrows, hvirgin.mono (huntouched hep), hep⟩

variable {b : BasicBlock}

theorem insert_merge (hb : g.block? p = some b)
    (hfirst : b.succ.find? (fun ed => ed.type = type) = none) (hm : isMergeEdge type = true) (hT : Meets g p e T) :
    ∃ g', safeInsertBlock g p e type = some g' ∧ Grows g g' ∧ (∀ i, i ≠ p → Untouched g g' i) ∧
      (∀ i, i ≠ e → g.block? i = none → g'.block? i = none) ∧ Leads g' p type T ∧ Target g' e T ∧
      Virgin g' e ∧ ∀ x, x ∈ b.addrs → EdgeFrom g' x T := by
  have hsucc : ∀ t, (linked p t type p b).succ.find? (fun ed => ed.type = type) = some ⟨type, p, t⟩ := by
    intro t
    unfold linked
    simp [find?_append, hfirst]
  rcases hT with ⟨hnone, hT⟩ | ⟨htarget, hvirgin, hep⟩
  · -- a new block
    have hpe : p ≠ e := by
      intro heq
      rw [heq, hnone] at hb
      cases hb
    subst hT
    have hnew : (g.push p T type).block? T = _ := block?_push_new hnone hpe.symm
    have hmerge : IsMerge (g.push p T type) T := by
      refine ⟨_, hnew, cons_ne_nil _ _, ?_⟩
      intro ed hed
      rw [mem_singleton.mp hed]
      exact hm
    refine ⟨_, safeInsertBlock_new hnone, grows_push hnone, fun i hi => untouched_push hnone hi,
      fun i hi hn => push_isNone hnone hi hn, ⟨?_, hmerge⟩, .inl ⟨hmerge, rfl⟩,
      ⟨_, hnew, rfl, rfl⟩, fun x hx => edgeFrom_push hnone hb hx⟩
    unfold mergeOf
    rw [block?_push hnone, if_neg hpe, hb, map_some, bind_some, hsucc, map_some]
  · have ⟨hins, hmerge⟩ := safeInsertBlock_merge (p := p) htarget hm
    have hgrows := grows_link (s := p) hmerge hm
    refine ⟨_, hins, hgrows, fun i hi => untouched_link hi, fun i _ hn => link_isNone hn,
      ⟨?_, hmerge.mono hgrows⟩, htarget.mono hgrows, hvirgin.mono (untouched_link hep),
      fun x hx => edgeFrom_link hb hx⟩
    unfold mergeOf
    rw [block?_link, hb, map_some, bind_some, hsucc, map_some]

theorem front_of_pred (hb : g.block? i = some b) (hpred : b.pred = [⟨type, p, i⟩])
    (htype : type = .IF ∨ type = .ELSE) (hlead : Leads g p .ENDIF T) : Front g i T :=
  ⟨b, _, hb, hpred, .inl ⟨htype, hlead⟩⟩

theorem insertBranches_opened {entry merge : EdgeType} {els : Option Nat}
    (ht : Branching entry els merge) (hb : g.block? p = some b) (hsucc : b.succ = [])
    (hentry : g.block? (a + 1) = none) (hels : ∀ ea, els = some ea → g.block? ea = none ∧ ea ≠ a + 1 ∧ ea ≠ e)
    (he : e ≠ a + 1) (hT : Meets g p e T) :
    ∃ g', insertBranches g p a entry els merge e = some g' ∧ Opened g g' p a els e T := by
  have hpa : p ≠ a + 1 := by
    intro heq
    rw [heq, hentry] at hb
    cases hb
  have hm : isMergeEdge merge = true := by cases ht <;> rfl
  -- the block that follows
  have hgrows1 : Grows g (g.push p (a + 1) entry) := grows_push hentry
  have hnew1 : (g.push p (a + 1) entry).block? (a + 1) = _ := block?_push_new hentry hpa.symm
  have hp1 : (g.push p (a + 1) entry).block? p = some (linked p (a + 1) entry p b) := by
    rw [block?_push hentry, if_neg hpa, hb, map_some]
  have hsucc1 : (linked p (a + 1) entry p b).succ = [⟨entry, p, a + 1⟩] := by
    unfold linked
    simp [hsucc]
  have hT1 := hT.mono hgrows1 (push_isNone hentry he) (untouched_push hentry)
  unfold insertBranches
  rw [safeInsertBlock_new hentry, bind_some]
  generalize hg1 : g.push p (a + 1) entry = g1 at *
  have hunt1 : ∀ i, i ≠ p → Untouched g g1 i := by
    intro i hi
    rw [← hg1]
    exact untouched_push hentry hi
  have hedge1 : ∀ x, x ∈ b.addrs → EdgeFrom g1 x (a + 1) := by
    intro x hx
    rw [← hg1]
    exact edgeFrom_push hentry hb hx
  have hnone1 : ∀ i, i ≠ a + 1 → g.block? i = none → g1.block? i = none := by
    intro i hi hn
    rw [← hg1]
    exact push_isNone hentry hi hn
  have hne : entry ≠ merge := by cases ht <;> decide
  cases els with
  | none =>
    have hfirst : (linked p (a + 1) entry p b).succ.find? (fun ed => ed.type = merge) = none := by
      rw [hsucc1]
      simp [hne]
    have ⟨g', hins, hgrows, hunt, hnone, hlead, htarget, hvirgin, hedge⟩ := insert_merge hp1 hfirst hm hT1
    refine ⟨g', hins, hgrows1.trans hgrows, fun i hi => (hunt1 i hi).trans (hunt i hi), ?_, ?_, ?_,
      htarget, hvirgin, ?_⟩
    · intro i hi _ hie hn
      exact hnone i hie (hnone1 i hi hn)
    · refine ⟨Virgin.mono ⟨_, hnew1, rfl, rfl⟩ (hunt _ hpa.symm), ?_⟩
      have hmerge : isMergeEdge entry = false := by cases ht <;> rfl
      have ⟨b', hb', hpred⟩ := hgrows.pred_single hnew1 rfl hmerge
      refine ⟨b', _, hb', hpred, ?_⟩
      cases ht with
      | ife => exact .inl ⟨.inl rfl, hlead⟩
      | loop => exact .inr ⟨rfl, hlead⟩
    · exact fun ea hea => absurd hea (some_ne_none ea).symm
    · intro x b' hb' hx
      cases hb.symm.trans hb'
      exact ⟨(hedge1 x hx).mono hgrows, fun ea hea => absurd hea (some_ne_none ea).symm, hedge x hx⟩
  | some ea =>
    cases ht
    have ⟨hea, heaa, heae⟩ := hels ea rfl
    have hea1 := hnone1 ea heaa hea
    have hpea : p ≠ ea := by
      intro heq
      rw [heq, hea] at hb
      cases hb
    -- the ELSE block
    have hgrows2 : Grows g1 (g1.push p ea .ELSE) := grows_push hea1
    have hnew2 : (g1.push p ea .ELSE).block? ea = _ := block?_push_new hea1 hpea.symm
    have hp2 : (g1.push p ea .ELSE).block? p = some (linked p ea .ELSE p (linked p (a + 1) .IF p b)) := by
      rw [block?_push hea1, if_neg hpea, hp1, map_some]
    have hfirst : (linked p ea .ELSE p (linked p (a + 1) .IF p b)).succ.find? (fun ed => ed.type = .ENDIF) = none := by
      have hsucc2 : (linked p ea .ELSE p (linked p (a + 1) .IF p b)).succ = [⟨.IF, p, a + 1⟩, ⟨.ELSE, p, ea⟩] := by
        show (if p = p then (linked p (a + 1) .IF p b).succ ++ _ else _) = _
        rw [if_pos rfl, hsucc1]
        rfl
      rw [hsucc2]
      simp
    have hT2 := hT1.mono hgrows2 (push_isNone hea1 heae.symm) (untouched_push hea1)
    have ⟨g', hins, hgrows, hunt, hnone, hlead, htarget, hvirgin, hedge⟩ := insert_merge hp2 hfirst hm hT2
    have hentry' : Virgin (g1.push p ea .ELSE) (a + 1) :=
      Virgin.mono ⟨_, hnew1, rfl, rfl⟩ (untouched_push hea1 hpa.symm)
    have ⟨b2, hb2, hpred2⟩ := (hgrows2.trans hgrows).pred_single hnew1 rfl rfl
    have ⟨b3, hb3, hpred3⟩ := hgrows.pred_single hnew2 rfl rfl
    refine ⟨g', ?_, (hgrows1.trans hgrows2).trans hgrows, ?_, ?_, ?_, ?_, htarget, hvirgin, ?_⟩
    · rw [elim_some, safeInsertBlock_new hea1, bind_some]
      exact hins
    · exact fun i hi => ((hunt1 i hi).trans (untouched_push hea1 hi)).trans (hunt i hi)
    · intro i hi hia hie hn
      have hia' : i ≠ ea := fun heq => hia (heq ▸ rfl)
      exact hnone i hie (push_isNone hea1 hia' (hnone1 i hi hn))
    · exact ⟨hentry'.mono (hunt _ hpa.symm), front_of_pred hb2 hpred2 (.inl rfl) hlead⟩
    · intro ea' hea'
      cases hea'
      exact ⟨Virgin.mono ⟨_, hnew2, rfl, rfl⟩ (hunt _ hpea.symm),
        front_of_pred hb3 hpred3 (.inr rfl) hlead, .inr ⟨b3, _, hb3, hpred3, rfl, hlead⟩⟩
    · intro x b' hb' hx
      cases hb.symm.trans hb'
      refine ⟨((hedge1 x hx).mono hgrows2).mono hgrows, ?_, hedge x hx⟩
      intro ea' hea'
      cases hea'
      exact (edgeFrom_push hea1 hp1 hx).mono hgrows

/-! ## Closing the current block -/

section Close

variable {s : CfgState}

/-- A block that starts at the address will become the current one. -/
def Pending (s : CfgState) (i : Nat) : Prop := i ∈ s.endBlocks ∨ i ∈ s.elseBlocks

theorem enter_skip (h : ¬ Pending s s.pc) : enter s = some s := if_neg h

theorem not_front_of_isMerge (h : IsMerge g i) : ¬ Front g i T := by
  rintro ⟨b, ed, hb, hpred, hlead⟩
  have ⟨b', hb', hm⟩ := h
  cases hb.symm.trans hb'
  have hmerge := hm.2 ed (hpred ▸ mem_singleton_self ed)
  rcases hlead with ⟨ht | ht, _⟩ | ⟨ht, _⟩ <;> rw [ht] at hmerge <;> cases hmerge

theorem closeBlock_front (h : Front s.graph s.bb T) : ∃ type, isMergeEdge type = true ∧ IsMerge s.graph T ∧
      closeBlock s = some (s.graph.link s.bb T type) := by
  have ⟨b, ed, hb, hpred, hlead⟩ := h
  have hne : isMergeEdge ed.type = false := by
    rcases hlead with ⟨ht | ht, _⟩ | ⟨ht, _⟩ <;> rw [ht] <;> rfl
  have hfront : frontEdge b = some ed := by
    unfold frontEdge
    rw [hpred, find?_singleton, hne]
    rfl
  unfold closeBlock
  rw [hb, bind_some, hfront]
  rcases hlead with ⟨ht | ht, hl⟩ | ⟨ht, hl⟩
  · exact ⟨.ENDIF, rfl, hl.2, by simp only [ht, hl.1, map_some]⟩
  · exact ⟨.ENDIF, rfl, hl.2, by simp only [ht, hl.1, map_some]⟩
  · exact ⟨.ENDLOOP, rfl, hl.2, by simp only [ht, hl.1, map_some]⟩

theorem closeBlock_isMerge (h : IsMerge s.graph s.bb) : closeBlock s = some s.graph := by
  have ⟨b, hb, hm⟩ := h
  have hfront : frontEdge b = none := by
    unfold frontEdge
    rw [find?_eq_none]
    intro ed hed
    rw [hm.2 ed hed]
    decide
  unfold closeBlock
  rw [hb, bind_some, hfront]

structure Entered (s m : CfgState) (T : Nat) : Prop where
  eq : m = { s with graph := m.graph, bb := s.pc }
  grows : Grows s.graph m.graph
  untouched : ∀ i, i ≠ s.bb → Untouched s.graph m.graph i
  isNone : ∀ i, s.graph.block? i = none → m.graph.block? i = none
  edge : Front s.graph s.bb T → ∀ b x, s.graph.block? s.bb = some b → x ∈ b.addrs → EdgeFrom m.graph x T

theorem enter_entered (hp : Pending s s.pc) (hbb : Front s.graph s.bb T ∨ IsMerge s.graph s.bb) :
    ∃ m, enter s = some m ∧ Entered s m T := by
  have henter : enter s = (closeBlock s).map fun g => { s with graph := g, bb := s.pc } := if_pos hp
  rw [henter]
  rcases hbb with hfront | hmerge
  · have ⟨type, hm, hT, hclose⟩ := closeBlock_front hfront
    rw [hclose, map_some]
    exact ⟨_, rfl, rfl, grows_link hT hm, fun i hi => untouched_link hi, fun i hn => link_isNone hn,
      fun _ b x hb hx => edgeFrom_link hb hx⟩
  · rw [closeBlock_isMerge hmerge, map_some]
    exact ⟨_, rfl, rfl, .refl _, fun i _ => .refl _ i, fun i hn => hn,
      fun hfront => absurd hfront (not_front_of_isMerge hmerge)⟩

end Close

/-! ## Adding an instruction -/

section PushInstruction

variable {s : CfgState} {inst : Instruction}

theorem block?_pushInstruction : (pushInstruction s inst).graph.block? i =
      if i = s.bb then (s.graph.block? i).map fun b => { b with instructions := b.instructions ++ [inst] }
      else s.graph.block? i :=
  block?_modify fun _ => rfl

theorem grows_pushInstruction : Grows s.graph (pushInstruction s inst).graph := by
  intro i b hb
  rw [block?_pushInstruction]
  split
  · rw [hb]
    exact ⟨_, rfl, prefix_append _ _, prefix_refl _, .inl rfl⟩
  · exact ⟨b, hb, .refl b⟩

theorem untouched_pushInstruction (hi : i ≠ s.bb) : Untouched s.graph (pushInstruction s inst).graph i := by
  intro b hb
  refine ⟨b, ?_, rfl, rfl⟩
  rw [block?_pushInstruction, if_neg hi, hb]

theorem pushInstruction_isNone (h : s.graph.block? i = none) : (pushInstruction s inst).graph.block? i = none := by
  rw [block?_pushInstruction, h]
  split <;> rfl

theorem block?_pushInstruction_bb (hb : s.graph.block? s.bb = some b) : (pushInstruction s inst).graph.block? s.bb =
      some { b with instructions := b.instructions ++ [inst] } := by
  rw [block?_pushInstruction, if_pos rfl, hb, map_some]

end PushInstruction

end Armsx3.Rsx
