import Armsx3.Rsx.FragmentCfg

/-!
# FlowGrowth — what stays true of the flow graph while it is built

Blocks, instructions and edges are only added, at the end of their lists, and a block that starts a branch
never gets a second predecessor.
-/

namespace Armsx3.Rsx

open FlowGraph List Option

variable {g g' g'' : FlowGraph} {i j t T : Nat} {type : EdgeType}

def Merges (l : List FlowEdge) : Prop := l ≠ [] ∧ ∀ e ∈ l, isMergeEdge e.type = true

instance (l : List FlowEdge) : Decidable (Merges l) := inferInstanceAs (Decidable (_ ∧ _))

/-! ## Growth -/

structure BlockGrows (b b' : BasicBlock) : Prop where
  instructions : b.instructions <+: b'.instructions
  succ : b.succ <+: b'.succ
  pred : b'.pred = b.pred ∨ (Merges b.pred ∧ Merges b'.pred)

theorem BlockGrows.refl (b : BasicBlock) : BlockGrows b b := ⟨prefix_refl _, prefix_refl _, .inl rfl⟩

theorem BlockGrows.trans {b b' b'' : BasicBlock} (h : BlockGrows b b') (h' : BlockGrows b' b'') : BlockGrows b b'' := by
  refine ⟨h.instructions.trans h'.instructions, h.succ.trans h'.succ, ?_⟩
  rcases h.pred with heq | ⟨hm, hm'⟩
  · rw [← heq]
    exact h'.pred
  rcases h'.pred with heq' | ⟨_, hm''⟩
  · rw [heq']
    exact .inr ⟨hm, hm'⟩
  · exact .inr ⟨hm, hm''⟩

def Grows (g g' : FlowGraph) : Prop :=
  ∀ i b, g.block? i = some b → ∃ b', g'.block? i = some b' ∧ BlockGrows b b'

theorem Grows.refl (g : FlowGraph) : Grows g g := fun _ b h => ⟨b, h, .refl b⟩

theorem Grows.trans (h : Grows g g') (h' : Grows g' g'') : Grows g g'' := by
  intro i b hb
  have ⟨b', hb', hgrow⟩ := h i b hb
  have ⟨b'', hb'', hgrow'⟩ := h' i b' hb'
  exact ⟨b'', hb'', hgrow.trans hgrow'⟩

def Untouched (g g' : FlowGraph) (i : Nat) : Prop :=
  ∀ b, g.block? i = some b → ∃ b', g'.block? i = some b' ∧ b'.instructions = b.instructions ∧ b'.succ = b.succ

theorem Untouched.refl (g : FlowGraph) (i : Nat) : Untouched g g i := fun b h => ⟨b, h, rfl, rfl⟩

theorem Untouched.trans (h : Untouched g g' i) (h' : Untouched g' g'' i) : Untouched g g'' i := by
  intro b hb
  have ⟨b', hb', hinst, hsucc⟩ := h b hb
  have ⟨b'', hb'', hinst', hsucc'⟩ := h' b' hb'
  exact ⟨b'', hb'', hinst'.trans hinst, hsucc'.trans hsucc⟩

/-! ## Facts that growth keeps -/

def IsMerge (g : FlowGraph) (i : Nat) : Prop := ∃ b, g.block? i = some b ∧ Merges b.pred

/-- The branches that start in `i` continue with the merge block `T`. -/
def Leads (g : FlowGraph) (i : Nat) (type : EdgeType) (T : Nat) : Prop :=
  mergeOf g i type = some T ∧ IsMerge g T

def Front (g : FlowGraph) (i T : Nat) : Prop :=
  ∃ b e, g.block? i = some b ∧ b.pred = [e] ∧ (((e.type = .IF ∨ e.type = .ELSE) ∧ Leads g e.source .ENDIF T) ∨
      (e.type = .LOOP ∧ Leads g e.source .ENDLOOP T))

/-- What comes before the address `i` continues with `T`: with `i` itself, or behind the ELSE branch that
starts there. -/
def Target (g : FlowGraph) (i T : Nat) : Prop :=
  (IsMerge g i ∧ T = i) ∨ ∃ b e, g.block? i = some b ∧ b.pred = [e] ∧ e.type = .ELSE ∧ Leads g e.source .ENDIF T

/-- An edge leads from the block of the instruction at `x` to block `i`. -/
def EdgeFrom (g : FlowGraph) (x i : Nat) : Prop :=
  ∃ j b e, g.block? j = some b ∧ x ∈ b.addrs ∧ e ∈ b.succ ∧ e.target = i

/-- `y` follows `x` inside a block, or it starts a block with an edge from the block of `x`. -/
def Joined (g : FlowGraph) (x y : Nat) : Prop :=
  (∃ i b, g.block? i = some b ∧ [x, y] <:+: b.addrs) ∨
    ∃ i c, EdgeFrom g x i ∧ g.block? i = some c ∧ c.addrs.head? = some y

def Virgin (g : FlowGraph) (i : Nat) : Prop :=
  ∃ b, g.block? i = some b ∧ b.instructions = [] ∧ b.succ = []

def IsLast (g : FlowGraph) (i x : Nat) : Prop := ∃ b, g.block? i = some b ∧ b.addrs.getLast? = some x

theorem IsMerge.mono (h : IsMerge g i) (hg : Grows g g') : IsMerge g' i := by
  have ⟨b, hb, hm⟩ := h
  have ⟨b', hb', hgrow⟩ := hg i b hb
  rcases hgrow.pred with heq | ⟨_, hm'⟩
  · exact ⟨b', hb', heq ▸ hm⟩
  · exact ⟨b', hb', hm'⟩

theorem mergeOf_mono (h : mergeOf g i type = some T) (hg : Grows g g') : mergeOf g' i type = some T := by
  have ⟨b, hb, hfind⟩ := bind_eq_some_iff.mp h
  have ⟨e, he, hT⟩ := map_eq_some_iff.mp hfind
  have ⟨b', hb', hgrow⟩ := hg i b hb
  -- the first edge of a type stays the first
  have ⟨l, hl⟩ := hgrow.succ
  have he' : b'.succ.find? (fun e => e.type = type) = some e := by
    rw [← hl, List.find?_append, he, some_or]
  unfold mergeOf
  rw [hb', bind_some, he', map_some, hT]

theorem Leads.mono (h : Leads g i type T) (hg : Grows g g') : Leads g' i type T := ⟨mergeOf_mono h.1 hg, h.2.mono hg⟩

variable {b : BasicBlock}

theorem Grows.pred_single {e : FlowEdge} (hg : Grows g g') (hb : g.block? i = some b)
    (hpred : b.pred = [e]) (he : isMergeEdge e.type = false) : ∃ b', g'.block? i = some b' ∧ b'.pred = [e] := by
  have ⟨b', hb', hgrow⟩ := hg i b hb
  rcases hgrow.pred with heq | ⟨hm, _⟩
  · exact ⟨b', hb', heq.trans hpred⟩
  · have htrue := hm.2 e (hpred ▸ mem_singleton_self e)
    rw [he] at htrue
    cases htrue

theorem Front.mono (h : Front g i T) (hg : Grows g g') : Front g' i T := by
  have ⟨b, e, hb, hpred, hlead⟩ := h
  have he : isMergeEdge e.type = false := by
    rcases hlead with ⟨ht | ht, _⟩ | ⟨ht, _⟩ <;> rw [ht] <;> rfl
  have ⟨b', hb', hpred'⟩ := hg.pred_single hb hpred he
  refine ⟨b', e, hb', hpred', ?_⟩
  rcases hlead with ⟨ht, hl⟩ | ⟨ht, hl⟩
  · exact .inl ⟨ht, hl.mono hg⟩
  · exact .inr ⟨ht, hl.mono hg⟩

theorem Target.mono (h : Target g i T) (hg : Grows g g') : Target g' i T := by
  rcases h with ⟨hm, hT⟩ | ⟨b, e, hb, hpred, ht, hl⟩
  · exact .inl ⟨hm.mono hg, hT⟩
  · have he : isMergeEdge e.type = false := by rw [ht]; rfl
    have ⟨b', hb', hpred'⟩ := hg.pred_single hb hpred he
    exact .inr ⟨b', e, hb', hpred', ht, hl.mono hg⟩

theorem BlockGrows.addrs {b b' : BasicBlock} (h : BlockGrows b b') : b.addrs <+: b'.addrs := h.instructions.map _

variable {x : Nat}

theorem EdgeFrom.mono (h : EdgeFrom g x i) (hg : Grows g g') : EdgeFrom g' x i := by
  have ⟨j, b, e, hb, hx, he, hi⟩ := h
  have ⟨b', hb', hgrow⟩ := hg j b hb
  exact ⟨j, b', e, hb', hgrow.addrs.subset hx, hgrow.succ.subset he, hi⟩

theorem Joined.mono {x y : Nat} (h : Joined g x y) (hg : Grows g g') : Joined g' x y := by
  rcases h with ⟨i, b, hb, hinf⟩ | ⟨i, c, hedge, hc, hhead⟩
  · have ⟨b', hb', hgrow⟩ := hg i b hb
    exact .inl ⟨i, b', hb', hinf.trans hgrow.addrs.isInfix⟩
  have ⟨c', hc', hgrow⟩ := hg i c hc
  refine .inr ⟨i, c', hedge.mono hg, hc', ?_⟩
  -- the first instruction stays the first
  have ⟨l, hl⟩ := hgrow.addrs
  rw [← hl, List.head?_append, hhead, some_or]

theorem Virgin.mono (h : Virgin g i) (hu : Untouched g g' i) : Virgin g' i := by
  have ⟨b, hb, hinst, hsucc⟩ := h
  have ⟨b', hb', hinst', hsucc'⟩ := hu b hb
  exact ⟨b', hb', hinst'.trans hinst, hsucc'.trans hsucc⟩

/-! ## Operations -/

section Link

variable {s : Nat}

theorem grows_link (ht : IsMerge g t) (hm : isMergeEdge type = true) : Grows g (g.link s t type) := by
  intro i b hb
  refine ⟨linked s t type i b, by rw [block?_link, hb, map_some], prefix_refl _, ?_, ?_⟩
  · unfold linked
    split
    · exact prefix_append _ _
    · exact prefix_refl _
  unfold linked
  simp only
  split
  next hi =>
    have ⟨bt, hbt, hpred⟩ := ht
    rw [← hi, hb] at hbt
    cases hbt
    refine .inr ⟨hpred, ?_, ?_⟩
    · simp
    · exact forall_mem_append.mpr ⟨hpred.2, forall_mem_singleton.mpr hm⟩
  · exact .inl rfl

theorem untouched_link (hi : i ≠ s) : Untouched g (g.link s t type) i := by
  intro b hb
  refine ⟨linked s t type i b, by rw [block?_link, hb, map_some], rfl, ?_⟩
  unfold linked
  simp only [hi, if_false]

theorem edgeFrom_link (hb : g.block? s = some b) (hx : x ∈ b.addrs) : EdgeFrom (g.link s t type) x t := by
  refine ⟨s, linked s t type s b, ⟨type, s, t⟩, by rw [block?_link, hb, map_some], hx, ?_, rfl⟩
  unfold linked
  simp

theorem link_isNone (h : g.block? i = none) : (g.link s t type).block? i = none := by
  rw [block?_link, h, map_none]

end Link

section Push

variable {p : Nat}

section

variable (h : g.block? i = none)
include h

theorem grows_push : Grows g (g.push p i type) := by
  intro j b hb
  have hj : j ≠ i := by
    intro heq
    rw [heq, h] at hb
    cases hb
  refine ⟨linked p i type j b, ?_, prefix_refl _, ?_, .inl ?_⟩
  · rw [block?_push h, if_neg hj, hb, map_some]
  · unfold linked
    split
    · exact prefix_append _ _
    · exact prefix_refl _
  · unfold linked
    simp only [hj, if_false]

theorem untouched_push (hj : j ≠ p) : Untouched g (g.push p i type) j := by
  intro b hb
  have hji : j ≠ i := by
    intro heq
    rw [heq, h] at hb
    cases hb
  refine ⟨linked p i type j b, by rw [block?_push h, if_neg hji, hb, map_some], rfl, ?_⟩
  unfold linked
  simp only [hj, if_false]

theorem block?_push_new (hp : i ≠ p) : (g.push p i type).block? i = some { id := i, pred := [⟨type, p, i⟩] } := by
  rw [block?_push h, if_pos rfl, map_some]
  unfold linked
  simp [hp]

theorem edgeFrom_push (hb : g.block? p = some b) (hx : x ∈ b.addrs) : EdgeFrom (g.push p i type) x i := by
  have hp : p ≠ i := by
    intro heq
    rw [heq, h] at hb
    cases hb
  refine ⟨p, linked p i type p b, ⟨type, p, i⟩, ?_, hx, ?_, rfl⟩
  · rw [block?_push h, if_neg hp, hb, map_some]
  · unfold linked
    simp

theorem push_isNone (hj : j ≠ i) (hn : g.block? j = none) : (g.push p i type).block? j = none := by
  rw [block?_push h, if_neg hj, hn, map_none]

end

end Push

end Armsx3.Rsx
