import Armsx3.Rsx.FlowBranches
import Armsx3.Rsx.FragmentCode

/-!
# FragmentScan — one pass over structured code

The list of statements is started in the current block.  If it is a branch, another block starts where the list
ends, and `ctx` is the block that the branch continues with.
-/

namespace Armsx3.Rsx

open FlowGraph List Nat Option

/-! ## What can be executed next -/

/-- The instructions that can be the last ones executed when the end of the code is reached, if `P` are those
when it is started.  Branches whose end has no edge are left out. -/
def lasts : Code → Nat → (Nat → Prop) → Nat → Prop
  | .done, _, P => P
  | .nop n rest, a, P => lasts rest (a + n) P
  | .op n rest, a, _ => lasts rest (a + n) (· = a * 16)
  | .ife thn els rest, a, P =>
    if thn = .done ∧ els = .done then lasts rest (a + 1) P
    else lasts rest (a + 1 + thn.size + els.size) fun x =>
      (thn.blocked true = false ∧ lasts thn (a + 1) (· = a * 16) x) ∨
      (els.blocked true = false ∧ lasts els (a + 1 + thn.size) (· = a * 16) x)
  | .loop body rest, a, P =>
    if body = .done then lasts rest (a + 1) P
    else lasts rest (a + 1 + body.size) fun x =>
      x = a * 16 ∨ (body.blocked true = false ∧ lasts body (a + 1) (· = a * 16) x)

/-- The instructions that can be executed one after the other, with the same exceptions. -/
def follows : Code → Nat → (Nat → Prop) → Nat → Nat → Prop
  | .done, _, _, _, _ => False
  | .nop n rest, a, P, x, y => follows rest (a + n) P x y
  | .op n rest, a, P, x, y => (P x ∧ y = a * 16) ∨ follows rest (a + n) (· = a * 16) x y
  | .ife thn els rest, a, P, x, y =>
    if thn = .done ∧ els = .done then follows rest (a + 1) P x y
    else (P x ∧ y = a * 16) ∨ follows thn (a + 1) (· = a * 16) x y ∨ follows els (a + 1 + thn.size) (· = a * 16) x y ∨
      follows rest (a + 1 + thn.size + els.size) (fun x =>
        (thn.blocked true = false ∧ lasts thn (a + 1) (· = a * 16) x) ∨
        (els.blocked true = false ∧ lasts els (a + 1 + thn.size) (· = a * 16) x)) x y
  | .loop body rest, a, P, x, y =>
    if body = .done then follows rest (a + 1) P x y
    else (P x ∧ y = a * 16) ∨ follows body (a + 1) (· = a * 16) x y ∨
      follows rest (a + 1 + body.size) (fun x =>
        x = a * 16 ∨ (body.blocked true = false ∧ lasts body (a + 1) (· = a * 16) x)) x y

/-! ## Runs of the loop -/

section Runs

variable {data : Nat → Quad} {last : Nat}

/-- Iterations of the loop from a state in which a block has been started if there is one. -/
inductive Run (data : Nat → Quad) : CfgState → CfgState → Prop
  | single {m s} (h : exec data m = some s) : Run data m s
  | cons {m s m' s'} (h : exec data m = some s) (hend : s.end = false) (hm : enter s = some m')
      (hr : Run data m' s') : Run data m s'

theorem Run.trans {m s m' s' : CfgState} (h : Run data m s) (hend : s.end = false)
    (hm : enter s = some m') (hr : Run data m' s') : Run data m s' := by
  induction h with
  | single h => exact .cons h hend hm hr
  | cons h hend' hm' _ ih => exact .cons h hend' hm' (ih hend hm)

/-- The instructions `P` are the last ones before the next one in block `bb`: one is in the block itself, or
its block has an edge to this one, which is still empty. -/
def Before (g : FlowGraph) (bb : Nat) (front : Bool) (ctx : Option Nat) (P : Nat → Prop) : Prop :=
  ∀ x, P x → IsLast g bb x ∨ ((∃ b, g.block? bb = some b ∧ b.instructions = []) ∧ EdgeFrom g x bb ∧
      ∀ T, ctx = some T → front = true → EdgeFrom g x T)

structure Ready (data : Nat → Quad) (last : Nat) (c : Code) (a e : Nat) (front : Bool)
    (ctx : Option Nat) (P : Nat → Prop) (m : CfgState) : Prop where
  code : Encodes data last c a
  ne : c ≠ .done
  size : e = a + c.size
  le_last : e ≤ last
  pc : m.pc = a
  cur : ∃ b, m.graph.block? m.bb = some b ∧ b.succ = []
  le : m.bb ≤ a
  noPend : ∀ i, a < i → i < e → ¬ Pending m i
  noBlock : ∀ i, a < i → i < e → m.graph.block? i = none
  top : ctx = none → m.graph.block? e = none ∧ ¬ Pending m e
  inner : ∀ T, ctx = some T → Pending m e ∧ Target m.graph e T ∧ Virgin m.graph e
  bb : ∀ T, ctx = some T → if front then Front m.graph m.bb T else IsMerge m.graph m.bb
  pre : Before m.graph m.bb front ctx P

/-- What is added between `lo` and `hi` is there. -/
structure Passed (lo hi : Nat) (m s : CfgState) : Prop where
  grows : Grows m.graph s.graph
  pend : ∀ i, Pending m i → Pending s i
  pendNew : ∀ i, Pending s i → Pending m i ∨ (lo < i ∧ i ≤ hi)
  untouched : ∀ i, i ≠ m.bb → i ≤ lo ∨ hi ≤ i → Untouched m.graph s.graph i
  isNone : ∀ i, i ≤ lo ∨ hi < i → m.graph.block? i = none → s.graph.block? i = none
  bbIn : s.bb = m.bb ∨ (lo < s.bb ∧ s.bb < hi)

/-- What is known where it ends, before a block is started there. -/
structure Scanned (data : Nat → Quad) (last : Nat) (c : Code) (a e : Nat) (front : Bool)
    (ctx : Option Nat) (P : Nat → Prop) (m s : CfgState) : Prop where
  run : Run data m s
  pc : s.pc = e
  fin : s.end = decide (e = last)
  grows : Grows m.graph s.graph
  pend : ∀ i, Pending m i → Pending s i
  pendNew : ∀ i, Pending s i → Pending m i ∨ (a < i ∧ i ≤ e)
  untouched : ∀ i, i ≠ m.bb → i ≤ a ∨ e ≤ i → Untouched m.graph s.graph i
  isNone : ∀ i, i ≤ a ∨ e < i → m.graph.block? i = none → s.graph.block? i = none
  bbLt : s.bb < e
  bbMem : s.bb = m.bb ∨ a < s.bb
  pairs : ∀ x y, follows c a P x y → Joined s.graph x y
  bb : ∀ T, ctx = some T → Front s.graph s.bb T ∨ IsMerge s.graph s.bb
  exits : ∀ T, ctx = some T → c.blocked front = false → ∀ x, lasts c a P x →
    (IsLast s.graph s.bb x ∧ Front s.graph s.bb T) ∨ EdgeFrom s.graph x T

/-! ## Statements without blocks -/

structure Advance (last : Nat) (m s : CfgState) (k : Nat) : Prop where
  pc : s.pc = m.pc + k
  fin : s.end = decide (m.pc + k = last)
  bb : s.bb = m.bb
  pend : ∀ i, Pending s i ↔ Pending m i
  grows : Grows m.graph s.graph
  untouched : ∀ i, i ≠ m.bb → Untouched m.graph s.graph i
  isNone : ∀ i, m.graph.block? i = none → s.graph.block? i = none
  cur : ∀ b, m.graph.block? m.bb = some b → ∃ b', s.graph.block? m.bb = some b' ∧ b'.succ = b.succ

variable {c rest : Code} {a e k : Nat} {front : Bool} {ctx : Option Nat} {P Q : Nat → Prop}
  {m s s' : CfgState}

theorem Passed.mono {lo hi : Nat} (h : Passed a e m s) (hlo : lo ≤ a) (hhi : e ≤ hi) : Passed lo hi m s where
  __ := h
  pendNew i hi := (h.pendNew i hi).imp_right fun h => ⟨by omega, by omega⟩
  untouched i hi hout := h.untouched i hi (by omega)
  isNone i hout := h.isNone i (by omega)
  bbIn := h.bbIn.imp_right fun h => ⟨by omega, by omega⟩

theorem Passed.trans (h : Passed a e m s) (h' : Passed a e s s') : Passed a e m s' where
  grows := h.grows.trans h'.grows
  pend i hi := h'.pend i (h.pend i hi)
  pendNew i hi := (h'.pendNew i hi).elim (h.pendNew i) .inr
  untouched i hi hout := by
    have hbb := h.bbIn
    exact (h.untouched i hi hout).trans (h'.untouched i (by omega) hout)
  isNone i hout hn := h'.isNone i hout (h.isNone i hout hn)
  bbIn := by
    have hbb := h.bbIn
    have hbb' := h'.bbIn
    omega

theorem Scanned.passed (h : Scanned data last c a e front ctx P m s) : Passed a e m s :=
  { h with bbIn := h.bbMem.imp_right (⟨·, h.bbLt⟩) }

theorem Advance.passed (ha : Advance last m s k) : Passed a e m s where
  grows := ha.grows
  pend i := (ha.pend i).mpr
  pendNew i hi := .inl ((ha.pend i).mp hi)
  untouched i hi _ := ha.untouched i hi
  isNone i _ := ha.isNone i
  bbIn := .inl ha.bb

section

variable (hr : Ready data last c a e front ctx P m)
include hr

theorem Ready.next (ha : Advance last m s k)
    (hcode : Encodes data last rest (a + k)) (hne : rest ≠ .done) (hsize : c.size = k + rest.size)
    (hpre : Before s.graph s.bb front ctx Q) : Ready data last rest (a + k) e front ctx Q s where
  code := hcode
  ne := hne
  size := by
    have := hr.size
    omega
  le_last := hr.le_last
  pc := by rw [ha.pc, hr.pc]
  cur := by
    have ⟨b, hb, hsucc⟩ := hr.cur
    have ⟨b', hb', hsucc'⟩ := ha.cur b hb
    exact ⟨b', ha.bb ▸ hb', hsucc'.trans hsucc⟩
  le := by
    have := hr.le
    rw [ha.bb]
    omega
  noPend i hi hie := by
    rw [ha.pend]
    exact hr.noPend i (by omega) hie
  noBlock i hi hie := ha.isNone i (hr.noBlock i (by omega) hie)
  top hctx := by
    rw [ha.pend]
    exact ⟨ha.isNone e (hr.top hctx).1, (hr.top hctx).2⟩
  inner T hT := by
    have ⟨hp, ht, hv⟩ := hr.inner T hT
    have hbb := hr.le
    have hea : e ≠ m.bb := by
      have hpos := hr.code.size_pos hr.ne
      have hsize := hr.size
      omega
    exact ⟨(ha.pend e).mpr hp, ht.mono ha.grows, hv.mono (ha.untouched e hea)⟩
  bb T hT := by
    have h := hr.bb T hT
    rw [ha.bb]
    cases front with
    | true => exact Front.mono h ha.grows
    | false => exact IsMerge.mono h ha.grows
  pre := hpre

theorem Scanned.cons (hexec : exec data m = some s)
    (ha : Advance last m s k) (hk : 0 < k) (hlt : a + k < e) (hs : Scanned data last rest (a + k) e front ctx Q s s')
    (hpairs : ∀ x y, follows c a P x y → Joined s.graph x y ∨ follows rest (a + k) Q x y)
    (hblocked : c.blocked front = rest.blocked front)
    (hlasts : ∀ x, lasts c a P x → lasts rest (a + k) Q x) : Scanned data last c a e front ctx P m s' := by
  -- no block starts between the two
  have hpend : ¬ Pending s s.pc := by
    rw [ha.pend, ha.pc, hr.pc]
    exact hr.noPend _ (by omega) hlt
  have hend : s.end = false := by
    have hle := hr.le_last
    rw [ha.fin, hr.pc, decide_eq_false_iff_not]
    omega
  have hpassed := ha.passed.trans (hs.passed.mono (le_add_right a k) (le_refl e))
  exact { hpassed with
    run := .cons hexec hend (enter_skip hpend) hs.run
    pc := hs.pc
    fin := hs.fin
    bbLt := hs.bbLt
    bbMem := hpassed.bbIn.imp_right And.left
    pairs := fun x y h => (hpairs x y h).elim (·.mono hs.grows) (hs.pairs x y)
    bb := hs.bb
    exits := fun T hT hb x hx => hs.exits T hT (hblocked ▸ hb) x (hlasts x hx) }

theorem Scanned.single (hexec : exec data m = some s)
    (ha : Advance last m s k) (he : a + k = e) (hpre : Before s.graph s.bb front ctx Q)
    (hpairs : ∀ x y, follows c a P x y → Joined s.graph x y) (hblocked : c.blocked front = !front)
    (hlasts : ∀ x, lasts c a P x → Q x) : Scanned data last c a e front ctx P m s where
  run := .single hexec
  pc := by rw [ha.pc, hr.pc, he]
  fin := by rw [ha.fin, hr.pc, he]
  grows := ha.grows
  pend i hi := (ha.pend i).mpr hi
  pendNew i hi := .inl ((ha.pend i).mp hi)
  untouched i hi _ := ha.untouched i hi
  isNone i _ hn := ha.isNone i hn
  bbLt := by
    have hpos := hr.code.size_pos hr.ne
    have hsize := hr.size
    have hle := hr.le
    rw [ha.bb]
    omega
  bbMem := .inl ha.bb
  pairs := hpairs
  bb T hT := by
    have h := hr.bb T hT
    rw [ha.bb]
    cases front with
    | true => exact .inl (Front.mono h ha.grows)
    | false => exact .inr (IsMerge.mono h ha.grows)
  exits T hT hb x hx := by
    have hfront : front = true := by
      rw [hblocked, Bool.not_eq_false'] at hb
      exact hb
    have h := hr.bb T hT
    rw [hfront, if_pos rfl] at h
    rcases hpre x (hlasts x hx) with hlast | ⟨_, _, hedge⟩
    · exact .inl ⟨hlast, ha.bb ▸ h.mono ha.grows⟩
    · exact .inr (hedge T hT hfront)

end

variable {q : Quad}

theorem advance_skip (hend : q.isEnd = decide (m.pc + k = last)) :
    Advance last m { m with pc := m.pc + k, «end» := q.isEnd } k where
  pc := rfl
  fin := hend
  bb := rfl
  pend _ := Iff.rfl
  grows := .refl _
  untouched _ _ := .refl _ _
  isNone _ h := h
  cur b hb := ⟨b, hb, rfl⟩

variable {inst : Instruction}

theorem advance_push (hend : q.isEnd = decide (m.pc + k = last)) :
    Advance last m
      { m with pc := m.pc + k, «end» := q.isEnd, graph := (pushInstruction m inst).graph } k where
  pc := rfl
  fin := hend
  bb := rfl
  pend _ := Iff.rfl
  grows := grows_pushInstruction
  untouched _ hi := untouched_pushInstruction hi
  isNone _ h := pushInstruction_isNone h
  cur _ hb := ⟨_, block?_pushInstruction_bb hb, rfl⟩

theorem exec_nop {n : Nat} (hop : (data m.pc).decode.opcode = opNOP) (hn : (data m.pc).decode.nopSize = n) :
    exec data m = some { m with pc := m.pc + n, «end» := (data m.pc).decode.isEnd } := by
  have hlen : m.pc + (if (data m.pc).decode.includesLiteralConstant then 1 else 0) + 1 = m.pc + n := by
    unfold Quad.nopSize at hn
    split at hn
    next h =>
      rw [if_pos h]
      omega
    next h =>
      rw [if_neg h]
      omega
  unfold exec
  simp only [hop, if_true, hlen]

theorem exec_op {n : Nat} (hop : (data m.pc).decode.Ordinary) (hn : (data m.pc).decode.opSize = n) :
    ∃ inst : Instruction, inst.addr = m.pc * 16 ∧
      exec data m = some { m with
        pc := m.pc + n, «end» := (data m.pc).decode.isEnd
        graph := (pushInstruction m inst).graph } := by
  have ⟨hnop, hbrk, hcal, hife, hloop, hrep, hret⟩ := hop
  unfold exec
  simp only [hnop, hbrk, hcal, hife, hloop, hrep, hret, if_false, false_or, or_false]
  unfold Quad.opSize at hn
  by_cases hfence : (data m.pc).decode.opcode = opFENCT ∨ (data m.pc).decode.opcode = opFENCB
  · rw [if_pos hfence] at hn
    rw [if_pos hfence, ← hn]
    exact ⟨_, rfl, rfl⟩
  rw [if_neg hfence] at hn
  rw [if_neg hfence]
  by_cases hlit : (data m.pc).decode.includesLiteralConstant
  · rw [if_pos hlit] at hn
    rw [if_pos hlit, ← hn]
    exact ⟨_, rfl, rfl⟩
  · rw [if_neg hlit] at hn
    rw [if_neg hlit, ← hn]
    exact ⟨_, rfl, rfl⟩

theorem joined_push {x : Nat} (hpre : Before m.graph m.bb front ctx P) (hx : P x) :
    Joined (pushInstruction m inst).graph x inst.addr := by
  rcases hpre x hx with ⟨b, hb, hlast⟩ | ⟨⟨b, hb, hnil⟩, hedge, _⟩
  · refine .inl ⟨m.bb, _, block?_pushInstruction_bb hb, ?_⟩
    have ⟨l, hl⟩ := getLast?_eq_some_iff.mp hlast
    refine ⟨l, [], ?_⟩
    unfold BasicBlock.addrs at hl ⊢
    rw [map_append, hl]
    simp
  · refine .inr ⟨m.bb, _, hedge.mono grows_pushInstruction, block?_pushInstruction_bb hb, ?_⟩
    rw [hnil]
    rfl

theorem isLast_push (hcur : ∃ b, m.graph.block? m.bb = some b ∧ b.succ = []) :
    IsLast (pushInstruction m inst).graph m.bb inst.addr := by
  have ⟨b, hb, _⟩ := hcur
  refine ⟨_, block?_pushInstruction_bb hb, ?_⟩
  unfold BasicBlock.addrs
  rw [map_append, map_singleton, getLast?_append, getLast?_singleton]
  rfl

/-! ## Statements with branches -/

/-- The first iteration of an IF or LOOP at `a` whose branches meet at `e` and continue with `T`. -/
structure Opening (data : Nat → Quad) (a : Nat) (els : Option Nat) (e T : Nat) (m s : CfgState) : Prop where
  exec : exec data m = some s
  fin : s.end = false
  pc : s.pc = a + 1
  bb : s.bb = a + 1
  pend : ∀ i, Pending s i ↔ Pending m i ∨ i = e ∨ els = some i
  grows : Grows m.graph s.graph
  untouched : ∀ i, i ≠ m.bb → Untouched m.graph s.graph i
  isNone : ∀ i, i ≠ a + 1 → els ≠ some i → i ≠ e → m.graph.block? i = none → s.graph.block? i = none
  entry : Virgin s.graph (a + 1) ∧ Front s.graph (a + 1) T
  other : ∀ ea, els = some ea → Virgin s.graph ea ∧ Front s.graph ea T ∧ Target s.graph ea T
  target : Target s.graph e T
  virgin : Virgin s.graph e
  edges : EdgeFrom s.graph (a * 16) (a + 1) ∧ (∀ ea, els = some ea → EdgeFrom s.graph (a * 16) ea) ∧
    EdgeFrom s.graph (a * 16) T
  joined : ∀ front ctx P, Before m.graph m.bb front ctx P → ∀ x, P x → Joined s.graph x (a * 16)

variable {T : Nat}

theorem branch_opening {entry merge : EdgeType} {els : Option Nat} (ht : Branching entry els merge)
    (hpc : m.pc = a) (hinst : inst.addr = a * 16)
    (hexec : exec data m = branch { m with «end» := q.isEnd } inst entry els merge e)
    (hend : q.isEnd = false) (hcur : ∃ b, m.graph.block? m.bb = some b ∧ b.succ = [])
    (hentry : m.graph.block? (a + 1) = none)
    (hels : ∀ ea, els = some ea → m.graph.block? ea = none ∧ ea ≠ a + 1 ∧ ea ≠ e) (he : e ≠ a + 1)
    (hT : Meets m.graph m.bb e T) :
    ∃ s, Opening data a els e T m s := by
  have ⟨b, hb, hsucc⟩ := hcur
  have hgrows : Grows m.graph (pushInstruction m inst).graph := grows_pushInstruction
  have hb' : (pushInstruction m inst).graph.block? m.bb = some _ := block?_pushInstruction_bb hb
  have hT' := hT.mono hgrows pushInstruction_isNone untouched_pushInstruction
  have ⟨g', hins, hopen⟩ := insertBranches_opened ht hb' hsucc (pushInstruction_isNone hentry)
    (fun ea hea => ⟨pushInstruction_isNone (hels ea hea).1, (hels ea hea).2⟩) he hT'
  have hmem : a * 16 ∈ BasicBlock.addrs { b with instructions := b.instructions ++ [inst] } := by
    unfold BasicBlock.addrs
    rw [map_append, map_singleton, hinst]
    simp
  refine ⟨{ m with
    «end» := q.isEnd, pc := m.pc + 1, bb := m.pc + 1, graph := g', endBlocks := m.endBlocks ++ [e]
    elseBlocks := m.elseBlocks ++ els.toList }, ?_, hend, by rw [hpc], by rw [hpc], ?_,
    hgrows.trans hopen.grows, ?_, ?_, hopen.entry, hopen.other, hopen.target, hopen.virgin,
    hopen.edges _ _ hb' hmem, ?_⟩
  · rw [hexec]
    show Option.map _ (insertBranches (pushInstruction m inst).graph m.bb m.pc entry els merge e) = _
    rw [hpc, hins, map_some]
  · intro i
    unfold Pending
    simp only [mem_append, mem_singleton, mem_toList]
    tauto
  · exact fun i hi => (untouched_pushInstruction hi).trans (hopen.untouched i hi)
  · exact fun i hi hie hin hn => hopen.isNone i hi hie hin (pushInstruction_isNone hn)
  · intro front ctx P hpre x hx
    rw [← hinst]
    exact (joined_push hpre hx).mono hopen.grows

/-- The state where the branches of an IF or LOOP meet, before the block there is started.  `F` and `Q` are
the instructions that follow each other and the last ones. -/
structure Ended (data : Nat → Quad) (last a e T : Nat) (F : Nat → Nat → Prop) (Q : Nat → Prop)
    (m s : CfgState) : Prop where
  run : Run data m s
  pc : s.pc = e
  fin : s.end = decide (e = last)
  grows : Grows m.graph s.graph
  pend : ∀ i, Pending m i → Pending s i
  pendEnd : Pending s e
  pendNew : ∀ i, Pending s i → Pending m i ∨ (a < i ∧ i ≤ e)
  untouched : ∀ i, i ≠ m.bb → i ≤ a ∨ e ≤ i → Untouched m.graph s.graph i
  isNone : ∀ i, i ≤ a ∨ e < i → m.graph.block? i = none → s.graph.block? i = none
  bbMem : a < s.bb ∧ s.bb < e
  bb : Front s.graph s.bb T ∨ IsMerge s.graph s.bb
  target : Target s.graph e T
  virgin : Virgin s.graph e
  pairs : ∀ x y, F x y → Joined s.graph x y
  exits : ∀ x, Q x → (IsLast s.graph s.bb x ∧ Front s.graph s.bb T) ∨ EdgeFrom s.graph x T

theorem Ended.imp {F F' : Nat → Nat → Prop} {Q' : Nat → Prop}
    (h : Ended data last a e T F Q m s) (hF : ∀ x y, F' x y → F x y) (hQ : ∀ x, Q' x → Q x) :
    Ended data last a e T F' Q' m s :=
  { h with
    pairs := fun x y hf => h.pairs x y (hF x y hf)
    exits := fun x hq => h.exits x (hQ x hq) }

section Branches

variable {els : Option Nat} {T ec : Nat} {cb : Code} {m₁ s₁ m₂ s₂ : CfgState}

section

variable (ho : Opening data a els e T m s)
include ho

theorem Opening.ready (hcode : Encodes data last cb (a + 1))
    (hne : cb ≠ .done) (hsize : ec = a + 1 + cb.size) (hlast : ec ≤ last) (hle : ec ≤ e)
    (hels : els = if ec = e then none else some ec) (hpend : ∀ i, a < i → i < e → ¬ Pending m i)
    (hblock : ∀ i, a < i → i < e → m.graph.block? i = none) :
    Ready data last cb (a + 1) ec true (some T) (· = a * 16) s where
  code := hcode
  ne := hne
  size := hsize
  le_last := hlast
  pc := ho.pc
  cur := by
    have ⟨b, hb, _, hsucc⟩ := ho.entry.1
    exact ⟨b, ho.bb ▸ hb, hsucc⟩
  le := by rw [ho.bb]
  noPend i hi hie := by
    rw [ho.pend, hels]
    rintro (h | h | h)
    · exact hpend i (by omega) (by omega) h
    · omega
    split at h
    · cases h
    · cases h
      omega
  noBlock i hi hie := by
    have hne' : els ≠ some i := by
      rw [hels]
      split
      · exact (some_ne_none i).symm
      · intro h
        cases h
        omega
    exact ho.isNone i (by omega) hne' (by omega) (hblock i (by omega) (by omega))
  top h := by cases h
  inner T' hT := by
    cases hT
    by_cases heq : ec = e
    · rw [heq]
      exact ⟨(ho.pend e).mpr (.inr (.inl rfl)), ho.target, ho.virgin⟩
    · rw [if_neg heq] at hels
      have ⟨hv, _, ht⟩ := ho.other ec hels
      exact ⟨(ho.pend ec).mpr (.inr (.inr hels)), ht, hv⟩
  bb T' hT := by
    cases hT
    rw [if_pos rfl, ho.bb]
    exact ho.entry.2
  pre x hx := by
    have ⟨b, hb, hnil, _⟩ := ho.entry.1
    rw [hx, ho.bb]
    refine .inr ⟨⟨b, hb, hnil⟩, ho.edges.1, ?_⟩
    intro T' hT _
    cases hT
    exact ho.edges.2.2

theorem Opening.run (hpend : ¬ Pending s (a + 1)) (hs : Run data s s₁) : Run data m s₁ :=
  .cons ho.exec ho.fin (enter_skip (ho.pc ▸ hpend)) hs

theorem Opening.passed (hae : a + 1 < e)
    (hels : ∀ i, els = some i → a < i ∧ i ≤ e) : Passed a e m s where
  grows := ho.grows
  pend i hi := (ho.pend i).mpr (.inl hi)
  pendNew i hi := by
    rcases (ho.pend i).mp hi with h | h | h
    · exact .inl h
    · exact .inr ⟨by omega, by omega⟩
    · exact .inr (hels i h)
  untouched i hi _ := ho.untouched i hi
  isNone i hout := ho.isNone i (by omega) (fun h => by have := hels i h; omega) (by omega)
  bbIn := by
    rw [ho.bb]
    omega

end

theorem Opening.ended (ho : Opening data a none e T m s) (hae : a + 1 < e)
    (hpend : ∀ i, a < i → i < e → ¬ Pending m i) (hpre : Before m.graph m.bb front ctx P)
    (hs : Scanned data last cb (a + 1) e true (some T) (· = a * 16) s s₁) :
    Ended data last a e T (fun x y => (P x ∧ y = a * 16) ∨ follows cb (a + 1) (· = a * 16) x y)
      (fun x => x = a * 16 ∨ (cb.blocked true = false ∧ lasts cb (a + 1) (· = a * 16) x)) m s₁ := by
  have hpend' : ¬ Pending s (a + 1) := by
    rw [ho.pend]
    rintro (h | h | h)
    · exact hpend _ (by omega) hae h
    · omega
    · cases h
  have hscan := hs.passed.mono (le_succ a) (le_refl e)
  have hpassed := (ho.passed hae nofun).trans hscan
  have hbb := ho.bb
  have hmem := hs.bbMem
  have hlt := hs.bbLt
  exact { hpassed with
    run := ho.run hpend' hs.run
    pc := hs.pc
    fin := hs.fin
    pendEnd := hs.pend e ((ho.pend e).mpr (.inr (.inl rfl)))
    bbMem := by omega
    bb := hs.bb T rfl
    target := ho.target.mono hs.grows
    virgin := ho.virgin.mono (hscan.untouched e (by omega) (.inr (le_refl e)))
    pairs := by
      rintro x y (⟨hx, hy⟩ | h)
      · rw [hy]
        exact (ho.joined front ctx P hpre x hx).mono hs.grows
      · exact hs.pairs x y h
    exits := by
      rintro x (hx | ⟨hb, hx⟩)
      · rw [hx]
        exact .inr (ho.edges.2.2.mono hs.grows)
      · exact hs.exits T rfl hb x hx }

theorem Entered.edgeFrom (hen : Entered s m T) {x : Nat}
    (h : (IsLast s.graph s.bb x ∧ Front s.graph s.bb T) ∨ EdgeFrom s.graph x T) : EdgeFrom m.graph x T := by
  rcases h with ⟨⟨b, hb, hlast⟩, hfront⟩ | hedge
  · exact hen.edge hfront b x hb (mem_of_getLast? hlast)
  · exact hedge.mono hen.grows

theorem Entered.pending (hen : Entered s m T) (i : Nat) : Pending m i ↔ Pending s i := by
  rw [hen.eq]
  exact Iff.rfl

theorem Entered.passed (hen : Entered s m T) (hlo : a < s.pc) (hhi : s.pc < e) : Passed a e s m where
  grows := hen.grows
  pend i := (hen.pending i).mpr
  pendNew i hi := .inl ((hen.pending i).mp hi)
  untouched i hi _ := hen.untouched i hi
  isNone i _ := hen.isNone i
  bbIn := by
    rw [hen.eq]
    exact .inr ⟨hlo, hhi⟩

theorem Opening.readyElse (ho : Opening data a (some ec) e T m s) (hece : ec < e) (haec : a + 1 < ec)
    (hcode : Encodes data last cb ec) (hne : cb ≠ .done) (hsize : e = ec + cb.size) (hlast : e ≤ last)
    (hpend : ∀ i, a < i → i < e → ¬ Pending m i) (hblock : ∀ i, a < i → i < e → m.graph.block? i = none)
    (hs : Scanned data last c (a + 1) ec true (some T) (· = a * 16) s s₁) (hen : Entered s₁ m₁ T) :
    Ready data last cb ec e true (some T) (· = a * 16) m₁ := by
  have hbb : m₁.bb = ec := by rw [hen.eq]; exact hs.pc
  have hpc : m₁.pc = ec := by rw [hen.eq]; exact hs.pc
  have hopen := ho.bb
  have hlt := hs.bbLt
  have hpassed : Passed a e s m₁ :=
    (hs.passed.mono (by omega) (by omega)).trans (hen.passed (by rw [hs.pc]; omega) (by rw [hs.pc]; omega))
  have hvirgin : Virgin m₁.graph ec := by
    have h1 := (ho.other ec rfl).1.mono (hs.untouched ec (by omega) (.inr (le_refl ec)))
    exact h1.mono (hen.untouched ec (by omega))
  have ⟨b, hb, hnil, hsucc⟩ := hvirgin
  refine ⟨hcode, hne, hsize, hlast, hpc, ⟨b, hbb ▸ hb, hsucc⟩, le_of_eq hbb, ?_, ?_, nofun, ?_, ?_, ?_⟩
  · intro i hi hie
    rw [hen.pending]
    intro h
    rcases hs.pendNew i h with h | h
    · rcases (ho.pend i).mp h with h | h | h
      · exact hpend i (by omega) hie h
      · omega
      · cases h
        omega
    · omega
  · intro i hi hie
    have hsome : some ec ≠ some i := by
      intro h
      cases h
      omega
    have hn := ho.isNone i (by omega) hsome (by omega) (hblock i (by omega) hie)
    exact hen.isNone i (hs.isNone i (.inr hi) hn)
  · rintro _ ⟨⟩
    exact ⟨hpassed.pend e ((ho.pend e).mpr (.inr (.inl rfl))), ho.target.mono hpassed.grows,
      ho.virgin.mono (hpassed.untouched e (by omega) (.inr (le_refl e)))⟩
  · rintro _ ⟨⟩
    rw [if_pos rfl, hbb]
    exact (ho.other ec rfl).2.1.mono hpassed.grows
  · intro x hx
    rw [hx, hbb]
    refine .inr ⟨⟨b, hb, hnil⟩, (ho.edges.2.1 ec rfl).mono hpassed.grows, ?_⟩
    rintro _ ⟨⟩ _
    exact ho.edges.2.2.mono hpassed.grows

theorem Opening.endedElse (ho : Opening data a (some ec) e T m s) (hece : ec < e) (haec : a + 1 < ec)
    (hlast : e ≤ last) (hpend : ∀ i, a < i → i < e → ¬ Pending m i) (hpre : Before m.graph m.bb front ctx P)
    (hs : Scanned data last c (a + 1) ec true (some T) (· = a * 16) s s₁)
    (henter : enter s₁ = some m₁) (hen : Entered s₁ m₁ T)
    (hs' : Scanned data last cb ec e true (some T) (· = a * 16) m₁ s₂) : Ended data last a e T
      (fun x y => (P x ∧ y = a * 16) ∨ follows c (a + 1) (· = a * 16) x y ∨ follows cb ec (· = a * 16) x y)
      (fun x => (c.blocked true = false ∧ lasts c (a + 1) (· = a * 16) x) ∨
        (cb.blocked true = false ∧ lasts cb ec (· = a * 16) x)) m s₂ := by
  have hfin : s₁.end = false := by
    rw [hs.fin, decide_eq_false_iff_not]
    omega
  have hpend' : ¬ Pending s (a + 1) := by
    rw [ho.pend]
    rintro (h | h | h)
    · exact hpend _ (by omega) (by omega) h
    · omega
    · cases h
      omega
  -- from the instruction on, through both branches
  have helse : Passed a e m₁ s₂ := hs'.passed.mono (by omega) (le_refl e)
  have hscan := ((hs.passed.mono (by omega) (by omega)).trans
    (hen.passed (by rw [hs.pc]; omega) (by rw [hs.pc]; omega))).trans helse
  have hpassed := (ho.passed (by omega) (by rintro _ ⟨⟩; omega)).trans hscan
  have hgrows := hen.grows.trans hs'.grows
  have hopen := ho.bb
  have hmem := hs'.bbMem
  have hlt := hs'.bbLt
  have hbb : m₁.bb = ec := by rw [hen.eq]; exact hs.pc
  exact { hpassed with
    run := ho.run hpend' (hs.run.trans hfin henter hs'.run)
    pc := hs'.pc
    fin := hs'.fin
    pendEnd := hscan.pend e ((ho.pend e).mpr (.inr (.inl rfl)))
    bbMem := by omega
    bb := hs'.bb T rfl
    target := ho.target.mono hscan.grows
    virgin := ho.virgin.mono (hscan.untouched e (by omega) (.inr (le_refl e)))
    pairs := by
      rintro x y (⟨hx, hy⟩ | h | h)
      · rw [hy]
        exact (ho.joined front ctx P hpre x hx).mono hscan.grows
      · exact (hs.pairs x y h).mono hgrows
      · exact hs'.pairs x y h
    exits := by
      rintro x (⟨hb, hx⟩ | ⟨hb, hx⟩)
      · exact .inr ((hen.edgeFrom (hs.exits T rfl hb x hx)).mono hs'.grows)
      · exact hs'.exits T rfl hb x hx }

end Branches

/-! ## What comes after the branches -/

section After

variable {F : Nat → Nat → Prop} {T e₂ : Nat} {m₂ : CfgState}

theorem Ended.scanned (he : Ended data last a e T F Q m s) (hT : ∀ T', ctx = some T' → T' = T)
    (hpairs : ∀ x y, follows c a P x y → F x y) (hlasts : ∀ x, lasts c a P x → Q x) :
    Scanned data last c a e front ctx P m s :=
  { he with
    bbLt := he.bbMem.2
    bbMem := .inr he.bbMem.1
    pairs := fun x y h => he.pairs x y (hpairs x y h)
    bb := fun T' hT' => hT T' hT' ▸ he.bb
    exits := fun T' hT' _ x hx => hT T' hT' ▸ he.exits x (hlasts x hx) }

theorem Ended.ready (he : Ended data last a e₂ e₂ F Q m s) (hr : Ready data last c a e front ctx P m)
    (hen : Entered s m₂ e₂) (hcode : Encodes data last rest e₂) (hne : rest ≠ .done)
    (hsize : e = e₂ + rest.size) : Ready data last rest e₂ e false ctx Q m₂ := by
  have hbb : m₂.bb = e₂ := by rw [hen.eq]; exact he.pc
  have hpos := hcode.size_pos hne
  have hmem := he.bbMem
  have hle := hr.le
  have hvirgin := he.virgin.mono (hen.untouched e₂ (by omega))
  have hpend : ∀ i, e₂ < i → Pending m₂ i → Pending m i := by
    intro i hi h
    rcases he.pendNew i ((hen.pending i).mp h) with h | h
    · exact h
    · omega
  refine ⟨hcode, hne, hsize, hr.le_last, by rw [hen.eq]; exact he.pc, ?_, le_of_eq hbb, ?_, ?_, ?_,
    ?_, ?_, ?_⟩
  · have ⟨b, hb, _, hsucc⟩ := hvirgin
    exact ⟨b, hbb ▸ hb, hsucc⟩
  · exact fun i hi hie h => hr.noPend i (by omega) hie (hpend i hi h)
  · exact fun i hi hie => hen.isNone i (he.isNone i (.inr hi) (hr.noBlock i (by omega) hie))
  · intro hctx
    have ⟨hn, hp⟩ := hr.top hctx
    exact ⟨hen.isNone e (he.isNone e (.inr (by omega)) hn), fun h => hp (hpend e (by omega) h)⟩
  · intro T hT
    have ⟨hp, ht, hv⟩ := hr.inner T hT
    refine ⟨(hen.pending e).mpr (he.pend e hp), (ht.mono he.grows).mono hen.grows, ?_⟩
    have h1 := hv.mono (he.untouched e (by omega) (.inr (by omega)))
    exact h1.mono (hen.untouched e (by omega))
  · intro T hT
    rw [if_neg Bool.false_ne_true, hbb]
    rcases he.target with ⟨hm, _⟩ | ⟨_, _, _, _, _, hlead⟩
    · exact hm.mono hen.grows
    · exact hlead.2.mono hen.grows
  · intro x hx
    have ⟨b, hb, hnil, _⟩ := hvirgin
    rw [hbb]
    exact .inr ⟨⟨b, hb, hnil⟩, hen.edgeFrom (he.exits x hx), nofun⟩

theorem Ended.append (he : Ended data last a e₂ e₂ F Q m s) (henter : enter s = some m₂)
    (hen : Entered s m₂ e₂) (hlt : e₂ < e) (hlast : e ≤ last) (hs : Scanned data last rest e₂ e false ctx Q m₂ s')
    (hpairs : ∀ x y, follows c a P x y → F x y ∨ follows rest e₂ Q x y)
    (hblocked : c.blocked front = rest.blocked false) (hlasts : ∀ x, lasts c a P x → lasts rest e₂ Q x) :
    Scanned data last c a e front ctx P m s' := by
  have hmem := he.bbMem
  have hended := Passed.mono { he with bbIn := .inr hmem } (le_refl a) (le_of_lt hlt)
  have hpassed := (hended.trans (hen.passed (by rw [he.pc]; omega) (by rw [he.pc]; exact hlt))).trans
    (hs.passed.mono (by omega) (le_refl e))
  have hfin : s.end = false := by
    rw [he.fin, decide_eq_false_iff_not]
    omega
  exact { hpassed with
    run := he.run.trans hfin henter hs.run
    pc := hs.pc
    fin := hs.fin
    bbLt := hs.bbLt
    bbMem := hpassed.bbIn.imp_right And.left
    pairs := fun x y h => (hpairs x y h).elim
      (fun hf => ((he.pairs x y hf).mono hen.grows).mono hs.grows) (hs.pairs x y)
    bb := hs.bb
    exits := fun T hT hb x hx => hs.exits T hT (hblocked ▸ hb) x (hlasts x hx) }

end After

/-! ## All code -/

theorem scan_branches {F : Nat → Nat → Prop} {e₂ : Nat} (hr : Ready data last c a e front ctx P m)
    (hae : a < e₂) (hsize : e = e₂ + rest.size) (hcode : Encodes data last rest e₂)
    (hended : ∀ T, Meets m.graph m.bb e₂ T → ∃ s, Ended data last a e₂ T F Q m s)
    (ih : ∀ m, rest ≠ .done → Ready data last rest e₂ e false ctx Q m →
      ∃ s, Scanned data last rest e₂ e false ctx Q m s)
    (hpairs : ∀ x y, follows c a P x y → F x y ∨ follows rest e₂ Q x y)
    (hlasts : ∀ x, lasts c a P x → lasts rest e₂ Q x)
    (hblocked : c.blocked front = (rest ≠ .done && rest.blocked false)) :
    ∃ s, Scanned data last c a e front ctx P m s := by
  by_cases hrest : rest = .done
  · -- the list ends where the branches meet
    subst hrest
    have he : e₂ = e := by
      simp only [Code.size] at hsize
      omega
    subst he
    have hpairs' : ∀ x y, follows c a P x y → F x y := by
      intro x y h
      rcases hpairs x y h with h | h
      · exact h
      · exact False.elim h
    cases hctx : ctx with
    | none =>
      obtain ⟨s, hs⟩ := hended e₂ (.inl ⟨(hr.top hctx).1, rfl⟩)
      exact ⟨s, hs.scanned (by rintro _ ⟨⟩) hpairs' hlasts⟩
    | some T =>
      obtain ⟨_, ht, hv⟩ := hr.inner T hctx
      have hle := hr.le
      obtain ⟨s, hs⟩ := hended T (.inr ⟨ht, hv, by omega⟩)
      exact ⟨s, hs.scanned (fun T' h => (some.inj h).symm) hpairs' hlasts⟩
  · have hpos := hcode.size_pos hrest
    obtain ⟨s, hs⟩ := hended e₂ (.inl ⟨hr.noBlock e₂ hae (by omega), rfl⟩)
    obtain ⟨m₂, henter, hen⟩ := enter_entered (hs.pc.symm ▸ hs.pendEnd) hs.bb
    have hready := hs.ready hr hen hcode hrest hsize
    obtain ⟨s', hs'⟩ := ih m₂ hrest hready
    refine ⟨s', hs.append henter hen (by omega) hr.le_last hs' hpairs ?_ hlasts⟩
    rw [hblocked]
    simp [hrest]

theorem exec_ife (hop : (data m.pc).decode.opcode = opIFE) :
    exec data m = execIf { m with «end» := (data m.pc).decode.isEnd } (data m.pc).decode
      { bytecode := (data m.pc).decode.words, addr := m.pc * 16, opcode := opIFE } := by
  unfold exec
  simp only [hop]
  rfl

theorem exec_loop (hop : (data m.pc).decode.opcode = opLOOP ∨ (data m.pc).decode.opcode = opREP) :
    exec data m = execLoop { m with «end» := (data m.pc).decode.isEnd } (data m.pc).decode
      { bytecode := (data m.pc).decode.words, addr := m.pc * 16, opcode := (data m.pc).decode.opcode } := by
  unfold exec
  rcases hop with hop | hop
  · simp only [hop]
    rfl
  · simp only [hop]
    rfl

section

variable (hr : Ready data last c a e front ctx P m)
include hr

theorem scan_simple (hexec : exec data m = some s)
    (ha : Advance last m s k) (hk : 0 < k) (hcode : Encodes data last rest (a + k))
    (hsize : c.size = k + rest.size) (hpre : Before s.graph s.bb front ctx Q)
    (ih : ∀ m, rest ≠ .done → Ready data last rest (a + k) e front ctx Q m →
      ∃ s, Scanned data last rest (a + k) e front ctx Q m s)
    (hpairs : ∀ x y, follows c a P x y → Joined s.graph x y ∨ follows rest (a + k) Q x y)
    (hlasts : ∀ x, lasts c a P x → lasts rest (a + k) Q x) (hblocked : c.blocked front = rest.blocked front) :
    ∃ s, Scanned data last c a e front ctx P m s := by
  have he := hr.size
  by_cases hrest : rest = .done
  · subst hrest
    simp only [Code.size] at hsize
    refine ⟨s, .single hr hexec ha (by omega) hpre ?_ hblocked hlasts⟩
    intro x y h
    rcases hpairs x y h with h | h
    · exact h
    · exact False.elim h
  · have hpos := hcode.size_pos hrest
    obtain ⟨s', hs'⟩ := ih s hrest (hr.next ha hcode hrest hsize hpre)
    exact ⟨s', .cons hr hexec ha hk (by omega) hs' hpairs hblocked hlasts⟩

theorem scan_empty (hexec : exec data m = some { m with pc := m.pc + 1, «end» := (data a).decode.isEnd })
    (hend : (data a).decode.isEnd = decide (a + 1 = last)) (hcode : Encodes data last rest (a + 1))
    (hsize : c.size = 1 + rest.size)
    (ih : ∀ m, rest ≠ .done → Ready data last rest (a + 1) e front ctx P m →
      ∃ s, Scanned data last rest (a + 1) e front ctx P m s)
    (hpairs : ∀ x y, follows c a P x y → follows rest (a + 1) P x y)
    (hlasts : ∀ x, lasts c a P x → lasts rest (a + 1) P x)
    (hblocked : c.blocked front = rest.blocked front) :
    ∃ s, Scanned data last c a e front ctx P m s :=
  scan_simple hr hexec (advance_skip (by rw [hr.pc]; exact hend)) Nat.one_pos hcode hsize hr.pre ih
    (fun x y h => .inr (hpairs x y h)) hlasts hblocked

theorem ended_ife {thn els : Code}
    (hop : (data a).decode.opcode = opIFE) (helse : (data a).decode.elseAddr = a + 1 + thn.size)
    (hendA : (data a).decode.endAddr = a + 1 + thn.size + els.size)
    (hisEnd : (data a).decode.isEnd = decide (a + 1 = last))
    (hthn : Encodes data last thn (a + 1)) (hels : Encodes data last els (a + 1 + thn.size))
    (hne : ¬ (thn = .done ∧ els = .done)) (hle : a + 1 + thn.size + els.size ≤ e)
    (ihThn : ∀ m, Ready data last thn (a + 1) (a + 1 + thn.size) true (some T) (· = a * 16) m →
      ∃ s, Scanned data last thn (a + 1) (a + 1 + thn.size) true (some T) (· = a * 16) m s)
    (ihEls : ∀ m, Ready data last els (a + 1 + thn.size) (a + 1 + thn.size + els.size) true (some T)
        (· = a * 16) m → ∃ s, Scanned data last els (a + 1 + thn.size) (a + 1 + thn.size + els.size) true
          (some T) (· = a * 16) m s) (hT : Meets m.graph m.bb (a + 1 + thn.size + els.size) T) :
    ∃ s, Ended data last a (a + 1 + thn.size + els.size) T
      (fun x y => (P x ∧ y = a * 16) ∨ follows thn (a + 1) (· = a * 16) x y ∨
        follows els (a + 1 + thn.size) (· = a * 16) x y)
      (fun x => (thn.blocked true = false ∧ lasts thn (a + 1) (· = a * 16) x) ∨
        (els.blocked true = false ∧ lasts els (a + 1 + thn.size) (· = a * 16) x)) m s := by
  have hpc := hr.pc
  subst hpc
  have hlast := hr.le_last
  have hpend : ∀ i, m.pc < i → i < m.pc + 1 + thn.size + els.size → ¬ Pending m i :=
    fun i hi hie => hr.noPend i hi (by omega)
  have hblock : ∀ i, m.pc < i → i < m.pc + 1 + thn.size + els.size → m.graph.block? i = none :=
    fun i hi hie => hr.noBlock i hi (by omega)
  have hexec := exec_ife hop
  unfold execIf at hexec
  by_cases ht : thn = .done
  · -- the ELSE branch takes the place of the first one
    subst ht
    have hels' := fun h => hne ⟨rfl, h⟩
    have hpos := hels.size_pos hels'
    simp only [Code.size, Nat.add_zero] at *
    rw [if_neg (by omega), if_pos helse, hendA] at hexec
    obtain ⟨s, hs⟩ := branch_opening (.ife none) rfl rfl hexec (by rw [hisEnd]; simp; omega) hr.cur
      (hblock (m.pc + 1) (by omega) (by omega)) (by rintro _ ⟨⟩) (by omega) hT
    have hready := hs.ready hels hels' rfl (by omega) (le_refl _) (by rw [if_pos rfl]) hpend hblock
    obtain ⟨s₁, hs1⟩ := ihEls s hready
    refine ⟨s₁, (hs.ended (by omega) hpend hr.pre hs1).imp ?_ ?_⟩
    · rintro x y (h | h | h)
      · exact .inl h
      · exact False.elim h
      · exact .inr h
    · rintro x (⟨_, h⟩ | h)
      · exact .inl h
      · exact .inr h
  · have hpos := hthn.size_pos ht
    rw [if_neg (by simp only; omega), if_neg (by simp only; omega)] at hexec
    by_cases he : els = .done
    · subst he
      simp only [Code.size, Nat.add_zero] at *
      rw [if_pos (by omega), hendA] at hexec
      obtain ⟨s, hs⟩ := branch_opening (.ife none) rfl rfl hexec (by rw [hisEnd]; simp; omega) hr.cur
        (hblock (m.pc + 1) (by omega) (by omega)) (by rintro _ ⟨⟩) (by omega) hT
      have hready := hs.ready hthn ht rfl (by omega) (Nat.le_refl _) (by rw [if_pos rfl]) hpend hblock
      obtain ⟨s₁, hs1⟩ := ihThn s hready
      refine ⟨s₁, (hs.ended (by omega) hpend hr.pre hs1).imp ?_ ?_⟩
      · rintro x y (h | h | h)
        · exact .inl h
        · exact .inr h
        · exact False.elim h
      · rintro x (h | ⟨_, h⟩)
        · exact .inr h
        · exact .inl h
    · have hpos' := hels.size_pos he
      rw [if_neg (by omega), helse, hendA] at hexec
      obtain ⟨s, hs⟩ := branch_opening (.ife (some (m.pc + 1 + thn.size))) rfl rfl hexec
        (by rw [hisEnd]; simp; omega) hr.cur (hblock (m.pc + 1) (by omega) (by omega))
        (fun ea h => by cases h; exact ⟨hblock _ (by omega) (by omega), by omega, by omega⟩) (by omega) hT
      have hready := hs.ready hthn ht rfl (by omega) (by omega) (by rw [if_neg (by omega)]) hpend hblock
      obtain ⟨s₁, hs1⟩ := ihThn s hready
      have hpend1 : Pending s₁ s₁.pc := by
        rw [hs1.pc]
        exact hs1.pend _ ((hs.pend _).mpr (.inr (.inr rfl)))
      obtain ⟨m₁, henter, hen⟩ := enter_entered hpend1 (hs1.bb T rfl)
      have hready2 := hs.readyElse (by omega) (by omega) hels he rfl (by omega) hpend hblock hs1 hen
      obtain ⟨s₂, hs2⟩ := ihEls m₁ hready2
      exact ⟨s₂, hs.endedElse (by omega) (by omega) (by omega) hpend hr.pre hs1 henter hen hs2⟩

theorem ended_loop {body : Code} (hop : (data a).decode.opcode = opLOOP ∨ (data a).decode.opcode = opREP)
    (hendA : (data a).decode.endAddr = a + 1 + body.size)
    (hisEnd : (data a).decode.isEnd = decide (a + 1 = last)) (hbody : Encodes data last body (a + 1))
    (hne : body ≠ .done) (hle : a + 1 + body.size ≤ e)
    (ih : ∀ m, Ready data last body (a + 1) (a + 1 + body.size) true (some T) (· = a * 16) m →
      ∃ s, Scanned data last body (a + 1) (a + 1 + body.size) true (some T) (· = a * 16) m s)
    (hT : Meets m.graph m.bb (a + 1 + body.size) T) : ∃ s, Ended data last a (a + 1 + body.size) T
      (fun x y => (P x ∧ y = a * 16) ∨ follows body (a + 1) (· = a * 16) x y)
      (fun x => x = a * 16 ∨ (body.blocked true = false ∧ lasts body (a + 1) (· = a * 16) x)) m s := by
  have hpc := hr.pc
  subst hpc
  have hlast := hr.le_last
  have hpos := hbody.size_pos hne
  have hpend : ∀ i, m.pc < i → i < m.pc + 1 + body.size → ¬ Pending m i := fun i hi hie => hr.noPend i hi (by omega)
  have hblock : ∀ i, m.pc < i → i < m.pc + 1 + body.size → m.graph.block? i = none :=
    fun i hi hie => hr.noBlock i hi (by omega)
  have hexec := exec_loop hop
  unfold execLoop at hexec
  rw [if_neg (by simp only; omega), hendA] at hexec
  have ⟨s, hs⟩ := branch_opening .loop rfl rfl hexec (by rw [hisEnd]; simp; omega) hr.cur
    (hblock (m.pc + 1) (by omega) (by omega)) (by rintro _ ⟨⟩) (by omega) hT
  have hready := hs.ready hbody hne rfl (by omega) (le_refl _) (by rw [if_pos rfl]) hpend hblock
  have ⟨s₁, hs1⟩ := ih s hready
  exact ⟨s₁, hs.ended (by omega) hpend hr.pre hs1⟩

theorem scan_code : ∃ s, Scanned data last c a e front ctx P m s := by
  induction c generalizing a e front ctx P m with
  | done => exact absurd rfl hr.ne
  | nop n rest ih =>
    obtain ⟨hop, hn, hend, hcode⟩ := hr.code
    have hpos := (data a).decode.nopSize_pos
    have hpc := hr.pc
    subst hpc
    exact scan_simple hr (exec_nop hop hn) (advance_skip hend) (by omega) hcode rfl hr.pre
      (fun _ _ h => ih h) (fun x y h => .inr h) (fun x h => h) rfl
  | op n rest ih =>
    obtain ⟨hop, hn, hend, hcode⟩ := hr.code
    have hpos := (data a).decode.opSize_pos
    have hpc := hr.pc
    subst hpc
    obtain ⟨inst, haddr, hexec⟩ := exec_op hop hn
    refine scan_simple hr hexec (advance_push hend) (by omega) hcode rfl ?_
      (fun _ _ h => ih h) ?_ (fun x h => h) rfl
    · intro x hx
      rw [hx, ← haddr]
      exact .inl (isLast_push hr.cur)
    · rintro x y (⟨hx, hy⟩ | h)
      · rw [hy, ← haddr]
        exact .inl (joined_push hr.pre hx)
      · exact .inr h
  | ife thn els rest ihThn ihEls ih =>
    obtain ⟨hop, helse, hendA, hend, hthn, hels, hcode⟩ := hr.code
    have hsize := hr.size
    simp only [Code.size] at hsize
    by_cases hempty : thn = .done ∧ els = .done
    · have hpc := hr.pc
      subst hpc
      obtain ⟨ht, he⟩ := hempty
      subst ht he
      simp only [Code.size, Nat.add_zero] at hendA hcode
      have hexec := exec_ife hop
      unfold execIf at hexec
      rw [if_pos hendA] at hexec
      apply scan_empty hr hexec hend hcode (by simp only [Code.size]) (fun _ _ h => ih h)
      · intro x y h
        simpa only [follows, and_self, if_true] using h
      · intro x h
        simpa only [lasts, and_self, if_true] using h
      · simp only [Code.blocked, and_self, if_true]
    · apply scan_branches hr (by omega) (by omega) hcode
        (fun T hT => ended_ife hr hop helse hendA hend hthn hels hempty (by omega) (fun _ h => ihThn h)
          (fun _ h => ihEls h) hT) (fun _ _ h => ih h)
      · intro x y h
        simp only [follows, hempty, if_false] at h
        tauto
      · intro x h
        simpa only [lasts, hempty, if_false] using h
      · simp only [Code.blocked, hempty, if_false]
  | loop body rest ihBody ih =>
    obtain ⟨hop, hendA, hend, hbody, hcode⟩ := hr.code
    have hsize := hr.size
    simp only [Code.size] at hsize
    by_cases hempty : body = .done
    · have hpc := hr.pc
      subst hpc hempty
      simp only [Code.size, Nat.add_zero] at hendA hcode
      have hexec := exec_loop hop
      unfold execLoop at hexec
      rw [if_pos hendA] at hexec
      apply scan_empty hr hexec hend hcode (by simp only [Code.size]) (fun _ _ h => ih h)
      · intro x y h
        simpa only [follows, if_true] using h
      · intro x h
        simpa only [lasts, if_true] using h
      · simp only [Code.blocked, if_true]
    · apply scan_branches hr (by omega) (by omega) hcode
        (fun T hT => ended_loop hr hop hendA hend hbody hempty (by omega) (fun _ h => ihBody h) hT)
        (fun _ _ h => ih h)
      · intro x y h
        simp only [follows, hempty, if_false] at h
        tauto
      · intro x h
        simpa only [lasts, hempty, if_false] using h
      · simp only [Code.blocked, hempty, if_false]

end

end Runs

end Armsx3.Rsx
