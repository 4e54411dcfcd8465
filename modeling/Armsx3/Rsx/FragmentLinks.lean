import Armsx3.Rsx.FragmentTraces

/-!
# FragmentLinks — the edges of the flow graph of a fragment program

Two things are not covered: the graph has no edges back to the start of a loop body, and a branch that ends in
a block where other branches have met gets no edge at its end.
-/

namespace Armsx3.Rsx

open List Option

variable {data : Nat → Quad} {s m : CfgState} {g : FlowGraph} {x y : Nat}

/-- `y` follows `x` inside a block, or the block of `x` has a successor that starts with `y`. -/
def Linked (g : FlowGraph) (x y : Nat) : Prop :=
  (∃ b ∈ g.blocks, [x, y] <:+: b.addrs) ∨
    ∃ b ∈ g.blocks, x ∈ b.addrs ∧ ∃ e ∈ b.succ, ∃ c ∈ g.blocks, c.id = e.target ∧ c.addrs.head? = some y

instance (g : FlowGraph) (x y : Nat) : Decidable (Linked g x y) := inferInstanceAs (Decidable (_ ∨ _))

/-! ## The number of iterations -/

theorem enter_pc_end (h : enter s = some m) : m.pc = s.pc ∧ m.end = s.end := by
  unfold enter at h
  split at h
  · have ⟨g, _, hm⟩ := map_eq_some_iff.mp h
    subst hm
    exact ⟨rfl, rfl⟩
  · cases h
    exact ⟨rfl, rfl⟩

theorem branch_pc_lt {inst : Instruction} {entry merge : EdgeType} {els : Option Nat} {e : Nat}
    (h : branch m inst entry els merge e = some s) : m.pc < s.pc := by
  have ⟨g, _, hs⟩ := map_eq_some_iff.mp h
  subst hs
  show m.pc < m.pc + 1
  omega

theorem exec_pc_lt (h : exec data m = some s) : m.pc < s.pc := by
  unfold exec at h
  dsimp only at h
  split at h
  · cases h
    show m.pc < m.pc + (if _ then 1 else 0) + 1
    omega
  split at h
  · cases h
  split at h
  · cases h
    show m.pc < m.pc + 1
    omega
  split at h
  · unfold execIf at h
    split at h
    · cases h
      show m.pc < m.pc + 1
      omega
    split at h
    · have hlt := branch_pc_lt h
      exact hlt
    split at h
    · have hlt := branch_pc_lt h
      exact hlt
    · have hlt := branch_pc_lt h
      exact hlt
  split at h
  · unfold execLoop at h
    split at h
    · cases h
      show m.pc < m.pc + 1
      omega
    · have hlt := branch_pc_lt h
      exact hlt
  split at h
  · cases h
    show m.pc < m.pc + 1 + 1
    omega
  · cases h
    show m.pc < m.pc + 1
    omega

theorem scan_of_end (h : s.end = true) (fuel : Nat) : scan data fuel s = some s := by
  cases fuel with
  | zero => exact if_pos h
  | succ => exact if_pos h

theorem Run.pc_lt (h : Run data m s) : m.pc < s.pc := by
  induction h with
  | single h => exact exec_pc_lt h
  | cons hexec _ henter =>
    have hlt := exec_pc_lt hexec
    have hpc := (enter_pc_end henter).1
    omega

theorem Run.scan (h : Run data m s) (hs : s.end = true) {s0 : CfgState} (h0 : s0.end = false)
    (henter : enter s0 = some m) {fuel : Nat} (hfuel : s.pc ≤ s0.pc + fuel) : scan data fuel s0 = some s := by
  induction h generalizing s0 fuel with
  | single hexec =>
    have hlt := exec_pc_lt hexec
    have hpc := (enter_pc_end henter).1
    cases fuel with
    | zero => omega
    | succ n =>
      simp only [Rsx.scan, h0, Bool.false_eq_true, if_false, step, henter, bind_some, hexec]
      exact scan_of_end hs n
  | cons hexec hgo henter' hrun ih =>
    have hlt := exec_pc_lt hexec
    have hpc := (enter_pc_end henter).1
    cases fuel with
    | zero =>
      have hlt' := hrun.pc_lt
      have hpc' := (enter_pc_end henter').1
      omega
    | succ =>
      simp only [Rsx.scan, h0, Bool.false_eq_true, if_false, step, henter, bind_some, hexec]
      exact ih hs hgo henter' (by omega)

/-! ## The sorted graph -/

theorem mem_blocks_sortGraph {b : BasicBlock} : b ∈ (sortGraph g).blocks ↔ ∃ b' ∈ g.blocks, sortEdges b' = b := by
  simp only [sortGraph, mem_mergeSort, List.mem_map]

theorem linked_sortGraph : Linked (sortGraph g) x y ↔ Linked g x y := by
  have hsucc : ∀ (b : BasicBlock) (e : FlowEdge), e ∈ (sortEdges b).succ ↔ e ∈ b.succ := fun b e => mem_mergeSort
  constructor
  · intro h
    rcases h with ⟨b, hb, hxy⟩ | ⟨b, hb, hx, e, he, c, hc, hid, hy⟩
    · have ⟨b', hb', heq⟩ := mem_blocks_sortGraph.mp hb
      subst heq
      exact .inl ⟨b', hb', hxy⟩
    · have ⟨b', hb', heq⟩ := mem_blocks_sortGraph.mp hb
      have ⟨c', hc', heq'⟩ := mem_blocks_sortGraph.mp hc
      subst heq heq'
      exact .inr ⟨b', hb', hx, e, (hsucc b' e).mp he, c', hc', hid, hy⟩
  · intro h
    have hmem : ∀ b ∈ g.blocks, sortEdges b ∈ (sortGraph g).blocks := fun b hb => mem_blocks_sortGraph.mpr ⟨b, hb, rfl⟩
    rcases h with ⟨b, hb, hxy⟩ | ⟨b, hb, hx, e, he, c, hc, hid, hy⟩
    · exact .inl ⟨_, hmem b hb, hxy⟩
    · exact .inr ⟨_, hmem b hb, hx, e, (hsucc b e).mpr he, _, hmem c hc, hid, hy⟩

theorem Joined.linked (h : Joined g x y) : Linked g x y := by
  rcases h with ⟨i, b, hb, hxy⟩ | ⟨i, c, ⟨j, b, e, hb, hx, he, hi⟩, hc, hy⟩
  · exact .inl ⟨b, mem_of_find?_eq_some hb, hxy⟩
  have hid : c.id = e.target := by
    rw [hi]
    exact FlowGraph.id_of_block? hc
  exact .inr ⟨b, mem_of_find?_eq_some hb, hx, e, he, c, mem_of_find?_eq_some hc, hid, hy⟩

/-! ## The graph of a program -/

theorem block?_start (i : Nat) : start.graph.block? i = if i = 0 then some {} else none := by
  by_cases hi : i = 0
  · rw [if_pos hi, hi]
    rfl
  · rw [if_neg hi]
    have hne : ¬ (0 = i) := fun h => hi h.symm
    simp [start, FlowGraph.block?, hne]

theorem not_pending_start (i : Nat) : ¬ Pending start i := by
  intro h
  rcases h with h | h
  · cases h
  · cases h

theorem ready_start {c : Code} (hne : c ≠ .done) (hc : Encodes data c.size c 0) :
    Ready data c.size c 0 c.size true none (fun _ => False) start where
  code := hc
  ne := hne
  size := by omega
  le_last := Nat.le_refl _
  pc := rfl
  cur := ⟨{}, rfl, rfl⟩
  le := Nat.le_refl _
  noPend := fun i _ _ => not_pending_start i
  noBlock := fun i hi _ => by rw [block?_start, if_neg (by omega)]
  top := fun _ => by
    have hpos := hc.size_pos hne
    exact ⟨by rw [block?_start, if_neg (by omega)], not_pending_start _⟩
  inner := fun _ h => by cases h
  bb := fun _ h => by cases h
  pre := fun _ h => h.elim

/-- Instructions that can be executed one after the other are linked in the graph, if the second is not the start of a
loop body that is repeated and no branch is left whose last IF or LOOP is followed by more. -/
theorem deconstruct_links {p : Code} {fuel : Nat} (hp : p ≠ .done) (hdata : Encodes data p.size p 0)
    (hfuel : p.size ≤ fuel) : ∃ g, deconstructFragmentProgram data fuel = some g ∧
      ∀ x y, Consecutive p x y → x < y → ¬ Crosses p 0 x y → Linked g x y := by
  have ⟨s, hs⟩ := scan_code (ready_start hp hdata)
  have hend : s.end = true := by
    rw [hs.fin]
    exact decide_eq_true rfl
  have henter : enter start = some start := if_neg (not_pending_start 0)
  have hpc : s.pc ≤ start.pc + fuel := by
    have hpc := hs.pc
    omega
  have hscan := hs.run.scan hend rfl henter hpc
  refine ⟨sortGraph s.graph, ?_, ?_⟩
  · rw [deconstructFragmentProgram, hscan]
    rfl
  · intro x y hxy hlt hcross
    have ⟨t, ht, hinf⟩ := hxy
    have hfollows : follows p 0 (fun _ => False) x y := Executes.follows_infix hdata ht hlt hinf hcross
    exact linked_sortGraph.mpr (hs.pairs x y hfollows).linked

def nestedCode : Code :=
  .ife (.op 1 (.ife (.op 1 .done) .done (.op 1 .done))) .done
    (.op 1 (.loop (.op 1 (.op 1 .done)) (.op 1 .done)))

def nestedData (a : Nat) : Quad :=
  Quad.decode <| match a with
    | 0 => ⟨0x02000000, 0, 0x80000014, 20⟩
    | 2 => ⟨0x02000000, 0, 0x80000010, 16⟩
    | 6 => ⟨0x03000000, 0, 0x80000000, 36⟩
    | 9 => ⟨0x01000001, 0, 0, 0⟩
    | _ => ⟨0x01000000, 0, 0, 0⟩

theorem deconstruct_links_nested :
    nestedCode ≠ .done ∧ Encodes nestedData nestedCode.size nestedCode 0 ∧ nestedCode.size ≤ 10 ∧
    ∃ g, deconstructFragmentProgram nestedData 10 = some g ∧
      ∀ x y, Consecutive nestedCode x y → x < y → ¬ Crosses nestedCode 0 x y → Linked g x y :=
  ⟨by decide, by decide +kernel, by decide, deconstruct_links (by decide) (by decide +kernel) (by decide)⟩

/-- The end of the outer branch of `nestedCode`, in the block where the inner branch has ended, is not linked
with the instruction that follows the branch; and the end of the loop body is not linked with its start. -/
theorem not_linked_nested : Encodes nestedData nestedCode.size nestedCode 0 ∧
    ∃ g, deconstructFragmentProgram nestedData 10 = some g ∧ (Consecutive nestedCode 64 80 ∧ ¬ Linked g 64 80) ∧
      (Consecutive nestedCode 128 112 ∧ ¬ Linked g 128 112) := by
  have hcode : Encodes nestedData nestedCode.size nestedCode 0 := by decide +kernel
  have hscan : (scan nestedData 10 start).any
      (fun s => ¬ Linked s.graph 64 80 ∧ ¬ Linked s.graph 128 112) = true := by decide +kernel
  have ⟨s, hs, hlinked⟩ := (any_eq_true _ _).mp hscan
  have ⟨hbranch, hloop⟩ := of_decide_eq_true hlinked
  -- both branches are taken, and the loop is repeated
  have hthn : Executes (.op 1 (.ife (.op 1 .done) .done (.op 1 .done))) 1 [16, 32, 48, 64] := by
    refine ⟨[32, 48, 64], rfl, ?_⟩
    exact ⟨[48], [64], rfl, .inl ⟨[], rfl, rfl⟩, [], rfl, rfl⟩
  have hbody : Executes (.op 1 (.op 1 .done)) 7 [112, 128] := ⟨[128], rfl, [], rfl, rfl⟩
  have htrace : Executes nestedCode 0 [0, 16, 32, 48, 64, 80, 96, 112, 128, 112, 128, 144] := by
    refine ⟨[16, 32, 48, 64], [80, 96, 112, 128, 112, 128, 144], rfl, .inl hthn, [96, 112, 128, 112, 128, 144], rfl, ?_⟩
    refine ⟨[[112, 128], [112, 128]], [144], rfl, ?_, [], rfl, rfl⟩
    intro u hu
    have hu : u = [112, 128] := by simpa using hu
    rw [hu]
    exact hbody
  refine ⟨hcode, sortGraph s.graph, ?_, ⟨⟨_, htrace, by decide⟩, ?_⟩, ⟨⟨_, htrace, by decide⟩, ?_⟩⟩
  · rw [deconstructFragmentProgram, hs]
    rfl
  · exact fun h => hbranch (linked_sortGraph.mp h)
  · exact fun h => hloop (linked_sortGraph.mp h)

end Armsx3.Rsx
