import Mathlib

/-!
# SpuFailedBlocks — the ranges that could not be compiled

`m_map` is the list of its entries in the order of their keys, as the iterators see it.  Addresses are only compared,
so they are natural numbers.
-/

namespace Armsx3.Cell.SpuFailedBlocks

open List

abbrev Ranges := List (Nat × Nat)

/-- What stands in front of `m_map.upper_bound(addr)`. -/
def before (m : Ranges) (addr : Nat) : Ranges := m.takeWhile (·.1 ≤ addr)

def upperBound (m : Ranges) (addr : Nat) : Ranges := m.dropWhile (·.1 ≤ addr)

def rangeOf (m : Ranges) (addr : Nat) : Nat × Nat :=
  match (before m addr).getLast? with
  | none => (0, 0)
  | some it => if addr ≥ it.1 ∧ addr < it.2 then it else (0, 0)

def contains (m : Ranges) (addr : Nat) : Bool := (rangeOf m addr).2 > (rangeOf m addr).1

/-- The loop of `mark` from `it` on, and the new entry. -/
def absorb (start stop : Nat) : Ranges → Ranges
  | [] => [(start, stop)]
  | it :: rest => if it.1 ≤ stop then absorb start (max stop it.2) rest else (start, stop) :: it :: rest

def merge (m : Ranges) (start stop : Nat) : Ranges :=
  match (before m start).getLast? with
  | none => absorb start stop (upperBound m start)
  | some prev =>
    if prev.2 ≥ start then (before m start).dropLast ++ absorb prev.1 (max stop prev.2) (upperBound m start)
    else before m start ++ absorb start stop (upperBound m start)

def mark (m : Ranges) (start stop : Nat) : Ranges × Bool :=
  if stop ≤ start then (m, false)
  else if (rangeOf m start).2 ≥ stop ∧ (rangeOf m start).1 ≤ start then (m, false)
  else (merge m start stop, true)

/-- The loop of `is_disjoint`. -/
def isDisjoint (lastEnd : Nat) (first : Bool) : Ranges → Bool
  | [] => true
  | it :: rest => if it.2 ≤ it.1 then false else if !first && it.1 ≤ lastEnd then false else isDisjoint it.2 false rest

inductive Call where
  | mark (start stop : Nat)
  | clear

def Call.apply (m : Ranges) : Call → Ranges
  | .mark start stop => (SpuFailedBlocks.mark m start stop).1
  | .clear => []

/-- The ranges that were marked since the last `clear`. -/
def Call.log (l : Ranges) : Call → Ranges
  | .mark start stop => (start, stop) :: l
  | .clear => []

def Covered (m : Ranges) (a : Nat) : Prop := ∃ x ∈ m, x.1 ≤ a ∧ a < x.2

structure Maximal (S : Nat → Prop) (a : Nat) (range : Nat × Nat) : Prop where
  mem : range.1 ≤ a ∧ a < range.2
  inside : ∀ x, range.1 ≤ x → x < range.2 → S x
  left : ∀ x, x + 1 = range.1 → ¬S x
  right : ¬S range.2

/-! ## Ranges with gaps -/

/-- From `lo` on there are non-empty ranges, with a gap between two of them. -/
def Separate : Nat → Ranges → Prop
  | _, [] => True
  | lo, x :: m => lo ≤ x.1 ∧ x.1 < x.2 ∧ Separate (x.2 + 1) m

variable {m : Ranges} {x y : Nat × Nat} {a lo b e : Nat}

theorem covered_cons : Covered (x :: m) a ↔ (x.1 ≤ a ∧ a < x.2) ∨ Covered m a := by
  simp only [Covered, mem_cons, or_and_right, exists_or, exists_eq_left]

theorem Separate.mono (h : Separate lo m) {n : Nat} (hlo : n ≤ lo) : Separate n m := by
  cases m with
  | nil => trivial
  | cons => exact ⟨hlo.trans h.1, h.2⟩

theorem Separate.head (h : Separate lo (x :: m)) : Separate x.1 (x :: m) := ⟨le_refl _, h.2⟩

theorem Separate.bounds (h : Separate lo m) (hx : x ∈ m) : lo ≤ x.1 ∧ x.1 < x.2 := by
  induction m generalizing lo with
  | nil => cases hx
  | cons y m ih =>
    have ⟨hlo, hy, hm⟩ := h
    rcases mem_cons.mp hx with rfl | hx
    · exact ⟨hlo, hy⟩
    · have := ih hm hx
      omega

theorem Separate.pairwise (h : Separate lo m) : m.Pairwise fun x y => x.2 < y.1 := by
  induction m generalizing lo with
  | nil => exact .nil
  | cons x m ih => exact pairwise_cons.mpr ⟨fun y hy => (h.2.2.bounds hy).1, ih h.2.2⟩

theorem Separate.apart (h : Separate lo m) (hx : x ∈ m) (hy : y ∈ m) (ha : y.1 ≤ a ∧ a < y.2) :
    a + 1 ≠ x.1 ∧ a ≠ x.2 := by
  have hsymm : Std.Symm fun x y : Nat × Nat => x.2 < y.1 ∨ y.2 < x.1 := ⟨fun _ _ => Or.symm⟩
  have hpair : m.Pairwise fun x y => x.2 < y.1 ∨ y.2 < x.1 := h.pairwise.imp .inl
  have hne := (h.bounds hx).2
  by_cases heq : x = y
  · subst heq
    omega
  · have := hpair.forall hx hy heq
    omega

theorem Separate.maximal (h : Separate lo m) (hx : x ∈ m) (ha : x.1 ≤ a ∧ a < x.2) : Maximal (Covered m) a x where
  mem := ha
  inside := fun _ hlo hhi => ⟨x, hx, hlo, hhi⟩
  left := fun _ hb ⟨_, hy, hin⟩ => (h.apart hx hy hin).1 hb
  right := fun ⟨_, hy, hin⟩ => (h.apart hx hy hin).2 rfl

/-! ## The lookup -/

theorem before_of_lt (h : Separate lo m) (hlo : a < lo) : before m a = [] ∧ upperBound m a = m := by
  cases m with
  | nil => exact ⟨rfl, rfl⟩
  | cons x =>
    have hx := not_le.mpr (hlo.trans_le h.1)
    simp [before, upperBound, hx]

theorem before_cons (hx : x.1 ≤ a) : before (x :: m) a = x :: before m a ∧ upperBound (x :: m) a = upperBound m a := by
  simp [before, upperBound, hx]

theorem rangeOf_cons (h : Separate lo (x :: m)) :
    rangeOf (x :: m) a = if a < x.1 then (0, 0) else if a < x.2 then x else rangeOf m a := by
  unfold rangeOf
  split_ifs with hlt hin
  · rw [(before_of_lt h.head hlt).1]
    rfl
  · rw [(before_cons (by omega)).1, (before_of_lt h.2.2 (by omega)).1]
    exact if_pos (show a ≥ x.1 ∧ a < x.2 from ⟨by omega, hin⟩)
  · rw [(before_cons (by omega)).1]
    cases before m a with
    | nil => exact if_neg fun hc => hin hc.2
    | cons => rw [getLast?_cons_cons]

/-- The one range that is looked at is the one that has the address. -/
theorem rangeOf_spec (h : Separate lo m) :
    (rangeOf m a ∈ m ∧ (rangeOf m a).1 ≤ a ∧ a < (rangeOf m a).2) ∨ (¬Covered m a ∧ rangeOf m a = (0, 0)) := by
  induction m generalizing lo with
  | nil => exact .inr ⟨by rintro ⟨_, ⟨⟩, _⟩, rfl⟩
  | cons x m ih =>
    rw [rangeOf_cons h, covered_cons]
    split_ifs with hlt hin
    · refine .inr ⟨?_, rfl⟩
      rintro (hx | ⟨y, hy, hlo, _⟩)
      · omega
      · have := h.2.2.bounds hy
        have := h.2.1
        omega
    · exact .inl ⟨mem_cons_self, by omega, hin⟩
    · rcases ih h.2.2 with ⟨hmem, hb⟩ | ⟨hnot, hzero⟩
      · exact .inl ⟨mem_cons_of_mem _ hmem, hb⟩
      · exact .inr ⟨by rintro (hx | hx); omega; exact hnot hx, hzero⟩

theorem contains_iff (h : Separate lo m) : contains m a = true ↔ Covered m a := by
  rw [contains, decide_eq_true_iff]
  rcases rangeOf_spec h with ⟨hmem, hlo, hhi⟩ | ⟨hnot, hzero⟩
  · exact iff_of_true (by omega) ⟨_, hmem, hlo, hhi⟩
  · rw [hzero]
    exact iff_of_false (by decide) hnot

/-! ## `mark` -/

theorem absorb_spec (h : Separate (b + 1) m) (hs : b < e) : Separate b (absorb b e m) ∧
    ∀ a, Covered (absorb b e m) a ↔ (b ≤ a ∧ a < e) ∨ Covered m a := by
  induction m generalizing e with
  | nil => exact ⟨⟨le_refl _, hs, trivial⟩, fun a => covered_cons⟩
  | cons x m ih =>
    have ⟨hlo, hx, hm⟩ := h
    unfold absorb
    split_ifs with hle
    · have ⟨hsep, hcov⟩ := ih (e := max e x.2) (hm.mono (by omega)) (by omega)
      refine ⟨hsep, fun a => (hcov a).trans ?_⟩
      rw [covered_cons, ← or_assoc]
      exact or_congr_left (by omega)
    · exact ⟨⟨le_refl _, hs, by omega, hx, hm⟩, fun a => covered_cons⟩

theorem merge_cons (h : Separate lo (x :: m)) : merge (x :: m) b e = if x.2 < b then x :: merge m b e
    else if x.1 ≤ b then absorb x.1 (max e x.2) m
    else absorb b e (x :: m) := by
  have ⟨_, hx, hm⟩ := h
  unfold merge
  split_ifs with hlt hle
  · rw [(before_cons (by omega)).1, (before_cons (by omega)).2]
    cases before m b with
    | nil => exact if_neg (show ¬x.2 ≥ b by omega)
    | cons =>
      rw [getLast?_cons_cons, getLast?_cons]
      dsimp only
      split <;> rfl
  · rw [(before_cons hle).1, (before_cons hle).2, (before_of_lt hm (by omega)).1, (before_of_lt hm (by omega)).2]
    exact if_pos (show x.2 ≥ b by omega)
  · have ⟨hb, hu⟩ := before_of_lt (a := b) h.head (by omega)
    rw [hb, hu]
    rfl

theorem merge_spec (h : Separate lo m) (hs : b < e) : Separate (min lo b) (merge m b e) ∧
    ∀ a, Covered (merge m b e) a ↔ (b ≤ a ∧ a < e) ∨ Covered m a := by
  induction m generalizing lo with
  | nil => exact ⟨⟨by omega, hs, trivial⟩, fun a => covered_cons⟩
  | cons x m ih =>
    have ⟨hlo, hx, hm⟩ := h
    rw [merge_cons h]
    split_ifs with hlt hle
    · have ⟨hsep, hcov⟩ := ih hm
      rw [min_eq_left (by omega)] at hsep
      refine ⟨⟨by omega, hx, hsep⟩, fun a => ?_⟩
      rw [covered_cons, covered_cons, hcov]
      exact or_left_comm
    · have ⟨hsep, hcov⟩ := absorb_spec (e := max e x.2) (hm.mono (n := x.1 + 1) (by omega)) (by omega)
      refine ⟨hsep.mono (by omega), fun a => (hcov a).trans ?_⟩
      rw [covered_cons, ← or_assoc]
      exact or_congr_left (by omega)
    · have ⟨hsep, hcov⟩ := absorb_spec (m := x :: m) ⟨by omega, hx, hm⟩ hs
      exact ⟨hsep.mono (by omega), hcov⟩

theorem mark_spec (h : Separate 0 m) : Separate 0 (mark m b e).1 ∧
    (∀ a, Covered (mark m b e).1 a ↔ (b ≤ a ∧ a < e) ∨ Covered m a) ∧
    ((mark m b e).2 = true ↔ ∃ a, (b ≤ a ∧ a < e) ∧ ¬Covered m a) := by
  have hold (hall : ∀ a, b ≤ a ∧ a < e → Covered m a) : Separate 0 m ∧
      (∀ a, Covered m a ↔ (b ≤ a ∧ a < e) ∨ Covered m a) ∧
      (false = true ↔ ∃ a, (b ≤ a ∧ a < e) ∧ ¬Covered m a) :=
    ⟨h, fun a => (or_iff_right_of_imp (hall a)).symm, iff_of_false nofun fun ⟨a, ha, hnot⟩ => hnot (hall a ha)⟩
  have hspec := rangeOf_spec (a := b) h
  unfold mark
  split
  · exact hold fun a ha => by omega
  split
  next hcov =>
    rcases hspec with ⟨hmem, _⟩ | ⟨_, hzero⟩
    · exact hold fun a ha => ⟨_, hmem, by omega, by omega⟩
    · rw [hzero] at hcov
      omega
  next hempty hcov =>
    have ⟨hsep, hc⟩ := merge_spec h (b := b) (e := e) (by omega)
    refine ⟨hsep.mono (by omega), hc, iff_of_true rfl ?_⟩
    -- the range ends where the covering one does, or the first address is new
    rcases hspec with ⟨hmem, hin⟩ | ⟨hnot, _⟩
    · exact ⟨(rangeOf m b).2, by omega, (h.maximal hmem hin).right⟩
    · exact ⟨b, by omega, hnot⟩

theorem calls_spec (calls : List Call) (h : Separate 0 m) {l : Ranges} (hl : ∀ a, Covered m a ↔ Covered l a) :
    Separate 0 (calls.foldl Call.apply m) ∧
      ∀ a, Covered (calls.foldl Call.apply m) a ↔ Covered (calls.foldl Call.log l) a := by
  induction calls generalizing m l with
  | nil => exact ⟨h, hl⟩
  | cons call calls ih =>
    cases call with
    | mark b e =>
      have ⟨hsep, hcov, _⟩ := mark_spec (b := b) (e := e) h
      refine ih hsep fun a => (hcov a).trans ?_
      rw [hl]
      exact (covered_cons (x := (b, e))).symm
    | clear => exact ih (m := []) trivial fun _ => Iff.rfl

/-- After any calls; `l` are the ranges marked since the last `clear`. -/
theorem failed_blocks (calls : List Call) :
    let m := calls.foldl Call.apply []
    let l := calls.foldl Call.log []
    (∀ a, contains m a = true ↔ Covered l a) ∧ (∀ a, Covered l a → Maximal (Covered l) a (rangeOf m a)) ∧
    (∀ a, ¬Covered l a → rangeOf m a = (0, 0)) ∧
    (∀ start stop, (mark m start stop).2 = true ↔ ∃ a, contains (mark m start stop).1 a = true ∧ contains m a = false) ∧
    (∀ x ∈ m, x.1 < x.2) ∧ m.Pairwise fun x y => x.2 < y.1 := by
  intro m l
  have ⟨h, hl⟩ : Separate 0 m ∧ ∀ a, Covered m a ↔ Covered l a := calls_spec (m := []) calls trivial fun _ => Iff.rfl
  have hset := funext fun a => propext (hl a)
  rw [← hset]
  refine ⟨fun a => contains_iff h, fun a ha => ?_, fun a ha => ?_, fun start stop => ?_, fun x hx => (h.bounds hx).2,
    h.pairwise⟩
  · rcases rangeOf_spec h with ⟨hmem, hin⟩ | ⟨hnot, _⟩
    · exact h.maximal hmem hin
    · exact absurd ha hnot
  · rcases rangeOf_spec h with ⟨hmem, hin⟩ | ⟨_, hzero⟩
    · exact absurd ⟨_, hmem, hin⟩ ha
    · exact hzero
  · have ⟨hsep, hcov, hret⟩ := mark_spec (b := start) (e := stop) h
    refine hret.trans (exists_congr fun a => ?_)
    rw [contains_iff hsep, hcov, ← Bool.not_eq_true, contains_iff h]
    tauto

/-! ## One table for a set -/

@[grind →]
theorem Separate.le_of_covered (h : Separate lo m) : Covered m a → lo ≤ a := fun ⟨_, hx, hle, _⟩ =>
  (h.bounds hx).1.trans hle

theorem Separate.unique {n : Ranges} (h : Separate lo m) (hn : Separate b n) (heq : ∀ a, Covered m a ↔ Covered n a) :
    m = n := by
  induction m generalizing lo b n with
  | nil =>
    cases n with
    | nil => rfl
    | cons y => simpa [covered_cons, Covered, hn.2.1] using heq y.1
  | cons x m ih =>
    cases n with
    | nil => simpa [covered_cons, Covered, h.2.1] using heq x.1
    | cons y n =>
      simp only [covered_cons] at heq
      -- each head accounts for where the other starts and ends
      obtain rfl : x = y := by
        have := heq x.1
        have := heq y.1
        have := heq x.2
        have := heq y.2
        ext <;> grind [Separate]
      rw [ih h.2.2 hn.2.2 fun a => by grind [Separate]]

/-- The order of the marks and their overlaps leave no trace. -/
theorem table_canonical (calls calls' : List Call) : calls.foldl Call.apply [] = calls'.foldl Call.apply [] ↔
    ∀ a, Covered (calls.foldl Call.log []) a ↔ Covered (calls'.foldl Call.log []) a := by
  have ⟨h, hl⟩ := calls_spec (m := []) calls trivial fun _ => .rfl
  have ⟨h', hl'⟩ := calls_spec (m := []) calls' trivial fun _ => .rfl
  simp only [← hl, ← hl']
  exact ⟨fun heq a => by rw [heq], h.unique h'⟩

theorem isDisjoint_iff {first : Bool} : isDisjoint b first m = true ↔ Separate (if first then 0 else b + 1) m := by
  induction m generalizing b first with
  | nil => exact iff_of_true rfl trivial
  | cons x m ih => grind [isDisjoint, Separate]

/-- It accepts the tables that calls can make, and no others. -/
theorem isDisjoint_exact : isDisjoint 0 true m = true ↔ ∃ calls : List Call, calls.foldl Call.apply [] = m := by
  rw [isDisjoint_iff]
  constructor
  · intro h
    have ⟨hsep, hcov⟩ := calls_spec (m := []) (m.reverse.map fun x => .mark x.1 x.2) trivial fun _ => .rfl
    refine ⟨_, hsep.unique h fun a => (hcov a).trans ?_⟩
    simp [foldr_map, Call.log]
  · rintro ⟨calls, rfl⟩
    exact (calls_spec (m := []) calls trivial fun _ => .rfl).1

end Armsx3.Cell.SpuFailedBlocks
