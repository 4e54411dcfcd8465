import Armsx3.Library.Loop

/-!
# AddressRange — vectors of address ranges as sets of addresses

`merge` and `exclude` run over the entries once and change entries behind the loop.  Up to their order, the valid
entries are those of two functions on lists.  The neighbours of a range are computed modulo `2 ^ 32`: a range that ends
at the last address touches one that starts at 0, and the two become a range of all addresses.
-/

namespace Armsx3.Util

open List

@[ext]
structure AddressRange where
  start : BitVec 32
  last : BitVec 32
deriving DecidableEq

namespace AddressRange

def valid (r : AddressRange) : Bool := decide (r.start ≤ r.last)

def invalidate : AddressRange := ⟨0xffffffff, 0⟩

def nextAddress (r : AddressRange) : BitVec 32 := r.last + 1

def prevAddress (r : AddressRange) : BitVec 32 := r.start - 1

def overlaps (r other : AddressRange) : Bool := decide (r.start ≤ other.last ∧ other.start ≤ r.last)

def overlapsAddress (r : AddressRange) (addr : BitVec 32) : Bool := decide (r.start ≤ addr ∧ addr ≤ r.last)

def inside (r other : AddressRange) : Bool := decide (other.start ≤ r.start ∧ r.last ≤ other.last)

def touches (r other : AddressRange) : Bool :=
  r.overlaps other || other.start == r.nextAddress || other.last == r.prevAddress

def getMinMax (r other : AddressRange) : AddressRange :=
  let start₁ := if r.valid then r.start else 0xffffffff
  let start₂ := if other.valid then other.start else 0xffffffff
  let last₁ := if r.valid then r.last else 0
  let last₂ := if other.valid then other.last else 0
  ⟨if start₂ < start₁ then start₂ else start₁, if last₁ < last₂ then last₂ else last₁⟩

instance : Membership (BitVec 32) AddressRange := ⟨fun r a => r.start ≤ a ∧ a ≤ r.last⟩

/-- The ranges overlap or are side by side. -/
def Meets (a b : AddressRange) : Prop :=
  a.start.toNat ≤ b.last.toNat + 1 ∧ b.start.toNat ≤ a.last.toNat + 1

/-- The ranges are at the two ends of the address space. -/
def Wraps (a b : AddressRange) : Prop :=
  a.last = 0xffffffff ∧ b.start = 0 ∨ a.start = 0 ∧ b.last = 0xffffffff

def Disjoint (a b : AddressRange) : Prop := ∀ x ∈ a, x ∉ b

end AddressRange

abbrev AddressRangeVector := List AddressRange

namespace AddressRangeVector

/-! ## The loops -/

/-- `data` are the entries up to the current one; `found` and `invalid` are positions in it. -/
structure MergeLoop where
  data : List AddressRange := []
  found : Option Nat := none
  invalid : Option Nat := none

def mergeStep (newRange : AddressRange) (s : MergeLoop) (existing : AddressRange) : MergeLoop :=
  if existing.valid = false then { s with data := s.data ++ [existing], invalid := some s.data.length }
  else if existing.touches newRange then
    match s.found with
    | some i => { s with data := s.data.modify i (·.getMinMax existing) ++ [.invalidate] }
    | none => { s with data := s.data ++ [existing.getMinMax newRange], found := some s.data.length }
  else { s with data := s.data ++ [existing] }

def merge (data : AddressRangeVector) (newRange : AddressRange) : AddressRangeVector :=
  if newRange.valid = false then data
  else
    let s := data.foldl (mergeStep newRange) {}
    match s.found, s.invalid with
    | some _, _ => s.data
    | none, some i => s.data.set i newRange
    | none, none => s.data ++ [newRange]

/-- `pushed` are the entries that were pushed back behind the ones the loop runs over. -/
structure ExcludeLoop where
  data : List AddressRange := []
  pushed : List AddressRange := []
  invalid : Option Nat := none

def excludeStep (exclusion : AddressRange) (s : ExcludeLoop) (existing : AddressRange) : ExcludeLoop :=
  if existing.valid = false then { s with data := s.data ++ [existing], invalid := some s.data.length }
  else if existing.overlaps exclusion = false then { s with data := s.data ++ [existing] }
  else
    match exclusion.overlapsAddress existing.start, exclusion.overlapsAddress existing.last with
    | true, true => { s with data := s.data ++ [.invalidate], invalid := some s.data.length }
    | true, false => { s with data := s.data ++ [{ existing with start := exclusion.nextAddress }] }
    | false, true => { s with data := s.data ++ [{ existing with last := exclusion.prevAddress }] }
    | false, false =>
      let head := { existing with last := exclusion.prevAddress }
      let tail := { existing with start := exclusion.nextAddress }
      match s.invalid with
      | some i => { s with data := s.data.set i tail ++ [head], invalid := none }
      | none => { s with data := s.data ++ [head], pushed := s.pushed ++ [tail] }

def exclude (data : AddressRangeVector) (exclusion : AddressRange) : AddressRangeVector :=
  if exclusion.valid = false then data
  else
    let s := data.foldl (excludeStep exclusion) {}
    s.data ++ s.pushed

def checkConsistency : AddressRangeVector → Bool
  | [] => true
  | r₁ :: rest => (!r₁.valid || rest.all fun r₂ => !r₂.valid || !r₁.touches r₂) && checkConsistency rest

def overlaps (data : AddressRangeVector) (range : AddressRange) : Bool :=
  data.any fun cur => cur.valid && cur.overlaps range

def contains (data : AddressRangeVector) (range : AddressRange) : Bool :=
  data.any fun cur => cur.valid && cur.inside range

def inside (data : AddressRangeVector) (range : AddressRange) : Bool :=
  data.all fun cur => !cur.valid || cur.inside range

def Denotes (data : AddressRangeVector) (a : BitVec 32) : Prop := ∃ r ∈ data, a ∈ r

end AddressRangeVector

/-! ## Two ranges -/

namespace AddressRange

variable {a b r x : AddressRange} {y : BitVec 32}

theorem mem_def : y ∈ r ↔ r.start ≤ y ∧ y ≤ r.last := Iff.rfl

theorem valid_iff : r.valid ↔ r.start ≤ r.last := decide_eq_true_iff

theorem invalid_iff : r.valid = false ↔ ¬r.start ≤ r.last := decide_eq_false_iff_not

theorem not_mem_of_invalid (h : r.valid = false) : y ∉ r := by
  rw [invalid_iff] at h
  rw [mem_def]
  bv_omega

theorem inside_iff : a.inside b ↔ b.start ≤ a.start ∧ a.last ≤ b.last := decide_eq_true_iff

theorem not_touches_iff : a.touches b = false ↔
    ¬(a.start ≤ b.last ∧ b.start ≤ a.last) ∧ b.start ≠ a.last + 1 ∧ b.last ≠ a.start - 1 := by
  simp only [touches, overlaps, nextAddress, prevAddress, Bool.or_eq_false_iff, decide_eq_false_iff_not,
    beq_eq_false_iff_ne, and_assoc]

section

variable (ha : a.valid)
include ha

section

variable (hb : b.valid)
include hb

theorem touches_iff : a.touches b ↔ a.Meets b ∨ a.Wraps b := by
  rw [valid_iff] at ha hb
  rw [← not_iff_not, Bool.not_eq_true, not_touches_iff]
  simp only [Meets, Wraps]
  bv_omega

theorem getMinMax_eq : a.getMinMax b =
    ⟨if b.start < a.start then b.start else a.start, if a.last < b.last then b.last else a.last⟩ := by
  simp only [getMinMax, ha, hb, if_true]

theorem mem_getMinMax (h : a.Meets b) : y ∈ a.getMinMax b ↔ y ∈ a ∨ y ∈ b := by
  rw [getMinMax_eq ha hb]
  unfold Meets at h
  simp only [mem_def]
  split <;> split <;> bv_omega

theorem getMinMax_comm : a.getMinMax b = b.getMinMax a := by
  rw [getMinMax_eq ha hb, getMinMax_eq hb ha]
  congr 1 <;> split <;> split <;> bv_omega

theorem inside_getMinMax : a.inside (a.getMinMax b) = true ∧ b.inside (a.getMinMax b) = true := by
  rw [getMinMax_eq ha hb, inside_iff, inside_iff]
  split <;> split <;> bv_omega

theorem valid_getMinMax : (a.getMinMax b).valid := by
  rw [getMinMax_eq ha hb]
  rw [valid_iff] at ha hb ⊢
  split <;> split <;> bv_omega

end

theorem valid_of_inside (h : a.inside b) : b.valid := by
  rw [inside_iff] at h
  rw [valid_iff] at ha ⊢
  bv_omega

end

/-- Why `merge` and `exclude` keep the valid entries apart. -/
structure Separation (R : AddressRange → AddressRange → Prop) : Prop where
  symm : ∀ {a b}, R a b → R b a
  apart : ∀ {a b}, a.touches b = false → R a b
  hull : ∀ {x a b}, x.valid → a.valid → b.valid → a.Meets b → R x a → R x b → R x (a.getMinMax b)
  sub : ∀ {x a b}, x.valid → a.valid → a.inside b → R x b → R x a

theorem separation_disjoint : Separation Disjoint where
  symm h y hy hx := h y hx hy
  apart {a b} h y hy := by
    rw [not_touches_iff] at h
    rw [mem_def] at hy ⊢
    bv_omega
  hull _ ha hb hm hxa hxb y hy := by
    rw [mem_getMinMax ha hb hm]
    exact fun h => h.elim (hxa y hy) (hxb y hy)
  sub {x a b} _ _ hab h y hy hya := by
    rw [inside_iff] at hab
    have hyb : y ∈ b := by
      rw [mem_def] at hya ⊢
      bv_omega
    exact h y hy hyb

theorem untouched_iff (ha : a.valid) (hb : b.valid) : a.touches b = false ↔ ¬a.Meets b ∧ ¬a.Wraps b := by
  rw [← Bool.not_eq_true, touches_iff ha hb, not_or]

theorem separation_untouched : Separation fun a b => a.touches b = false where
  symm {a b} h := by
    rw [not_touches_iff] at h ⊢
    bv_omega
  apart h := h
  hull {x a b} hx ha hb hm hxa hxb := by
    rw [untouched_iff hx ha] at hxa
    rw [untouched_iff hx hb] at hxb
    rw [untouched_iff hx (valid_getMinMax ha hb), getMinMax_eq ha hb]
    rw [valid_iff] at hx ha hb
    simp only [Meets, Wraps] at hm hxa hxb ⊢
    split <;> split <;> bv_omega
  sub {x a b} hx ha hab h := by
    rw [untouched_iff hx (valid_of_inside ha hab)] at h
    rw [untouched_iff hx ha]
    rw [inside_iff] at hab
    simp only [Meets, Wraps] at h ⊢
    bv_omega

def outside (exclusion existing : AddressRange) : List AddressRange :=
  if existing.overlaps exclusion = false then [existing]
  else
    match exclusion.overlapsAddress existing.start, exclusion.overlapsAddress existing.last with
    | true, true => []
    | true, false => [{ existing with start := exclusion.nextAddress }]
    | false, true => [{ existing with last := exclusion.prevAddress }]
    | false, false => [{ existing with last := exclusion.prevAddress }, { existing with start := exclusion.nextAddress }]

theorem outside_cases {P : List AddressRange → Prop} (hall : ¬(a.start ≤ r.last ∧ r.start ≤ a.last) → P [a])
    (hnone : r.start ≤ a.start → a.last ≤ r.last → P [])
    (htail : r.start ≤ a.start → a.start ≤ r.last → r.last < a.last → P [{ a with start := r.nextAddress }])
    (hhead : a.start < r.start → r.start ≤ a.last → a.last ≤ r.last → P [{ a with last := r.prevAddress }])
    (htwo : a.start < r.start → r.last < a.last →
      P [{ a with last := r.prevAddress }, { a with start := r.nextAddress }]) : P (outside r a) := by
  unfold outside overlaps
  split
  next h =>
    exact hall (decide_eq_false_iff_not.mp h)
  rename_i h
  rw [Bool.not_eq_false, decide_eq_true_eq] at h
  split <;> rename_i h1 h2 <;>
    simp only [overlapsAddress, decide_eq_true_eq, decide_eq_false_iff_not] at h1 h2
  · exact hnone h1.1 h2.2
  · exact htail h1.1 h1.2 (by bv_omega)
  · exact hhead (by bv_omega) h2.1 h2.2
  · exact htwo (by bv_omega) (by bv_omega)

theorem outside_spec (hr : r.valid) (ha : a.valid) :
    (∀ x ∈ outside r a, x.valid ∧ x.inside a) ∧ ((∃ x ∈ outside r a, y ∈ x) ↔ y ∈ a ∧ y ∉ r) := by
  have hrv := valid_iff.mp hr
  have hav := valid_iff.mp ha
  apply outside_cases (P := fun l => (∀ x ∈ l, x.valid ∧ x.inside a) ∧
    ((∃ x ∈ l, y ∈ x) ↔ y ∈ a ∧ y ∉ r)) <;> intros <;>
    simp only [mem_cons, not_mem_nil, or_false, forall_eq_or_imp, forall_eq, exists_eq_or_imp, exists_eq_left,
      false_and, exists_false, false_iff, IsEmpty.forall_iff, implies_true, true_and, valid_iff, inside_iff, mem_def, nextAddress,
      prevAddress] <;> bv_omega

end AddressRange

open AddressRange (Separation outside touches mem_def valid_iff not_mem_of_invalid)

namespace AddressRangeVector

variable {v pre xs ys : AddressRangeVector} {a b r e f : AddressRange} {y : BitVec 32}
  {R : AddressRange → AddressRange → Prop}

def live (v : AddressRangeVector) : AddressRangeVector := v.filter (·.valid)

theorem live_append : live (xs ++ ys) = live xs ++ live ys := filter_append ..

theorem live_cons_valid (h : e.valid) : live (e :: ys) = e :: live ys := filter_cons_of_pos h

theorem live_cons_invalid (h : e.valid = false) : live (e :: ys) = live ys := filter_cons_of_neg (by rw [h]; decide)

theorem live_middle (h : e.valid) : (live (xs ++ e :: ys)).Perm (e :: live (xs ++ ys)) := by
  rw [live_append, live_append, live_cons_valid h]
  exact perm_middle

theorem denotes_nil : ¬Denotes [] y := fun ⟨_, hnil, _⟩ => nomatch hnil

theorem denotes_cons : Denotes (r :: ys) y ↔ y ∈ r ∨ Denotes ys y := by
  simp only [Denotes, mem_cons, or_and_right, exists_or, exists_eq_left]

theorem denotes_perm (h : xs.Perm ys) : Denotes xs y ↔ Denotes ys y := by
  simp only [Denotes, h.mem_iff]

theorem denotes_filter (p : AddressRange → Bool) :
    Denotes (v.filter p) y ∨ Denotes (v.filter fun e => !p e) y ↔ Denotes v y := by
  rw [← denotes_perm (filter_append_perm p v)]
  simp only [Denotes, mem_append, or_and_right, exists_or]

theorem denotes_live : Denotes (live v) y ↔ Denotes v y := by
  constructor
  · intro ⟨e, he, hy⟩
    exact ⟨e, (mem_filter.mp he).1, hy⟩
  · intro ⟨e, he, hy⟩
    refine ⟨e, mem_filter.mpr ⟨he, ?_⟩, hy⟩
    by_contra hv
    exact not_mem_of_invalid (Bool.eq_false_iff.mpr hv) hy

/-- A position of an entry that can be used again. -/
def Slot (v : AddressRangeVector) (i : Nat) : Prop := ∃ xs e ys, v = xs ++ e :: ys ∧ xs.length = i ∧ e.valid = false

theorem Slot.set {i : Nat} (h : Slot v i) (he : e.valid) : (live (v.set i e)).Perm (e :: live v) := by
  have ⟨xs, b, ys, hv, hi, hb⟩ := h
  have hlive : live v = live (xs ++ ys) := by rw [hv, live_append, live_append, live_cons_invalid hb]
  rw [hlive, hv, ← hi, set_append_right _ _ (Nat.le_refl _), Nat.sub_self, set_cons_zero]
  exact live_middle he

theorem Slot.snoc {i : Nat} (h : Slot v i) : Slot (v ++ [e]) i := by
  have ⟨xs, b, ys, hv, hi, hb⟩ := h
  exact ⟨xs, b, ys ++ [e], by rw [hv, append_assoc, cons_append], hi, hb⟩

theorem Slot.last (h : e.valid = false) : Slot (v ++ [e]) v.length := ⟨v, e, [], rfl, rfl, h⟩

/-! ## Merging -/

/-- The hull of a range and the valid entries that touch it. -/
def hull (r : AddressRange) (v : AddressRangeVector) : AddressRange :=
  ((live v).filter (·.touches r)).foldl AddressRange.getMinMax r

def rest (r : AddressRange) (v : AddressRangeVector) : AddressRangeVector := (live v).filter (!·.touches r)

/-- Behind the entries `pre`: either none of them touches the range, or one entry has become the hull. -/
inductive Merging (r : AddressRange) (pre : AddressRangeVector) : MergeLoop → Prop
  | search {invalid : Option Nat} : rest r pre = live pre → hull r pre = r →
      (∀ i, invalid = some i → Slot pre i) → Merging r pre ⟨pre, none, invalid⟩
  | found {data xs ys : AddressRangeVector} {invalid : Option Nat} : data = xs ++ hull r pre :: ys →
      live (xs ++ ys) = rest r pre → Merging r pre ⟨data, some xs.length, invalid⟩

theorem rest_snoc : rest r (pre ++ [e]) = rest r pre ++ if e.valid && !e.touches r then [e] else [] := by
  cases hv : e.valid <;> cases ht : e.touches r <;> simp [rest, live, hv, ht]

theorem hull_snoc : hull r (pre ++ [e]) = if e.valid && e.touches r then (hull r pre).getMinMax e else hull r pre := by
  cases hv : e.valid <;> cases ht : e.touches r <;> simp [hull, live, hv, ht]

theorem modify_middle (g : AddressRange → AddressRange) : (xs ++ f :: ys).modify xs.length g = xs ++ g f :: ys := by
  induction xs with
  | nil => rfl
  | cons x xs ih => exact congrArg (x :: ·) ih

theorem Merging.keep {s : MergeLoop} {invalid : Option Nat} (h : Merging r pre s)
    (he : (e.valid && e.touches r) = false) (hslot : ∀ i, invalid = some i → s.invalid = some i ∨
      i = s.data.length ∧ e.valid = false) :
    Merging r (pre ++ [e]) { s with data := s.data ++ [e], invalid := invalid } := by
  have hhull : hull r (pre ++ [e]) = hull r pre := by rw [hull_snoc, he]; rfl
  have hrest : rest r (pre ++ [e]) = rest r pre ++ live [e] := by
    rw [rest_snoc]
    cases hv : e.valid <;> cases ht : e.touches r <;> simp_all [live]
  cases h with
  | search hnone hr hs =>
    refine .search ?_ (hhull.trans hr) fun i hi => ?_
    · rw [hrest, hnone, live_append]
    · rcases hslot i hi with hi | ⟨hi, hv⟩
      · exact (hs i hi).snoc
      · exact hi ▸ Slot.last hv
  | @found data xs ys _ hdata hlive =>
    have hdata' : data ++ [e] = xs ++ hull r (pre ++ [e]) :: (ys ++ [e]) := by
      rw [hdata, hhull, append_assoc, cons_append]
    refine .found hdata' ?_
    rw [← append_assoc, live_append, hlive, hrest]

theorem Merging.step {s : MergeLoop} (hr : r.valid) (h : Merging r pre s) :
    Merging r (pre ++ [e]) (mergeStep r s e) := by
  unfold mergeStep
  by_cases hv : e.valid = false
  · rw [if_pos hv]
    exact h.keep (by rw [hv]; rfl) fun i hi => .inr ⟨(Option.some.inj hi).symm, hv⟩
  rw [if_neg hv]
  by_cases ht : e.touches r
  · rw [if_pos ht]
    have hboth : (e.valid && e.touches r) = true := by rw [ht, eq_true_of_ne_false hv]; rfl
    have hhull : hull r (pre ++ [e]) = (hull r pre).getMinMax e := by rw [hull_snoc, if_pos hboth]
    have hrest : rest r (pre ++ [e]) = rest r pre := by rw [rest_snoc, ht, Bool.not_true, Bool.and_false]; simp
    cases h with
    | search hnone hr' =>
      have hdata' : pre ++ [e.getMinMax r] = pre ++ hull r (pre ++ [e]) :: [] := by
        rw [hhull, hr', AddressRange.getMinMax_comm (eq_true_of_ne_false hv) hr]
      exact .found hdata' (by rw [append_nil, hrest, hnone])
    | @found data xs ys _ hdata hlive =>
      have hdata' : data.modify xs.length (·.getMinMax e) ++ [.invalidate] =
          xs ++ hull r (pre ++ [e]) :: (ys ++ [.invalidate]) := by
        rw [hdata, hhull, modify_middle, append_assoc, cons_append]
      refine .found hdata' ?_
      rw [← append_assoc, live_append, hlive, hrest]
      exact append_nil _
  · rw [if_neg ht]
    exact h.keep (by rw [Bool.eq_false_iff.mpr ht, Bool.and_false]) fun i hi => .inl hi

theorem merge_live (hr : r.valid) (hhull : (hull r v).valid) : (live (merge v r)).Perm (hull r v :: rest r v) := by
  have hloop : Merging r v (v.foldl (mergeStep r) {}) :=
    Loop.foldl_rule (.search rfl rfl fun _ hi => by cases hi) fun _ _ _ _ _ h => h.step hr
  unfold merge
  rw [if_neg (by rw [hr]; decide)]
  generalize v.foldl (mergeStep r) {} = s at hloop
  cases hloop with
  | found hdata hlive =>
    simp only [hdata]
    rw [← hlive]
    exact live_middle hhull
  | @search invalid hnone hr' hslot =>
    rw [hnone, hr']
    cases invalid with
    | none =>
      simp only [live_append, live_cons_valid hr]
      exact perm_append_singleton _ _
    | some i => exact (hslot i rfl).set hr

/-! ## Excluding -/

theorem live_between {l : AddressRangeVector} (h : (live (xs ++ ys)).Perm l) :
    (live (xs ++ [e] ++ ys)).Perm (l ++ live [e]) := by
  rw [append_assoc, live_append, live_append]
  refine (perm_append_comm_assoc _ _ _).trans (perm_append_comm.trans ?_)
  rw [← live_append]
  exact h.append_right _

theorem excludeStep_live {s : ExcludeLoop} (hr : r.valid)
    (h : (live (s.data ++ s.pushed)).Perm ((live pre).flatMap (outside r)) ∧ ∀ i, s.invalid = some i → Slot s.data i) :
    (live ((excludeStep r s e).data ++ (excludeStep r s e).pushed)).Perm ((live (pre ++ [e])).flatMap (outside r)) ∧
      ∀ i, (excludeStep r s e).invalid = some i → Slot (excludeStep r s e).data i := by
  have ⟨hlive, hslot⟩ := h
  have hsnoc : (live (pre ++ [e])).flatMap (outside r) =
      (live pre).flatMap (outside r) ++ (live [e]).flatMap (outside r) := by rw [live_append, flatMap_append]
  rw [hsnoc]
  by_cases hv : e.valid = false
  · have hstep : excludeStep r s e = { s with data := s.data ++ [e], invalid := some s.data.length } := if_pos hv
    rw [hstep, live_cons_invalid hv]
    refine ⟨?_, fun i hi => Option.some.inj hi ▸ Slot.last hv⟩
    have hone := live_between (e := e) hlive
    rw [live_cons_invalid hv] at hone
    exact hone
  have hev := eq_true_of_ne_false hv
  have hall : live (outside r e) = outside r e :=
    filter_eq_self.mpr fun x hx => ((AddressRange.outside_spec (y := 0) hr hev).1 x hx).1
  have hparts : (live [e]).flatMap (outside r) = live (outside r e) := by
    rw [hall, live_cons_valid hev]
    exact append_nil _
  rw [hparts]
  unfold excludeStep
  unfold outside at hall ⊢
  rw [if_neg hv]
  split
  · exact ⟨live_between hlive, fun i hi => (hslot i hi).snoc⟩
  rename_i hover
  rw [if_neg hover] at hall
  split
  · exact ⟨live_between hlive, fun i hi => Option.some.inj hi ▸ Slot.last rfl⟩
  · exact ⟨live_between hlive, fun i hi => (hslot i hi).snoc⟩
  · exact ⟨live_between hlive, fun i hi => (hslot i hi).snoc⟩
  -- the tail is in the slot or behind all entries
  rename_i hhead htail
  simp only [hhead, htail] at hall
  have htv : AddressRange.valid { e with start := r.nextAddress } = true :=
    filter_eq_self.mp hall _ (mem_cons_of_mem _ mem_cons_self)
  have hswap : ∀ {l x z : AddressRangeVector}, (l ++ x ++ z).Perm (l ++ (z ++ x)) := by
    intro l x z
    rw [append_assoc]
    exact perm_append_comm.append_left l
  have htwo : ∀ head tail, live [head, tail] = live [head] ++ live [tail] := 
    fun head tail => filter_append [head] [tail]
  rw [htwo]
  cases hinv : s.invalid with
  | some i =>
    refine ⟨(live_between ?_).trans hswap, nofun⟩
    rw [live_append, live_cons_valid htv]
    refine (((hslot i hinv).set htv).append_right _).trans ?_
    rw [cons_append, ← live_append]
    exact (perm_append_singleton _ _).symm.trans (hlive.append_right _)
  | none =>
    refine ⟨(live_between ?_).trans hswap, nofun⟩
    rw [← append_assoc, live_append]
    exact hlive.append_right _

theorem exclude_live (hr : r.valid) : (live (exclude v r)).Perm ((live v).flatMap (outside r)) := by
  have hloop := Loop.foldl_rule (l := v) (f := excludeStep r) (s := {})
    (P := fun pre s => (live (s.data ++ s.pushed)).Perm ((live pre).flatMap (outside r)) ∧
      ∀ i, s.invalid = some i → Slot s.data i) ⟨.nil, fun _ hi => by cases hi⟩ fun _ _ _ _ _ h => excludeStep_live hr h
  rw [exclude, if_neg (by rw [hr]; decide)]
  exact hloop.1

section

variable (hR : Separation R)
include hR

theorem foldl_getMinMax_spec {es : AddressRangeVector} (hr : r.valid) (hin : r.inside f)
    (hes : ∀ e ∈ es, e.valid ∧ e.Meets r) : (es.foldl AddressRange.getMinMax f).valid ∧
      (∀ y, y ∈ es.foldl AddressRange.getMinMax f ↔ y ∈ f ∨ Denotes es y) ∧
      ∀ x, x.valid → R x f → (∀ e ∈ es, R x e) → R x (es.foldl AddressRange.getMinMax f) := by
  have hf := AddressRange.valid_of_inside hr hin
  induction es generalizing f with
  | nil => exact ⟨hf, fun y => (or_iff_left denotes_nil).symm, fun x _ h _ => h⟩
  | cons e es ih =>
    rw [forall_mem_cons] at hes
    have ⟨⟨hev, hmr⟩, hes⟩ := hes
    have hm : f.Meets e := by
      rw [AddressRange.inside_iff] at hin
      unfold AddressRange.Meets at hmr ⊢
      bv_omega
    have hin' : r.inside (f.getMinMax e) = true := by
      have hinside := (AddressRange.inside_getMinMax hf hev).1
      rw [AddressRange.inside_iff] at hin hinside ⊢
      bv_omega
    have ⟨hv, hmem, hsep⟩ := ih hin' hes (AddressRange.valid_getMinMax hf hev)
    refine ⟨hv, fun y => ?_, fun x hx hxf hall => ?_⟩
    · rw [foldl_cons, hmem, AddressRange.mem_getMinMax hf hev hm, denotes_cons, or_assoc]
    · rw [forall_mem_cons] at hall
      exact hsep x hx (hR.hull hx hf hev hm hxf hall.1) hall.2

theorem merge_spec (hv : (live v).Pairwise R) (hwrap : ∀ e ∈ v, e.valid → e.Wraps r → e.Meets r) :
    (∀ y, Denotes (merge v r) y ↔ Denotes v y ∨ y ∈ r) ∧ (live (merge v r)).Pairwise R := by
  by_cases hr : r.valid = false
  · rw [merge, if_pos hr]
    exact ⟨fun y => (or_iff_left (not_mem_of_invalid hr)).symm, hv⟩
  have hr := eq_true_of_ne_false hr
  have hself : r.inside r := AddressRange.inside_iff.mpr ⟨BitVec.le_refl _, BitVec.le_refl _⟩
  have htouch : ∀ e ∈ (live v).filter (·.touches r), e.valid ∧ e.Meets r := by
    intro e he
    have ⟨he, ht⟩ := mem_filter.mp he
    have ⟨he, hev⟩ := mem_filter.mp he
    exact ⟨hev, ((AddressRange.touches_iff hev hr).mp ht).elim id (hwrap e he hev)⟩
  have ⟨hhull, hmem, hsep⟩ := foldl_getMinMax_spec hR hr hself htouch
  have hperm := merge_live hr hhull
  refine ⟨fun y => ?_, (hperm.pairwise_iff hR.symm).mpr (pairwise_cons.mpr ⟨fun z hz => ?_, hv.filter _⟩)⟩
  · rw [← denotes_live, denotes_perm hperm, denotes_cons, hull, hmem, or_assoc, rest, denotes_filter, denotes_live]
    exact or_comm
  have ⟨hzl, hzt⟩ := mem_filter.mp hz
  have hzt := (Bool.not_eq_true' _).mp hzt
  refine hR.symm (hsep z (mem_filter.mp hzl).2 (hR.apart hzt) fun e he => ?_)
  have ⟨hel, het⟩ := mem_filter.mp he
  have hne : z ≠ e := by
    intro heq
    rw [heq, het] at hzt
    cases hzt
  have hsymm : Std.Symm R := ⟨fun _ _ => hR.symm⟩
  exact hv.forall hzl hel hne

theorem exclude_spec (hv : (live v).Pairwise R) (hsplit : ∀ e ∈ v, r.valid → e.start < r.start →
      r.last < e.last → R { e with last := r.prevAddress } { e with start := r.nextAddress }) :
    (∀ y, Denotes (exclude v r) y ↔ Denotes v y ∧ y ∉ r) ∧ (live (exclude v r)).Pairwise R := by
  by_cases hr : r.valid = false
  · rw [exclude, if_pos hr]
    exact ⟨fun y => (and_iff_left (not_mem_of_invalid hr)).symm, hv⟩
  have hr := eq_true_of_ne_false hr
  have hvalid : ∀ e ∈ live v, e.valid := fun e he => (mem_filter.mp he).2
  have hperm := exclude_live (v := v) hr
  refine ⟨fun y => ?_, (hperm.pairwise_iff hR.symm).mpr (pairwise_flatMap.mpr ⟨fun e he => ?_, ?_⟩)⟩
  · rw [← denotes_live, denotes_perm hperm, ← denotes_live (v := v)]
    simp only [Denotes, mem_flatMap]
    constructor
    · intro ⟨x, ⟨e, he, hx⟩, hy⟩
      have ⟨hye, hyr⟩ := (AddressRange.outside_spec hr (hvalid e he)).2.mp ⟨x, hx, hy⟩
      exact ⟨⟨e, he, hye⟩, hyr⟩
    · intro ⟨⟨e, he, hye⟩, hyr⟩
      have ⟨x, hx, hy⟩ := (AddressRange.outside_spec hr (hvalid e he)).2.mpr ⟨hye, hyr⟩
      exact ⟨x, ⟨e, he, hx⟩, hy⟩
  · exact AddressRange.outside_cases (fun _ => pairwise_singleton R _)
      (fun _ _ => .nil) (fun _ _ _ => pairwise_singleton R _) (fun _ _ _ => pairwise_singleton R _)
      fun hlo hhi => pairwise_pair.mpr (hsplit e (mem_filter.mp he).1 hr hlo hhi)
  · refine hv.imp_of_mem fun {a b} ha hb hab x hx z hz => ?_
    -- parts of two entries are apart because the entries are
    have ⟨hxv, hxa⟩ := (AddressRange.outside_spec (y := 0) hr (hvalid a ha)).1 x hx
    have ⟨hzv, hzb⟩ := (AddressRange.outside_spec (y := 0) hr (hvalid b hb)).1 z hz
    exact hR.sub hxv hzv hzb (hR.symm (hR.sub (hvalid b hb) hxv hxa (hR.symm hab)))

end

theorem checkConsistency_iff {v : AddressRangeVector} :
    checkConsistency v = true ↔ (live v).Pairwise fun a b => a.touches b = false := by
  induction v with
  | nil => exact iff_of_true rfl .nil
  | cons r rest ih =>
    rw [checkConsistency, Bool.and_eq_true, ih]
    cases hr : r.valid with
    | false => rw [live_cons_invalid hr, Bool.not_false, Bool.true_or, and_iff_right rfl]
    | true =>
      rw [live_cons_valid hr, pairwise_cons, Bool.not_true, Bool.false_or]
      refine and_congr_left' ?_
      simp only [live, all_eq_true, mem_filter, Bool.or_eq_true, Bool.not_eq_true', and_imp]
      refine forall₂_congr fun b _ => ?_
      cases b.valid <;> simp

/-! ## Calls -/

inductive Call
  | merge (newRange : AddressRange)
  | exclude (exclusion : AddressRange)

def Call.apply (v : AddressRangeVector) : Call → AddressRangeVector
  | merge newRange => v.merge newRange
  | exclude exclusion => v.exclude exclusion

def Call.expected (S : BitVec 32 → Prop) : Call → BitVec 32 → Prop
  | merge newRange => fun a => S a ∨ a ∈ newRange
  | exclude exclusion => fun a => S a ∧ a ∉ exclusion

/-- No entry is merged with the range only because they are at the two ends of the address space. -/
def Call.Straight (v : AddressRangeVector) : Call → Prop
  | merge newRange => ∀ e ∈ v, e.valid → e.Wraps newRange → e.Meets newRange
  | exclude _ => True

def Call.Unsplit (v : AddressRangeVector) : Call → Prop
  | merge _ => True
  | exclude exclusion => ⟨0, 0xffffffff⟩ ∈ v → exclusion.start = 0 ∨ exclusion.last = 0xffffffff

def AllCalls (C : AddressRangeVector → Call → Prop) (v : AddressRangeVector) : List Call → Prop
  | [] => True
  | call :: calls => C v call ∧ AllCalls C (call.apply v) calls

theorem Call.apply_denotes (call : Call) (hv : (live v).Pairwise AddressRange.Disjoint) (hC : call.Straight v) :
    (∀ y, Denotes (call.apply v) y ↔ call.expected (Denotes v) y) ∧
      (live (call.apply v)).Pairwise AddressRange.Disjoint := by
  cases call with
  | merge => exact merge_spec AddressRange.separation_disjoint hv hC
  | exclude =>
    refine exclude_spec AddressRange.separation_disjoint hv fun e _ hr hlo hhi y => ?_
    rw [valid_iff] at hr
    simp only [mem_def, AddressRange.prevAddress, AddressRange.nextAddress]
    bv_omega

theorem Call.apply_consistent (call : Call) (hv : checkConsistency v = true) (hC : call.Straight v)
    (hS : call.Unsplit v) : checkConsistency (call.apply v) = true := by
  rw [checkConsistency_iff] at hv ⊢
  cases call with
  | merge => exact (merge_spec AddressRange.separation_untouched hv hC).2
  | exclude =>
    refine (exclude_spec AddressRange.separation_untouched hv fun e he hr hlo hhi => ?_).2
    have hwhole : ¬(e.start = 0 ∧ e.last = 0xffffffff) := by
      intro ⟨hs, hl⟩
      have hwhole : e = ⟨0, 0xffffffff⟩ := by rw [← hs, ← hl]
      have := hS (hwhole ▸ he)
      bv_omega
    rw [valid_iff] at hr
    rw [AddressRange.not_touches_iff]
    simp only [AddressRange.prevAddress, AddressRange.nextAddress]
    bv_omega

/-- Behind every sequence of calls the vector denotes what is expected, and its entries are disjoint; and it is
consistent if it was, unless the range of all addresses was split. -/
theorem calls_denote (calls : List Call) (v : AddressRangeVector) (hv : (live v).Pairwise AddressRange.Disjoint)
    (hC : AllCalls Call.Straight v calls) :
    (∀ y, Denotes (calls.foldl Call.apply v) y ↔ calls.foldl Call.expected (Denotes v) y) ∧
      (live (calls.foldl Call.apply v)).Pairwise AddressRange.Disjoint ∧
      (checkConsistency v = true → AllCalls Call.Unsplit v calls →
        checkConsistency (calls.foldl Call.apply v) = true) := by
  induction calls generalizing v with
  | nil => exact ⟨fun _ => Iff.rfl, hv, fun h _ => h⟩
  | cons call calls ih =>
    have hcall := call.apply_denotes hv hC.1
    have ⟨hden, hdisj, hcons⟩ := ih (call.apply v) hcall.2 hC.2
    have hexp := funext fun y => propext (hcall.1 y)
    rw [hexp] at hden
    exact ⟨hden, hdisj, fun h hS => hcons (call.apply_consistent h hC.1 hS.1) hS.2⟩

theorem calls_denote_split : ∃ v, [Call.merge ⟨0x1000, 0x3fff⟩, .exclude ⟨0x1800, 0x18ff⟩].foldl Call.apply [] = v ∧
    v = [⟨0x1000, 0x17ff⟩, ⟨0x1900, 0x3fff⟩] ∧ (live v).Pairwise AddressRange.Disjoint ∧ checkConsistency v = true := by
  have h := calls_denote [.merge ⟨0x1000, 0x3fff⟩, .exclude ⟨0x1800, 0x18ff⟩] [] .nil ⟨nofun, trivial, trivial⟩
  exact ⟨_, rfl, by decide, h.2.1, h.2.2 rfl ⟨trivial, fun h => absurd h (by decide), trivial⟩⟩

/-- Disjoint entries that are side by side are not consistent, and stay so; and ranges at the two ends of the address
space are merged to the range of all addresses. -/
theorem merge_not_consistent : (live [⟨0, 1⟩, ⟨2, 3⟩]).Pairwise AddressRange.Disjoint ∧
      checkConsistency (merge [⟨0, 1⟩, ⟨2, 3⟩] ⟨16, 17⟩) = false ∧
      merge [⟨0xfffff000, 0xffffffff⟩] ⟨0, 0xfff⟩ = [⟨0, 0xffffffff⟩] ∧
      checkConsistency (exclude [⟨0, 0xffffffff⟩] ⟨0x1000, 0x1fff⟩) = false := by
  refine ⟨pairwise_pair.mpr fun y => ?_, by decide, by decide, by decide⟩
  simp only [mem_def]
  bv_omega

/-! ## Queries -/

theorem overlaps_iff (hr : r.valid) : overlaps v r = true ↔ ∃ y ∈ r, Denotes v y := by
  rw [valid_iff] at hr
  simp only [overlaps, any_eq_true, Bool.and_eq_true, valid_iff, AddressRange.overlaps, decide_eq_true_eq, Denotes]
  constructor
  · intro ⟨e, he, hv, ho⟩
    -- the later one of the two starts
    by_cases hlt : e.start < r.start
    · exact ⟨r.start, by rw [mem_def]; bv_omega, e, he, by rw [mem_def]; bv_omega⟩
    · exact ⟨e.start, by rw [mem_def]; bv_omega, e, he, by rw [mem_def]; bv_omega⟩
  · intro ⟨y, hy, e, he, hye⟩
    rw [mem_def] at hy hye
    exact ⟨e, he, by bv_omega, by bv_omega⟩

theorem inside_iff : inside v r = true ↔ ∀ y, Denotes v y → y ∈ r := by
  simp only [inside, all_eq_true, Bool.or_eq_true, Bool.not_eq_true', Denotes]
  constructor
  · intro h y ⟨e, he, hy⟩
    rcases h e he with hinv | hin
    · exact absurd hy (not_mem_of_invalid hinv)
    · rw [AddressRange.inside_iff] at hin
      rw [mem_def] at hy ⊢
      bv_omega
  · intro h e he
    cases hv : e.valid with
    | false => exact .inl rfl
    | true =>
      rw [valid_iff] at hv
      have hstart := h e.start ⟨e, he, by rw [mem_def]; bv_omega⟩
      have hlast := h e.last ⟨e, he, by rw [mem_def]; bv_omega⟩
      exact .inr (AddressRange.inside_iff.mpr ⟨hstart.1, hlast.2⟩)

theorem eq_of_meets {a b : AddressRange} (hv : (live v).Pairwise fun a b => ¬a.Meets b) (ha : a ∈ v) (hb : b ∈ v)
    (hav : a.valid) (hbv : b.valid) (h : a.Meets b) : a = b := by
  have hsymm : Std.Symm fun a b : AddressRange => ¬a.Meets b := ⟨fun a b hab hm => hab ⟨hm.2, hm.1⟩⟩
  by_contra hne
  exact hv.forall (mem_filter.mpr ⟨ha, hav⟩) (mem_filter.mpr ⟨hb, hbv⟩) hne h

theorem contained_iff (hv : (live v).Pairwise fun a b => ¬a.Meets b) (hr : r.valid) :
    (∀ y ∈ r, Denotes v y) ↔ ∃ e ∈ v, r.inside e := by
  have hrv := valid_iff.mp hr
  constructor
  · intro h
    have ⟨e, he, hstart⟩ := h r.start (by rw [mem_def]; bv_omega)
    refine ⟨e, he, AddressRange.inside_iff.mpr ⟨hstart.1, ?_⟩⟩
    by_contra hlast
    -- the address behind the entry would be in another one
    rw [mem_def] at hstart
    have ⟨e', he', hnext⟩ := h (e.last + 1) (by rw [mem_def]; bv_omega)
    rw [mem_def] at hnext
    have hne : e ≠ e' := by
      intro heq
      rw [← heq] at hnext
      bv_omega
    refine hne (eq_of_meets hv he he' (valid_iff.mpr (by bv_omega)) (valid_iff.mpr (by bv_omega)) ?_)
    unfold AddressRange.Meets
    bv_omega
  · intro ⟨e, he, hin⟩ y hy
    rw [AddressRange.inside_iff] at hin
    rw [mem_def] at hy
    exact ⟨e, he, by rw [mem_def]; bv_omega⟩

/-- An entry that lies in the range and one that contains it are the same, and then they are the range. -/
theorem entries_iff (hv : (live v).Pairwise fun a b => ¬a.Meets b) (hr : r.valid) :
    ((∃ e ∈ v, e.valid ∧ e.inside r) ↔ ∃ e ∈ v, r.inside e) ↔ r ∈ v ∨ ∀ e ∈ v, e.valid → ¬e.inside r ∧ ¬r.inside e := by
  have hrv := valid_iff.mp hr
  simp only [AddressRange.inside_iff]
  constructor
  · intro h
    by_cases hin : ∃ e ∈ v, e.valid ∧ r.start ≤ e.start ∧ e.last ≤ r.last
    · obtain ⟨e, he, hev, her⟩ := hin
      obtain ⟨f, hf, hrf⟩ := h.mp ⟨e, he, hev, her⟩
      have hev' := valid_iff.mp hev
      obtain rfl := eq_of_meets hv he hf hev (valid_iff.mpr (by bv_omega)) (by unfold AddressRange.Meets; bv_omega)
      obtain rfl : e = r := AddressRange.ext (BitVec.le_antisymm hrf.1 her.1) (BitVec.le_antisymm her.2 hrf.2)
      exact .inl he
    · exact .inr fun e he hev => ⟨fun her => hin ⟨e, he, hev, her⟩, fun hre => hin (h.mpr ⟨e, he, hre⟩)⟩
  · rintro (hmem | hnone)
    · exact iff_of_true ⟨r, hmem, hr, by bv_omega⟩ ⟨r, hmem, by bv_omega⟩
    · exact iff_of_false (fun ⟨e, he, hev, her⟩ => (hnone e he hev).1 her)
        fun ⟨e, he, hre⟩ => (hnone e he (valid_iff.mpr (by bv_omega))).2 hre

/-- `overlaps` and `inside` say what is asked for; `contains` does exactly if the range is an entry, or no entry lies
in it and none contains it. -/
theorem queries_iff (hv : (live v).Pairwise fun a b => ¬a.Meets b) (hr : r.valid) :
    ((overlaps v r = true ↔ ∃ y ∈ r, Denotes v y) ∧ (contains v r = true ↔ ∀ y ∈ r, Denotes v y) ∧
        (inside v r = true ↔ ∀ y, Denotes v y → y ∈ r)) ↔
      r ∈ v ∨ ∀ e ∈ v, e.valid → ¬e.inside r ∧ ¬r.inside e := by
  have hcontains : contains v r = true ↔ ∃ e ∈ v, e.valid ∧ e.inside r := by
    simp only [contains, any_eq_true, Bool.and_eq_true]
  rw [hcontains, contained_iff hv hr, ← entries_iff hv hr]
  exact ⟨fun h => h.2.1, fun h => ⟨overlaps_iff hr, h, inside_iff⟩⟩

theorem queries_right : (contains [⟨0x1000, 0x1fff⟩] ⟨0x1000, 0x1fff⟩ = true ↔
    ∀ y ∈ (⟨0x1000, 0x1fff⟩ : AddressRange), Denotes [⟨0x1000, 0x1fff⟩] y) :=
  ((queries_iff (pairwise_singleton _ _) (by decide)).mpr
    (by decide)).2.1

/-- A part of an entry is not contained, and what contains an entry is. -/
theorem contains_wrong : contains [⟨0x1000, 0x1fff⟩] ⟨0x1400, 0x17ff⟩ = false ∧
    (∀ y ∈ (⟨0x1400, 0x17ff⟩ : AddressRange), Denotes [⟨0x1000, 0x1fff⟩] y) ∧
    contains [⟨0x1000, 0x1fff⟩] ⟨0, 0xffff⟩ = true ∧ ¬Denotes [⟨0x1000, 0x1fff⟩] 0 := by
  refine ⟨by decide, fun y hy => ?_, by decide, ?_⟩
  · rw [mem_def] at hy
    refine ⟨_, mem_cons_self, ?_⟩
    rw [mem_def]
    bv_omega
  · rw [denotes_cons, or_iff_left denotes_nil, mem_def]
    decide

end AddressRangeVector

end Armsx3.Util
