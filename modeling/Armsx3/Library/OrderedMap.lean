import Mathlib

/-!
# OrderedMap — `std::map` as a list in the order of its keys

The list is what an iteration over the map sees.  Inserting keeps the entry that is there already, which is where
`std::map` differs from most maps.
-/

variable {κ α : Type*} [LinearOrder κ]

/-- The keys increase, so there is one entry for a key at most. -/
structure OrderedMap (κ α : Type*) [LinearOrder κ] where
  entries : List (κ × α)
  sorted : entries.Pairwise fun x y => x.1 < y.1

namespace OrderedMap

open List

/-- One pass along the list up to the place of the key. -/
def emplaceList (k : κ) (v : α) : List (κ × α) → List (κ × α)
  | [] => [(k, v)]
  | x :: l => if k < x.1 then (k, v) :: x :: l else if x.1 < k then x :: emplaceList k v l else x :: l

variable {y : κ × α}

theorem mem_emplaceList {k : κ} {v : α} {l : List (κ × α)} (hl : l.Pairwise fun x y => x.1 < y.1) :
    y ∈ emplaceList k v l ↔ y ∈ l ∨ (y = (k, v) ∧ ∀ x ∈ l, x.1 ≠ k) := by
  induction l with
  | nil => simp only [emplaceList, mem_singleton, not_mem_nil, false_or, false_implies,
      implies_true, and_true]
  | cons x l ih =>
    have ⟨hx, hl'⟩ := pairwise_cons.mp hl
    rw [emplaceList]
    split
    · -- the key comes before all others
      rename_i hk
      have hnot : ∀ z ∈ x :: l, z.1 ≠ k := by
        intro z hz
        rcases mem_cons.mp hz with hz | hz
        · rw [hz]; exact ne_of_gt hk
        · exact ne_of_gt (hk.trans (hx z hz))
      rw [mem_cons]
      constructor
      · rintro (hy | hy)
        · exact .inr ⟨hy, hnot⟩
        · exact .inl hy
      · rintro (hy | hy)
        · exact .inr hy
        · exact .inl hy.1
    next hk =>
      split_ifs with hk'
      · rw [mem_cons, mem_cons, ih hl', forall_mem_cons, or_assoc]
        have hne := ne_of_lt hk'
        tauto
      · -- there is an entry for the key already
        rename_i hk'
        have heq := le_antisymm (not_lt.mp hk) (not_lt.mp hk')
        tauto

theorem sorted_emplaceList {k : κ} {v : α} {l : List (κ × α)}
    (hl : l.Pairwise fun x y => x.1 < y.1) : (emplaceList k v l).Pairwise fun x y => x.1 < y.1 := by
  induction l with
  | nil => exact pairwise_singleton _ _
  | cons x l ih =>
    have ⟨hx, hl'⟩ := pairwise_cons.mp hl
    rw [emplaceList]
    split
    next hk =>
      apply pairwise_cons.mpr ⟨_, hl⟩
      intro y hy
      rcases mem_cons.mp hy with hy | hy
      · rw [hy]; exact hk
      · exact hk.trans (hx y hy)
    · split_ifs with hk
      · apply pairwise_cons.mpr ⟨_, ih hl'⟩
        intro y hy
        rcases (mem_emplaceList hl').mp hy with hy | ⟨hy, _⟩
        · exact hx y hy
        · rw [hy]; exact hk
      · exact hl

def empty : OrderedMap κ α := ⟨[], List.Pairwise.nil⟩

def find? (m : OrderedMap κ α) (k : κ) : Option α :=
  (m.entries.find? fun x => x.1 = k).map Prod.snd

def begin? (m : OrderedMap κ α) : Option (κ × α) := m.entries.head?

/-- `emplace` and `insert`: without effect when there is an entry for the key. -/
def emplace (m : OrderedMap κ α) (k : κ) (v : α) : OrderedMap κ α :=
  ⟨emplaceList k v m.entries, sorted_emplaceList m.sorted⟩

def eraseIf (m : OrderedMap κ α) (p : κ × α → Bool) : OrderedMap κ α :=
  ⟨m.entries.filter fun x => !p x, m.sorted.filter _⟩

def eraseBegin (m : OrderedMap κ α) : OrderedMap κ α := ⟨m.entries.tail, m.sorted.tail⟩

def erase (m : OrderedMap κ α) (k : κ) : OrderedMap κ α := m.eraseIf fun x => x.1 = k

def assign (m : OrderedMap κ α) (k : κ) (v : α) : OrderedMap κ α := (m.erase k).emplace k v

def mapVal {β : Type*} (m : OrderedMap κ α) (f : α → β) : OrderedMap κ β :=
  ⟨m.entries.map fun x => (x.1, f x.2), m.sorted.map _ fun _ _ h => h⟩

variable {m : OrderedMap κ α} {k : κ} {v : α} {x : κ × α}

instance : Membership (κ × α) (OrderedMap κ α) := ⟨fun m x => x ∈ m.entries⟩

theorem mem_def : x ∈ m ↔ x ∈ m.entries := Iff.rfl

theorem not_mem_empty : x ∉ (empty : OrderedMap κ α) := not_mem_nil

theorem mem_emplace : x ∈ m.emplace k v ↔ x ∈ m ∨ (x = (k, v) ∧ ∀ y ∈ m, y.1 ≠ k) := mem_emplaceList m.sorted

theorem mem_eraseIf {p : κ × α → Bool} : x ∈ m.eraseIf p ↔ x ∈ m ∧ p x = false := by
  rw [mem_def, eraseIf, mem_filter, Bool.not_eq_true', mem_def]

theorem mem_erase : x ∈ m.erase k ↔ x ∈ m ∧ x.1 ≠ k := by
  rw [erase, mem_eraseIf, decide_eq_false_iff_not]

theorem mem_assign : x ∈ m.assign k v ↔ (x ∈ m ∧ x.1 ≠ k) ∨ x = (k, v) := by
  rw [assign, mem_emplace, mem_erase]
  constructor
  · rintro (hx | hx)
    · exact .inl hx
    · exact .inr hx.1
  · rintro (hx | hx)
    · exact .inl hx
    · exact .inr ⟨hx, fun y hy => (mem_erase.mp hy).2⟩

section Forall

variable {P : κ × α → Prop}

theorem forall_empty : ∀ x ∈ (empty : OrderedMap κ α), P x := fun _ hx => absurd hx not_mem_empty

variable (h : ∀ x ∈ m, P x)
include h

theorem forall_emplace (hv : P (k, v)) : ∀ x ∈ m.emplace k v, P x := by
  intro x hx
  rcases mem_emplace.mp hx with hx | ⟨rfl, _⟩
  · exact h x hx
  · exact hv

theorem forall_erase : ∀ x ∈ m.erase k, P x := fun x hx => h x (mem_erase.mp hx).1

theorem forall_assign (hv : P (k, v)) : ∀ x ∈ m.assign k v, P x := forall_emplace (forall_erase h) hv

end Forall

theorem mem_mapVal {β : Type*} {f : α → β} {y : κ × β} : y ∈ m.mapVal f ↔ ∃ x ∈ m, (x.1, f x.2) = y := mem_map

theorem eq_of_key (hx : x ∈ m) (hy : y ∈ m) (h : x.1 = y.1) : x = y := by
  have hnd := List.Pairwise.map Prod.fst (fun _ _ hlt => ne_of_lt hlt) m.sorted
  exact inj_on_of_nodup_map hnd hx hy h

theorem find?_eq_some : m.find? k = some v ↔ (k, v) ∈ m := by
  rw [find?, Option.map_eq_some_iff]
  constructor
  · rintro ⟨y, hy, hv⟩
    have hk : y.1 = k := by simpa using find?_some hy
    have hmem := mem_of_find?_eq_some hy
    rw [← hv, ← hk]
    exact hmem
  · intro hmem
    have hsome : (m.entries.find? fun y => decide (y.1 = k)).isSome := by
      rw [find?_isSome]
      exact ⟨(k, v), hmem, by simp⟩
    have ⟨y, hy⟩ := Option.isSome_iff_exists.mp hsome
    have hk : y.1 = k := by simpa using find?_some hy
    exact ⟨y, hy, congrArg Prod.snd (eq_of_key (mem_of_find?_eq_some hy) hmem hk)⟩

theorem find?_empty : (empty : OrderedMap κ α).find? k = none := rfl

theorem find?_eq_none : m.find? k = none ↔ ∀ y ∈ m, y.1 ≠ k := by
  rw [find?, Option.map_eq_none_iff, List.find?_eq_none]
  simp only [decide_eq_true_eq]
  exact Iff.rfl

theorem eq_of_mem_iff {n : OrderedMap κ α} (h : ∀ x, x ∈ m ↔ x ∈ n) : m = n := by
  have hperm : m.entries.Perm n.entries := by
    rw [perm_ext_iff_of_nodup]
    · exact h
    · exact m.sorted.imp fun hlt heq => absurd (heq ▸ hlt) (lt_irrefl _)
    · exact n.sorted.imp fun hlt heq => absurd (heq ▸ hlt) (lt_irrefl _)
  have hentries := hperm.eq_of_pairwise (fun x y _ _ hxy hyx => absurd hyx (not_lt_of_gt hxy)) m.sorted n.sorted
  cases m
  cases n
  cases hentries
  rfl

variable {k' : κ}

theorem find?_assign : (m.assign k v).find? k' = if k' = k then some v else m.find? k' := by
  split_ifs with hk
  · rw [hk, find?_eq_some, mem_assign]
    exact .inr rfl
  cases hfind : m.find? k' with
  | some =>
    rw [find?_eq_some, mem_assign]
    exact .inl ⟨find?_eq_some.mp hfind, hk⟩
  | none =>
    rw [find?_eq_none] at hfind ⊢
    intro y hy
    rcases mem_assign.mp hy with hy | hy
    · exact hfind y hy.1
    · rw [hy]
      exact Ne.symm hk

theorem find?_emplace (h : m.find? k = none) : (m.emplace k v).find? k' = if k' = k then some v else m.find? k' := by
  have hk := find?_eq_none.mp h
  split
  next heq =>
    rw [heq, find?_eq_some, mem_emplace]
    exact .inr ⟨rfl, hk⟩
  rename_i hne
  cases hfind : m.find? k' with
  | some =>
    rw [find?_eq_some, mem_emplace]
    exact .inl (find?_eq_some.mp hfind)
  | none =>
    rw [find?_eq_none] at hfind ⊢
    intro y hy
    rcases mem_emplace.mp hy with hy | ⟨hy, _⟩
    · exact hfind y hy
    · rw [hy]
      exact Ne.symm hne

theorem find?_erase : (m.erase k).find? k' = if k' = k then none else m.find? k' := by
  split
  next heq =>
    rw [heq, find?_eq_none]
    exact fun y hy => (mem_erase.mp hy).2
  rename_i hne
  cases hfind : m.find? k' with
  | some =>
    rw [find?_eq_some, mem_erase]
    exact ⟨find?_eq_some.mp hfind, hne⟩
  | none =>
    rw [find?_eq_none] at hfind ⊢
    exact fun y hy => hfind y (mem_erase.mp hy).1

theorem erase_emplace (h : m.find? k = none) : (m.emplace k v).erase k = m := by
  have hk := find?_eq_none.mp h
  apply eq_of_mem_iff
  intro x
  rw [mem_erase, mem_emplace]
  constructor
  · rintro ⟨hx | ⟨hx, _⟩, hne⟩
    · exact hx
    · exact absurd (hx ▸ rfl) hne
  · exact fun hx => ⟨.inl hx, hk x hx⟩

variable {w : α}

theorem assign_assign : (m.assign k v).assign k w = m.assign k w := by
  apply eq_of_mem_iff
  intro x
  rw [mem_assign, mem_assign, mem_assign]
  constructor
  · rintro (⟨⟨hx, _⟩ | hx, hne⟩ | hx)
    · exact .inl ⟨hx, hne⟩
    · exact absurd (hx ▸ rfl) hne
    · exact .inr hx
  · rintro (hx | hx)
    · exact .inl ⟨.inl hx, hx.2⟩
    · exact .inr hx

theorem assign_self (h : m.find? k = some v) : m.assign k v = m := by
  have hmem := find?_eq_some.mp h
  apply eq_of_mem_iff
  intro x
  rw [mem_assign]
  constructor
  · rintro (hx | hx)
    · exact hx.1
    · exact hx ▸ hmem
  · intro hx
    by_cases hne : x.1 = k
    · exact .inr (eq_of_key hx hmem hne)
    · exact .inl ⟨hx, hne⟩

section

variable (h : m.begin? = some x)
include h

theorem begin?_le (hy : y ∈ m) : x.1 ≤ y.1 := by
  have ⟨rest, hrest⟩ := head?_eq_some_iff.mp h
  have hs := m.sorted
  rw [mem_def, hrest] at hy
  rw [hrest] at hs
  rcases mem_cons.mp hy with hy | hy
  · rw [hy]
  · exact le_of_lt ((pairwise_cons.mp hs).1 y hy)

theorem begin?_mem : x ∈ m := mem_of_head? h

theorem mem_eraseBegin : y ∈ m.eraseBegin ↔ y ∈ m ∧ y.1 ≠ x.1 := by
  have ⟨rest, hrest⟩ := head?_eq_some_iff.mp h
  have hs := m.sorted
  show y ∈ m.entries.tail ↔ y ∈ m.entries ∧ _
  rw [hrest] at hs ⊢
  have hlt := (pairwise_cons.mp hs).1
  constructor
  · intro hy
    exact ⟨mem_cons_of_mem _ hy, ne_of_gt (hlt y hy)⟩
  · rintro ⟨hy, hne⟩
    rcases mem_cons.mp hy with hy | hy
    · exact absurd (hy ▸ rfl) hne
    · exact hy

theorem begin?_emplace (hk : x.1 < k) : (m.emplace k v).begin? = some x := by
  have ⟨rest, hrest⟩ := head?_eq_some_iff.mp h
  show (emplaceList k v m.entries).head? = some x
  rw [hrest, emplaceList, if_neg (not_lt_of_gt hk), if_pos hk, head?_cons]

theorem begin?_emplace_cases : (m.emplace k v).begin? = some x ∨ (m.emplace k v).begin? = some (k, v) := by
  have ⟨rest, hrest⟩ := head?_eq_some_iff.mp h
  show (emplaceList k v m.entries).head? = some x ∨ (emplaceList k v m.entries).head? = some (k, v)
  rw [hrest, emplaceList]
  split
  · exact .inr rfl
  · split
    · exact .inl rfl
    · exact .inl rfl

end

theorem emplace_eq_self (h : ∃ y ∈ m, y.1 = k) : (m.emplace k v).entries = m.entries := by
  have hs := m.sorted
  have ⟨y, hy, hyk⟩ := h
  rw [mem_def] at hy
  show emplaceList k v m.entries = m.entries
  generalize m.entries = l at hs hy ⊢
  induction l with
  | nil => exact absurd hy not_mem_nil
  | cons x l ih =>
    have ⟨hx, hl⟩ := pairwise_cons.mp hs
    rw [emplaceList]
    rcases mem_cons.mp hy with rfl | hy
    · rw [hyk, if_neg (lt_irrefl k), if_neg (lt_irrefl k)]
    · have hlt := hyk ▸ hx y hy
      rw [if_neg (not_lt_of_gt hlt), if_pos hlt, ih hl hy]

/-! ### Sums over the entries -/

theorem sum_emplace_le (m : OrderedMap κ α) (f : κ × α → Nat) (k : κ) (v : α) :
    ((m.emplace k v).entries.map f).sum ≤ (m.entries.map f).sum + f (k, v) := by
  show ((emplaceList k v m.entries).map f).sum ≤ _
  induction m.entries with
  | nil =>
    rw [emplaceList, map_cons, sum_cons, map_nil, sum_nil]
    omega
  | cons =>
    rw [emplaceList]
    split
    · simp only [map_cons, sum_cons]
      omega
    split
    · simp only [map_cons, sum_cons]
      omega
    · exact Nat.le_add_right _ _

theorem sum_emplace (f : κ × α → Nat) (h : ∀ y ∈ m, y.1 ≠ k) :
    ((m.emplace k v).entries.map f).sum = (m.entries.map f).sum + f (k, v) := by
  have hne : ∀ y ∈ m.entries, y.1 ≠ k := h
  show ((emplaceList k v m.entries).map f).sum = _
  generalize m.entries = l at hne ⊢
  induction l with
  | nil => exact Nat.add_comm _ _
  | cons x l ih =>
    have ⟨hx, hl⟩ := forall_mem_cons.mp hne
    rw [emplaceList]
    split
    · simp only [map_cons, sum_cons]
      omega
    rename_i hk
    rw [if_pos (lt_of_le_of_ne (not_lt.mp hk) hx)]
    simp only [map_cons, sum_cons]
    have hih := ih hl
    omega

theorem sum_erase (f : κ × α → Nat) (h : (k, v) ∈ m) :
    (m.entries.map f).sum = f (k, v) + ((m.erase k).entries.map f).sum := by
  have hs := m.sorted
  rw [mem_def] at h
  show _ = f (k, v) + ((m.entries.filter fun x => !decide (x.1 = k)).map f).sum
  generalize m.entries = l at hs h ⊢
  induction l with
  | nil => exact absurd h not_mem_nil
  | cons x l ih =>
    have ⟨hx, hl⟩ := pairwise_cons.mp hs
    rcases mem_cons.mp h with rfl | h
    · -- no other entry has the key
      have hrest : l.filter (fun y => !decide (y.1 = k)) = l := by
        rw [filter_eq_self]
        intro y hy
        rw [decide_eq_false (ne_of_gt (hx y hy)), Bool.not_false]
      rw [filter_cons_of_neg (by simp), hrest, map_cons, sum_cons]
    · have hne := ne_of_lt (hx _ h)
      rw [filter_cons_of_pos (by simp [hne])]
      simp only [map_cons, sum_cons]
      have hih := ih hl h
      omega

theorem sum_assign (f : κ × α → Nat) (h : (k, w) ∈ m) :
    ((m.assign k v).entries.map f).sum + f (k, w) = (m.entries.map f).sum + f (k, v) := by
  have hsum : ((m.assign k v).entries.map f).sum = _ := sum_emplace f fun y hy => (mem_erase.mp hy).2
  have herase := sum_erase f h
  omega

/-! ### Amounts that entries are charged to their owners -/

section Tally

variable {ι : Type*} [DecidableEq ι] (owner : α → ι) (amount : α → Nat) (c : ι)

def charge (v : α) : Nat := if owner v = c then amount v else 0

/-- What an owner is charged for all entries. -/
def tally (m : OrderedMap κ α) : Nat := (m.entries.map fun x => charge owner amount c x.2).sum

variable {c}

theorem tally_emplace (h : m.find? k = none) : (m.emplace k v).tally owner amount c =
      m.tally owner amount c + if owner v = c then amount v else 0 :=
  sum_emplace _ (find?_eq_none.mp h)

theorem tally_erase (h : m.find? k = some v) : m.tally owner amount c =
      (if owner v = c then amount v else 0) + (m.erase k).tally owner amount c :=
  sum_erase _ (find?_eq_some.mp h)

theorem tally_assign (h : m.find? k = some w) :
    ((m.assign k v).tally owner amount c + if owner w = c then amount w else 0) =
      m.tally owner amount c + if owner v = c then amount v else 0 :=
  sum_assign _ (find?_eq_some.mp h)

variable {owner amount} in
theorem tally_congr {amount' : α → Nat} (h : ∀ x ∈ m, amount x.2 = amount' x.2) :
    m.tally owner amount c = m.tally owner amount' c := by
  have hmap : (m.entries.map fun x => charge owner amount c x.2) =
      m.entries.map fun x => charge owner amount' c x.2 := by
    apply map_congr_left
    intro x hx
    rw [charge, charge, h x hx]
  rw [tally, tally, hmap]

end Tally

end OrderedMap
