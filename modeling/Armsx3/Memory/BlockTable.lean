import Armsx3.Library.Bits
import Armsx3.Memory.Block

/-!
# The two tables of guest memory agree

Each entry of a live block covers whole pages inside the block, which no other entry covers and which
have the flags the entry was made with; every other page is free.
-/

namespace Armsx3.Vm

open Function State

/-! ## Ranges of pages -/

variable {p : Nat} {f : PageFlags}

namespace Pages

variable {pages : Pages} {first n : Nat}

theorem isFree_iff : pages.isFree first n = true ↔ ∀ p, first ≤ p → p < first + n → pages p = 0 := by
  simp only [isFree, List.all_eq_true, List.mem_range'_1, beq_iff_eq, and_imp]

theorem fill_of_not_mem (h : ¬ (first ≤ p ∧ p < first + n)) : pages.fill first n f p = pages p := if_neg h

theorem countAllocated_eq (hf : f &&& pageAllocated ≠ 0) {p n : Nat}
    (hp : ∀ q, p ≤ q → q < p + n → pages q = f) {exec : Option Bool}
    (hexec : exec = none ∨ exec = some (f &&& pageExecutable != 0)) : pages.countAllocated p n exec = some n := by
  induction n generalizing p exec with
  | zero => rfl
  | succ n ih =>
    have hpf := hp p (by omega) (by omega)
    rw [countAllocated, hpf, if_neg hf]
    rw [if_pos hexec, ih (fun q h1 h2 => hp q (by omega) (by omega)) (.inr rfl)]
    rfl

end Pages

theorem entryFlags_and_allocated (bflags : BlockFlags) : entryFlags bflags &&& pageAllocated = 0 := by
  unfold entryFlags
  split <;> split <;> split <;> (try split) <;> (try split) <;> decide

/-! ## Entries -/

def Covers (x : Nat × Entry) (p : Nat) : Prop := x.1 ≤ 4096 * p ∧ 4096 * p < x.1 + x.2.size.toNat

structure Fits (b : Block) (x : Nat × Entry) : Prop where
  addr_mod : x.1 % 4096 = 0
  size_mod : x.2.size.toNat % 4096 = 0
  size_pos : 0 < x.2.size.toNat
  guards : b.guarded = true → 0x2000 < x.2.size.toNat
  low : b.addr.toNat ≤ x.1
  high : x.1 + x.2.size.toNat ≤ b.addr.toNat + b.size.toNat

def Apart (x y : Nat × Entry) : Prop :=
  x.1 + x.2.size.toNat ≤ y.1 ∨ y.1 + y.2.size.toNat ≤ x.1

instance (x : Nat × Entry) (p : Nat) : Decidable (Covers x p) := inferInstanceAs (Decidable (_ ∧ _))

def pageFlags (guarded : Bool) (x : Nat × Entry) (f : PageFlags) (p : Nat) : PageFlags :=
  if guarded = true ∧ (4096 * p = x.1 ∨ 4096 * p + 4096 = x.1 + x.2.size.toNat) then pageAllocated
  else f ||| pageAllocated

def Filled (guarded : Bool) (pages : Pages) (x : Nat × Entry) : Prop :=
  ∃ f, ∀ p, Covers x p → pages p = pageFlags guarded x f p

def Pages.place (pages : Pages) (guarded : Bool) (x : Nat × Entry) (f : PageFlags) : Pages :=
  fun p => if Covers x p then pageFlags guarded x f p else pages p

def Pages.clear (pages : Pages) (x : Nat × Entry) : Pages := fun p => if Covers x p then 0 else pages p

theorem or_allocated (f : PageFlags) : (f ||| pageAllocated) &&& pageAllocated ≠ 0 := by
  revert f
  decide

variable {x : Nat × Entry}

theorem Filled.allocated {guarded : Bool} {pages : Pages}
    (h : Filled guarded pages x) (hp : Covers x p) : pages p &&& pageAllocated ≠ 0 := by
  have ⟨f, hf⟩ := h
  rw [hf p hp]
  unfold pageFlags
  split
  · decide
  · exact or_allocated f

variable {x y : Nat × Entry}

theorem Fits.apart {b c : Block} (hx : Fits b x) (hy : Fits c y)
    (h : ∀ p, ¬ (Covers x p ∧ Covers y p)) : Apart x y := by
  have ⟨hx1, hx2, hx3, _, _, _⟩ := hx
  have ⟨hy1, hy2, hy3, _, _, _⟩ := hy
  unfold Covers at h
  unfold Apart
  -- the first page of the one that begins later
  have h1 := h (x.1 / 4096)
  have h2 := h (y.1 / 4096)
  omega

theorem Fits.covers_iff {b : Block} (h : Fits b x) :
    Covers x p ↔ x.1 / 4096 ≤ p ∧ p < x.1 / 4096 + x.2.size.toNat / 4096 := by
  have ⟨h1, h2, _, _, _, _⟩ := h
  unfold Covers
  omega

theorem Apart.not_covers (h : Apart x y) (p : Nat) : ¬ (Covers x p ∧ Covers y p) := by
  unfold Apart Covers at *
  omega

theorem Apart.symm (h : Apart x y) : Apart y x := Or.symm h

section Inv

variable {ι : Type} {L : Layout ι}

structure Inv (L : Layout ι) (s : State ι) : Prop where
  fits : ∀ i, ∀ x ∈ s.map i, Fits (L.block i) x
  apart : ∀ i, s.valid i = true → ∀ x ∈ s.map i, ∀ y ∈ s.map i, x ≠ y → Apart x y
  filled : ∀ i, s.valid i = true → ∀ x ∈ s.map i, Filled (L.block i).guarded s.pages x
  free : ∀ p, (∀ i, s.valid i = true → ∀ x ∈ s.map i, ¬ Covers x p) → s.pages p = 0

variable {i j : ι}

theorem Fits.apart_blocks (hx : Fits (L.block i) x) (hy : Fits (L.block j) y) (hij : i ≠ j) : Apart x y := by
  have hd := L.disjoint i j hij
  have hxl := hx.low
  have hxh := hx.high
  have hyl := hy.low
  have hyh := hy.high
  unfold Apart
  omega

variable {s : State ι}

theorem Inv.apart_all (h : Inv L s)
    (hi : s.valid i = true) (hj : s.valid j = true) (hx : x ∈ s.map i) (hy : y ∈ s.map j)
    (hne : i ≠ j ∨ x ≠ y) : Apart x y := by
  by_cases hij : i = j
  · subst hij
    exact h.apart i hi x hx y hy (hne.resolve_left fun hn => hn rfl)
  · exact (h.fits i x hx).apart_blocks (h.fits j y hy) hij

variable {i : ι}

theorem Inv.free_of_expired (h : Inv L s)
    (hi : ¬ s.valid i = true) (hx : x ∈ s.map i) (p : Nat) (hp : Covers x p) : s.pages p = 0 := by
  apply h.free
  intro j hj y hy hyp
  have hij : i ≠ j := fun he => hi (he ▸ hj)
  exact ((h.fits i x hx).apart_blocks (h.fits j y hy) hij).not_covers p ⟨hp, hyp⟩

theorem inv_initial (h : Initial s) : Inv L s := by
  have ⟨hpages, _, hmap⟩ := h
  have hnot : ∀ i, ∀ x ∈ s.map i, False := by
    intro i x hx
    rw [hmap i] at hx
    exact OrderedMap.not_mem_empty hx
  exact ⟨fun i x hx => (hnot i x hx).elim, fun i _ x hx => (hnot i x hx).elim,
    fun i _ x hx => (hnot i x hx).elim, fun p _ => hpages p⟩

theorem Inv.apart_of_free (h : Inv L s)
    (hx : Fits (L.block i) x) (hfree : ∀ p, Covers x p → s.pages p = 0) (hj : s.valid j = true)
    (hy : y ∈ s.map j) : Apart x y := by
  apply hx.apart (h.fits j y hy)
  rintro p ⟨hxp, hyp⟩
  have halloc := (h.filled j hj y hy).allocated hyp
  rw [hfree p hxp] at halloc
  exact halloc (by decide)

theorem Fits.covers_self {b : Block} (h : Fits b x) : Covers x (x.1 / 4096) := by
  have ⟨h1, _, h3, _, _, _⟩ := h
  unfold Covers
  omega

/-! ### Making and removing an entry -/

variable [DecidableEq ι]

def State.insert (s : State ι) (i : ι) (guarded : Bool) (x : Nat × Entry) (f : PageFlags) (nextShm : ShmId) : State ι :=
  { s with pages := s.pages.place guarded x f
           map := update s.map i ((s.map i).assign x.1 x.2)
           nextShm := nextShm }

def State.remove (s : State ι) (i : ι) (x : Nat × Entry) : State ι :=
  { s with pages := s.pages.clear x
           map := update s.map i ((s.map i).erase x.1) }

theorem State.mem_insert {guarded : Bool} {n : ShmId} : y ∈ (s.insert i guarded x f n).map j ↔
      (y ∈ s.map j ∧ ¬ (j = i ∧ y.1 = x.1)) ∨ (j = i ∧ y = x) := by
  show y ∈ update s.map i _ j ↔ _
  by_cases hj : j = i
  · subst hj
    simp only [update_self, OrderedMap.mem_assign, true_and, Prod.mk.eta]
  · simp only [update_of_ne hj, hj, false_and, not_false_eq_true, and_true, or_false]

theorem State.mem_remove : y ∈ (s.remove i x).map j ↔ y ∈ s.map j ∧ ¬ (j = i ∧ y.1 = x.1) := by
  show y ∈ update s.map i _ j ↔ _
  by_cases hj : j = i
  · subst hj
    simp only [update_self, OrderedMap.mem_erase, true_and, ne_eq]
  · simp only [update_of_ne hj, hj, false_and, not_false_eq_true, and_true]

theorem Inv.insert (h : Inv L s) (f : PageFlags) (n : ShmId)
    (hi : s.valid i = true) (hx : Fits (L.block i) x) (hfree : ∀ p, Covers x p → s.pages p = 0) :
    Inv L (s.insert i (L.block i).guarded x f n) := by
  have happart : ∀ j, s.valid j = true → ∀ y ∈ s.map j, Apart x y := fun j hj y hy => h.apart_of_free hx hfree hj hy
  -- the key is new, so that nothing is overwritten
  have hkey : ∀ j, s.valid j = true → ∀ y ∈ s.map j, y.1 ≠ x.1 := by
    intro j hj y hy he
    have hxp := hx.size_pos
    have hyp := (h.fits j y hy).size_pos
    have ha := happart j hj y hy
    unfold Apart at ha
    omega
  constructor
  · intro j y hy
    rcases mem_insert.mp hy with ⟨hy, _⟩ | ⟨rfl, rfl⟩
    · exact h.fits j y hy
    · exact hx
  · intro j hj y hy z hz hne
    rcases mem_insert.mp hy with ⟨hy', _⟩ | ⟨_, hyx⟩ <;> rcases mem_insert.mp hz with ⟨hz', _⟩ | ⟨_, hzx⟩
    · exact h.apart j hj y hy' z hz' hne
    · exact hzx ▸ (happart j hj y hy').symm
    · exact hyx ▸ happart j hj z hz'
    · exact (hne (hyx.trans hzx.symm)).elim
  · intro j hj y hy
    rcases mem_insert.mp hy with ⟨hy, _⟩ | ⟨rfl, rfl⟩
    · have ⟨g, hg⟩ := h.filled j hj y hy
      refine ⟨g, fun p hp => ?_⟩
      have hnot := fun hxp => (happart j hj y hy).not_covers p ⟨hxp, hp⟩
      show (if Covers x p then _ else s.pages p) = _
      rw [if_neg hnot]
      exact hg p hp
    · exact ⟨f, fun p hp => if_pos hp⟩
  · intro p hp
    have hnot := hp i hi x (mem_insert.mpr (.inr ⟨rfl, rfl⟩))
    show (if Covers x p then _ else s.pages p) = _
    rw [if_neg hnot]
    apply h.free
    intro j hj y hy
    exact hp j hj y (mem_insert.mpr (.inl ⟨hy, fun hk => hkey j hj y hy hk.2⟩))

theorem Inv.remove (h : Inv L s) (hi : s.valid i = true) (hx : x ∈ s.map i) : Inv L (s.remove i x) := by
  -- what stays is apart from what goes
  have happart : ∀ j, s.valid j = true → ∀ y ∈ s.map j, ¬ (j = i ∧ y.1 = x.1) → Apart x y := by
    intro j hj y hy hne
    apply h.apart_all hi hj hx hy
    by_cases hij : i = j
    · exact .inr fun hxy => hne ⟨hij.symm, hxy ▸ rfl⟩
    · exact .inl hij
  constructor
  · intro j y hy
    exact h.fits j y (mem_remove.mp hy).1
  · intro j hj y hy z hz hne
    exact h.apart j hj y (mem_remove.mp hy).1 z (mem_remove.mp hz).1 hne
  · intro j hj y hy
    have ⟨hy, hne⟩ := mem_remove.mp hy
    have ⟨g, hg⟩ := h.filled j hj y hy
    refine ⟨g, fun p hp => ?_⟩
    have hnot := fun hxp => (happart j hj y hy hne).not_covers p ⟨hxp, hp⟩
    show (if Covers x p then _ else s.pages p) = _
    rw [if_neg hnot]
    exact hg p hp
  · intro p hp
    show (if Covers x p then _ else s.pages p) = _
    split
    · rfl
    rename_i hnot
    apply h.free
    intro j hj y hy hyp
    by_cases hk : j = i ∧ y.1 = x.1
    · have heq := OrderedMap.eq_of_key (hk.1 ▸ hy) hx hk.2
      exact hnot (heq ▸ hyp)
    · exact hp j hj y (mem_remove.mpr ⟨hy, hk⟩) hyp

end Inv

end Armsx3.Vm
