import Armsx3.Library.Bits
import Armsx3.Library.Ring
import Armsx3.Rsx.DataHeap

/-!
# DataHeapSafety — allocations that the GPU still uses are not overwritten

Counted from the first lap, the put position never goes back and stays less than one turn ahead of where the memory
in use starts; the allocations in use are stretches between the two, one behind the other.
-/

namespace Armsx3.Rsx

open List Option BitVec Nat Transition

/-! ## Alignment -/

section Align

variable {value : Usz} {k : Fin 31}

theorem toNat_alignment (k : Fin 31) : (alignment k).toNat = 2 ^ k.val := by
  have hk : 2 ^ k.val < 2 ^ 64 := Nat.pow_lt_pow_right (by decide) (by omega)
  exact mod_eq_of_lt hk

theorem toNat_alignment_sub_one (k : Fin 31) : (alignment k - 1).toNat = 2 ^ k.val - 1 := by
  have hpos : 0 < 2 ^ k.val := Nat.two_pow_pos _
  have hone : (1 : Usz).toNat = 1 := rfl
  rw [toNat_sub_of_le, toNat_alignment, hone]
  rw [le_def, toNat_alignment, hone]
  omega

theorem align_spec (h : value.toNat + (2 ^ k.val - 1) < 2 ^ 64) :
    value.toNat ≤ (alignUsz value (alignment k)).toNat ∧ (alignUsz value (alignment k)).toNat % 2 ^ k.val = 0 := by
  have hsum : (value + (alignment k - 1)).toNat = value.toNat + (2 ^ k.val - 1) := by
    rw [toNat_add, toNat_alignment_sub_one]
    exact mod_eq_of_lt h
  unfold alignUsz
  rw [Bits.toNat_and_neg (toNat_alignment k), hsum]
  constructor
  · omega
  · exact sub_mod_eq_zero_of_mod_eq (mod_mod _ _).symm

theorem aligned_of_and (h : value &&& (alignment k - 1) = 0) : value.toNat % 2 ^ k.val = 0 := by
  have hnat := congrArg BitVec.toNat h
  rw [toNat_and, toNat_alignment_sub_one, and_two_pow_sub_one_eq_mod] at hnat
  exact hnat

end Align

/-! ## The invariant -/

namespace HeapAlloc

def first (a : HeapAlloc) (heapSize : Nat) : Nat := a.lap * heapSize + a.pos.toNat

def Fits (a : HeapAlloc) (heapSize : Nat) : Prop :=
  a.pos.toNat + a.size.toNat ≤ heapSize ∧ a.pos.toNat % 2 ^ a.align.val = 0

def Apart (a b : HeapAlloc) : Prop :=
  a.pos.toNat + a.size.toNat ≤ b.pos.toNat ∨ b.pos.toNat + b.size.toNat ≤ a.pos.toNat

instance (a : HeapAlloc) (heapSize : Nat) : Decidable (a.Fits heapSize) := inferInstanceAs (Decidable (_ ∧ _))

instance (a b : HeapAlloc) : Decidable (a.Apart b) := inferInstanceAs (Decidable (_ ∨ _))

end HeapAlloc

def Precedes (heapSize position value : Nat) : Prop :=
  value < heapSize ∧ ∃ lap, position + heapSize = lap * heapSize + value + 1

structure HeapInv (s : HeapRun) : Prop where
  put : s.heap.putPos.toNat < s.heap.size.toNat
  window : s.start ≤ s.finish ∧ s.finish < s.start + s.heap.size.toNat
  get : Precedes s.heap.size.toNat s.start s.heap.getPos.toNat
  fits : ∀ a ∈ s.allocs, a.Fits s.heap.size.toNat
  finished : ∀ a ∈ s.allocs, a.first s.heap.size.toNat + a.size.toNat ≤ s.finish
  ordered : s.allocs.Pairwise fun a b => a.first s.heap.size.toNat + a.size.toNat ≤ b.first s.heap.size.toNat
  retired : s.retired ≤ s.allocs.length
  live : ∀ a ∈ s.live, s.start ≤ a.first s.heap.size.toNat
  taken : ∀ t ∈ s.taken, s.start ≤ t.position ∧ t.position ≤ s.finish ∧
    Precedes s.heap.size.toNat t.position t.value.toNat ∧ t.count ≤ s.allocs.length ∧
    ∀ a ∈ s.allocs.drop t.count, t.position ≤ a.first s.heap.size.toNat
  inOrder : s.taken.Pairwise fun t u => t.position ≤ u.position

structure Empty (s : HeapRun) : Prop where
  size : s.heap.size = 0
  put : s.heap.putPos = 0
  get : s.heap.getPos = -1
  allocs : s.allocs = []
  taken : ∀ t ∈ s.taken, t.value = -1

variable {s s' : HeapRun} {k : Fin 31} {size : Usz}

theorem HeapInv.start_eq (h : HeapInv s) : (s.heap.getPos.toNat < s.heap.putPos.toNat →
      s.start = s.lap * s.heap.size.toNat + s.heap.getPos.toNat + 1) ∧ (s.heap.putPos.toNat ≤ s.heap.getPos.toNat →
      s.start + s.heap.size.toNat = s.lap * s.heap.size.toNat + s.heap.getPos.toNat + 1) := by
  have hput := h.put
  have ⟨hlow, hhigh⟩ := h.window
  have ⟨hget, lap, hlap⟩ := h.get
  unfold HeapRun.finish at hlow hhigh
  constructor
  · intro hlt
    -- both are in the lap of the put position
    have heq : lap = s.lap + 1 := by
      rcases Nat.lt_trichotomy lap (s.lap + 1) with hcmp | hcmp | hcmp
      · have hle := mul_le_mul_right s.heap.size.toNat (le_of_lt_succ hcmp)
        omega
      · exact hcmp
      · have hle : (s.lap + 2) * s.heap.size.toNat ≤ lap * s.heap.size.toNat := mul_le_mul_right _ hcmp
        rw [Nat.add_mul] at hle
        omega
    rw [heq, Nat.succ_mul] at hlap
    omega
  · intro hle
    have heq : lap = s.lap := by
      rcases Nat.lt_trichotomy lap s.lap with hcmp | hcmp | hcmp
      · have hmul : (lap + 1) * s.heap.size.toNat ≤ s.lap * s.heap.size.toNat := mul_le_mul_right _ hcmp
        rw [Nat.succ_mul] at hmul
        omega
      · exact hcmp
      · have hmul : (s.lap + 1) * s.heap.size.toNat ≤ lap * s.heap.size.toNat := mul_le_mul_right _ hcmp
        rw [Nat.succ_mul] at hmul
        omega
    rw [heq] at hlap
    exact hlap

theorem heapInv_init {heapSize : Usz} (bufferName : Option String) (minGuardSize : Usz) (hsize : heapSize ≠ 0) :
    HeapInv { heap := .initial heapSize bufferName minGuardSize } := by
  have hpos := Nat.pos_of_ne_zero fun h => hsize (eq_of_toNat_eq h)
  have hget : (heapSize - 1).toNat = heapSize.toNat - 1 := by
    rw [toNat_sub_of_le]
    · rfl
    · exact hpos
  refine ⟨hpos, ⟨zero_le _, ?_⟩, ⟨?_, 0, ?_⟩, nofun, nofun, List.Pairwise.nil, le_refl _, nofun, nofun,
    List.Pairwise.nil⟩
  · show 0 * heapSize.toNat + 0 < 0 + heapSize.toNat
    omega
  · show (heapSize - 1).toNat < heapSize.toNat
    omega
  · show 0 + heapSize.toNat = 0 * heapSize.toNat + (heapSize - 1).toNat + 1
    omega

/-! ## Allocations -/

/-- The end of the allocation fits into `usz`, and there is free space between the put and the get position if the one
is not past the other. -/
def Room (h : DataHeap) (alignedPutPos allocSize : Usz) : Prop :=
  alignedPutPos.toNat + allocSize.toNat < 2 ^ 64 ∧ ¬(h.putPos ≤ h.getPos ∧ h.getPos ≤ alignedPutPos)

instance (h : DataHeap) (alignedPutPos allocSize : Usz) : Decidable (Room h alignedPutPos allocSize) :=
  inferInstanceAs (Decidable (_ ∧ _))

variable {h : DataHeap} {alignedPutPos allocSize : Usz}

theorem canAllocImpl_spec (hsum : alignedPutPos.toNat + allocSize.toNat < 2 ^ 64)
    (hcan : h.canAllocImpl alignedPutPos allocSize = true) : (alignedPutPos.toNat + allocSize.toNat < h.size.toNat ∧
      (alignedPutPos.toNat + allocSize.toNat < h.getPos.toNat ∨ h.getPos.toNat < alignedPutPos.toNat)) ∨
    (h.size.toNat ≤ alignedPutPos.toNat + allocSize.toNat ∧ h.getPos.toNat ≤ alignedPutPos.toNat ∧
      allocSize.toNat ≤ h.getPos.toNat) := by
  have hend : (alignedPutPos + allocSize).toNat = alignedPutPos.toNat + allocSize.toNat := by
    exact mod_eq_of_lt hsum
  unfold DataHeap.canAllocImpl at hcan
  simp only [lt_def, hend, gt_iff_lt] at hcan
  split at hcan
  next hlt =>
    split_ifs at hcan with hget
    · exact .inl ⟨hlt, .inl hget⟩
    · exact .inl ⟨hlt, .inr (of_decide_eq_true hcan)⟩
  rename_i hlt
  split at hcan
  · cases hcan
  rename_i hget
  split at hcan
  · cases hcan
  next hsize =>
    exact .inr ⟨Nat.le_of_not_lt hlt, Nat.le_of_not_lt hget, Nat.le_of_not_lt hsize⟩

theorem heapInv_record (h : HeapInv s) {put pos : Usz}
    (hput : put.toNat < s.heap.size.toNat) (hfits : HeapAlloc.Fits ⟨pos, size, k, 0⟩ s.heap.size.toNat) :
    let t := s.record k size ({ s.heap with putPos := put }, pos)
    s.finish ≤ t.lap * s.heap.size.toNat + pos.toNat →
    t.lap * s.heap.size.toNat + pos.toNat + size.toNat ≤ t.finish →
    t.finish < s.start + s.heap.size.toNat → HeapInv t := by
  intro t hfirst hlast hwindow
  have hmono : s.finish ≤ t.finish := by omega
  have hlive := h.live
  have hdrop : ∀ n ≤ s.allocs.length, t.allocs.drop n = s.allocs.drop n ++ [⟨pos, size, k, t.lap⟩] := by
    intro n hn
    exact drop_append_of_le_length hn
  have hlen : t.allocs.length = s.allocs.length + 1 := by
    show (s.allocs ++ [_]).length = _
    rw [length_append]
    rfl
  refine ⟨hput, ⟨le_trans h.window.1 hmono, hwindow⟩, h.get, ?_, ?_, ?_, ?_, ?_, ?_, h.inOrder⟩
  · exact forall_mem_append.mpr ⟨h.fits, forall_mem_singleton.mpr hfits⟩
  · exact forall_mem_append.mpr ⟨fun a ha => le_trans (h.finished a ha) hmono, forall_mem_singleton.mpr hlast⟩
  · refine pairwise_append.mpr ⟨h.ordered, pairwise_singleton .., fun a ha b hb => ?_⟩
    rw [mem_singleton.mp hb]
    exact le_trans (h.finished a ha) hfirst
  · have hret := h.retired
    rw [hlen]
    exact le_succ_of_le hret
  · intro a ha
    have ha : a ∈ t.allocs.drop s.retired := ha
    rw [hdrop _ h.retired] at ha
    rcases mem_append.mp ha with ha | ha
    · exact hlive a ha
    · rw [mem_singleton.mp ha]
      exact le_trans h.window.1 hfirst
  · intro u hu
    have ⟨hlow, hhigh, hvalue, hcount, hafter⟩ := h.taken u hu
    refine ⟨hlow, le_trans hhigh hmono, hvalue, ?_, fun a ha => ?_⟩
    · rw [hlen]
      exact le_succ_of_le hcount
    · rw [hdrop _ hcount] at ha
      rcases mem_append.mp ha with ha | ha
      · exact hafter a ha
      · rw [mem_singleton.mp ha]
        exact le_trans hhigh hfirst

theorem heapInv_place (h : HeapInv s)
    (hcan : s.heap.canAllocImpl alignedPutPos allocSize = true) (hroom : Room s.heap alignedPutPos allocSize)
    (hput : s.heap.putPos.toNat ≤ alignedPutPos.toNat) (halign : alignedPutPos.toNat % 2 ^ k.val = 0)
    (hsize : size.toNat ≤ allocSize.toNat) : HeapInv (s.record k size (s.heap.place alignedPutPos allocSize)) := by
  have ⟨hsum, hfree⟩ := hroom
  have hend : (alignedPutPos + allocSize).toNat = alignedPutPos.toNat + allocSize.toNat := by
    exact mod_eq_of_lt hsum
  have hfree : s.heap.putPos.toNat ≤ s.heap.getPos.toNat → alignedPutPos.toNat < s.heap.getPos.toNat := by
    intro hle
    by_contra hlt
    exact hfree ⟨hle, Nat.le_of_not_lt hlt⟩
  have hput0 := h.put
  have ⟨hafter, hbefore⟩ := h.start_eq
  unfold DataHeap.place
  rcases canAllocImpl_spec hsum hcan with ⟨hlt, hside⟩ | ⟨hge, hpast, hle⟩
  · -- in the lap of the put position
    have hin : alignedPutPos + allocSize < s.heap.size := by
      rw [lt_def, hend]
      exact hlt
    rw [if_pos hin]
    have hlap : (if alignedPutPos < s.heap.putPos then s.lap + 1 else s.lap) = s.lap := by
      rw [if_neg]
      rw [lt_def]
      omega
    refine heapInv_record h ?_ ⟨?_, halign⟩ ?_ ?_ ?_
    · rw [hend]
      exact hlt
    · show alignedPutPos.toNat + size.toNat ≤ _
      omega
    · show s.lap * _ + _ ≤ (if _ then _ else _) * s.heap.size.toNat + _
      rw [hlap]
      omega
    · show (if _ then _ else _) * s.heap.size.toNat + _ + _ ≤
        (if _ then _ else _) * s.heap.size.toNat + (alignedPutPos + allocSize).toNat
      omega
    · show (if _ then _ else _) * s.heap.size.toNat + (alignedPutPos + allocSize).toNat < _
      rw [hlap, hend]
      by_cases hcmp : s.heap.getPos.toNat < s.heap.putPos.toNat
      · omega
      · omega
  · -- at the start of the next lap
    have hout : ¬alignedPutPos + allocSize < s.heap.size := by
      rw [lt_def, hend]
      omega
    rw [if_neg hout]
    have hcmp : s.heap.getPos.toNat < s.heap.putPos.toNat := by
      by_contra hcmp
      omega
    have hlap : (if (0 : Usz) < s.heap.putPos then s.lap + 1 else s.lap) = s.lap + 1 := by
      rw [if_pos]
      exact zero_lt_of_lt hcmp
    refine heapInv_record h ?_ ⟨?_, zero_mod _⟩ ?_ ?_ ?_
    · omega
    · show 0 + size.toNat ≤ _
      omega
    · show s.lap * _ + _ ≤ (if _ then _ else _) * s.heap.size.toNat + 0
      rw [hlap, Nat.succ_mul]
      omega
    · show (if _ then _ else _) * s.heap.size.toNat + 0 + _ ≤ (if _ then _ else _) * s.heap.size.toNat + allocSize.toNat
      omega
    · show (if _ then _ else _) * s.heap.size.toNat + allocSize.toNat < _
      rw [hlap, Nat.succ_mul]
      omega

theorem alloc_eq {r : DataHeap × Usz} (hr : (h.alloc k size).toOption = some r) :
    h.canAlloc k size = true ∧ r = h.place (alignUsz h.putPos (alignment k)) (alignUsz size (alignment k)) := by
  unfold DataHeap.alloc DataHeap.grow at hr
  split_ifs at hr with hcan
  · cases hr
  · exact ⟨by simpa using hcan, (Option.some.inj hr).symm⟩

theorem staticAlloc_eq {r : DataHeap × Usz} (hr : (h.staticAlloc k size).toOption = some r) :
    h.putPos &&& (alignment k - 1) = 0 ∧ h.canAllocImpl h.putPos size = true ∧ r = h.place h.putPos size := by
  unfold DataHeap.staticAlloc DataHeap.grow at hr
  split at hr
  · cases hr
  rename_i halign
  split_ifs at hr with hcan
  · cases hr
  · exact ⟨not_not.mp halign, by simpa using hcan, (Option.some.inj hr).symm⟩

/-! ## Steps -/

/-- Allocations with room for them; the rounded sizes and positions fit into `usz`. -/
def Clear (s : HeapRun) : HeapEvent → Prop
  | .alloc k size =>
    size.toNat + (2 ^ k.val - 1) < 2 ^ 64 ∧ s.heap.putPos.toNat + (2 ^ k.val - 1) < 2 ^ 64 ∧
      Room s.heap (alignUsz s.heap.putPos (alignment k)) (alignUsz size (alignment k))
  | .staticAlloc _ size => Room s.heap s.heap.putPos size
  | _ => True

instance (s : HeapRun) (e : HeapEvent) : Decidable (Clear s e) :=
  match e with
  | .alloc _ _ => inferInstanceAs (Decidable (_ ∧ _))
  | .staticAlloc _ size => inferInstanceAs (Decidable (Room s.heap s.heap.putPos size))
  | .getCurrentPutPosMinusOne | .setGetPos _ => isTrue trivial

theorem heapInv_take (h : HeapInv s) :
    HeapInv { s with taken := s.taken ++ [⟨s.heap.getCurrentPutPosMinusOne, s.finish, s.allocs.length⟩] } := by
  have hput := h.put
  have hvalue : Precedes s.heap.size.toNat s.finish s.heap.getCurrentPutPosMinusOne.toNat := by
    unfold DataHeap.getCurrentPutPosMinusOne HeapRun.finish
    split
    next hpos =>
      have hpos : 0 < s.heap.putPos.toNat := hpos
      have hsub : (s.heap.putPos - 1).toNat = s.heap.putPos.toNat - 1 := by
        rw [toNat_sub_of_le]
        · rfl
        · exact hpos
      refine ⟨by omega, s.lap + 1, ?_⟩
      rw [Nat.succ_mul]
      omega
    next hzero =>
      have hzero := Nat.eq_zero_of_not_pos hzero
      have hsub : (s.heap.size - 1).toNat = s.heap.size.toNat - 1 := by
        rw [toNat_sub_of_le]
        · rfl
        · exact zero_lt_of_lt hput
      exact ⟨by omega, s.lap, by omega⟩
  refine { h with taken := fun t ht => ?_, inOrder := ?_ }
  · rcases mem_append.mp ht with ht | ht
    · exact h.taken t ht
    rw [mem_singleton.mp ht]
    refine ⟨h.window.1, le_refl _, hvalue, le_refl _, fun a ha => ?_⟩
    rw [drop_length] at ha
    cases ha
  · refine pairwise_append.mpr ⟨h.inOrder, pairwise_singleton .., fun t ht u hu => ?_⟩
    rw [mem_singleton.mp hu]
    exact (h.taken t ht).2.1

theorem heapInv_setGetPos (h : HeapInv s) {i : Nat} {t : HeapMark} {rest : List HeapMark}
    (ht : s.taken.drop i = t :: rest) :
    HeapInv { s with heap := s.heap.setGetPos t.value, start := t.position, retired := t.count, taken := t :: rest } := by
  have hmem : ∀ u ∈ t :: rest, u ∈ s.taken := by
    intro u hu
    rw [← ht] at hu
    exact mem_of_mem_drop hu
  have horder : (t :: rest).Pairwise fun t u => t.position ≤ u.position := by
    rw [← ht]
    exact h.inOrder.drop
  have ⟨hlow, hhigh, hvalue, hcount, hafter⟩ := h.taken t (hmem t mem_cons_self)
  have hwindow := h.window.2
  refine ⟨h.put, ⟨hhigh, ?_⟩, hvalue, h.fits, h.finished, h.ordered, hcount, hafter, fun u hu => ?_, horder⟩
  · show s.finish < t.position + s.heap.size.toNat
    omega
  · have ⟨_, hhigh', hvalue', hcount', hafter'⟩ := h.taken u (hmem u hu)
    refine ⟨?_, hhigh', hvalue', hcount', hafter'⟩
    rcases mem_cons.mp hu with hu | hu
    · rw [hu]
    · exact (pairwise_cons.mp horder).1 u hu

theorem heapInv_step {e : HeapEvent} (h : HeapInv s) (hclear : Clear s e) (hstep : heapStep s e = some s') :
    HeapInv s' := by
  cases e with
  | alloc =>
    have ⟨r, hr, hs'⟩ := map_eq_some_iff.mp hstep
    have ⟨hcan, heq⟩ := alloc_eq hr
    have ⟨hsize, hput, hroom⟩ := hclear
    rw [← hs', heq]
    exact heapInv_place h hcan hroom (align_spec hput).1 (align_spec hput).2 (align_spec hsize).1
  | staticAlloc =>
    unfold heapStep at hstep
    dsimp only at hstep
    split at hstep
    · have ⟨r, hr, hs'⟩ := map_eq_some_iff.mp hstep
      have ⟨halign, hcan, heq⟩ := staticAlloc_eq hr
      rw [← hs', heq]
      exact heapInv_place h hcan hclear (le_refl _) (aligned_of_and halign) (le_refl _)
    · cases hstep
  | getCurrentPutPosMinusOne =>
    cases hstep
    exact heapInv_take h
  | setGetPos =>
    unfold heapStep at hstep
    dsimp only at hstep
    split at hstep
    · cases hstep
    next t rest ht =>
      cases hstep
      exact heapInv_setGetPos h ht

theorem empty_canAllocImpl (hsize : h.size = 0) (hget : h.getPos = -1)
    (hput : alignedPutPos = 0) : h.canAllocImpl alignedPutPos allocSize = false := by
  unfold DataHeap.canAllocImpl
  rw [hsize, hget, hput]
  rw [if_neg, if_pos]
  · decide
  · exact not_lt_zero

theorem empty_step {e : HeapEvent} (h : Empty s) (hstep : heapStep s e = some s') : Empty s' := by
  have hzero : ∀ k : Fin 31, alignUsz 0 (alignment k) = 0 := by decide
  cases e with
  | alloc k =>
    have ⟨r, hr, _⟩ := map_eq_some_iff.mp hstep
    have hcan := (alloc_eq hr).1
    unfold DataHeap.canAlloc at hcan
    rw [h.put, empty_canAllocImpl h.size h.get (hzero k)] at hcan
    cases hcan
  | staticAlloc =>
    unfold heapStep at hstep
    dsimp only at hstep
    split at hstep
    · have ⟨r, hr, _⟩ := map_eq_some_iff.mp hstep
      have hcan := (staticAlloc_eq hr).2.1
      rw [empty_canAllocImpl h.size h.get h.put] at hcan
      cases hcan
    · cases hstep
  | getCurrentPutPosMinusOne =>
    cases hstep
    refine { h with taken := fun t ht => ?_ }
    rcases mem_append.mp ht with ht | ht
    · exact h.taken t ht
    rw [mem_singleton.mp ht]
    show s.heap.getCurrentPutPosMinusOne = -1
    unfold DataHeap.getCurrentPutPosMinusOne
    rw [h.put, h.size]
    decide
  | setGetPos =>
    unfold heapStep at hstep
    dsimp only at hstep
    split at hstep
    · cases hstep
    rename_i t rest ht
    have hmem : ∀ u ∈ t :: rest, u ∈ s.taken := by
      intro u hu
      rw [← ht] at hu
      exact mem_of_mem_drop hu
    cases hstep
    exact ⟨h.size, h.put, h.taken t (hmem t mem_cons_self), h.allocs, fun u hu => h.taken u (hmem u hu)⟩

/-! ## Runs -/

/-- Every allocation is inside of the heap and aligned, and those made after the position last passed to
`set_get_pos` was taken have no byte in common. -/
structure AllocSafe (s : HeapRun) : Prop where
  fits : ∀ a ∈ s.allocs, a.Fits s.heap.size.toNat
  apart : s.live.Pairwise HeapAlloc.Apart

theorem HeapInv.safe (h : HeapInv s) : AllocSafe s := by
  refine ⟨h.fits, ?_⟩
  have hordered : s.live.Pairwise fun a b => a.first s.heap.size.toNat + a.size.toNat ≤ b.first s.heap.size.toNat :=
    h.ordered.drop
  refine hordered.imp_of_mem fun {a b} ha hb hab => ?_
  have hb' := mem_of_mem_drop hb
  have hlow := h.live a ha
  have hhigh := h.finished b hb'
  have hwindow := h.window.2
  have hfits := (h.fits b hb').1
  exact Ring.stretches_disjoint hlow hab (by unfold HeapAlloc.first at hhigh; omega) (by omega)

/-- In every run on allocations for which there is room. -/
theorem alloc_safe (hs : (heapSystem.restrict Clear).Reachable s) : AllocSafe s := by
  have hinv : Empty s ∨ HeapInv s := by
    refine hs.invariant (P := fun s => Empty s ∨ HeapInv s) ?_ ?_
    · intro s₀ ⟨heapSize, bufferName, minGuardSize, hs₀⟩
      rw [hs₀]
      by_cases hsize : heapSize = 0
      · refine .inl ⟨hsize, rfl, ?_, rfl, nofun⟩
        show heapSize - 1 = -1
        rw [hsize]
        decide
      · exact .inr (heapInv_init bufferName minGuardSize hsize)
    · intro s₁ e s₂ hinv hstep
      have ⟨hclear, hstep⟩ := System.step_restrict.mp hstep
      rcases hinv with hempty | hinv
      · exact .inl (empty_step hempty hstep)
      · exact .inr (heapInv_step hinv hclear hstep)
  rcases hinv with hempty | hinv
  · refine ⟨?_, ?_⟩
    · rw [hempty.allocs]
      exact nofun
    · unfold HeapRun.live
      rw [hempty.allocs, drop_nil]
      exact List.Pairwise.nil
  · exact hinv.safe

theorem heapSystem_init (heapSize : Usz) : heapSystem.init { heap := .initial heapSize none 0x10000 } :=
  ⟨heapSize, none, 0x10000, rfl⟩

theorem alloc_safe_lap : ∃ s,
    (heapSystem.restrict Clear).Reachable s ∧ s.lap = 1 ∧ s.live.length = 2 ∧ AllocSafe s := by
  have ⟨s, hs, hlap, hlive⟩ := System.Reachable.exists_of_run (M := heapSystem.restrict Clear) (heapSystem_init 128)
    [.alloc 4 60, .getCurrentPutPosMinusOne, .staticAlloc 4 32, .setGetPos 0, .alloc 5 20]
    (fun s => s.lap = 1 ∧ s.live.length = 2) (by decide +kernel)
  exact ⟨s, hs, hlap, hlive, alloc_safe hs⟩

/-- The put position reaches the get position, and the next allocation goes once more to the start of the heap; the
put position is rounded up past the get position; and the end of an allocation is too large for `usz`. -/
theorem alloc_unsafe : (∃ s, heapSystem.Reachable s ∧ ¬s.live.Pairwise HeapAlloc.Apart ∧ ∀ a ∈ s.allocs, a.align = 0) ∧
    (∃ s, heapSystem.Reachable s ∧ ¬s.live.Pairwise HeapAlloc.Apart ∧ s.lap = 1) ∧
    ∃ s, heapSystem.Reachable s ∧ ∃ a ∈ s.allocs, ¬a.Fits s.heap.size.toNat := by
  refine ⟨?_, ?_, ?_⟩
  · exact System.Reachable.exists_of_run (heapSystem_init 100)
      [.alloc 0 61, .getCurrentPutPosMinusOne, .alloc 0 37, .setGetPos 0, .alloc 0 60, .alloc 0 40] _ (by decide +kernel)
  · exact System.Reachable.exists_of_run (heapSystem_init 100)
      [.alloc 0 7, .getCurrentPutPosMinusOne, .alloc 0 91, .setGetPos 0, .alloc 0 5, .alloc 4 16] _ (by decide +kernel)
  · exact System.Reachable.exists_of_run (heapSystem_init 100)
      [.alloc 0 50, .alloc 0 (-40)] _ (by decide +kernel)

end Armsx3.Rsx
