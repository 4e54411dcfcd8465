import Mathlib

/-!
# WriterLock — the range test of a writer lock

A writer lock on a reservation waits for the range locks of other threads that touch the locked
address.  Both sides are first mapped through `g_shmem`, and then compared by 128-byte line, one 64K
page of the range at a time.  All the arithmetic is `u64` and wraps.
-/

namespace Armsx3.Vm.WriterLock

/-- `g_shmem`: for each 64K page that is shareable, bits 16 to 47 of its entry.  `_page_map` ensures
    that in such an entry bit 63 is set and all other bits are zero. -/
abbrev Shmem := Nat → Option (BitVec 32)

def isShared (m : BitVec 32) : Nat := 2 ^ 63 + m.toNat * 0x10000

/-- An address of page `hi` in the space the two sides are compared in.  The low 16 bits of
    `is_shared` are zero, so the source's `|` is a sum. -/
def remap (g : Shmem) (hi addr : Nat) : Nat :=
  match g hi with
  | none => addr
  | some m => addr % 0x10000 + isShared m

def sub64 (a b : Nat) : Nat := (a + 2 ^ 64 - b) % 2 ^ 64

/-- `utils::align(addr, 0x10000)`: an aligned address stays where it is. -/
def align (addr : Nat) : Nat := (addr + 0xffff) / 0x10000 * 0x10000

/-- The test of one part of a range, `size` bytes from the mapped address `addr3`. -/
def hits (point addr3 size3 : Nat) : Bool :=
  sub64 point (addr3 / 128) ≤ sub64 (sub64 (addr3 + size3) 1 / 128) (addr3 / 128)

/-- The loop over the pages `hi … max` of a range, of which `n` are left. -/
def scanPages (g : Shmem) (point : Nat) : Nat → Nat → Nat → Nat → Bool
  | 0, _, _, _ => false
  | n + 1, hi, addr2, size2 =>
    let size3 := sub64 (min (addr2 + size2) (align addr2)) addr2
    if hits point (remap g hi addr2) size3 then true
    else scanPages g point n (hi + 1) (addr2 + size3) ((size2 + 2 ^ 32 - size3 % 2 ^ 32) % 2 ^ 32)

/-- The address of a byte after the mapping of its own page. -/
def mapped (g : Shmem) (addr : Nat) : Nat := remap g (addr / 0x10000) addr

/-- The lambda given to `for_all_range_locks`, for a lock of `addr` and a range lock word whose low
    half is `addr2` and whose high half is `size2`, which is not zero. -/
def conflict (g : Shmem) (addr addr2 size2 : BitVec 32) : Bool :=
  -- `range_readable` in the flag bits
  if size2.toNat / 2 ^ 29 = 2 then false
  else
    let hi := addr2.toNat / 0x10000
    let max := (addr2.toNat + size2.toNat - 1) / 0x10000
    scanPages g (mapped g addr.toNat / 128) (max + 1 - hi) hi addr2.toNat size2.toNat

/-- A byte of the first range and a byte of the second lie in one 128-byte line. -/
def ShareLine (g : Shmem) (addr size addr2 size2 : Nat) : Prop :=
  ∃ a b, (addr ≤ a ∧ a < addr + size) ∧ (addr2 ≤ b ∧ b < addr2 + size2) ∧ mapped g a / 128 = mapped g b / 128

variable {g : Shmem}

theorem mapped_lt {addr : Nat} (h : addr < 2 ^ 32) : mapped g addr < 2 ^ 64 - 0x10000 := by
  unfold mapped remap
  cases g (addr / 0x10000) with
  | none => simp only; omega
  | some =>
    simp only [isShared]
    omega

theorem mapped_add {addr k : Nat} (h : addr % 0x10000 + k < 0x10000) : mapped g (addr + k) = mapped g addr + k := by
  have hpage : (addr + k) / 0x10000 = addr / 0x10000 := by omega
  unfold mapped remap
  rw [hpage]
  cases g (addr / 0x10000) with
  | none => rfl
  | some => simp only; omega

/-- Of a non-empty part the test is exact: the point is one of the lines it touches. -/
theorem hits_iff {point addr3 size3 : Nat} (hp : point < 2 ^ 57) (ha : addr3 < 2 ^ 64 - 0x10000)
    (hpos : 0 < size3) (hsize : size3 ≤ 0x10000) :
    hits point addr3 size3 = true ↔ ∃ k < size3, (addr3 + k) / 128 = point := by
  -- nothing wraps in the bound, so only a point below the first line makes a large difference
  have hlast : sub64 (addr3 + size3) 1 = addr3 + size3 - 1 := by unfold sub64; omega
  unfold hits
  rw [hlast, decide_eq_true_eq]
  constructor
  · intro h
    refine ⟨point * 128 - addr3, ?_⟩
    unfold sub64 at h
    omega
  · rintro ⟨k, hk, rfl⟩
    unfold sub64
    omega

/-- A word whose range lies in one 64K page takes one turn of the loop, and unless it starts at the
    first byte of the page its part is the whole range. -/
theorem conflict_eq_hits {addr addr2 size2 : BitVec 32} (hpos : 0 < size2.toNat)
    (hpage : addr2.toNat % 0x10000 + size2.toNat ≤ 0x10000) (hstart : addr2.toNat % 0x10000 ≠ 0) :
    conflict g addr addr2 size2 = hits (mapped g addr.toNat / 128) (mapped g addr2.toNat) size2.toNat := by
  have hflag : ¬ size2.toNat / 2 ^ 29 = 2 := by omega
  have hturns : (addr2.toNat + size2.toNat - 1) / 0x10000 + 1 - addr2.toNat / 0x10000 = 1 := by omega
  have hpart : sub64 (min (addr2.toNat + size2.toNat) (align addr2.toNat)) addr2.toNat = size2.toNat := by
    unfold sub64 align
    omega
  unfold conflict
  rw [if_neg hflag]
  simp only [hturns, scanPages, hpart, mapped, Bool.if_false_right, Bool.and_true, Bool.decide_eq_true]

theorem conflict_iff_shareLine {addr addr2 size2 : BitVec 32} (hpos : 0 < size2.toNat)
    (hpage : addr2.toNat % 0x10000 + size2.toNat ≤ 0x10000) (hstart : addr2.toNat % 0x10000 ≠ 0) :
    conflict g addr addr2 size2 = true ↔ ShareLine g addr.toNat 1 addr2.toNat size2.toNat := by
  have hpoint := mapped_lt (g := g) addr.isLt
  rw [conflict_eq_hits hpos hpage hstart, hits_iff (by omega) (mapped_lt addr2.isLt) hpos (by omega)]
  -- a byte of the range is its start and an offset, which the mapping keeps
  constructor
  · rintro ⟨k, hk, hline⟩
    refine ⟨addr.toNat, addr2.toNat + k, by omega, by omega, ?_⟩
    rw [mapped_add (by omega), hline]
  · rintro ⟨a, b, ha, hb, hline⟩
    obtain rfl : a = addr.toNat := by omega
    refine ⟨b - addr2.toNat, by omega, ?_⟩
    rw [hline, ← mapped_add (by omega), Nat.add_sub_cancel' hb.1]

/-- The part that starts at a page is empty, and the bound of its test wraps: every point is in it. -/
theorem scanPages_aligned {point addr2 : Nat} (n hi size2 : Nat) (hp : point < 2 ^ 57) (haddr : addr2 < 2 ^ 33)
    (hstart : addr2 % 0x10000 = 0) : scanPages g point (n + 1) hi addr2 size2 = true := by
  have hpart : sub64 (min (addr2 + size2) (align addr2)) addr2 = 0 := by
    unfold sub64 align
    omega
  have hmap : remap g hi addr2 % 0x10000 = 0 ∧ remap g hi addr2 < 2 ^ 64 := by
    unfold remap
    cases g hi with
    | none => simp only; omega
    | some =>
      simp only [isShared]
      omega
  have hhits : hits point (remap g hi addr2) 0 = true := by
    unfold hits sub64
    rw [decide_eq_true_eq]
    omega
  simp only [scanPages, hpart, hhits, if_true]

/-- A range that starts at a page or reaches into the next one is in conflict with every lock. -/
theorem conflict_of_page {addr addr2 size2 : BitVec 32} (hpos : 0 < size2.toNat) (hflags : size2.toNat < 2 ^ 29)
    (h : addr2.toNat % 0x10000 = 0 ∨ 0x10000 < addr2.toNat % 0x10000 + size2.toNat) :
    conflict g addr addr2 size2 = true := by
  have hflag : ¬ size2.toNat / 2 ^ 29 = 2 := by omega
  have hpoint : mapped g addr.toNat / 128 < 2 ^ 57 := by have := mapped_lt (g := g) addr.isLt; omega
  unfold conflict
  rw [if_neg hflag]
  dsimp only
  by_cases hstart : addr2.toNat % 0x10000 = 0
  · obtain ⟨n, hn⟩ : ∃ n, (addr2.toNat + size2.toNat - 1) / 0x10000 + 1 - addr2.toNat / 0x10000 = n + 1 :=
      Nat.exists_eq_add_one.mpr (by omega)
    rw [hn]
    exact scanPages_aligned _ _ _ hpoint (by omega) hstart
  · -- the first turn ends at the page, where the second one starts
    obtain ⟨n, hn⟩ : ∃ n, (addr2.toNat + size2.toNat - 1) / 0x10000 + 1 - addr2.toNat / 0x10000 = n + 2 :=
      Nat.exists_eq_add_of_le' (by omega)
    have hpart : addr2.toNat + sub64 (min (addr2.toNat + size2.toNat) (align addr2.toNat)) addr2.toNat =
        align addr2.toNat := by
      unfold sub64 align
      omega
    have hsecond := fun hi size => scanPages_aligned (g := g) n hi size hpoint
      (show align addr2.toNat < 2 ^ 33 by unfold align; omega) (Nat.mul_mod_left _ _)
    rw [hn, scanPages, hpart, hsecond, ite_self]

/-- The range test is exact for the line of the locked address when the range lies within one 64K page and does not
    start at its first byte, and otherwise only when the range shares the line. -/
theorem conflict_exact_iff (addr addr2 size2 : BitVec 32) (hpos : 0 < size2.toNat) (hflags : size2.toNat < 2 ^ 29) :
    (conflict g addr addr2 size2 = true ↔ ShareLine g addr.toNat 1 addr2.toNat size2.toNat) ↔
      (addr2.toNat % 0x10000 ≠ 0 ∧ addr2.toNat % 0x10000 + size2.toNat ≤ 0x10000) ∨
        ShareLine g addr.toNat 1 addr2.toNat size2.toNat := by
  by_cases h : addr2.toNat % 0x10000 ≠ 0 ∧ addr2.toNat % 0x10000 + size2.toNat ≤ 0x10000
  · exact iff_of_true (conflict_iff_shareLine hpos h.2 h.1) (Or.inl h)
  · rw [conflict_of_page hpos hflags (by omega), or_iff_right h]
    simp only [true_iff]

/-- Two pages that share one object: a range in the one, a lock in the other. -/
theorem conflict_exact_iff_shared : let g : Shmem := fun hi => if hi < 2 then some 5 else none
    conflict g 0x00080 0x100ff 4 = true ∧ ShareLine g 0x00080 1 0x100ff 4 := by
  intro g
  have h : conflict g 0x00080 0x100ff 4 = true := by decide +kernel
  exact ⟨h, ((conflict_exact_iff _ _ _ (by decide) (by decide)).mpr (Or.inl (by decide))).mp h⟩

/-- A range that starts at a page is in conflict with a lock far from it, and so is one that reaches into a page. -/
theorem conflict_not_shareLine : let g : Shmem := fun _ => none
    (conflict g 0x50000 0x10000 4 = true ∧ ¬ ShareLine g 0x50000 128 0x10000 4) ∧
    conflict g 0x50000 0x1fffc 8 = true ∧ ¬ ShareLine g 0x50000 128 0x1fffc 8 := by
  intro g
  refine ⟨⟨by decide +kernel, ?_⟩, by decide +kernel, ?_⟩
  all_goals
    rintro ⟨a, b, ha, hb, hline⟩
    simp only [mapped, remap, g] at hline
    omega

end Armsx3.Vm.WriterLock
