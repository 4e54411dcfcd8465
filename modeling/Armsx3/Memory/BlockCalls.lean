import Armsx3.Memory.BlockTable

/-!
# What each call on a block does to the two tables

`alloc` and `falloc` make one entry or change nothing, `dealloc` removes one entry or changes nothing, and
`unmap` frees the pages of all entries of the block.
-/

namespace Armsx3.Vm

open Pages List Option Nat Function

variable {ι : Type} [DecidableEq ι] {L : Layout ι}

/-! ## Making an entry -/

theorem or_mod_4096 {x y : Word} (hx : x.toNat % 4096 = 0) (hy : y.toNat % 4096 = 0) : (x ||| y).toNat % 4096 = 0 := by
  rw [BitVec.toNat_or, show 4096 = 2 ^ 12 from rfl, or_mod_two_pow]
  rw [show 2 ^ 12 = 4096 from rfl, hx, hy]
  rfl

variable {pages : Pages} {addr size : Word} {f : PageFlags}

theorem Pages.map_eq (hpos : 0 < size.toNat)
    (haddr : addr.toNat % 4096 = 0) (hsize : size.toNat % 4096 = 0) (hf : f &&& pageAllocated = 0)
    (hfree : ∀ p, addr.toNat / 4096 ≤ p → p < addr.toNat / 4096 + size.toNat / 4096 → pages p = 0) :
    pages.map addr f size = some (pages.fill (addr.toNat / 4096) (size.toNat / 4096) (f ||| pageAllocated)) := by
  have hne : size ≠ 0 := by
    rintro rfl
    exact absurd hpos (by decide)
  have hok : ¬ (size = 0 ∨ (size ||| addr).toNat % 4096 ≠ 0 ∨ f &&& pageAllocated ≠ 0) := by
    rw [or_mod_4096 hsize haddr, hf]
    tauto
  rw [map, if_neg hok, if_pos (isFree_iff.mpr hfree)]

theorem Pages.guard_eq {p : Nat} (h : pages p = 0) : pages.guard p = some (pages.fill p 1 pageAllocated) := if_pos h

variable {b : Block} {x : Nat × Entry}

theorem Pages.fill_guarded (hx : Fits b x) (f : PageFlags) :
    ((pages.fill (x.1 / 4096) 1 pageAllocated).fill (x.1 / 4096 + x.2.size.toNat / 4096 - 1) 1
      pageAllocated).fill (x.1 / 4096 + 1) (x.2.size.toNat / 4096 - 2) (f ||| pageAllocated) =
    pages.place true x f := by
  have ⟨h1, h2, _, h4, _, _⟩ := hx
  funext p
  simp only [fill, place, pageFlags, hx.covers_iff, true_and]
  split
  · rw [if_pos (by omega), if_neg (by omega)]
  split
  · rw [if_pos (by omega), if_pos (by omega)]
  · split
    · rw [if_pos (by omega), if_pos (by omega)]
    · rw [if_neg (by omega)]

theorem Pages.fill_unguarded (hx : Fits b x) (f : PageFlags) :
    pages.fill (x.1 / 4096) (x.2.size.toNat / 4096) (f ||| pageAllocated) = pages.place false x f := by
  funext p
  simp only [fill, place, pageFlags, Bool.false_eq_true, false_and, if_false, hx.covers_iff]

theorem Fits.le_two_pow (h : Fits b x) : x.1 + x.2.size.toNat ≤ 2 ^ 32 := h.high.trans b.fits

theorem isFree_entry {addr : Word} {e : Entry} (hx : Fits b (addr.toNat, e)) :
    pages.isFree (addr.toNat / 4096) ((addr + e.size - 1).toNat / 4096 + 1 - addr.toNat / 4096) = true ↔
    ∀ p, Covers (addr.toNat, e) p → pages p = 0 := by
  have ⟨h1, h2, h3, _, _, _⟩ := hx
  have htop := hx.le_two_pow
  simp only at h1 h2 h3 htop
  have hlast : (addr + e.size - 1).toNat = addr.toNat + e.size.toNat - 1 := by bv_omega
  rw [isFree_iff, hlast]
  constructor
  · intro h p hp
    simp only [Covers] at hp
    apply h p <;> omega
  · intro h p hp1 hp2
    apply h p
    simp only [Covers]
    omega

variable {i : ι}

theorem tryAlloc_eq (s : State ι) (bflags : BlockFlags)
    {shm : Option ShmId × ShmId} (hx : Fits (L.block i) (addr.toNat, ⟨size, shm.1⟩)) :
    ((∀ p, Covers (addr.toNat, ⟨size, shm.1⟩) p → s.pages p = 0) ∧
      tryAlloc L s i addr bflags size shm = some (s.insert i (L.block i).guarded
        (addr.toNat, ⟨size, shm.1⟩) (entryFlags bflags) shm.2, true)) ∨
    tryAlloc L s i addr bflags size shm = some (s, false) := by
  have ⟨h1, h2, h3, h4, _, _⟩ := hx
  have htop := hx.le_two_pow
  simp only at h1 h2 h3 h4 htop
  by_cases hfree : ∀ p, Covers (addr.toNat, ⟨size, shm.1⟩) p → s.pages p = 0
  · refine .inl ⟨hfree, ?_⟩
    rw [tryAlloc, if_pos ((isFree_entry hx).mpr hfree)]
    have hcov : ∀ p, addr.toNat / 4096 ≤ p → p < addr.toNat / 4096 + size.toNat / 4096 →
        s.pages p = 0 := fun p hp1 hp2 => hfree p (hx.covers_iff.mpr ⟨hp1, hp2⟩)
    have hf := entryFlags_and_allocated bflags
    cases hg : (L.block i).guarded with
    | false =>
      have haddr : addr + 0 = addr := BitVec.add_zero addr
      have hsize : size - 0 = size := BitVec.sub_zero size
      simp only [Bool.false_eq_true, if_false, bind_some]
      rw [haddr, hsize, map_eq h3 h1 h2 hf hcov, fill_unguarded hx]
      rfl
    | true =>
      have hbig := h4 hg
      have haddr : (addr + 0x1000).toNat = addr.toNat + 0x1000 := by bv_omega
      have hsize : (size - 0x2000).toNat = size.toNat - 0x2000 := by bv_omega
      have hfirst : (addr + 0x1000).toNat / 4096 = addr.toNat / 4096 + 1 := by omega
      have hcount : (size - 0x2000).toNat / 4096 = size.toNat / 4096 - 2 := by omega
      simp only [if_true]
      rw [guard_eq (hcov _ (by omega) (by omega)), bind_some, guard_eq,
        bind_some, map_eq (by omega) (by omega) (by omega) hf]
      · rw [hfirst, hcount, fill_guarded hx]
        rfl
      · intro p hp1 hp2
        rw [fill_of_not_mem (by omega), fill_of_not_mem (by omega)]
        exact hcov p (by omega) (by omega)
      · rw [fill_of_not_mem (by omega)]
        exact hcov _ (by omega) (by omega)
  · refine .inr ?_
    rw [tryAlloc, if_neg fun h => hfree ((isFree_entry hx).mp h)]

/-! ## Sizes and alignments -/

theorem toNat_shiftRight {n : Nat} {a : Word} (ha : a = 0x80000000#32 >>> n) (hne : a ≠ 0) :
    ∃ k, k ≤ 31 ∧ a.toNat = 2 ^ k := by
  have htoNat : a.toNat = 2 ^ 31 / 2 ^ n := by
    rw [ha, BitVec.toNat_ushiftRight, shiftRight_eq_div_pow]
    rfl
  by_cases hn : n ≤ 31
  · exact ⟨31 - n, Nat.sub_le _ _, by rw [htoNat, Nat.pow_div hn (by decide)]⟩
  · have hlt : 2 ^ 31 < 2 ^ n := Nat.pow_lt_pow_right (by decide) (by omega)
    rw [div_eq_of_lt hlt] at htoNat
    exact absurd (BitVec.eq_of_toNat_eq htoNat) hne

variable {k : Nat}

theorem align_cases (value : Word) {a : Word} (ha : a.toNat = 2 ^ k) :
    (align value a = 0 ∧ 2 ^ 32 < value.toNat + 2 ^ k) ∨
    (value.toNat ≤ (align value a).toNat ∧ (align value a).toNat < value.toNat + 2 ^ k ∧
      2 ^ k ∣ (align value a).toNat) := by
  have hpos : 0 < 2 ^ k := Nat.two_pow_pos k
  have hsub : (a - 1).toNat = 2 ^ k - 1 := by
    bv_omega
  have hadd : (value + (a - 1)).toNat = (value.toNat + (2 ^ k - 1)) % 2 ^ 32 := by
    rw [BitVec.toNat_add, hsub]
  have halign : (align value a).toNat = (value.toNat + (2 ^ k - 1)) % 2 ^ 32 -
      (value.toNat + (2 ^ k - 1)) % 2 ^ 32 % 2 ^ k := by
    rw [align, Bits.toNat_and_neg ha, hadd]
  by_cases hwrap : value.toNat + (2 ^ k - 1) < 2 ^ 32
  · right
    refine ⟨by omega, by omega, ?_⟩
    rw [halign]
    exact dvd_sub_mod _
  · left
    have hw : (value.toNat + (2 ^ k - 1)) % 2 ^ 32 = value.toNat + (2 ^ k - 1) - 2 ^ 32 := by omega
    rw [hw, mod_eq_of_lt (by omega : value.toNat + (2 ^ k - 1) - 2 ^ 32 < 2 ^ k)] at halign
    exact ⟨BitVec.eq_of_toNat_eq (by rw [halign]; simp), by omega⟩

theorem minPageSize_toNat (flags : BlockFlags) : ∃ k, (minPageSize flags).toNat = 2 ^ k ∧ 12 ≤ k ∧ k ≤ 16 := by
  unfold minPageSize
  split
  · exact ⟨12, rfl, by decide, by decide⟩
  · exact ⟨16, rfl, by decide, by decide⟩

def guardBytes (guarded : Bool) : Nat := if guarded then 0x2000 else 0

variable {flags : BlockFlags}

theorem allocSize_toNat {origSize size : Word}
    (hsize : size = align origSize (minPageSize flags) + if flags.has stackGuarded then 0x2000 else 0)
    (h : ¬ (origSize = 0 ∨ size = 0 ∨ origSize > size)) :
    ∃ usable, size.toNat = usable + guardBytes (flags.has stackGuarded) ∧
      0 < origSize.toNat ∧ origSize.toNat ≤ usable ∧ usable % 4096 = 0 := by
  have ⟨k, hk, hk12, hk16⟩ := minPageSize_toNat flags
  have h16 : 2 ^ k ≤ 2 ^ 16 := Nat.pow_le_pow_right (by decide) hk16
  have hdvd : 4096 ∣ 2 ^ k := pow_dvd_pow 2 hk12
  have horig : 0 < origSize.toNat := by bv_omega
  have hle : origSize.toNat ≤ size.toNat := by bv_omega
  refine ⟨(align origSize (minPageSize flags)).toNat, ?_⟩
  have hg : size.toNat = ((align origSize (minPageSize flags)).toNat +
      guardBytes (flags.has stackGuarded)) % 2 ^ 32 := by
    rw [hsize, BitVec.toNat_add]
    unfold guardBytes
    split <;> rfl
  have hgle : guardBytes (flags.has stackGuarded) ≤ 0x2000 := by
    unfold guardBytes
    split <;> omega
  rcases align_cases origSize hk with ⟨hz, hbig⟩ | ⟨hlow, hhigh, hdiv⟩
  · -- a size near 4 GiB wraps to the guard pages alone
    rw [hz] at hg
    change size.toNat = (0 + _) % 2 ^ 32 at hg
    omega
  · exact ⟨by omega, horig, hlow, mod_eq_zero_of_dvd (hdvd.trans hdiv)⟩

/-! ## `alloc` and `falloc` -/

structure Made (L : Layout ι) (s : State ι) (i : ι) (x : Nat × Entry) (s' : State ι) : Prop where
  valid : s.valid i = true
  fits : Fits (L.block i) x
  free : ∀ p, Covers x p → s.pages p = 0
  eq : ∃ f n, s' = s.insert i (L.block i).guarded x f n

variable {s s' : State ι}

theorem Made.inv (hm : Made L s i x s') (h : Inv L s) : Inv L s' := by
  have ⟨f, n, heq⟩ := hm.eq
  rw [heq]
  exact h.insert f n hm.valid hm.fits hm.free

structure MadeWith (L : Layout ι) (s : State ι) (i : ι) (x : Nat × Entry) (f : PageFlags) (s' : State ι) :
    Prop where
  valid : s.valid i = true
  fits : Fits (L.block i) x
  free : ∀ p, Covers x p → s.pages p = 0
  eq : ∃ n, s' = s.insert i (L.block i).guarded x f n

theorem MadeWith.made (hm : MadeWith L s i x f s') : Made L s i x s' := ⟨hm.valid, hm.fits, hm.free, f, hm.eq⟩

variable {s : State ι}

theorem search_cases (flags : BlockFlags) {size a max : Word}
    {shm : Option ShmId × ShmId} (ha : a.toNat = 2 ^ k) (hmax : 2 ^ k ∣ max.toNat)
    (hi : s.valid i = true)
    (hfits : ∀ addr : Word, (L.block i).addr.toNat ≤ addr.toNat → addr.toNat ≤ max.toNat →
      2 ^ k ∣ addr.toNat → Fits (L.block i) (addr.toNat, ⟨size, shm.1⟩)) (fuel : Nat) {addr : Word}
    (hlow : (L.block i).addr.toNat ≤ addr.toNat) (hhigh : addr.toNat ≤ max.toNat)
    (hdvd : 2 ^ k ∣ addr.toNat) (hfuel : max.toNat < addr.toNat + fuel * 2 ^ k) :
    search L s i flags size shm a max fuel addr = some (s, 0) ∨
    ∃ (found : Word) (s' : State ι), 2 ^ k ∣ found.toNat ∧
      MadeWith L s i (found.toNat, ⟨size, shm.1⟩) (entryFlags flags) s' ∧
      search L s i flags size shm a max fuel addr =
        some (s', found + if flags.has stackGuarded then 0x1000 else 0) := by
  induction fuel generalizing addr with
  | zero => omega
  | succ n ih =>
    have hfit := hfits addr hlow hhigh hdvd
    rw [search]
    rcases tryAlloc_eq s flags hfit with ⟨hfree, htry⟩ | htry
    · rw [htry]
      exact .inr ⟨addr, _, hdvd, ⟨hi, hfit, hfree, _, rfl⟩, rfl⟩
    rw [htry]
    simp only
    split
    · exact .inl rfl
    rename_i hne
    -- one alignment further is still not above the last place
    have hlt : addr.toNat < max.toNat := lt_of_le_of_ne hhigh fun he => hne (BitVec.eq_of_toNat_eq he)
    have hgap : 2 ^ k ≤ max.toNat - addr.toNat := le_of_dvd (by omega) (dvd_sub hmax hdvd)
    have hnext : (addr + a).toNat = addr.toNat + 2 ^ k := by
      bv_omega
    have hmul : (n + 1) * 2 ^ k = n * 2 ^ k + 2 ^ k := succ_mul n _
    apply ih
    · omega
    · omega
    · rw [hnext]
      exact Nat.dvd_add hdvd (Nat.dvd_refl _)
    · omega

theorem Block.guarded_preallocated (b : Block) (h : b.guarded = true) : b.flags.has preallocated = true := by
  have ⟨f, hf⟩ := b.processed
  unfold guarded at h
  rw [hf, processBlockFlags] at h ⊢
  generalize (if f &&& pageSizeMask = 0 then f ||| pageSize1m else f) = sized at h ⊢
  split_ifs with h4k
  · simp only [BlockFlags.has, bne_iff_ne]
    exact Bits.and_ne_zero_iff.mpr ⟨5, by rw [BitVec.getLsbD_or]; simp [preallocated], rfl⟩
  · rw [if_neg h4k] at h
    simp only [BlockFlags.has, bne_iff_ne, BitVec.and_assoc] at h
    exact absurd BitVec.and_zero h

theorem allocFlags_none (b : Block) (flags : BlockFlags) : (allocFlags b none flags).has stackGuarded = b.guarded := by
  simp only [allocFlags, BlockFlags.has, Block.guarded, BitVec.and_or_distrib_right, BitVec.and_assoc]
  rw [show ~~~allocProtMask &&& stackGuarded = stackGuarded by decide,
    show allocProtMask &&& stackGuarded = 0#64 by decide, BitVec.and_zero, BitVec.or_zero]

variable {src : Src}

omit [DecidableEq ι] in
theorem guarded_src (hi : s.valid i = true)
    (h : ¬ (s.common L i ∧ src.isSome = true)) (hg : (L.block i).guarded = true) : src = none := by
  cases src with
  | none => rfl
  | some shm =>
    refine absurd ⟨?_, rfl⟩ h
    rw [State.common, (L.block i).guarded_preallocated hg, hi]
    rfl

structure Returned (flags : BlockFlags) (origSize a : Word) (x : Nat × Entry) (r : Word) : Prop where
  result : r.toNat = x.1 + if flags.has stackGuarded then 0x1000 else 0
  aligned : a.toNat ∣ x.1
  size : ∃ usable, x.2.size.toNat = usable + guardBytes (flags.has stackGuarded) ∧
    0 < origSize.toNat ∧ origSize.toNat ≤ usable

/-- The places `alloc` looks at are multiples of the alignment, from the first one in the block to the
last one where the entry ends in the block. -/
theorem places {size a : Word} (ha : a.toNat = 2 ^ k) (hk : k ≤ 31)
    (hpos : 0 < size.toNat) (hsize : size.toNat ≤ b.size.toNat)
    (hmax : b.addr.toNat ≤ ((b.addr + b.size - size) &&& (0 - a)).toNat) :
    2 ^ k ∣ ((b.addr + b.size - size) &&& (0 - a)).toNat ∧
    ((b.addr + b.size - size) &&& (0 - a)).toNat + size.toNat ≤ b.addr.toNat + b.size.toNat ∧
    b.addr.toNat ≤ (align b.addr a).toNat ∧ 2 ^ k ∣ (align b.addr a).toNat := by
  have hfits := b.fits
  have hlast : (b.addr + b.size - size).toNat = b.addr.toNat + b.size.toNat - size.toNat := by bv_omega
  rw [Bits.toNat_and_neg ha, hlast] at hmax ⊢
  have hdvd := dvd_sub_mod (n := 2 ^ k) (b.addr.toNat + b.size.toNat - size.toNat)
  refine ⟨hdvd, by omega, ?_⟩
  rcases align_cases b.addr ha with ⟨_, hwrap⟩ | ⟨hlow, _, hdiv⟩
  · -- no multiple of the alignment fits between the start of the block and 4 GiB
    have htop : 2 ^ k ∣ 2 ^ 32 := pow_dvd_pow 2 (by omega)
    have hgap := le_of_dvd (by omega) (dvd_sub htop hdvd)
    omega
  · exact ⟨hlow, hdiv⟩

omit [DecidableEq ι] in
theorem fits_place {origSize size addr : Word} {shm : Option ShmId} {usable : Nat} (hi : s.valid i = true)
    (hsrc : ¬ (s.common L i = true ∧ src.isSome = true)) (hsize : size.toNat =
      usable + guardBytes ((allocFlags (L.block i) src flags).has stackGuarded))
    (horig : 0 < origSize.toNat) (hle : origSize.toNat ≤ usable) (hmod : usable % 4096 = 0)
    (haddr : 4096 ∣ addr.toNat) (hlow : (L.block i).addr.toNat ≤ addr.toNat)
    (hhigh : addr.toNat + size.toNat ≤ (L.block i).addr.toNat + (L.block i).size.toNat) :
    Fits (L.block i) (addr.toNat, ⟨size, shm⟩) := by
  have hg : guardBytes ((allocFlags (L.block i) src flags).has stackGuarded) % 4096 = 0 := by
    unfold guardBytes
    split <;> rfl
  refine ⟨mod_eq_zero_of_dvd haddr, ?_, ?_, ?_, hlow, hhigh⟩
  · show size.toNat % 4096 = 0
    omega
  · show 0 < size.toNat
    omega
  · intro hguarded
    rw [guarded_src hi hsrc hguarded, allocFlags_none, hguarded] at hsize
    change size.toNat = usable + 0x2000 at hsize
    show 0x2000 < size.toNat
    omega

def allocSize (flags : BlockFlags) (origSize : Word) : Word :=
  align origSize (minPageSize flags) + if flags.has stackGuarded then 0x2000 else 0

theorem alloc_madeWith (s : State ι) (i : ι) (origSize : Word) (src : Src) (a : Word)
    (flags : BlockFlags) : (alloc L s i origSize src a flags = none ∧
      (a < minPageSize (allocFlags (L.block i) src flags) ∨ a ≠ 0x80000000#32 >>> a.clz.toNat ∨
        (s.common L i = true ∧ src.isSome = true))) ∨ alloc L s i origSize src a flags = some (s, 0) ∨
    ∃ x s' r, alloc L s i origSize src a flags = some (s', r) ∧
      MadeWith L s i x (entryFlags (allocFlags (L.block i) src flags)) s' ∧
      x.2.size = allocSize (allocFlags (L.block i) src flags) origSize ∧
      Returned (allocFlags (L.block i) src flags) origSize a x r ∧ ((L.block i).guarded = true → src = none) := by
  rw [alloc]
  generalize hF : allocFlags (L.block i) src flags = F
  generalize hS : (align origSize (minPageSize F) + if F.has stackGuarded then 0x2000 else 0) = size
  by_cases hbad : a < minPageSize F ∨ a ≠ 0x80000000#32 >>> a.clz.toNat
  · rw [if_pos hbad]
    exact .inl ⟨rfl, hbad.elim .inl fun h => .inr (.inl h)⟩
  rw [if_neg hbad]
  by_cases hsz : origSize = 0 ∨ size = 0 ∨ origSize > size ∨ size > (L.block i).size
  · rw [if_pos hsz]
    exact .inr (.inl rfl)
  rw [if_neg hsz]
  by_cases hsrc : s.common L i = true ∧ src.isSome = true
  · rw [if_pos hsrc]
    exact .inl ⟨rfl, .inr (.inr hsrc)⟩
  rw [if_neg hsrc]
  by_cases hplace : (L.block i).addr > ((L.block i).addr + (L.block i).size - size) &&& (0 - a) ∨
      align (L.block i).addr a > ((L.block i).addr + (L.block i).size - size) &&& (0 - a)
  · rw [if_pos hplace]
    exact .inr (.inl rfl)
  rw [if_neg hplace]
  by_cases hi : s.valid i = true
  · rw [if_pos hi]
    right
    have ⟨hge, hpow⟩ := not_or.mp hbad
    have ⟨m, hm, hm12, _⟩ := minPageSize_toNat F
    have hmpos : 2 ^ 12 ≤ 2 ^ m := Nat.pow_le_pow_right (by decide) hm12
    have hage : 2 ^ 12 ≤ a.toNat := by bv_omega
    have ⟨k, hk, ha⟩ := toNat_shiftRight (not_not.mp hpow) (by rintro rfl; simp at hage)
    rw [ha] at hage
    have hk12 : 4096 ∣ 2 ^ k := Nat.pow_dvd_pow 2 ((Nat.pow_le_pow_iff_right (by decide)).mp hage)
    have ⟨usable, husable, horig, hle, hmod⟩ := allocSize_toNat hS.symm (by tauto)
    have hsize : size.toNat ≤ (L.block i).size.toNat := by
      bv_omega
    have ⟨hdvd, hend, hstart, hdvd'⟩ := places ha hk (by omega) hsize (by bv_omega)
    generalize ((L.block i).addr + (L.block i).size - size) &&& (0 - a) = max at *
    have hfits : ∀ addr : Word, (L.block i).addr.toNat ≤ addr.toNat → addr.toNat ≤ max.toNat →
        2 ^ k ∣ addr.toNat → Fits (L.block i) (addr.toNat, ⟨size, (importShm L s i src).1⟩) :=
      fun addr h1 h2 h3 => fits_place hi hsrc (hF ▸ husable) horig hle hmod (hk12.trans h3) h1 (by omega)
    rcases search_cases F ha hdvd hi hfits (2 ^ 20) hstart (by bv_omega) hdvd' (by omega) with hnone | ⟨found, s', hfound, hmade, hsome⟩
    · exact .inl hnone
    refine .inr ⟨_, s', _, hsome, hmade, hS.symm, ⟨?_, ha ▸ hfound, usable, husable, horig, hle⟩, guarded_src hi hsrc⟩
    have hroom : found.toNat + size.toNat ≤ 2 ^ 32 := hmade.fits.le_two_pow
    unfold guardBytes at husable
    split_ifs with hg
    · rw [if_pos hg] at husable
      bv_omega
    · bv_omega
  · rw [if_neg hi]
    exact .inr (.inl rfl)

theorem falloc_range {addr origSize size : Word}
    (hsize : size = align (origSize + addr % minPageSize flags) (minPageSize flags))
    (h : ¬ (size = 0 ∨ addr < b.addr ∨ origSize > origSize + addr % minPageSize flags ∨ origSize > size ∨
      (addr - addr % minPageSize flags).toNat + size.toNat > b.addr.toNat + b.size.toNat)) :
    (addr - addr % minPageSize flags).toNat % 4096 = 0 ∧ size.toNat % 4096 = 0 ∧ 0 < size.toNat ∧
    b.addr.toNat ≤ (addr - addr % minPageSize flags).toNat ∧
    (addr - addr % minPageSize flags).toNat + size.toNat ≤ b.addr.toNat + b.size.toNat := by
  have ⟨k, hk, hk12, hk16⟩ := minPageSize_toNat flags
  have hdvd : 4096 ∣ 2 ^ k := pow_dvd_pow 2 hk12
  have hb : 2 ^ k ∣ b.addr.toNat := (pow_dvd_pow 2 hk16).trans (dvd_of_mod_eq_zero b.addr_mod)
  rw [not_or, not_or, not_or, not_or] at h
  have ⟨hne, hlow, _, _, hhigh⟩ := h
  have hround : (addr - addr % minPageSize flags).toNat = addr.toNat - addr.toNat % 2 ^ k := by
    have hle := mod_le addr.toNat (minPageSize flags).toNat
    rw [← hk]
    bv_omega
  rw [hround] at hhigh ⊢
  have hdvd' := dvd_sub_mod (n := 2 ^ k) addr.toNat
  refine ⟨mod_eq_zero_of_dvd (hdvd.trans hdvd'), ?_, by bv_omega, ?_, by omega⟩
  · rcases align_cases (origSize + addr % minPageSize flags) hk with ⟨hz, _⟩ | ⟨_, _, hdiv⟩
    · exact absurd (hsize.trans hz) hne
    · rw [hsize]
      exact mod_eq_zero_of_dvd (hdvd.trans hdiv)
  · -- the start of the block is a multiple of both page sizes
    by_contra hlt
    have hgap := le_of_dvd (by omega) (dvd_sub hb hdvd')
    bv_omega

def fallocAddr (flags : BlockFlags) (addr : Word) : Word := addr - addr % minPageSize flags

def fallocSize (flags : BlockFlags) (addr origSize : Word) : Word :=
  align (origSize + addr % minPageSize flags) (minPageSize flags)

theorem falloc_madeWith (s : State ι) (i : ι) (addr origSize : Word) (src : Src) (flags : BlockFlags) :
    (falloc L s i addr origSize src flags = none ∧ s.common L i = true ∧ src.isSome = true) ∨
    falloc L s i addr origSize src flags = some (s, false) ∨
    ∃ x s', falloc L s i addr origSize src flags = some (s', true) ∧
      MadeWith L s i x (entryFlags (allocFlags (L.block i) src flags)) s' ∧
      x.1 = (fallocAddr (allocFlags (L.block i) src flags) addr).toNat ∧
      x.2.size = fallocSize (allocFlags (L.block i) src flags) addr origSize ∧ (L.block i).guarded = false := by
  rw [falloc]
  generalize hF : allocFlags (L.block i) src flags = F
  generalize hS : align (origSize + addr % minPageSize F) (minPageSize F) = size
  split
  · exact .inr (.inl rfl)
  split
  next hsrc =>
    exact .inl ⟨rfl, hsrc⟩
  rename_i hsrc
  right
  split_ifs with hi
  · have ⟨h1, h2, h3, h4, h5⟩ := falloc_range (b := L.block i) hS.symm (by tauto)
    -- a block with guard pages is turned away by its flags
    have hguard : (L.block i).guarded = true → False := by
      intro hg
      have hhas : F.has stackGuarded = true := by
        rw [← hF, guarded_src hi hsrc hg, allocFlags_none, hg]
      tauto
    have hfits : Fits (L.block i) ((addr - addr % minPageSize F).toNat,
        ⟨size, (importShm L s i src).1⟩) := ⟨h1, h2, h3, fun hg => (hguard hg).elim, h4, h5⟩
    rcases tryAlloc_eq s F hfits with ⟨hfree, htry⟩ | htry
    · exact .inr ⟨_, _, htry, ⟨hi, hfits, hfree, _, rfl⟩, rfl, hS.symm, Bool.eq_false_iff.mpr hguard⟩
    · exact .inl htry
  · exact .inl rfl

/-! ## `dealloc` -/

theorem Pages.unmap_eq (hpos : 0 < size.toNat) (haddr : addr.toNat % 4096 = 0) (hsize : size.toNat % 4096 = 0)
    (hf : ∀ p, addr.toNat / 4096 ≤ p → p < addr.toNat / 4096 + size.toNat / 4096 →
      pages p = f ||| pageAllocated) : pages.unmap addr size =
      some (pages.fill (addr.toNat / 4096) (size.toNat / 4096) 0, size.toNat) := by
  have hok : ¬ (size = 0 ∨ (size ||| addr).toNat % 4096 ≠ 0) := by
    rw [or_mod_4096 hsize haddr]
    rintro (rfl | h)
    · exact absurd hpos (by decide)
    · exact h rfl
  rw [unmap, if_neg hok, countAllocated_eq (or_allocated f) hf (.inl rfl)]
  show some (_, size.toNat / 4096 * 4096) = _
  rw [Nat.div_mul_cancel (Nat.dvd_of_mod_eq_zero hsize)]

theorem Pages.unguard_eq {p : Nat} (h : pages p = pageAllocated) : pages.unguard p = some (pages.fill p 1 0) := if_pos h

theorem Pages.clear_guarded (hx : Fits b x) :
    ((pages.fill (x.1 / 4096) 1 0).fill (x.1 / 4096 + x.2.size.toNat / 4096 - 1) 1 0).fill
      (x.1 / 4096 + 1) (x.2.size.toNat / 4096 - 2) 0 = pages.clear x := by
  have ⟨h1, h2, _, h4, _, _⟩ := hx
  funext p
  simp only [fill, clear, hx.covers_iff]
  split
  · rw [if_pos (by omega)]
  split
  · rw [if_pos (by omega)]
  · split
    · rw [if_pos (by omega)]
    · rw [if_neg (by omega)]

theorem Pages.clear_unguarded (hx : Fits b x) : pages.fill (x.1 / 4096) (x.2.size.toNat / 4096) 0 = pages.clear x := by
  funext p
  simp only [fill, clear, hx.covers_iff]

def usable (guarded : Bool) (e : Entry) : Word := e.size - if guarded then 0x2000 else 0

def userAddr (guarded : Bool) (x : Nat × Entry) : Word :=
  BitVec.ofNat 32 x.1 + if guarded then 0x1000 else 0

theorem userAddr_toNat (h : Fits b x) : (userAddr b.guarded x).toNat = x.1 + if b.guarded then 0x1000 else 0 := by
  have htop := h.le_two_pow
  have hpos := h.size_pos
  have hmod : x.1 % 2 ^ 32 = x.1 := mod_eq_of_lt (by omega)
  unfold userAddr
  rw [BitVec.toNat_add, BitVec.toNat_ofNat, hmod]
  cases hg : b.guarded with
  | false => exact hmod
  | true =>
    have hbig := h.guards hg
    exact mod_eq_of_lt (by omega : x.1 + 0x1000 < 2 ^ 32)

theorem userAddr_sub (guarded : Bool) (x : Nat × Entry) (hx : x.1 < 2 ^ 32) :
    (userAddr guarded x - if guarded then 0x1000 else 0).toNat = x.1 := by
  rw [userAddr, BitVec.add_sub_cancel, BitVec.toNat_ofNat, mod_eq_of_lt hx]

theorem eq_userAddr (guarded : Bool) (addr : Word) (e : Entry) :
    addr = userAddr guarded ((addr - if guarded then 0x1000 else 0).toNat, e) := by
  rw [userAddr, BitVec.ofNat_toNat, BitVec.setWidth_eq, BitVec.sub_add_cancel]

theorem dealloc_eq (hx : x ∈ s.map i) (hfits : Fits (L.block i) x) (hfilled : Filled (L.block i).guarded s.pages x)
    (hsrc : src = none ∨ src = some x.2.shm) : dealloc L s i (userAddr (L.block i).guarded x) src =
      some (s.remove i x, usable (L.block i).guarded x.2) := by
  have ⟨h1, h2, h3, h4, _, _⟩ := hfits
  have ⟨f, hf⟩ := hfilled
  have hcov := fun p hp1 hp2 => hf p (hfits.covers_iff.mpr ⟨hp1, hp2⟩)
  have haddr := userAddr_toNat hfits
  have hfind : (s.map i).find? x.1 = some x.2 := OrderedMap.find?_eq_some.mpr hx
  have hsrc' : ¬ (src ≠ none ∧ src ≠ some x.2.shm) := by tauto
  rw [dealloc, userAddr_sub _ x (by omega), hfind]
  simp only
  rw [if_neg hsrc']
  cases hg : (L.block i).guarded with
  | false =>
    rw [hg] at haddr
    simp only [Bool.false_eq_true, if_false, add_zero] at haddr
    have hsize : x.2.size - 0 = x.2.size := BitVec.sub_zero _
    simp only [Bool.false_eq_true, if_false, bind_some]
    rw [hsize, unmap_eq h3 (by omega) h2, haddr, clear_unguarded hfits]
    · simp only [if_true]
      rw [usable, if_neg Bool.false_ne_true, hsize]
      rfl
    · intro p hp1 hp2
      rw [hcov p (by omega) (by omega), hg]
      rfl
  | true =>
    have hbig := h4 hg
    rw [hg] at haddr
    simp only [if_true] at haddr
    have hsize : (x.2.size - 0x2000).toNat = x.2.size.toNat - 0x2000 := by bv_omega
    have hfirst : (x.1 + 0x1000) / 4096 = x.1 / 4096 + 1 := by omega
    have hcount : (x.2.size.toNat - 0x2000) / 4096 = x.2.size.toNat / 4096 - 2 := by omega
    have hlast : x.1 / 4096 + 1 + (x.2.size.toNat / 4096 - 2) = x.1 / 4096 + x.2.size.toNat / 4096 - 1 := by omega
    have hpage : s.pages (x.1 / 4096) = pageAllocated := by
      rw [hcov _ (by omega) (by omega), hg]
      exact if_pos ⟨rfl, by omega⟩
    have hpage' : s.pages.fill (x.1 / 4096) 1 0 (x.1 / 4096 + x.2.size.toNat / 4096 - 1) = pageAllocated := by
      rw [fill_of_not_mem (by omega), hcov _ (by omega) (by omega), hg]
      exact if_pos ⟨rfl, by omega⟩
    simp only [if_true]
    rw [haddr, hsize, hfirst, hcount, hlast, Nat.add_sub_cancel, unguard_eq hpage,
      bind_some, unguard_eq hpage', bind_some,
      unmap_eq (by omega) (by omega) (by omega), haddr, hsize, hfirst, hcount,
      clear_guarded hfits]
    · simp only [if_true]
      rfl
    · intro p hp1 hp2
      rw [fill_of_not_mem (by omega), fill_of_not_mem (by omega),
        hcov _ (by omega) (by omega), hg]
      exact if_neg fun h => by omega

theorem dealloc_expired (hx : x ∈ s.map i) (hfits : Fits (L.block i) x) (hfree : ∀ p, Covers x p → s.pages p = 0)
    (hsrc : src = none ∨ src = some x.2.shm) : dealloc L s i (userAddr (L.block i).guarded x) src = none := by
  have ⟨h1, h2, h3, h4, _, _⟩ := hfits
  have haddr := userAddr_toNat hfits
  have hfind : (s.map i).find? x.1 = some x.2 := OrderedMap.find?_eq_some.mpr hx
  have hsrc' : ¬ (src ≠ none ∧ src ≠ some x.2.shm) := by tauto
  have hpage : s.pages (x.1 / 4096) = 0 := hfree _ hfits.covers_self
  rw [dealloc, userAddr_sub _ x (by omega), hfind]
  simp only
  rw [if_neg hsrc']
  cases hg : (L.block i).guarded with
  | false =>
    rw [hg] at haddr
    simp only [Bool.false_eq_true, if_false, add_zero] at haddr
    have hsize : x.2.size - 0 = x.2.size := BitVec.sub_zero _
    have hok : ¬ (x.2.size = 0 ∨ (x.2.size ||| userAddr false x).toNat % 4096 ≠ 0) := by
      rw [or_mod_4096 h2 (haddr ▸ h1)]
      rintro (h | h)
      · rw [h] at h3
        exact absurd h3 (by decide)
      · exact h rfl
    have hcount : s.pages.countAllocated (x.1 / 4096) (x.2.size.toNat / 4096) none = some 0 := by
      cases hn : x.2.size.toNat / 4096 with
      | zero => rfl
      | succ n => rw [countAllocated, hpage, if_pos (by decide)]
    simp only [Bool.false_eq_true, if_false, bind_some]
    rw [hsize, Pages.unmap, if_neg hok, haddr, hcount]
    exact if_neg (by omega)
  | true =>
    rw [hg] at haddr
    simp only [if_true] at haddr
    have hfirst : (userAddr true x).toNat / 4096 - 1 = x.1 / 4096 := by omega
    have hunguard : s.pages.unguard (x.1 / 4096) = none := if_neg (by rw [hpage]; decide)
    rw [hfirst, hunguard]
    rfl

theorem dealloc_cases (h : Inv L s) (i : ι) (addr : Word) (src : Src) :
    dealloc L s i addr src = none ∨ dealloc L s i addr src = some (s, 0) ∨
    ∃ x ∈ s.map i, s.valid i = true ∧ addr = userAddr (L.block i).guarded x ∧
      dealloc L s i addr src = some (s.remove i x, usable (L.block i).guarded x.2) := by
  cases hfind : (s.map i).find? (addr - if (L.block i).guarded then 0x1000 else 0).toNat with
  | none =>
    right; left
    rw [dealloc, hfind]
  | some e =>
    by_cases hsrc : src ≠ none ∧ src ≠ some e.shm
    · right; left
      rw [dealloc, hfind]
      exact if_pos hsrc
    have ⟨x, hx, haddr, hshm⟩ : ∃ x ∈ s.map i, addr = userAddr (L.block i).guarded x ∧
        (src = none ∨ src = some x.2.shm) :=
      ⟨_, OrderedMap.find?_eq_some.mp hfind, eq_userAddr _ addr e, by tauto⟩
    rw [haddr]
    by_cases hi : s.valid i = true
    · right; right
      exact ⟨x, hx, hi, rfl, dealloc_eq hx (h.fits i x hx) (h.filled i hi x hx) hshm⟩
    · left
      exact dealloc_expired hx (h.fits i x hx) (h.free_of_expired hi hx) hshm

/-! ## `unmap` -/

theorem Pages.unmap_whole {pages pages' : Pages} (hx : Fits b x)
    (h : pages.unmap (BitVec.ofNat 32 x.1) x.2.size = some (pages', x.2.size.toNat)) : pages' = pages.clear x := by
  have htop := hx.le_two_pow
  have hpos := hx.size_pos
  have haddr : x.1 % 2 ^ 32 = x.1 := mod_eq_of_lt (by omega)
  rw [unmap, BitVec.toNat_ofNat, haddr] at h
  split at h
  · cases h
  have ⟨n, _, hn⟩ := map_eq_some_iff.mp h
  have ⟨hpages, hbytes⟩ := Prod.mk.inj hn
  have hcount : n = x.2.size.toNat / 4096 := by omega
  rw [← hpages, hcount]
  exact clear_unguarded hx

theorem unmapEntries_apply {l : List (Nat × Entry)} (hl : ∀ x ∈ l, Fits b x)
    {pages pages' : Pages} (h : unmapEntries pages l = some pages') (p : Nat) :
    ((∃ x ∈ l, Covers x p) → pages' p = 0) ∧ ((∀ x ∈ l, ¬ Covers x p) → pages' p = pages p) := by
  induction l generalizing pages with
  | nil =>
    cases h
    exact ⟨fun ⟨_, hx, _⟩ => absurd hx not_mem_nil, fun _ => rfl⟩
  | cons x l ih =>
    rw [unmapEntries] at h
    split at h
    · cases h
    rename_i cleared n hcleared
    have ⟨hn, h⟩ := ite_none_right_eq_some.mp h
    rw [hn] at hcleared
    have heq := unmap_whole (hl x mem_cons_self) hcleared
    have ⟨ih1, ih2⟩ := ih (fun y hy => hl y (mem_cons_of_mem _ hy)) h
    by_cases hrest : ∃ y ∈ l, Covers y p
    · refine ⟨fun _ => ih1 hrest, fun hnot => ?_⟩
      have ⟨y, hy, hyp⟩ := hrest
      exact absurd hyp (hnot y (mem_cons_of_mem _ hy))
    have hp : pages' p = pages.clear x p := by
      rw [ih2 fun y hy hyp => hrest ⟨y, hy, hyp⟩, heq]
    rw [hp, clear]
    constructor
    · rintro ⟨y, hy, hyp⟩
      rcases mem_cons.mp hy with rfl | hy
      · exact if_pos hyp
      · exact absurd ⟨y, hy, hyp⟩ hrest
    · intro hnot
      exact if_neg (hnot x mem_cons_self)

theorem unmap_cases {done : Bool} (h : unmap L s i = some (s', done)) : (done = false ∧ s' = s) ∨
    (done = true ∧ s.valid i = true ∧ unmapEntries s.pages (s.map i).entries = some s'.pages ∧
      s'.valid = update s.valid i false ∧ (∀ j, j ≠ i → s'.map j = s.map j) ∧
      ∀ y ∈ s'.map i, ∃ x ∈ s.map i, y.1 = x.1 ∧ y.2.size = x.2.size) := by
  rw [unmap] at h
  split at h
  next hi =>
    have ⟨pages, hpages, heq⟩ := map_eq_some_iff.mp h
    have ⟨hs, hdone⟩ := Prod.mk.inj heq
    subst hs
    refine .inr ⟨hdone.symm, hi, hpages, rfl, fun j hj => update_of_ne hj _ _, ?_⟩
    intro y hy
    simp only [update_self] at hy
    have ⟨x, hx, hxy⟩ := OrderedMap.mem_mapVal.mp hy
    refine ⟨x, hx, ?_⟩
    rw [← hxy]
    constructor
    · rfl
    · split <;> rfl
  · have ⟨hs, hdone⟩ := Prod.mk.inj (Option.some.inj h)
    exact .inl ⟨hdone.symm, hs.symm⟩

theorem Inv.unmap (h : Inv L s) {done : Bool} (hu : Vm.unmap L s i = some (s', done)) : Inv L s' := by
  rcases unmap_cases hu with ⟨_, rfl⟩ | ⟨_, hi, hpages, hvalid, hmap, hmapi⟩
  · exact h
  have hlive : ∀ j, s'.valid j = true → j ≠ i ∧ s.valid j = true := by
    intro j hj
    rw [hvalid] at hj
    by_cases hji : j = i
    · rw [hji, update_self] at hj
      exact absurd hj Bool.false_ne_true
    · rw [update_of_ne hji] at hj
      exact ⟨hji, hj⟩
  have hpage := unmapEntries_apply (fun x hx => h.fits i x hx) hpages
  constructor
  · intro j y hy
    by_cases hji : j = i
    · subst hji
      have ⟨x, hx, hkey, hsize⟩ := hmapi y hy
      have ⟨h1, h2, h3, h4, h5, h6⟩ := h.fits j x hx
      rw [← hkey, ← hsize] at *
      exact ⟨h1, h2, h3, h4, h5, h6⟩
    · rw [hmap j hji] at hy
      exact h.fits j y hy
  · intro j hj x hx y hy hne
    have ⟨hji, hj'⟩ := hlive j hj
    rw [hmap j hji] at hx hy
    exact h.apart j hj' x hx y hy hne
  · intro j hj y hy
    have ⟨hji, hj'⟩ := hlive j hj
    rw [hmap j hji] at hy
    have ⟨f, hf⟩ := h.filled j hj' y hy
    refine ⟨f, fun p hp => ?_⟩
    rw [(hpage p).2, hf p hp]
    intro x hx hxp
    exact ((h.fits i x hx).apart_blocks (h.fits j y hy) hji.symm).not_covers p ⟨hxp, hp⟩
  · intro p hp
    by_cases hcov : ∃ x ∈ (s.map i).entries, Covers x p
    · exact (hpage p).1 hcov
    have hnot : ∀ x ∈ (s.map i).entries, ¬ Covers x p := fun x hx hxp => hcov ⟨x, hx, hxp⟩
    rw [(hpage p).2 hnot]
    apply h.free
    intro j hj y hy
    by_cases hji : j = i
    · exact hnot y (hji ▸ hy)
    apply hp j _ y
    · rw [hmap j hji]
      exact hy
    · rw [hvalid, update_of_ne hji]
      exact hj

end Armsx3.Vm
