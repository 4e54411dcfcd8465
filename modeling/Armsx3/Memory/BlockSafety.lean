import Armsx3.Memory.BlockCalls

/-!
# Guest memory — safety of every sequence of calls

What `alloc` returns can be given back to `dealloc`, after any other calls, with one exception: with memory of
its own the caller's flags decide about guard pages in `alloc`, and the block's in `try_alloc` and `dealloc`.
-/

namespace Armsx3.Vm

open Transition Option Bool

variable {ι : Type} [DecidableEq ι] {L : Layout ι}

/-! ## The effects of a step -/

inductive Effect (L : Layout ι) (s : State ι) (e : Event ι) (s' : State ι) : Prop
  | unchanged (h : s' = s)
  | made (i : ι) (x : Nat × Entry) (h : Made L s i x s')
  | removed (i : ι) (x : Nat × Entry) (src : Src) (valid : s.valid i = true) (mem : x ∈ s.map i)
      (call : e = .dealloc i (userAddr (L.block i).guarded x) src) (h : s' = s.remove i x)
  | unmapped (i : ι) (done : Bool) (call : e = .unmap i) (h : unmap L s i = some (s', done))

variable {s s' : State ι} {e : Event ι}

theorem step_effect (h : Inv L s) (he : step L s e = some s') : Effect L s e s' := by
  cases e with obtain ⟨⟨t, r⟩, ht, rfl⟩ := map_eq_some_iff.mp he
  | alloc i origSize src a flags =>
    rcases alloc_madeWith s i origSize src a flags with ⟨hn, _⟩ | hn | ⟨x, t', r', hn, hm, _⟩ <;> cases ht.symm.trans hn
    · exact .unchanged rfl
    · exact .made i x hm.made
  | falloc i addr origSize src flags =>
    rcases falloc_madeWith s i addr origSize src flags with ⟨hn, _⟩ | hn | ⟨x, t', hn, hm, _⟩ <;> cases ht.symm.trans hn
    · exact .unchanged rfl
    · exact .made i x hm.made
  | dealloc i addr src =>
    rcases dealloc_cases h i addr src with hn | hn | ⟨x, hx, hi, haddr, hn⟩ <;> cases ht.symm.trans hn
    · exact .unchanged rfl
    · exact .removed i x src hi hx (haddr ▸ rfl) rfl
  | unmap i => exact .unmapped i r rfl ht

theorem inv_step (h : Inv L s) (he : step L s e = some s') : Inv L s' := by
  cases step_effect h he with
  | unchanged heq => exact heq ▸ h
  | made i x hm => exact hm.inv h
  | removed i x src hi hx _ heq => exact heq ▸ h.remove hi hx
  | unmapped i done _ hu => exact h.unmap hu

variable {s : State ι}

theorem inv_of_reachable (hs : (system L).Reachable s) : Inv L s :=
  hs.invariant (P := Inv L) (fun _ h => inv_initial h) fun _ _ _ h he => inv_step h he

/-! ## An entry stays until it is given back -/

def Event.Removes (L : Layout ι) (i : ι) (x : Nat × Entry) (e : Event ι) : Prop :=
  (∃ src, e = .dealloc i (userAddr (L.block i).guarded x) src) ∨ e = .unmap i

variable {i : ι} {x : Nat × Entry}

theorem kept_step (h : Inv L s) (he : step L s e = some s') (hi : s.valid i = true) (hx : x ∈ s.map i)
    (hnot : ¬ e.Removes L i x) : s'.valid i = true ∧ x ∈ s'.map i := by
  cases step_effect h he with
  | unchanged heq => exact heq ▸ ⟨hi, hx⟩
  | made j y hm =>
    have ⟨f, n, heq⟩ := hm.eq
    rw [heq]
    refine ⟨hi, State.mem_insert.mpr (.inl ⟨hx, ?_⟩)⟩
    -- an entry at the same address would cover the same page
    rintro ⟨_, hkey⟩
    have hap := h.apart_of_free hm.fits hm.free hi hx
    have hpos := hm.fits.size_pos
    have hpos' := (h.fits i x hx).size_pos
    unfold Apart at hap
    omega
  | removed j y src _ hy hcall heq =>
    rw [heq]
    refine ⟨hi, State.mem_remove.mpr ⟨hx, ?_⟩⟩
    rintro ⟨hij, hkey⟩
    subst hij
    have hxy := OrderedMap.eq_of_key hx hy hkey
    exact hnot (.inl ⟨src, hxy ▸ hcall⟩)
  | unmapped j done hcall hu =>
    have hij : i ≠ j := fun hij => hnot (.inr (hij ▸ hcall))
    rcases unmap_cases hu with ⟨_, heq⟩ | ⟨_, _, _, hvalid, hmap, _⟩
    · rw [heq]
      exact ⟨hi, hx⟩
    · rw [hvalid, hmap i hij, Function.update_of_ne hij]
      exact ⟨hi, hx⟩

theorem kept_run {es : List (Event ι)} (h : Inv L s)
    (hrun : (system L).run s es = some s') (hi : s.valid i = true) (hx : x ∈ s.map i)
    (hnot : ∀ e ∈ es, ¬ e.Removes L i x) : Inv L s' ∧ s'.valid i = true ∧ x ∈ s'.map i := by
  induction es generalizing s with
  | nil =>
    cases hrun
    exact ⟨h, hi, hx⟩
  | cons e es ih =>
    have ⟨t, ht, hrest⟩ := System.run_cons_eq_some.mp hrun
    have ⟨hti, htx⟩ := kept_step h ht hi hx (hnot e List.mem_cons_self)
    exact ih (inv_step h ht) hrest hti htx fun e' he' => hnot e' (List.mem_cons_of_mem _ he')

/-! ## Safety -/

/-- The map entries of the live blocks and `g_pages` say the same. -/
structure TableOk (L : Layout ι) (s : State ι) : Prop where
  aligned : ∀ i, s.valid i = true → ∀ x ∈ s.map i, x.1 % 4096 = 0 ∧ x.2.size.toNat % 4096 = 0
  inside : ∀ i, s.valid i = true → ∀ x ∈ s.map i,
    (L.block i).addr.toNat ≤ x.1 ∧ 0 < x.2.size.toNat ∧
    x.1 + x.2.size.toNat ≤ (L.block i).addr.toNat + (L.block i).size.toNat
  disjoint : ∀ i j, s.valid i = true → s.valid j = true → ∀ x ∈ s.map i, ∀ y ∈ s.map j,
    i ≠ j ∨ x ≠ y → Apart x y
  pages : ∀ p, s.pages p &&& pageAllocated ≠ 0 ↔ ∃ i, s.valid i = true ∧ ∃ x ∈ s.map i, Covers x p

omit [DecidableEq ι] in
theorem Inv.tableOk (h : Inv L s) : TableOk L s := by
  refine ⟨?_, ?_, ?_, ?_⟩
  · intro i _ x hx
    exact ⟨(h.fits i x hx).addr_mod, (h.fits i x hx).size_mod⟩
  · intro i _ x hx
    exact ⟨(h.fits i x hx).low, (h.fits i x hx).size_pos, (h.fits i x hx).high⟩
  · intro i j hi hj x hx y hy hne
    exact h.apart_all hi hj hx hy hne
  · intro p
    constructor
    · intro hp
      by_contra hnot
      have hfree := h.free p fun i hi x hx hxp => hnot ⟨i, hi, x, hx, hxp⟩
      rw [hfree] at hp
      exact hp (by decide)
    · rintro ⟨i, hi, x, hx, hxp⟩
      exact (h.filled i hi x hx).allocated hxp

/-- A result of `alloc` that can be used: it is aligned, there is room, and until it is given back
`dealloc` will free it, whatever other calls there are. -/
structure Usable (L : Layout ι) (s : State ι) (i : ι) (origSize a r : Word) (x : Nat × Entry) :
    Prop where
  mem : x ∈ s.map i
  addr : r.toNat = x.1 + if (L.block i).guarded then 0x1000 else 0
  aligned : a.toNat ∣ x.1
  room : origSize.toNat ≤ (usable (L.block i).guarded x.2).toNat
  dealloc : ∀ es t, (system L).run s es = some t → (∀ e ∈ es, e ≠ .unmap i ∧ ∀ src, e ≠ .dealloc i r src) →
    ∀ src, src = none ∨ src = some x.2.shm → ∃ t', dealloc L t i r src = some (t', usable (L.block i).guarded x.2) ∧
        ∀ p, t'.pages p = if Covers x p then 0 else t.pages p

/-- Memory of the caller does not come with a flag for guard pages. -/
def NoGuardedImport (src : Src) (flags : BlockFlags) : Prop :=
  src = none ∨ flags.has stackGuarded = false

variable {b : Block} {flags : BlockFlags}

theorem NoGuardedImport.has_stackGuarded {src : Src}
    (h : NoGuardedImport src flags) (hsrc : b.guarded = true → src = none) :
    (allocFlags b src flags).has stackGuarded = b.guarded := by
  cases src with
  | none => exact allocFlags_none b flags
  | some shm =>
    have hflags := h.resolve_left (some_ne_none shm)
    have hb : b.guarded = false := by
      rw [← not_eq_true]
      exact fun hg => absurd (hsrc hg) (some_ne_none shm)
    rw [hb]
    exact hflags

variable {origSize a r : Word}

theorem Returned.usable (h : Returned flags origSize a x r) (hg : flags.has stackGuarded = b.guarded) :
    origSize.toNat ≤ (Vm.usable b.guarded x.2).toNat := by
  have ⟨n, hn, _, hle⟩ := h.size
  rw [hg] at hn
  unfold Vm.usable guardBytes at *
  split at hn
  next hb =>
    rw [if_pos hb]
    bv_omega
  next hb =>
    rw [if_neg hb]
    bv_omega

theorem Made.usable (h : Inv L s) (hm : Made L s i x s') (hr : Returned flags origSize a x r)
    (hg : flags.has stackGuarded = (L.block i).guarded) : Usable L s' i origSize a r x := by
  have ⟨f, n, heq⟩ := hm.eq
  have hmem : x ∈ s'.map i := by
    rw [heq]
    exact State.mem_insert.mpr (.inr ⟨rfl, rfl⟩)
  have hvalid : s'.valid i = true := by
    rw [heq]
    exact hm.valid
  have haddr := hg ▸ hr.result
  have hr' := BitVec.eq_of_toNat_eq (haddr.trans (userAddr_toNat hm.fits).symm)
  refine ⟨hmem, haddr, hr.aligned, hr.usable hg, ?_⟩
  intro es t hrun hnot src hsrc
  rw [hr'] at hnot ⊢
  have hkeep : ∀ e ∈ es, ¬ e.Removes L i x := by
    rintro e he (⟨src', hcall⟩ | hcall)
    · exact (hnot e he).2 src' hcall
    · exact (hnot e he).1 hcall
  have ⟨ht, hti, htx⟩ := kept_run (hm.inv h) hrun hvalid hmem hkeep
  exact ⟨_, dealloc_eq htx hm.fits (ht.filled i hti x htx) hsrc, fun _ => rfl⟩

structure CallsOk (L : Layout ι) (s : State ι) : Prop where
  allocated : ∀ i origSize src a flags s' r, NoGuardedImport src flags →
    alloc L s i origSize src a flags = some (s', r) → r ≠ 0 → ∃ x, Usable L s' i origSize a r x
  returns : ∀ i origSize src a flags, minPageSize (allocFlags (L.block i) src flags) ≤ a →
    a = 0x80000000#32 >>> a.clz.toNat → s.common L i = false ∨ src = none →
    (alloc L s i origSize src a flags).isSome
  allocFailed : ∀ i origSize src a flags s', alloc L s i origSize src a flags = some (s', 0) → s' = s
  fallocFailed : ∀ i addr origSize src flags s',
    falloc L s i addr origSize src flags = some (s', false) → s' = s
  deallocFailed : ∀ i addr src s', dealloc L s i addr src = some (s', 0) → s' = s
  unmapFailed : ∀ i s', unmap L s i = some (s', false) → s' = s

theorem Returned.ne_zero (h : Returned flags origSize a x r) (hx : Fits b x) : r ≠ 0 := by
  rintro rfl
  have hres := h.result
  have hlow := hx.low
  have hpos := b.addr_pos
  change 0 = _ at hres
  omega

theorem usable_ne_zero (hx : Fits b x) : usable b.guarded x.2 ≠ 0 := by
  have hpos := hx.size_pos
  have hguards := hx.guards
  unfold usable
  split
  next hb =>
    have hbig := hguards hb
    bv_omega
  · bv_omega

theorem Inv.callsOk (h : Inv L s) : CallsOk L s := by
  refine ⟨?_, ?_, ?_, ?_, ?_, ?_⟩
  · intro i origSize src a flags s' r himport hcall hne
    rcases alloc_madeWith s i origSize src a flags with ⟨hn, _⟩ | hn | ⟨x, t, r', hn, hm, _, hr, hsrc⟩ <;>
      cases hcall.symm.trans hn
    · exact (hne rfl).elim
    · exact ⟨x, hm.made.usable h hr (himport.has_stackGuarded hsrc)⟩
  · intro i origSize src a flags hle hpow hsrc
    rcases alloc_madeWith s i origSize src a flags with ⟨_, hbad⟩ | hn | ⟨x, t, r, hn, _⟩
    · rcases hbad with hlt | hne | ⟨hcommon, hsome⟩
      · exact absurd hle (BitVec.not_le.mpr hlt)
      · exact absurd hpow hne
      rcases hsrc with hsrc | hsrc
      · exact absurd (hsrc.symm.trans hcommon) false_ne_true
      · rw [hsrc] at hsome
        exact absurd hsome false_ne_true
    · rw [hn]
      rfl
    · rw [hn]
      rfl
  · intro i origSize src a flags s' hcall
    rcases alloc_madeWith s i origSize src a flags with ⟨hn, _⟩ | hn | ⟨x, t, r, hn, hm, _, hr, _⟩ <;>
      cases hcall.symm.trans hn
    · rfl
    · exact absurd rfl (hr.ne_zero hm.fits)
  · intro i addr origSize src flags s' hcall
    rcases falloc_madeWith s i addr origSize src flags with ⟨hn, _⟩ | hn | ⟨x, t, hn, _⟩ <;> cases hcall.symm.trans hn
    rfl
  · intro i addr src s' hcall
    rcases dealloc_cases h i addr src with hn | hn | ⟨x, hx, _, _, hn⟩
    · cases hcall.symm.trans hn
    · cases hcall.symm.trans hn
      rfl
    · have hzero := (Prod.mk.inj (some.inj (hcall.symm.trans hn))).2
      exact absurd hzero.symm (usable_ne_zero (h.fits i x hx))
  · intro i s' hcall
    rcases unmap_cases hcall with ⟨_, heq⟩ | ⟨hdone, _⟩
    · exact heq
    · cases hdone

/-- The two tables agree, and the next call does what it says, whatever it is, where `alloc` of the caller's own memory
does not ask for guard pages. -/
theorem blocks_sound {s : State ι} (hs : (system L).Reachable s) : TableOk L s ∧ CallsOk L s :=
  ⟨(inv_of_reachable hs).tableOk, (inv_of_reachable hs).callsOk⟩

def stackLayout : Layout Unit where
  block _ :=
    { addr := 0xD0000000
      size := 0x10000000
      flags := pageSize4k ||| stackGuarded ||| preallocated
      processed := ⟨pageSize4k ||| stackGuarded, by decide⟩
      addr_pos := by decide
      addr_mod := by decide
      size_pos := by decide
      size_mod := by decide
      fits := by decide }
  disjoint i j h := absurd (Subsingleton.elim i j) h

def emptyState (ι : Type) : State ι := ⟨fun _ => 0, fun _ => true, fun _ => .empty, 0⟩

theorem initial_emptyState (ι : Type) : Initial (emptyState ι) := ⟨fun _ => rfl, fun _ => rfl, fun _ => rfl⟩

/-- Two stacks are allocated and the first one is given back. -/
theorem blocks_sound_stacks : ∃ s, (system stackLayout).Reachable s ∧
    (s.map ()).entries.map Prod.fst = [0xD0006000] ∧ TableOk stackLayout s ∧ CallsOk stackLayout s :=
  System.Reachable.exists_of_run_and blocks_sound (initial_emptyState Unit)
    [.alloc () 0x4000 none 0x1000 0, .alloc () 0x3001 none 0x1000 0, .dealloc () 0xD0001000 none] (by decide +kernel)

/-! ## Guard pages that only `alloc` sees -/

/-- The part of the address space that shared memory is mapped to. -/
def sharedLayout : Layout Unit where
  block _ :=
    { addr := 0xE0000000
      size := 0x10000000
      flags := pageSize64k
      processed := ⟨pageSize64k, by decide⟩
      addr_pos := by decide
      addr_mod := by decide
      size_pos := by decide
      size_mod := by decide
      fits := by decide }
  disjoint i j h := absurd (Subsingleton.elim i j) h

/-- With memory of the caller and `stack_guarded`, `alloc` returns an address that is not aligned and
`dealloc` does not know. -/
theorem alloc_guarded_import :
    (system sharedLayout).Reachable (emptyState Unit) ∧ (sharedLayout.block ()).guarded = false ∧
    ∃ s' r, alloc sharedLayout (emptyState Unit) () 0x10000 (some (some 0)) 0x10000
        (pageSize64k ||| stackGuarded) = some (s', r) ∧ r = 0xE0001000 ∧ r.toNat % 0x10000 ≠ 0 ∧
      (dealloc sharedLayout s' () r none).map Prod.snd = some 0 := by
  refine ⟨System.Reachable.of_init (initial_emptyState Unit), by decide, ?_⟩
  have hrun : ((alloc sharedLayout (emptyState Unit) () 0x10000 (some (some 0)) 0x10000
      (pageSize64k ||| stackGuarded)).any fun q => decide (q.2 = 0xE0001000 ∧
        q.2.toNat % 0x10000 ≠ 0 ∧ (dealloc sharedLayout q.1 () q.2 none).map Prod.snd = some 0)) =
      true := by decide +kernel
  cases hq : alloc sharedLayout (emptyState Unit) () 0x10000 (some (some 0)) 0x10000
      (pageSize64k ||| stackGuarded) with
  | none => rw [hq] at hrun; cases hrun
  | some q =>
    rw [hq] at hrun
    exact ⟨q.1, q.2, rfl, of_decide_eq_true hrun⟩

end Armsx3.Vm
