import Armsx3.Memory.BlockSafety
import Armsx3.Memory.PageProtect

/-!
# PageTable — the pages that `check_addr` does not look at

`check_addr` jumps over the rest of a 64 KiB or 1 MiB page, which is sound when all 4 KiB pages of a large page have
the same flags.  The invariant keeps, besides `g_pages`, the table as it would be without any `page_protect`.
-/

namespace Armsx3.Vm

open Transition Pages Option BitVec BlockFlags

variable {ι : Type} [DecidableEq ι] {L : Layout ι}

/-! ## The calls -/

inductive TableCall (ι : Type)
  | alloc (i : ι) (origSize : Word) (src : Src) (a : Word) (flags : BlockFlags)
  | falloc (i : ι) (addr origSize : Word) (src : Src) (flags : BlockFlags)
  | dealloc (i : ι) (addr : Word) (src : Src)
  | protect (addr size : Word) (test set clear : PageFlags)

def tableStep (L : Layout ι) (s : State ι) : TableCall ι → Option (State ι)
  | .alloc i origSize src a flags => (alloc L s i origSize src a flags).map Prod.fst
  | .falloc i addr origSize src flags => (falloc L s i addr origSize src flags).map Prod.fst
  | .dealloc i addr src => (dealloc L s i addr src).map Prod.fst
  | .protect addr size test set clear =>
    (s.pages.pageProtect addr size test set clear).map fun r => { s with pages := r.1 }

def tableSystem (L : Layout ι) : System (State ι) (TableCall ι) := ⟨Initial, tableStep L⟩

def kindFlags : PageFlags := page64kSize ||| page1mSize ||| pageAllocated

def pageBytes (state : PageFlags) : Nat := 4096 * grain state

/-- An allocation, if one was made, consists of whole pages. -/
def WholePages (L : Layout ι) (s : State ι) : TableCall ι → Prop
  | .alloc i origSize src a flags =>
    let flags' := allocFlags (L.block i) src flags
    ∀ r ∈ (alloc L s i origSize src a flags).map Prod.snd, r = 0 ∨
      pageBytes (entryFlags flags') ∣ r.toNat - (if flags'.has stackGuarded then 0x1000 else 0) ∧
      pageBytes (entryFlags flags') ∣ (allocSize flags' origSize).toNat
  | .falloc i addr origSize src flags =>
    let flags' := allocFlags (L.block i) src flags
    (falloc L s i addr origSize src flags).map Prod.snd = some true →
      pageBytes (entryFlags flags') ∣ (fallocAddr flags' addr).toNat ∧
      pageBytes (entryFlags flags') ∣ (fallocSize flags' addr origSize).toNat
  | .dealloc _ _ _ => True
  | .protect addr size _ set clear =>
    (set &&& ~~~clear) &&& kindFlags = 0 ∧ (clear &&& ~~~set) &&& kindFlags = 0 ∧
    pageBytes (s.pages (addr.toNat / 4096)) ∣ addr.toNat ∧
    pageBytes (s.pages ((addr.toNat + size.toNat) / 4096 - 1)) ∣ addr.toNat + size.toNat

instance (L : Layout ι) (s : State ι) : (e : TableCall ι) → Decidable (WholePages L s e)
  | .alloc _ _ _ _ _ => inferInstanceAs (Decidable (∀ r ∈ Option.map _ _, r = 0 ∨ _))
  | .falloc _ _ _ _ _ => inferInstanceAs (Decidable (_ → _))
  | .dealloc _ _ _ => inferInstanceAs (Decidable True)
  | .protect _ _ _ _ _ => inferInstanceAs (Decidable (_ ∧ _))

/-! ## Large pages -/

theorem grain_pos (state : PageFlags) : 0 < grain state := by
  unfold grain
  split
  · decide
  · split <;> decide

def Together (state : PageFlags) (p q : Nat) : Prop := p / grain state = q / grain state

/-- All 4 KiB pages of a large page have its flags. -/
def Even (pages : Pages) : Prop := ∀ p q, Together (pages p) p q → pages q = pages p

variable {p q : Nat}

theorem together_zero (h : Together 0 p q) : p = q := by
  have hg : grain 0 = 1 := by decide
  unfold Together at h
  rw [hg, Nat.div_one, Nat.div_one] at h
  exact h

variable {state : PageFlags}

theorem Together.between {p q r : Nat} (h : Together state p q) (h1 : p ≤ r) (h2 : r ≤ q) : Together state p r := by
  have hle1 := Nat.div_le_div_right (c := grain state) h1
  have hle2 := Nat.div_le_div_right (c := grain state) h2
  unfold Together at *
  omega

theorem Together.low {p q first : Nat} (h : Together state p q)
    (hfirst : grain state ∣ first) (hp : first ≤ p) : first ≤ q := by
  have hpos := grain_pos state
  have ⟨a, ha⟩ := hfirst
  have hle : a ≤ p / grain state := (Nat.le_div_iff_mul_le hpos).mpr (by rw [Nat.mul_comm]; omega)
  rw [h] at hle
  have hmul := (Nat.le_div_iff_mul_le hpos).mp hle
  rw [Nat.mul_comm] at hmul
  omega

theorem Together.high {p q stop : Nat} (h : Together state p q)
    (hstop : grain state ∣ stop) (hp : p < stop) : q < stop := by
  have hpos := grain_pos state
  have ⟨b, hb⟩ := hstop
  have hlt : p / grain state < b := (Nat.div_lt_iff_lt_mul hpos).mpr (by rw [Nat.mul_comm]; omega)
  rw [h] at hlt
  have hmul := (Nat.div_lt_iff_lt_mul hpos).mp hlt
  rw [Nat.mul_comm] at hmul
  omega

variable {pages : Pages}

theorem Even.mem (h : Even pages) {p q first stop : Nat} (hpq : Together (pages p) p q)
    (hfirst : grain (pages first) ∣ first) (hstop : grain (pages (stop - 1)) ∣ stop)
    (hp : first ≤ p ∧ p < stop) : first ≤ q ∧ q < stop := by
  constructor
  · by_contra hlt
    -- the page at the boundary is between the two
    have hsymm : Together (pages p) q p := hpq.symm
    have hmid := hpq.trans (hsymm.between (by omega) hp.1)
    rw [h p first hmid] at hfirst
    exact hlt (hpq.low hfirst hp.1)
  · by_contra hge
    have hmid : Together (pages p) p (stop - 1) := hpq.between (by omega) (by omega)
    rw [h p (stop - 1) hmid] at hstop
    exact hge (hpq.high hstop hp.2)

/-! ## `check_addr` on an even table -/

theorem nextMultiple_spec (i : Nat) (state : PageFlags) :
    i < nextMultiple i (grain state) ∧ ∀ q, i ≤ q → q < nextMultiple i (grain state) → Together state i q := by
  have hpos := grain_pos state
  have hdiv := Nat.div_add_mod i (grain state)
  have hmod := Nat.mod_lt i hpos
  unfold nextMultiple Together
  have hmul : (i / grain state + 1) * grain state = grain state * (i / grain state) + grain state := by
    rw [Nat.succ_mul, Nat.mul_comm]
  constructor
  · omega
  · intro q h1 h2
    apply Nat.le_antisymm
    · exact Nat.div_le_div_right h1
    · exact Nat.le_of_lt_succ ((Nat.div_lt_iff_lt_mul hpos).mpr h2)

theorem checkLoop_iff (heven : Even pages) {flags : PageFlags} {max fuel i : Nat} (hfuel : max < i + fuel) :
    checkLoop pages flags max fuel i = true ↔ ∀ p, i ≤ p → p ≤ max → ~~~pages p &&& flags = 0 := by
  induction fuel generalizing i with
  | zero =>
    exact ⟨fun _ p h1 h2 => by omega, fun _ => rfl⟩
  | succ n ih =>
    have ⟨hlt, htogether⟩ := nextMultiple_spec i (pages i)
    rw [checkLoop]
    by_cases hmax : max < i
    · rw [if_pos hmax]
      exact ⟨fun _ p h1 h2 => by omega, fun _ => rfl⟩
    rw [if_neg hmax]
    by_cases hi : ~~~pages i &&& flags = 0
    · rw [if_neg (not_not_intro hi), ih (by omega)]
      constructor
      · intro h p h1 h2
        by_cases hp : p < nextMultiple i (grain (pages i))
        · -- a page that is jumped over has the flags of page `i`
          rw [heven i p (htogether p h1 hp)]
          exact hi
        · exact h p (by omega) h2
      · intro h p h1 h2
        exact h p (by omega) h2
    · rw [if_pos hi]
      exact ⟨fun h => (nomatch h), fun h => absurd (h i (Nat.le_refl _) (by omega)) hi⟩

theorem checkAddr_iff (heven : Even pages) (addr : BitVec 64) (flags : PageFlags) (size : Word) :
    pages.checkAddr addr flags size = true ↔ size = 0 ∨ addr.toNat + size.toNat ≤ 2 ^ 32 ∧
        ∀ p, addr.toNat / 4096 ≤ p → p ≤ (addr.toNat + size.toNat - 1) / 4096 →
          ~~~pages p &&& (flags ||| pageAllocated) = 0 := by
  unfold checkAddr
  by_cases hsize : size = 0
  · rw [if_pos hsize]
    exact ⟨fun _ => .inl hsize, fun _ => rfl⟩
  rw [if_neg hsize]
  have hpos : 0 < size.toNat := by bv_omega
  by_cases hout : addr.toNat > 2 ^ 32 - 1 ∨ 2 ^ 32 - addr.toNat < size.toNat
  · rw [if_pos hout]
    refine ⟨fun h => (nomatch h), ?_⟩
    rintro (h | ⟨h, _⟩)
    · exact absurd h hsize
    · omega
  · rw [if_neg hout]
    rw [checkLoop_iff heven (by omega)]
    constructor
    · intro h
      exact .inr ⟨by omega, h⟩
    · rintro (h | ⟨_, h⟩)
      · exact absurd h hsize
      · exact h

/-! ## `dealloc`, whatever the flags of the pages -/

theorem Pages.unmap_fill {pages pages' : Pages} {addr size : Word}
    (h : pages.unmap addr size = some (pages', size.toNat)) :
    pages' = pages.fill (addr.toNat / 4096) (size.toNat / 4096) 0 := by
  rw [unmap] at h
  split at h
  · cases h
  · obtain ⟨n, _, hn⟩ := map_eq_some_iff.mp h
    obtain ⟨hpages, hbytes⟩ := Prod.mk.inj hn
    rw [← hpages, show n = size.toNat / 4096 by omega]

theorem Pages.unguard_fill {pages pages' : Pages} {p : Nat} (h : pages.unguard p = some pages') :
    pages' = pages.fill p 1 0 := by
  rw [unguard] at h
  split at h
  · exact (some.inj h).symm
  · cases h

theorem dealloc_removed {s s' : State ι} {i : ι} {addr r : Word} {src : Src}
    (hfits : ∀ x ∈ s.map i, Fits (L.block i) x) (h : dealloc L s i addr src = some (s', r)) :
    s' = s ∨ ∃ x ∈ s.map i, s' = s.remove i x := by
  rw [dealloc] at h
  cases hfind : (s.map i).find? (addr - if (L.block i).guarded then 0x1000 else 0).toNat with
  | none =>
    rw [hfind] at h
    exact .inl (Prod.mk.inj (some.inj h)).1.symm
  | some e =>
    rw [hfind] at h
    simp only at h
    have hmem := OrderedMap.find?_eq_some.mp hfind
    have hx := hfits _ hmem
    split at h
    · exact .inl (Prod.mk.inj (some.inj h)).1.symm
    split at h
    · cases h
    rename_i pages n hunmap
    by_cases hn : n = (e.size - if (L.block i).guarded then 0x2000 else 0).toNat
    · rw [if_pos hn] at h
      refine .inr ⟨_, hmem, ?_⟩
      rw [← (Prod.mk.inj (some.inj h)).1, State.remove]
      obtain ⟨cleared, hcleared, hunmap⟩ := bind_eq_some_iff.mp hunmap
      rw [hn] at hunmap
      have hpages := unmap_fill hunmap
      have hclear : pages = s.pages.clear ((addr - if (L.block i).guarded then 0x1000 else 0).toNat, e) := by
        have htop := hx.le_two_pow
        obtain ⟨h1, h2, h3, h4, _, _⟩ := id hx
        cases hg : (L.block i).guarded with
        | false =>
          simp only [hg, Bool.false_eq_true, if_false] at hcleared hpages h1 h2 h3 htop hx ⊢
          have hsub : ∀ y : Word, y - 0 = y := sub_zero
          rw [hpages, ← some.inj hcleared, hsub, hsub]
          rw [hsub] at hx
          exact clear_unguarded hx
        | true =>
          have hbig := h4 hg
          simp only [hg, if_true] at hcleared hpages h1 h2 h3 htop hx hbig ⊢
          obtain ⟨first, hfirst, hlast⟩ := bind_eq_some_iff.mp hcleared
          have hsize : (e.size - 0x2000).toNat = e.size.toNat - 0x2000 := by bv_omega
          have haddr : addr.toNat = (addr - 0x1000).toNat + 0x1000 := by bv_omega
          rw [hpages, unguard_fill hlast, unguard_fill hfirst, ← clear_guarded hx]
          rw [hsize, haddr, show ((addr - 0x1000).toNat + 0x1000) / 4096 = (addr - 0x1000).toNat / 4096 + 1 by omega,
            show (e.size.toNat - 0x2000) / 4096 = e.size.toNat / 4096 - 2 by omega, Nat.add_sub_cancel,
            show (addr - 0x1000).toNat / 4096 + 1 + (e.size.toNat / 4096 - 2) =
              (addr - 0x1000).toNat / 4096 + e.size.toNat / 4096 - 1 by omega]
      rw [hclear]
    · rw [if_neg hn] at h
      cases h

/-! ## The invariant -/

/-- `plain` is the table without the effects of `page_protect`. -/
structure TableInv (L : Layout ι) (s : State ι) (plain : Pages) : Prop where
  inv : Inv L { s with pages := plain }
  valid : ∀ i, s.valid i = true
  free : ∀ p, plain p = 0 ↔ s.pages p = 0
  even : Even s.pages
  whole : ∀ i, ∀ x ∈ s.map i, ∀ p, Covers x p → pageBytes (s.pages p) ∣ x.1 ∧ pageBytes (s.pages p) ∣ x.2.size.toNat

variable {s s' : State ι} {plain : Pages} {i : ι} {x : Nat × Entry} {f : PageFlags}

omit [DecidableEq ι] in
theorem TableInv.ne_zero (h : TableInv L s plain) (hx : x ∈ s.map i) {p : Nat} (hp : Covers x p) : s.pages p ≠ 0 := by
  intro hz
  have halloc := (h.inv.filled i (h.valid i) x hx).allocated hp
  rw [show (State.pages { s with pages := plain } p) = plain p from rfl, (h.free p).mpr hz] at halloc
  exact halloc (by decide)

theorem covers_of_together {b : Block} (hx : Fits b x)
    (haddr : pageBytes state ∣ x.1) (hsize : pageBytes state ∣ x.2.size.toNat)
    (h : Together state p q) (hp : Covers x p) : Covers x q := by
  have ⟨a, ha⟩ := haddr
  have ⟨c, hc⟩ := hsize
  unfold pageBytes at ha hc
  rw [hx.covers_iff] at hp ⊢
  constructor
  · apply h.low _ hp.1
    exact ⟨a, by rw [ha, Nat.mul_assoc, Nat.mul_div_cancel_left _ (by decide)]⟩
  · apply h.high _ hp.2
    refine ⟨a + c, ?_⟩
    rw [ha, hc, Nat.mul_assoc, Nat.mul_assoc, Nat.mul_div_cancel_left _ (by decide),
      Nat.mul_div_cancel_left _ (by decide), Nat.mul_add]

theorem grain_or_allocated (f : PageFlags) : grain (f ||| pageAllocated) = grain f := by
  revert f
  decide +kernel

theorem grain_pageFlags {guarded : Bool} (hguard : guarded = true → grain f = 1) (x : Nat × Entry) (p : Nat) :
    grain (pageFlags guarded x f p) = grain f := by
  unfold pageFlags
  split_ifs with hg
  · rw [hguard hg.1]
    decide
  · exact grain_or_allocated f

theorem pageFlags_congr {guarded : Bool} (hguard : guarded = true → grain f = 1)
    (h : Together f p q) : pageFlags guarded x f q = pageFlags guarded x f p := by
  cases hg : guarded with
  | false => rfl
  | true =>
    unfold Together at h
    rw [hguard hg, Nat.div_one, Nat.div_one] at h
    rw [h]

theorem TableInv.insert (h : TableInv L s plain) (hm : MadeWith L s i x f s')
    (hguard : (L.block i).guarded = true → grain f = 1) (haddr : pageBytes f ∣ x.1)
    (hsize : pageBytes f ∣ x.2.size.toNat) : TableInv L s' (plain.place (L.block i).guarded x f) := by
  have ⟨n, heq⟩ := hm.eq
  subst heq
  have hpages : ∀ p, (s.insert i (L.block i).guarded x f n).pages p =
      if Covers x p then pageFlags (L.block i).guarded x f p else s.pages p := fun _ => rfl
  have hgrain := grain_pageFlags hguard x
  constructor
  · exact h.inv.insert f n hm.valid hm.fits fun p hp => (h.free p).mpr (hm.free p hp)
  · exact h.valid
  · intro p
    rw [hpages]
    show (if Covers x p then _ else plain p) = 0 ↔ _
    split
    · rfl
    · exact h.free p
  · intro p q hpq
    rw [hpages] at hpq
    rw [hpages, hpages]
    by_cases hp : Covers x p
    · rw [if_pos hp] at hpq ⊢
      unfold Together at hpq
      rw [hgrain] at hpq
      rw [if_pos (covers_of_together hm.fits haddr hsize hpq hp)]
      exact pageFlags_congr hguard hpq
    · rw [if_neg hp] at hpq ⊢
      have heven := h.even p q hpq
      by_cases hq : Covers x q
      · -- a large page that is in use has no free page
        rw [hm.free q hq] at heven
        rw [← heven] at hpq
        exact absurd (together_zero hpq ▸ hq) hp
      · rw [if_neg hq]
        exact heven
  · intro j y hy p hp
    rw [hpages]
    rcases State.mem_insert.mp hy with ⟨hy, _⟩ | ⟨_, rfl⟩
    · have hnot := fun hxp => h.ne_zero hy hp (hm.free p hxp)
      rw [if_neg hnot]
      exact h.whole j y hy p hp
    · rw [if_pos hp]
      unfold pageBytes at haddr hsize ⊢
      rw [hgrain]
      exact ⟨haddr, hsize⟩

theorem TableInv.remove (h : TableInv L s plain) (hx : x ∈ s.map i) : TableInv L (s.remove i x) (plain.clear x) := by
  have hfits := h.inv.fits i x hx
  have hpages : ∀ p, (s.remove i x).pages p = if Covers x p then 0 else s.pages p := fun _ => rfl
  constructor
  · exact h.inv.remove (h.valid i) hx
  · exact h.valid
  · intro p
    rw [hpages]
    show (if Covers x p then _ else plain p) = 0 ↔ _
    split
    · rfl
    · exact h.free p
  · intro p q hpq
    rw [hpages] at hpq
    rw [hpages, hpages]
    by_cases hp : Covers x p
    · rw [if_pos hp] at hpq ⊢
      rw [if_pos (together_zero hpq ▸ hp)]
    rw [if_neg hp] at hpq ⊢
    have heven := h.even p q hpq
    by_cases hq : Covers x q
    · -- then the whole large page goes
      have ⟨h1, h2⟩ := h.whole i x hx q hq
      rw [heven] at h1 h2
      exact absurd (covers_of_together hfits h1 h2 hpq.symm hq) hp
    · rw [if_neg hq]
      exact heven
  · intro j y hy p hp
    have ⟨hy, hne⟩ := State.mem_remove.mp hy
    have hapart : Apart x y := by
      apply h.inv.apart_all (h.valid i) (h.valid j) hx hy
      by_cases hij : i = j
      · exact .inr fun hxy => hne ⟨hij.symm, hxy ▸ rfl⟩
      · exact .inl hij
    rw [hpages, if_neg fun hxp => hapart.not_covers p ⟨hxp, hp⟩]
    exact h.whole j y hy p hp

/-! ### `page_protect` -/

theorem grain_congr {f g : PageFlags} (h : f &&& kindFlags = g &&& kindFlags) : grain f = grain g := by
  have hkind : ∀ f : PageFlags, grain f = grain (f &&& kindFlags) := by decide +kernel
  rw [hkind f, hkind g, h]

theorem newFlags_kind {set clear : PageFlags} (hset : set &&& kindFlags = 0) (hclear : clear &&& kindFlags = 0)
    (value : PageFlags) : newFlags set clear value &&& kindFlags = value &&& kindFlags := by
  ext i hi
  have hs := congrArg (fun v : PageFlags => v[i]) hset
  have hc := congrArg (fun v : PageFlags => v[i]) hclear
  simp only [getElem_and, ofNat_eq_ofNat, getElem_zero] at hs hc
  simp only [newFlags, getElem_and, getElem_or, getElem_not]
  revert hs hc
  cases set[i] <;> cases clear[i] <;> cases value[i] <;> cases kindFlags[i] <;> decide

theorem passed_congr (set clear : PageFlags) (stop : Nat) {first p : Nat} (hp : first ≤ p) (n : Nat)
    (hsame : ∀ r, p ≤ r → r ≤ p + n → pages r = pages p) :
    Passed pages set clear first stop (p + n) ↔ Passed pages set clear first stop p := by
  induction n with
  | zero => exact Iff.rfl
  | succ n ih =>
    rw [← Nat.add_assoc, passed_succ (by omega)]
    · exact ih fun r h1 h2 => hsame r h1 (by omega)
    · rw [hsame (p + n + 1) (by omega) (by omega), hsame (p + n) (by omega) (by omega)]

theorem Even.passed_iff (h : Even pages) (set clear : PageFlags) (stop : Nat) {first p q : Nat}
    (hpq : Together (pages p) p q) (hp : first ≤ p) (hq : first ≤ q) :
    Passed pages set clear first stop q ↔ Passed pages set clear first stop p := by
  rcases Nat.le_total p q with hle | hle
  · have hcongr := passed_congr set clear stop hp (q - p) fun r h1 h2 => h p r (hpq.between h1 (by omega))
    rwa [Nat.add_sub_cancel' hle] at hcongr
  have hsymm : Together (pages p) q p := hpq.symm
  have hsame : ∀ r, q ≤ r → r ≤ q + (p - q) → pages r = pages q := by
    intro r h1 h2
    rw [h p q hpq]
    exact h p r (hpq.trans (hsymm.between h1 (by omega)))
  have hcongr := passed_congr set clear stop hq (p - q) hsame
  rw [Nat.add_sub_cancel' hle] at hcongr
  exact hcongr.symm

section Protect

variable {pages pages' : Pages} {set clear : PageFlags} {first stop : Nat}

section

variable (h : Protected pages set clear first stop pages')
include h

theorem Pages.Protected.cases (p : Nat) :
    pages' p = pages p ∨ first ≤ p ∧ p < stop ∧ pages' p = newFlags set clear (pages p) := by
  by_cases hin : first ≤ p ∧ p < stop
  · by_cases hpass : Passed pages set clear first stop p
    · exact .inl (h.passed p hin.1 hin.2 hpass)
    · exact .inr ⟨hin.1, hin.2, h.written p hin.1 hin.2 hpass⟩
  · exact .inl (h.outside p (by omega))

theorem Pages.Protected.kind (hset : set &&& kindFlags = 0)
    (hclear : clear &&& kindFlags = 0) (p : Nat) : pages' p &&& kindFlags = pages p &&& kindFlags := by
  rcases h.cases p with hp | ⟨_, _, hp⟩
  · rw [hp]
  · rw [hp, newFlags_kind hset hclear]

theorem Pages.Protected.even (heven : Even pages) (hset : set &&& kindFlags = 0) (hclear : clear &&& kindFlags = 0)
    (hfirst : grain (pages first) ∣ first) (hstop : grain (pages (stop - 1)) ∣ stop) : Even pages' := by
  intro p q hpq
  have hpq : Together (pages p) p q := by
    unfold Together at hpq ⊢
    rwa [grain_congr (h.kind hset hclear p)] at hpq
  have hsame := heven p q hpq
  by_cases hp : first ≤ p ∧ p < stop
  · have hq := heven.mem hpq hfirst hstop hp
    have hiff := heven.passed_iff set clear stop hpq hp.1 hq.1
    by_cases hpass : Passed pages set clear first stop p
    · rw [h.passed p hp.1 hp.2 hpass, h.passed q hq.1 hq.2 (hiff.mpr hpass), hsame]
    · rw [h.written p hp.1 hp.2 hpass, h.written q hq.1 hq.2 (fun hn => hpass (hiff.mp hn)), hsame]
  · have hq : ¬ (first ≤ q ∧ q < stop) := by
      intro hq
      have hqp : Together (pages q) q p := by
        rw [hsame]
        exact hpq.symm
      exact hp (heven.mem hqp hfirst hstop hq)
    rw [h.outside p (by omega), h.outside q (by omega), hsame]

end

end Protect

omit [DecidableEq ι] in
theorem TableInv.protect (h : TableInv L s plain) {pages' : Pages} {set clear : PageFlags} {first stop : Nat}
    (hprot : Protected s.pages set clear first stop pages')
    (halloc : ∀ p, first ≤ p → p < stop → s.pages p &&& pageAllocated ≠ 0)
    (hset : set &&& kindFlags = 0) (hclear : clear &&& kindFlags = 0)
    (hfirst : grain (s.pages first) ∣ first) (hstop : grain (s.pages (stop - 1)) ∣ stop) :
    TableInv L { s with pages := pages' } plain := by
  have hkind := hprot.kind hset hclear
  refine ⟨h.inv, h.valid, ?_, hprot.even h.even hset hclear hfirst hstop, ?_⟩
  · intro p
    rw [h.free p]
    rcases hprot.cases p with hp | ⟨h1, h2, _⟩
    · rw [← hp]
    -- the page is in use before and after
    have hused := halloc p h1 h2
    have hkind' : ∀ f : PageFlags, f &&& pageAllocated = f &&& kindFlags &&& pageAllocated := by decide +kernel
    have hused' : pages' p &&& pageAllocated ≠ 0 := by
      rw [hkind', hkind p, ← hkind']
      exact hused
    constructor
    · intro hz
      rw [hz] at hused
      exact absurd (by decide) hused
    · intro hz
      have hz : pages' p = 0 := hz
      rw [hz] at hused'
      exact absurd (by decide) hused'
  · intro i x hx p hp
    unfold pageBytes
    rw [grain_congr (hkind p)]
    exact h.whole i x hx p hp

/-! ### Every call -/

theorem Block.guarded_pageSize4k (b : Block) (h : b.guarded = true) : b.flags.has pageSize4k = true := by
  have ⟨f, hf⟩ := b.processed
  unfold guarded at h
  rw [hf, processBlockFlags] at h ⊢
  generalize (if f &&& pageSizeMask = 0 then f ||| pageSize1m else f) = sized at h ⊢
  split_ifs with h4k
  · simp only [has, bne_iff_ne, ne_eq] at h4k ⊢
    rw [and_or_distrib_right]
    rw [show preallocated &&& pageSize4k = 0#64 by decide, or_zero]
    exact h4k
  · rw [if_neg h4k] at h
    simp only [has, BitVec.and_assoc, bne_iff_ne, ne_eq] at h
    rw [show ~~~stackGuarded &&& stackGuarded = 0#64 by decide, BitVec.and_zero] at h
    exact absurd rfl h

theorem grain_entryFlags {flags : BlockFlags} (h : flags.has pageSize4k = true) : grain (entryFlags flags) = 1 := by
  simp only [has, bne_iff_ne, ne_eq] at h
  have h64k : flags &&& pageSizeMask ≠ pageSize64k := by
    intro heq
    apply h
    have hand := congrArg (· &&& pageSize4k) heq
    simp only [BitVec.and_assoc] at hand
    rw [show pageSizeMask &&& pageSize4k = pageSize4k by decide] at hand
    rw [hand]
    decide
  have hother : flags.has (pageSizeMask &&& ~~~pageSize1m) = true := by
    simp only [has, bne_iff_ne, ne_eq]
    intro heq
    apply h
    have hand := congrArg (· &&& pageSize4k) heq
    simp only [BitVec.and_assoc] at hand
    rw [show pageSizeMask &&& (~~~pageSize1m &&& pageSize4k) = pageSize4k by decide] at hand
    rw [hand]
    decide
  unfold entryFlags
  split <;> split <;> (try split) <;> decide

theorem allocFlags_pageSize4k {b : Block} (h : b.guarded = true) (flags : BlockFlags) :
    (allocFlags b none flags).has pageSize4k = true := by
  have h4k := b.guarded_pageSize4k h
  simp only [has, bne_iff_ne, ne_eq] at h4k ⊢
  simp only [allocFlags, BitVec.and_or_distrib_right, BitVec.and_assoc]
  rw [show ~~~allocProtMask &&& pageSize4k = pageSize4k by decide,
    show allocProtMask &&& pageSize4k = 0#64 by decide, BitVec.and_zero, BitVec.or_zero]
  exact h4k

theorem and_allocated_ne_zero {state flags : PageFlags} (h : ~~~state &&& (flags ||| pageAllocated) = 0) :
    state &&& pageAllocated ≠ 0 := by
  intro hz
  have hand := congrArg (· &&& pageAllocated) h
  simp only [BitVec.and_assoc] at hand
  have hor : ∀ f : PageFlags, (f ||| pageAllocated) &&& pageAllocated = pageAllocated := by decide +kernel
  rw [hor] at hand
  revert hz hand
  generalize state = f
  revert f
  decide +kernel

omit [DecidableEq ι] in
theorem tableInv_initial (h : Initial s) : TableInv L s s.pages := by
  have ⟨hpages, hvalid, hmap⟩ := h
  refine ⟨inv_initial h, hvalid, fun _ => Iff.rfl, ?_, ?_⟩
  · intro p q _
    rw [hpages, hpages]
  · intro i x hx
    rw [hmap i] at hx
    exact absurd hx OrderedMap.not_mem_empty

theorem TableInv.step {e : TableCall ι} (h : TableInv L s plain) (hwhole : WholePages L s e)
    (hs : tableStep L s e = some s') : ∃ plain', TableInv L s' plain' := by
  cases e with obtain ⟨⟨t, r⟩, ht, rfl⟩ := map_eq_some_iff.mp hs
  | alloc i origSize src a flags =>
    rcases alloc_madeWith s i origSize src a flags with ⟨hn, _⟩ | hn | ⟨x, t', r', hn, hm, hsize, hr, hsrc⟩ <;>
      cases ht.symm.trans hn
    · exact ⟨plain, h⟩
    have hne : r ≠ 0 := by
      rintro rfl
      have hzero : 0 = x.1 + _ := hr.result
      have hlow := hm.fits.low
      have hpos := (L.block i).addr_pos
      omega
    have hwhole := (hwhole r (by rw [ht]; rfl)).resolve_left hne
    rw [hr.result, Nat.add_sub_cancel, ← hsize] at hwhole
    refine ⟨_, h.insert hm ?_ hwhole.1 hwhole.2⟩
    intro hg
    rw [hsrc hg]
    exact grain_entryFlags (allocFlags_pageSize4k hg flags)
  | falloc i addr origSize src flags =>
    rcases falloc_madeWith s i addr origSize src flags with ⟨hn, _⟩ | hn | ⟨x, t', hn, hm, hx, hsize, hg⟩ <;>
      cases ht.symm.trans hn
    · exact ⟨plain, h⟩
    have hwhole := hwhole (by rw [ht]; rfl)
    refine ⟨_, h.insert hm ?_ (hx ▸ hwhole.1) (hsize ▸ hwhole.2)⟩
    intro hg'
    rw [hg] at hg'
    cases hg'
  | dealloc i =>
    have hfits : ∀ x ∈ s.map i, Fits (L.block i) x := h.inv.fits i
    rcases dealloc_removed hfits ht with hsame | ⟨x, hx, hrem⟩
    · rw [hsame]
      exact ⟨plain, h⟩
    · rw [hrem]
      exact ⟨_, h.remove hx⟩
  | protect addr size test set clear =>
    have ⟨hset, hclear, hfirst, hstop⟩ := hwhole
    have ⟨hpos, haddr, hmod⟩ := pageProtect_args ht
    rcases pageProtect_cases s.pages test set clear haddr hmod hpos with ⟨_, hn⟩ | ⟨hcheck, t, hn, hprot⟩ <;>
      cases ht.symm.trans hn
    · exact ⟨plain, h⟩
    have hend : addr.toNat / 4096 + size.toNat / 4096 = (addr.toNat + size.toNat) / 4096 := by omega
    refine ⟨plain, h.protect hprot ?_ hset hclear (Nat.dvd_div_of_mul_dvd hfirst) ?_⟩
    · intro p h1 h2
      rcases (checkAddr_iff h.even _ _ _).mp hcheck with hz | ⟨_, hall⟩
      · exact absurd hz hpos
      have hwidth : (addr.setWidth 64).toNat = addr.toNat := by
        rw [toNat_setWidth]
        exact Nat.mod_eq_of_lt (by have hlt := addr.isLt; omega)
      exact and_allocated_ne_zero (hall p h1 (by omega))
    · rw [hend]
      exact Nat.dvd_div_of_mul_dvd hstop

/-- In every run whose allocations and calls of `page_protect` are about whole large pages. -/
theorem checkAddr_exact (hs : ((tableSystem L).restrict (WholePages L)).Reachable s) (addr : BitVec 64)
    (flags : PageFlags) (size : Word) : s.pages.checkAddr addr flags size = true ↔
      size = 0 ∨ addr.toNat + size.toNat ≤ 2 ^ 32 ∧
        ∀ p, addr.toNat / 4096 ≤ p → p ≤ (addr.toNat + size.toNat - 1) / 4096 →
          ~~~s.pages p &&& (flags ||| pageAllocated) = 0 := by
  have ⟨plain, hinv⟩ : ∃ plain, TableInv L s plain := by
    apply hs.invariant
    · exact fun s hinit => ⟨s.pages, tableInv_initial hinit⟩
    · intro s e s' ⟨plain, h⟩ hstep
      have ⟨hwhole, hstep⟩ := Transition.System.step_restrict.mp hstep
      exact h.step hwhole hstep
  exact checkAddr_iff hinv.even addr flags size

/-- A block with pages of 1 MiB. -/
def userLayout : Layout Unit where
  block _ :=
    { addr := 0x20000000
      size := 0x10000000
      flags := pageSize1m
      processed := ⟨pageSize1m, by decide⟩
      addr_pos := by decide
      addr_mod := by decide
      size_pos := (sharedLayout.block ()).size_pos
      size_mod := (sharedLayout.block ()).size_mod
      fits := by decide }
  disjoint := fun i j h => absurd (Subsingleton.elim i j) h

/-- Two pages of 1 MiB, the second one read-only. -/
theorem checkAddr_exact_readOnly : ∃ s, ((tableSystem userLayout).restrict (WholePages userLayout)).Reachable s ∧
    s.pages.checkAddr 0x20000000 pageReadable 0x200000 = true ∧
    s.pages.checkAddr 0x20000000 pageWritable 0x200000 = false ∧
    (s.pages.checkAddr 0x20000000 pageReadable 0x200000 = true ↔
      (0x200000 : Word) = 0 ∨ (0x20000000 : BitVec 64).toNat + (0x200000 : Word).toNat ≤ 2 ^ 32 ∧
        ∀ p, (0x20000000 : BitVec 64).toNat / 4096 ≤ p →
          p ≤ ((0x20000000 : BitVec 64).toNat + (0x200000 : Word).toNat - 1) / 4096 →
          ~~~s.pages p &&& (pageReadable ||| pageAllocated) = 0) := by
  have ⟨s, hs, hr, hw⟩ := System.Reachable.exists_of_run
    (M := (tableSystem userLayout).restrict (WholePages userLayout)) (initial_emptyState Unit)
    [.falloc () 0x20000000 0x200000 none 0, .protect 0x20100000 0x100000 0 0 pageWritable]
    (fun s => s.pages.checkAddr 0x20000000 pageReadable 0x200000 = true ∧
      s.pages.checkAddr 0x20000000 pageWritable 0x200000 = false) (by decide +kernel)
  exact ⟨s, hs, hr, hw, checkAddr_exact hs 0x20000000 pageReadable 0x200000⟩

/-- A page that is not allocated fails the check for no flags; and an allocation of 64 KiB in a block of
1 MiB pages passes for the whole megabyte. -/
theorem checkAddr_differs : ((tableSystem userLayout).Reachable (emptyState Unit) ∧
      (emptyState Unit).pages.checkAddr 0x10000 0 0x1000 = false ∧
      ∀ p, ~~~(emptyState Unit).pages p &&& 0 = 0) ∧ ∃ s, (tableSystem userLayout).Reachable s ∧
      s.pages.checkAddr 0x20000000 pageReadable 0x100000 = true ∧ s.pages 0x20010 = 0 := by
  refine ⟨⟨System.Reachable.of_init (initial_emptyState Unit), by decide +kernel, fun p => and_zero⟩, ?_⟩
  have ⟨s, hs, hcheck, hfree⟩ := System.Reachable.exists_of_run (M := tableSystem userLayout)
    (initial_emptyState Unit) [.falloc () 0x20000000 0x10000 none 0]
    (fun s => s.pages.checkAddr 0x20000000 pageReadable 0x100000 = true ∧ s.pages 0x20010 = 0)
    (by decide +kernel)
  exact ⟨s, hs, hcheck, hfree⟩

end Armsx3.Vm
