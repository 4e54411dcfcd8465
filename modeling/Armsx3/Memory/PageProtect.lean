import Armsx3.Memory.Block

/-!
# PageProtect — checking and changing the flags of a range

`vm::check_addr` walks over a range and jumps to the end of a large page.  `vm::page_protect` gives each page its new
flags, run by run: whether a run of pages with the same new flags is written is decided by the first of them.  The
protection of the host pages is left out.
-/

namespace Armsx3.Vm

open Nat

namespace Pages

def nextMultiple (i n : Nat) : Nat := (i / n + 1) * n

def grain (state : PageFlags) : Nat :=
  if state &&& page1mSize ≠ 0 then 0x100000 / 4096
  else if state &&& page64kSize ≠ 0 then 0x10000 / 4096
  else 1

/-- The loop of `check_addr` from page `i` to page `max`; `fuel` bounds the pages that are left. -/
def checkLoop (pages : Pages) (flags : PageFlags) (max : Nat) : (fuel : Nat) → (i : Nat) → Bool
  | 0, _ => true
  | n + 1, i =>
    if max < i then true
    else if ~~~pages i &&& flags ≠ 0 then false
    else checkLoop pages flags max n (nextMultiple i (grain (pages i)))

def checkAddr (pages : Pages) (addr : BitVec 64) (flags : PageFlags) (size : Word) : Bool :=
  if size = 0 then true
  else if addr.toNat > 2 ^ 32 - 1 ∨ 2 ^ 32 - addr.toNat < size.toNat then false
  else
    let max := (addr.toNat + size.toNat - 1) / 4096
    checkLoop pages (flags ||| pageAllocated) max (max + 1 - addr.toNat / 4096) (addr.toNat / 4096)

def newFlags (set clear value : PageFlags) : PageFlags := (value ||| set) &&& ~~~clear

def flushRun (pages : Pages) (start i : Nat) (startValue : PageFlags) : Pages :=
  if i - start ≠ 0 ∧ pages start ≠ startValue then pages.fill start (i - start) startValue else pages

/-- The loop of `page_protect`, with `n` iterations left.  The one for page `stop` only ends the last
run. -/
def protectLoop (set clear : PageFlags) (stop : Nat) :
    (n : Nat) → (pages : Pages) → (i start : Nat) → (startValue : PageFlags) → Pages
  | 0, pages, _, _, _ => pages
  | n + 1, pages, i, start, startValue =>
    let newVal := if i < stop then newFlags set clear (pages i) else pageExecutable
    if newVal ≠ startValue then
      protectLoop set clear stop n (pages.flushRun start i startValue) (i + 1) i newVal
    else protectLoop set clear stop n pages (i + 1) start startValue

/-- `vm::page_protect`; a flag that is both in `set` and in `clear` is left alone. -/
def pageProtect (pages : Pages) (addr size : Word) (test set clear : PageFlags) : Option (Pages × Bool) :=
  if size = 0 ∨ (size ||| addr).toNat % 4096 ≠ 0 then none
  else
    let set' := set &&& ~~~(set &&& clear)
    let clear' := clear &&& ~~~(set &&& clear)
    if pages.checkAddr (addr.setWidth 64) (test ||| pageAllocated) size = false then some (pages, false)
    else if set' = 0 ∧ clear' = 0 then some (pages, true)
    else
      let first := addr.toNat / 4096
      some (protectLoop set' clear' (first + size.toNat / 4096) (size.toNat / 4096 + 1) pages first first
        pageExecutable, true)

/-! ## Runs -/

section Runs

variable {pages : Pages} {set clear : PageFlags} {first stop q p : Nat}

structure RunFrom (pages : Pages) (set clear : PageFlags) (first q p : Nat) : Prop where
  low : first ≤ q
  le : q ≤ p
  same : ∀ r, q ≤ r → r ≤ p → newFlags set clear (pages r) = newFlags set clear (pages p)
  maximal : q = first ∨ newFlags set clear (pages (q - 1)) ≠ newFlags set clear (pages p)

/-- The pages that `page_protect` passes over: their run begins with a page that has the new flags
already, or it is the last one and its flags are those that stand for no run. -/
def Passed (pages : Pages) (set clear : PageFlags) (first stop p : Nat) : Prop :=
  (∃ q, RunFrom pages set clear first q p ∧ pages q = newFlags set clear (pages p)) ∨
  (newFlags set clear (pages p) = pageExecutable ∧
    ∀ r, p ≤ r → r < stop → newFlags set clear (pages r) = newFlags set clear (pages p))

theorem RunFrom.unique {q' : Nat} (h : RunFrom pages set clear first q p)
    (h' : RunFrom pages set clear first q' p) : q = q' := by
  have hle : ∀ {a b}, RunFrom pages set clear first a p → RunFrom pages set clear first b p → b ≤ a := by
    intro a b ha hb
    by_contra hlt
    rcases hb.maximal with hb' | hb'
    · have hlow := ha.low
      omega
    · -- the page before `b` is in the run from `a`
      apply hb'
      exact ha.same (b - 1) (by omega) (by have hle := hb.le; omega)
  exact le_antisymm (hle h' h) (hle h h')

theorem runFrom_succ (hp : first ≤ p) (hsame : newFlags set clear (pages (p + 1)) = newFlags set clear (pages p)) :
    RunFrom pages set clear first q (p + 1) ↔ RunFrom pages set clear first q p := by
  constructor
  · intro h
    have hq : q ≤ p := by
      by_contra hlt
      have hle := h.le
      have heq : q = p + 1 := by omega
      rcases h.maximal with hm | hm
      · omega
      · rw [heq] at hm
        exact hm hsame.symm
    refine ⟨h.low, hq, fun r h1 h2 => (h.same r h1 (by omega)).trans hsame, ?_⟩
    rw [← hsame]
    exact h.maximal
  · intro h
    refine ⟨h.low, by have hle := h.le; omega, ?_, ?_⟩
    · intro r h1 h2
      by_cases hr : r = p + 1
      · rw [hr]
      · rw [hsame]
        exact h.same r h1 (by omega)
    · rw [hsame]
      exact h.maximal

theorem passed_succ (hp : first ≤ p) (hsame : newFlags set clear (pages (p + 1)) = newFlags set clear (pages p)) :
    Passed pages set clear first stop (p + 1) ↔ Passed pages set clear first stop p := by
  apply or_congr
  · apply exists_congr
    intro q
    rw [runFrom_succ hp hsame, hsame]
  rw [hsame]
  apply and_congr_right
  intro _
  constructor
  · intro h r h1 h2
    by_cases hr : r = p
    · rw [hr]
    · exact h r (by omega) h2
  · intro h r h1 h2
    exact h r (by omega) h2

/-- The state of the loop: the runs before `start` are done, the run from `start` to `i` gets
`startValue`, and the rest is as it was. -/
structure LoopInv (old : Pages) (set clear : PageFlags) (first stop : Nat) (pages : Pages) (i start : Nat)
    (startValue : PageFlags) : Prop where
  low : first ≤ start
  le : start ≤ i
  high : i ≤ stop + 1
  start_le : start ≤ stop
  begun : start < i ∨ i = first
  ended : i = stop + 1 → startValue = pageExecutable
  run : ∀ r, start ≤ r → r < i → r < stop → newFlags set clear (old r) = startValue
  maximal : start = first ∨ newFlags set clear (old (start - 1)) ≠ startValue
  rest : ∀ p, p < first ∨ start ≤ p → pages p = old p
  passed : ∀ p, first ≤ p → p < start → Passed old set clear first stop p → pages p = old p
  written : ∀ p, first ≤ p → p < start → ¬ Passed old set clear first stop p → pages p = newFlags set clear (old p)

variable {old : Pages} {i start : Nat} {startValue newVal : PageFlags}

theorem LoopInv.passed_iff (h : LoopInv old set clear first stop pages i start startValue) (hi : i ≤ stop)
    (hnew : newVal = if i < stop then newFlags set clear (pages i) else pageExecutable)
    (hne : newVal ≠ startValue) (hp : start ≤ p) (hpi : p < i) :
    Passed old set clear first stop p ↔ old start = startValue := by
  have hval := h.run p hp hpi (by omega)
  have hrun : RunFrom old set clear first start p := by
    refine ⟨h.low, hp, fun r h1 h2 => ?_, ?_⟩
    · rw [h.run r h1 (by omega) (by omega), hval]
    · rw [hval]
      exact h.maximal
  unfold Passed
  rw [hval]
  constructor
  · rintro (⟨q, hq, heq⟩ | ⟨hexec, hend⟩)
    · rwa [hq.unique hrun] at heq
    -- a run up to `stop` is followed by the end of the range, one before it by other flags
    exfalso
    apply hne
    rw [hnew]
    split
    next hlt =>
      rw [h.rest i (.inr h.le)]
      exact hend i (by omega) hlt
    · exact hexec.symm
  · intro heq
    exact .inl ⟨start, hrun, heq⟩

theorem flushRun_of_not_mem (hp : p < start ∨ i ≤ p) : pages.flushRun start i startValue p = pages p := by
  unfold flushRun
  split
  · unfold fill
    rw [if_neg (by omega)]
  · rfl

section

variable (h : LoopInv old set clear first stop pages i start startValue)
include h

theorem LoopInv.flush (hi : i ≤ stop)
    (hnew : newVal = if i < stop then newFlags set clear (pages i) else pageExecutable) (hne : newVal ≠ startValue) :
    LoopInv old set clear first stop (pages.flushRun start i startValue) (i + 1) i newVal := by
  have hstart := h.rest start (.inr (le_refl _))
  have hlow := h.low
  have hle := h.le
  -- the pages of the run, which `flushRun` writes or passes over together
  have hflush : ∀ p, start ≤ p → p < i →
      pages.flushRun start i startValue p = if old start = startValue then old p else startValue := by
    intro p hp hpi
    unfold flushRun
    rw [hstart]
    by_cases heq : old start = startValue
    · rw [if_neg (fun hc => hc.2 heq), if_pos heq]
      exact h.rest p (.inr hp)
    · rw [if_pos ⟨by omega, heq⟩, if_neg heq]
      unfold fill
      rw [if_pos (by omega)]
  constructor
  · omega
  · omega
  · omega
  · omega
  · omega
  · intro hend
    rw [hnew, if_neg (by omega)]
  · intro r h1 h2 h3
    have hr : r = i := by omega
    rw [hnew, hr, if_pos (hr ▸ h3), h.rest i (.inr h.le)]
  · by_cases hempty : start = i
    · left
      have hbegun := h.begun
      omega
    · right
      rw [h.run (i - 1) (by omega) (by omega) (by omega)]
      exact Ne.symm hne
  · intro p hp
    rw [flushRun_of_not_mem (by omega)]
    exact h.rest p (by omega)
  · intro p h1 h2 hpass
    by_cases hp : start ≤ p
    · rw [hflush p hp h2, if_pos ((h.passed_iff hi hnew hne hp h2).mp hpass)]
    · rw [flushRun_of_not_mem (by omega)]
      exact h.passed p h1 (by omega) hpass
  · intro p h1 h2 hpass
    by_cases hp : start ≤ p
    · rw [hflush p hp h2, if_neg (fun heq => hpass ((h.passed_iff hi hnew hne hp h2).mpr heq)),
        h.run p hp h2 (by omega)]
    · rw [flushRun_of_not_mem (by omega)]
      exact h.written p h1 (by omega) hpass

theorem LoopInv.extend (hi : i ≤ stop)
    (hnew : startValue = if i < stop then newFlags set clear (pages i) else pageExecutable) :
    LoopInv old set clear first stop pages (i + 1) start startValue := by
  have hle := h.le
  refine ⟨h.low, by omega, by omega, h.start_le, by omega, fun hend => ?_, ?_, h.maximal, h.rest, h.passed, h.written⟩
  · rw [hnew, if_neg (by omega)]
  intro r h1 h2 h3
  by_cases hr : r = i
  · rw [hnew, hr, if_pos (hr ▸ h3), h.rest i (.inr hle)]
  · exact h.run r h1 (by omega) h3

theorem LoopInv.loop {n : Nat} (hn : i + n = stop + 1) : ∃ start' startValue',
      LoopInv old set clear first stop (protectLoop set clear stop n pages i start startValue) (stop + 1) start'
        startValue' := by
  -- on the iterations left
  induction n generalizing pages i start startValue with
  | zero =>
    have hi : i = stop + 1 := by omega
    exact ⟨start, startValue, hi ▸ h⟩
  | succ n ih =>
    rw [protectLoop]
    generalize hnew : (if i < stop then newFlags set clear (pages i) else pageExecutable) = newVal
    split
    next hne =>
      exact ih (h.flush (by omega) hnew.symm hne) (by omega)
    next heq =>
      have heq := not_not.mp heq
      exact ih (h.extend (by omega) (heq ▸ hnew.symm)) (by omega)

end

theorem loopInv_start (old : Pages) (set clear : PageFlags) (first n : Nat) (hn : 0 < n) :
    LoopInv old set clear first (first + n) old first first pageExecutable := by
  refine ⟨le_refl _, le_refl _, by omega, by omega, .inr rfl, fun h => by omega, ?_, .inl rfl, fun _ _ => rfl, ?_, ?_⟩
  · intro r h1 h2
    omega
  · intro p h1 h2
    omega
  · intro p h1 h2
    omega

structure Protected (old : Pages) (set clear : PageFlags) (first stop : Nat) (pages : Pages) : Prop where
  outside : ∀ p, p < first ∨ stop ≤ p → pages p = old p
  passed : ∀ p, first ≤ p → p < stop → Passed old set clear first stop p → pages p = old p
  written : ∀ p, first ≤ p → p < stop → ¬ Passed old set clear first stop p → pages p = newFlags set clear (old p)

theorem protectLoop_protected (old : Pages) (set clear : PageFlags) (first n : Nat) (hn : 0 < n) :
    Protected old set clear first (first + n)
      (protectLoop set clear (first + n) (n + 1) old first first pageExecutable) := by
  have ⟨start, startValue, h⟩ := (loopInv_start old set clear first n hn).loop (n := n + 1) (by omega)
  have hexec := h.ended rfl
  -- a run that is open at the end has the flags that stand for no run
  have hopen : ∀ p, start ≤ p → p < first + n → Passed old set clear first (first + n) p := by
    intro p h1 h2
    have hrun : ∀ r, start ≤ r → r < first + n → newFlags set clear (old r) = pageExecutable := by
      intro r h1 h2
      rw [← hexec]
      exact h.run r h1 (by omega) h2
    right
    rw [hrun p h1 h2]
    exact ⟨rfl, fun r h3 h4 => hrun r (by omega) h4⟩
  constructor
  · intro p hp
    have hle := h.start_le
    exact h.rest p (by omega)
  · intro p h1 h2 hpass
    by_cases hs : start ≤ p
    · exact h.rest p (.inr hs)
    · exact h.passed p h1 (by omega) hpass
  · intro p h1 h2 hpass
    by_cases hs : start ≤ p
    · exact absurd (hopen p hs h2) hpass
    · exact h.written p h1 (by omega) hpass

end Runs

/-! ## The whole call -/

theorem and_not_and (x y : PageFlags) : x &&& ~~~(x &&& y) = x &&& ~~~y := by
  ext i hi
  simp only [BitVec.getElem_and, BitVec.getElem_not]
  cases x[i] <;> cases y[i] <;> rfl

theorem newFlags_zero (value : PageFlags) : newFlags 0 0 value = value := by
  revert value
  decide

theorem pageProtect_args {pages pages' : Pages} {addr size : Word} {test set clear : PageFlags} {done : Bool}
    (h : pages.pageProtect addr size test set clear = some (pages', done)) :
    size ≠ 0 ∧ addr.toNat % 4096 = 0 ∧ size.toNat % 4096 = 0 := by
  unfold pageProtect at h
  by_cases hbad : size = 0 ∨ (size ||| addr).toNat % 4096 ≠ 0
  · rw [if_pos hbad] at h
    cases h
  have ⟨hpos, hor⟩ := not_or.mp hbad
  have hor := not_not.mp hor
  rw [BitVec.toNat_or, show 4096 = 2 ^ 12 from rfl, or_mod_two_pow, or_eq_zero_iff] at hor
  exact ⟨hpos, hor.2, hor.1⟩

theorem pageProtect_cases (pages : Pages) {addr size : Word} (test set clear : PageFlags)
    (haddr : addr.toNat % 4096 = 0) (hmod : size.toNat % 4096 = 0) (hpos : size ≠ 0) :
    (pages.checkAddr (addr.setWidth 64) (test ||| pageAllocated) size = false ∧
      pages.pageProtect addr size test set clear = some (pages, false)) ∨
    (pages.checkAddr (addr.setWidth 64) (test ||| pageAllocated) size = true ∧
      ∃ pages', pages.pageProtect addr size test set clear = some (pages', true) ∧
        Protected pages (set &&& ~~~clear) (clear &&& ~~~set) (addr.toNat / 4096)
          (addr.toNat / 4096 + size.toNat / 4096) pages') := by
  have hok : ¬ (size = 0 ∨ (size ||| addr).toNat % 4096 ≠ 0) := by
    have hor : (size ||| addr).toNat % 4096 = 0 := by
      rw [BitVec.toNat_or, show 4096 = 2 ^ 12 from rfl, or_mod_two_pow, show 2 ^ 12 = 4096 from rfl, haddr, hmod]
      rfl
    simp only [hpos, hor, ne_eq, not_true_eq_false, or_self, not_false_eq_true]
  have hset := and_not_and set clear
  have hclear : clear &&& ~~~(set &&& clear) = clear &&& ~~~set := by
    rw [BitVec.and_comm set clear]
    exact and_not_and clear set
  unfold pageProtect
  rw [if_neg hok, hset, hclear]
  by_cases hcheck : pages.checkAddr (addr.setWidth 64) (test ||| pageAllocated) size = false
  · left
    exact ⟨hcheck, if_pos hcheck⟩
  right
  refine ⟨by rwa [Bool.not_eq_false] at hcheck, ?_⟩
  rw [if_neg hcheck]
  split
  next hzero =>
    refine ⟨pages, rfl, fun _ _ => rfl, fun _ _ _ _ => rfl, fun p _ _ _ => ?_⟩
    rw [hzero.1, hzero.2, newFlags_zero]
  · have hn : 0 < size.toNat / 4096 := by bv_omega
    exact ⟨_, rfl, protectLoop_protected pages _ _ _ _ hn⟩

/-- A call on whole pages changes nothing if it fails and nothing outside of the range, and gives each page of the range
that it does not pass over its new flags. -/
theorem pageProtect_exact (pages : Pages) (addr size : Word) (test set clear : PageFlags)
    (haddr : addr.toNat % 4096 = 0) (hmod : size.toNat % 4096 = 0) (hpos : size ≠ 0) :
    ∃ pages' done, pages.pageProtect addr size test set clear = some (pages', done) ∧ (done = false → pages' = pages) ∧
      (∀ p, p < addr.toNat / 4096 ∨ addr.toNat / 4096 + size.toNat / 4096 ≤ p → pages' p = pages p) ∧
      (done = true → ∀ p, addr.toNat / 4096 ≤ p → p < addr.toNat / 4096 + size.toNat / 4096 →
        ¬ Passed pages (set &&& ~~~clear) (clear &&& ~~~set) (addr.toNat / 4096)
          (addr.toNat / 4096 + size.toNat / 4096) p →
        pages' p = (pages p ||| (set &&& ~~~clear)) &&& ~~~(clear &&& ~~~set)) := by
  rcases pageProtect_cases pages test set clear haddr hmod hpos with ⟨_, h⟩ | ⟨_, pages', h, hprot⟩
  · exact ⟨pages, false, h, fun _ => rfl, fun _ _ => rfl, nofun⟩
  · exact ⟨pages', true, h, nofun, hprot.outside, fun _ => hprot.written⟩

def allPages (flags : PageFlags) : Pages := fun _ => flags

/-- Two pages become read-only. -/
theorem pageProtect_exact_readOnly : ∃ pages' done,
    (allPages 0x83).pageProtect 0x10000 0x2000 0 0 pageWritable = some (pages', done) ∧ done = true ∧
    pages' 16 = 0x81 ∧ pages' 17 = 0x81 ∧ pages' 18 = 0x83 := by
  have ⟨pages', done, h, _, hout, hin⟩ := pageProtect_exact (allPages 0x83) 0x10000 0x2000 0 0 pageWritable
    (by decide) (by decide) (by decide)
  have hdone : done = true := by
    have hsome : ((allPages 0x83).pageProtect 0x10000 0x2000 0 0 pageWritable).map Prod.snd = some true := by
      decide +kernel
    rw [h] at hsome
    exact Option.some.inj hsome
  -- no page has the new flags yet, and they are not those of no run
  have hpass : ∀ p, ¬ Passed (allPages 0x83) (0 &&& ~~~pageWritable) (pageWritable &&& ~~~0)
      ((0x10000 : Word).toNat / 4096) ((0x10000 : Word).toNat / 4096 + (0x2000 : Word).toNat / 4096) p := by
    rintro p (⟨q, _, hq⟩ | ⟨hexec, _⟩)
    · change (0x83 : PageFlags) = newFlags _ _ 0x83 at hq
      exact absurd hq (by decide)
    · change newFlags _ _ (0x83 : PageFlags) = _ at hexec
      exact absurd hexec (by decide)
  refine ⟨pages', done, h, hdone, ?_, ?_, ?_⟩
  · rw [hin hdone 16 (by decide) (by decide) (hpass 16)]
    rfl
  · rw [hin hdone 17 (by decide) (by decide) (hpass 17)]
    rfl
  · rw [hout 18 (by decide)]
    rfl

/-- A flag in both masks is neither set nor cleared; a page is passed over when the one before it has the new flags
already; and so is a last page whose new flags are `page_executable`. -/
theorem pageProtect_differs :
    (((allPages 0x83).pageProtect 0x10000 0x1000 0 pageWritable pageWritable).any
      fun r => r.2 && r.1 16 != (0x83 ||| pageWritable) &&& ~~~pageWritable) = true ∧
    (((allPages 0x81).fill 16 1 0x83).pageProtect 0x10000 0x2000 0 pageWritable 0).any
      (fun r => r.2 && r.1 17 == 0x81) = true ∧
    ((allPages 0x83).pageProtect 0x10000 0x1000 0 pageExecutable (~~~pageExecutable)).any
      (fun r => r.2 && r.1 16 == 0x83) = true := by
  decide +kernel

end Pages

end Armsx3.Vm
