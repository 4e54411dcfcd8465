import Armsx3.Cell.DmuxQueue

/-!
# DmuxQueueSafety — access units in the output queue

The access units that were found and not released lie one behind the other, from the front pointer to where the back
pointer has wrapped around and from the start of the buffer on.
-/

namespace Armsx3.Cell.DmuxPamf

open ByteStore QueueState Cutter List Nat Option

/-! ## Entries one behind the other -/

/-- The access units fill the range from `a` to `b`. -/
def Chain : Nat → List Found → Nat → Prop
  | a, [], b => a = b
  | a, f :: l, b => f.addr = a ∧ Chain (a + f.size) l b

section Chain

variable {a b : Nat} {f : Found} {l l' : List Found}

theorem Chain.le (h : Chain a l b) : a ≤ b := by
  induction l generalizing a with
  | nil => exact Nat.le_of_eq h
  | cons f l ih =>
    have hle := ih h.2
    omega

theorem Chain.mem (h : Chain a l b) (hf : f ∈ l) : a ≤ f.addr ∧ f.addr + f.size ≤ b := by
  induction l generalizing a with
  | nil => cases hf
  | cons g l ih =>
    have haddr := h.1
    have hle := Chain.le h.2
    rcases mem_cons.mp hf with hf | hf
    · rw [hf]
      omega
    · have hmem := ih h.2 hf
      omega

theorem Chain.concat (h : Chain a l b) (hf : f.addr = b) : Chain a (l ++ [f]) (b + f.size) := by
  induction l generalizing a with
  | nil =>
    have hab := h
    exact ⟨by rw [hf, hab], by rw [hab]; rfl⟩
  | cons g l ih => exact ⟨h.1, ih h.2⟩

def Tight (l : List Found) : Prop := ∃ f, l.getLast? = some f ∧ 0 < f.size

theorem Tight.concat (hf : 0 < f.size) : Tight (l ++ [f]) := ⟨f, getLast?_concat, hf⟩

theorem Tight.tail (h : Tight (f :: l)) (hl : l ≠ []) : Tight l := by
  have ⟨g, hg, hpos⟩ := h
  cases l with
  | nil => exact absurd rfl hl
  | cons => exact ⟨g, by rwa [getLast?_cons_cons] at hg, hpos⟩

theorem Chain.lt (h : Chain a l b) (ht : Tight l) : a < b := by
  have ⟨f, hlast, hpos⟩ := ht
  have hmem := h.mem (mem_of_getLast? hlast)
  omega

end Chain

/-! ## The invariant -/

/-- The largest access unit fits behind `a`, or `a` is the start of the buffer. -/
def Cutter.Start (c : Cutter) (a : Nat) : Prop := a = 0 ∨ a + c.auMaxSize ≤ c.queue.size

def QueueState.begin (s : QueueState) : Nat := s.cutter.queue.back - s.current.length

inductive Layout (s : QueueState) : Prop
  | straight (hwrap : s.cutter.queue.wrapPos = 0) (hchain : Chain s.cutter.queue.front s.found s.begin)
  | wrapped (l l' : List Found) (hpos : 0 < s.cutter.queue.wrapPos)
      (hle : s.cutter.queue.wrapPos ≤ s.cutter.queue.size) (hfound : s.found = l ++ l') (htight : Tight l)
      (hchain : Chain s.cutter.queue.front l s.cutter.queue.wrapPos) (hchain' : Chain 0 l' s.begin)
      (hback : s.cutter.queue.back ≤ s.cutter.queue.front)

theorem Layout.congr {s s' : QueueState} (h : Layout s) (hqueue : s'.cutter.queue = s.cutter.queue)
    (hfound : s'.found = s.found) (hbegin : s'.begin = s.begin) : Layout s' := by
  cases h with
  | straight hwrap =>
    rw [← hqueue] at hwrap
    refine .straight hwrap ?_
    rwa [hqueue, hfound, hbegin]
  | wrapped l l' hpos hle hl htight hchain hchain' hback =>
    rw [← hqueue] at hpos hle hchain hback
    rw [← hbegin] at hchain'
    exact .wrapped l l' hpos hle (hfound.trans hl) htight hchain hchain' hback

structure QueueInv (s : QueueState) : Prop where
  size : s.cutter.queue.size < 2 ^ 32
  back : s.cutter.queue.back ≤ s.cutter.queue.size
  front : s.cutter.queue.front ≤ s.cutter.queue.size
  current : s.current.length ≤ s.cutter.queue.back
  layout : Layout s
  starts : ∀ f ∈ s.found, s.cutter.Start f.addr
  start : s.cutter.Start s.begin
  sizes : ∀ f ∈ s.found, f.size = f.bytes.length
  kept : ∀ f ∈ s.found, read s.cutter.queue.buffer f.addr f.size = f.bytes
  keptCurrent : read s.cutter.queue.buffer s.begin s.current.length = s.current
  accumulated : s.cutter.state ≠ .preparingForNextAu →
    s.cutter.accumulatedSize = (s.current.length + s.cutter.chunk.length) % 2 ^ 32
  chunk : s.cutter.state ≠ .pushingAuQueue → s.cutter.chunk = []
  preparing : s.cutter.state = .preparingForNextAu →
    s.cutter.au = .complete ∧ s.cutter.queue.size < s.cutter.auMaxSize ∧ s.cutter.queue.back = 0
  alive : s.failed = false

variable {s s' : QueueState} {q : OutputQueue} {f : Found}

section

variable (h : QueueInv s)
include h

theorem QueueInv.begin_add : s.begin + s.current.length = s.cutter.queue.back := by
  have hle := h.current
  unfold begin
  omega

theorem QueueInv.apart (hf : f ∈ s.found) :
    f.addr + f.size ≤ s.begin ∨ (s.cutter.queue.wrapPos ≠ 0 ∧ s.cutter.queue.front ≤ f.addr) := by
  cases h.layout with
  | straight hwrap hchain => exact .inl (hchain.mem hf).2
  | wrapped l l' hpos hle hfound htight hchain hchain' =>
    rw [hfound] at hf
    rcases mem_append.mp hf with hf | hf
    · exact .inr ⟨by omega, (hchain.mem hf).1⟩
    · exact .inl (hchain'.mem hf).2

/-! ## Pushing -/

theorem QueueInv.fits {n : Nat} (hfits : s.cutter.queue.fits n = true) : s.cutter.queue.back + n ≤ s.cutter.queue.size ∧
      (s.cutter.queue.wrapPos ≠ 0 → s.cutter.queue.back + n ≤ s.cutter.queue.front) := by
  have hback := h.back
  have hfront := h.front
  unfold OutputQueue.fits sub32 at hfits
  cases h.layout with
  | straight hwrap =>
    simp only [hwrap, if_true, Bool.not_eq_true', decide_eq_false_iff_not] at hfits
    refine ⟨by omega, fun hne => absurd hwrap hne⟩
  | wrapped =>
    rw [if_neg (by omega)] at hfits
    simp only [Bool.not_eq_true', decide_eq_false_iff_not] at hfits
    exact ⟨by omega, fun _ => by omega⟩

theorem inv_push (hstate : s.cutter.state = .pushingAuQueue) (hpush : s.cutter.queue.push s.cutter.chunk = some q) :
    QueueInv { s with
      cutter := { s.cutter with queue := q, chunk := [] }
      current := s.current ++ s.cutter.chunk } := by
  have ⟨hfits, rfl⟩ := ite_some_none_eq_some.mp hpush
  have ⟨hend, hfront⟩ := h.fits hfits
  have hadd := h.begin_add
  have hlen : (s.current ++ s.cutter.chunk).length = s.current.length + s.cutter.chunk.length := length_append
  have hbegin : begin { s with
      cutter := { s.cutter with queue := s.cutter.queue.pushUnchecked s.cutter.chunk, chunk := [] }
      current := s.current ++ s.cutter.chunk } = s.begin := by
    show s.cutter.queue.back + s.cutter.chunk.length - (s.current ++ s.cutter.chunk).length =
      s.cutter.queue.back - s.current.length
    omega
  refine ⟨h.size, hend, h.front, ?_, ?_, h.starts, ?_, h.sizes, ?_, ?_, ?_, fun _ => rfl, ?_, h.alive⟩
  · show (s.current ++ s.cutter.chunk).length ≤ s.cutter.queue.back + s.cutter.chunk.length
    omega
  · cases h.layout with
    | straight hwrap hchain =>
      refine .straight hwrap ?_
      rw [hbegin]
      exact hchain
    | wrapped l l' hpos hle hfound htight hchain hchain' =>
      refine .wrapped l l' hpos hle hfound htight hchain ?_ (hfront (by omega))
      rw [hbegin]
      exact hchain'
  · rw [hbegin]
    exact h.start
  · intro f hf
    rw [← h.kept f hf]
    apply read_write_disjoint
    rcases h.apart hf with hle | ⟨hwrap, hle⟩
    · right
      omega
    · left
      omega
  · -- the chunk continues the access unit
    rw [hbegin]
    show read (write s.cutter.queue.buffer s.cutter.queue.back s.cutter.chunk) s.begin
      (s.current ++ s.cutter.chunk).length = s.current ++ s.cutter.chunk
    rw [hlen, read_add, hadd, read_write, read_write_disjoint (by omega), h.keptCurrent]
  · intro _
    show s.cutter.accumulatedSize = ((s.current ++ s.cutter.chunk).length + 0) % 2 ^ 32
    rw [hlen, Nat.add_zero]
    apply h.accumulated
    rw [hstate]
    decide
  · intro hprep
    rw [hstate] at hprep
    cases hprep

/-! ## Finding -/

theorem QueueInv.accumulated_eq (hchunk : s.cutter.chunk = [])
    (hstate : s.cutter.state ≠ .preparingForNextAu) : s.cutter.accumulatedSize = s.current.length := by
  have hsize := h.size
  have hback := h.back
  have hcurrent := h.current
  rw [h.accumulated hstate, hchunk, length_nil, Nat.add_zero]
  exact mod_eq_of_lt (by omega)

theorem inv_setState (hchunk : s.cutter.chunk = []) (hstate : s.cutter.state ≠ .preparingForNextAu)
    {st : EsState} (hst : st ≠ .preparingForNextAu) :
    QueueInv { s with cutter := { s.cutter with state := st } } :=
  { h with
    layout := h.layout.congr rfl rfl rfl
    accumulated := fun _ => h.accumulated hstate
    chunk := fun _ => hchunk
    preparing := fun hprep => absurd hprep hst }

theorem inv_setAu (hstate : s.cutter.state = .initial) (au : AuState) :
    QueueInv { s with cutter := { s.cutter with au := au } } := by
  refine { h with layout := h.layout.congr rfl rfl rfl, preparing := fun hprep => ?_ }
  have hinitial := hstate.symm.trans hprep
  cases hinitial

theorem inv_mismatch :
    QueueInv { s with
      cutter := { s.cutter with
        queue := { s.cutter.queue with back := s.cutter.queue.back - s.current.length }
        chunk := []
        accumulatedSize := 0
        state := .initial }
      current := [] } := by
  have hback := h.back
  have hbegin : begin { s with
      cutter := { s.cutter with
        queue := { s.cutter.queue with back := s.cutter.queue.back - s.current.length }
        chunk := []
        accumulatedSize := 0
        state := .initial }
      current := [] } = s.begin := rfl
  refine ⟨h.size, ?_, h.front, zero_le _, ?_, h.starts, ?_, h.sizes, h.kept, rfl, fun _ => rfl, fun _ => rfl, ?_,
    h.alive⟩
  · show s.cutter.queue.back - s.current.length ≤ s.cutter.queue.size
    omega
  · cases h.layout with
    | straight hwrap hchain => exact .straight hwrap (by rw [hbegin]; exact hchain)
    | wrapped l l' hpos hle hfound htight hchain hchain' =>
      refine .wrapped l l' hpos hle hfound htight hchain (by rw [hbegin]; exact hchain') ?_
      show s.cutter.queue.back - s.current.length ≤ s.cutter.queue.front
      omega
  · exact h.start
  · intro hprep
    cases hprep

end

def QueueState.unit (s : QueueState) : Found := ⟨s.begin, s.current.length, s.current⟩

def QueueState.withUnit (s : QueueState) : QueueState := { s with found := s.found ++ [s.unit], current := [] }

theorem layout_withUnit (h : QueueInv s) : Layout s.withUnit := by
  have hadd := h.begin_add
  have hbegin : s.withUnit.begin = s.begin + s.unit.size := by
    show s.cutter.queue.back - 0 = s.begin + s.current.length
    omega
  cases h.layout with
  | straight hwrap hchain =>
    refine .straight hwrap ?_
    rw [hbegin]
    exact hchain.concat rfl
  | wrapped l l' hpos hle hfound htight hchain hchain' hback =>
    refine .wrapped l (l' ++ [s.unit]) hpos hle ?_ htight hchain ?_ hback
    · show s.found ++ [s.unit] = _
      rw [hfound, append_assoc]
    · rw [hbegin]
      exact hchain'.concat rfl

theorem forall_withUnit {P : Found → Prop} (hfound : ∀ f ∈ s.found, P f) (hunit : P s.unit) :
    ∀ f ∈ s.withUnit.found, P f := by
  exact forall_mem_append.mpr ⟨hfound, forall_mem_singleton.mpr hunit⟩

/-- While the back pointer is wrapped around there is always room for the largest access unit, unless it is larger
than the buffer. -/
theorem QueueInv.wrapped_room (h : QueueInv s) (hwrap : s.cutter.queue.wrapPos ≠ 0) :
    s.cutter.queue.back + s.cutter.auMaxSize ≤ s.cutter.queue.size ∨ s.cutter.queue.back = 0 := by
  cases h.layout with
  | straight hzero => exact absurd hzero hwrap
  | wrapped l l' hpos hle hfound htight hchain =>
    cases l with
    | nil =>
      have ⟨f, hf, _⟩ := htight
      cases hf
    | cons f =>
      -- the front pointer is at the start of an access unit
      have hstart := h.starts f (by rw [hfound]; exact mem_cons_self)
      rw [hchain.1] at hstart
      rcases hstart with hzero | hroom
      · right
        omega
      · left
        omega

theorem inv_found (h : QueueInv s) (hau : s.cutter.au = .complete) (hchunk : s.cutter.chunk = []) :
    QueueInv { s.withUnit with cutter := (s.cutter.prepare (some (s.begin, s.current.length))).cutter } := by
  have hadd := h.begin_add
  have hlayout := layout_withUnit h
  have hstarts := forall_withUnit h.starts h.start
  have hsizes := forall_withUnit h.sizes rfl
  have hkept := forall_withUnit h.kept h.keptCurrent
  unfold prepare OutputQueue.prepareNextAu
  rw [if_pos hau]
  by_cases hroom : s.cutter.queue.size < s.cutter.queue.back + s.cutter.auMaxSize
  · rw [if_pos hroom]
    by_cases hwrap : s.cutter.queue.wrapPos ≠ 0
    · -- refused; the buffer is too small for more than one access unit
      rw [if_pos hwrap]
      have hzero : s.cutter.queue.back = 0 := by
        rcases h.wrapped_room hwrap with hle | hzero
        · omega
        · exact hzero
      have hsmall : s.cutter.queue.size < s.cutter.auMaxSize := by omega
      refine ⟨h.size, h.back, h.front, zero_le _, ?_, hstarts, .inl ?_, hsizes, hkept, rfl, ?_, fun _ => hchunk,
        fun _ => ⟨hau, hsmall, hzero⟩, h.alive⟩
      · cases hlayout with
        | straight hzero => exact absurd hzero hwrap
        | wrapped l l' hpos hle hfound htight hchain hchain' hback =>
          exact .wrapped l l' hpos hle hfound htight hchain hchain' hback
      · show s.cutter.queue.back - 0 = 0
        omega
      · intro hne
        exact absurd rfl hne
    · rw [if_neg hwrap]
      refine ⟨h.size, zero_le _, h.front, zero_le _, ?_, hstarts, .inl rfl, hsizes, hkept, rfl, ?_,
        fun _ => hchunk, ?_, h.alive⟩
      · cases hlayout with
        | wrapped l l' hpos =>
          have hpos : 0 < s.cutter.queue.wrapPos := hpos
          omega
        | straight _ hchain =>
          by_cases hzero : s.cutter.queue.back = 0
          · refine .straight hzero ?_
            have hbegin : s.withUnit.begin = 0 := by
              show s.cutter.queue.back - 0 = 0
              omega
            rw [hbegin] at hchain
            exact hchain
          · -- an empty access unit would start and end where the largest one fits
            have hpos : 0 < s.unit.size := by
              show 0 < s.current.length
              rcases h.start with hbegin | hbegin
              · omega
              · omega
            refine .wrapped (s.found ++ [s.unit]) [] ?_ h.back (append_nil _).symm (.concat hpos) ?_ rfl (zero_le _)
            · show 0 < s.cutter.queue.back
              omega
            · exact hchain
      · intro _
        rw [hchunk]
        rfl
      · intro hprep
        cases hprep
  · rw [if_neg hroom]
    refine ⟨h.size, h.back, h.front, zero_le _, ?_, hstarts, .inr ?_, hsizes, hkept, rfl, ?_, fun _ => hchunk, ?_,
      h.alive⟩
    · exact hlayout.congr rfl rfl rfl
    · show s.cutter.queue.back - 0 + s.cutter.auMaxSize ≤ s.cutter.queue.size
      omega
    · intro _
      rw [hchunk]
      rfl
    · intro hprep
      cases hprep

/-! ## The state machine -/

theorem prepare_chunk (c : Cutter) (found : Option (Nat × Nat)) : (c.prepare found).cutter.chunk = c.chunk := by
  unfold prepare
  split
  · split <;> rfl
  · rfl

theorem prepare_found (c : Cutter) (found : Option (Nat × Nat)) : (c.prepare found).found = found := by
  unfold prepare
  split
  · split <;> rfl
  · rfl

theorem prepare_progress (c : Cutter) (found : Option (Nat × Nat)) : (c.prepare found).progress ≠ .mismatch := by
  unfold prepare
  split
  · split
    · exact fun h => by cases h
    · exact fun h => by cases h
  · exact fun h => by cases h

variable {r : Drained}

theorem drained_none (hfound : r.found = none) (hprogress : r.progress ≠ .mismatch)
    (hchunk : r.cutter.chunk = []) : s.drained [] (.ok r) = { s with cutter := r.cutter } := by
  simp only [drained, hfound, hchunk, if_true, if_neg hprogress, append_nil]

theorem drained_append (hr : r.cutter.chunk = []) (c : Cutter) (chunk : List UInt8) :
    drained { s with cutter := c, current := s.current ++ chunk } [] (.ok r) = s.drained chunk (.ok r) := by
  simp only [drained, hr, if_true, append_nil]

theorem notify_chunk (c : Cutter) (accept : Bool) : (c.notify accept).cutter.chunk = c.chunk := by
  unfold notify
  split
  · split
    · exact prepare_chunk _ _
    · rfl
  · exact prepare_chunk _ _

theorem pushed_chunk {c : Cutter} {accept : Bool} (h : c.pushed accept = .ok r) : r.cutter.chunk = c.chunk := by
  unfold pushed at h
  split at h
  · cases hpop : c.queue.popBack c.accumulatedSize with
    | error =>
      rw [hpop] at h
      cases h
    | ok =>
      rw [hpop] at h
      rw [← Except.ok.inj h]
  · rw [← Except.ok.inj h]
    exact notify_chunk _ _

section

variable (h : QueueInv s)
include h

theorem inv_notify (hchunk : s.cutter.chunk = []) (hstate : s.cutter.state ≠ .preparingForNextAu)
    (accept : Bool) : QueueInv (s.drained [] (.ok (s.cutter.notify accept))) := by
  unfold notify
  by_cases hau : s.cutter.au = .complete
  · rw [if_pos hau]
    cases accept with
    | true =>
      have hacc := h.accumulated_eq hchunk hstate
      have hinv := inv_found h hau hchunk
      have hdrained : s.drained [] (.ok (s.cutter.prepare
          (some (s.cutter.queue.back - s.cutter.accumulatedSize, s.cutter.accumulatedSize)))) =
          { s.withUnit with cutter := (s.cutter.prepare (some (s.begin, s.current.length))).cutter } := by
        simp only [drained, prepare_found, prepare_chunk, hchunk, if_true, hacc, append_nil]
        rfl
      rw [if_pos rfl, hdrained]
      exact hinv
    | false =>
      rw [if_neg (by decide), drained_none rfl (fun h => by cases h) hchunk]
      exact inv_setState h hchunk hstate (by decide)
  · rw [if_neg hau, drained_none (prepare_found _ _) (prepare_progress _ _) (by rw [prepare_chunk]; exact hchunk),
      prepare, if_neg hau]
    exact inv_setState h hchunk hstate (by decide)

theorem inv_pushed (hchunk : s.cutter.chunk = []) (hstate : s.cutter.state ≠ .preparingForNextAu)
    (accept : Bool) : QueueInv (s.drained [] (s.cutter.pushed accept)) := by
  unfold pushed
  by_cases hau : s.cutter.au = .sizeMismatch
  · rw [if_pos hau]
    have hpop : s.cutter.queue.popBack s.cutter.accumulatedSize =
        .ok { s.cutter.queue with back := s.cutter.queue.back - s.current.length } := by
      rw [h.accumulated_eq hchunk hstate]
      exact if_pos h.current
    have hinv := inv_mismatch h
    rw [hpop]
    simp only [Except.map, drained, hchunk, if_true]
    exact hchunk ▸ hinv
  · rw [if_neg hau]
    exact inv_notify h hchunk hstate accept

theorem inv_prepare (hstate : s.cutter.state = .preparingForNextAu) :
    QueueInv (s.drained [] (.ok (s.cutter.prepare none))) := by
  have ⟨hau, hsmall, hzero⟩ := h.preparing hstate
  have hchunk := h.chunk (by rw [hstate]; decide)
  have hcurrent : s.current = [] := by
    have hle := h.current
    exact length_eq_zero_iff.mp (by omega)
  rw [drained_none (prepare_found _ _) (prepare_progress _ _) (by rw [prepare_chunk]; exact hchunk)]
  unfold prepare OutputQueue.prepareNextAu
  rw [if_pos hau, if_pos (by omega)]
  by_cases hwrap : s.cutter.queue.wrapPos ≠ 0
  · rw [if_pos hwrap]
    have hsame : ({ s with cutter := { s.cutter with state := .preparingForNextAu } } : QueueState) = s := by
      rw [← hstate]
    rw [hsame]
    exact h
  rw [if_neg hwrap]
  refine ⟨h.size, zero_le _, h.front, ?_, ?_, h.starts, .inl ?_, h.sizes, h.kept, ?_, ?_, fun _ => hchunk, ?_, h.alive⟩
  · rw [hcurrent]
    exact Nat.le_refl _
  · cases h.layout with
    | wrapped => omega
    | straight _ hchain =>
      have hbegin : s.begin = 0 := by
        unfold begin
        omega
      rw [hbegin] at hchain
      refine .straight hzero ?_
      show Chain _ s.found (0 - s.current.length)
      rw [Nat.zero_sub]
      exact hchain
  · show 0 - s.current.length = 0
    omega
  · rw [hcurrent]
    rfl
  · intro _
    rw [hcurrent, hchunk]
    rfl
  · intro hprep
    cases hprep

theorem inv_parsed (hstate : s.cutter.state = .initial) (chunk : List UInt8) (au : AuState) :
    QueueInv { s with cutter := s.cutter.parsed chunk au } := by
  have hacc := h.accumulated_eq (h.chunk (by rw [hstate]; decide)) (by rw [hstate]; decide)
  refine { h with
    layout := h.layout.congr rfl rfl rfl, accumulated := ?_, chunk := fun hne => absurd rfl hne, preparing := ?_ }
  · intro _
    show (s.cutter.accumulatedSize + chunk.length) % 2 ^ 32 = (s.current.length + chunk.length) % 2 ^ 32
    rw [hacc]
  · intro hprep
    cases hprep

theorem inv_drain (hstate : s.cutter.state ≠ .initial) (accept : Bool) :
    QueueInv (s.drained s.cutter.chunk (s.cutter.drain accept)) := by
  unfold drain
  split
  next hinit =>
    exact absurd hinit hstate
  next hpushing =>
    have hne : s.cutter.state ≠ .preparingForNextAu := by
      rw [hpushing]
      decide
    by_cases hchunk : s.cutter.chunk = []
    · rw [if_pos hchunk, hchunk]
      exact inv_pushed h hchunk hne accept
    rw [if_neg hchunk]
    split
    · -- no space; the chunk is kept
      have hsame : s.drained s.cutter.chunk (.ok ⟨s.cutter, .stalled, none⟩) = s := by
        simp only [drained, if_neg hchunk, reduceCtorEq, if_false]
      rw [hsame]
      exact h
    next q hpush =>
      have hinv := inv_pushed (inv_push h hpushing hpush) rfl hne accept
      cases hr : pushed { s.cutter with queue := q, chunk := [] } accept with
      | error =>
        rw [hr] at hinv
        exact absurd hinv.alive Bool.noConfusion
      | ok =>
        rw [hr, drained_append (pushed_chunk hr)] at hinv
        exact hinv
  next hnotifying =>
    have hne : s.cutter.state ≠ .pushingAuQueue := by
      rw [hnotifying]
      decide
    have hchunk := h.chunk hne
    rw [hchunk]
    exact inv_notify h hchunk (by rw [hnotifying]; decide) accept
  next hpreparing =>
    have hchunk := h.chunk (by rw [hpreparing]; decide)
    rw [hchunk]
    exact inv_prepare h hpreparing

/-! ## Releasing -/

theorem QueueInv.release {rest : List Found} {front wrapPos : Nat}
    (hrest : ∀ g ∈ rest, g ∈ s.found) (hfront : front ≤ s.cutter.queue.size)
    (hlayout : Layout { s with
      cutter := { s.cutter with queue := { s.cutter.queue with front := front, wrapPos := wrapPos } }
      found := rest }) :
    QueueInv { s with
      cutter := { s.cutter with queue := { s.cutter.queue with front := front, wrapPos := wrapPos } }
      found := rest } :=
  { h with
    front := hfront
    layout := hlayout
    starts := fun g hg => h.starts g (hrest g hg)
    sizes := fun g hg => h.sizes g (hrest g hg)
    kept := fun g hg => h.kept g (hrest g hg) }

theorem inv_release {rest : List Found} (hfound : s.found = f :: rest) : ∃ q, s.cutter.queue.popFront f.size = .ok q ∧
      QueueInv { s with cutter := { s.cutter with queue := q }, found := rest } := by
  have hback := h.back
  have hadd := h.begin_add
  have hrest : ∀ g ∈ rest, g ∈ s.found := fun g hg => by
    rw [hfound]
    exact mem_cons_of_mem f hg
  unfold OutputQueue.popFront
  cases h.layout with
  | straight hwrap hchain =>
    rw [hfound] at hchain
    have hle := hchain.2.le
    refine ⟨{ s.cutter.queue with front := s.cutter.queue.front + f.size }, ?_, ?_⟩
    · rw [if_pos (by omega), if_neg (by omega)]
    · exact h.release hrest (by omega) (.straight hwrap hchain.2)
  | wrapped l l' hpos hle hlist htight hchain hchain' =>
    cases l with
    | nil =>
      have ⟨g, hg, _⟩ := htight
      cases hg
    | cons g l =>
      rw [hfound] at hlist
      have ⟨hg, htail⟩ := cons.inj hlist
      subst hg
      by_cases hl : l = []
      · -- the last access unit before the wrap
        subst hl
        have hend : s.cutter.queue.front + f.size = s.cutter.queue.wrapPos := hchain.2
        refine ⟨{ s.cutter.queue with front := 0, wrapPos := 0 }, ?_, ?_⟩
        · rw [if_pos (by omega), if_pos (by omega), if_pos hend.symm]
        · exact h.release hrest (zero_le _) (.straight rfl (by rw [htail]; exact hchain'))
      · have htight := htight.tail hl
        have hlt := hchain.2.lt htight
        refine ⟨{ s.cutter.queue with front := s.cutter.queue.front + f.size }, ?_, ?_⟩
        · rw [if_pos (by omega), if_neg (by omega)]
        · exact h.release hrest (by omega) (.wrapped l l' hpos hle htail htight hchain.2 hchain'
            (show s.cutter.queue.back ≤ s.cutter.queue.front + f.size by omega))

/-! ## Runs -/

theorem inv_step {e : QueueEvent} (hstep : queueStep s e = some s') : QueueInv s' := by
  cases e with
  | parse chunk au accept =>
    have ⟨hstate, hstep⟩ := ite_none_right_eq_some.mp hstep
    have hinv := inv_drain (inv_parsed h hstate chunk au) nofun accept
    cases hstep
    cases hr : (s.cutter.parsed chunk au).drain accept with
    | error =>
      rw [hr] at hinv
      exact absurd hinv.alive Bool.noConfusion
    | ok =>
      rw [hr] at hinv
      exact hinv
  | resume accept =>
    have ⟨hstate, hstep⟩ := ite_none_left_eq_some.mp hstep
    cases hstep
    exact inv_drain h hstate accept
  | release =>
    cases hfound : s.found with
    | nil =>
      simp only [queueStep, hfound] at hstep
      cases hstep
    | cons =>
      have ⟨q, hpop, hinv⟩ := inv_release h hfound
      simp only [queueStep, hfound, hpop] at hstep
      cases hstep
      exact hinv

end

theorem inv_of_init {size auMaxSize : BitVec 32} (h : (queueSystem size auMaxSize).init s) : QueueInv s := by
  have ⟨buffer, hs⟩ := h
  subst hs
  refine ⟨size.isLt, Nat.zero_le _, Nat.zero_le _, Nat.le_refl _, .straight rfl rfl, ?_, .inl rfl, ?_, ?_, rfl,
    fun _ => rfl, fun _ => rfl, ?_, rfl⟩
  · exact fun f hf => absurd hf not_mem_nil
  · exact fun f hf => absurd hf not_mem_nil
  · exact fun f hf => absurd hf not_mem_nil
  · intro hprep
    cases hprep

/-- The pointers are inside the buffer, every access unit that was found and not released is one region of it
with the bytes that were pushed, and no `ensure` has fired. -/
structure QueueGood (s : QueueState) : Prop where
  back : s.cutter.queue.back ≤ s.cutter.queue.size
  front : s.cutter.queue.front ≤ s.cutter.queue.size
  wrapPos : s.cutter.queue.wrapPos ≤ s.cutter.queue.size
  inside : ∀ f ∈ s.found, f.addr + f.size ≤ s.cutter.queue.size
  kept : ∀ f ∈ s.found, read s.cutter.queue.buffer f.addr f.size = f.bytes
  alive : s.failed = false

theorem QueueInv.good (h : QueueInv s) : QueueGood s := by
  have hback := h.back
  have hadd := h.begin_add
  refine ⟨h.back, h.front, ?_, ?_, h.kept, h.alive⟩
  · cases h.layout with
    | straight => omega
    | wrapped l l' hpos hle => exact hle
  intro f hf
  cases h.layout with
  | straight hwrap hchain =>
    have hmem := hchain.mem hf
    omega
  | wrapped l l' hpos hle hfound htight hchain hchain' =>
    rw [hfound] at hf
    rcases mem_append.mp hf with hf | hf
    · have hmem := hchain.mem hf
      omega
    · have hmem := hchain'.mem hf
      omega

/-- In every run, with any parser, any answers and any releases in between. -/
theorem queue_good {size auMaxSize : BitVec 32} (hs : (queueSystem size auMaxSize).Reachable s) : QueueGood s :=
  QueueInv.good (hs.invariant (fun _ h => inv_of_init h) (fun _ _ _ h hstep => inv_step h hstep))

/-- The back pointer has wrapped around, one access unit is left before the wrap and one is found behind it. -/
theorem queue_good_wrapped : ∃ s, (queueSystem 64 32).Reachable s ∧
    (s.cutter.queue.wrapPos = 64 ∧ s.found.map (fun f => (f.addr, f.size)) = [(32, 32), (0, 16)]) ∧ QueueGood s :=
  Transition.System.Reachable.exists_of_run_and queue_good ⟨fun _ => 0, rfl⟩
    [.parse (replicate 32 1) .complete true, .parse (replicate 32 2) .complete true, .release,
      .parse (replicate 16 3) .complete false, .resume true] (by decide)

end Armsx3.Cell.DmuxPamf
