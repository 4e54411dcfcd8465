import Armsx3.Cell.MfcQueue
import Armsx3.Library.Bits

/-!
# MfcQueueOrder — the order in which queued commands run

The fence mask has the tag of every command in the queue, the barrier mask the tag of every one with a barrier flag,
and all tags while there is a barrier-class command; during a round the masks that are being rebuilt cover what has
been kept so far.
-/

namespace Armsx3.Cell

open Function List Nat Transition MfcState

/-! ## Tags -/

theorem tagMask_ne_zero : ∀ tag, tagMask tag ≠ 0 := by decide +kernel

theorem tagMask_group : ∀ tag, tagMask (tag &&& 0x1f) = tagMask tag := by decide +kernel

theorem tagMask_stalled : ∀ tag, tagMask (tag ||| 0x80) = tagMask tag := by decide +kernel

theorem tagMask_acknowledged : ∀ tag, tagMask (tag &&& 0x7f) = tagMask tag := by decide +kernel

theorem or_and_ne_zero {a m : BitVec 32} (b : BitVec 32) (h : a &&& m ≠ 0) : (a ||| b) &&& m ≠ 0 := by
  rw [Bits.and_ne_zero_iff] at h ⊢
  rcases h with ⟨i, ha, hm⟩
  refine ⟨i, ?_, hm⟩
  rw [BitVec.getLsbD_or, ha, Bool.true_or]

theorem or_self_and_ne_zero (a : BitVec 32) (tag : BitVec 8) : (a ||| tagMask tag) &&& tagMask tag ≠ 0 := by
  rw [BitVec.or_comm]
  apply or_and_ne_zero
  rw [BitVec.and_self]
  exact tagMask_ne_zero tag

theorem allOnes_and_ne_zero (tag : BitVec 8) : BitVec.allOnes 32 &&& tagMask tag ≠ 0 := by
  rw [BitVec.allOnes_and]
  exact tagMask_ne_zero tag

/-! ## Commands and masks -/

structure Like (a b : SpuMfcCmd) : Prop where
  cmd : a.cmd = b.cmd
  tag : tagMask a.tag = tagMask b.tag

namespace Like

variable {a b : SpuMfcCmd} (h : Like a b)
include h

theorem barrierClass : a.barrierClass = b.barrierClass := by
  rw [SpuMfcCmd.barrierClass, h.cmd, SpuMfcCmd.barrierClass]

theorem barrierFlag : a.barrierFlag = b.barrierFlag := by
  rw [SpuMfcCmd.barrierFlag, h.cmd, SpuMfcCmd.barrierFlag]

theorem flagged : a.flagged = b.flagged := by
  rw [SpuMfcCmd.flagged, h.cmd, SpuMfcCmd.flagged]

end Like

structure Covers (bs fs : BitVec 32) (c : SpuMfcCmd) : Prop where
  fence : fs &&& tagMask c.tag ≠ 0
  barrier : c.barrierFlag = true → bs &&& tagMask c.tag ≠ 0
  barrierClass : c.barrierClass = true → bs = .allOnes 32

variable {bs fs : BitVec 32}

theorem Covers.or {c : SpuMfcCmd} (h : Covers bs fs c) (b f : BitVec 32) : Covers (bs ||| b) (fs ||| f) c where
  fence := or_and_ne_zero f h.fence
  barrier := fun hc => or_and_ne_zero b (h.barrier hc)
  barrierClass := fun hc => by
    rw [h.barrierClass hc]
    exact BitVec.allOnes_or

theorem or_of_flag (bs m : BitVec 32) (flag : Bool) : ∃ b, (if flag then bs ||| m else bs) = bs ||| b := by
  cases flag with
  | true => exact ⟨m, rfl⟩
  | false => exact ⟨0, BitVec.or_zero.symm⟩

theorem covers_block {c : SpuMfcCmd} (hclass : c.barrierClass = false) (bs fs : BitVec 32) :
    Covers (if c.barrierFlag then bs ||| tagMask c.tag else bs) (fs ||| tagMask c.tag) c where
  fence := or_self_and_ne_zero _ _
  barrier := by
    intro hflag
    rw [if_pos hflag]
    exact or_self_and_ne_zero _ _
  barrierClass := fun h => by rw [hclass] at h; cases h

structure Free (a b : SpuMfcCmd) : Prop where
  left : a.barrierClass = false
  right : b.barrierClass = false
  tag : tagMask a.tag = tagMask b.tag → a.barrierFlag = false ∧ b.flagged = false

theorem Covers.free {a b : SpuMfcCmd} (h : Covers bs fs a)
    (hclass : b.barrierClass = false) (hbarrier : bs &&& tagMask b.tag = 0)
    (hfence : b.flagged = true → fs &&& tagMask b.tag = 0) : Free a b where
  left := by
    apply Bool.eq_false_iff.mpr
    intro hc
    rw [h.barrierClass hc] at hbarrier
    exact allOnes_and_ne_zero _ hbarrier
  right := hclass
  tag := by
    intro htag
    constructor
    · apply Bool.eq_false_iff.mpr
      intro hc
      have hblocked := h.barrier hc
      rw [htag] at hblocked
      exact hblocked hbarrier
    · apply Bool.eq_false_iff.mpr
      intro hc
      have hblocked := h.fence
      rw [htag] at hblocked
      exact hblocked (hfence hc)

namespace MfcState

variable {s s' : MfcState} {live live' : Nat → Prop} {e : MfcEntry}

def Known (s : MfcState) (e : MfcEntry) : Prop :=
  ∃ c, s.issued[e.id]? = some c ∧ c.cmd = e.cmd.cmd ∧ tagMask c.tag = tagMask e.cmd.tag

/-- The slots in `live` hold the commands that have not completed, in the order they were issued. -/
structure Live (s : MfcState) (live : Nat → Prop) : Prop where
  known : ∀ j, live j → s.Known (s.queue j)
  sorted : ∀ j k, live j → live k → j < k → (s.queue j).id < (s.queue k).id
  unfinished : ∀ m < s.issued.length, .finish m ∈ s.log ∨ ∃ j, live j ∧ (s.queue j).id = m
  logged : ∀ n, .start n ∈ s.log → n < s.issued.length
  ordered : s.Ordered

theorem not_mustPrecede {a b c d : SpuMfcCmd} (h : Free c d) (ha : Like a c) (hb : Like b d) :
    mustPrecede a b = false := by
  unfold mustPrecede
  rw [ha.barrierClass, hb.barrierClass, ha.barrierFlag, hb.flagged, h.left, h.right, Bool.false_or, Bool.false_or]
  by_cases htag : a.tag &&& 0x1f = b.tag &&& 0x1f
  · have hmask : tagMask c.tag = tagMask d.tag := by
      rw [← ha.tag, ← hb.tag, ← tagMask_group a.tag, ← tagMask_group b.tag, htag]
    have ⟨hflag, hflagged⟩ := h.tag hmask
    rw [hflag, hflagged, Bool.or_false, Bool.and_false]
  · rw [decide_eq_false htag, Bool.false_and]

/-! ## The log -/

theorem Ordered.append (h : s.Ordered) {l : List MfcLog} (hissued : s'.issued = s.issued) (hlog : s'.log = s.log ++ l)
    (hstart : ∀ i n, l[i]? = some (.start n) → i = 0 ∧ ∀ m a b, m < n → s.issued[m]? = some a →
      s.issued[n]? = some b → mustPrecede a b → .finish m ∈ s.log) : s'.Ordered := by
  intro i n hi m a b hmn ha hb hmust
  rw [hissued] at ha hb
  rw [hlog] at hi ⊢
  by_cases hlt : i < s.log.length
  · rw [getElem?_append_left hlt] at hi
    rw [take_append_of_le_length (by omega)]
    exact h i n hi m a b hmn ha hb hmust
  · rw [getElem?_append_right (by omega)] at hi
    have ⟨hzero, hbefore⟩ := hstart _ n hi
    have hlen : i = s.log.length := by omega
    rw [hlen, take_left]
    exact hbefore m a b hmn ha hb hmust

theorem Live.may_start (h : s.Live live) (hknown : s.Known e)
    (hfree : ∀ k, live k → (s.queue k).id < e.id → Free (s.queue k).cmd e.cmd) {m : Nat} {a b : SpuMfcCmd}
    (hm : m < e.id) (ha : s.issued[m]? = some a) (hb : s.issued[e.id]? = some b) (hmust : mustPrecede a b = true) :
    .finish m ∈ s.log := by
  have hlen := (List.getElem?_eq_some_iff.mp ha).1
  rcases h.unfinished m hlen with hfinish | ⟨k, hk, hid⟩
  · exact hfinish
  -- it is still in the queue, and known to be free
  rcases h.known k hk with ⟨a', ha', hcmd, htag⟩
  rcases hknown with ⟨b', hb', hcmd', htag'⟩
  rw [hid, ha] at ha'
  rw [hb] at hb'
  cases ha'
  cases hb'
  have hfalse := not_mustPrecede (hfree k hk (by omega)) ⟨hcmd, htag⟩ ⟨hcmd', htag'⟩
  rw [hfalse] at hmust
  cases hmust

theorem Known.lt (h : s.Known e) : e.id < s.issued.length := by
  rcases h with ⟨c, hc, _⟩
  exact (List.getElem?_eq_some_iff.mp hc).1

theorem getElem?_starts_append {i n : Nat} (h : (starts e ++ [.finish e.id])[i]? = some (.start n)) :
    i = 0 ∧ n = e.id := by
  unfold starts at h
  cases hs : e.started with
  | true =>
    rw [hs] at h
    cases i with
    | zero => cases h
    | succ => cases h
  | false =>
    rw [hs] at h
    cases i with
    | zero =>
      cases h
      exact ⟨rfl, rfl⟩
    | succ i =>
      cases i with
      | zero => cases h
      | succ => cases h

/-- The log goes on with what comes of `e`, or with the first part of it. -/
theorem Live.log (h : s.Live live) (hknown : s.Known e)
    (hfree : ∀ k, live k → (s.queue k).id < e.id → Free (s.queue k).cmd e.cmd) {l : List MfcLog}
    (hl : l <+: starts e ++ [.finish e.id]) : ({ s with log := s.log ++ l } : MfcState).Live live := by
  have hstart : ∀ i n, l[i]? = some (.start n) → i = 0 ∧ n = e.id := by
    intro i n hi
    rcases hl with ⟨l', hl⟩
    apply getElem?_starts_append
    rw [← hl, List.getElem?_append_left (List.getElem?_eq_some_iff.mp hi).1]
    exact hi
  refine ⟨h.known, h.sorted, ?_, ?_, ?_⟩
  · intro m hm
    exact (h.unfinished m hm).imp_left fun hf => mem_append_left _ hf
  · intro n hn
    rcases mem_append.mp hn with hold | hnew
    · exact h.logged n hold
    · have ⟨i, hi⟩ := mem_iff_getElem?.mp hnew
      rw [(hstart i n hi).2]
      exact hknown.lt
  · refine h.ordered.append rfl rfl ?_
    intro i n hi
    have ⟨hzero, hn⟩ := hstart i n hi
    subst hn
    exact ⟨hzero, fun m a b hm ha hb hmust => h.may_start hknown hfree hm ha hb hmust⟩

theorem Live.execute (h : s.Live live) (hknown : s.Known e)
    (hfree : ∀ k, live k → (s.queue k).id < e.id → Free (s.queue k).cmd e.cmd) : (s.execute e).Live live :=
  h.log hknown hfree (prefix_refl _)

theorem finish_mem_execute (s : MfcState) (e : MfcEntry) : .finish e.id ∈ (s.execute e).log := by
  apply mem_append_right
  apply mem_append_right
  exact mem_singleton_self _

theorem Live.remove (h : s.Live live) (hsub : ∀ j, live' j → live j)
    (hgone : ∀ j, live j → live' j ∨ .finish (s.queue j).id ∈ s.log) : s.Live live' where
  known := fun j hj => h.known j (hsub j hj)
  sorted := fun j k hj hk => h.sorted j k (hsub j hj) (hsub k hk)
  unfinished := by
    intro m hm
    rcases h.unfinished m hm with hf | ⟨j, hj, hid⟩
    · exact .inl hf
    rcases hgone j hj with hlive | hf
    · exact .inr ⟨j, hlive, hid⟩
    · rw [hid] at hf
      exact .inl hf
  __ := h

structure SameEntry (e e' : MfcEntry) : Prop where
  id : e.id = e'.id
  like : Like e.cmd e'.cmd

theorem SameEntry.of_eq {e' : MfcEntry} (h : e = e') : SameEntry e e' := h ▸ ⟨rfl, rfl, rfl⟩

theorem sameEntry_stall (e : MfcEntry) (eal lsa : BitVec 32) (size : BitVec 16) : SameEntry (stall e eal lsa size) e :=
  ⟨rfl, rfl, tagMask_stalled _⟩

theorem Live.relocate (h : s.Live live) (hissued : s'.issued = s.issued) (hlog : s'.log = s.log) (f : Nat → Nat)
    (hlive : ∀ j, live' j → live (f j)) (hall : ∀ k, live k → ∃ j, live' j ∧ f j = k)
    (hmono : ∀ j k, live' j → live' k → j < k → f j < f k)
    (hsame : ∀ j, live' j → SameEntry (s'.queue j) (s.queue (f j))) : s'.Live live' where
  known := by
    intro j hj
    rcases h.known (f j) (hlive j hj) with ⟨c, hc, hcmd', htag'⟩
    refine ⟨c, ?_, ?_, ?_⟩
    · rw [hissued, (hsame j hj).id]
      exact hc
    · rw [(hsame j hj).like.cmd]
      exact hcmd'
    · rw [(hsame j hj).like.tag]
      exact htag'
  sorted := by
    intro j k hj hk hlt
    rw [(hsame j hj).id, (hsame k hk).id]
    exact h.sorted _ _ (hlive j hj) (hlive k hk) (hmono j k hj hk hlt)
  unfinished := by
    intro m hm
    rw [hissued] at hm
    rw [hlog]
    rcases h.unfinished m hm with hf | ⟨k, hk, hkm⟩
    · exact .inl hf
    rcases hall k hk with ⟨j, hj, hjk⟩
    refine .inr ⟨j, hj, ?_⟩
    rw [(hsame j hj).id, hjk]
    exact hkm
  logged := by
    rw [hissued, hlog]
    exact h.logged
  ordered := by
    have hord := h.ordered
    unfold Ordered at hord ⊢
    rw [hissued, hlog]
    exact hord

theorem Live.congr (h : s.Live live) (hissued : s'.issued = s.issued) (hlog : s'.log = s.log)
    (hsame : ∀ j, live j → SameEntry (s'.queue j) (s.queue j)) : s'.Live live :=
  h.relocate hissued hlog (fun j => j) (fun _ hj => hj) (fun k hk => ⟨k, hk, rfl⟩) (fun _ _ _ _ hlt => hlt) hsame

theorem Live.executeStalled (h : s.Live live) {i : Nat} (hi : live i) (he : s.queue i = e)
    (hfree : ∀ k, live k → (s.queue k).id < e.id → Free (s.queue k).cmd e.cmd) (eal lsa : BitVec 32)
    (size : BitVec 16) : (s.executeStalled i e eal lsa size).Live live := by
  have hstart := h.log (he ▸ h.known i hi) hfree (prefix_append (starts e) [.finish e.id])
  refine hstart.congr rfl rfl fun j _ => ?_
  show SameEntry (update s.queue i (stall e eal lsa size) j) (s.queue j)
  by_cases hj : j = i
  · rw [hj, update_self, he]
    exact sameEntry_stall e eal lsa size
  · exact .of_eq (update_of_ne hj _ _)

end MfcState

/-! ## A round -/

theorem Covers.congr {c d : SpuMfcCmd} (h : Covers bs fs c) (hlike : Like d c) : Covers bs fs d where
  fence := hlike.tag ▸ h.fence
  barrier := fun hd => hlike.tag ▸ h.barrier (hlike.barrierFlag ▸ hd)
  barrierClass := fun hd => h.barrierClass (hlike.barrierClass ▸ hd)

namespace MfcPass

variable {p : MfcPass} {execMask : BitVec 16} {outcome : Nat → ListOutcome} {reenter : Nat → MfcState → MfcState}
  {i n : Nat}

def MayExecute (p : MfcPass) (i : Nat) (c : SpuMfcCmd) : Prop :=
  if c.barrierClass then i ≤ p.removed
  else p.barrier &&& tagMask c.tag = 0 ∧ (c.flagged = true → p.fence &&& tagMask c.tag = 0)

structure Blocks (p p' : MfcPass) (c : SpuMfcCmd) : Prop where
  removed : p'.removed = p.removed
  barrier : ∃ b, p'.barrier = p.barrier ||| b
  fence : ∃ f, p'.fence = p.fence ||| f
  covers : Covers p'.barrier p'.fence c

theorem blocks_block (p : MfcPass) {c : SpuMfcCmd} (hclass : c.barrierClass = false) : Blocks p (p.block c) c where
  removed := rfl
  barrier := or_of_flag _ _ _
  fence := ⟨_, rfl⟩
  covers := covers_block hclass _ _

theorem processCommand_cases (hre : ∀ s, reenter i s = s) :
    (∃ p', p.processCommand execMask outcome reenter i = (true, p') ∧
      p' = { p with removed := p.removed + 1, state := p.state.execute (p.state.queue i) } ∧
      p.MayExecute i (p.state.queue i).cmd) ∨
    (∃ p', p.processCommand execMask outcome reenter i = (false, p') ∧ Blocks p p' (p.state.queue i).cmd ∧
      (p'.state = p.state ∨ p.MayExecute i (p.state.queue i).cmd ∧
        ∃ eal lsa size, p'.state = p.state.executeStalled i (p.state.queue i) eal lsa size)) := by
  unfold processCommand
  generalize p.state.queue i = e
  by_cases hclass : e.cmd.barrierClass = true
  · simp only [hclass, if_true]
    by_cases hfirst : i ≤ p.removed
    · refine .inl ⟨_, if_pos hfirst, rfl, ?_⟩
      unfold MayExecute
      rw [if_pos hclass]
      exact hfirst
    · refine .inr ⟨_, if_neg hfirst, ⟨rfl, ⟨.allOnes 32, ?_⟩, ⟨_, rfl⟩, ?_, ?_, ?_⟩, .inl rfl⟩
      · exact BitVec.or_allOnes.symm
      · exact or_self_and_ne_zero _ _
      · exact fun _ => allOnes_and_ne_zero _
      · exact fun _ => rfl
  have hclass' := Bool.eq_false_iff.mpr hclass
  have hnot : ∀ {b : BitVec 32}, e.cmd.barrierClass = true → b = .allOnes 32 := fun h => absurd h hclass
  simp only [hclass', Bool.false_eq_true, if_false]
  by_cases hbarrier : p.barrier &&& tagMask e.cmd.tag ≠ 0
  · refine .inr ⟨_, if_pos hbarrier, ⟨rfl, ⟨0, BitVec.or_zero.symm⟩, ⟨_, rfl⟩, ?_, ?_, hnot⟩, .inl rfl⟩
    · exact or_self_and_ne_zero _ _
    · exact fun _ => hbarrier
  rw [if_neg hbarrier]
  rw [ne_eq, not_not] at hbarrier
  by_cases hfence : (e.cmd.flagged && decide (p.fence &&& tagMask e.cmd.tag ≠ 0)) = true
  · rw [Bool.and_eq_true, decide_eq_true_eq] at hfence
    refine .inr ⟨_, if_pos (by rw [Bool.and_eq_true, decide_eq_true_eq]; exact hfence), ⟨rfl, ?_, ⟨0, ?_⟩, ?_, ?_, hnot⟩,
      .inl rfl⟩
    · exact (blocks_block p hclass').barrier
    · exact BitVec.or_zero.symm
    · exact hfence.2
    · exact (blocks_block p hclass').covers.barrier
  rw [if_neg hfence]
  have hmay : p.MayExecute i e.cmd := by
    unfold MayExecute
    rw [if_neg hclass]
    refine ⟨hbarrier, ?_⟩
    intro hflagged
    by_contra hne
    exact hfence (by rw [hflagged, Bool.true_and]; exact decide_eq_true hne)
  by_cases hexec : (!execMask.getLsbD i) = true
  · have hblocks := blocks_block p hclass'
    refine .inr ⟨_, if_pos hexec, ⟨rfl, hblocks.barrier, hblocks.fence, hblocks.covers⟩, .inl rfl⟩
  rw [if_neg hexec]
  by_cases hlist : e.cmd.isList = true
  · simp only [hlist, if_true]
    by_cases hstalled : e.cmd.stalled = true
    · exact .inr ⟨_, if_pos hstalled, blocks_block p hclass', .inl rfl⟩
    rw [if_neg hstalled]
    cases outcome i with
    | finished => exact .inl ⟨_, rfl, rfl, hmay⟩
    | stalled eal lsa size =>
      have hblocks := blocks_block { p with state := p.state.executeStalled i e eal lsa size } hclass'
      exact .inr ⟨_, rfl, ⟨rfl, hblocks.barrier, hblocks.fence, hblocks.covers⟩, .inr ⟨hmay, eal, lsa, size, rfl⟩⟩
  · rw [if_neg hlist]
    by_cases hput : e.cmd.cmd = MFC.putqlluc
    · rw [if_pos hput]
      by_cases hwait : p.fence &&& tagMask e.cmd.tag ≠ 0
      · -- the fence mask has the tag already, and `PUTQLLUC` has no barrier flag
        refine .inr ⟨_, if_pos hwait, ⟨rfl, ⟨0, BitVec.or_zero.symm⟩, ⟨0, BitVec.or_zero.symm⟩, hwait, ?_, hnot⟩,
          .inl rfl⟩
        intro hflag
        unfold SpuMfcCmd.barrierFlag at hflag
        rw [hput] at hflag
        exact absurd hflag (by decide)
      · rw [if_neg hwait, hre]
        exact .inl ⟨_, rfl, rfl, hmay⟩
    · rw [if_neg hput]
      exact .inl ⟨_, rfl, rfl, hmay⟩

def InUse (p : MfcPass) (n i j : Nat) : Prop := j < i - p.removed ∨ i ≤ j ∧ j < n

/-- Before slot `i` is visited: what has been kept stands below, and the masks cover it. -/
structure Visiting (p : MfcPass) (n i : Nat) : Prop where
  size : p.state.size.toNat = n
  removed : p.removed ≤ i
  live : p.state.Live (p.InUse n i)
  covers : ∀ j < i - p.removed, Covers p.barrier p.fence (p.state.queue j).cmd

theorem Visiting.free (h : p.Visiting n i) (hi : i < n) (hmay : p.MayExecute i (p.state.queue i).cmd) :
    ∀ k, p.InUse n i k → (p.state.queue k).id < (p.state.queue i).id →
      Free (p.state.queue k).cmd (p.state.queue i).cmd := by
  intro k hk hid
  -- the slots are sorted, so that an earlier command is one that was kept
  have hkept : k < i - p.removed := by
    rcases hk with hk | ⟨hle, hlt⟩
    · exact hk
    rcases lt_or_eq_of_le hle with hik | hik
    · have hsorted := h.live.sorted i k (.inr ⟨by omega, hi⟩) (.inr ⟨hle, hlt⟩) hik
      omega
    · rw [hik] at hid
      omega
  unfold MayExecute at hmay
  by_cases hclass : (p.state.queue i).cmd.barrierClass = true
  · rw [if_pos hclass] at hmay
    omega
  · rw [if_neg hclass] at hmay
    exact (h.covers k hkept).free (Bool.eq_false_iff.mpr hclass) hmay.1 hmay.2

theorem Visiting.removes (h : p.Visiting n i) (hi : i < n) (hmay : p.MayExecute i (p.state.queue i).cmd) :
    ({ p with removed := p.removed + 1, state := p.state.execute (p.state.queue i) } : MfcPass).Visiting n (i + 1) := by
  have hremoved := h.removed
  have hinuse : p.InUse n i i := .inr ⟨by omega, hi⟩
  have hexec := h.live.execute (h.live.known i hinuse) (h.free hi hmay)
  refine ⟨h.size, succ_le_succ hremoved, ?_, ?_⟩
  · apply hexec.remove
    · intro j hj
      rcases hj with hj | hj
      · have hj : j < i + 1 - (p.removed + 1) := hj
        exact .inl (by omega)
      · exact .inr ⟨by omega, hj.2⟩
    intro j hj
    by_cases hji : j = i
    · right
      rw [hji]
      exact finish_mem_execute p.state (p.state.queue i)
    left
    rcases hj with hj | hj
    · left
      show j < i + 1 - (p.removed + 1)
      omega
    · exact .inr ⟨by omega, hj.2⟩
  · intro j hj
    have hj : j < i + 1 - (p.removed + 1) := hj
    exact h.covers j (by omega)

theorem Visiting.keeps (h : p.Visiting n i) (hi : i < n) {p' : MfcPass} (hblocks : Blocks p p' (p.state.queue i).cmd)
    (hsize : p'.state.size = p.state.size) (hlive : p'.state.Live (p.InUse n i))
    (hslots : ∀ j, j ≠ i → p'.state.queue j = p.state.queue j)
    (hlike : Like (p'.state.queue i).cmd (p.state.queue i).cmd) :
    ({ p' with state := { p'.state with
        queue := update p'.state.queue (i - p.removed) (p'.state.queue i) } } : MfcPass).Visiting n (i + 1) := by
  have hremoved := h.removed
  have hsame := hblocks.removed
  have hslot : ∀ j, update p'.state.queue (i - p.removed) (p'.state.queue i) j =
      if j = i - p.removed then p'.state.queue i else p'.state.queue j := fun j => update_apply _ _ _ _
  have hinuse : ∀ j, j < i + 1 - p'.removed ∨ i + 1 ≤ j ∧ j < n →
      j = i - p.removed ∨ j ≠ i - p.removed ∧ j ≠ i ∧ p.InUse n i j := by
    intro j hj
    by_cases heq : j = i - p.removed
    · exact .inl heq
    right
    rcases hj with hj | hj
    · exact ⟨heq, by omega, .inl (by omega)⟩
    · exact ⟨heq, by omega, .inr ⟨by omega, hj.2⟩⟩
  have hfrom : ∀ j, update p'.state.queue (i - p.removed) (p'.state.queue i) j =
      p'.state.queue (if j = i - p.removed then i else j) := by
    intro j
    rw [hslot]
    split <;> rfl
  refine ⟨?_, ?_, ?_, ?_⟩
  · rw [hsize]
    exact h.size
  · show p'.removed ≤ i + 1
    omega
  · refine hlive.relocate rfl rfl (fun j => if j = i - p.removed then i else j) ?_ ?_ ?_ fun j _ => .of_eq (hfrom j)
    · intro j hj
      rcases hinuse j hj with heq | ⟨hne, _, huse⟩
      · rw [if_pos heq]
        exact .inr ⟨by omega, hi⟩
      · rw [if_neg hne]
        exact huse
    · intro k hk
      by_cases hki : k = i
      · refine ⟨i - p.removed, .inl ?_, ?_⟩
        · show i - p.removed < i + 1 - p'.removed
          omega
        · rw [if_pos rfl, hki]
      · rcases hk with hk | hk
        · refine ⟨k, .inl ?_, if_neg (by omega)⟩
          show k < i + 1 - p'.removed
          omega
        · exact ⟨k, .inr ⟨by omega, hk.2⟩, if_neg (by omega)⟩
    · intro j k hj hk hlt
      have hk : k < i + 1 - p'.removed ∨ i + 1 ≤ k ∧ k < n := hk
      split <;> split <;> omega
  · intro j hj
    have hj : j < i + 1 - p'.removed := hj
    show Covers p'.barrier p'.fence (update p'.state.queue (i - p.removed) (p'.state.queue i) j).cmd
    rw [hslot]
    by_cases heq : j = i - p.removed
    · rw [if_pos heq]
      exact hblocks.covers.congr hlike
    rw [if_neg heq, hslots j (by omega)]
    rcases hblocks.barrier with ⟨b, hb⟩
    rcases hblocks.fence with ⟨f, hf⟩
    rw [hb, hf]
    exact (h.covers j (by omega)).or b f

theorem Visiting.visit (hre : ∀ s, reenter i s = s) (h : p.Visiting n i) (hi : i < n) :
    (p.visit execMask outcome reenter i).Visiting n (i + 1) := by
  unfold MfcPass.visit
  rcases processCommand_cases hre with ⟨p', heq, rfl, hmay⟩ | ⟨p', heq, hblocks, hstate⟩
  · rw [heq]
    exact h.removes hi hmay
  rw [heq]
  rcases hstate with hstate | ⟨hmay, eal, lsa, size, hstate⟩
  · apply h.keeps hi hblocks <;> rw [hstate]
    · exact h.live
    · exact fun _ _ => rfl
    · exact ⟨rfl, rfl⟩
  have hinuse : p.InUse n i i := .inr ⟨by omega, hi⟩
  have hslot : p'.state.queue i = stall (p.state.queue i) eal lsa size := by
    rw [hstate]
    exact update_self _ _ _
  apply h.keeps hi hblocks
  · rw [hstate]
    rfl
  · rw [hstate]
    exact h.live.executeStalled hinuse rfl (h.free hi hmay) eal lsa size
  · intro j hj
    rw [hstate]
    exact update_of_ne hj _ _
  · rw [hslot]
    exact (sameEntry_stall _ eal lsa size).like

end MfcPass

namespace MfcState

variable {s : MfcState} {k : Nat} {c : SpuMfcCmd}

structure MfcInv (s : MfcState) : Prop where
  size : s.size.toNat ≤ 16
  live : s.Live (· < s.size.toNat)
  covers : ∀ j < s.size.toNat, Covers s.barrier s.fence (s.queue j).cmd

theorem MfcInv.pass {execMask : BitVec 16} {outcome : Nat → ListOutcome} {reenter : Nat → MfcState → MfcState}
    (h : s.MfcInv) (hre : ∀ i < 16, ∀ s, reenter i s = s) : (s.pass execMask outcome reenter).MfcInv := by
  have hsize := h.size
  have hvisit : ∀ i ≤ s.size.toNat, ((range i).foldl (MfcPass.visit execMask outcome reenter)
      { state := s }).Visiting s.size.toNat i := by
    intro i hi
    induction i with
    | zero =>
      refine ⟨rfl, le_refl 0, ?_, fun j hj => absurd hj (not_lt_zero _)⟩
      exact h.live.remove (fun j hj => hj.elim (fun h => absurd h (not_lt_zero _)) And.right)
        (fun j hj => .inl (.inr ⟨zero_le _, hj⟩))
    | succ i ih =>
      rw [range_succ, foldl_append]
      exact (ih (by omega)).visit (hre i (by omega)) (by omega)
  have hend := hvisit s.size.toNat (le_refl _)
  unfold MfcState.pass
  generalize (range s.size.toNat).foldl (MfcPass.visit execMask outcome reenter) { state := s } = p at hend
  have hremoved := hend.removed
  have hleft : (p.state.size - BitVec.ofNat 32 p.removed).toNat = s.size.toNat - p.removed := by
    rw [BitVec.toNat_sub, BitVec.toNat_ofNat, hend.size]
    omega
  refine ⟨?_, ?_, ?_⟩
  · show (p.state.size - BitVec.ofNat 32 p.removed).toNat ≤ 16
    omega
  · have hlive : p.state.Live (· < (p.state.size - BitVec.ofNat 32 p.removed).toNat) := by
      rw [hleft]
      exact hend.live.remove (fun j hj => .inl hj) (fun j hj => .inl (hj.elim id fun hn => by omega))
    exact { hlive with }
  · intro j hj
    have hj : j < (p.state.size - BitVec.ofNat 32 p.removed).toNat := hj
    exact hend.covers j (by omega)

/-! ## Issuing commands -/

def newEntry (s : MfcState) (c : SpuMfcCmd) : MfcEntry := { cmd := c, id := s.issued.length }

theorem Live.issue (h : s.Live (· < k)) (c : SpuMfcCmd) :
    ({ s with issued := s.issued ++ [c], queue := update s.queue k (s.newEntry c) } : MfcState).Live
      (· < k + 1) := by
  have hold : ∀ j < k, update s.queue k (s.newEntry c) j = s.queue j := fun j hj => update_of_ne (by omega) _ _
  have hnew : update s.queue k (s.newEntry c) k = s.newEntry c := update_self _ _ _
  have hissued : ∀ {m : Nat}, m < s.issued.length → (s.issued ++ [c])[m]? = s.issued[m]? :=
    fun hm => getElem?_append_left hm
  refine ⟨?_, ?_, ?_, ?_, ?_⟩
  · intro j hj
    show MfcState.Known _ (update s.queue k (s.newEntry c) j)
    by_cases hjk : j = k
    · rw [hjk, hnew]
      exact ⟨c, getElem?_concat_length, rfl, rfl⟩
    have hj : j < k := by omega
    rw [hold j hj]
    rcases h.known j hj with ⟨d, hd, hcmd, htag⟩
    exact ⟨d, (hissued (h.known j hj).lt).trans hd, hcmd, htag⟩
  · intro i j hi hj hlt
    show (update s.queue k (s.newEntry c) i).id < (update s.queue k (s.newEntry c) j).id
    have hi : i < k := by omega
    rw [hold i hi]
    by_cases hjk : j = k
    · rw [hjk, hnew]
      exact (h.known i hi).lt
    · have hj : j < k := by omega
      rw [hold j hj]
      exact h.sorted i j hi hj hlt
  · intro m hm
    rw [length_append, length_singleton] at hm
    by_cases hlast : m = s.issued.length
    · refine .inr ⟨k, lt_succ_self k, ?_⟩
      show (update s.queue k (s.newEntry c) k).id = m
      rw [hnew, hlast]
      rfl
    · rcases h.unfinished m (by omega) with hf | ⟨j, hj, hid⟩
      · exact .inl hf
      refine .inr ⟨j, lt_succ_of_lt hj, ?_⟩
      show (update s.queue k (s.newEntry c) j).id = m
      rw [hold j hj]
      exact hid
  · intro n hn
    have hlt := h.logged n hn
    rw [length_append]
    omega
  · intro i n hi m a b hmn ha hb hmust
    have hlt := h.logged n (mem_of_getElem? hi)
    rw [hissued (by omega)] at ha
    rw [hissued hlt] at hb
    exact h.ordered i n hi m a b hmn ha hb hmust

theorem newEntry_free (hfree : ∀ j < k, Free (s.queue j).cmd c) :
    ∀ j, j < k + 1 → (update s.queue k (s.newEntry c) j).id < (s.newEntry c).id →
      Free (update s.queue k (s.newEntry c) j).cmd c := by
  intro j hj hid
  by_cases hjk : j = k
  · rw [hjk, update_self] at hid
    omega
  · rw [update_of_ne hjk]
    exact hfree j (by omega)

theorem Live.issue_execute (h : s.Live (· < k)) (hfree : ∀ j < k, Free (s.queue j).cmd c) :
    ({ s with issued := s.issued ++ [c] }.execute (s.newEntry c)).Live (· < k) := by
  have hissue := h.issue c
  have hknown := hissue.known k (lt_succ_self k)
  have hnew : update s.queue k (s.newEntry c) k = s.newEntry c := update_self _ _ _
  have hknown : MfcState.Known _ (update s.queue k (s.newEntry c) k) := hknown
  rw [hnew] at hknown
  have hexec := hissue.execute hknown (newEntry_free hfree)
  have hgone := hexec.remove (fun j hj => lt_succ_of_lt hj) (by
    intro j hj
    by_cases hjk : j = k
    · right
      show MfcLog.finish (update s.queue k (s.newEntry c) j).id ∈ _
      rw [hjk, hnew]
      exact finish_mem_execute _ _
    · left
      omega)
  exact hgone.congr rfl rfl fun j hj => .of_eq (update_of_ne (by omega) _ _).symm

theorem MfcInv.execute (h : s.MfcInv) (hfree : ∀ j < s.size.toNat, Free (s.queue j).cmd c) :
    ({ s with issued := s.issued ++ [c] }.execute (s.newEntry c)).MfcInv :=
  ⟨h.size, h.live.issue_execute hfree, h.covers⟩

theorem MfcInv.extend (h : s.MfcInv) (hroom : s.size < 16) {s' : MfcState} {q : Nat → MfcEntry} {e : MfcEntry}
    (hsize : s'.size = s.size + 1) (hlive : s'.Live (· < s.size.toNat + 1))
    (hqueue : s'.queue = update q s.size.toNat e) (hold : ∀ j < s.size.toNat, q j = s.queue j)
    (hbarrier : ∃ b, s'.barrier = s.barrier ||| b) (hfence : ∃ f, s'.fence = s.fence ||| f)
    (hnew : Covers s'.barrier s'.fence e.cmd) : s'.MfcInv := by
  have hlt : s.size.toNat < 16 := hroom
  have hnext : s'.size.toNat = s.size.toNat + 1 := by
    rw [hsize, BitVec.toNat_add]
    exact mod_eq_of_lt (by have : (1 : BitVec 32).toNat = 1 := rfl; omega)
  refine ⟨by omega, by rw [hnext]; exact hlive, ?_⟩
  intro j hj
  rw [hqueue]
  by_cases hjk : j = s.size.toNat
  · rw [hjk, update_self]
    exact hnew
  rcases hbarrier with ⟨b, hb⟩
  rcases hfence with ⟨f, hf⟩
  rw [hb, hf, update_of_ne hjk, hold j (by omega)]
  exact (h.covers j (by omega)).or b f

theorem MfcInv.enqueue (h : s.MfcInv) (hroom : s.size < 16) (hclass : c.barrierClass = false) :
    ({ s with issued := s.issued ++ [c] }.enqueue (s.newEntry c)).MfcInv :=
  h.extend hroom rfl { h.live.issue c with } rfl (fun _ _ => rfl) (or_of_flag _ _ _) ⟨_, rfl⟩
    (covers_block hclass _ _)

theorem MfcInv.enqueueBarrier (h : s.MfcInv) (hroom : s.size < 16) :
    MfcInv { { s with issued := s.issued ++ [c] }.enqueue (s.newEntry c) with barrier := .allOnes 32 } :=
  h.extend hroom rfl { h.live.issue c with } rfl (fun _ _ => rfl) ⟨.allOnes 32, BitVec.or_allOnes.symm⟩ ⟨_, rfl⟩
    ⟨or_self_and_ne_zero _ _, fun _ => allOnes_and_ne_zero _, fun _ => rfl⟩

theorem MfcInv.enqueueStalled (h : s.MfcInv) (hroom : s.size < 16) (hclass : c.barrierClass = false)
    (hfree : ∀ j < s.size.toNat, Free (s.queue j).cmd c) (eal lsa : BitVec 32) (size : BitVec 16) :
    (({ s with issued := s.issued ++ [c] }.executeStalled s.size.toNat (s.newEntry c) eal lsa size).enqueue
      (stall (s.newEntry c) eal lsa size)).MfcInv := by
  have hnew : update s.queue s.size.toNat (s.newEntry c) s.size.toNat = s.newEntry c := update_self _ _ _
  have hstall := (h.live.issue c).executeStalled (lt_succ_self _) hnew (newEntry_free hfree) eal lsa size
  have hcovers := covers_block (c := (stall (s.newEntry c) eal lsa size).cmd) hclass s.barrier s.fence
  refine h.extend hroom rfl ?_ rfl ?_ (or_of_flag _ _ _) ⟨_, rfl⟩ hcovers
  · -- the slot is written twice, with what the stalled list leaves
    refine hstall.congr rfl rfl fun j _ => .of_eq (congrFun ?_ j)
    exact (update_idem _ _ _).trans (update_idem _ _ _).symm
  · intro j hj
    exact update_of_ne (Nat.ne_of_lt hj) _ _

theorem not_barrierClass {l : List MFC} (hl : ∀ x ∈ l, decide (x &&& ~~~0xc = MFC.barrier) = false)
    (hc : c.cmd ∈ l) : c.barrierClass = false := hl c.cmd hc

theorem MfcInv.free_of_check (h : s.MfcInv) (hclass : c.barrierClass = false) (hcheck : s.doDmaCheck c = true) :
    ∀ j < s.size.toNat, Free (s.queue j).cmd c := by
  unfold doDmaCheck at hcheck
  simp only [Bool.not_eq_true', Bool.or_eq_false_iff, decide_eq_false_iff_not, ne_eq, not_not] at hcheck
  intro j hj
  apply (h.covers j hj).free hclass hcheck.1
  intro hflagged
  have hfence := hcheck.2
  rw [hflagged, Bool.true_and, decide_eq_false_iff_not, not_not] at hfence
  exact hfence

theorem MfcInv.processMfcCmd {s' : MfcState} {shuffling : Bool} {outcome : ListOutcome} (h : s.MfcInv)
    (hroom : s.size < 16) (hs : s.processMfcCmd c shuffling outcome = some s') : s'.MfcInv := by
  unfold MfcState.processMfcCmd at hs
  by_cases hput : c.cmd = MFC.putqlluc
  · have hclass : c.barrierClass = false := by
      unfold SpuMfcCmd.barrierClass
      rw [hput]
      decide
    simp only [hput, if_true] at hs
    split_ifs at hs with hclear
    · cases hs
      exact h.enqueue hroom hclass
    cases hs
    rw [ne_eq, not_not] at hclear
    apply h.execute
    intro j hj
    -- neither mask has the tag
    apply (h.covers j hj).free hclass
    · by_contra hne
      exact or_and_ne_zero s.fence hne hclear
    · intro _
      by_contra hne
      have hor := or_and_ne_zero s.barrier hne
      rw [BitVec.or_comm] at hor
      exact hor hclear
  simp only [if_neg hput] at hs
  by_cases hsingle : c.cmd ∈ singleCommands ∨ c.cmd ∈ signalCommands ∧ c.size = 4
  · have hclass : c.barrierClass = false := by
      rcases hsingle with hc | hc
      · exact not_barrierClass (by decide) hc
      · exact not_barrierClass (by decide) hc.1
    rw [if_pos hsingle] at hs
    split at hs
    · split_ifs at hs with hcheck
      · cases hs
        rw [Bool.and_eq_true] at hcheck
        exact h.execute (h.free_of_check hclass hcheck.1)
      · cases hs
        exact h.enqueue hroom hclass
    · cases hs
  rw [if_neg hsingle] at hs
  by_cases hlist : c.cmd ∈ listCommands
  · have hclass := not_barrierClass (by decide) hlist
    rw [if_pos hlist] at hs
    have ⟨_, hs⟩ := Option.ite_none_right_eq_some.mp hs
    split at hs
    next hcheck =>
      rw [Bool.and_eq_true] at hcheck
      have hfree := h.free_of_check hclass hcheck.1
      split at hs
      · cases hs
        exact h.execute hfree
      cases outcome with
      | finished =>
        cases hs
        exact h.execute hfree
      | stalled eal lsa size =>
        cases hs
        exact h.enqueueStalled hroom hclass hfree eal lsa size
    · cases hs
      exact h.enqueue hroom hclass
  rw [if_neg hlist] at hs
  split at hs
  · split_ifs at hs with hempty
    · cases hs
      apply h.execute
      intro j hj
      rw [hempty] at hj
      exact absurd hj (not_lt_zero _)
    · cases hs
      exact h.enqueueBarrier hroom
  · cases hs

theorem MfcInv.stallAck (h : s.MfcInv) (value : BitVec 8) : (s.stallAck value).MfcInv := by
  unfold MfcState.stallAck
  by_cases hmask : s.stallMask &&& tagMask (value &&& 0x1f) ≠ 0
  · simp only [if_pos hmask]
    -- only stall bits of tags change
    have hsame : ∀ e : MfcEntry, SameEntry (if e.cmd.tag = value &&& 0x1f ||| 0x80 then
        { e with cmd := { e.cmd with tag := e.cmd.tag &&& 0x7f } } else e) e := by
      intro e
      split
      · exact ⟨rfl, rfl, tagMask_acknowledged _⟩
      · exact .of_eq rfl
    exact ⟨h.size, h.live.congr rfl rfl fun _ _ => hsame _, fun j hj => (h.covers j hj).congr (hsame _).like⟩
  · rw [if_neg hmask]
    exact h

end MfcState

/-- `cpu_work` is not entered from within a round. -/
def NotReentered (_ : MfcState) : MfcEvent → Prop
  | .round input => ∀ i < 16, input.nested i = []
  | _ => True

instance (s : MfcState) : (e : MfcEvent) → Decidable (NotReentered s e)
  | .round _ => inferInstanceAs (Decidable (∀ i < 16, _))
  | .issue .. | .stallAck .. => .isTrue trivial

theorem NotReentered.mfcInv {s : MfcState} (hs : (mfcSystem.restrict NotReentered).Reachable s) : s.MfcInv := by
  apply hs.invariant
  · rintro s rfl
    refine ⟨by decide, ⟨?_, ?_, ?_, ?_, ?_⟩, ?_⟩
    · exact fun j hj => absurd hj (not_lt_zero _)
    · exact fun j _ hj => absurd hj (not_lt_zero _)
    · exact fun m hm => absurd hm (not_lt_zero _)
    · exact nofun
    · exact nofun
    · exact fun j hj => absurd hj (not_lt_zero _)
  intro s e s' hinv hstep
  have ⟨hcond, hstep⟩ := System.step_restrict.mp hstep
  cases e with
  | issue =>
    have hstep : (if s.size < 16 then _ else none) = some s' := hstep
    split at hstep
    next hroom =>
      exact hinv.processMfcCmd hroom hstep
    · cases hstep
  | round =>
    cases hstep
    apply hinv.pass
    intro i hi s
    rw [hcond i hi]
    rfl
  | stallAck value =>
    cases hstep
    exact hinv.stallAck value

/-- In every run in which no round is entered again, commands start in order, and the queue never holds more than 16. -/
theorem mfc_commands_ordered {s : MfcState} (hs : (mfcSystem.restrict NotReentered).Reachable s) :
    s.Ordered ∧ s.size.toNat ≤ 16 := by
  have hinv := NotReentered.mfcInv hs
  exact ⟨hinv.live.ordered, hinv.size⟩

theorem mfcSystem_init : mfcSystem.init {} := rfl

/-- A list that stalls, a fenced and a plain put and a `SYNC` behind it, the acknowledgement, and another round. -/
theorem mfc_commands_ordered_stall : ∃ s, (mfcSystem.restrict NotReentered).Reachable s ∧
    (s.log = [.start 0, .start 2, .finish 2, .finish 0, .start 1, .finish 1, .start 3, .finish 3] ∧ s.size = 0) ∧
      s.Ordered ∧ s.size.toNat ≤ 16 :=
  System.Reachable.exists_of_run_and mfc_commands_ordered mfcSystem_init
    [.issue ⟨MFC.getl, 3, 16, 0, 0, 0⟩ false (.stalled 8 0 8), .issue ⟨MFC.putf, 3, 16, 0, 0, 0⟩ false .finished,
      .issue ⟨MFC.put, 3, 16, 0, 0, 0⟩ false .finished, .issue ⟨MFC.sync, 0, 0, 0, 0, 0⟩ false .finished,
      .stallAck 3, .round {}] (by decide +kernel)

/-- A put and a `PUTQLLUC` of one tag are queued, and the round that stores the second enters `do_mfc` again: both are
executed twice, and `mfc_size` becomes -2. -/
theorem mfc_queue_overrun : ∃ s, mfcSystem.Reachable s ∧ (¬ s.size.toNat ≤ 16 ∧
      s.log = [.start 0, .finish 0, .start 1, .finish 1, .start 0, .finish 0, .start 1, .finish 1]) :=
  System.Reachable.exists_of_run mfcSystem_init
    [.issue ⟨MFC.put, 0, 16, 0, 0, 0⟩ true .finished, .issue ⟨MFC.putqlluc, 0, 128, 0, 0, 0⟩ true .finished,
      .round { nested := fun i => if i = 1 then [(.allOnes 16, fun _ => .finished)] else [] }] _ (by decide +kernel)

end Armsx3.Cell
