import Armsx3.Cell.SpuChannel
import Armsx3.Library.Holder

/-!
# SpuChannelSafety — what a push and a waiting SPU owe each other

While the SPU waits for a value, `jostling_value` is an offer, and the push that takes it is the only one that may turn
the waiting bit off.  The invariant follows the offer: it is open, or one push has taken it and will clear the bit, or
nothing can be taken.
-/

namespace Armsx3.Cell

open History Function List Bool Channel Transition Option Channel ChannelData PushAt

/-- No call is waiting: what is left in `jostling_value` cannot be taken. -/
def Still (d : ChannelData) (jv delivered : Option (BitVec 32)) (quiet : Prop) : Prop :=
  d.wait = false ∧ delivered = none ∧ (jv = none → quiet)

def Offered (d : ChannelData) (jv delivered : Option (BitVec 32)) (written : Bool) (claimed : Prop) : Prop :=
  jv = none ∧ d.occupy = true ∧ delivered = none ∧ written = false ∧ ¬ claimed

/-- A push has taken the offer; if the waiting bit is still set, the push is about to clear it. -/
def Served (d : ChannelData) (jv delivered : Option (BitVec 32)) (written : Bool) (claimed : Prop) : Prop :=
  ∃ v, jv = some v ∧ delivered = some v ∧ written = true ∧ (d.wait = true → claimed)

def Peeking (d : ChannelData) (jv delivered : Option (BitVec 32)) (written : Bool) (quiet : Prop) : Prop :=
  delivered = none ∧ d.occupy = false ∧ (jv = none → quiet) ∧
    (d.wait = true ∧ written = false ∨ d.wait = false ∧ d.count = true ∧ written = true)

/-- What holds at each point of `pop_wait`; `quiet` says that no push is before its exchange of `jostling_value`, and
`claimed` that one is behind it. -/
def Phase (d : ChannelData) (jv delivered : Option (BitVec 32)) (written : Bool) (quiet claimed : Prop) : PopAt → Prop
  | .out => Still d jv delivered quiet
  | .loaded pop old => Still d jv delivered quiet ∧ (old.count = true → pop = true)
  | .evaluated pop old => Still d jv delivered quiet ∧ (old.count = true → pop = true) ∧
      (old.count = false → pop = true → jv = none)
  | .waiting true | .asleep true | .aborting true => 
      Offered d jv delivered written claimed ∨ Served d jv delivered written claimed
  | .waiting false | .asleep false | .aborting false => Peeking d jv delivered written quiet
  | .take true => ∃ v, jv = some v ∧ delivered = some v ∧ d.wait = false
  | .take false => delivered = none ∧ d.wait = false ∧ (jv = none → quiet) ∧ d.count = true
  | .received v => (∃ w, jv = some w) ∧ delivered = some v ∧ (d.wait = true → claimed)
  | .withdraw => (∃ w, jv = some w) ∧ delivered = none ∧ d.occupy = true ∧ ¬ claimed

variable {pop : Bool}

namespace Phase

variable {d : ChannelData} {jv delivered : Option (BitVec 32)} {written : Bool} {quiet quiet' claimed claimed' : Prop}
  {spu : PopAt}

theorem of_quiet (hq : d.occupy = true ∧ d.wait = true ∨ (quiet → quiet')) (hc : claimed ↔ claimed')
    (h : Phase d jv delivered written quiet claimed spu) : Phase d jv delivered written quiet' claimed' spu := by
  cases spu with
  | waiting pop | asleep pop | aborting pop | take pop =>
    cases pop <;> simp only [Phase, Offered, Served, Peeking] at h ⊢ <;> grind
  | out | loaded | evaluated | received | withdraw =>
    simp only [Phase, Still] at h ⊢
    grind

theorem pushData (ho : d.occupy = false) (h : Phase d jv delivered written quiet claimed spu)
    (v : BitVec 32) (o : Bool) : Phase (d.pushed v o) jv delivered true quiet claimed spu := by
  cases spu with
  | waiting pop | asleep pop | aborting pop | take pop =>
    cases pop <;> simp only [Phase, Offered, Served, Peeking, pushed] at h ⊢ <;> grind
  | out | loaded | evaluated | received | withdraw =>
    simp only [Phase, Still, pushed] at h ⊢
    grind

theorem offered (hj : jv = none) (hq : ¬ quiet) (h : Phase d jv delivered written quiet claimed spu) :
    (spu = .waiting true ∨ spu = .asleep true ∨ spu = .aborting true) ∧ Offered d jv delivered written claimed := by
  cases spu with
  | waiting pop | asleep pop | aborting pop | take pop =>
    cases pop <;> simp only [Phase, Offered, Served, Peeking] at h ⊢ <;> grind
  | out | loaded | evaluated | received | withdraw =>
    simp only [Phase, Still] at h
    grind

theorem written_of_asleep (hwf : d.occupy = true → d.wait = true) (hw : d.wait = false)
    (h : Phase d jv delivered written quiet claimed (.asleep pop)) : written = true := by
  cases pop with
  | true =>
    rcases h with hoff | ⟨_, _, _, hwr, _⟩
    · exact absurd ((hwf hoff.2.1).symm.trans hw) (by decide)
    · exact hwr
  | false =>
    have ⟨_, _, _, hwait⟩ := h
    rcases hwait with ⟨hwt, _⟩ | ⟨_, _, hwr⟩
    · exact absurd (hwt.symm.trans hw) (by decide)
    · exact hwr

theorem clear (hc : claimed) (ho : d.occupy = true) (hw : d.wait = true)
    (h : Phase d jv delivered written quiet claimed spu) :
    Phase d.released jv delivered written quiet claimed' spu := by
  cases spu with
  | waiting pop | asleep pop | aborting pop | take pop =>
    cases pop <;> simp only [Phase, Offered, Served, Peeking, released] at h ⊢ <;> grind
  | out | loaded | evaluated | received | withdraw =>
    simp only [Phase, Still, released] at h ⊢
    grind

end Phase

structure ChannelData.Wf (d : ChannelData) : Prop where
  occupyWait : d.occupy = true → d.wait = true
  waitEmpty : d.wait = true → d.count = false
  emptyZero : d.count = false → d.value = 0

namespace ChannelData.Wf

variable {d : ChannelData}

theorem empty : Wf {} := ⟨nofun, nofun, fun _ => rfl⟩

theorem pushed (v : BitVec 32) (o : Bool) : (d.pushed v o).Wf := ⟨nofun, nofun, nofun⟩

theorem released (h : d.Wf) : d.released.Wf := ⟨nofun, nofun, h.emptyZero⟩

theorem awaiting (pop : Bool) : (awaiting pop).Wf := ⟨fun _ => rfl, fun _ => rfl, fun _ => rfl⟩

theorem not_occupied (h : d.Wf) (hw : d.wait = false) : d.occupy = false := by
  cases ho : d.occupy with
  | false => rfl
  | true => rw [h.occupyWait ho] at hw; cases hw

theorem content_of_wait (h : d.Wf) (hw : d.wait = true) : d.content = none := by
  rw [content, h.waitEmpty hw]
  rfl

theorem apply_push (h : d.Wf) (id : Nat) (v : BitVec 32) (o : Bool) :
    ChannelCall.apply d.content (.push id v o) = some (d.pushed v o).content := by
  cases hc : d.count with
  | true => simp only [ChannelCall.apply, content, hc, if_true, getD_some, ChannelData.pushed]
  | false =>
    -- without a value the low half is zero
    have hv := h.emptyZero hc
    simp only [ChannelCall.apply, content, hc, false_eq_true, if_false, getD_none, ChannelData.pushed, hv, if_true]

end ChannelData.Wf

section Threads

variable {n : Nat} {threads : Fin n → PushAt} {p : Fin n} {l l₀ : PushAt} {occupy : Bool}

theorem flag_update (f : PushAt → Bool) (hp : threads p = l₀) (h : f l = f l₀) (q : Fin n) :
    f (update threads p l q) = f (threads q) := by
  by_cases hq : q = p
  · rw [hq, update_self, hp, h]
  · rw [update_of_ne hq]

theorem owed_update : (fun q => (update threads p l q).owed) = update (fun q => (threads q).owed) p l.owed := by
  funext q
  by_cases hq : q = p
  · rw [hq, update_self, update_self]
  · rw [update_of_ne hq, update_of_ne hq]

theorem owed_update_same (hp : threads p = l₀) (h : l.owed = l₀.owed) :
    (fun q => (update threads p l q).owed) = fun q => (threads q).owed := by
  rw [owed_update, h, ← hp]
  exact update_eq_self p _

/-- The pushes on the way to the waiting bit; the word is occupied until the one that claimed it is through. -/
structure Pushers (occupy : Bool) (threads : Fin n → PushAt) : Prop where
  oldJostle : ∀ p id value toOr oldWait, threads p = .jostle id value toOr oldWait → oldWait = true
  oldClear : ∀ p oldWait, threads p = .clear oldWait → oldWait = true
  clearing : ∀ p, (threads p).clearing = true → occupy = true
  oneClear : ∀ p q, (threads p).clearing = true → (threads q).clearing = true → p = q

theorem Pushers.move (h : Pushers occupy threads) (hc : l.clearing = false)
    (hj : ∀ id value toOr oldWait, l = .jostle id value toOr oldWait → oldWait = true) :
    Pushers occupy (update threads p l) := by
  have hback : ∀ q, (update threads p l q).clearing = true → (threads q).clearing = true := by
    intro q hq
    by_cases hqp : q = p
    · rw [hqp, update_self, hc] at hq
      cases hq
    · rwa [update_of_ne hqp] at hq
  refine ⟨Holder.forall_update (P := fun l : PushAt => ∀ id value toOr w, l = .jostle id value toOr w → w = true)
      h.oldJostle hj,
    Holder.forall_update (P := fun l : PushAt => ∀ w, l = .clear w → w = true) h.oldClear fun _ hl => ?_,
    fun q hq => h.clearing q (hback q hq), fun q r hq hr => h.oneClear q r (hback q hq) (hback r hr)⟩
  rw [hl] at hc
  cases hc

theorem Pushers.claim (h : Pushers true threads) (hnone : ¬ ∃ q, (threads q).clearing = true) :
    Pushers true (update threads p (.clear true)) := by
  have honly : ∀ q, (update threads p (.clear true) q).clearing = true → q = p := by
    intro q hq
    by_cases hqp : q = p
    · exact hqp
    · rw [update_of_ne hqp] at hq
      exact absurd ⟨q, hq⟩ hnone
  refine ⟨Holder.forall_update (P := fun l : PushAt => ∀ id value toOr w, l = .jostle id value toOr w → w = true)
      h.oldJostle nofun,
    Holder.forall_update (P := fun l : PushAt => ∀ w, l = .clear w → w = true) h.oldClear fun _ hl => ?_,
    fun _ _ => rfl, fun q r hq hr => (honly q hq).trans (honly r hr).symm⟩
  injection hl with hl
  exact hl.symm

theorem Pushers.of_none (h : Pushers occupy threads) (hnone : ¬ ∃ q, (threads q).clearing = true) (o : Bool) :
    Pushers o threads :=
  ⟨h.oldJostle, h.oldClear, fun q hq => absurd ⟨q, hq⟩ hnone, h.oneClear⟩

theorem Pushers.cleared (h : Pushers true threads) (hp : (threads p).clearing = true) :
    ¬ ∃ q, (update threads p .notify q).clearing = true := by
  intro ⟨q, hq⟩
  by_cases hqp : q = p
  · rw [hqp, update_self] at hq
    cases hq
  · rw [update_of_ne hqp] at hq
    exact hqp (h.oneClear q p hq hp)

end Threads

namespace Channel

variable {n : Nat} {s s' : Channel n}

structure Inv (s : Channel n) : Prop where
  fault : s.fault = false
  wf : s.data.Wf
  sequential : replay ChannelCall.apply none s.log = some s.data.content
  returned : s.log.filterMap ChannelCall.readValue = s.results ++ s.delivered.toList
  accounted : Accounted s.issued (s.log.filterMap ChannelCall.pushId) fun p => (s.threads p).owed
  pushers : Pushers s.data.occupy s.threads
  phase : Phase s.data s.jostlingValue s.delivered s.written (∀ p, (s.threads p).jostling = false)
    (∃ p, (s.threads p).clearing = true) s.spu
  awake : ∀ pop, s.spu = .asleep pop → s.written = true → ∃ p, (s.threads p).finishing = true

theorem inv_init : Inv ({} : Channel n) where
  fault := rfl
  wf := .empty
  sequential := rfl
  returned := rfl
  accounted := .init
  pushers := ⟨nofun, nofun, nofun, nofun⟩
  phase := ⟨rfl, rfl, nofun⟩
  awake := nofun

/-! ## The steps of `push` -/

variable {p : Fin n} {value : BitVec 32} {toOr : Bool}

theorem Inv.startPush (h : Inv s) (hs : s.startPush p value toOr = some s') : Inv s' := by
  unfold Channel.startPush at hs
  split at hs
  next hp =>
    cases hs
    have hj := flag_update (l := .op s.issued value toOr) PushAt.jostling hp rfl
    have hc := flag_update (l := .op s.issued value toOr) PushAt.clearing hp rfl
    have hf := flag_update (l := .op s.issued value toOr) PushAt.finishing hp rfl
    have hacc := h.accounted.issue (by rw [hp]; rfl)
    refine ⟨h.fault, h.wf, h.sequential, h.returned, ?_, h.pushers.move rfl nofun, ?_, ?_⟩
    · rw [owed_update]
      exact hacc
    · simp only [hj, hc]
      exact h.phase
    · simp only [hf]
      exact h.awake
  · cases hs

variable {id : Nat}

section

variable (h : Inv s)
include h

theorem Inv.enterJostle (hp : s.threads p = .op id value toOr) (ho : s.data.occupy = true) :
    Inv (s.setThread p (.jostle id value toOr s.data.wait)) := by
  have hw := h.wf.occupyWait ho
  have hc := flag_update (l := .jostle id value toOr s.data.wait) clearing hp rfl
  have hf := flag_update (l := .jostle id value toOr s.data.wait) finishing hp rfl
  refine ⟨h.fault, h.wf, h.sequential, h.returned, ?_, h.pushers.move rfl ?_, ?_, ?_⟩
  · have howed := owed_update_same (l := .jostle id value toOr s.data.wait) hp rfl
    simp only [setThread, howed]
    exact h.accounted
  · intro _ _ _ oldWait heq
    injection heq with _ _ _ heq
    rw [← heq, hw]
  · simp only [setThread, hc]
    exact h.phase.of_quiet (.inl ⟨ho, hw⟩) Iff.rfl
  · simp only [setThread, hf]
    exact h.awake

theorem Inv.retry {toOr oldWait : Bool}
    (hp : s.threads p = .jostle id value toOr oldWait) : Inv (s.setThread p (.op id value toOr)) := by
  have hc := flag_update (l := .op id value toOr) clearing hp rfl
  have hf := flag_update (l := .op id value toOr) finishing hp rfl
  refine ⟨h.fault, h.wf, h.sequential, h.returned, ?_, h.pushers.move rfl nofun, ?_, ?_⟩
  · have howed := owed_update_same (l := .op id value toOr) hp rfl
    simp only [setThread, howed]
    exact h.accounted
  · simp only [setThread, hc]
    apply h.phase.of_quiet (.inr fun hq => ?_) Iff.rfl
    have hpq := hq p
    rw [hp] at hpq
    cases hpq
  · simp only [setThread, hf]
    exact h.awake

theorem Inv.pushData
    (hp : s.threads p = .op id value toOr) (ho : s.data.occupy = false) : Inv (s.pushData p id value toOr) := by
  have hnone : ¬ ∃ q, (s.threads q).clearing = true := fun ⟨q, hq⟩ => by
    rw [h.pushers.clearing q hq] at ho
    cases ho
  have hl : ∀ b : Bool, (if b then PushAt.notify else .out).jostling = false ∧
      (if b then PushAt.notify else .out).clearing = false ∧ (if b then PushAt.notify else .out).owed = none := by decide
  have ⟨hlj, hlc, hlo⟩ := hl s.data.wait
  have hj := flag_update PushAt.jostling hp hlj
  have hc := flag_update PushAt.clearing hp hlc
  refine ⟨h.fault, .pushed value toOr, replay_concat h.sequential (h.wf.apply_push id value toOr), ?_, ?_, ?_, ?_, ?_⟩
  · show filterMap ChannelCall.readValue (s.log ++ [.push id value toOr]) = _
    rw [filterMap_append, h.returned]
    exact append_nil _
  · show Accounted _ (filterMap ChannelCall.pushId (s.log ++ [.push id value toOr])) fun q =>
      (update s.threads p (if s.data.wait then .notify else .out) q).owed
    rw [filterMap_append, owed_update, hlo]
    exact h.accounted.settle (by rw [hp]; rfl)
  · apply (h.pushers.of_none hnone _).move hlc
    intro _ _ _ _ heq
    rw [heq] at hlj
    cases hlj
  · simp only [Channel.pushData, hj, hc]
    exact h.phase.pushData ho value toOr
  · intro pop hpop _
    -- a sleeping SPU has set the waiting bit, or an earlier push has still to notify it
    cases hw : s.data.wait with
    | true => exact ⟨p, by simp only [Channel.pushData, hw, if_true, update_self]; rfl⟩
    | false =>
      have hphase := h.phase
      rw [show s.spu = .asleep pop from hpop] at hphase
      have hold := Phase.written_of_asleep h.wf.occupyWait hw hphase
      have ⟨q, hq⟩ := h.awake pop hpop hold
      refine ⟨q, ?_⟩
      have hqp : q ≠ p := fun hqp => by rw [hqp, hp] at hq; cases hq
      simp only [Channel.pushData, update_of_ne hqp]
      exact hq

theorem Inv.pushJostling {toOr oldWait : Bool}
    (hp : s.threads p = .jostle id value toOr oldWait) (hj : s.jostlingValue = none) :
    Inv (s.pushJostling p id value toOr oldWait) := by
  have hnq : ¬ ∀ q, (s.threads q).jostling = false := fun hq => by
    have hpq := hq p
    rw [hp] at hpq
    cases hpq
  have ⟨hspu, _, ho, hd, _, hnone⟩ := h.phase.offered hj hnq
  have hold := h.pushers.oldJostle p id value toOr oldWait hp
  subst hold
  have hempty := h.wf.content_of_wait (h.wf.occupyWait ho)
  have hclaimed : ∃ q, (update s.threads p (.clear true) q).clearing = true := ⟨p, by rw [update_self]; rfl⟩
  refine ⟨h.fault, h.wf, ?_, ?_, ?_, ?_, ?_, ?_⟩
  · -- the channel is empty, so the pop behind the push reads the value of the push
    have hpush : ChannelCall.apply s.data.content (.push id value toOr) = some (some value) := by
      rw [hempty]
      show some (some (if toOr then 0#32 ||| value else value)) = _
      rw [BitVec.zero_or, ite_self]
    have hpop : ChannelCall.apply (some value) (.pop value) = some s.data.content := by
      rw [hempty]
      simp only [ChannelCall.apply, if_true]
    have hlog := replay_concat (replay_concat h.sequential hpush) hpop
    rwa [append_assoc] at hlog
  · show filterMap ChannelCall.readValue (s.log ++ [.push id value toOr, .pop value]) = s.results ++ [value]
    rw [filterMap_append, h.returned, hd]
    exact congrArg (· ++ [value]) (append_nil s.results)
  · show Accounted _ (filterMap ChannelCall.pushId (s.log ++ [.push id value toOr, .pop value])) fun q =>
      (update s.threads p (.clear true) q).owed
    rw [filterMap_append, owed_update]
    exact h.accounted.settle (by rw [hp]; rfl)
  · show Pushers s.data.occupy (update s.threads p (.clear true))
    have hpush := h.pushers
    rw [ho] at hpush ⊢
    exact hpush.claim hnone
  · have hserved : Served s.data (some value) (some value) true
        (∃ q, (update s.threads p (.clear true) q).clearing = true) := ⟨value, rfl, rfl, rfl, fun _ => hclaimed⟩
    show Phase _ _ _ _ _ _ s.spu
    rcases hspu with hspu | hspu | hspu
    all_goals
      rw [hspu]
      exact .inr hserved
  · exact fun _ _ _ => ⟨p, by simp only [Channel.pushJostling, update_self]; rfl⟩

theorem Inv.clearWait {oldWait : Bool} (hp : s.threads p = .clear oldWait) : Inv (s.clearWait p oldWait) := by
  have hold := h.pushers.oldClear p oldWait hp
  have hcl : (s.threads p).clearing = true := by rw [hp]; rfl
  have ho := h.pushers.clearing p hcl
  have hw := h.wf.occupyWait ho
  have hpush := h.pushers
  rw [ho] at hpush
  have hnone := hpush.cleared hcl
  have hj := flag_update (l := .notify) PushAt.jostling hp rfl
  rw [Channel.clearWait, hw, hold, Bool.and_self, if_pos rfl]
  refine ⟨h.fault, h.wf.released, h.sequential, h.returned, ?_, ?_, ?_, ?_⟩
  · simp only [owed_update_same (l := .notify) hp rfl]
    exact h.accounted
  · exact (hpush.move (l := .notify) rfl nofun).of_none hnone _
  · simp only [hj]
    exact h.phase.clear ⟨p, hcl⟩ ho hw
  · exact fun _ _ _ => ⟨p, by simp only [update_self]; rfl⟩

theorem Inv.notify (hp : s.threads p = .notify) : Inv (s.notify p) := by
  have hj := flag_update (l := .out) PushAt.jostling hp rfl
  have hc := flag_update (l := .out) PushAt.clearing hp rfl
  refine ⟨h.fault, h.wf, h.sequential, h.returned, ?_, h.pushers.move rfl nofun, ?_, ?_⟩
  · simp only [Channel.notify, owed_update_same (l := .out) hp rfl]
    exact h.accounted
  · simp only [Channel.notify, hj, hc]
    have hphase := h.phase
    -- the same is known of an SPU that sleeps and of one that waits
    split
    next pop hspu =>
      rw [hspu] at hphase
      cases pop <;> exact hphase
    · exact hphase
  · intro pop hpop
    simp only [Channel.notify] at hpop
    split at hpop
    · cases hpop
    next hne =>
      exact absurd hpop (hne pop)

theorem Inv.pushStep (hs : s.pushStep p = some s') : Inv s' := by
  unfold Channel.pushStep at hs
  split at hs
  · cases hs
  next id value toOr hp =>
    split_ifs at hs with ho
    · exact some.inj hs ▸ h.enterJostle hp ho
    · exact some.inj hs ▸ h.pushData hp (eq_false_iff.mpr ho)
  next id value toOr oldWait hp =>
    split_ifs at hs with hj
    · exact some.inj hs ▸ h.pushJostling hp hj
    · exact some.inj hs ▸ h.retry hp
  next oldWait hp =>
    exact some.inj hs ▸ h.clearWait hp
  next hp =>
    exact some.inj hs ▸ h.notify hp

/-! ## The steps of `pop_wait` -/

theorem Inv.logRead (hd : s.delivered = none) {c : ChannelCall} {v : BitVec 32}
    (hread : c.readValue = some v) (hpush : c.pushId = none) :
    (s.log ++ [c]).filterMap ChannelCall.readValue = s.results ++ [v] ++ s.delivered.toList ∧
      Accounted s.issued ((s.log ++ [c]).filterMap ChannelCall.pushId) fun p => (s.threads p).owed := by
  have hret := h.returned
  have hacc := h.accounted
  simp only [hd, toList_none, append_nil] at hret ⊢
  simp only [filterMap_append, filterMap_cons, filterMap_nil, hread, hpush, hret, append_nil]
  exact ⟨trivial, hacc⟩

theorem Inv.peek (hc : s.data.count = true) (hd : s.delivered = none)
    (hphase : Still s.data s.jostlingValue s.delivered (∀ p, (s.threads p).jostling = false)) :
    Inv { s with spu := .out, log := s.log ++ [.peek s.data.value], results := s.results ++ [s.data.value] } := by
  have hread : ChannelCall.apply s.data.content (.peek s.data.value) = some s.data.content := by
    simp only [ChannelCall.apply, content, hc, if_true]
  have ⟨hret, hacc⟩ := h.logRead hd (c := .peek s.data.value) rfl rfl
  exact ⟨h.fault, h.wf, replay_concat h.sequential hread, hret, hacc, h.pushers, hphase, nofun⟩

theorem Inv.load
    (hphase : Still s.data s.jostlingValue s.delivered (∀ p, (s.threads p).jostling = false)) (pop : Bool) :
    Inv (s.load pop) := by
  unfold Channel.load
  split_ifs with hc
  · exact h.peek (and_eq_true_iff.mp hc).1 hphase.2.1 hphase
  refine { h with phase := ⟨hphase, fun hcount => ?_⟩, awake := nofun }
  cases pop with
  | true => rfl
  | false => exact absurd (by rw [hcount]; rfl) hc

theorem Inv.evaluate {old : ChannelData} (hspu : s.spu = .loaded pop old)
    (hquiet : pop = true → old.count = false → ∀ p, (s.threads p).jostling = false) : Inv (s.evaluate pop old) := by
  have hphase := h.phase
  rw [hspu] at hphase
  have ⟨⟨hw, hd, hj⟩, hpop⟩ := hphase
  refine { h with phase := ⟨⟨hw, hd, ?_⟩, hpop, ?_⟩, awake := nofun }
  · -- what is offered now cannot be taken before the word is marked
    show (if pop && !old.count then none else s.jostlingValue) = none → _
    cases hp : pop with
    | false => exact hj
    | true =>
      cases hc : old.count with
      | true => exact hj
      | false => exact fun _ => hquiet hp hc
  · intro hc hp
    show (if pop && !old.count then none else s.jostlingValue) = none
    rw [hc, hp]
    rfl

theorem Inv.commit {old : ChannelData} (hspu : s.spu = .evaluated pop old) : Inv (s.commit pop old) := by
  have hphase := h.phase
  rw [hspu] at hphase
  have ⟨hstill, hcount, hoffer⟩ := hphase
  have ⟨hw, hd, hj⟩ := hstill
  have ho := h.wf.not_occupied hw
  have hnone : ¬ ∃ q, (s.threads q).clearing = true := fun ⟨q, hq⟩ => by
    rw [h.pushers.clearing q hq] at ho
    cases ho
  unfold Channel.commit
  split
  next hdata =>
    split_ifs with hc
    · have hread : ChannelCall.apply s.data.content (.pop old.value) = some none := by
        simp only [ChannelCall.apply, ChannelData.content, hdata, hc, if_true]
      have ⟨hret, hacc⟩ := h.logRead hd (c := .pop old.value) rfl rfl
      exact ⟨h.fault, .empty, replay_concat h.sequential hread, hret, hacc, h.pushers.of_none hnone _, ⟨rfl, hd, hj⟩,
        nofun⟩
    · have hc := eq_false_iff.mpr hc
      have hempty : s.data.content = (ChannelData.awaiting pop).content := by
        rw [ChannelData.content, hdata, hc]
        rfl
      refine ⟨h.fault, .awaiting pop, hempty ▸ h.sequential, h.returned, h.accounted, h.pushers.of_none hnone _, ?_,
        nofun⟩
      cases hp : pop with
      | true => exact .inl ⟨hoffer hc hp, rfl, hd, rfl, hnone⟩
      | false => exact ⟨hd, rfl, hj, .inl ⟨rfl, rfl⟩⟩
  · exact h.load hstill pop

theorem Inv.take (hspu : s.spu = .take pop) : Inv (s.take pop) := by
  have hphase := h.phase
  rw [hspu] at hphase
  cases pop with
  | true =>
    have ⟨v, hj, hd, hw⟩ := hphase
    refine ⟨h.fault, h.wf, h.sequential, ?_, h.accounted, h.pushers, ⟨hw, rfl, nofun⟩, nofun⟩
    show filterMap ChannelCall.readValue s.log = s.results ++ [s.jostlingValue.getD 0] ++ []
    rw [h.returned, hd, hj]
    exact (append_nil _).symm
  | false =>
    have ⟨hd, hw, hj, hc⟩ := hphase
    exact h.peek hc hd ⟨hw, hd, hj⟩

theorem Inv.abort (hspu : s.spu = .aborting pop) : Inv (s.abort pop) := by
  have hphase := h.phase
  rw [hspu] at hphase
  cases pop with
  | true =>
    unfold abort
    rw [if_pos rfl]
    split
    next v hj =>
      refine { h with phase := ?_, awake := nofun }
      rcases hphase with hoff | ⟨w, hw, hd, _, hclaim⟩
      · rw [hoff.1] at hj
        cases hj
      · rw [hw] at hj
        exact ⟨⟨0, rfl⟩, (by rw [hd, hj]), hclaim⟩
    next hj =>
      refine { h with phase := ?_, awake := nofun }
      rcases hphase with hoff | ⟨w, hw, _⟩
      · exact ⟨⟨0, rfl⟩, hoff.2.2.1, hoff.2.1, hoff.2.2.2.2⟩
      · rw [hw] at hj
        cases hj
  | false =>
    have ⟨hd, ho, hj, hwait⟩ := hphase
    have hwf : ChannelData.Wf { s.data with wait := false } :=
      ⟨fun hocc => absurd (hocc.symm.trans ho) (by decide), nofun, h.wf.emptyZero⟩
    exact ⟨h.fault, hwf, h.sequential, h.returned, h.accounted, h.pushers, ⟨rfl, hd, hj⟩, nofun⟩

theorem Inv.returnReceived (hspu : s.spu = .received value) : Inv (s.returnReceived value) := by
  unfold Channel.returnReceived
  split_ifs with hw
  · exact h
  have hphase := h.phase
  rw [hspu] at hphase
  have ⟨⟨w, hj⟩, hd, _⟩ := hphase
  refine ⟨h.fault, h.wf, h.sequential, ?_, h.accounted, h.pushers, ⟨eq_false_iff.mpr hw, rfl, fun hn => ?_⟩, nofun⟩
  · rw [h.returned, hd]
    exact (append_nil _).symm
  · rw [hj] at hn
    cases hn

theorem Inv.withdraw (hspu : s.spu = .withdraw) : Inv s.withdraw := by
  have hphase := h.phase
  rw [hspu] at hphase
  have ⟨⟨w, hj⟩, hd, ho, hnone⟩ := hphase
  unfold Channel.withdraw
  rw [if_pos (h.wf.occupyWait ho)]
  refine ⟨h.fault, h.wf.released, h.sequential, h.returned, h.accounted, h.pushers.of_none hnone _, ⟨rfl, hd, fun hn => ?_⟩,
    nofun⟩
  rw [hj] at hn
  cases hn

theorem Inv.popStep (hC : OffersAlone s .pop) (hs : s.popStep = some s') : Inv s' := by
  unfold Channel.popStep at hs
  split at hs
  · cases hs
  · cases hs
  · cases hs
  next pop old hspu =>
    refine some.inj hs ▸ h.evaluate hspu fun hp hc => ?_
    rw [hp] at hspu
    exact hC old hspu hc
  next pop old hspu =>
    exact some.inj hs ▸ h.commit hspu
  next pop hspu =>
    exact some.inj hs ▸ h.take hspu
  next pop hspu =>
    exact some.inj hs ▸ h.abort hspu
  next value hspu =>
    exact some.inj hs ▸ h.returnReceived hspu
  next hspu =>
    exact some.inj hs ▸ h.withdraw hspu

theorem Inv.startPop (hs : s.startPop pop = some s') : Inv s' := by
  unfold Channel.startPop at hs
  split at hs
  next hspu =>
    have hphase := h.phase
    rw [hspu] at hphase
    exact some.inj hs ▸ h.load hphase pop
  · cases hs

theorem Inv.check (hs : s.check = some s') : Inv s' := by
  unfold Channel.check at hs
  split at hs
  next pop hspu =>
    have hphase := h.phase
    rw [hspu] at hphase
    split_ifs at hs with hw
    · exact some.inj hs ▸ h
    refine some.inj hs ▸ { h with phase := ?_, awake := nofun }
    have hw := eq_false_iff.mpr hw
    have ho := h.wf.not_occupied hw
    cases pop with
    | true =>
      rcases hphase with hoff | ⟨v, hj, hd, _⟩
      · exact absurd (hoff.2.1.symm.trans ho) (by decide)
      · exact ⟨v, hj, hd, hw⟩
    | false =>
      have ⟨hd, _, hj, hwait⟩ := hphase
      rcases hwait with ⟨hwt, _⟩ | ⟨_, hc, _⟩
      · exact absurd (hwt.symm.trans hw) (by decide)
      · exact ⟨hd, hw, hj, hc⟩
  · cases hs

theorem Inv.seen (hspu : s.spu = .waiting pop) (hwr : s.written = true)
    (hw : s.data.wait = true) : ∃ p, (s.threads p).clearing = true := by
  have hphase := h.phase
  rw [hspu] at hphase
  cases pop with
  | true =>
    rcases hphase with hoff | ⟨_, _, _, _, hclaim⟩
    · exact absurd (hoff.2.2.2.1.symm.trans hwr) (by decide)
    · exact hclaim hw
  | false =>
    have ⟨_, _, _, hwait⟩ := hphase
    rcases hwait with ⟨_, hno⟩ | ⟨hno, _⟩
    · exact absurd (hno.symm.trans hwr) (by decide)
    · exact absurd (hno.symm.trans hw) (by decide)

theorem Inv.sleep (hs : s.sleep = some s') : Inv s' := by
  unfold Channel.sleep at hs
  split at hs
  next pop hspu =>
    have hphase := h.phase
    rw [hspu] at hphase
    split_ifs at hs with hw
    · refine some.inj hs ▸ { h with phase := ?_, awake := ?_ }
      · cases pop <;> exact hphase
      intro pop' _ hwr
      have ⟨p, hp⟩ := h.seen hspu hwr hw.1
      refine ⟨p, ?_⟩
      cases hl : s.threads p with
      | clear => rfl
      | out | op | jostle | notify => rw [hl] at hp; cases hp
    · exact some.inj hs ▸ h
  · cases hs

theorem Inv.wake (hs : s.wake = some s') : Inv s' := by
  unfold Channel.wake at hs
  split at hs
  next pop hspu =>
    have hphase := h.phase
    rw [hspu] at hphase
    refine some.inj hs ▸ { h with phase := ?_, awake := nofun }
    cases pop <;> exact hphase
  · cases hs

theorem Inv.stop (hs : s.stop = some s') : Inv s' := by
  unfold Channel.stop at hs
  split at hs
  next pop hspu =>
    have hphase := h.phase
    rw [hspu] at hphase
    split at hs
    · refine some.inj hs ▸ { h with phase := ?_, awake := nofun }
      cases pop <;> exact hphase
    · cases hs
  · cases hs

theorem inv_step {e : ChannelEvent n} (hC : OffersAlone s e) (hs : s.step e = some s') : Inv s' := by
  cases e with
  | startPush => exact h.startPush hs
  | push => exact h.pushStep hs
  | startPop => exact h.startPop hs
  | pop => exact h.popStep hC hs
  | check => exact h.check hs
  | sleep => exact h.sleep hs
  | wake => exact h.wake hs
  | stop => exact h.stop hs

theorem Inv.safe : ChannelSafe s where
  sequential := by rw [h.sequential]; rfl
  __ := h
  complete := fun hspu => by
    have hphase := h.phase
    rw [hspu] at hphase
    exact hphase.2.1
  ensures := h.fault
  seen := fun _ hspu hwr hw => h.seen hspu hwr hw

end

end Channel

/-- As long as `jostling_value` is offered only when no delayed push can take it, every call takes effect once and the
SPU receives what was written. -/
theorem channel_safe {n : Nat} {s : Channel n} (hs : ((channelSystem n).restrict OffersAlone).Reachable s) :
    ChannelSafe s := by
  have hinv : s.Inv := by
    apply hs.invariant
    · intro s hinit
      have hs := hinit
      rw [hs]
      exact inv_init
    · intro s e s' h hstep
      have ⟨hC, hstep⟩ := System.step_restrict.mp hstep
      exact inv_step h hC hstep
  exact hinv.safe

theorem channelSystem_init (n : Nat) : (channelSystem n).init {} := rfl

/-- The SPU waits, a push serves it while another one retries, and both values are returned. -/
theorem channel_safe_two_pushes : ∃ s : Channel 2, ((channelSystem 2).restrict OffersAlone).Reachable s ∧
    s.results = [7, 8] ∧ ChannelSafe s :=
  System.Reachable.exists_of_run_and channel_safe (channelSystem_init 2)
    [.startPop true, .pop, .pop, .sleep, .startPush 0 7 false, .startPush 1 8 true, .push 0, .push 1, .push 0, .push 1,
      .push 0, .push 1, .push 0, .check, .pop, .startPop true, .pop, .pop] (by decide +kernel)

/-- The second thread sees the first wait, and takes the offer of the second one before the word is marked: its check
of the waiting bit fails. -/
theorem channel_ensure_fails : ∃ s : Channel 2, (channelSystem 2).Reachable s ∧ s.results = [7] ∧ ¬ ChannelSafe s := by
  have ⟨s, hs, hr, hf⟩ := System.Reachable.exists_of_run (channelSystem_init 2)
    [.startPop true, .pop, .pop, .startPush 0 7 false, .startPush 1 8 false, .push 0, .push 1, .push 0, .push 0,
      .check, .pop, .startPop true, .pop, .push 1, .push 1]
    (fun s => s.results = [7] ∧ s.fault = true) (by decide +kernel)
  exact ⟨s, hs, hr, fun hsafe => absurd (hf.symm.trans hsafe.ensures) (by decide)⟩

end Armsx3.Cell
