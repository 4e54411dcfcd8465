import Armsx3.Lv2.EventFlagCalls
import Armsx3.Lv2.EventFlagSet
import Armsx3.Lv2.Waiters

/-!
# Nobody waits for what is there

When the mutex of a flag is free no waiter is satisfied by its pattern.  Outside a call of `sys_event_flag_set` the
pattern only loses bits.  The commit of a set satisfies waiters that are still linked, and the loop that follows takes
them out before the mutex is given back.
-/

namespace Armsx3.Lv2.EventFlag

open Transition Bits Function Holder List Option Pc

def Pc.sleeps : Pc → Prop
  | .sleeping _ => True
  | _ => False

def Pc.waits : Pc → Prop
  | .sleeping _ | .timedOut | .timedOutEmpty | .timedOutLock => True
  | _ => False

def Pc.entering : Pc → Prop
  | .waitFetch _ | .waitLock _ => True
  | _ => False

def CritOk : Crit → Pc → Prop
  | .wait timed, p | .waitSleep timed, p => p = .waitLock timed
  | .unqueue, p => p = .timedOutLock
  | .setLoad bitptn, p | .setPass bitptn _, p | .setCommit bitptn _ _ _ _, p => p = .setLock bitptn
  | .setRemove, p | .setAwake _, p => ∃ bitptn, p = .setLock bitptn
  | .cancelLoad, p | .cancel _ _ _, p => p = .cancelLock

def appended : Option (Tid × Crit) → List Tid
  | some (_, .setAwake appended) | some (_, .cancel _ _ appended) => appended
  | _ => []

section Phase

variable (sq : List Tid) (args : Tid → Args) (gpr3 : Tid → Option CellError) (x : BitVec 64)

def Settled : Prop := ∀ t ∈ sq, gpr3 t = none ∧ ¬ (args t).satisfied x

/-- The state of a set between its snapshot `p` and its commit: abandoned passes may have left
verdicts. -/
structure Snapshot (p : BitVec 64) : Prop where
  sub : Sub x p
  unsatisfied : ∀ t ∈ sq, ¬ (args t).satisfied p
  verdict : ∀ t ∈ sq, gpr3 t = none ∨ gpr3 t = some .ok

def Removable : Prop :=
  ∀ t ∈ sq, gpr3 t = some .ok ∨ (gpr3 t = none ∧ ¬ (args t).satisfied x)

/-- The pass that was made can be committed to any pattern below its snapshot. -/
def Committable (b p toWrite dependantMask : BitVec 64) (count : Nat) : Prop :=
  ∀ y y' gpr6, Sub y p → commit b p ⟨toWrite, dependantMask, count, gpr3, gpr6⟩ y = some y' →
      if count = 0 then Settled sq args gpr3 y' else Removable sq args gpr3 y'

def Phase : Option (Tid × Crit) → Prop
  | some (t, .waitSleep _) => Settled sq args gpr3 x ∧ ¬ (args t).satisfied x
  | some (_, .setPass _ p) => Snapshot sq args gpr3 x p
  | some (_, .setCommit b p toWrite dependantMask count) =>
    Snapshot sq args gpr3 x p ∧ Committable sq args gpr3 b p toWrite dependantMask count
  | some (_, .setRemove) => Removable sq args gpr3 x
  | _ => Settled sq args gpr3 x

end Phase

structure Inv (s : State) : Prop where
  waiters : Waiters s.sq s.handed (appended s.mutex) s.sched (fun t => (s.pc t).sleeps)
    (fun t => (s.pc t).waits)
  crit_ok : ∀ t k, s.mutex = some (t, k) → CritOk k (s.pc t)
  saw_empty : ∀ t, s.pc t = .timedOutEmpty → t ∈ s.handed
  entering : ∀ t, (s.pc t).entering → s.gpr3 t = none
  phase : Phase s.sq s.args s.gpr3 s.pattern s.mutex

/-! ## The pattern loses bits -/

section Frame

variable {sq : List Tid} {args args' : Tid → Args} {gpr3 gpr3' : Tid → Option CellError} {x x' : BitVec 64}

theorem Settled.frame (h : Settled sq args gpr3 x) (hsub : Sub x' x)
    (hsame : ∀ t ∈ sq, args' t = args t ∧ gpr3' t = gpr3 t) : Settled sq args' gpr3' x' := by
  intro t ht
  rw [(hsame t ht).1, (hsame t ht).2]
  exact ⟨(h t ht).1, fun hs => (h t ht).2 (Args.satisfied_mono hsub hs)⟩

theorem Removable.frame (h : Removable sq args gpr3 x) (hsub : Sub x' x)
    (hsame : ∀ t ∈ sq, args' t = args t ∧ gpr3' t = gpr3 t) : Removable sq args' gpr3' x' := by
  intro t ht
  rw [(hsame t ht).1, (hsame t ht).2]
  rcases h t ht with hok | hno
  · exact .inl hok
  · exact .inr ⟨hno.1, fun hs => hno.2 (Args.satisfied_mono hsub hs)⟩

theorem Snapshot.frame {p : BitVec 64} (h : Snapshot sq args gpr3 x p) (hsub : Sub x' x)
    (hsame : ∀ t ∈ sq, args' t = args t ∧ gpr3' t = gpr3 t) : Snapshot sq args' gpr3' x' p where
  sub := hsub.trans h.sub
  unsatisfied := fun t ht => (hsame t ht).1 ▸ h.unsatisfied t ht
  verdict := fun t ht => (hsame t ht).2 ▸ h.verdict t ht

theorem Committable.frame {b p toWrite dependantMask : BitVec 64} {count : Nat}
    (h : Committable sq args gpr3 b p toWrite dependantMask count)
    (hsame : ∀ t ∈ sq, args' t = args t ∧ gpr3' t = gpr3 t) :
    Committable sq args' gpr3' b p toWrite dependantMask count := by
  intro y y' gpr6 hsub hcommit
  have hold := h y y' gpr6 hsub hcommit
  split_ifs at hold with hzero
  · rw [if_pos hzero]
    exact hold.frame (Sub.refl y') hsame
  · rw [if_neg hzero]
    exact hold.frame (Sub.refl y') hsame

theorem Phase.frame {m : Option (Tid × Crit)} (h : Phase sq args gpr3 x m) (hsub : Sub x' x)
    (hsame : ∀ t, (t ∈ sq ∨ ∃ k, m = some (t, k)) → args' t = args t ∧ gpr3' t = gpr3 t) :
    Phase sq args' gpr3' x' m := by
  have hqueue := fun t ht => hsame t (.inl ht)
  unfold Phase at *
  split at h
  next t timed =>
    refine ⟨h.1.frame hsub hqueue, fun hs => h.2 ?_⟩
    rw [(hsame t (.inr ⟨_, rfl⟩)).1] at hs
    exact Args.satisfied_mono hsub hs
  · exact Snapshot.frame h hsub hqueue
  · exact ⟨h.1.frame hsub hqueue, h.2.frame hqueue⟩
  · exact Removable.frame h hsub hqueue
  · exact Settled.frame h hsub hqueue

end Frame

theorem checkPattern_sub {x y : BitVec 64} {a : Args} (h : checkPattern x a = some y) : Sub y x := by
  rw [checkPattern_eq] at h
  split at h
  · cases h
    exact Sub.and_left _ _
  · cases h

/-! ## A pass and its commit -/

theorem examine_gpr3 (args : Tid → Args) (b : BitVec 64) (ts : List Tid) (q : Pass) (t : Tid)
    (ht : q.gpr3 t = none ∨ q.gpr3 t = some .ok) :
    (examine args b ts q).gpr3 t = none ∨ (examine args b ts q).gpr3 t = some .ok := by
  induction ts generalizing q with
  | nil => exact ht
  | cons u ts ih =>
    rw [examine]
    split
    · have haccept : ∀ mask toWrite, (q.accept u mask toWrite).gpr3 t = none ∨
          (q.accept u mask toWrite).gpr3 t = some .ok := by
        intro mask toWrite
        simp only [Pass.accept, update_apply]
        split
        · exact .inr rfl
        · exact ht
      split
      · exact haccept 0 0
      · exact ih _ (haccept _ _)
    · apply ih
      simp only [Pass.reject, update_apply]
      split
      · exact .inl rfl
      · exact ht

variable {ts : List Tid} {t : Tid}

theorem examine_gpr3_of_not_mem {args : Tid → Args} {b : BitVec 64} {q : Pass} (ht : t ∉ ts) :
    (examine args b ts q).gpr3 t = q.gpr3 t := by
  induction ts generalizing q with
  | nil => rfl
  | cons u ts ih =>
    have hne : t ≠ u := fun hut => ht (hut ▸ mem_cons_self)
    have hts := fun hin => ht (mem_cons_of_mem u hin)
    rw [examine]
    split
    · split
      · exact update_of_ne hne _ _
      · rw [ih hts]
        exact update_of_ne hne _ _
    · rw [ih hts]
      exact update_of_ne hne _ _

/-- After a pass from the snapshot, its commit leaves a waiter without the verdict `CELL_OK` only
if the pattern it leaves does not satisfy the waiter. -/
theorem committable_pass {sq order : List Tid} {args : Tid → Args}
    {gpr3 : Tid → Option CellError} {gpr6 : Tid → BitVec 64} {x p b : BitVec 64}
    (h : Snapshot sq args gpr3 x p) (hnd : order.Nodup) (hmem : ∀ t, t ∈ order ↔ t ∈ sq) :
    Committable sq args (pass args b order p gpr3 gpr6).gpr3 b p
      (pass args b order p gpr3 gpr6).toWrite (pass args b order p gpr3 gpr6).dependantMask
      (pass args b order p gpr3 gpr6).count := by
  intro y y' gpr6' hsub hcommit
  have hunsat := fun t ht => h.unsatisfied t ((hmem t).mp ht)
  have hspec := pass_verdicts (b := b) 0 gpr3 gpr6 hnd hunsat
  rcases pass_spec (b := b) gpr3 gpr6 hnd hsub hunsat with ⟨_, hnone⟩ | ⟨_, hsame, hy'⟩
  · cases hcommit.symm.trans hnone
  cases hcommit.symm.trans hy'
  have hverdict : ∀ t ∈ sq, (pass args b order p gpr3 gpr6).gpr3 t = none ∨
      (pass args b order p gpr3 gpr6).gpr3 t = some .ok :=
    fun t ht => examine_gpr3 args b order _ t (h.verdict t ht)
  have hleft : ∀ t ∈ sq, t ∉ (evaluate args (p ||| b) order).2 →
      ¬ (args t).satisfied (evaluate args (y ||| b) order).1 := by
    intro t ht hne
    exact evaluate_unsatisfied args _ order ((hmem t).mpr ht) (hsame ▸ hne)
  split
  next hzero =>
    -- nobody is satisfied, and every waiter was examined
    have hnil := length_eq_zero_iff.mp ((hspec.count.trans (Nat.zero_add _)).symm.trans hzero)
    intro t ht
    have hin : t ∈ examined args (p ||| b) order := by
      rw [examined_of_none _ _ _ hnil]
      exact (hmem t).mpr ht
    refine ⟨(hverdict t ht).resolve_right fun hv => ?_, hleft t ht (hnil ▸ not_mem_nil)⟩
    rcases (hspec.gpr3 t).mp hv with hin' | hout
    · rw [hnil] at hin'
      cases hin'
    · exact hout.1 hin
  · intro t ht
    refine (hverdict t ht).symm.imp_right fun hv => ⟨hv, hleft t ht fun hin => ?_⟩
    cases hv.symm.trans ((hspec.gpr3 t).mpr (.inl hin))

/-! ## Threads outside the queue -/

variable {p : Pc}

theorem Pc.waits_of_sleeps (h : p.sleeps) : p.waits := by
  cases p <;> first | exact h.elim | trivial

theorem Pc.ne_timedOutEmpty (h : ¬ p.waits) : p ≠ .timedOutEmpty := by
  intro hp
  rw [hp] at h
  exact h trivial

def Crit.simple : Crit → Prop
  | .wait _ | .unqueue | .setLoad _ | .cancelLoad => True
  | _ => False

structure Quiet (mutex : Option (Tid × Crit)) : Prop where
  appended : appended mutex = []
  phase : ∀ sq args gpr3 x, Phase sq args gpr3 x mutex ↔ Settled sq args gpr3 x

theorem Quiet.free : Quiet none := ⟨rfl, fun _ _ _ _ => Iff.rfl⟩

variable {k : Crit}

theorem Quiet.of_simple (hk : k.simple) : Quiet (some (t, k)) := by
  cases k <;> first | exact hk.elim | exact ⟨rfl, fun _ _ _ _ => Iff.rfl⟩

variable {gpr3' : Tid → Option CellError} {gpr6' result' : Tid → BitVec 64} {num' : Tid → Nat}

section Outside

variable {s : State} (h : Inv s) {t : Tid}
include h

theorem Inv.crit_update (hfree : ∀ k, s.mutex ≠ some (t, k)) (p : Pc) :
    ∀ u k, s.mutex = some (u, k) → CritOk k (update s.pc t p u) :=
  moved h.crit_ok hfree p

theorem Inv.outside {x : BitVec 64} {args' : Tid → Args} {q : Pc} (hfree : ∀ k, s.mutex ≠ some (t, k))
    (hpc : s.pc t = q) (hold : ¬ q.waits) (hnew : ¬ p.waits) (hx : Sub x s.pattern)
    (hargs : ∀ u, u ≠ t → args' u = s.args u) (hgpr3 : ∀ u, u ≠ t → gpr3' u = s.gpr3 u)
    (hentering : p.entering → gpr3' t = none) :
    Inv { s with pattern := x, pc := update s.pc t p, args := args', gpr3 := gpr3'
                 gpr6 := gpr6', result := result', num := num' } where
  waiters := h.waiters.congr
    (update_iff (fun hs => hold (hpc ▸ waits_of_sleeps hs))
      (fun hs => hnew (waits_of_sleeps hs)))
    (update_iff (hpc ▸ hold) hnew)
  crit_ok := h.crit_update hfree p
  saw_empty := at_update h.saw_empty fun hp => absurd hp (ne_timedOutEmpty hnew)
  entering := by
    intro u hu
    change (update s.pc t p u).entering at hu
    show gpr3' u = none
    by_cases hut : u = t
    · rw [hut] at hu ⊢
      rw [update_self] at hu
      exact hentering hu
    · rw [update_of_ne hut] at hu
      rw [hgpr3 u hut]
      exact h.entering u hu
  phase := by
    apply h.phase.frame hx
    intro u hu
    have hut : u ≠ t := by
      intro hut
      rcases hu with hu | ⟨k, hk⟩
      · exact (h.waiters.not_mem (hpc ▸ hold)).1 (hut ▸ hu)
      · exact hfree k (hut ▸ hk)
    exact ⟨hargs u hut, hgpr3 u hut⟩

theorem Inv.setMutex {mutex : Option (Tid × Crit)} (hold : Quiet s.mutex) (hnew : Quiet mutex)
    (hcrit : ∀ t k, mutex = some (t, k) → CritOk k (s.pc t)) : Inv { s with mutex := mutex } :=
  { h with
    waiters := by
      have hw := h.waiters
      rw [hold.appended] at hw
      rw [hnew.appended]
      exact hw
    crit_ok := hcrit
    phase := (hnew.phase _ _ _ _).mpr ((hold.phase _ _ _ _).mp h.phase) }

theorem Inv.lock (hm : s.mutex = none) (hsimple : k.simple) (hk : CritOk k (s.pc t)) :
    Inv { s with mutex := some (t, k) } :=
  h.setMutex (hm ▸ Quiet.free) (Quiet.of_simple hsimple) (entered hk)

theorem Inv.unlock (hq : Quiet s.mutex) : Inv { s with mutex := none } :=
  h.setMutex hq Quiet.free fun _ _ hu => by cases hu

theorem Inv.unlockRet {x : BitVec 64} {e : CellError} {q : Pc} (hq : Quiet s.mutex) (hpc : s.pc t = q)
    (hold : ¬ q.waits) (hx : Sub x s.pattern) :
    Inv { s with pattern := x, mutex := none, pc := update s.pc t .idle
                 gpr3 := update s.gpr3 t (some e), gpr6 := gpr6', result := result'
                 num := num' } :=
  (h.unlock hq).outside nofun hpc hold id hx (fun _ _ => rfl)
    (fun _ hu => update_of_ne hu _ _) False.elim

end Outside

/-! ## The wait loop -/

variable {timed : Bool}

section Waiting

variable {s : State} (h : Inv s) {t : Tid}
include h

theorem Inv.free_of_waits (ht : (s.pc t).waits) (hlock : s.pc t ≠ .timedOutLock) (k : Crit) :
    s.mutex ≠ some (t, k) := by
  intro hm
  have hk := h.crit_ok t k hm
  cases k <;> simp only [CritOk] at hk
  case unqueue => exact hlock hk
  case setRemove => have ⟨b, hk⟩ := hk; rw [hk] at ht; exact ht
  case setAwake => have ⟨b, hk⟩ := hk; rw [hk] at ht; exact ht
  all_goals rw [hk] at ht; exact ht

theorem Inv.retWaiter {sched : Sched} (hfree : ∀ k, s.mutex ≠ some (t, k))
    (hwait : Waiters s.sq (s.handed.erase t) (appended s.mutex) sched
      (fun u => (update s.pc t .idle u).sleeps)
      (fun u => (update s.pc t .idle u).waits)) :
    Inv ({ s with sched := sched }.retWaiter t) where
  waiters := hwait
  crit_ok := h.crit_update hfree .idle
  saw_empty := by
    intro u hu
    have hold := of_update (by simp) hu
    exact (mem_erase_of_ne hold.2).mpr (h.saw_empty u hold.1)
  entering := fun u hu => h.entering u ((update_iff_and id u).mp hu).1
  phase := h.phase

theorem inv_wake (hpc : s.pc t = .sleeping timed)
    (hsig : s.sched.signal t = true) : Inv ({ s with sched := s.sched.resetSignal t }.retWaiter t) := by
  have hfree := h.free_of_waits (by rw [hpc]; trivial) (by rw [hpc]; simp)
  apply h.retWaiter hfree
  exact h.waiters.wake hsig (update_iff_and id) (update_iff_and id)

theorem inv_leave (hm : s.mutex = none) (hrel : t ∈ s.handed) (hs : ¬ (s.pc t).sleeps) : Inv (s.retWaiter t) := by
  apply h.retWaiter (free hm)
  have hw := h.waiters
  rw [hm] at hw ⊢
  exact (hw.leave hrel hs (update_iff_and id)).congr (update_iff hs id) fun u => Iff.rfl

theorem Inv.timedOut {sched : Sched} (hfree : ∀ k, s.mutex ≠ some (t, k))
    (ht : (s.pc t).waits) (hp : p.waits) (hempty : p = .timedOutEmpty → t ∈ s.handed)
    (hwait : Waiters s.sq s.handed (appended s.mutex) sched
      (fun u => (update s.pc t p u).sleeps) (fun u => (s.pc u).waits)) :
    Inv ({ s with sched := sched }.goto t p) where
  waiters := hwait.congr (fun u => Iff.rfl) (update_congr (iff_of_true ht hp))
  crit_ok := h.crit_update hfree p
  saw_empty := at_update h.saw_empty hempty
  entering := by
    have hnot : ¬ p.entering := fun he => by cases p <;> first | exact he | exact hp
    exact fun u hu => h.entering u ((update_iff_and hnot u).mp hu).1
  phase := h.phase

theorem Inv.handed_of_not_mem (ht : (s.pc t).waits) (hnot : t ∉ s.sq) : t ∈ s.handed := by
  rcases h.waiters.queue_or_released ht with hin | hin
  · exact absurd hin.1 hnot
  · exact hin.2

end Waiting

/-! ## The critical sections -/

section Crit

variable {c : Attr} {s : State} (h : Inv s) {t : Tid}
include h

theorem inv_wait (hm : s.mutex = some (t, .wait timed)) : Inv (runCrit c s t (.wait timed)) := by
  have hpc := h.crit_ok t _ hm
  have hnot : ¬ (s.pc t).waits := by rw [hpc]; exact id
  have hq : Quiet s.mutex := by rw [hm]; exact Quiet.of_simple trivial
  have hsettled := (hq.phase _ _ _ _).mp h.phase
  have hcheck := checkPattern_eq s.pattern (s.args t)
  rw [runCrit]
  split
  next x hx =>
    exact h.unlockRet hq rfl hnot (checkPattern_sub hx)
  rename_i hx
  have hunsat : ¬ (s.args t).satisfied s.pattern := by
    intro hs
    rw [hcheck, if_pos hs] at hx
    cases hx
  have hw := h.waiters
  rw [hm] at hw
  exact
  { h with
    waiters := hw
    crit_ok := entered hpc
    phase := ⟨hsettled, hunsat⟩ }

theorem inv_waitSleep (hm : s.mutex = some (t, .waitSleep timed)) : Inv (runCrit c s t (.waitSleep timed)) := by
  have hpc := h.crit_ok t _ hm
  have hphase := h.phase
  have hw := h.waiters
  rw [hm] at hphase hw
  have hsettled := hphase.1
  have hfree : Inv { s with mutex := none } :=
    { h with
      waiters := hw
      crit_ok := left
      phase := hsettled }
  rw [runCrit]
  split
  · -- `SYS_SYNC_WAITER_SINGLE`
    exact hfree.unlockRet Quiet.free hpc id (Sub.refl _)
  exact
  { waiters := hw.emplace (by rw [hpc]; exact id) (update_iff_or trivial)
      (update_iff_or trivial)
    crit_ok := left
    saw_empty := at_update h.saw_empty nofun
    entering := fun u hu => h.entering u ((update_iff_and id u).mp hu).1
    phase := by
      intro u hu
      rcases mem_cons.mp hu with hu | hu
      · rw [hu]
        exact ⟨h.entering t (by rw [hpc]; trivial), hphase.2⟩
      · exact hsettled u hu }

theorem inv_unqueue (hm : s.mutex = some (t, .unqueue)) : Inv (runCrit c s t .unqueue) := by
  have hpc := h.crit_ok t _ hm
  have hq : Quiet s.mutex := by rw [hm]; exact Quiet.of_simple trivial
  have hwaits : (s.pc t).waits := by rw [hpc]; trivial
  have hsleeps : ¬ (s.pc t).sleeps := by rw [hpc]; exact id
  have hfree := h.unlock hq
  rw [runCrit]
  split
  · -- another thread has taken this one out of the queue before it got the mutex
    rename_i hnone
    apply inv_leave hfree rfl _ hsleeps
    exact h.handed_of_not_mem hwaits (unqueue_eq_none.mp hnone)
  rename_i sq hsome
  have hperm := unqueue_perm hsome
  have htsq : ∀ u ∈ sq, u ≠ t := by
    intro u hu hut
    have hnd := (nodup_append.mp h.waiters.nodup).1
    exact (nodup_cons.mp (hperm.nodup_iff.mp hnd)).1 (hut ▸ hu)
  exact
  { waiters := (hfree.waiters.cancel hperm hsleeps (update_iff_and id)).congr
      (update_iff hsleeps id) fun u => Iff.rfl
    crit_ok := left
    saw_empty := at_update h.saw_empty nofun
    entering := by
      intro u hu
      have hold := (update_iff_and id u).mp hu
      show update s.gpr3 t (some .etimedout) u = none
      rw [update_of_ne hold.2]
      exact h.entering u hold.1
    phase := by
      have hsettled := hfree.phase
      intro u hu
      show update s.gpr3 t (some .etimedout) u = none ∧ _
      rw [update_of_ne (htsq u hu)]
      exact hsettled u (hperm.mem_iff.mpr (mem_cons_of_mem t hu)) }

theorem Inv.advance {j k : Crit} {x : BitVec 64}
    {gpr6' : Tid → BitVec 64} (hm : s.mutex = some (t, j)) (happ : appended (some (t, j)) = [])
    (happ' : appended (some (t, k)) = []) (hk : CritOk k (s.pc t))
    (hgpr3 : ∀ u, (s.pc u).entering → gpr3' u = none)
    (hphase : Phase s.sq s.args gpr3' x (some (t, k))) :
    Inv { s with pattern := x, gpr3 := gpr3', gpr6 := gpr6', mutex := some (t, k) } where
  waiters := by
    have hw := h.waiters
    rw [hm, happ] at hw
    rw [happ']
    exact hw
  crit_ok := entered hk
  saw_empty := h.saw_empty
  entering := hgpr3
  phase := hphase

theorem inv_setLoad {b : BitVec 64} (hm : s.mutex = some (t, .setLoad b)) : Inv (runCrit c s t (.setLoad b)) := by
  have hpc := h.crit_ok t _ hm
  have hphase := h.phase
  rw [hm] at hphase
  have hsettled := hphase
  apply h.advance (k := .setPass b s.pattern) hm rfl rfl hpc h.entering
  exact ⟨Sub.refl _, fun u hu => (hsettled u hu).2, fun u hu => .inl (hsettled u hu).1⟩

theorem inv_setPass {b p : BitVec 64} (hm : s.mutex = some (t, .setPass b p)) : Inv (runCrit c s t (.setPass b p)) := by
  have hpc := h.crit_ok t _ hm
  have hphase := h.phase
  rw [hm] at hphase
  have hsnap := hphase
  have hnd := (nodup_append.mp h.waiters.nodup).1
  have horder := getNextOrder_eq c.protocol s.sched.prio hnd
  apply h.advance (k := .setCommit b p _ _ _) hm rfl rfl hpc
  · -- a thread that enters is not linked, so the pass does not write its registers
    intro u hu
    have hnot : u ∉ s.sq := by
      intro hin
      have hwaits := (h.waiters.mem_iff u).mp (mem_append_left _ hin)
      cases hpc : s.pc u <;> rw [hpc] at hu hwaits <;> first | exact hu | exact hwaits
    rw [horder]
    apply (examine_gpr3_of_not_mem fun hin => hnot (mem_protocolOrder.mp hin)).trans
    exact h.entering u hu
  · rw [horder]
    apply And.intro
    · exact ⟨hsnap.sub, hsnap.unsatisfied, fun u hu => examine_gpr3 s.args b _ _ u (hsnap.verdict u hu)⟩
    · exact committable_pass hsnap (nodup_protocolOrder _ _ hnd) fun u => mem_protocolOrder

theorem inv_setCommit {b p toWrite dependantMask : BitVec 64} {count : Nat}
    (hm : s.mutex = some (t, .setCommit b p toWrite dependantMask count)) :
    Inv (runCrit c s t (.setCommit b p toWrite dependantMask count)) := by
  have hpc := h.crit_ok t _ hm
  have hphase := h.phase
  rw [hm] at hphase
  have hsnap := hphase.1
  rw [runCrit]
  split
  · -- the next round works on the pattern that was found
    apply h.advance (k := .setPass b s.pattern) hm rfl rfl hpc h.entering
    exact ⟨Sub.refl _, fun u hu hs => hsnap.unsatisfied u hu (Args.satisfied_mono hsnap.sub hs), hsnap.verdict⟩
  rename_i x hx
  have hcommit := hphase.2 s.pattern x s.gpr6 hsnap.sub hx
  split_ifs with hzero
  · rw [if_pos hzero] at hcommit
    have hw := h.waiters
    rw [hm] at hw
    have hfree : Inv { s with pattern := x, mutex := none } :=
      { h with
        waiters := hw
        crit_ok := left
        phase := hcommit }
    exact hfree.unlockRet Quiet.free hpc id (Sub.refl _)
  · rw [if_neg hzero] at hcommit
    exact h.advance hm rfl rfl ⟨b, hpc⟩ h.entering hcommit

theorem inv_setRemove (hm : s.mutex = some (t, .setRemove)) : Inv (runCrit c s t .setRemove) := by
  have hpc := h.crit_ok t _ hm
  have hphase := h.phase
  have hw := h.waiters
  rw [hm] at hphase hw
  have hremove := hphase
  have hperm : s.sq.Perm ((s.sq.filter fun u => decide (s.gpr3 u = some .ok)) ++
      s.sq.filter fun u => decide (s.gpr3 u ≠ some .ok)) := by
    have hsplit := filter_append_perm (fun u => decide (s.gpr3 u = some .ok)) s.sq
    simp only [← decide_not] at hsplit
    exact hsplit.symm
  rw [runCrit]
  exact
  { waiters := by
      have hrel := hw.releaseAll hperm
      rw [show appended (some (t, Crit.setRemove)) = [] from rfl, append_nil] at hrel
      exact hrel
    crit_ok := entered hpc
    saw_empty := fun u hu => mem_append_right _ (h.saw_empty u hu)
    entering := h.entering
    phase := by
      intro u hu
      rw [mem_filter, decide_eq_true_iff] at hu
      exact (hremove u hu.1).resolve_left hu.2 }

theorem Inv.awakeAll (hm : s.mutex = some (t, k))
    (happ : appended (some (t, k)) = ts) (hsettled : Settled s.sq s.args s.gpr3 s.pattern) :
    Inv { s with sched := s.sched.awakeAll ts, mutex := none } :=
  { h with
    waiters := by
      have hw := h.waiters
      rw [hm, happ] at hw
      exact hw.awakeAll
    crit_ok := left
    phase := hsettled }

theorem inv_setAwake (hm : s.mutex = some (t, .setAwake ts)) : Inv (runCrit c s t (.setAwake ts)) := by
  have ⟨b, hpc⟩ := h.crit_ok t _ hm
  have hphase := h.phase
  rw [hm] at hphase
  exact (h.awakeAll hm rfl hphase).unlockRet Quiet.free hpc id (Sub.refl _)

theorem inv_cancel {p : BitVec 64} {value : Nat}
    (hm : s.mutex = some (t, .cancel p value ts)) : Inv (runCrit c s t (.cancel p value ts)) := by
  have hpc := h.crit_ok t _ hm
  have hphase := h.phase
  have hw := h.waiters
  rw [hm] at hphase hw
  have hsettled := hphase
  rw [runCrit]
  split
  next u sq hsome =>
    have hperm := schedule_perm hsome
    have hnd := hperm.nodup_iff.mp (nodup_append.mp h.waiters.nodup).1
    have husq := (nodup_cons.mp hnd).1
    have huwaits := (h.waiters.mem_iff u).mp (mem_append_left _ (hperm.mem_iff.mpr mem_cons_self))
    exact
    { waiters := hw.release hperm
      crit_ok := entered hpc
      saw_empty := fun v hv => mem_cons_of_mem u (h.saw_empty v hv)
      entering := by
        intro v hv
        have hvu : v ≠ u := by
          intro hvu
          rw [hvu] at hv
          cases hpcu : s.pc u <;> rw [hpcu] at hv huwaits <;> first | exact hv | exact huwaits
        show update s.gpr3 u (some .ecanceled) v = none
        rw [update_of_ne hvu]
        exact h.entering v hv
      phase := by
        intro v hv
        have hvu : v ≠ u := fun hvu => husq (hvu ▸ hv)
        show update s.gpr3 u (some .ecanceled) v = none ∧ _
        rw [update_of_ne hvu]
        exact hsettled v (hperm.mem_iff.mpr (mem_cons_of_mem u hv)) }
  · exact (h.awakeAll hm rfl hsettled).unlockRet Quiet.free hpc id (Sub.refl _)

theorem inv_cancelLoad (hm : s.mutex = some (t, .cancelLoad)) : Inv (runCrit c s t .cancelLoad) := by
  have hpc := h.crit_ok t _ hm
  have hphase := h.phase
  rw [hm] at hphase
  exact h.advance hm rfl rfl hpc h.entering hphase

end Crit

/-! ## Every step -/

variable {c : Attr} {s : State}

theorem inv_runCrit (h : Inv s) (hm : s.mutex = some (t, k)) : Inv (runCrit c s t k) := by
  cases k with
  | wait => exact inv_wait h hm
  | waitSleep => exact inv_waitSleep h hm
  | unqueue => exact inv_unqueue h hm
  | setLoad => exact inv_setLoad h hm
  | setPass => exact inv_setPass h hm
  | setCommit => exact inv_setCommit h hm
  | setRemove => exact inv_setRemove h hm
  | setAwake => exact inv_setAwake h hm
  | cancelLoad => exact inv_cancelLoad h hm
  | cancel => exact inv_cancel h hm

theorem inv_runFree {s s' : State} (h : Inv s) (hfree : ∀ k, s.mutex ≠ some (t, k))
    (hstep : runFree s t = some s') : Inv s' := by
  have hret : ∀ {e : CellError} (u : Tid), u ≠ t →
      update s.gpr3 t (some e) u = s.gpr3 u := fun u hu => update_of_ne hu _ _
  unfold runFree at hstep
  split at hstep
  · cases hstep
  next timed hpc =>
    split at hstep
    next x hx =>
      cases hstep
      exact h.outside hfree hpc id id (checkPattern_sub hx) (fun _ _ => rfl) hret False.elim
    · cases hstep
      exact h.outside hfree hpc id id (Sub.refl _) (fun _ _ => rfl) (fun _ _ => rfl)
        fun _ => h.entering t (by rw [hpc]; trivial)
  next timed hpc =>
    have ⟨hm, rfl⟩ := ite_some_none_eq_some.mp hstep
    exact h.lock hm trivial hpc
  next timed hpc =>
    have ⟨hsig, rfl⟩ := ite_some_none_eq_some.mp hstep
    exact inv_wake h hpc hsig
  next hpc =>
    cases hstep
    have hwaits : (s.pc t).waits := by rw [hpc]; trivial
    have hsleeps : ¬ (s.pc t).sleeps := by rw [hpc]; exact id
    split
    · -- the queue was seen empty: the thread is not in it
      rename_i hnil
      apply h.timedOut (p := .timedOutEmpty) hfree hwaits trivial
      · intro _
        apply h.handed_of_not_mem hwaits
        rw [hnil]
        exact not_mem_nil
      · exact h.waiters.congr (update_iff hsleeps id) fun u => Iff.rfl
    · apply h.timedOut (p := .timedOutLock) hfree hwaits trivial nofun
      exact h.waiters.congr (update_iff hsleeps id) fun u => Iff.rfl
  next hpc =>
    have ⟨hm, rfl⟩ := ite_some_none_eq_some.mp hstep
    exact inv_leave h hm (h.saw_empty t hpc) (by rw [hpc]; exact id)
  next hpc =>
    have ⟨hm, rfl⟩ := ite_some_none_eq_some.mp hstep
    exact h.lock hm trivial hpc
  next a hpc =>
    split at hstep
    next x hx =>
      cases hstep
      exact h.outside hfree hpc id id (checkPattern_sub hx) (fun _ _ => rfl) hret False.elim
    · cases hstep
      exact h.outside hfree hpc id id (Sub.refl _) (fun _ _ => rfl) hret False.elim
  next b hpc =>
    cases hstep
    split
    · exact h.outside hfree hpc id id (Sub.refl _) (fun _ _ => rfl) hret False.elim
    · exact h.outside hfree hpc id id (Sub.refl _) (fun _ _ => rfl) (fun _ _ => rfl) False.elim
  next b hpc =>
    have ⟨hm, rfl⟩ := ite_some_none_eq_some.mp hstep
    exact h.lock hm trivial hpc
  next b hpc =>
    cases hstep
    exact h.outside hfree hpc id id (Sub.and_left _ _) (fun _ _ => rfl) hret False.elim
  next hpc =>
    have ⟨hm, rfl⟩ := ite_some_none_eq_some.mp hstep
    exact h.lock hm trivial hpc

theorem Inv.free_of_idle (h : Inv s) (hpc : s.pc t = .idle) (k : Crit) : s.mutex ≠ some (t, k) := by
  intro hm
  have hk := h.crit_ok t k hm
  rw [hpc] at hk
  cases k <;> first | cases hk; done | (have ⟨b, hb⟩ := hk; cases hb)

theorem Inv.begin (h : Inv s) {args' : Tid → Args}
    (hpc : s.pc t = .idle) (hnew : ¬ p.waits) (hargs : ∀ u, u ≠ t → args' u = s.args u)
    (hgpr3 : ∀ u, u ≠ t → gpr3' u = s.gpr3 u) (hentering : p.entering → gpr3' t = none) :
    Inv { s with pc := update s.pc t p, args := args', gpr3 := gpr3'
                 gpr6 := gpr6', result := result', num := num' } :=
  h.outside (h.free_of_idle hpc) hpc id hnew (Sub.refl _) hargs hgpr3 hentering

theorem inv_step {s s' : State} (e : Event) (h : Inv s) (hstep : step c s e = some s') : Inv s' := by
  have hupdate : ∀ {t : Tid} {g : Option CellError} (u : Tid), u ≠ t →
      update s.gpr3 t g u = s.gpr3 u := fun u hu => update_of_ne hu _ _
  cases e with
  | wait =>
    have ⟨hpc, hstep⟩ := ite_none_right_eq_some.mp hstep
    split at hstep
    · cases hstep
      exact h.begin hpc id (fun _ _ => rfl) hupdate False.elim
    · cases hstep
      exact h.begin hpc id (fun _ hu => update_of_ne hu _ _) hupdate fun _ => update_self _ _ _
  | trywait =>
    have ⟨hpc, hstep⟩ := ite_none_right_eq_some.mp hstep
    split at hstep
    · cases hstep
      exact h.begin hpc id (fun _ _ => rfl) hupdate False.elim
    · cases hstep
      exact h.begin hpc id (fun _ _ => rfl) (fun _ _ => rfl) False.elim
  | set t b | clear t b | cancel t =>
    have ⟨hpc, rfl⟩ := ite_some_none_eq_some.mp hstep
    exact h.begin hpc id (fun _ _ => rfl) (fun _ _ => rfl) False.elim
  | timeout t =>
    have ⟨hpc, rfl⟩ := ite_some_none_eq_some.mp hstep
    have hwaits : (s.pc t).waits := by rw [hpc]; trivial
    apply h.timedOut (p := .timedOut) (h.free_of_waits hwaits (by rw [hpc]; simp)) hwaits trivial
      nofun
    exact h.waiters.timeout (update_iff_and id)
  | run =>
    simp only [step] at hstep
    split at hstep
    next holder k hm =>
      split at hstep
      next heq =>
        cases hstep
        exact inv_runCrit h (heq ▸ hm)
      next hne =>
        exact inv_runFree h (other hm hne) hstep
    next hm =>
      exact inv_runFree h (free hm) hstep

theorem inv_initial (h : Initial s) : Inv s := by
  have ⟨hsq, hm, hasleep, hsignal, hpc, hhanded⟩ := h
  have hw : Waiters s.sq s.handed (appended s.mutex) s.sched (fun t => (s.pc t).sleeps) (fun t => (s.pc t).waits) := by
    rw [hsq, hhanded, hm]
    exact .none_waits hasleep hsignal (fun t => by simp [hpc, sleeps]) fun t => by simp [hpc, waits]
  exact
  { waiters := hw
    crit_ok := hm ▸ left
    saw_empty := fun t ht => by rw [hpc t] at ht; cases ht
    entering := fun t ht => by rw [hpc t] at ht; exact ht.elim
    phase := by
      rw [hm]
      intro t ht
      rw [hsq] at ht
      cases ht }

theorem inv_reachable (h : (system c).Reachable s) : Inv s :=
  h.invariant (P := Inv) (fun _ => inv_initial) fun _ e _ hinv hstep => inv_step e hinv hstep

/-! ## The queue of a flag whose mutex is free -/

theorem Inv.settled (h : Inv s) (hm : s.mutex = none) : Settled s.sq s.args s.gpr3 s.pattern := by
  have hphase := h.phase
  rw [hm] at hphase
  exact hphase

def State.flag (c : Attr) (s : State) (h : (system c).Reachable s) (hm : s.mutex = none) : Flag where
  protocol := c.protocol
  prio := s.sched.prio
  pattern := s.pattern
  sq := s.sq
  args := s.args
  gpr3 := s.gpr3
  nodup := (nodup_append.mp (inv_reachable h).waiters.nodup).1
  unsatisfied := fun t ht => ((inv_reachable h).settled hm t ht).2
  pending := fun t ht => ((inv_reachable h).settled hm t ht).1

/-- Apart from the queue the pattern is all that changes in a flag, and it does not tell the number
of waiters: nothing counts them but the queue itself. -/
theorem pattern_counts_no_waiters :
    ¬ ∃ counter : BitVec 64 → Nat, ∀ s, (system ⟨.fifo, false⟩).Reachable s → s.mutex = none →
      counter s.pattern = s.sq.length := by
  rintro ⟨counter, hcounter⟩
  have hzero := hcounter _ (System.Reachable.of_init (initial_created 0)) rfl
  let t : Tid := ⟨1, by decide, by decide⟩
  have ⟨s, hs, hpattern, hm, hsq⟩ := System.Reachable.exists_of_run (M := system ⟨.fifo, false⟩) (initial_created 0)
    [.wait t 1 1 false, .run t, .run t, .run t, .run t]
    (fun s => s.pattern = 0 ∧ s.mutex = none ∧ s.sq = [t]) (by decide)
  have hone := hcounter s hs hm
  rw [hpattern, hsq] at hone
  rw [show (State.created 0).pattern = 0 from rfl, hone] at hzero
  cases hzero

/-- While the mutex is free, no thread in the wait queue has a condition that the pattern satisfies. -/
theorem waiters_unsatisfied {c : Attr} {s : State} (h : (system c).Reachable s)
    (hm : s.mutex = none) : ∀ t ∈ s.sq, ¬ (s.args t).satisfied s.pattern :=
  fun t ht => ((inv_reachable h).settled hm t ht).2

/-- A thread waits for bits 0 and 1, and another one sets bit 0. -/
theorem waiter_unsatisfied_by_half :
    ∃ s, (system ⟨.fifo, false⟩).Reachable s ∧ s.mutex = none ∧ s.pattern = 1 ∧ s.sq ≠ [] ∧
      ∀ t ∈ s.sq, ¬ (s.args t).satisfied s.pattern := by
  let t : Tid := ⟨1, by decide, by decide⟩
  let u : Tid := ⟨2, by decide, by decide⟩
  have ⟨s, hs, hm, hpattern, hsq⟩ := System.Reachable.exists_of_run (M := system ⟨.fifo, false⟩) (initial_created 0)
    [.wait t 3 1 false, .run t, .run t, .run t, .run t, .set u 1, .run u, .run u, .run u, .run u,
      .run u]
    (fun s => s.mutex = none ∧ s.pattern = 1 ∧ s.sq ≠ []) (by decide)
  exact ⟨s, hs, hm, hpattern, hsq, waiters_unsatisfied hs hm⟩

end Armsx3.Lv2.EventFlag
