import Armsx3.Lv2.LwmutexMoves

/-!
# The critical sections of a lightweight mutex

Under `lv2_lwmutex::mutex` a thread is taken out of the queue: by the unlocking thread, which then wakes
it, or by itself when its time is up.
-/

namespace Armsx3.Lv2.Lwmutex

open Function

section Crit

variable {a : Attr} {s : State} (h : Inv a s) {t : Tid}
include h

theorem Inv.setMutex {m : Option (Tid × Crit)} (hwoken : ∀ u, toWake m = some u → toWake s.mutex = some u)
    (hcrit : ∀ t k, m = some (t, k) → CritOk k (s.pc t)) : Inv a { s with mutex := m } :=
  { h with
    unwoken := fun u hu => h.unwoken u (hwoken u hu)
    crit_ok := hcrit }

theorem Inv.lock {k : Crit} (hk : toWake (some (t, k)) = none) (hcrit : CritOk k (s.pc t)) :
    Inv a { s with mutex := some (t, k) } := by
  apply h.setMutex
  · intro u hu
    rw [hk] at hu
    cases hu
  · exact Holder.entered hcrit

theorem Inv.unlock : Inv a { s with mutex := none } := by
  apply h.setMutex
  · intro u hu
    cases hu
  · exact Holder.left

theorem Inv.queued (ht : s.loc t = .queue) :
    (s.pc t).blocked ∧ s.gpr3 t = .ok ∧ s.sched.signal t = false ∧ s.sched.cancelSleep t ≠ 2 ∧
      ∀ l e, Released a l e → PlaceOk a (s.pc t) l e := by
  have hpl := h.place (t := t) rfl
  have hflags := (h.thread t).flags
  have hnot : ¬ (s.thread t).loc.released := by
    show ¬ (s.loc t).released
    rw [ht]
    exact id
  have hsig : s.sched.signal t = false := by
    by_contra hsig
    have hsig' : s.sched.signal t = true := by simpa using hsig
    exact hnot (hflags.signal hsig').1
  have hcan := fun hc => hnot (hflags.cancelled hc)
  have hplace : (s.pc t).blocked ∧ s.gpr3 t = .ok ∧ ∀ l e, Released a l e → PlaceOk a (s.pc t) l e := by
    rw [ht] at hpl
    cases hpc : s.pc t with rw [hpc] at hpl
    | sysSleep p | sysWait p | sysTimedOut p | sysTimedOutLock p =>
      have ⟨hp, hcase⟩ := hpl
      refine ⟨trivial, ?_, fun l e hr => ⟨hp, .inl hr⟩⟩
      rcases hcase with (hx | hx) | hx
      · cases hx.1
      · cases hx.1
      · exact hx.2
    | sysTimedOutEmpty => rcases hpl.2 with hx | hx <;> cases hx.1
    | retryReturn _ | dec _ => rcases hpl.2 with (hx | hx) | hx <;> cases hx.1
    | spin p _ | spinCas p _ | inc p | cas p =>
      have hl := hpl.2
      split at hl <;> cases hl
    | sysLock _ | sysOwn _ => cases hpl.2.1
    | _ => cases hpl
  exact ⟨hplace.1, hplace.2.1, hsig, hcan, hplace.2.2⟩

/-- The state after `reown` has taken `u` out of the queue. -/
def reowned (a : Attr) (s : State) (t u : Tid) (sq : List Tid) : State :=
  { s.release a.retry u sq with mutex := some (t, .awake u) }.goto t .sysUnlockAwake

variable {u : Tid} {sq : List Tid}

omit h in
theorem reowned_thread_self (hut : u ≠ t) (hg : s.gpr3 u = .ok) : (reowned a s t u sq).thread u =
      ⟨s.pc u, if a.retry then .woken else .granted, if a.retry then .ebusy else .ok, s.held u, s.sched.flags u⟩ := by
  simp only [reowned, State.goto, State.release, State.thread, update_self, update_of_ne hut]
  split
  · simp only [update_self]
  · rw [hg]

omit h in
theorem reowned_thread_of_ne {u w : Tid} (hwu : w ≠ u) :
    (reowned a s t u sq).thread w = (s.goto t .sysUnlockAwake).thread w := by
  simp only [reowned, State.goto, State.release, State.thread, update_of_ne hwu]
  split
  · simp only [update_of_ne hwu]
  · rfl

theorem inv_release (hm : s.mutex = some (t, .reown)) (hsq : s.sq.Perm (u :: sq)) : Inv a (reowned a s t u sq) := by
  have hpct := h.crit_ok t _ hm
  have hmem := hsq.mem_iff.mpr List.mem_cons_self
  have hlu := (h.queue.mem_iff u).mp hmem
  have ⟨hblocked, hgpr, hsig, hcan, hplace⟩ := h.queued hlu
  have hlt : s.loc t = .out := h.place hpct
  have hut : u ≠ t := fun hut => by rw [hut, hlt] at hlu; cases hlu
  have hrest := h.flags_rest hpct id id
  -- without `SYS_SYNC_RETRY` the unlocking thread has the mutex in its hands
  have htok := fun hr =>
    ((h.own t).unlocking hr).mp (by show (s.pc t).unlocking; rw [hpct]; trivial)
  have hempty : s.signaled = 0 := by
    by_contra hne
    rw [h.words.stored hne] at hmem
    cases hmem
  have hrel : Released a (if a.retry then .woken else .granted) (if a.retry then .ebusy else .ok) := by
    cases hr : a.retry with
    | false => exact .inl ⟨rfl, rfl⟩
    | true => exact .inr ⟨rfl, rfl, hr⟩
  have hloc : Loc.released (if a.retry then .woken else .granted) := by
    split <;> trivial
  have hself := @reowned_thread_self a s t u sq hut hgpr
  have hother : ∀ w, w ≠ u → w ≠ t → (reowned a s t u sq).thread w = s.thread w := by
    intro w hwu hwt
    rw [reowned_thread_of_ne hwu]
    simp only [State.goto, State.thread, update_of_ne hwt]
  have htself : (reowned a s t u sq).thread t = ⟨.sysUnlockAwake, .out, s.gpr3 t, s.held t, .rest⟩ := by
    rw [reowned_thread_of_ne hut.symm]
    simp only [State.goto, State.thread, update_self, hlt, hrest]
  exact
  { queue := by
      apply h.queue.remove hsq
      split <;> decide
    counted := h.counted.goto hpct rfl
    thread := by
      intro w
      by_cases hwu : w = u
      · rw [hwu, hself]
        exact ⟨hplace _ _ hrel, (h.thread u).flags.release fun _ => hloc⟩
      by_cases hwt : w = t
      · rw [hwt, htself]
        exact ⟨rfl, .rest⟩
      · rw [hother w hwu hwt]
        exact h.thread w
    own := by
      intro w
      show OwnOk a s.owner (if a.retry then s.token else .thread u) s.recursiveCount w _
      by_cases hwu : w = u
      · have hnot : ¬ (s.pc u).unlocking ∧ ¬ (s.pc u).owning := by
          cases hpc : s.pc u <;> rw [hpc] at hblocked <;> first | exact hblocked.elim | exact ⟨id, id⟩
        rw [hwu, hself]
        refine ⟨(h.own u).held, fun ho => absurd ho hnot.2, ?_, ?_⟩
        · cases hr : a.retry with
          | false => simp
          | true => simp [h.words.retry hr]
        · intro hr
          simp only [hr, Bool.false_eq_true, if_false, reduceCtorEq, iff_false]
          exact hnot.1
      · by_cases hwt : w = t
        · rw [hwt, htself]
          refine ⟨(h.own t).held, False.elim, ?_, ?_⟩
          · cases hr : a.retry with
            | false => simp [hut]
            | true => simp [h.words.retry hr]
          · intro hr
            apply iff_of_false id
            simp [hr]
        · rw [hother w hwu hwt]
          apply (h.own w).congr Iff.rfl (fun _ => rfl)
          · cases hr : a.retry with
            | false => simp [htok hr, Ne.symm hwu]
            | true => simp
          · cases hr : a.retry with
            | false => simp [htok hr, Ne.symm hwt]
            | true => simp
    words := by
      show WordsOk a s.owner (if a.retry then s.token else .thread u) s.recursiveCount s.signaled sq
      cases hr : a.retry with
      | false =>
        have hres := h.words.reserved.mpr (by rw [htok hr]; exact Token.noConfusion)
        exact
        { reserved := by simp [hres]
          signal := by simp [hempty]
          retry := fun hr' => absurd (hr.symm.trans hr') Bool.false_ne_true
          value := .inl hempty
          stored := fun hne => absurd hempty hne
          count := h.words.count
          alive := h.words.alive }
      | true =>
        exact { h.words with stored := fun hne => absurd hempty hne }
    wake := by
      intro hof w hw
      have hcom := committed_update False.elim w hw
      have hr := (h.wake hof w hcom).1
      refine ⟨hr, .inr (.inr (.inl ⟨u, ?_⟩))⟩
      show update s.loc u (if a.retry then .woken else .granted) u = .woken
      rw [update_self, hr]
      rfl
    unwoken := by
      intro w hw
      have hwu := Option.some.inj hw
      rw [← hwu, hself]
      exact ⟨hloc, hsig, hcan, hblocked⟩
    crit_ok := Holder.entered (update_self _ _ _)
    failed := h.failed
    carried := h.carried }

theorem inv_reown (hm : s.mutex = some (t, .reown)) : Inv a (runCrit a s t .reown) := by
  have hpct := h.crit_ok t _ hm
  rw [runCrit]
  split
  next u sq hs =>
    exact inv_release h hm (schedule_perm hs)
  rename_i hs
  have hempty := schedule_eq_none.mp hs
  have hfree : ∀ k, (none : Option (Tid × Crit)) ≠ some (t, k) := fun k => by simp
  exact h.unlock.storeSignal hfree (by show (s.pc t).unlocking; rw [hpct]; trivial) hempty
    fun u hu => update_of_ne hu _ _

theorem Inv.sysReturn {p : Pass} {q : Pc} {sched : Sched} (hpc : s.pc t = q) (hfree : ∀ k, s.mutex ≠ some (t, k))
    (hb : q.blocked) (hrel : Released a (s.loc t) (s.gpr3 t)) (hp : p.Ok a)
    (hsched : ∀ u, u ≠ t → sched.flags u = s.sched.flags u) (hrest : sched.flags t = .rest)
    (hwoken : toWake s.mutex ≠ some t) : Inv a ({ s with sched := sched }.sysReturn t p) := by
  have hold : q.counted = true ∧ ¬ q.unlocking := by
    cases q <;> first | exact hb.elim | exact ⟨rfl, id⟩
  apply h.goto hpc hfree hsched (fun _ _ => rfl)
  · rw [hrest]
    apply ThreadOk.mk _ .rest
    split
    next hr =>
      exact ⟨hp hr, .inl hrel⟩
    · exact ⟨hp, .inl hrel⟩
  · apply h.counted.goto hpc
    rw [hold.1]
    split <;> rfl
  · split <;> exact False.elim
  · apply iff_of_false _ hold.2
    split <;> exact id
  · split <;> exact False.elim
  · exact fun ht => absurd ht hwoken

theorem inv_unqueue {p : Pass} (hm : s.mutex = some (t, .unqueue p)) : Inv a (runCrit a s t (.unqueue p)) := by
  have hpc := h.crit_ok t _ hm
  have hpl := h.place hpc
  have hrest := h.flags_rest hpc id id
  have hfree : ∀ k, (none : Option (Tid × Crit)) ≠ some (t, k) := fun k => by simp
  have hwoken : toWake none ≠ some t := by simp [toWake]
  rw [runCrit]
  split
  · -- the thread is not in the queue any more
    rename_i hs
    have hnot := fun hl => unqueue_eq_none.mp hs ((h.queue.mem_iff t).mpr hl)
    have hrel := hpl.2.resolve_right fun hq => hnot hq.1
    exact h.unlock.sysReturn hpc hfree trivial hrel hpl.1 (fun _ _ => rfl) hrest hwoken
  rename_i sq hs
  have hl := (h.queue.mem_iff t).mp (unqueue_eq_some.mp hs).1
  apply h.unlock.relocate hpc hfree hwoken (fun _ _ => rfl) (fun u hu => update_of_ne hu _ _)
  · show ThreadOk a ⟨_, _, update s.gpr3 t .etimedout t, s.held t, s.sched.flags t⟩
    rw [hrest, update_self]
    apply ThreadOk.mk _ .rest
    split
    next hr =>
      exact ⟨hpl.1 hr, .inr ⟨rfl, rfl⟩⟩
    · exact ⟨hpl.1, .inr ⟨rfl, rfl⟩⟩
  · exact ⟨by rw [hl]; decide, by decide⟩
  · exact h.queue.remove (unqueue_perm hs) (by decide)
  · intro hne
    have hnil := h.words.stored hne
    rw [(unqueue_eq_some.mp hs).2, hnil]
    rfl
  · split <;> rfl
  · refine ⟨?_, ?_, id⟩ <;> split <;> exact id
  · apply h.wake.mono
    · exact id
    · exact committed_update fun _ => hpc ▸ trivial
    · exact fun hw => hw.mono rfl (unlocking_update fun hu => by rw [hpc] at hu; exact hu.elim)
        (woken_update (by rw [hl]; decide)) id

theorem Inv.awake (hm : s.mutex = none) (hl : (s.loc u).released) : Inv a { s with sched := s.sched.awake u } := by
  have hother : ∀ w, w ≠ u → State.thread { s with sched := s.sched.awake u } w = s.thread w := by
    intro w hwu
    simp only [State.thread, Sched.flags_awake_of_ne _ hwu]
  have hself : State.thread { s with sched := s.sched.awake u } u =
      { s.thread u with flags := (s.sched.flags u).awake } := by
    simp only [State.thread, Sched.flags_awake_self]
  exact { h with
    thread := by
      intro w
      by_cases hwu : w = u
      · rw [hwu, hself]
        exact ⟨(h.thread u).place, (h.thread u).flags.awake hl⟩
      · rw [hother w hwu]
        exact h.thread w
    own := by
      intro w
      have hown := h.own w
      exact { hown with }
    unwoken := by
      intro w hw
      rw [hm] at hw
      cases hw }

theorem inv_awake (hm : s.mutex = some (t, .awake u)) : Inv a (runCrit a s t (.awake u)) := by
  have hpc := h.crit_ok t _ hm
  have hrel := (h.unwoken u (by rw [hm]; rfl)).released
  exact (h.unlock.awake rfl hrel).outside hpc (fun k => by simp) ⟨id, id⟩
    (fun w hw => update_of_ne hw _ _) (h.place hpc) (h.counted.goto hpc rfl) False.elim Iff.rfl False.elim

theorem inv_runCrit {k : Crit} (hm : s.mutex = some (t, k)) : Inv a (runCrit a s t k) := by
  cases k with
  | unqueue => exact inv_unqueue h hm
  | reown => exact inv_reown h hm
  | awake => exact inv_awake h hm

end Crit

end Armsx3.Lv2.Lwmutex
