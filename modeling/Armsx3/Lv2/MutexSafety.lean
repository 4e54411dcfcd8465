import Armsx3.Lv2.MutexMoves

/-!
# Mutual exclusion and the return of `sys_cond_wait`

Every step keeps the invariant, one lemma for each critical section and each access outside.
-/

namespace Armsx3.Lv2.Mutex

open Transition Function List Option Holder State Sched

/-! ## The critical sections -/

variable {p : Pc}

theorem Pc.not_announces_of_sleeps (h : p.sleeps) : ¬ p.announces := by
  cases p <;> first | exact h.elim | exact id

variable {u : Tid}

theorem not_blocked_of_awake (hp : CritOk (.awake u) p) : ¬ p.blocked := by
  rcases hp with hp | ⟨c, hp⟩ | ⟨c, hp⟩ | ⟨c, v, hp⟩ <;> rw [hp] <;> exact id

section Crit

variable {a : Attr} {s : State} (h : Inv s) {t : Tid} {p q : Pc} {c : CondId} {timed : Bool} {count : Nat}
include h

theorem Inv.owner_eq (hpc : s.pc t = p) (hp : p.owning) : s.owner = some t :=
  (h.own t).owning (show (s.pc t).owning from hpc.symm ▸ hp)

theorem Inv.lockCount_eq (hpc : s.pc t = p) (hp : p.last) : s.lockCount = 0 :=
  (h.own t).last (show (s.pc t).last from hpc.symm ▸ hp)

theorem Inv.owner_ne (hpc : s.pc t = p) (hp : p.locking) : s.owner ≠ some t :=
  (h.own t).locking (show (s.pc t).locking from hpc.symm ▸ hp)

theorem inv_awake (hm : s.mutex = some (t, .awake u)) : Inv (runCrit a s t (.awake u)) := by
  have hp := not_blocked_of_awake (h.crit_ok t _ hm)
  have hl : s.loc u = .owner := by
    apply (h.appended u _).loc
    rw [hm]
    exact mem_singleton_self u
  have hfree := h.setFree fun c => by rw [hm]; rfl
  exact (hfree.awake rfl hl).ret nofun rfl hp

theorem inv_signalOwn {k : Crit} {rest : List Tid}
    (hm : s.mutex = some (t, k)) (hk : k.simple) (hperm : (s.cq c).Perm (u :: rest))
    (hcrit : CritOk (.awake u) (s.pc t)) : Inv (signalOwn s t c u rest) := by
  have hp := not_blocked_of_awake hcrit
  have hu : s.loc u = .cond c := by
    apply ((h.conds c).mem_iff u).mp
    exact mem_append_left _ (hperm.mem_iff.mpr mem_cons_self)
  unfold signalOwn
  by_cases ho : s.owner = none
  · rw [tryOwn_free (s := { s with cq := update s.cq c rest }) ho]
    apply h.handover hu ho
    · exact h.conds_remove hperm (by simp) fun c' => by rw [hm, detached_simple hk]; rfl
    · exact fun v hv => .inl (mem_singleton.mp hv)
    · exact entered hcrit
  · rw [tryOwn_owned (s := { s with cq := update s.cq c rest }) ho]
    have hfree := h.requeue (m := none) (g := s.gpr3) hu ho
      (h.conds_remove hperm (by simp) fun c' => by rw [hm, detached_simple hk]; rfl)
      (forall_mem_nil _) nofun
    exact hfree.ret nofun rfl hp

theorem inv_signal (hm : s.mutex = some (t, .signal c)) : Inv (runCrit a s t (.signal c)) := by
  have hpc := h.crit_ok t _ hm
  rw [runCrit]
  split
  next u rest hsome =>
    exact inv_signalOwn h hm trivial (schedule_perm hsome) (.inr (.inl ⟨c, hpc⟩))
  · exact h.unlockRet hm trivial hpc id

theorem inv_signalTo (hm : s.mutex = some (t, .signalTo c u)) : Inv (runCrit a s t (.signalTo c u)) := by
  have hpc := h.crit_ok t _ hm
  rw [runCrit]
  split
  next rest hsome =>
    exact inv_signalOwn h hm trivial (unqueue_perm hsome) (.inr (.inr (.inr ⟨c, u, hpc⟩)))
  · exact h.unlockRet hm trivial hpc id

theorem inv_signalAll (hm : s.mutex = some (t, .signalAll c)) : Inv (runCrit a s t (.signalAll c)) := by
  have hpc := h.crit_ok t _ hm
  rw [runCrit]
  exact
  { h with
    conds := by
      intro c'
      have hold := h.conds c'
      unfold condQueue at hold ⊢
      rw [hm, show detached (some (t, Crit.signalAll c)) c' = [] from rfl, append_nil] at hold
      by_cases hc : c' = c
      · simp only [hc, update_self, detached, if_true, nil_append]
        exact hc ▸ hold
      · simp only [update_of_ne hc, detached, if_neg (Ne.symm hc), append_nil]
        exact hold
    appended := by
      intro u hu
      cases hu
    crit_ok := entered hpc }

theorem inv_signalAllLoop {sq : List Tid} {r : Option Tid} (hm : s.mutex = some (t, .signalAllLoop c sq r)) :
    Inv (runCrit a s t (.signalAllLoop c sq r)) := by
  have hpc := h.crit_ok t _ hm
  have hcrit : ∀ rest r' u k, some (t, Crit.signalAllLoop c rest r') = some (u, k) →
      CritOk k (s.pc u) := fun rest r' => entered hpc
  have happ : appended s.mutex = r.toList := by rw [hm]; rfl
  unfold runCrit
  dsimp only
  split
  next u rest hsome =>
    have hperm := schedule_perm hsome
    have hu : s.loc u = .cond c := by
      apply ((h.conds c).mem_iff u).mp
      apply mem_append_right
      rw [hm]
      simp only [detached, if_true]
      exact hperm.mem_iff.mpr mem_cons_self
    by_cases ho : s.owner = none
    · rw [tryOwn_free ho]
      -- the mutex is free, so no thread was given it in this loop before
      have hr : r = none := by
        cases hr : r with
        | none => rfl
        | some v =>
          have hv : s.loc v = .owner := by
            apply (h.appended v _).loc
            rw [happ, hr]
            exact mem_singleton_self v
          have hov := ((h.own v).handed hv).1
          rw [ho] at hov
          cases hov
      have hnew := h.handover (m := some (t, .signalAllLoop c rest (some u))) (g := s.gpr3) hu ho
        (h.conds_remove_detached hm hperm (by simp))
        (fun v hv => .inl (mem_singleton.mp hv)) (hcrit rest (some u))
      exact
      { hnew with
        failed := by
          rw [hr]
          rw [h.failed]
          rfl }
    · rw [tryOwn_owned ho]
      apply h.requeue hu ho
      · exact h.conds_remove_detached hm hperm (by simp)
      · rw [happ]
        exact fun v hv => hv
      · exact hcrit rest r
  next hnone =>
    have hsq := schedule_eq_none.mp hnone
    have hdet : ∀ c', detached s.mutex c' = [] := by
      intro c'
      rw [hm, hsq]
      simp only [detached, ite_self]
    cases r with
    | some =>
      apply h.setMutex
      · intro c'
        rw [hdet c']
        rfl
      · rw [happ]
        exact fun v hv => hv
      · exact entered (.inr (.inr (.inl ⟨c, hpc⟩)))
    | none => exact (h.setFree hdet).ret (by rintro _ ⟨⟩) hpc id

theorem Inv.retLocked {sched : Sched} (hfree : ∀ k, s.mutex ≠ some (t, k)) (hl : s.loc t = .owner)
    (hheld : s.held t = 0) (hun : t ∉ Mutex.appended s.mutex) (hsched : SameBut t sched s.sched)
    (hself : sched.signal t = false ∧ sched.asleep t = false ∧ sched.cancelSleep t = 0) :
    Inv ({ s with sched := sched }.retLocked t) := by
  have hcount := ((h.own t).handed hl).2
  apply h.retOwner hfree hl hun hsched hself
  · exact fun u hu => update_of_ne hu _ _
  · show update s.held t (s.held t + 1) t = s.lockCount + 1
    rw [update_self]
    omega

theorem inv_lockUnqueue (hm : s.mutex = some (t, .lockUnqueue)) : Inv (runCrit a s t .lockUnqueue) := by
  have hpc := h.crit_ok t _ hm
  have hplace := h.place hpc
  have hflags := h.flags hpc id id
  have hfree := h.unlock hm trivial
  rw [runCrit]
  split
  · -- the thread was given the mutex before it got here
    rename_i hnone
    have hl : s.loc t = .owner := by
      apply hplace.1.resolve_left
      exact fun hq => unqueue_eq_none.mp hnone ((h.queue.mem_iff t).mpr hq)
    exact hfree.retLocked nofun hl hplace.2 not_mem_nil (fun u _ => ⟨rfl, rfl, rfl⟩) hflags
  rename_i sq hsome
  have hperm := unqueue_perm hsome
  have hl := (h.queue.mem_iff t).mp (hperm.mem_iff.mpr mem_cons_self)
  have hnot := h.owner_ne_of_loc (by rw [hl]; simp) (by rw [hl]; simp)
  have hsq : s.owner ≠ none := by
    intro ho
    rw [(h.free ho).1] at hsome
    cases hsome
  refine h.changed ⟨.idle, .out, 0, s.entry t, false, false, 0⟩ ?_ ?_ (fun _ _ => Iff.rfl) (fun _ _ _ => rfl)
    (threadOk_out id _ _) (ownOk_idle rfl rfl rfl (fun ho => absurd ho hnot) fun _ => rfl)
    (h.queue.remove hperm (by simp)) (fun c => (hfree.conds c).skip (by rw [hl]; simp) (by simp))
    (fun ho => absurd ho hsq) nofun nofun left h.failed
  · simp only [State.thread, ret, update_self, hplace.2, hflags.1, hflags.2.1, hflags.2.2]
  · intro u hu
    simp only [State.thread, ret, update_of_ne hu]

theorem inv_unlockReown (hm : s.mutex = some (t, .unlockReown)) : Inv (runCrit a s t .unlockReown) := by
  have hpc := h.crit_ok t _ hm
  have ho := h.owner_eq hpc trivial
  have hcount := h.lockCount_eq hpc trivial
  have hheld := h.held_of_owner hpc id ho
  obtain ⟨hl, _, hflags⟩ := h.out hpc id
  have hconds : ∀ c, Located (s.cq c ++ []) s.loc (.cond c) := by
    intro c
    have hold := h.conds c
    unfold condQueue at hold
    rw [hm] at hold
    exact hold
  -- the thread goes on outside, whatever it does next
  have hg : ∀ p, ¬ p.blocked → ¬ p.locking → ¬ p.owning → ¬ p.last → ¬ p.testing → ∀ g,
      GaveUp s { s.unlocked t with pc := update s.pc t p, gpr3 := g } t := by
    intro p hb hlock hown hlast htest g
    exact
    { others := fun u hu => by simp only [State.thread, unlocked, update_of_ne hu]
      thread := by
        simp only [State.thread, unlocked, update_self, hl, hflags.1, hflags.2.1, hflags.2.2]
        exact threadOk_out hb _ _
      own := by
        intro o hne
        simp only [State.thread, unlocked, update_self, hl]
        exact
        { handed := fun hlo => by cases hlo
          holds := fun heq => absurd heq hne
          others := fun _ _ => by show s.held t - 1 = 0; omega
          locking := fun hx => absurd hx hlock
          owning := fun hx => absurd hx hown
          last := fun hx => absurd hx hlast
          testing := fun hx => absurd hx htest }
      count := hcount
      loc := by
        show s.loc t ≠ _
        rw [hl]
        simp
      queue := h.queue
      failed := h.failed }
  rw [runCrit]
  unfold reown
  cases hsch : schedule a.protocol s.sched.prio s.sq with
  | some res =>
    apply (hg .unlockAwake id id id id id s.gpr3).pass (m := some (t, .awake res.1)) h ho (schedule_perm hsch) hconds
    · exact fun u hu => mem_singleton.mp hu
    · exact entered (.inl (update_self _ _ _))
  | none =>
    exact (hg .idle id id id id id _).drop h ho (schedule_eq_none.mp hsch) hconds rfl (by rintro _ _ ⟨⟩)

theorem inv_condEnter (hm : s.mutex = some (t, .condEnter c timed)) : Inv (runCrit a s t (.condEnter c timed)) := by
  have hpc := h.crit_ok t _ hm
  have ho := h.owner_eq hpc trivial
  have hheld := h.held_of_owner hpc id ho
  have hentry := (h.own t).testing (by show (s.pc t).testing; rw [hpc]; trivial) ho
  have ⟨hl, _, hflags⟩ := h.out hpc id
  let r : State :=
    { s with cq := update s.cq c (t :: s.cq c), sched := s.sched.enqueued t
             loc := update s.loc t (.cond c), lockCount := 0
             pc := update s.pc t (.condSleep c timed s.lockCount) }
  have hconds : ∀ c', Located (r.cq c' ++ []) r.loc (.cond c') := by
    intro c'
    have hold := h.conds c'
    unfold condQueue at hold
    rw [hm, show detached (some (t, Crit.condEnter c timed)) c' = [] from rfl] at hold
    show Located (update s.cq c (t :: s.cq c) c' ++ []) (update s.loc t (.cond c))
      (.cond c')
    by_cases hc : c' = c
    · rw [hc, update_self]
      rw [hc] at hold
      exact hold.cons (by rw [hl]; simp)
    · rw [update_of_ne hc]
      exact hold.skip (by rw [hl]; simp) (by simpa using Ne.symm hc)
  have hg : GaveUp s r t :=
    { others := by
        intro u hu
        simp only [r, State.thread, enqueued, update_of_ne hu]
      thread := by
        simp only [r, State.thread, enqueued, update_self, hflags.1, hflags.2.1, hflags.2.2]
        exact threadOk_awake ⟨.inl rfl, hheld, hentry⟩
      own := by
        intro o hne
        simp only [r, State.thread, enqueued, update_self]
        exact ownOk_waits (by simp) (by simp) trivial hne
      count := rfl
      loc := by
        show update s.loc t (.cond c) t ≠ _
        simp
      queue := h.queue.skip (by rw [hl]; simp) (by simp)
      failed := h.failed }
  have hcrit : ∀ app u k, some (t, Crit.condSleep c timed s.lockCount app) = some (u, k) →
      CritOk k (r.pc u) := fun app => entered (update_self _ _ _)
  rw [runCrit]
  unfold reown
  cases hsch : schedule a.protocol (s.sched.enqueued t).prio s.sq with
  | some res =>
    apply hg.pass (m := some (t, .condSleep c timed s.lockCount [res.1])) h ho (schedule_perm hsch) hconds
    · exact fun u hu => mem_singleton.mp hu
    · exact hcrit _
  | none =>
    exact hg.drop h ho (schedule_eq_none.mp hsch) hconds rfl (hcrit _)

theorem Inv.gotoBlocked {sched : Sched} (hcrit : ∀ k, s.mutex = some (t, k) → CritOk k p) (hp : p.blocked)
    (hsched : SameBut t sched s.sched)
    (hthread : ThreadOk ⟨p, s.loc t, s.held t, s.entry t, sched.signal t, sched.asleep t, sched.cancelSleep t⟩)
    (hunwoken : t ∈ Mutex.appended s.mutex → sched.signal t = false ∧ sched.cancelSleep t ≠ 2 ∧ ¬ p.returns) :
    Inv ({ s with sched := sched }.goto t p) := by
  have hnot := Pc.not_locking_of_blocked hp
  exact h.goto hcrit hsched hthread (fun hx => absurd hx hnot.1) (fun hx => absurd hx hnot.2.1)
    (fun hx => absurd hx hnot.2.2.1) (fun hx => absurd hx hnot.2.2.2) hunwoken

theorem Inv.sleep (hcrit : ∀ k, s.mutex = some (t, k) → CritOk k p) (hpc : s.pc t = q) (hs : ¬ q.sleeps)
    (hp : p.sleeps) (hret : ¬ p.returns) (hplace : PlaceOk p (s.loc t) (s.held t) (s.entry t)) :
    Inv ({ s with sched := s.sched.sleep t }.goto t p) := by
  have hsig : s.sched.signal t = false := ((h.thread t).flags.quiet (show ¬ (s.pc t).sleeps from hpc.symm ▸ hs)).1
  apply h.gotoBlocked hcrit (Pc.blocked_of_sleeps hp)
  · intro u hu
    unfold Sched.sleep
    simp only [update_of_ne hu, and_self]
  · unfold Sched.sleep
    simp only [update_self, hsig]
    exact ⟨hplace, nofun, fun _ => hp, fun hx => absurd rfl hx, nofun⟩
  · intro _
    unfold Sched.sleep
    simp only [update_self, hsig]
    exact ⟨trivial, by decide, hret⟩

theorem inv_condSleep {ts : List Tid} (hm : s.mutex = some (t, .condSleep c timed count ts)) :
    Inv (runCrit a s t (.condSleep c timed count ts)) := by
  have hpc := h.crit_ok t _ hm
  have hplace := h.place hpc
  have hts : ∀ u ∈ ts, s.loc u = .owner := by
    intro u hu
    apply (h.appended u _).loc
    rw [hm]
    exact hu
  have hfree := h.setFree fun c' => by rw [hm]; rfl
  have hsleep := hfree.sleep (p := .condWait c timed count) nofun hpc id trivial id hplace
  exact hsleep.awakeAll rfl hts

theorem inv_condResleep (hm : s.mutex = some (t, .condResleep c count)) :
    Inv (runCrit a s t (.condResleep c count)) := by
  have hpc := h.crit_ok t _ hm
  have hplace := h.place hpc
  exact (h.unlock hm trivial).sleep nofun hpc id trivial id hplace

theorem Inv.goBlocked (hfree : ∀ k, s.mutex ≠ some (t, k)) (hpc : s.pc t = q) (hs : ¬ q.sleeps)
    (ha : ¬ q.announces) (hp : p.blocked) (hplace : PlaceOk p (s.loc t) (s.held t) (s.entry t))
    (hret : t ∈ Mutex.appended s.mutex → ¬ p.returns) : Inv (s.goto t p) := by
  have hflags := h.flags hpc hs ha
  apply h.gotoBlocked (fun k hk => absurd hk (hfree k)) hp (fun u _ => ⟨rfl, rfl, rfl⟩)
  · rw [hflags.1, hflags.2.1, hflags.2.2]
    exact threadOk_awake hplace
  · exact fun hin => ⟨hflags.1, (h.appended t hin).cancelSleep, hret hin⟩

theorem Inv.goOn (hm : s.mutex = none) (hpc : s.pc t = q) (hs : ¬ q.sleeps) (ha : ¬ q.announces) (hp : p.blocked)
    (hplace : PlaceOk p (s.loc t) (s.held t) (s.entry t)) : Inv (s.goto t p) :=
  h.goBlocked (Holder.free hm) hpc hs ha hp hplace fun hin => by rw [hm] at hin; cases hin

theorem inv_condCancel (hm : s.mutex = some (t, .condCancel c count)) : Inv (runCrit a s t (.condCancel c count)) := by
  have hpc := h.crit_ok t _ hm
  have hplace := h.place hpc
  have hheld := hplace.2
  have hdet : ∀ c', detached none c' = detached s.mutex c' := by
    intro c'
    rw [hm]
    rfl
  have hresleep : CritOk (.condResleep c count) (update s.pc t (.condResleep c count) t) := update_self _ _ _
  rw [runCrit]
  split
  next rest hsome =>
    have hperm := unqueue_perm hsome
    have hl : s.loc t = .cond c := by
      apply ((h.conds c).mem_iff t).mp
      exact mem_append_left _ (hperm.mem_iff.mpr mem_cons_self)
    by_cases ho : s.owner = none
    · rw [State.tryOwn_free (s := { s with cq := update s.cq c rest
                                           gpr3 := update s.gpr3 t .etimedout }) ho]
      have hgot := h.handover (g := update s.gpr3 t .etimedout) hl ho
        (h.conds_remove hperm (by simp) hdet) (forall_mem_nil _) nofun
      apply hgot.goOn (p := .condReturn count) rfl hpc id id trivial
      exact ⟨update_self _ _ _, hheld⟩
    · rw [State.tryOwn_owned (s := { s with cq := update s.cq c rest
                                            gpr3 := update s.gpr3 t .etimedout }) ho]
      have hgot := h.requeue (g := update s.gpr3 t .etimedout) hl ho
        (h.conds_remove hperm (by simp) hdet) (forall_mem_nil _) nofun
      have hgo := hgot.goOn (p := .condResleep c count) rfl hpc id id trivial ⟨.inr (.inl (update_self _ _ _)), hheld⟩
      exact hgo.lock rfl trivial hresleep
  · split_ifs with ho
    · apply (h.unlock hm trivial).goOn (p := .condReturn count) rfl hpc id id trivial
      apply And.intro _ hheld
      by_contra hne
      have hout := ((h.own t).holds ho hne).1
      change s.loc t = .out at hout
      rw [hout] at hplace
      rcases hplace.1 with hl | hl | hl <;> cases hl
    · have hgo := (h.unlock hm trivial).goOn (p := .condResleep c count) rfl hpc id id trivial hplace
      exact hgo.lock rfl trivial hresleep

end Crit

/-! ## Every step -/

variable {a : Attr} {s : State} {t : Tid}

theorem inv_runCrit (h : Inv s) {k : Crit} (hm : s.mutex = some (t, k)) : Inv (runCrit a s t k) := by
  cases k with
  | lockUnqueue => exact inv_lockUnqueue h hm
  | unlockReown => exact inv_unlockReown h hm
  | condEnter => exact inv_condEnter h hm
  | condSleep => exact inv_condSleep h hm
  | condCancel => exact inv_condCancel h hm
  | condResleep => exact inv_condResleep h hm
  | signal => exact inv_signal h hm
  | signalAll => exact inv_signalAll h hm
  | signalAllLoop => exact inv_signalAllLoop h hm
  | signalTo => exact inv_signalTo h hm
  | awake => exact inv_awake h hm

theorem Inv.signalled (h : Inv s) (hsig : s.sched.signal t = true) : s.loc t = .owner ∧ t ∉ Mutex.appended s.mutex ∧
      (s.sched.resetSignal t).signal t = false ∧ (s.sched.resetSignal t).asleep t = false ∧
      (s.sched.resetSignal t).cancelSleep t = 0 := by
  have ⟨hl, hsleeps, hasl⟩ := (h.thread t).signal hsig
  apply And.intro hl
  apply And.intro
  · intro hin
    have hno : s.sched.signal t = false := (h.appended t hin).signal
    rw [hsig] at hno
    cases hno
  · apply And.intro (update_self _ _ _)
    apply And.intro hasl
    exact (h.thread t).flags.cancelSleep_eq_zero (Pc.not_announces_of_sleeps hsleeps)

section Free

variable {a : Attr} {s s' : State} (h : Inv s) {t : Tid} (hfree : ∀ k, s.mutex ≠ some (t, k)) {p q : Pc}
include h hfree

theorem Inv.step (hpc : s.pc t = q) (hq : ¬ q.blocked) (hnew : ¬ p.blocked)
    (hlocking : ¬ p.locking) (howning : ¬ p.owning) (hlast : ¬ p.last) (htesting : ¬ p.testing) : Inv (s.goto t p) :=
  h.outside hfree hpc hq hnew (fun hx => absurd hx hlocking) (fun hx => absurd hx howning)
    (fun hx => absurd hx hlast) fun hx => absurd hx htesting

theorem Inv.stepLocking (hpc : s.pc t = q) (hq : ¬ q.blocked) (ho : s.owner ≠ some t)
    (hp : p.locking) : Inv (s.goto t p) := by
  have hnot : ¬ p.blocked ∧ ¬ p.owning ∧ ¬ p.last := by
    cases p <;> first | exact hp.elim | exact ⟨id, id, id⟩
  exact h.outside hfree hpc hq hnot.1 (fun _ => ho) (fun hx => absurd hx hnot.2.1)
    (fun hx => absurd hx hnot.2.2) fun _ hox => absurd hox ho

theorem inv_lockOwn {timed : Bool} (hpc : s.pc t = .lockOwn timed) (hstep : runFree a s t = some s') : Inv s' := by
  have hnot := h.owner_ne hpc trivial
  have hheld := h.held_of_not_owner hpc id hnot
  have ⟨hl, hun, hflags⟩ := h.out hpc id
  simp only [runFree, hpc] at hstep
  by_cases ho : s.owner = none
  · rw [tryOwn_free ho] at hstep
    cases hstep
    have hgot := h.acquire hfree hpc id ho
    simp only [retLocked, update_idem] at hgot ⊢
    exact hgot
  rw [tryOwn_owned ho] at hstep
  cases hstep
  refine h.changed ⟨.lockSleep timed, .queue, 0, s.entry t, false, false, 1⟩ ?_ ?_ (fun _ _ => Iff.rfl)
    (fun _ _ _ => rfl) ⟨⟨.inl rfl, rfl⟩, nofun, nofun, fun _ => trivial, nofun⟩
    (ownOk_waits (by simp) (by simp) trivial hnot) (h.queue.cons (by rw [hl]; simp))
    (fun c => (h.conds c).skip (by rw [hl]; simp) (by simp)) (fun hx => absurd hx ho) (fun _ _ => id)
    (fun hin => absurd hin hun) (h.crit_update hfree _) h.failed
  · simp only [State.thread, goto, enqueued, update_self, hheld, hflags.1, hflags.2.1]
  · intro u hu
    simp only [State.thread, goto, enqueued, update_of_ne hu]

theorem inv_lockSleep {timed : Bool} (hpc : s.pc t = .lockSleep timed) (hstep : runFree a s t = some s') : Inv s' := by
  have hquiet := (h.thread t).flags.quiet (by show ¬ (s.pc t).sleeps; rw [hpc]; exact id)
  have hplace := h.place hpc
  simp only [runFree, hpc] at hstep
  split at hstep
  · -- the thread was woken before it could sleep
    rename_i hcan
    cases hstep
    apply h.retLocked hfree ((h.thread t).cancelled hcan) hplace.2
    · exact fun hin => (h.appended t hin).cancelSleep hcan
    · intro u hu
      simp only [update_of_ne hu, and_self]
    · exact ⟨hquiet.1, hquiet.2, update_self _ _ _⟩
  · cases hstep
    exact h.sleep (fun k hk => absurd hk (hfree k)) hpc id trivial id hplace

theorem inv_condReturn {count : Nat} (hpc : s.pc t = .condReturn count) (hstep : runFree a s t = some s') : Inv s' := by
  have hplace := h.place hpc
  have ho := ((h.own t).handed hplace.1).1
  have hflags := h.flags hpc id id
  simp only [runFree, hpc] at hstep
  cases hstep
  have hun : t ∉ Mutex.appended s.mutex := by
    intro hin
    apply (h.appended t hin).returns
    show (s.pc t).returns
    rw [hpc]
    trivial
  have hret := h.retOwner (g := s.gpr3) hfree hplace.1 hun
    (fun u _ => ⟨rfl, rfl, rfl⟩) hflags (fun u _ => rfl) hplace.2.1
  exact
  { hret with
    failed := by
      rw [h.failed, ho]
      simp }

theorem inv_runFree (hstep : runFree a s t = some s') : Inv s' := by
  have hrun := hstep
  cases hpc : s.pc t with simp only [runFree, hpc] at hstep
  | lockOwn => exact inv_lockOwn h hfree hpc hrun
  | lockSleep => exact inv_lockSleep h hfree hpc hrun
  | condReturn => exact inv_condReturn h hfree hpc hrun
  | lockLoad timed =>
    split at hstep
    next ho =>
      cases hstep
      exact h.stepLocking hfree hpc id (by rw [ho]; simp) trivial
    rename_i o ho
    cases hstep
    split
    next heq =>
      exact h.relock hfree hpc id (heq ▸ ho)
    rename_i hne
    apply h.stepLocking (p := .lockTest timed) hfree hpc id _ trivial
    rw [ho]
    exact fun heq => hne (some.inj heq)
  | lockCas =>
    have hnot := h.owner_ne hpc trivial
    split_ifs at hstep with ho
    · cases hstep
      exact h.acquire hfree hpc id ho.1
    · cases hstep
      exact h.stepLocking hfree hpc id hnot trivial
  | lockTest =>
    have hnot := h.owner_ne hpc trivial
    cases hstep
    split <;> exact h.stepLocking hfree hpc id hnot trivial
  | lockSpin =>
    have hnot := h.owner_ne hpc trivial
    cases hstep
    exact h.stepLocking hfree hpc id hnot trivial
  | lockWait =>
    have hplace := h.place hpc
    obtain ⟨hsig, rfl⟩ := ite_some_none_eq_some.mp hstep
    obtain ⟨hl, hun, hself⟩ := h.signalled hsig
    apply h.retLocked hfree hl hplace.2 hun _ hself
    intro u hu
    simp only [resetSignal, update_of_ne hu, and_self]
  | lockTimedOut =>
    have hplace := h.place hpc
    cases hstep
    split
    · -- the queue was seen empty, so the thread was given the mutex
      rename_i hsq
      apply h.goBlocked (p := .lockTimedOutEmpty) hfree hpc id id trivial _ fun _ => id
      apply And.intro _ hplace.2
      apply hplace.1.resolve_left
      intro hq
      have hin := (h.queue.mem_iff t).mpr hq
      rw [hsq] at hin
      cases hin
    · exact h.goBlocked hfree hpc id id trivial hplace fun _ => id
  | lockTimedOutEmpty =>
    have hplace := h.place hpc
    obtain ⟨hm, rfl⟩ := ite_some_none_eq_some.mp hstep
    apply h.retLocked hfree hplace.1 hplace.2
    · rw [hm]
      exact not_mem_nil
    · exact fun u _ => ⟨rfl, rfl, rfl⟩
    · exact h.flags hpc id id
  | lockTimedOutLock | unlockLock | condLock c timed | condTimedOut c count | signalLock c | signalAllLock c
  | signalToLock =>
    obtain ⟨hm, rfl⟩ := ite_some_none_eq_some.mp hstep
    exact h.lock hm trivial hpc
  | tryLoad =>
    split at hstep
    next ho =>
      cases hstep
      exact h.stepLocking hfree hpc id (by rw [ho]; simp) trivial
    rename_i o ho
    cases hstep
    split_ifs with heq
    · exact h.relock hfree hpc id (heq ▸ ho)
    · exact h.ret hfree hpc id
  | tryCas =>
    split_ifs at hstep with ho
    · cases hstep
      exact h.acquire hfree hpc id ho.1
    · cases hstep
      exact h.ret hfree hpc id
  | unlockLoad =>
    split at hstep
    · cases hstep
      exact h.ret hfree hpc id
    rename_i ho
    have ho := not_not.mp ho
    split at hstep
    next hcount =>
      cases hstep
      exact h.unrelock hfree hpc id ho hcount
    next hcount =>
      have hcount := not_not.mp hcount
      cases hstep
      split <;> exact h.outside hfree hpc id id False.elim (fun _ => ho) (fun _ => hcount) False.elim
  | unlockCas =>
    have ho := h.owner_eq hpc trivial
    have hcount := h.lockCount_eq hpc trivial
    split_ifs at hstep with hcas
    · cases hstep
      exact h.release hfree hpc id ho hcas.2 hcount
    · cases hstep
      exact h.outside hfree hpc id id False.elim (fun _ => ho) (fun _ => hcount) False.elim
  | condTest =>
    cases hstep
    split_ifs with ho
    · exact h.ret hfree hpc id
    · exact h.outside hfree hpc id id False.elim (fun _ => not_not.mp ho) False.elim
        fun _ => (h.own t).testing (by show (s.pc t).testing; rw [hpc]; trivial)
  | condWait c timed count =>
    have hplace := h.place hpc
    obtain ⟨hsig, rfl⟩ := ite_some_none_eq_some.mp hstep
    obtain ⟨hl, hun, hself⟩ := h.signalled hsig
    apply h.gotoBlocked (p := .condReturn count) (fun k hk => absurd hk (hfree k)) trivial
    · intro u hu
      simp only [resetSignal, update_of_ne hu, and_self]
    · rw [hself.1, hself.2.1, hself.2.2]
      exact threadOk_awake ⟨hl, hplace.2⟩
    · exact fun hin => absurd hin hun
  | signalLoad c | signalAllLoad c | signalToLoad c u =>
    cases hstep
    split <;> exact h.step hfree hpc id id id id id id
  | signalEmpty =>
    split at hstep
    · cases hstep
      exact h.ret hfree hpc id
    · cases hstep
  | idle | unlockAwake | condSleep c timed count
  | condResleep => cases hstep

end Free

theorem Inv.free_of (h : Inv s) (hpc : s.pc t = p) (hp : ∀ k, ¬ CritOk k p) (k : Crit) : s.mutex ≠ some (t, k) :=
  fun hm => hp k (hpc ▸ h.crit_ok t k hm)

theorem Inv.free_of_idle (h : Inv s) (hpc : s.pc t = .idle) : ∀ k, s.mutex ≠ some (t, k) :=
  h.free_of hpc fun k hk => by cases k <;> simp [CritOk] at hk

theorem Inv.begin (h : Inv s) (hpc : s.pc t = .idle)
    (hnew : ¬ p.blocked) (hlocking : ¬ p.locking) (howning : ¬ p.owning) (hlast : ¬ p.last)
    (htesting : ¬ p.testing) : Inv (s.goto t p) :=
  h.step (h.free_of_idle hpc) hpc id hnew hlocking howning hlast htesting

theorem Inv.setEntry (h : Inv s) (hpc : s.pc t = .idle) (n : Nat) : Inv { s with entry := update s.entry t n } := by
  have ⟨hl, hun, hsig, hasl, hcan⟩ := h.out hpc id
  have hown := h.own t
  have htest : ¬ (s.pc t).testing := by rw [hpc]; exact id
  refine h.changed { s.thread t with entry := n } ?_ ?_ (fun _ _ => Iff.rfl) (fun _ _ _ => rfl) ?_
    { hown with testing := fun hx => absurd hx htest }
    h.queue h.conds h.free (fun _ _ => id) (fun hin => absurd hin hun) h.crit_ok h.failed
  · simp only [State.thread, update_self]
  · intro u hu
    simp only [State.thread, update_of_ne hu]
  · simp only [State.thread, hpc, hl, hsig, hasl, hcan]
    exact threadOk_out id _ _

variable {s s' : State}

theorem inv_timeout (h : Inv s) (hstep : step a s (.timeout t) = some s') : Inv s' := by
  have hplace := h.place (t := t) rfl
  have hgoto : ∀ p, p.blocked → ¬ p.returns → (s.pc t).sleeps → PlaceOk p (s.loc t) (s.held t) (s.entry t) →
      (∀ k, s.mutex ≠ some (t, k)) → Inv ({ s with sched := s.sched.checkState t }.goto t p) := by
    intro p hp hret hsleeps hplace' hfree
    have hcan : s.sched.cancelSleep t = 0 := (h.thread t).flags.cancelSleep_eq_zero (Pc.not_announces_of_sleeps hsleeps)
    apply h.gotoBlocked (fun k hk => absurd hk (hfree k)) hp
    · intro u hu
      simp only [checkState, update_of_ne hu, and_self]
    · simp only [checkState, update_self, hcan]
      exact threadOk_awake hplace'
    · exact fun hin => ⟨update_self _ _ _, (h.appended t hin).cancelSleep, hret⟩
  -- a thread in its wait loop does not hold the internal mutex
  have hfree : (s.pc t).sleeps → ∀ k, s.mutex ≠ some (t, k) := by
    intro hsleeps k hm
    have hk := h.crit_ok t k hm
    cases hpc : s.pc t <;> rw [hpc] at hsleeps hk <;> first
      | exact hsleeps.elim
      | (cases k <;> simp [CritOk] at hk)
  simp only [step] at hstep
  split at hstep
  next hpc =>
    cases hstep
    have hsleeps : (s.pc t).sleeps := by rw [hpc]; trivial
    rw [hpc] at hplace
    exact hgoto .lockTimedOut trivial id hsleeps hplace (hfree hsleeps)
  next c count hpc =>
    cases hstep
    have hsleeps : (s.pc t).sleeps := by rw [hpc]; trivial
    rw [hpc] at hplace
    exact hgoto (.condTimedOut c count) trivial id hsleeps hplace (hfree hsleeps)
  · cases hstep

theorem inv_step (e : Event) (h : Inv s) (hstep : step a s e = some s') : Inv s' := by
  cases e with
  | lock t timed | trylock t | unlock t | signal t c | signalAll t c | signalTo t c u =>
    have ⟨hpc, rfl⟩ := ite_some_none_eq_some.mp hstep
    exact h.begin hpc id id id id id
  | condWait =>
    have ⟨hpc, rfl⟩ := ite_some_none_eq_some.mp hstep
    exact (h.setEntry hpc s.lockCount).outside (h.free_of_idle hpc) hpc id id
      False.elim False.elim False.elim fun _ _ => update_self _ _ _
  | spin =>
    simp only [step] at hstep
    split at hstep
    next timed hpc =>
      cases hstep
      have hfree := h.free_of hpc fun k hk => by cases k <;> simp [CritOk] at hk
      exact h.step hfree hpc id id id id id id
    · cases hstep
  | timeout => exact inv_timeout h hstep
  | run =>
    simp only [step] at hstep
    split at hstep
    next holder k hm =>
      split at hstep
      next heq =>
        cases hstep
        exact inv_runCrit h (heq ▸ hm)
      next hne =>
        exact inv_runFree h (other hm hne) hstep
    next hm =>
      exact inv_runFree h (free hm) hstep

theorem inv_initial (h : Initial s) : Inv s := by
  obtain ⟨ho, hsq, hcount, hcq, hm, hasl, hsig, hcan, hpc, hfailed, hloc, hheld⟩ := h
  have hthread : ∀ t, s.thread t = ⟨.idle, .out, 0, s.entry t, false, false, 0⟩ := by
    intro t
    simp only [State.thread, hpc, hloc, hheld, hsig, hasl, hcan]
  exact
  { queue := by
      rw [hsq]
      exact Located.nil fun t => by rw [hloc]; simp
    conds := by
      intro c
      unfold condQueue
      rw [hcq, hm]
      exact Located.nil fun t => by rw [hloc]; simp
    free := fun _ => ⟨hsq, hcount⟩
    thread := by
      intro t
      rw [hthread]
      exact threadOk_out id _ _
    own := by
      intro t
      rw [hthread, ho]
      exact ownOk_idle rfl rfl rfl (by rintro ⟨⟩) fun _ => rfl
    appended := by
      rw [hm]
      exact forall_mem_nil _
    crit_ok := hm ▸ left
    failed := hfailed }

theorem inv_reachable (h : (system a).Reachable s) : Inv s :=
  h.invariant (P := Inv) (fun _ => inv_initial) fun _ e _ hinv hstep => inv_step e hinv hstep

/-! ## The mutex and its condition variables -/

/-- The thread is between a lock and its unlock, and not in `sys_cond_wait`. -/
def State.holds (s : State) (t : Tid) : Prop := 0 < s.held t ∧ s.loc t = .out

structure Safe (a : Attr) (s : State) : Prop where
  exclusive : ∀ t u, s.holds t → s.holds u → t = u
  owner : ∀ t, s.holds t → s.owner = some t
  free : s.owner = none → s.sq = []
  one_place : ∀ t, (s.pc t).blocked → ((∃ c, t ∈ s.condQueue c) ∧ t ∉ s.sq ∧ s.owner ≠ some t) ∨
    ((∀ c, t ∉ s.condQueue c) ∧ t ∈ s.sq ∧ s.owner ≠ some t) ∨
    ((∀ c, t ∉ s.condQueue c) ∧ t ∉ s.sq ∧ s.owner = some t)
  one_cond : ∀ t c c', t ∈ s.condQueue c → t ∈ s.condQueue c' → c = c'
  cond_returns : ∀ t count s', s.pc t = .condReturn count → step a s (.run t) = some s' →
    s'.pc t = .idle ∧ s'.owner = some t ∧ s'.lockCount = s.entry t ∧ s'.held t = s.entry t + 1
  ensured : s.failed = false

theorem Inv.owner_of_holds (h : Inv s) (ht : s.holds t) : s.owner = some t := by
  by_contra hne
  have hzero : s.held t = 0 := (h.own t).others ht.2 hne
  have hpos := ht.1
  omega

theorem Inv.one_place (h : Inv s) (ht : (s.pc t).blocked) : ((∃ c, t ∈ s.condQueue c) ∧ t ∉ s.sq ∧ s.owner ≠ some t) ∨
    ((∀ c, t ∉ s.condQueue c) ∧ t ∈ s.sq ∧ s.owner ≠ some t) ∨
    ((∀ c, t ∉ s.condQueue c) ∧ t ∉ s.sq ∧ s.owner = some t) := by
  have hplace := h.place (t := t) rfl
  have hown := h.own t
  have hnot : ∀ l, s.loc t = l → l ≠ .owner → l ≠ .out → s.owner ≠ some t := by
    intro l hl hlo hout ho
    apply hout
    rw [← hl]
    exact (hown.holds ho (by show s.loc t ≠ _; rw [hl]; exact hlo)).1
  cases hl : s.loc t with
  | out =>
    rw [hl] at hplace
    cases hpc : s.pc t <;> rw [hpc] at ht hplace <;> first
      | exact ht.elim
      | simp [PlaceOk] at hplace
  | cond c =>
    apply Or.inl
    rw [h.queue.mem_iff]
    exact ⟨⟨c, ((h.conds c).mem_iff t).mpr hl⟩, by rw [hl]; simp, hnot _ hl (by simp) (by simp)⟩
  | queue =>
    apply Or.inr
    apply Or.inl
    rw [h.queue.mem_iff]
    apply And.intro _ ⟨hl, hnot _ hl (by simp) (by simp)⟩
    intro c
    rw [(h.conds c).mem_iff, hl]
    simp
  | owner =>
    apply Or.inr
    apply Or.inr
    rw [h.queue.mem_iff]
    apply And.intro _ ⟨by rw [hl]; simp, (hown.handed hl).1⟩
    intro c
    rw [(h.conds c).mem_iff, hl]
    simp

theorem Inv.cond_returns (h : Inv s) {count : Nat}
    (hpc : s.pc t = .condReturn count) (hstep : Mutex.step a s (.run t) = some s') :
    s'.pc t = .idle ∧ s'.owner = some t ∧ s'.lockCount = s.entry t ∧ s'.held t = s.entry t + 1 := by
  have hplace := h.place hpc
  have ⟨hl, hheld, hentry⟩ := hplace
  have hfree := h.free_of hpc fun k hk => by cases k <;> simp [CritOk] at hk
  have hrun : runFree a s t = some s' := by
    simp only [Mutex.step] at hstep
    split at hstep
    next holder k hm =>
      have hne : holder ≠ t := fun heq => hfree k (heq ▸ hm)
      rw [if_neg hne] at hstep
      exact hstep
    · exact hstep
  simp only [runFree, hpc, some.injEq] at hrun
  rw [← hrun, hentry]
  exact ⟨update_self _ _ _, ((h.own t).handed hl).1, rfl, hheld⟩

/-- At most one thread owns the mutex, an owner word of 0 means an empty queue, a blocked thread is in one place, and
`sys_cond_wait` returns with the mutex and the recursive value it was called with. -/
theorem mutex_cond_safe {a : Attr} {s : State} (h : (system a).Reachable s) : Safe a s := by
  have hinv := inv_reachable h
  exact
  { exclusive := by
      intro t u ht hu
      have heq := (hinv.owner_of_holds ht).symm.trans (hinv.owner_of_holds hu)
      exact some.inj heq
    owner := fun t ht => hinv.owner_of_holds ht
    free := fun ho => (hinv.free ho).1
    one_place := fun t ht => hinv.one_place ht
    one_cond := by
      intro t c c' hc hc'
      have heq := (((hinv.conds c).mem_iff t).mp hc).symm.trans (((hinv.conds c').mem_iff t).mp hc')
      exact Loc.cond.inj heq
    cond_returns := fun t count s' hpc hstep => hinv.cond_returns hpc hstep
    ensured := hinv.failed }

/-- One thread waits on a condition variable; another one locks the mutex twice, signals it and
waits itself, which gives the mutex to the first. -/
theorem mutex_cond_safe_handed_over : ∃ s, (system ⟨.priority, true⟩).Reachable s ∧
      s.owner = some ⟨1, by decide, by decide⟩ ∧ s.lockCount = 0 ∧
      s.pc ⟨1, by decide, by decide⟩ = .condWait 0 false 0 ∧
      s.pc ⟨2, by decide, by decide⟩ = .condWait 0 true 1 ∧ Safe ⟨.priority, true⟩ s := by
  let t : Tid := ⟨1, by decide, by decide⟩
  let u : Tid := ⟨2, by decide, by decide⟩
  have ⟨s, hs, ho, hcount, hpc, hpc'⟩ := System.Reachable.exists_of_run (M := system ⟨.priority, true⟩) initial_created
    [.lock t false, .run t, .run t, .condWait t 0 false, .run t, .run t, .run t, .run t,
      .lock u false, .run u, .run u, .lock u false, .run u, .signal u 0, .run u, .run u, .run u,
      .condWait u 0 true, .run u, .run u, .run u, .run u]
    (fun s => s.owner = some t ∧ s.lockCount = 0 ∧ s.pc t = .condWait 0 false 0 ∧
      s.pc u = .condWait 0 true 1) (by decide)
  exact ⟨s, hs, ho, hcount, hpc, hpc', mutex_cond_safe hs⟩

end Armsx3.Lv2.Mutex
