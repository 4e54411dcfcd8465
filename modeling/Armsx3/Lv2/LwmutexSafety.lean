import Armsx3.Lv2.LwmutexCrit

/-!
# Safety of the lightweight mutex

The accesses outside `lv2_lwmutex::mutex` keep the invariant too, so it holds along every run.
-/

namespace Armsx3.Lv2.Lwmutex

open Transition Function Sched Option List State

variable {q : Pc}

section Free

variable {a : Attr} {s s' : State} (h : Inv a s) {t : Tid} (hfree : ∀ k, s.mutex ≠ some (t, k))
include h hfree

theorem Inv.step {p q : Pc} (hpc : s.pc t = q) (hq : ¬ q.blocked ∧ ¬ q.announces)
    (hplace : PlaceOk a p (s.loc t) (s.gpr3 t)) (hcounted : p.counted = q.counted)
    (howning : p.owning → s.owner = .thread t ∧ s.recursiveCount = 0)
    (hunlocking : p.unlocking ↔ q.unlocking) (hcommitted : p.committed → q.committed) : Inv a (s.goto t p) :=
  h.outside hpc hfree hq (fun _ _ => rfl) hplace (h.counted.goto hpc hcounted) howning hunlocking hcommitted

variable {e : CellError}

theorem Inv.ret (hpc : s.pc t = q) (hq : ¬ q.blocked ∧ ¬ q.announces ∧ ¬ q.unlocking) (hl : s.loc t = .out)
    (hcounted : q.counted = false) : Inv a (s.ret t e) :=
  h.outside hpc hfree ⟨hq.1, hq.2.1⟩ (fun _ hu => update_of_ne hu _ _) hl
    (h.counted.goto hpc hcounted.symm) False.elim (iff_of_false id hq.2.2) False.elim

theorem Inv.decWaiter {p q : Pc} {g : Tid → CellError} (hpc : s.pc t = q)
    (hq : ¬ q.blocked ∧ ¬ q.announces ∧ ¬ q.unlocking) (hold : q.counted = true)
    (hg : ∀ u, u ≠ t → g u = s.gpr3 u) (hplace : PlaceOk a p (s.loc t) (g t))
    (hnew : p.counted = false) (hp : ¬ p.owning ∧ ¬ p.unlocking) :
    Inv a { s.decWaiter with pc := update s.pc t p, gpr3 := g } := by
  subst hpc
  have hpos := h.counted.pos hold
  have hdec : s.decWaiter = { s with waiter := s.waiter - 1 } := by
    unfold State.decWaiter
    rw [if_neg (by omega)]
  rw [hdec]
  exact h.outside rfl hfree ⟨hq.1, hq.2.1⟩ hg hplace (h.counted.dec hold hnew) (fun ho => absurd ho hp.1)
    (iff_of_false hp.2 hq.2.2) fun hc => by rw [Pc.counted_of_committed hc] at hnew; cases hnew

theorem Inv.decRet (hpc : s.pc t = q) (hq : ¬ q.blocked ∧ ¬ q.announces ∧ ¬ q.unlocking) (hold : q.counted = true)
    (hl : s.loc t = .out) : Inv a (s.decWaiter.ret t e) := by
  rw [State.ret, State.decWaiter_pc, State.decWaiter_gpr3]
  exact h.decWaiter hfree hpc hq hold (fun u hu => update_of_ne hu _ _) hl rfl ⟨id, id⟩

theorem Inv.takeFirst (hpc : s.pc t = q) (hq : ¬ q.blocked ∧ ¬ q.announces)
    (hcounted : q.counted = false) (hl : s.loc t = .out) (ho : s.owner = .free) : Inv a ((s.own t).ret t .ok) :=
  h.take hpc hfree hq ho (fun _ _ => rfl) hl h.queue (fun _ hu => update_of_ne hu _ _) (.inl rfl) hcounted.symm

variable (hstep : runFree a s t = some s')
include hstep

theorem inv_lockCas {timed : Bool} (hpc : s.pc t = .lockCas timed) : Inv a s' := by
  have hl := h.place hpc
  have hspin : Inv a (s.goto t (.spin ⟨timed, false⟩ 10)) :=
    h.step hfree hpc ⟨id, id⟩ ⟨fun hr => absurd hr Bool.false_ne_true, hl⟩ rfl
      False.elim Iff.rfl id
  simp only [runFree, hpc] at hstep
  split at hstep
  next ho =>
    cases hstep
    exact h.takeFirst hfree hpc ⟨id, id⟩ rfl hl ho
  · cases hstep
    exact h.ret hfree hpc ⟨id, id, id⟩ hl rfl
  · cases hstep
    exact hspin
  next o ho =>
    cases hstep
    split_ifs with heq
    · exact h.relock hpc hfree ⟨id, id⟩ id rfl hl (heq ▸ ho)
    · exact hspin

theorem inv_tryCas (hpc : s.pc t = .tryCas) : Inv a s' := by
  have hl := h.place hpc
  simp only [runFree, hpc] at hstep
  split at hstep
  next ho =>
    cases hstep
    exact h.takeFirst hfree hpc ⟨id, id⟩ rfl hl ho
  · cases hstep
    exact h.ret hfree hpc ⟨id, id, id⟩ hl rfl
  · cases hstep
    exact h.step hfree hpc ⟨id, id⟩ hl rfl False.elim Iff.rfl id
  next o ho =>
    cases hstep
    split_ifs with heq
    · exact h.relock hpc hfree ⟨id, id⟩ id rfl hl (heq ▸ ho)
    · exact h.ret hfree hpc ⟨id, id, id⟩ hl rfl

/-! ### On the way to the syscall -/

variable {p : Pass}

theorem inv_spin {n : Nat} (hpc : s.pc t = .spin p n) : Inv a s' := by
  have hpl := h.place hpc
  cases n with (simp only [runFree, hpc] at hstep; cases hstep)
  | zero => exact h.step hfree hpc ⟨id, id⟩ hpl rfl False.elim Iff.rfl id
  | succ =>
    split <;> exact h.step hfree hpc ⟨id, id⟩ hpl rfl False.elim Iff.rfl id

omit h hfree hstep in
theorem not_queue_of_locking {l : Loc} (h : p.Ok a ∧ l = if p.retry then .woken else .out) :
    l ≠ .queue ∧ l ≠ .granted := by
  rw [h.2]
  split <;> exact ⟨by decide, by decide⟩

theorem inv_spinCas {n : Nat} (hpc : s.pc t = .spinCas p n) : Inv a s' := by
  have hpl := h.place hpc
  simp only [runFree, hpc] at hstep
  split_ifs at hstep with ho
  · cases hstep
    exact h.take hpc hfree ⟨id, id⟩ ho (fun u hu => update_of_ne hu _ _) (update_self _ _ _)
      (h.queue.skip (not_queue_of_locking hpl).1 (by decide)) (fun u hu => update_of_ne hu _ _) (.inl rfl) rfl
  · cases hstep
    exact h.step hfree hpc ⟨id, id⟩ hpl rfl False.elim Iff.rfl id

theorem inv_inc (hpc : s.pc t = .inc p) : Inv a s' := by
  have hpl := h.place hpc
  have hlt := h.counted.lt
  have hinc : s.incWaiter = { s with waiter := s.waiter + 1 } := by
    unfold incWaiter
    rw [if_neg (by omega)]
  simp only [runFree, hpc, hinc] at hstep
  cases hstep
  exact h.outside hpc hfree ⟨id, id⟩ (fun _ _ => rfl) hpl (h.counted.inc (by rw [hpc]; rfl) rfl)
    False.elim Iff.rfl False.elim

theorem inv_cas (hpc : s.pc t = .cas p) : Inv a s' := by
  have hpl := h.place hpc
  have hnot := not_queue_of_locking hpl
  have ⟨hrest, hwoken⟩ := h.quiet hpc ⟨id, id⟩
  simp only [runFree, hpc] at hstep
  split_ifs at hstep with ho
  · cases hstep
    exact h.take hpc hfree ⟨id, id⟩ ho (fun u hu => update_of_ne hu _ _) (update_self _ _ _)
      (h.queue.skip hnot.1 (by decide)) (fun _ _ => rfl) (.inr rfl) rfl
  cases hstep
  -- the mutex was seen in other hands
  refine h.relocate hpc hfree hwoken (fun _ _ => rfl) (fun u hu => update_of_ne hu _ _) ?_ ⟨hnot.2, by decide⟩
    (h.queue.skip hnot.1 (by decide)) h.words.stored rfl ⟨id, id, id⟩ fun hof => absurd hof ho
  show ThreadOk a ⟨_, _, update s.gpr3 t .ok t, s.held t, s.sched.flags t⟩
  rw [update_self, hrest]
  exact ⟨⟨hpl.1, rfl, rfl⟩, .rest⟩

/-! ### The syscall -/

omit h hfree hstep in
theorem placeOk_sysReturn {l : Loc} (hp : p.Ok a) (hl : Answered a l e) :
    PlaceOk a (if p.retry then .retryReturn p.timed else .dec p) l e := by
  split_ifs with hr
  · exact ⟨hp hr, hl⟩
  · exact ⟨hp, hl⟩

omit h hfree hstep in
theorem sysReturn_place (p : Pass) : let q : Pc := if p.retry then .retryReturn p.timed else .dec p
    q.counted = true ∧ ¬ q.owning ∧ ¬ q.unlocking ∧ ¬ q.committed := by
  simp only
  split <;> exact ⟨rfl, id, id, id⟩

omit hstep in
theorem Inv.sysSignal {sched : Sched} (hs : s.signaled ≠ 0) (hpc : s.pc t = q)
    (hq : q = .sysLock p ∨ q = .sysOwn p) (hsched : ∀ u, u ≠ t → sched.flags u = s.sched.flags u)
    (hrest : sched.flags t = .rest) : Inv a ({ s.takeSignal t with sched := sched }.sysReturn t p) := by
  have ⟨hp, hl, hc, hb⟩ : p.Ok a ∧ s.loc t = .out ∧ q.counted = true ∧ ¬ q.blocked := by
    have hpl := h.place hpc
    rcases hq with hq | hq <;> rw [hq] at hpl ⊢ <;> exact ⟨hpl.1, hpl.2.1, rfl, id⟩
  have hnew := sysReturn_place p
  exact h.takeSignal hpc hfree hs hb hl hsched hrest (fun l e hrel _ => placeOk_sysReturn hp (.inl hrel))
    (hnew.1.trans hc.symm) hnew.2

theorem inv_sysLock (hpc : s.pc t = .sysLock p) : Inv a s' := by
  have hpl := h.place hpc
  have hrest := h.flags_rest hpc id id
  simp only [runFree, hpc] at hstep
  split_ifs at hstep with hs
  · cases hstep
    exact h.sysSignal hfree hs hpc (.inl rfl) (fun _ _ => rfl) hrest
  cases hstep
  have hflags : (flags { s.sched with
      cancelSleep := update s.sched.cancelSleep t 1 } t) = ⟨false, false, 1⟩ := by
    simp only [flags, Flags.rest, Flags.mk.injEq, update_self, and_true] at hrest ⊢
    exact ⟨hrest.1, hrest.2.1⟩
  refine h.goto hpc hfree ?_ (fun _ _ => rfl) ?_ (h.counted.goto hpc rfl) False.elim Iff.rfl id
    fun ht => absurd ht (h.quiet hpc ⟨id, id⟩).2
  · intro u hu
    simp only [flags, update_of_ne hu]
  · rw [hflags]
    exact ⟨hpl, .announced trivial⟩

theorem inv_sysOwn (hpc : s.pc t = .sysOwn p) : Inv a s' := by
  have hpl := h.place hpc
  have hquiet := h.flags_quiet hpc id
  simp only [runFree, hpc] at hstep
  split_ifs at hstep with hs
  · cases hstep
    apply h.sysSignal hfree hs hpc (.inr rfl)
    · intro u hu
      simp only [flags, update_of_ne hu]
    · simp only [flags, update_self, hquiet.1, hquiet.2]
      rfl
  cases hstep
  have hflags : FlagsOk (s.sched.flags t) (s.pc t).sleeps (s.pc t).announces (s.loc t).released := (h.thread t).flags
  rw [hpc, hpl.2.1] at hflags
  refine h.relocate hpc hfree ?_ (fun _ _ => rfl) (fun _ _ => rfl) ⟨⟨hpl.1, .inr ⟨rfl, hpl.2.2⟩⟩, hflags⟩
    (by rw [hpl.2.1]; exact ⟨by decide, by decide⟩) (h.queue.cons (by rw [hpl.2.1]; decide))
    (fun hne => absurd hne hs) rfl ⟨id, id, id⟩ ?_
  · intro ht
    have hb := (h.unwoken t ht).blocked
    rw [State.thread, hpc] at hb
    exact hb
  · apply h.wake.mono
    · exact id
    · apply committed_update
      rw [hpc]
      exact id
    · exact fun hw => hw.mono rfl (unlocking_update (by rw [hpc]; exact id)) (woken_update (by rw [hpl.2.1]; decide)) id

theorem inv_sysSleep (hpc : s.pc t = .sysSleep p) : Inv a s' := by
  have hpl := h.place hpc
  have hflags := (h.thread t).flags
  have hquiet := h.flags_quiet hpc id
  simp only [runFree, hpc] at hstep
  split at hstep
  · -- the thread was taken out of the queue before it could sleep
    rename_i hc
    cases hstep
    have hrel : (s.loc t).released := hflags.cancelled hc
    apply h.sysReturn hpc hfree trivial _ hpl.1
    · intro u hu
      simp only [flags, update_of_ne hu]
    · simp only [flags, update_self, hquiet.1, hquiet.2]
      rfl
    · exact fun ht => (h.unwoken t ht).cancelSleep hc
    · apply hpl.2.resolve_right
      intro hq
      rw [hq.1] at hrel
      exact hrel
  · cases hstep
    have hself : (s.sched.sleep t).flags t = ⟨false, true, 0⟩ := by
      simp only [flags, sleep, update_self, hquiet.1]
    refine h.goto hpc hfree ?_ (fun _ _ => rfl) ?_ (h.counted.goto hpc rfl) False.elim Iff.rfl id ?_
    · intro u hu
      simp only [flags, sleep, update_of_ne hu]
    · rw [hself]
      exact ⟨hpl, .asleepOnly trivial⟩
    · rw [hself]
      exact fun _ => ⟨rfl, by decide, trivial⟩

theorem inv_sysWait (hpc : s.pc t = .sysWait p) : Inv a s' := by
  have hpl := h.place hpc
  have hflags := (h.thread t).flags
  have hcan := hflags.cancelSleep_eq_zero (by show ¬ (s.pc t).announces; rw [hpc]; exact id)
  change s.sched.cancelSleep t = 0 at hcan
  simp only [runFree, hpc] at hstep
  have ⟨hsig, rfl⟩ := ite_some_none_eq_some.mp hstep
  have ⟨hrel, _, hasl⟩ := hflags.signal hsig
  change (s.loc t).released at hrel
  change s.sched.asleep t = false at hasl
  apply h.sysReturn hpc hfree trivial _ hpl.1
  · intro u hu
    simp only [flags, resetSignal, update_of_ne hu]
  · simp only [flags, resetSignal, update_self, hasl, hcan]
    rfl
  · intro ht
    have hnot : s.sched.signal t = false := (h.unwoken t ht).signal
    rw [hsig] at hnot
    cases hnot
  · apply hpl.2.resolve_right
    intro hq
    rw [hq.1] at hrel
    exact hrel

omit hstep in
theorem Inv.timedOut {p q : Pc} (hpc : s.pc t = q) (hq : ¬ q.sleeps ∧ ¬ q.announces ∧ q.blocked) (hp : p.blocked)
    (hplace : PlaceOk a p (s.loc t) (s.gpr3 t)) : Inv a (s.goto t p) := by
  have hrest := h.flags_rest hpc hq.1 hq.2.1
  have hcounted : ∀ r : Pc, r.blocked → r.counted = true ∧ ¬ r.unlocking ∧ ¬ r.owning ∧ r.committed := by
    intro r hr
    cases r <;> first | exact hr.elim | exact ⟨rfl, id, id, trivial⟩
  have hold := hcounted _ hq.2.2
  have hnew := hcounted p hp
  apply h.goto hpc hfree (fun _ _ => rfl) (fun _ _ => rfl) _
    (h.counted.goto hpc (hnew.1.trans hold.1.symm)) (fun ho => absurd ho hnew.2.2.1)
    (iff_of_false hnew.2.1 hold.2.1) fun _ => hold.2.2.2
  · rw [hrest]
    exact fun _ => ⟨rfl, by decide, hp⟩
  · rw [hrest]
    exact ⟨hplace, .rest⟩

theorem inv_sysTimedOut (hpc : s.pc t = .sysTimedOut p) : Inv a s' := by
  have hpl := h.place hpc
  simp only [runFree, hpc] at hstep
  cases hstep
  split
  · -- the queue was seen empty, so the thread was taken out of it
    rename_i hsq
    apply h.timedOut (p := .sysTimedOutEmpty p) hfree hpc ⟨id, id, trivial⟩ trivial
    apply And.intro hpl.1
    apply hpl.2.resolve_right
    intro hq
    have hin := (h.queue.mem_iff t).mpr hq.1
    rw [hsq] at hin
    cases hin
  · exact h.timedOut hfree hpc ⟨id, id, trivial⟩ trivial hpl

theorem inv_sysTimedOutEmpty (hpc : s.pc t = .sysTimedOutEmpty p) : Inv a s' := by
  have hpl := h.place hpc
  simp only [runFree, hpc] at hstep
  have ⟨hm, rfl⟩ := ite_some_none_eq_some.mp hstep
  apply h.sysReturn hpc hfree trivial hpl.2 hpl.1 (fun _ _ => rfl) (h.flags_rest hpc id id)
  rw [hm]
  simp [toWake]

/-! ### After the syscall -/

theorem inv_retryReturn {timed : Bool} (hpc : s.pc t = .retryReturn timed) : Inv a s' := by
  have hpl := h.place hpc
  simp only [runFree, hpc] at hstep
  split_ifs at hstep with hok
  · rcases hpl.2 with (hx | hx) | hx
    · exact absurd hx.1 (h.not_granted hpl.1)
    · rw [hok] at hx
      cases hx.2.1
    · rw [hok] at hx
      cases hx.2
  · cases hstep
    exact h.step hfree hpc ⟨id, id⟩ ⟨fun _ => hpl.1, hpl.2⟩ rfl False.elim Iff.rfl False.elim

theorem inv_dec (hpc : s.pc t = .dec p) : Inv a s' := by
  have hpl := h.place hpc
  have hgo : ∀ q : Pc, q.counted = false → ¬ q.owning ∧ ¬ q.unlocking →
      PlaceOk a q (s.loc t) (s.gpr3 t) → Inv a (s.decWaiter.goto t q) := by
    intro q hc hn hplace
    have hinv := h.decWaiter hfree hpc ⟨id, id, id⟩ rfl (fun _ _ => rfl) hplace hc hn
    rw [← s.decWaiter_gpr3, ← s.decWaiter_pc] at hinv
    exact hinv
  simp only [runFree, hpc] at hstep
  cases hstep
  unfold afterDec
  rw [decWaiter_gpr3]
  rcases hpl.2 with (hx | hx) | hx
  · -- the thread has got the mutex from the kernel
    have hr := fun hr => h.not_granted (hpl.1 hr) hx.1
    rw [if_neg hr, if_pos hx.2]
    exact hgo .exchange rfl ⟨id, id⟩ hx.1
  · -- it was woken to try again
    have hspin : Inv a (s.decWaiter.goto t (.spin ⟨p.timed, true⟩ 10)) := hgo _ rfl ⟨id, id⟩ ⟨fun _ => hx.2.2, hx.1⟩
    rw [hx.2.1]
    simp only [hx.2.2, ne_eq, not_true_eq_false, if_false, reduceCtorEq, and_self, if_true, ite_self]
    exact hspin
  · rw [hx.2]
    simp only [ne_eq, reduceCtorEq, not_false_eq_true, if_true, if_false, false_and, ite_self]
    exact h.decRet hfree hpc ⟨id, id, id⟩ rfl hx.1

/-! ### Unlocking -/

theorem inv_unlockLoad (hpc : s.pc t = .unlockLoad) : Inv a s' := by
  have hl := h.place hpc
  simp only [runFree, hpc] at hstep
  split at hstep
  · cases hstep
    exact h.ret hfree hpc ⟨id, id, id⟩ hl rfl
  rename_i ho
  have ho := not_not.mp ho
  split_ifs at hstep with hcount
  · cases hstep
    apply h.recount hpc hfree ⟨id, id⟩ id rfl hl ho
    · show s.held t - 1 = s.recursiveCount - 1 + 1
      rw [h.held_of_owner ho]
      omega
    · exact fun u hu => update_of_ne hu _ _
  · cases hstep
    exact h.step hfree hpc ⟨id, id⟩ hl rfl (fun _ => ⟨ho, not_not.mp hcount⟩) Iff.rfl False.elim

omit hfree hstep in
theorem Inv.owning_at (hpc : s.pc t = q) (hq : q.owning) :
    (s.pc t).owning ∧ (s.owner = .thread t ∧ s.recursiveCount = 0) ∧ s.token = .none := by
  have howning := hpc ▸ hq
  have ho := (h.own t).owning howning
  exact ⟨howning, ho, h.token_eq_none (by rw [ho.1]; exact Owner.noConfusion)⟩

theorem inv_unlockCas (hpc : s.pc t = .unlockCas) : Inv a s' := by
  have ⟨howning, ho, htok⟩ := h.owning_at hpc trivial
  have hl := h.place hpc
  simp only [runFree, hpc] at hstep
  split_ifs at hstep with hw
  · cases hstep
    have hinv := h.disown (p := .idle) (g := update s.gpr3 t .ok)
      hfree howning rfl (fun u hu => update_of_ne hu _ _) rfl id
      (.inl ⟨rfl, rfl, rfl, hw.2⟩)
    rw [← htok] at hinv
    exact hinv
  · cases hstep
    exact h.step hfree hpc ⟨id, id⟩ hl rfl (fun _ => ho) Iff.rfl False.elim

theorem inv_unlockRelease (hpc : s.pc t = .unlockRelease) : Inv a s' := by
  have ⟨howning, ho, htok⟩ := h.owning_at hpc trivial
  simp only [runFree, hpc] at hstep
  split_ifs at hstep with hr
  · cases hstep
    have hinv := h.disown (p := .sysUnlock)
      hfree howning rfl (fun _ _ => rfl) rfl id (.inr (.inl ⟨rfl, rfl, hr, trivial⟩))
    rw [← htok] at hinv
    exact hinv
  · cases hstep
    exact h.disown hfree howning rfl (fun _ _ => rfl) rfl id (.inr (.inr ⟨rfl, rfl, by simpa using hr, trivial⟩))

theorem inv_sysUnlockCas {v : BitVec 32} (hpc : s.pc t = .sysUnlockCas v) : Inv a s' := by
  have hpl := h.place hpc
  simp only [runFree, hpc] at hstep
  split_ifs at hstep with hv
  · cases hstep
    exact h.storeSignal hfree (by rw [hpc]; trivial) hv.2 fun u hu => update_of_ne hu _ _
  · cases hstep
    exact h.step hfree hpc ⟨id, id⟩ hpl rfl False.elim Iff.rfl False.elim

theorem inv_sysTrylock (hpc : s.pc t = .sysTrylock) : Inv a s' := by
  have hpl := h.place hpc
  have hrest := h.flags_rest hpc id id
  simp only [runFree, hpc] at hstep
  split_ifs at hstep with hbit
  · have hs : s.signaled ≠ 0 := by
      intro hz
      rw [hz] at hbit
      cases hbit
    have hr : a.retry = false := by
      rcases h.signal_cases hs with hx | hx
      · exact hx.1
      · rw [hbit] at hx
        cases hx.2
    cases hstep
    exact h.takeSignal hpc hfree hs id hpl (fun _ _ => rfl) hrest (fun l e _ hl => hl hr) rfl ⟨id, id, id⟩
  · cases hstep
    exact h.ret hfree hpc ⟨id, id, id⟩ hpl rfl

theorem inv_runFree : Inv a s' := by
  have hrun := hstep
  cases hpc : s.pc t with simp only [runFree, hpc] at hstep
  | lockCas => exact inv_lockCas h hfree hrun hpc
  | spin => exact inv_spin h hfree hrun hpc
  | spinCas => exact inv_spinCas h hfree hrun hpc
  | inc => exact inv_inc h hfree hrun hpc
  | cas => exact inv_cas h hfree hrun hpc
  | decLocked | decTimedOut =>
    cases hstep
    exact h.decRet hfree hpc ⟨id, id, id⟩ rfl (h.place hpc)
  | sysLock => exact inv_sysLock h hfree hrun hpc
  | sysOwn => exact inv_sysOwn h hfree hrun hpc
  | sysSleep => exact inv_sysSleep h hfree hrun hpc
  | sysWait => exact inv_sysWait h hfree hrun hpc
  | sysTimedOut => exact inv_sysTimedOut h hfree hrun hpc
  | sysTimedOutEmpty => exact inv_sysTimedOutEmpty h hfree hrun hpc
  | sysTimedOutLock p | sysUnlockLock =>
    split at hstep
    · cases hstep
      exact h.lock rfl hpc
    · cases hstep
  | retryReturn => exact inv_retryReturn h hfree hrun hpc
  | dec => exact inv_dec h hfree hrun hpc
  | exchange =>
    cases hstep
    exact h.exchangeOwner hfree hpc (.inl rfl) fun u hu => update_of_ne hu _ _
  | tryExchange =>
    cases hstep
    exact h.exchangeOwner hfree hpc (.inr rfl) fun u hu => update_of_ne hu _ _
  | tryCas => exact inv_tryCas h hfree hrun hpc
  | sysTrylock => exact inv_sysTrylock h hfree hrun hpc
  | unlockLoad => exact inv_unlockLoad h hfree hrun hpc
  | unlockCas => exact inv_unlockCas h hfree hrun hpc
  | unlockRelease => exact inv_unlockRelease h hfree hrun hpc
  | sysUnlock =>
    have hpl := h.place hpc
    cases hstep
    split <;> exact h.step hfree hpc ⟨id, id⟩ hpl rfl False.elim Iff.rfl False.elim
  | sysUnlockLoad =>
    have hpl := h.place hpc
    cases hstep
    exact h.step hfree hpc ⟨id, id⟩ hpl rfl False.elim Iff.rfl False.elim
  | sysUnlockCas => exact inv_sysUnlockCas h hfree hrun hpc
  | idle | sysUnlockAwake => cases hstep

end Free

/-! ## Runs -/

variable {a : Attr} {s : State} {t : Tid}

theorem Inv.free_of_pc (h : Inv a s) (hpc : s.pc t = q) (hq : ∀ k, ¬ CritOk k q) : ∀ k, s.mutex ≠ some (t, k) :=
  Holder.outside h.crit_ok hpc hq

theorem Inv.begin (h : Inv a s) {p : Pc} (hpc : s.pc t = .idle)
    (hp : ∀ l e, PlaceOk a p l e ↔ l = .out) (hcounted : p.counted = false)
    (hnot : ¬ p.owning ∧ ¬ p.unlocking ∧ ¬ p.committed) : Inv a (s.goto t p) := by
  have hpl := h.place hpc
  exact h.step (h.free_of_pc hpc fun k hk => by cases k <;> cases hk) hpc ⟨id, id⟩ ((hp _ _).mpr hpl) hcounted
    (fun ho => absurd ho hnot.1) (iff_of_false hnot.2.1 id) fun hc => absurd hc hnot.2.2

variable {s s' : State}

theorem inv_timeout (h : Inv a s) (hstep : step a s (.timeout t) = some s') : Inv a s' := by
  simp only [step] at hstep
  split at hstep
  next p hpc =>
    obtain ⟨_, rfl⟩ := ite_some_none_eq_some.mp hstep
    have hpl := h.place hpc
    have hcan := (h.thread t).flags.cancelSleep_eq_zero (by show ¬ (s.pc t).announces; rw [hpc]; exact id)
    change s.sched.cancelSleep t = 0 at hcan
    have hself : (s.sched.checkState t).flags t = .rest := by
      simp only [flags, checkState, update_self, hcan]
      rfl
    refine h.goto hpc (h.free_of_pc hpc fun k hk => by cases k <;> cases hk) ?_ (fun _ _ => rfl) ?_
      (h.counted.goto hpc rfl) False.elim Iff.rfl id ?_
    · intro u hu
      simp only [flags, checkState, update_of_ne hu]
    · rw [hself]
      exact ⟨hpl, .rest⟩
    · rw [hself]
      exact fun _ => ⟨rfl, by decide, trivial⟩
  · cases hstep

theorem inv_expire (h : Inv a s) (hstep : step a s (.expire t) = some s') : Inv a s' := by
  simp only [step] at hstep
  split at hstep
  next hpc =>
    obtain ⟨hg, rfl⟩ := ite_some_none_eq_some.mp hstep
    have hpl := h.place hpc
    have hl : s.loc t = .woken := by
      rcases hpl.2 with (hx | hx) | hx
      · exact absurd hx.2 hg.1
      · exact hx.1
      · exact absurd hx.2 hg.2
    obtain ⟨hrest, hwoken⟩ := h.quiet hpc ⟨id, id⟩
    refine h.relocate hpc (h.free_of_pc hpc fun k hk => by cases k <;> cases hk) hwoken (fun _ _ => rfl)
      (fun _ _ => rfl) ?_ (by rw [hl]; exact ⟨by decide, by decide⟩) (h.queue.skip (by rw [hl]; decide) (by decide))
      h.words.stored rfl ⟨id, id, id⟩ ?_
    · rw [hrest]
      exact ⟨rfl, .rest⟩
    · intro hof u hu
      have hcom := committed_update False.elim u hu
      exact ⟨(h.wake hof u hcom).1, .inr (.inr (.inr rfl))⟩
  · cases hstep

theorem inv_step (e : Event) (h : Inv a s) (hstep : step a s e = some s') : Inv a s' := by
  cases e with
  | lock t timed | trylock t | unlock t =>
    have ⟨hpc, rfl⟩ := ite_some_none_eq_some.mp hstep
    exact h.begin hpc (fun _ _ => Iff.rfl) rfl ⟨id, id, id⟩
  | timeout => exact inv_timeout h hstep
  | expire => exact inv_expire h hstep
  | run =>
    simp only [step] at hstep
    split at hstep
    next holder k hm =>
      split at hstep
      next heq =>
        cases hstep
        exact inv_runCrit h (heq ▸ hm)
      next hne =>
        exact inv_runFree h (Holder.other hm hne) hstep
    next hm =>
      exact inv_runFree h (Holder.free hm) hstep

theorem inv_initial (h : Initial s) : Inv a s := by
  have ⟨ho, hw, hcount, hs, hsq, hm, hflags, hpc, hfailed, hcarried, hloc, htok, hheld, _⟩ := h
  have hthread : ∀ t, s.thread t = ⟨.idle, .out, s.gpr3 t, 0, .rest⟩ := by
    intro t
    simp only [State.thread, flags, hpc, hloc, hheld, hflags]
    rfl
  exact
  { queue := by
      rw [hsq]
      exact Located.nil fun t => by rw [hloc]; decide
    counted := by
      refine ⟨[], Located.nil fun t => ?_, hw⟩
      rw [hpc]
      decide
    thread := by
      intro t
      rw [hthread]
      exact ⟨rfl, .rest⟩
    own := by
      intro t
      rw [hthread, ho, htok]
      exact ⟨(if_neg Owner.noConfusion).symm, False.elim,
        iff_of_false Loc.noConfusion Token.noConfusion, fun _ => iff_of_false id Token.noConfusion⟩
    words := by
      rw [ho, htok, hs, hsq, hcount]
      exact ⟨by simp, by simp, fun _ => rfl, .inl rfl, fun _ => rfl, fun _ => rfl,
        Owner.noConfusion⟩
    wake := by
      intro _ t ht
      rw [hpc] at ht
      exact ht.elim
    unwoken := by
      intro t ht
      rw [hm] at ht
      cases ht
    crit_ok := hm ▸ Holder.left
    failed := hfailed
    carried := hcarried }

theorem inv_reachable (h : (system a).Reachable s) : Inv a s :=
  h.invariant (P := Inv a) (fun _ => inv_initial) fun _ e _ hinv hstep => inv_step e hinv hstep

/-! ## What the calls promise -/

/-- No thread is between a lock and its unlock, and none has got the mutex from the kernel. -/
def State.free (s : State) : Prop := ∀ t, s.held t = 0 ∧ s.loc t ≠ .granted

/-- A wake-up is under way: the signal is stored, or a thread is in the syscall that unlocks. -/
def State.signalled (s : State) : Prop := s.signaled ≠ 0 ∨ ∃ u, (s.pc u).unlocking

structure Safe (a : Attr) (s : State) : Prop where
  exclusive : ∀ t u, 0 < s.held t → 0 < s.held u → t = u
  waiter : ∃ ts : List Tid, ts.Nodup ∧ (∀ t, t ∈ ts ↔ (s.pc t).counted = true) ∧ s.waiter = ts.length
  carried : s.carried = false
  wake : s.free → s.sq ≠ [] → s.signalled ∨ (a.retry = true ∧ ((∃ u, s.loc u = .woken) ∨ s.gaveUp = true))
  failed : s.failed = false

theorem Inv.owner_of_held (h : Inv a s) (ht : 0 < s.held t) : s.owner = .thread t := by
  by_contra ho
  have hzero := h.held_of_not_owner ho
  omega

theorem Inv.signalled_of_free (h : Inv a s) (hfree : s.free) (hsq : s.sq ≠ []) : s.signalled ∨
      (a.retry = true ∧ ((∃ u, s.loc u = .woken) ∨ s.gaveUp = true)) := by
  cases ho : s.owner with
  | free =>
    have ⟨t, ht⟩ := exists_mem_of_ne_nil _ hsq
    have hb := (h.queued ((h.queue.mem_iff t).mp ht)).1
    have hcom : (s.pc t).committed := by
      cases hpc : s.pc t <;> rw [hpc] at hb <;> first | exact hb.elim | trivial
    have ⟨hr, hw⟩ := h.wake ho t hcom
    rcases hw with hw | hw | hw
    · exact .inl (.inl hw)
    · exact .inl (.inr hw)
    · exact .inr ⟨hr, hw⟩
  | reserved =>
    have htok := h.words.reserved.mp ho
    cases hk : s.token with
    | none => exact absurd hk htok
    | unlocker u =>
      have hr : a.retry = false := by
        by_contra hr
        rw [h.words.retry (by simpa using hr)] at htok
        exact htok rfl
      exact .inl (.inr ⟨u, ((h.own u).unlocking hr).mpr hk⟩)
    | signal =>
      refine .inl (.inl fun hz => ?_)
      have hbit := h.words.signal.mp hk
      rw [hz] at hbit
      cases hbit
    | thread u => exact absurd ((h.own u).granted.mpr hk) (hfree u).2
  | dead => exact absurd ho h.words.alive
  | thread u =>
    have hheld := h.held_of_owner ho
    have hzero := (hfree u).1
    omega

/-- The mutex has one holder at most, the number of waiters is exact, neither exception is thrown, and no wake-up is
lost: with `SYS_SYNC_RETRY` as long as no thread that was woken has given up. -/
theorem lwmutex_safe {a : Attr} {s : State} (h : (system a).Reachable s) : Safe a s := by
  have hinv := inv_reachable h
  have ⟨ts, hts, hn⟩ := hinv.counted
  exact
  { exclusive := by
      intro t u ht hu
      have htu := (hinv.owner_of_held ht).symm.trans (hinv.owner_of_held hu)
      exact Owner.thread.inj htu
    waiter := ⟨ts, hts.nodup, hts.mem_iff, hn⟩
    carried := hinv.carried
    wake := hinv.signalled_of_free
    failed := hinv.failed }

/-- A thread waits while the unlocking thread has put the mutex into the hands of the kernel. -/
theorem lwmutex_safe_handing_over : ∃ s, (system ⟨.fifo, false⟩).Reachable s ∧ s.owner = .reserved ∧
      s.sq = [⟨2, by decide, by decide⟩] ∧ s.waiter = 1 ∧ Safe ⟨.fifo, false⟩ s := by
  let o : Tid := ⟨1, by decide, by decide⟩
  let t : Tid := ⟨2, by decide, by decide⟩
  have ⟨s, hs, ho, hsq, hw⟩ := System.Reachable.exists_of_run (M := system ⟨.fifo, false⟩) initial_created
    ([.lock o false, .run o] ++ .lock t false :: replicate 17 (.run t) ++ [.unlock o, .run o, .run o, .run o])
    (fun s => s.owner = .reserved ∧ s.sq = [t] ∧ s.waiter = 1) (by decide +kernel)
  exact ⟨s, hs, ho, hsq, hw, lwmutex_safe hs⟩

/-- With `SYS_SYNC_RETRY` a thread that is woken while its time is up returns without trying again,
and the one behind it in the queue sleeps on: the mutex is free and nobody else is in a call. -/
theorem retry_loses_wakeup : ∃ s, (system ⟨.retry, false⟩).Reachable s ∧ s.owner = .free ∧ s.free ∧ s.sq ≠ [] ∧
      ¬ s.signalled ∧ ∀ u, u ∉ s.sq → s.pc u = .idle := by
  let o : Tid := ⟨1, by decide, by decide⟩
  let t : Tid := ⟨2, by decide, by decide⟩
  let u : Tid := ⟨3, by decide, by decide⟩
  -- `t` is woken, finds the mutex taken and waits again, now before `u`
  let es : List Event :=
    [.lock o false, .run o] ++ .lock t true :: replicate 17 (.run t) ++
      .unlock o :: replicate 7 (.run o) ++ [.lock o false, .run o] ++
      replicate 18 (.run t) ++ .lock u false :: replicate 17 (.run u) ++
      .unlock o :: replicate 7 (.run o) ++ [.run t, .expire t, .run t]
  have ⟨s, hrun, ho, hsq, hs, hpo, hpt, hpu⟩ := System.exists_run (M := system ⟨.retry, false⟩) .created es
    (fun s => s.owner = .free ∧ s.sq = [u] ∧ s.signaled = 0 ∧ s.pc o = .idle ∧ s.pc t = .idle ∧
      s.pc u = .sysWait ⟨false, false⟩) (by decide +kernel)
  have hreach : (system ⟨.retry, false⟩).Reachable s := ⟨.created, es, initial_created, hrun⟩
  have hinv := inv_reachable hreach
  have hidle : ∀ v, v ≠ u → s.pc v = .idle := by
    intro v hvu
    by_cases hvo : v = o
    · rw [hvo, hpo]
    by_cases hvt : v = t
    · rw [hvt, hpt]
    have htids : ∀ e ∈ es, e.tid = o ∨ e.tid = t ∨ e.tid = u := by decide +kernel
    rw [run_pc _ hrun]
    · rfl
    · intro e he hve
      rcases htids e he with hx | hx | hx
      · exact hvo (hve.trans hx)
      · exact hvt (hve.trans hx)
      · exact hvu (hve.trans hx)
  refine ⟨s, hreach, ho, ?_, by rw [hsq]; decide, ?_, ?_⟩
  · exact fun v => ⟨hinv.held_of_not_owner (by rw [ho]; exact Owner.noConfusion),
      hinv.not_granted rfl⟩
  · rintro (hne | ⟨v, hv⟩)
    · exact hne hs
    by_cases hvu : v = u
    · rw [hvu, hpu] at hv
      exact hv
    · rw [hidle v hvu] at hv
      exact hv
  · intro v hv
    rw [hsq, mem_singleton] at hv
    exact hidle v hv

end Armsx3.Lv2.Lwmutex
