import Armsx3.Lv2.LwmutexOwner

/-!
# How a lightweight mutex changes hands

In guest memory a thread takes a mutex that is free, frees one without waiters, or puts it into the
kernel's hands; in the kernel the signal is stored and taken, and a thread is taken out of the queue.
-/

namespace Armsx3.Lv2.Lwmutex

open Function Owner

section Words

variable {a : Attr} {s : State} (h : Inv a s) {t : Tid} {p q : Pc} {g : Tid → CellError}
include h

theorem Inv.held_of_owner (ho : s.owner = .thread t) : s.held t = s.recursiveCount + 1 := by
  have hheld := (h.own t).held
  rw [if_pos ho] at hheld
  exact hheld

theorem Inv.held_of_not_owner (ho : s.owner ≠ .thread t) : s.held t = 0 := by
  have hheld := (h.own t).held
  rw [if_neg ho] at hheld
  exact hheld

theorem Inv.token_eq_none (ho : s.owner ≠ .reserved) : s.token = .none := by
  by_contra ht
  exact ho (h.words.reserved.mpr ht)

theorem Inv.not_granted (hr : a.retry = true) : s.loc t ≠ .granted := by
  intro hl
  have htok := (h.own t).granted.mp hl
  rw [h.words.retry hr] at htok
  cases htok

theorem Inv.take {l : Tid → Loc} (hpc : s.pc t = q) (hfree : ∀ k, s.mutex ≠ some (t, k))
    (hq : ¬ q.blocked ∧ ¬ q.announces) (ho : s.owner = .free) (hl : ∀ u, u ≠ t → l u = s.loc u) (hlt : l t = .out)
    (hqueue : Located s.sq l .queue) (hg : ∀ u, u ≠ t → g u = s.gpr3 u) (hp : p = .idle ∨ p = .decLocked)
    (hcounted : p.counted = q.counted) :
    Inv a { s with owner := .thread t, held := update s.held t (s.held t + 1), loc := l
                   pc := update s.pc t p, gpr3 := g } := by
  have htoken := h.token_eq_none (by rw [ho]; decide)
  have hheld : s.held t = 0 := h.held_of_not_owner (by rw [ho]; exact Owner.noConfusion)
  have hcount := h.words.count fun u => by rw [ho]; exact Owner.noConfusion
  have ⟨hrest, hwoken⟩ := h.quiet hpc hq
  refine h.changed ⟨p, .out, g t, 1, .rest⟩ hfree rfl ?_ ?_ ?_ ?_ (fun ht => absurd ht hwoken) ?_ (fun _ _ _ => rfl)
    (fun _ _ => ⟨Iff.rfl, Iff.rfl⟩) hqueue (h.counted.goto hpc hcounted) ?_ nofun h.failed h.carried
  · simp only [State.thread, update_self, hlt, hheld, hrest]
  · intro u hu
    simp only [State.thread, update_of_ne hu, hl u hu, hg u hu]
  · rcases hp with hp | hp <;> rw [hp] <;> exact ⟨rfl, .rest⟩
  · simp only [htoken, hcount]
    rcases hp with hp | hp <;> rw [hp] <;>
      exact ⟨(if_pos rfl).symm, False.elim, iff_of_false Loc.noConfusion Token.noConfusion,
        fun _ => iff_of_false id Token.noConfusion⟩
  · intro u hu
    simp only [ho, thread.injEq, reduceCtorEq, iff_false]
    exact hu.symm
  · exact { h.words with
      reserved := by simp [htoken]
      count := fun hne => absurd rfl (hne t)
      alive := Owner.noConfusion }

theorem Inv.recount {n m : Nat} (hpc : s.pc t = q) (hfree : ∀ k, s.mutex ≠ some (t, k))
    (hq : ¬ q.blocked ∧ ¬ q.announces) (hu : ¬ q.unlocking) (hnc : q.counted = false) (hl : s.loc t = .out)
    (ho : s.owner = .thread t) (hm : m = n + 1) (hg : ∀ u, u ≠ t → g u = s.gpr3 u) :
    Inv a { s with recursiveCount := n, held := update s.held t m
                   pc := update s.pc t .idle, gpr3 := g } := by
  have ⟨hrest, hwoken⟩ := h.quiet hpc hq
  have hown := h.own t
  refine h.changed ⟨.idle, .out, g t, m, .rest⟩ hfree rfl ?_ ?_ ⟨rfl, .rest⟩ ⟨?_, False.elim, ?_, ?_⟩
    (fun ht => absurd ht hwoken) (fun _ _ => Iff.rfl) ?_ (fun _ _ => ⟨Iff.rfl, Iff.rfl⟩) h.queue
    (h.counted.goto hpc hnc.symm) { h.words with count := fun hne => absurd ho (hne t) } ?_ h.failed h.carried
  · simp only [State.thread, update_self, hl, hrest]
  · intro u hu
    simp only [State.thread, update_of_ne hu, hg u hu]
  · simp only [ho, if_true, hm]
  · rw [← hown.granted]
    simp only [State.thread, hl]
  · intro hr
    rw [← hown.unlocking hr]
    exact iff_of_false id (by rw [← hpc] at hu; exact hu)
  · intro u hu hou
    rw [ho, thread.injEq] at hou
    exact absurd hou.symm hu
  · intro hof
    rw [ho] at hof
    cases hof

theorem Inv.relock (hpc : s.pc t = q) (hfree : ∀ k, s.mutex ≠ some (t, k)) (hq : ¬ q.blocked ∧ ¬ q.announces)
    (hu : ¬ q.unlocking) (hnc : q.counted = false) (hl : s.loc t = .out) (ho : s.owner = .thread t) :
    Inv a (s.relock a t) := by
  have hret : ∀ e, Inv a (s.ret t e) := fun e =>
    h.outside hpc hfree hq (fun u hu => update_of_ne hu _ _) hl
      (h.counted.goto hpc hnc.symm) False.elim (iff_of_false id hu) False.elim
  unfold State.relock
  split
  · split
    · exact hret _
    · apply h.recount hpc hfree hq hu hnc hl ho
      · rw [h.held_of_owner ho]
      · exact fun u hu => update_of_ne hu _ _
  · exact hret _

theorem Inv.place_out (hpc : (s.pc t).owning ∨ (s.pc t).unlocking) :
    (¬ (s.pc t).blocked ∧ ¬ (s.pc t).announces) ∧ (s.pc t).counted = false ∧ s.loc t = .out := by
  have hpl := h.place (t := t) rfl
  cases hq : s.pc t <;> rw [hq] at hpc hpl <;>
    first | exact (hpc.elim id id).elim | exact ⟨⟨id, id⟩, rfl, hpl⟩

theorem Inv.disown {o : Owner} {k : Token} (hfree : ∀ k, s.mutex ≠ some (t, k)) (hpc : (s.pc t).owning)
    (hnc : p.counted = false) (hg : ∀ u, u ≠ t → g u = s.gpr3 u) (hplace : PlaceOk a p .out (g t)) (hpo : ¬ p.owning)
    (hcase : (o = .free ∧ k = .none ∧ p = .idle ∧ s.waiter = 0) ∨
      (o = .free ∧ k = .none ∧ a.retry = true ∧ p.unlocking) ∨
      (o = .reserved ∧ k = .unlocker t ∧ a.retry = false ∧ p.unlocking)) :
    Inv a { s with owner := o, token := k, held := update s.held t (s.held t - 1)
                   pc := update s.pc t p, gpr3 := g } := by
  have ⟨ho, hcount⟩ : s.owner = .thread t ∧ s.recursiveCount = 0 := (h.own t).owning hpc
  have htoken := h.token_eq_none (by rw [ho]; exact Owner.noConfusion)
  have hheld := h.held_of_owner ho
  have ⟨hq, hoc, hl⟩ := h.place_out (.inl hpc)
  have ⟨hrest, hwoken⟩ := h.quiet rfl hq
  have hcounted := h.counted.goto rfl (hnc.trans hoc.symm)
  have hothers : ∀ u, o ≠ .thread u := by
    intro u
    rcases hcase with hx | hx | hx <;> rw [hx.1] <;> exact Owner.noConfusion
  have hkt : ∀ u, k ≠ .thread u := by
    intro u
    rcases hcase with hx | hx | hx <;> rw [hx.2.1] <;> exact Token.noConfusion
  refine h.changed ⟨p, .out, g t, 0, .rest⟩ hfree rfl ?_ ?_ ⟨hplace, .rest⟩
    ⟨by rw [if_neg (hothers t)], fun hp => absurd hp hpo, iff_of_false Loc.noConfusion (hkt t), ?_⟩
    (fun ht => absurd ht hwoken) ?_ (fun _ _ _ => rfl) ?_ h.queue hcounted ?_ ?_ h.failed h.carried
  · simp only [State.thread, update_self, hl, hrest, hheld, hcount]
  · intro u hu
    simp only [State.thread, update_of_ne hu, hg u hu]
  · intro hr
    rcases hcase with hx | hx | hx
    · rw [hx.2.1, hx.2.2.1]
      exact iff_of_false id Token.noConfusion
    · rw [hr] at hx
      cases hx.2.2.1
    · exact iff_of_true hx.2.2.2 hx.2.1
  · intro u hu
    apply iff_of_false (hothers u)
    rw [ho, thread.injEq]
    exact hu.symm
  · intro u hu
    rw [htoken]
    refine ⟨iff_of_false (hkt u) Token.noConfusion, iff_of_false ?_ Token.noConfusion⟩
    rcases hcase with hx | hx | hx <;> rw [hx.2.1] <;> simp only [reduceCtorEq, not_false_eq_true, Token.unlocker.injEq]
    exact hu.symm
  · have hsig := h.words.signal
    rw [htoken] at hsig
    rcases hcase with hx | hx | hx <;> rw [hx.1, hx.2.1]
    · exact { h.words with
        reserved := by simp, signal := hsig, retry := fun _ => rfl, count := fun _ => hcount
        alive := Owner.noConfusion }
    · exact { h.words with
        reserved := by simp, signal := hsig, retry := fun _ => rfl, count := fun _ => hcount
        alive := Owner.noConfusion }
    · exact { h.words with
        reserved := by simp
        signal := by
          rw [← hsig]
          simp
        retry := fun hr => by rw [hx.2.2.1] at hr; cases hr
        count := fun _ => hcount
        alive := Owner.noConfusion }
  · intro hof u hu
    rcases hcase with hx | hx | hx
    · -- nobody is counted, so nobody is in the syscall
      have hpos := hcounted.pos (Pc.counted_of_committed hu)
      omega
    · exact ⟨hx.2.2.1, .inr (.inl ⟨t, by simp only [update_self]; exact hx.2.2.2⟩)⟩
    · rw [hx.1] at hof
      cases hof

theorem Inv.relocate {l : Loc} {sq : List Tid} {sched : Sched} {b : Bool} (hpc : s.pc t = q)
    (hfree : ∀ k, s.mutex ≠ some (t, k)) (hwoken : toWake s.mutex ≠ some t)
    (hsched : ∀ u, u ≠ t → sched.flags u = s.sched.flags u) (hg : ∀ u, u ≠ t → g u = s.gpr3 u)
    (hthread : ThreadOk a ⟨p, l, g t, s.held t, sched.flags t⟩)
    (hl : s.loc t ≠ .granted ∧ l ≠ .granted)
    (hqueue : Located sq (update s.loc t l) .queue) (hstored : s.signaled ≠ 0 → sq = [])
    (hcounted : p.counted = q.counted) (hp : ¬ p.owning ∧ ¬ p.unlocking ∧ ¬ q.unlocking)
    (hwake : WakeOk a { s with sq := sq, sched := sched, loc := update s.loc t l
                               pc := update s.pc t p, gpr3 := g, gaveUp := b }) :
    Inv a { s with sq := sq, sched := sched, loc := update s.loc t l
                   pc := update s.pc t p, gpr3 := g, gaveUp := b } := by
  subst hpc
  have hown := h.own t
  refine h.changed ⟨p, l, g t, s.held t, sched.flags t⟩ hfree rfl ?_ ?_ hthread
    ⟨hown.held, fun ho => absurd ho hp.1, ?_, ?_⟩ (fun ht => absurd ht hwoken) (fun _ _ => Iff.rfl) (fun _ _ _ => rfl)
    (fun _ _ => ⟨Iff.rfl, Iff.rfl⟩) hqueue (h.counted.goto rfl hcounted) { h.words with stored := hstored } hwake
    h.failed h.carried
  · simp only [State.thread, update_self]
  · intro u hu
    simp only [State.thread, update_of_ne hu, hsched u hu, hg u hu]
  · rw [← hown.granted]
    exact iff_of_false hl.2 hl.1
  · intro hr
    rw [← hown.unlocking hr]
    exact iff_of_false hp.2.1 hp.2.2

theorem Inv.signal_cases (hs : s.signaled ≠ 0) : (a.retry = false ∧ s.signaled.getLsbD 0 = true ∧ s.token = .signal) ∨
    (a.retry = true ∧ s.signaled.getLsbD 0 = false) := by
  have hv := h.words.value.resolve_left hs
  cases hr : a.retry with
  | false =>
    rw [hr] at hv
    have hbit : s.signaled.getLsbD 0 = true := by rw [hv]; rfl
    exact .inl ⟨rfl, hbit, h.words.signal.mpr hbit⟩
  | true =>
    rw [hr] at hv
    exact .inr ⟨rfl, by rw [hv]; rfl⟩

theorem Inv.takeSignal {sched : Sched} (hpc : s.pc t = q) (hfree : ∀ k, s.mutex ≠ some (t, k))
    (hs : s.signaled ≠ 0) (hb : ¬ q.blocked) (hl : s.loc t = .out)
    (hsched : ∀ u, u ≠ t → sched.flags u = s.sched.flags u) (hrest : sched.flags t = .rest)
    (hplace : ∀ l e, Released a l e → (a.retry = false → l = .granted) → PlaceOk a p l e)
    (hcounted : p.counted = q.counted) (hp : ¬ p.owning ∧ ¬ p.unlocking ∧ ¬ p.committed) :
    Inv a { s.takeSignal t with sched := sched, pc := update s.pc t p } := by
  have hcases := h.signal_cases hs
  refine h.changed ⟨p, if s.signaled.getLsbD 0 then .granted else .woken, signalResult s.signaled, s.held t, .rest⟩
    hfree rfl ?_ ?_ ⟨?_, .rest⟩ ⟨(h.own t).held, fun ho => absurd ho hp.1, ?_, ?_⟩
    (fun ht => absurd (hpc ▸ (h.unwoken t ht).blocked) hb) (fun _ _ => Iff.rfl) (fun _ _ _ => rfl) ?_ ?_
    (h.counted.goto hpc hcounted) ?_ ?_ h.failed h.carried
  · simp only [State.thread, State.takeSignal, update_self, hrest]
  · intro u hu
    simp only [State.thread, State.takeSignal, update_of_ne hu, hsched u hu]
  · rcases hcases with ⟨hr, hbit, _⟩ | ⟨hr, hbit⟩
    · simp only [signalResult, hbit, if_true]
      exact hplace _ _ (.inl ⟨rfl, rfl⟩) fun _ => rfl
    · simp only [signalResult, hbit, Bool.false_eq_true, if_false]
      exact hplace _ _ (.inr ⟨rfl, rfl, hr⟩) fun hr' => by rw [hr] at hr'; cases hr'
  · rcases hcases with ⟨_, hbit, _⟩ | ⟨hr, hbit⟩
    · simp only [State.takeSignal, hbit, if_true]
    · simp only [State.takeSignal, hbit, Bool.false_eq_true, if_false, h.words.retry hr, reduceCtorEq]
  · intro hr
    rcases hcases with ⟨_, hbit, _⟩ | ⟨hr', _⟩
    · simp only [State.takeSignal, hbit, if_true, reduceCtorEq, iff_false]
      exact hp.2.1
    · rw [hr] at hr'
      cases hr'
  · intro u hu
    rcases hcases with ⟨_, hbit, htok⟩ | ⟨_, hbit⟩
    · simp only [State.takeSignal, hbit, if_true, htok, Token.thread.injEq, reduceCtorEq, iff_false, and_true]
      exact hu.symm
    · simp only [State.takeSignal, hbit, Bool.false_eq_true, if_false, and_self]
  · -- the thread was not in the queue, and does not get there
    apply h.queue.skip (by rw [hl]; decide)
    split <;> decide
  · rcases hcases with ⟨hr, hbit, htok⟩ | ⟨hr, hbit⟩
    · have hres := h.words.reserved.mpr (by rw [htok]; decide)
      simp only [State.takeSignal, hbit, if_true]
      exact ⟨by simp [hres], by simp, fun hr' => absurd (hr.symm.trans hr') Bool.false_ne_true,
        .inl rfl, fun hne => absurd rfl hne, h.words.count, h.words.alive⟩
    · simp only [State.takeSignal, hbit, Bool.false_eq_true, if_false]
      exact ⟨h.words.reserved, by simp [h.words.retry hr], h.words.retry, .inl rfl,
        fun hne => absurd rfl hne, h.words.count, h.words.alive⟩
  · intro hof u hu
    have hcom := committed_update (fun hc => absurd hc hp.2.2) u hu
    have hr := (h.wake hof u hcom).1
    refine ⟨hr, .inr (.inr (.inl ⟨t, ?_⟩))⟩
    rcases hcases with ⟨hr', _, _⟩ | ⟨_, hbit⟩
    · rw [hr] at hr'
      cases hr'
    · simp only [State.takeSignal, update_self, hbit, Bool.false_eq_true, if_false]

theorem Inv.storeSignal (hfree : ∀ k, s.mutex ≠ some (t, k)) (hpc : (s.pc t).unlocking) (hsq : s.sq = [])
    (hg : ∀ u, u ≠ t → g u = s.gpr3 u) :
    Inv a { s.storeSignal a.retry with pc := update s.pc t .idle, gpr3 := g } := by
  have ⟨hq, hnc, hl⟩ := h.place_out (.inr hpc)
  have ⟨hrest, hwoken⟩ := h.quiet rfl hq
  have hown := h.own t
  have hv : s.signaled ||| signalBit a.retry = signalBit a.retry := by
    rcases h.words.value with hv | hv
    · rw [hv]
      exact BitVec.zero_or
    · rw [hv]
      exact BitVec.or_self
  -- without `SYS_SYNC_RETRY` the thread has the mutex in its hands
  have htok := fun hr => (hown.unlocking hr).mp hpc
  refine h.changed ⟨.idle, .out, g t, s.held t, .rest⟩ hfree rfl ?_ ?_ ⟨rfl, .rest⟩ ⟨hown.held, False.elim, ?_, ?_⟩
    (fun ht => absurd ht hwoken) (fun _ _ => Iff.rfl) (fun _ _ _ => rfl) ?_ h.queue (h.counted.goto rfl hnc.symm) ?_ ?_
    h.failed h.carried
  · simp only [State.thread, State.storeSignal, update_self, hl, hrest]
  · intro u hu
    simp only [State.thread, State.storeSignal, update_of_ne hu, hg u hu]
  · cases hr : a.retry with
    | false => simp [State.storeSignal]
    | true => simp [State.storeSignal, h.words.retry hr]
  · intro hr
    apply iff_of_false id
    simp [State.storeSignal, hr]
  · intro u hu
    cases hr : a.retry with
    | false => simp [State.storeSignal, htok hr, hu.symm]
    | true => simp [State.storeSignal]
  · simp only [State.storeSignal, hv]
    cases hr : a.retry with
    | false =>
      have hres := h.words.reserved.mpr (by rw [htok hr]; exact Token.noConfusion)
      simp only [Bool.false_eq_true, if_false]
      exact ⟨by simp [hres], by decide, fun hr' => absurd (hr.symm.trans hr') Bool.false_ne_true,
        .inr (by rw [hr]), fun _ => hsq, h.words.count, h.words.alive⟩
    | true =>
      exact ⟨h.words.reserved, by rw [h.words.retry hr]; decide, h.words.retry, .inr (by rw [hr]),
        fun _ => hsq, h.words.count, h.words.alive⟩
  · intro hof u hu
    have hcom := committed_update False.elim u hu
    refine ⟨(h.wake hof u hcom).1, .inl ?_⟩
    show s.signaled ||| signalBit a.retry ≠ 0
    rw [hv, signalBit]
    split <;> decide

theorem Inv.exchangeOwner (hfree : ∀ k, s.mutex ≠ some (t, k)) (hpc : s.pc t = q)
    (hcase : q = .exchange ∨ q = .tryExchange) (hg : ∀ u, u ≠ t → g u = s.gpr3 u) :
    Inv a { s.exchangeOwner t with pc := update s.pc t .idle, gpr3 := g } := by
  have ⟨hq, hnc, hl⟩ : (¬ q.blocked ∧ ¬ q.announces) ∧ q.counted = false ∧ s.loc t = .granted := by
    have hpl := h.place hpc
    rcases hcase with hq | hq <;> rw [hq] at hpl ⊢ <;> exact ⟨⟨id, id⟩, rfl, hpl⟩
  have ⟨hrest, hwoken⟩ := h.quiet hpc hq
  have htok := (h.own t).granted.mp hl
  have hres := h.words.reserved.mpr (by rw [htok]; exact Token.noConfusion)
  have hheld : s.held t = 0 := h.held_of_not_owner (by rw [hres]; exact Owner.noConfusion)
  have hcount := h.words.count fun u => by rw [hres]; exact Owner.noConfusion
  have hbit : s.signaled.getLsbD 0 ≠ true := by
    intro hbit
    have hsig := h.words.signal.mpr hbit
    rw [htok] at hsig
    cases hsig
  refine h.changed ⟨.idle, .out, g t, 1, .rest⟩ hfree rfl ?_ ?_ ⟨rfl, .rest⟩ ?_ (fun ht => absurd ht hwoken) ?_
    (fun _ _ _ => rfl) ?_ (h.queue.skip (by rw [hl]; decide) (by decide)) (h.counted.goto hpc hnc.symm) ?_ nofun ?_
    h.carried
  · simp only [State.thread, State.exchangeOwner, State.own, update_self, hrest, hheld]
  · intro u hu
    simp only [State.thread, State.exchangeOwner, State.own, update_of_ne hu, hg u hu]
  · simp only [State.exchangeOwner, State.own, hcount]
    exact ⟨(if_pos rfl).symm, False.elim, iff_of_false Loc.noConfusion Token.noConfusion,
      fun _ => iff_of_false id Token.noConfusion⟩
  · intro u hu
    simp [State.exchangeOwner, State.own, hres, hu.symm]
  · intro u hu
    simp [State.exchangeOwner, htok, hu.symm]
  · exact { h.words with
      reserved := by simp [State.exchangeOwner, State.own]
      signal := iff_of_false Token.noConfusion hbit
      retry := fun _ => rfl
      count := fun hne => absurd rfl (hne t)
      alive := Owner.noConfusion }
  · simp [State.exchangeOwner, State.own, hres, h.failed]

end Words

end Armsx3.Lv2.Lwmutex
