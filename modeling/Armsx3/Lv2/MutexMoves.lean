import Armsx3.Lv2.MutexOwner

/-!
# How a mutex changes hands

It does so in four ways: a thread takes a mutex that is free, the owner frees one nobody waits for,
the owner gives it to a thread of the queue (`reown`), and a thread that is signalled while it is
free gets it (`try_own`).
-/

namespace Armsx3.Lv2.Mutex

open Function List Option

variable {s : State}

theorem ne_of_owner {t u : Tid} (ho : s.owner = some t) (hu : u ≠ t) : s.owner ≠ some u :=
  fun hou => hu (some.inj (ho.symm.trans hou)).symm

theorem retLocked_of_out {t : Tid} (hl : s.loc t = .out) :
    s.retLocked t = { s with held := update s.held t (s.held t + 1) }.ret t .ok := by
  unfold State.retLocked
  rw [← hl, update_eq_self]

section Owner

variable {s : State} (h : Inv s) {t : Tid} {q : Pc} {g : Tid → CellError}
include h

theorem Inv.setOwner {o : Option Tid} {n m : Nat} (hfree : ∀ k, s.mutex ≠ some (t, k)) (hpc : s.pc t = q)
    (hq : ¬ q.blocked) (howner : ∀ u, u ≠ t → (o = some u ↔ s.owner = some u))
    (hcount : ∀ u, u ≠ t → s.owner = some u → n = s.lockCount)
    (hnone : o = none → s.sq = [] ∧ n = 0) (hown : o = some t → m = n + 1)
    (hnot : o ≠ some t → m = 0) :
    Inv { s with owner := o, lockCount := n, held := update s.held t m
                 pc := update s.pc t .idle, gpr3 := g } := by
  have ⟨hl, hun, hsig, hasl, hcan⟩ := h.out hpc hq
  refine h.changed ⟨.idle, .out, m, s.entry t, false, false, 0⟩ ?_ ?_ howner hcount (threadOk_out id m _)
    (ownOk_idle rfl rfl rfl hown hnot) h.queue h.conds hnone (fun _ _ => id) (fun ht => absurd ht hun)
    (h.crit_update hfree .idle) h.failed
  · simp only [State.thread, update_self, hl, hsig, hasl, hcan]
  · intro u hu
    simp only [State.thread, update_of_ne hu]

theorem Inv.held_of_not_owner (hpc : s.pc t = q) (hq : ¬ q.blocked) (ho : s.owner ≠ some t) : s.held t = 0 :=
  (h.own t).others (h.out hpc hq).1 ho

theorem Inv.held_of_owner (hpc : s.pc t = q) (hq : ¬ q.blocked) (ho : s.owner = some t) :
    s.held t = s.lockCount + 1 := by
  apply ((h.own t).holds ho _).2
  show s.loc t ≠ .owner
  rw [(h.out hpc hq).1]
  simp

section

variable (hfree : ∀ k, s.mutex ≠ some (t, k))
include hfree

section

variable (hpc : s.pc t = q)
include hpc

theorem Inv.acquire (hq : ¬ q.blocked) (ho : s.owner = none) : Inv ({ s with owner := some t }.retLocked t) := by
  have hheld := h.held_of_not_owner hpc hq (by rw [ho]; simp)
  have hcount := (h.free ho).2
  rw [retLocked_of_out (s := { s with owner := some t }) (h.out hpc hq).1]
  apply h.setOwner hfree hpc hq
  · exact fun u hu => iff_of_false (fun heq => hu (some.inj heq).symm) (by rw [ho]; simp)
  · exact fun _ _ _ => rfl
  · exact nofun
  · intro _
    show s.held t + 1 = s.lockCount + 1
    omega
  · exact fun hne => absurd rfl hne

theorem Inv.setCount {n m : Nat} (hq : ¬ q.blocked) (ho : s.owner = some t) (hm : m = n + 1) :
    Inv { s with lockCount := n, held := update s.held t m, pc := update s.pc t .idle, gpr3 := g } :=
  h.setOwner hfree hpc hq (fun _ _ => Iff.rfl) (fun _ hu hou => absurd hou (ne_of_owner ho hu))
    (fun hnone => by rw [ho] at hnone; cases hnone) (fun _ => hm) fun hne => absurd ho hne

theorem Inv.relock {a : Attr} (hq : ¬ q.blocked) (ho : s.owner = some t) : Inv (s.relock a t) := by
  have hheld := h.held_of_owner hpc hq ho
  have hret : ∀ e, Inv (s.ret t e) := fun e => h.ret hfree hpc hq
  unfold State.relock
  split
  · split
    · exact hret _
    · rw [retLocked_of_out (s := { s with lockCount := s.lockCount + 1 }) (h.out hpc hq).1]
      exact h.setCount hfree hpc hq ho (by rw [hheld])
  · exact hret _

theorem Inv.unrelock (hq : ¬ q.blocked) (ho : s.owner = some t) (hcount : s.lockCount ≠ 0) :
    Inv (({ s with lockCount := s.lockCount - 1 }.unlocked t).ret t .ok) := by
  have hheld := h.held_of_owner hpc hq ho
  apply h.setCount hfree hpc hq ho
  show s.held t - 1 = s.lockCount - 1 + 1
  omega

theorem Inv.release (hq : ¬ q.blocked) (ho : s.owner = some t) (hsq : s.sq = []) (hcount : s.lockCount = 0) :
    Inv (({ s with owner := none }.unlocked t).ret t .ok) := by
  have hheld := h.held_of_owner hpc hq ho
  apply h.setOwner (o := none) hfree hpc hq
  · exact fun u hu => iff_of_false (by simp) (ne_of_owner ho hu)
  · exact fun _ _ _ => rfl
  · exact fun _ => ⟨hsq, hcount⟩
  · exact nofun
  · intro _
    show s.held t - 1 = 0
    omega

end

theorem Inv.retOwner {sched : Sched} {n : Nat} {held : Tid → Nat}
    (hl : s.loc t = .owner) (hun : t ∉ Mutex.appended s.mutex) (hsched : SameBut t sched s.sched)
    (hself : sched.signal t = false ∧ sched.asleep t = false ∧ sched.cancelSleep t = 0)
    (hothers : ∀ u, u ≠ t → held u = s.held u) (hheld : held t = n + 1) :
    Inv { s with sched := sched, lockCount := n, loc := update s.loc t .out, held := held
                 pc := update s.pc t .idle, gpr3 := g } := by
  have ho := ((h.own t).handed hl).1
  refine h.changed ⟨.idle, .out, n + 1, s.entry t, false, false, 0⟩ ?_ ?_ (fun _ _ => Iff.rfl)
    (fun u hu hou => absurd hou (ne_of_owner ho hu)) (threadOk_out id _ _)
    (ownOk_idle rfl rfl rfl (fun _ => rfl) fun hne => absurd ho hne) (h.queue.skip (by rw [hl]; decide) (by decide))
    (fun c => (h.conds c).skip (by rw [hl]; simp) (by simp)) ?_ (fun _ _ => id) (fun ht => absurd ht hun)
    (h.crit_update hfree .idle) h.failed
  · simp only [State.thread, update_self, hheld, hself.1, hself.2.1, hself.2.2]
  · intro u hu
    obtain ⟨h1, h2, h3⟩ := hsched u hu
    simp only [State.thread, update_of_ne hu, h1, h2, h3, hothers u hu]
  · intro hnone
    rw [ho] at hnone
    cases hnone

end

end Owner

/-! ## Moves between the queues -/

theorem placeOk_of_waits {p : Pc} {l : Loc} {n e : Nat} (h : PlaceOk p l n e) (hout : l ≠ .out) (howner : l ≠ .owner) :
    p.blocked ∧ ¬ p.returns ∧ PlaceOk p .queue n e ∧ PlaceOk p .owner n e := by
  cases p <;> simp only [PlaceOk] at h <;> first | exact absurd h hout | exact absurd h.1 howner | skip
  all_goals
    have hn := h.2
    simp [PlaceOk, Pc.blocked, Pc.returns, hn]

section Moves

variable {s : State} (h : Inv s) {x : Tid} {c : CondId}
include h

variable {m : Option (Tid × Crit)}

theorem Inv.conds_remove {rest : List Tid} {l : Loc} (hperm : (s.cq c).Perm (x :: rest)) (hl : ∀ c', l ≠ .cond c')
    (hdet : ∀ c', detached m c' = detached s.mutex c') (c' : CondId) :
    Located (update s.cq c rest c' ++ detached m c') (update s.loc x l) (.cond c') := by
  have hold := h.conds c'
  have hx : s.loc x = .cond c := by
    apply ((h.conds c).mem_iff x).mp
    exact mem_append_left _ (hperm.mem_iff.mpr mem_cons_self)
  rw [hdet c']
  by_cases hc : c' = c
  · rw [hc, update_self]
    rw [hc] at hold
    exact hold.remove (hperm.append_right _) (hl c)
  · rw [update_of_ne hc]
    apply hold.skip _ (hl c')
    rw [hx]
    simpa using Ne.symm hc

theorem Inv.conds_remove_detached {t : Tid} {sq rest : List Tid} {r r' : Option Tid} {l : Loc}
    (hm : s.mutex = some (t, .signalAllLoop c sq r)) (hperm : sq.Perm (x :: rest))
    (hl : ∀ c', l ≠ .cond c') (c' : CondId) : Located (s.cq c' ++ detached (some (t, .signalAllLoop c rest r')) c')
      (update s.loc x l) (.cond c') := by
  have hold := h.conds c'
  have hx : s.loc x = .cond c := by
    apply ((h.conds c).mem_iff x).mp
    apply mem_append_right
    rw [hm]
    simp only [detached, if_true]
    exact hperm.mem_iff.mpr mem_cons_self
  unfold State.condQueue at hold
  rw [hm] at hold
  by_cases hc : c' = c
  · rw [hc] at hold ⊢
    simp only [detached, if_true] at hold ⊢
    apply hold.remove _ (hl c)
    exact (hperm.append_left _).trans perm_middle
  · simp only [detached, if_neg (Ne.symm hc)] at hold ⊢
    apply hold.skip _ (hl c')
    rw [hx]
    simpa using Ne.symm hc

theorem Inv.requeue {cq : CondId → List Tid} {g : Tid → CellError} (hx : s.loc x = .cond c) (ho : s.owner ≠ none)
    (hconds : ∀ c', Located (cq c' ++ detached m c') (update s.loc x .queue) (.cond c'))
    (happ : ∀ u ∈ Mutex.appended m, u ∈ Mutex.appended s.mutex)
    (hcrit : ∀ t k, m = some (t, k) → CritOk k (s.pc t)) :
    Inv { s with sq := x :: s.sq, sched := s.sched.enqueued x, cq := cq, mutex := m, gpr3 := g
                 loc := update s.loc x .queue } := by
  have hplace := h.place (t := x) rfl
  rw [hx] at hplace
  have ⟨hb, _, hqueue, _⟩ := placeOk_of_waits hplace (by simp) (by simp)
  have hne : s.loc x ≠ .owner := by
    rw [hx]
    simp
  have hnot := h.owner_ne_of_loc hne (by rw [hx]; simp)
  refine h.changed { s.thread x with loc := .queue } ?_ ?_ (fun _ _ => Iff.rfl) (fun _ _ _ => rfl)
    (threadOk_move (h.thread x) hne hqueue) (ownOk_waits (by simp) (by simp) hb hnot)
    (h.queue.cons (by rw [hx]; simp)) hconds (fun hnone => absurd hnone ho) (fun u _ => happ u)
    (fun hin => absurd (happ x hin) (h.not_appended hne)) hcrit h.failed
  · simp only [State.thread, update_self, Sched.enqueued]
  · intro u hu
    simp only [State.thread, update_of_ne hu, Sched.enqueued]

theorem Inv.handover {cq : CondId → List Tid} {g : Tid → CellError} (hx : s.loc x = .cond c) (ho : s.owner = none)
    (hconds : ∀ c', Located (cq c' ++ detached m c') (update s.loc x .owner) (.cond c'))
    (happ : ∀ u ∈ Mutex.appended m, u = x ∨ u ∈ Mutex.appended s.mutex)
    (hcrit : ∀ t k, m = some (t, k) → CritOk k (s.pc t)) :
    Inv { s with owner := some x, cq := cq, mutex := m, gpr3 := g
                 loc := update s.loc x .owner } := by
  have hplace := h.place (t := x) rfl
  rw [hx] at hplace
  have ⟨hb, hreturns, _, howner⟩ := placeOk_of_waits hplace (by simp) (by simp)
  have hne : (s.thread x).loc ≠ .owner := by
    show s.loc x ≠ _
    rw [hx]
    simp
  refine h.changed { s.thread x with loc := .owner } ?_ ?_ ?_ (fun _ _ _ => rfl)
    (threadOk_move (h.thread x) hne howner) ?_ (h.queue.skip (by rw [hx]; simp) (by simp)) hconds nofun
    (fun u hux hu => (happ u hu).resolve_left hux) (fun _ => unwoken_owner (h.thread x) hne hreturns) hcrit h.failed
  · simp only [State.thread, update_self]
  · intro u hu
    simp only [State.thread, update_of_ne hu]
  · exact fun u hu => iff_of_false (fun heq => hu (some.inj heq).symm) (by rw [ho]; simp)
  · rw [(h.free ho).2]
    exact ownOk_owner rfl hb

end Moves

/-! ## `reown` -/

/-- The state `r` in which the owner `t` of `s` has written all it writes, but for the owner word. -/
structure GaveUp (s r : State) (t : Tid) : Prop where
  others : ∀ u, u ≠ t → r.thread u = s.thread u
  thread : ThreadOk (r.thread t)
  own : ∀ o, o ≠ some t → OwnOk o 0 t (r.thread t)
  count : r.lockCount = 0
  loc : r.loc t ≠ .queue
  queue : Located r.sq r.loc .queue
  failed : r.failed = false

section Reown

variable {s r : State} {t : Tid} {m : Option (Tid × Crit)}

theorem GaveUp.freed (hg : GaveUp s r t) (h : Inv s) (ho : s.owner = some t) (u : Tid) :
    ThreadOk (r.thread u) ∧ OwnOk none 0 u (r.thread u) := by
  by_cases hut : u = t
  · rw [hut]
    exact ⟨hg.thread, hg.own none (by simp)⟩
  · rw [hg.others u hut]
    exact ⟨h.thread u, (h.own u).other (ne_of_owner ho hut) (by simp)⟩

theorem GaveUp.drop (hg : GaveUp s r t) (h : Inv s) (ho : s.owner = some t) (hsq : r.sq = [])
    (hconds : ∀ c, Located (r.cq c ++ detached m c) r.loc (.cond c))
    (happ : appended m = []) (hcrit : ∀ u k, m = some (u, k) → CritOk k (r.pc u)) :
    Inv { r with owner := none, mutex := m } where
  __ := hg
  conds := hconds
  free := fun _ => ⟨hsq, hg.count⟩
  thread := fun u => (hg.freed h ho u).1
  own := by
    intro u
    rw [hg.count]
    exact (hg.freed h ho u).2
  appended := by
    intro u hu
    rw [happ] at hu
    cases hu
  crit_ok := hcrit

theorem GaveUp.pass (hg : GaveUp s r t) (h : Inv s) (ho : s.owner = some t) {v : Tid}
    {sq : List Tid} (hperm : r.sq.Perm (v :: sq))
    (hconds : ∀ c, Located (r.cq c ++ detached m c) r.loc (.cond c))
    (happ : ∀ u ∈ appended m, u = v) (hcrit : ∀ u k, m = some (u, k) → CritOk k (r.pc u)) :
    Inv { r with owner := some v, sq := sq, loc := update r.loc v .owner, mutex := m } := by
  have hv := (hg.queue.mem_iff v).mp (hperm.mem_iff.mpr mem_cons_self)
  have hne : (r.thread v).loc ≠ .owner := by
    show r.loc v ≠ _
    rw [hv]
    simp
  have hok := (hg.freed h ho v).1
  have hplace := hok.place
  change PlaceOk (r.pc v) (r.loc v) (r.held v) (r.entry v) at hplace
  rw [hv] at hplace
  obtain ⟨hb, hreturns, _, howner⟩ := placeOk_of_waits hplace (by simp) (by simp)
  have hself : State.thread { r with owner := some v, sq := sq, mutex := m
                                     loc := update r.loc v .owner } v =
      { r.thread v with loc := .owner } := by
    simp only [State.thread, update_self]
  -- the mutex goes to 0 and from there to the thread that was scheduled
  have hc : Changed { r with owner := none }
      { r with owner := some v, sq := sq, mutex := m, loc := update r.loc v .owner } v :=
    { others := fun u hu => by simp only [State.thread, update_of_ne hu]
      owner := fun u hu => iff_of_false (fun heq => hu (some.inj heq).symm)
        (by rintro ⟨⟩)
      count := fun _ _ _ => rfl
      thread := by
        rw [hself]
        exact threadOk_move hok hne howner
      own := by
        rw [hself]
        rw [hg.count]
        exact ownOk_owner rfl hb }
  exact
  { queue := hg.queue.remove hperm (by simp)
    conds := fun c => (hconds c).skip (by rw [hv]; simp) (by simp)
    free := by rintro ⟨⟩
    thread := hc.threadOk fun u => (hg.freed h ho u).1
    own := by
      apply hc.ownOk
      intro u
      rw [hg.count]
      exact (hg.freed h ho u).2
    appended := by
      intro u hu
      rw [happ u hu, hself]
      exact unwoken_owner hok hne hreturns
    crit_ok := hcrit
    failed := hg.failed }

end Reown

/-! ## Waking -/

section Awake

variable {s : State} (h : Inv s) {u : Tid}
include h

theorem Inv.awake (hm : s.mutex = none) (hl : s.loc u = .owner) : Inv { s with sched := s.sched.awake u } := by
  have hok := h.thread u
  have hown := h.own u
  refine h.changed _ rfl ?_ (fun _ _ => Iff.rfl) (fun _ _ _ => rfl) ?_ { hown with } h.queue h.conds h.free
    (fun _ _ => id) (fun ht => ?_) h.crit_ok h.failed
  · intro v hv
    have hflags := s.sched.flags_awake_of_ne hv
    simp only [Sched.flags, Flags.mk.injEq] at hflags
    simp only [State.thread, hflags]
  · refine ThreadOk.of_flags hok.place ?_
    show FlagsOk ((s.sched.awake u).flags u) _ _ _
    rw [Sched.flags_awake_self]
    exact hok.flags.awake hl
  · rw [hm] at ht
    cases ht

end Awake

theorem Inv.awakeAll (h : Inv s) (hm : s.mutex = none) {ts : List Tid}
    (hts : ∀ u ∈ ts, s.loc u = .owner) : Inv { s with sched := s.sched.awakeAll ts } := by
  induction ts generalizing s with
  | nil => exact h
  | cons u ts ih =>
    exact ih (h.awake hm (hts u mem_cons_self)) hm fun v hv => hts v (mem_cons_of_mem u hv)

end Armsx3.Lv2.Mutex
