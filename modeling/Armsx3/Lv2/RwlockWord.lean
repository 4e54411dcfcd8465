import Armsx3.Lv2.Rwlock
import Armsx3.Lv2.Waiters

/-!
# What the owner word of a rwlock says

`Queues` is the invariant of the two wait queues, `Word` relates the owner word to them and to the locks the guest
holds.  In a critical section the word lags behind: `granting` counts the readers, and `storing` is the writer, that
left their queue and are not in the word yet.
-/

namespace Armsx3.Lv2.Rwlock

open Transition Function List Holder Pc

def readers (owner : Int) : Int := if owner < 0 then (1 - owner) / 2 else 0

def granting : Option (Tid × Crit) → Int
  | some (_, .wTimeoutReaders size _) => size
  | some (_, .wunlockReaders size _) => size
  | _ => 0

def appended : Option (Tid × Crit) → List Tid
  | some (_, .runlockStore u) => [u]
  | some (_, .wunlockStore u) => [u]
  | some (_, .wTimeoutReaders _ ws) => ws
  | some (_, .wTimeoutAwake ws) => ws
  | some (_, .wunlockReaders _ ws) => ws
  | some (_, .awakeAll ws) => ws
  | _ => []

def storing : Option (Tid × Crit) → Option Tid
  | some (_, .runlockStore u) => some u
  | some (_, .wunlockStore u) => some u
  | _ => none

def unqueued : Option (Tid × Crit) → Prop
  | some (_, .runlockStore _) => True
  | some (_, .wlockEmplace _ _) => True
  | some (_, .wTimeout) => True
  | some (_, .wTimeoutReaders _ _) => True
  | _ => False

def unlinked : Option (Tid × Crit) → Tid → Prop
  | some (h, .wTimeout), t => h = t
  | some (h, .wTimeoutReaders _ _), t => h = t
  | some (h, .wTimeoutAwake _), t => h = t
  | _, _ => False

def Pc.sleeps : Pc → Prop
  | .rSleeping _ | .wSleeping _ => True
  | _ => False

def Pc.reads : Pc → Prop
  | .rSleeping _ | .rTimedOut | .rTimedOutEmpty | .rTimedOutLock => True
  | _ => False

def Pc.writes : Pc → Prop
  | .wSleeping _ | .wTimedOut => True
  | _ => False

def Pc.waits (p : Pc) : Prop := p.reads ∨ p.writes

def PcOk (s : State) (t : Tid) : Pc → Prop
  | .rlockCas _ val => readable val = true
  | .runlockCas val => val < 0 ∧ val % 2 = 0
  | .wlockCas _ | .wlockLock _ => s.owner / 2 ≠ t.id
  | .wunlockCas => s.writing t = true
  | .wunlockLock => s.writing t = true ∨ ∃ ws, s.mutex = some (t, .awakeAll ws)
  | _ => True

def CritOk (s : State) (t : Tid) : Crit → Prop
  | .rlockFetch timed => s.pc t = .rlockLock timed
  | .rlockEmplace timed => s.pc t = .rlockLock timed ∧ s.owner % 2 = 1
  | .rUnqueue => s.pc t = .rTimedOutLock
  | .runlockFetch => s.pc t = .runlockLock
  | .runlockSchedule => s.pc t = .runlockLock ∧ s.owner = -1
  | .runlockStore _ => s.pc t = .runlockLock ∧ s.owner = -1
  | .wlockFetch timed => s.pc t = .wlockLock timed
  | .wlockEmplace timed old => s.pc t = .wlockLock timed ∧ s.owner % 2 = 1 ∧ old / 2 ≠ t.id
  | .wUnqueue => s.pc t = .wTimedOut
  | .wTimeout => s.pc t = .wTimedOut ∧ s.owner % 2 = 1
  | .wTimeoutReaders _ _ => s.pc t = .wTimedOut ∧ s.owner % 2 = 1 ∧ s.owner < 0 ∧ s.wq = []
  | .wTimeoutAwake _ => s.pc t = .wTimedOut
  | .wunlockSchedule => s.pc t = .wunlockLock
  | .wunlockStore _ => s.pc t = .wunlockLock
  | .wunlockReaders _ _ => s.pc t = .wunlockLock ∧ s.wq = []
  | .awakeAll _ => s.pc t = .runlockLock ∨ s.pc t = .wunlockLock

structure Queues (s : State) : Prop where
  waiters : Waiters (s.rq ++ s.wq) (s.rhanded ++ s.whanded) (appended s.mutex) s.sched
    (fun t => (s.pc t).sleeps) (fun t => (s.pc t).waits ∧ ¬ unlinked s.mutex t)
  reads : ∀ t, t ∈ s.rq ∨ t ∈ s.rhanded → (s.pc t).reads
  writes : ∀ t, t ∈ s.wq ∨ t ∈ s.whanded → (s.pc t).writes
  saw_empty : ∀ t, s.pc t = .rTimedOutEmpty → t ∈ s.rhanded

/-- The write lock is `t`'s: its call has returned with it, or it was given the lock. -/
def writerIs (s : State) (t : Tid) : Prop :=
  (s.writing t = true ∨ t ∈ s.whanded) ∧ storing s.mutex ≠ some t

structure Word (s : State) : Prop where
  pc_ok : ∀ t, PcOk s t (s.pc t)
  crit_ok : ∀ t k, s.mutex = some (t, k) → CritOk s t k
  bit : s.owner % 2 = 0 → s.rq = [] ∧ s.wq = []
  writer_bit : s.owner < 0 → s.owner % 2 = 1 → s.wq ≠ [] ∨ unqueued s.mutex
  count : readers s.owner + granting s.mutex + s.released.length = s.acquired.length + s.rhanded.length
  writer : ∀ t, writerIs s t ↔ s.owner / 2 = t.id
  positive : 0 < s.owner → ∃ t : Tid, s.owner / 2 = t.id
  queued : ∀ t ∈ s.wq, s.owner / 2 ≠ t.id
  stored : ∀ u, storing s.mutex = some u → u ∈ s.whanded ∧ s.writing u = false
  failed : s.failed = false

structure Inv (s : State) : Prop where
  queues : Queues s
  word : Word s

/-! ## Arithmetic of the word -/

theorem setWait_div (o : Int) : setWait o / 2 = o / 2 := by unfold setWait; omega

theorem setWait_odd (o : Int) : setWait o % 2 = 1 := by unfold setWait; omega

theorem setWait_neg (o : Int) : setWait o < 0 ↔ o < 0 := by unfold setWait; omega

theorem readers_setWait (o : Int) : readers (setWait o) = readers o := by
  unfold readers setWait
  split <;> split <;> omega

theorem clearWait_div (o : Int) : clearWait o / 2 = o / 2 := by unfold clearWait; omega

theorem clearWait_even (o : Int) : clearWait o % 2 = 0 := by unfold clearWait; omega

theorem readers_clearWait (o : Int) : readers (clearWait o) = readers o := by
  unfold readers clearWait
  split <;> split <;> omega

variable {o : Int}

theorem readable_iff : readable o = true ↔ o ≤ 0 ∧ o % 2 = 0 := by
  simp only [readable, Bool.and_eq_true, decide_eq_true_eq]

theorem writerWord_div (t u : Tid) : writerWord t / 2 = u.id ↔ u = t := by
  unfold writerWord
  constructor
  · intro h
    apply Tid.ext_id
    omega
  · intro h
    rw [h]
    omega

theorem div_ne_id (h : o ≤ 0) (t : Tid) : o / 2 ≠ t.id := by
  have := t.pos
  omega

theorem handWord_div (s : State) (u t : Tid) : s.handWord u / 2 = t.id ↔ t = u := by
  unfold State.handWord
  split
  · exact writerWord_div u t
  · rw [setWait_div]
    exact writerWord_div u t

theorem handWord_pos (s : State) (u : Tid) : 0 < s.handWord u := by
  have := u.pos
  unfold State.handWord writerWord setWait
  split <;> omega

theorem handWord_even {s : State} {u : Tid} (h : s.handWord u % 2 = 0) : s.rq = [] ∧ s.wq = [] := by
  unfold State.handWord at h
  split at h
  next hnil =>
    exact ⟨hnil.2, hnil.1⟩
  · rw [setWait_odd] at h
    omega

/-! ## Frame lemmas -/

variable {p : Pc}

theorem Pc.waits_of_sleeps (h : p.sleeps) : p.waits := by
  cases p with
  | rSleeping => exact .inl trivial
  | wSleeping => exact .inr trivial
  | _ => exact h.elim

theorem Pc.not_writes_of_reads (h : p.reads) : ¬ p.writes := by
  cases p <;> first | exact id | exact h.elim

theorem Pc.ne_rTimedOutEmpty (h : ¬ p.waits) : p ≠ .rTimedOutEmpty := by
  intro hp
  rw [hp] at h
  exact h (.inl trivial)

variable {s s' : State} {t : Tid}

theorem PcOk.congr (h : PcOk s t p) (hdiv : s.owner / 2 ≠ t.id → s'.owner / 2 ≠ t.id)
    (hwriting : s.writing t = true → s'.writing t = true)
    (hmutex : ∀ ws, s.mutex = some (t, .awakeAll ws) → s'.mutex = some (t, .awakeAll ws)) : PcOk s' t p := by
  cases p with
  | wlockCas timed | wlockLock timed => exact hdiv h
  | wunlockCas => exact hwriting h
  | wunlockLock =>
    rcases h with h | ⟨ws, h⟩
    · exact .inl (hwriting h)
    · exact .inr ⟨ws, hmutex ws h⟩
  | _ => exact h

variable {k : Crit}

theorem CritOk.of_even (h : CritOk s t k)
    (heven : s.owner % 2 = 0) (hpc : s'.pc t = s.pc t) (hwq : s'.wq = s.wq) : CritOk s' t k := by
  cases k <;> simp only [CritOk, hpc, hwq] at h ⊢ <;> first | exact h | omega

theorem CritOk.congr (h : CritOk s t k) (howner : s'.owner = s.owner) (hpc : s'.pc t = s.pc t) (hwq : s'.wq = s.wq) :
    CritOk s' t k := by
  cases k <;> simp only [CritOk, howner, hpc, hwq] at h ⊢ <;> exact h

theorem CritOk.pc {s : State} (h : CritOk s t k) :
    (∃ timed, s.pc t = .rlockLock timed) ∨ s.pc t = .rTimedOutLock ∨ s.pc t = .runlockLock ∨
      (∃ timed, s.pc t = .wlockLock timed) ∨ s.pc t = .wTimedOut ∨ s.pc t = .wunlockLock := by
  cases k <;> simp only [CritOk] at h <;> simp [h]
  rcases h with h | h <;> simp [h]

variable {m : Option (Tid × Crit)}

section Frame

variable {s : State} {t : Tid} {p q : Pc} {g : Tid → CellError} {a r : List Tid}

theorem Queues.congr (h : Queues s) {w : Tid → Bool} (happ : appended m = appended s.mutex)
    (hunl : ∀ u, unlinked m u ↔ unlinked s.mutex u) :
    Queues { s with owner := o, mutex := m, acquired := a, released := r, writing := w } where
  waiters := by
    rw [happ]
    exact h.waiters.congr (fun u => Iff.rfl) fun u => by simp only [hunl u]
  __ := h

theorem Queues.move (h : Queues s) (hold : ¬ (s.pc t).waits)
    (hnew : ¬ p.waits) : Queues { s with pc := update s.pc t p, gpr3 := g } where
  waiters := by
    refine h.waiters.congr (update_iff (fun hs => hold (waits_of_sleeps hs))
        (fun hs => hnew (waits_of_sleeps hs))) fun u => ?_
    rw [update_iff hold hnew u]
  reads := fun u hu => (update_iff (fun hr => hold (.inl hr))
    (fun hr => hnew (.inl hr)) u).mpr (h.reads u hu)
  writes := fun u hu => (update_iff (fun hw => hold (.inr hw))
    (fun hw => hnew (.inr hw)) u).mpr (h.writes u hu)
  saw_empty := at_update h.saw_empty fun hp => absurd hp (ne_rTimedOutEmpty hnew)

theorem Word.move (h : Word s) (hfree : ∀ k, s.mutex ≠ some (t, k)) (hp : PcOk s t p) :
    Word { s with pc := update s.pc t p, gpr3 := g } :=
  { h with
    pc_ok := by
      intro u
      by_cases hut : u = t
      · subst hut
        show PcOk _ u (update s.pc u p u)
        rw [update_self]
        exact hp.congr id id fun _ => id
      · show PcOk _ u (update s.pc t p u)
        rw [update_of_ne hut]
        exact (h.pc_ok u).congr id id fun _ => id
    crit_ok := by
      intro u k hm
      have hut : u ≠ t := fun hut => hfree k (hut ▸ hm)
      exact (h.crit_ok u k hm).congr rfl (update_of_ne hut _ _) rfl }

theorem Pc.not_waits {pc : Tid → Pc} (hpc : pc t = q) (hq : ¬ q.reads ∧ ¬ q.writes) : ¬ (pc t).waits :=
  hpc ▸ fun hw => hw.elim hq.1 hq.2

theorem Inv.outside (h : Inv s) (hfree : ∀ k, s.mutex ≠ some (t, k)) (hpc : s.pc t = q)
    (hold : ¬ q.reads ∧ ¬ q.writes) (hnew : ¬ p.reads ∧ ¬ p.writes) (hp : PcOk s t p) :
    Inv { s with pc := update s.pc t p, gpr3 := g } :=
  ⟨h.queues.move (not_waits hpc hold) (fun hw => hw.elim hnew.1 hnew.2), h.word.move hfree hp⟩

theorem Inv.ret (h : Inv s) (hfree : ∀ k, s.mutex ≠ some (t, k)) (hpc : s.pc t = q) (hq : ¬ q.reads ∧ ¬ q.writes) :
    Inv { s with pc := update s.pc t .idle, gpr3 := g } :=
  h.outside hfree hpc hq ⟨id, id⟩ trivial

theorem Inv.not_waiting (h : Inv s) (hpc : s.pc t = q) (hq : ¬ q.reads ∧ ¬ q.writes) :
    t ∉ s.rq ∧ t ∉ s.rhanded ∧ t ∉ s.wq ∧ t ∉ s.whanded := by
  subst hpc
  exact ⟨fun hm => hq.1 (h.queues.reads t (.inl hm)), fun hm => hq.1 (h.queues.reads t (.inr hm)),
    fun hm => hq.2 (h.queues.writes t (.inl hm)), fun hm => hq.2 (h.queues.writes t (.inr hm))⟩

theorem Inv.setReaders (h : Inv s) (hcrit : s.owner % 2 = 0 ∨ s.mutex = none) (hle : s.owner ≤ 0) (hle' : o ≤ 0)
    (hparity : o % 2 = s.owner % 2)
    (hcount : readers o + r.length + s.acquired.length = readers s.owner + s.released.length + a.length) :
    Inv { s with owner := o, acquired := a, released := r } where
  queues := h.queues.congr rfl fun u => Iff.rfl
  word :=
    { h.word with
      pc_ok := fun u => (h.word.pc_ok u).congr (fun _ => div_ne_id hle' u) id fun _ => id
      crit_ok := by
        intro u k hm
        rcases hcrit with heven | hnone
        · exact (h.word.crit_ok u k hm).of_even heven rfl rfl
        · have hm' := hm
          rw [hnone] at hm'
          cases hm'
      bit := fun (heven : o % 2 = 0) => h.word.bit (by omega)
      writer_bit := fun _ (hodd : o % 2 = 1) => h.word.writer_bit (by omega) (by omega)
      count := by
        have := h.word.count
        simp only
        omega
      writer := fun u => (h.word.writer u).trans
        (iff_of_false (div_ne_id hle u) (div_ne_id hle' u))
      positive := fun (hpos : 0 < o) => by omega
      queued := fun u hu => div_ne_id hle' u }

theorem Inv.addReader (h : Inv s) (hcrit : s.owner % 2 = 0 ∨ s.mutex = none) (hle : s.owner ≤ 0) :
    Inv { s with owner := s.owner - 2, acquired := t :: s.acquired } := by
  apply h.setReaders hcrit hle
  · omega
  · omega
  · simp only [readers, length_cons]
    split <;> split <;> omega

theorem Inv.dropReader (h : Inv s) (hcrit : s.owner % 2 = 0 ∨ s.mutex = none) (hlt : s.owner < -1) :
    Inv { s with owner := s.owner + 2, released := t :: s.released } := by
  apply h.setReaders hcrit
  · omega
  · omega
  · omega
  · simp only [readers, length_cons]
    split <;> split <;> omega

theorem Word.pc_writing (h : Word s) (hpc : s.pc t = .idle) {b : Bool} (hdiv : ∀ u : Tid, u ≠ t → o / 2 ≠ u.id)
    (u : Tid) : PcOk { s with owner := o, writing := update s.writing t b } u (s.pc u) := by
  by_cases hut : u = t
  · rw [hut, hpc]
    trivial
  · refine (h.pc_ok u).congr (fun _ => hdiv u hut) (fun hw => ?_) fun _ => id
    exact (update_of_ne hut _ _).trans hw

theorem Inv.casWriter (h : Inv s) (hpc : s.pc t = .idle) (hzero : s.owner = 0) :
    Inv { s with owner := writerWord t, writing := update s.writing t true } where
  queues := h.queues.congr rfl fun u => Iff.rfl
  word := by
    have hnil := h.word.bit (by rw [hzero]; rfl)
    have hdiv := writerWord_div t
    have hnone : ∀ u, ¬ writerIs s u := by
      intro u hu
      have := (h.word.writer u).mp hu
      exact div_ne_id (by omega) u this
    have hstoring := fun hst => (h.not_waiting hpc ⟨id, id⟩).2.2.2 (h.word.stored t hst).1
    exact
    { h.word with
      pc_ok := h.word.pc_writing hpc fun u hut hu => hut ((hdiv u).mp hu)
      crit_ok := fun u k hm => (h.word.crit_ok u k hm).of_even (by rw [hzero]; rfl) rfl rfl
      bit := fun _ => hnil
      writer_bit := fun (hneg : writerWord t < 0) => by unfold writerWord at hneg; omega
      count := by
        have hcount := h.word.count
        have hr : readers (writerWord t) = readers s.owner := by
          unfold readers writerWord
          rw [if_neg (by omega), if_neg (by omega)]
        rw [hr]
        exact hcount
      writer := by
        intro u
        refine Iff.trans ?_ (hdiv u).symm
        by_cases hut : u = t
        · subst hut
          refine iff_of_true ⟨.inl (update_self _ _ _), hstoring⟩ rfl
        · refine iff_of_false (fun hu => hnone u ⟨?_, hu.2⟩) hut
          exact hu.1.imp_left fun hw => (update_of_ne hut _ _).symm.trans hw
      positive := fun _ => ⟨t, (hdiv t).mpr rfl⟩
      queued := fun u hu => by rw [hnil.2] at hu; cases hu
      stored := by
        intro u hst
        have hold := h.word.stored u hst
        have hut : u ≠ t := fun hut => hstoring (hut ▸ hst)
        exact ⟨hold.1, (update_of_ne hut _ _).trans hold.2⟩ }

theorem Inv.free (h : Inv s) (hpc : s.pc t = .idle) (hmine : s.owner / 2 = t.id)
    (hnil : s.rq = [] ∧ s.wq = []) (hcrit : s.owner % 2 = 0 ∨ s.mutex = none) :
    Inv { s with owner := 0, writing := update s.writing t false } where
  queues := h.queues.congr rfl fun u => Iff.rfl
  word := by
    have hothers : ∀ u, u ≠ t → ¬ writerIs s u := by
      intro u hut hu
      have hdiv := (h.word.writer u).mp hu
      apply hut
      apply Tid.ext_id
      omega
    have htw := (h.not_waiting hpc ⟨id, id⟩).2.2.2
    exact
    { h.word with
      pc_ok := h.word.pc_writing hpc fun u _ => div_ne_id (le_refl 0) u
      crit_ok := by
        intro u k hm
        rcases hcrit with heven | hnone
        · exact (h.word.crit_ok u k hm).of_even heven rfl rfl
        · have hm' := hm
          rw [hnone] at hm'
          cases hm'
      bit := fun _ => hnil
      writer_bit := fun (hneg : (0 : Int) < 0) => by omega
      count := by
        have hcount := h.word.count
        have hr : readers 0 = readers s.owner := by
          unfold readers
          rw [if_neg (by omega), if_neg (by omega)]
        rw [hr]
        exact hcount
      writer := by
        intro u
        refine iff_of_false (fun hu => ?_) (div_ne_id (le_refl 0) u)
        by_cases hut : u = t
        · subst hut
          rcases hu.1 with hw | hw
          · have hfalse := (update_self u false s.writing).symm.trans hw
            cases hfalse
          · exact htw hw
        · exact hothers u hut ⟨hu.1.imp_left fun hw => (update_of_ne hut _ _).symm.trans hw, hu.2⟩
      positive := fun (hpos : (0 : Int) < 0) => by omega
      queued := fun u hu => by rw [hnil.2] at hu; cases hu
      stored := by
        intro u hst
        have hold := h.word.stored u hst
        refine ⟨hold.1, ?_⟩
        by_cases hut : u = t
        · rw [hut]
          exact update_self _ _ _
        · exact (update_of_ne hut _ _).trans hold.2 }

end Frame

/-! ## Taking and giving back the mutex -/

structure Quiet (m : Option (Tid × Crit)) : Prop where
  appended : appended m = []
  unlinked : ∀ u, ¬ unlinked m u
  storing : storing m = none
  granting : granting m = 0
  unqueued : ¬ unqueued m
  awake : ∀ u ws, m ≠ some (u, .awakeAll ws)

theorem Quiet.free : Quiet none := ⟨rfl, fun _ => id, rfl, rfl, id, nofun⟩

def Crit.simple : Crit → Bool
  | .rlockFetch _ | .rlockEmplace _ | .rUnqueue | .runlockFetch | .runlockSchedule
  | .wlockFetch _ | .wUnqueue | .wunlockSchedule => true
  | _ => false

theorem Quiet.of_simple (hk : k.simple = true) : Quiet (some (t, k)) := by
  cases k <;> cases hk <;> exact ⟨rfl, fun _ => id, rfl, rfl, id, nofun⟩

variable {sched : Sched}

section Mutex

variable {s : State} {t : Tid}

theorem Inv.setMutex (h : Inv s) (hold : Quiet s.mutex) (hnew : Quiet m)
    (hcrit : ∀ u k, m = some (u, k) → CritOk s u k) : Inv { s with mutex := m } where
  queues := h.queues.congr (hnew.appended.trans hold.appended.symm)
    fun u => iff_of_false (hnew.unlinked u) (hold.unlinked u)
  word :=
    { h.word with
      pc_ok := fun u => (h.word.pc_ok u).congr id id fun ws hm => absurd hm (hold.awake u ws)
      crit_ok := fun u k hm => (hcrit u k hm).congr rfl rfl rfl
      writer_bit := fun hneg hodd =>
        .inl ((h.word.writer_bit hneg hodd).resolve_right hold.unqueued)
      count := by
        have hcount := h.word.count
        rw [hold.granting] at hcount
        rw [hnew.granting]
        exact hcount
      writer := by
        intro u
        refine Iff.trans ?_ (h.word.writer u)
        simp only [writerIs, hnew.storing, hold.storing]
      stored := fun u hst => by rw [hnew.storing] at hst; cases hst }

theorem Inv.lock (h : Inv s) (hm : s.mutex = none) (hk : CritOk s t k)
    (hq : Quiet (some (t, k))) : Inv { s with mutex := some (t, k) } :=
  h.setMutex (hm ▸ Quiet.free) hq (entered hk)

theorem Inv.unlock (h : Inv s) (hq : Quiet s.mutex) : Inv { s with mutex := none } := h.setMutex hq Quiet.free left

theorem Word.hold (h : Word s) {pc : Tid → Pc} {g : Tid → CellError}
    {wq : List Tid} (hm : s.mutex = some (t, k)) (hpcs : ∀ u, u ≠ t → pc u = s.pc u)
    (hpc : PcOk { s with owner := o, mutex := m, pc := pc, gpr3 := g, wq := wq, sched := sched } t (pc t))
    (hcrit : ∀ u k, m = some (u, k) → CritOk { s with owner := o, mutex := m, pc := pc, gpr3 := g, wq := wq, sched := sched } u k)
    (hdiv : o / 2 = s.owner / 2) (hreaders : readers o = readers s.owner) (hpos : 0 < o → 0 < s.owner)
    (hbit : o % 2 = 0 → s.rq = [] ∧ wq = []) (hwbit : o < 0 → o % 2 = 1 → wq ≠ [] ∨ unqueued m)
    (hqueued : ∀ u ∈ wq, s.owner / 2 ≠ u.id) (hgra : granting m = granting (some (t, k))) (hsto : storing m = storing (some (t, k))) :
    Word { s with owner := o, mutex := m, pc := pc, gpr3 := g, wq := wq, sched := sched } where
  pc_ok := by
    intro u
    show PcOk _ u (pc u)
    by_cases hut : u = t
    · rw [hut]
      exact hpc
    rw [hpcs u hut]
    refine (h.pc_ok u).congr (fun hne => ?_) id fun ws hws => ?_
    · rw [hdiv]
      exact hne
    · exact absurd hws (other hm (Ne.symm hut) _)
  crit_ok := hcrit
  bit := hbit
  writer_bit := hwbit
  count := by
    have hcount := h.count
    rw [hm] at hcount
    rw [hreaders, hgra]
    exact hcount
  writer := by
    intro u
    have hold := h.writer u
    simp only [writerIs, hm] at hold
    rw [hdiv, ← hold]
    simp only [writerIs, hsto]
  positive := by
    intro hp
    have ⟨u, hu⟩ := h.positive (hpos hp)
    exact ⟨u, hdiv.trans hu⟩
  queued := fun u hu => hdiv ▸ hqueued u hu
  stored := fun u hst => h.stored u (by rw [hm]; exact hsto ▸ hst)
  failed := h.failed

theorem Inv.setWait (h : Inv s) {k k' : Crit} (hm : s.mutex = some (t, k)) (hk : k.simple = true)
    (happ : appended (some (t, k')) = []) (hunl : ∀ u, ¬ unlinked (some (t, k')) u)
    (hsto : storing (some (t, k')) = none) (hgra : granting (some (t, k')) = 0)
    (hbit : s.owner < 0 → s.wq ≠ [] ∨ unqueued (some (t, k'))) (hne : s.owner ≠ 0)
    (hcrit : CritOk { s with owner := setWait s.owner, mutex := some (t, k') } t k') :
    Inv { s with owner := setWait s.owner, mutex := some (t, k') } := by
  have hold : Quiet (some (t, k)) := Quiet.of_simple hk
  refine ⟨h.queues.congr (by rw [hm, happ, hold.appended]) fun u => ?_,
    h.word.hold hm (fun _ _ => rfl) ?_ (entered hcrit) (setWait_div _) (readers_setWait _) ?_ ?_
    (fun hneg _ => hbit ((setWait_neg s.owner).mp hneg)) h.word.queued (hgra.trans hold.granting.symm) (hsto.trans hold.storing.symm)⟩
  · rw [hm]
    exact iff_of_false (hunl u) (hold.unlinked u)
  · refine (h.word.pc_ok t).congr (fun hne => ?_) id fun ws hws => absurd (hm ▸ hws) (hold.awake t ws)
    rw [setWait_div]
    exact hne
  · unfold Rwlock.setWait
    omega
  · intro heven
    have hodd := setWait_odd s.owner
    omega

end Mutex

/-! ## The wait loops -/

variable {timed : Bool}

section Waiting

variable {s : State} {t : Tid} {q : Pc}

theorem not_unlinked_of_free (hfree : ∀ k, s.mutex ≠ some (t, k)) : ¬ unlinked s.mutex t := by
  intro hu
  cases hm : s.mutex with
  | none => rw [hm] at hu; exact hu
  | some p =>
    have ⟨holder, k⟩ := p
    rw [hm] at hu
    have heq : holder = t := by cases k <;> first | exact hu | exact hu.elim
    exact hfree k (heq ▸ hm)

theorem waits_ret (u : Tid) : ((update s.pc t .idle u).waits ∧ ¬ unlinked s.mutex u) ↔
      ((s.pc u).waits ∧ ¬ unlinked s.mutex u) ∧ u ≠ t := by
  rw [update_iff_and (P := waits) (fun hw => hw.elim id id) u]
  tauto

/-- The queues without `t`, which has been handed the lock and returns. -/
def Returning (s : State) (t : Tid) (sched : Sched) : Prop :=
  Waiters (s.rq ++ s.wq) ((s.rhanded ++ s.whanded).erase t) (appended s.mutex) sched
    (fun u => (update s.pc t .idle u).sleeps) fun u => (update s.pc t .idle u).waits ∧ ¬ unlinked s.mutex u

theorem Inv.retReader (h : Inv s) (hrel : t ∈ s.rhanded) (hfree : ∀ k, s.mutex ≠ some (t, k)) (hwait : Returning s t sched) :
    Inv ({ s with sched := sched, rhanded := s.rhanded.erase t }.retRead t) := by
  have hreads := h.queues.reads t (.inr hrel)
  have hnd := (nodup_append.mp (nodup_append.mp h.queues.waiters.nodup).2.1).1
  have hlen := length_erase_add_one hrel
  have hnd' := h.queues.waiters.nodup
  have hother : ∀ u, u ∈ s.rq ∨ u ∈ s.rhanded.erase t → u ≠ t := by
    intro u hu hut
    subst hut
    rcases hu with hu | hu
    · exact (nodup_append.mp hnd').2.2 u (mem_append_left _ hu) u (mem_append_left _ hrel) rfl
    · exact (hnd.mem_erase_iff.mp hu).1 rfl
  have hwother : ∀ u, u ∈ s.wq ∨ u ∈ s.whanded → u ≠ t :=
    fun u hu hut => not_writes_of_reads hreads (hut ▸ h.queues.writes u hu)
  refine ⟨⟨?_, fun u hu => ?_, fun u hu => ?_, fun u hu => ?_⟩, ?_⟩
  · show Waiters (s.rq ++ s.wq) (s.rhanded.erase t ++ s.whanded) _ _ _ _
    rw [← erase_append_left _ hrel]
    exact hwait
  · exact (update_iff_and id u).mpr ⟨h.queues.reads u (hu.imp_right mem_of_mem_erase), hother u hu⟩
  · exact (update_iff_and id u).mpr ⟨h.queues.writes u hu, hwother u hu⟩
  · have hold := of_update (by simp) hu
    exact (mem_erase_of_ne hold.2).mpr (h.queues.saw_empty u hold.1)
  · have hmove := h.word.move (p := .idle) (g := update s.gpr3 t .ok) hfree trivial
    exact
    { hmove with
      count := by
        have hcount := h.word.count
        simp only [State.retRead, State.ret, length_cons]
        omega }

theorem Inv.retWriter (h : Inv s) (hrel : t ∈ s.whanded)
    (hfree : ∀ k, s.mutex ≠ some (t, k)) (hstoring : storing s.mutex ≠ some t) (hwait : Returning s t sched) :
    Inv ({ s with sched := sched, whanded := s.whanded.erase t }.retWrite t) := by
  have hwrites := h.queues.writes t (.inr hrel)
  have hnd' := h.queues.waiters.nodup
  have hnd := (nodup_append.mp (nodup_append.mp hnd').2.1).2.1
  have hother : ∀ u, u ∈ s.wq ∨ u ∈ s.whanded.erase t → u ≠ t := by
    intro u hu hut
    subst hut
    rcases hu with hu | hu
    · exact (nodup_append.mp hnd').2.2 u (mem_append_right _ hu) u (mem_append_right _ hrel) rfl
    · exact (hnd.mem_erase_iff.mp hu).1 rfl
  have hrother : ∀ u, u ∈ s.rq ∨ u ∈ s.rhanded → u ≠ t :=
    fun u hu hut => not_writes_of_reads (hut ▸ h.queues.reads u hu) hwrites
  refine ⟨⟨?_, fun u hu => ?_, fun u hu => ?_, fun u hu => ?_⟩, ?_⟩
  · show Waiters (s.rq ++ s.wq) (s.rhanded ++ s.whanded.erase t) _ _ _ _
    rw [← erase_append_right _ fun hr => hrother t (.inr hr) rfl]
    exact hwait
  · exact (update_iff_and id u).mpr ⟨h.queues.reads u hu, hrother u hu⟩
  · exact (update_iff_and id u).mpr ⟨h.queues.writes u (hu.imp_right mem_of_mem_erase), hother u hu⟩
  · exact at_update h.queues.saw_empty (by simp) u hu
  have hmove := h.word.move (p := .idle) (g := update s.gpr3 t .ok) hfree trivial
  have hwriting : ∀ u, s.writing u = true → update s.writing t true u = true := by
    intro u hu
    rw [update_apply]
    split
    · rfl
    · exact hu
  exact
  { hmove with
    pc_ok := fun u => (hmove.pc_ok u).congr id (hwriting u) fun _ => id
    writer := by
      intro u
      refine Iff.trans ?_ (h.word.writer u)
      show ((update s.writing t true u = true ∨ u ∈ s.whanded.erase t) ∧ _) ↔ _
      by_cases hut : u = t
      · subst hut
        exact iff_of_true ⟨.inl (update_self _ _ _), hstoring⟩ ⟨.inr hrel, hstoring⟩
      · rw [update_of_ne hut, mem_erase_of_ne hut]
        exact Iff.rfl
    stored := by
      intro u hst
      have hold := h.word.stored u hst
      have hut : u ≠ t := fun hut => hstoring (hut ▸ hst)
      exact ⟨(mem_erase_of_ne hut).mpr hold.1, (update_of_ne hut _ _).trans hold.2⟩ }

theorem storing_mem_appended {u : Tid} (h : storing m = some u) : u ∈ appended m := by
  cases m with
  | none => cases h
  | some p =>
    have ⟨holder, k⟩ := p
    cases k <;> cases h <;> exact mem_singleton_self u

section

variable (h : Inv s)
include h

theorem Inv.free_of_waits (hr : s.pc t ≠ .rTimedOutLock) (hw : s.pc t ≠ .wTimedOut)
    (ht : (s.pc t).waits) (k : Crit) : s.mutex ≠ some (t, k) := by
  intro hm
  rcases (h.word.crit_ok t k hm).pc with ⟨_, hp⟩ | hp | hp | ⟨_, hp⟩ | hp | hp
  · rw [hp] at ht; exact ht.elim id id
  · exact hr hp
  · rw [hp] at ht; exact ht.elim id id
  · rw [hp] at ht; exact ht.elim id id
  · exact hw hp
  · rw [hp] at ht; exact ht.elim id id

theorem Inv.rhanded_of_reads (hrel : t ∈ s.rhanded ++ s.whanded) (ht : ¬ (s.pc t).writes) : t ∈ s.rhanded :=
  (mem_append.mp hrel).resolve_right fun hw => ht (h.queues.writes t (.inr hw))

theorem Inv.whanded_of_writes (hrel : t ∈ s.rhanded ++ s.whanded) (ht : ¬ (s.pc t).reads) : t ∈ s.whanded :=
  (mem_append.mp hrel).resolve_left fun hr => ht (h.queues.reads t (.inr hr))

theorem Inv.rhanded_of_timeout (hpc : s.pc t = q) (hq : q.reads ∧ ¬ q.writes) (hunl : ¬ unlinked s.mutex t)
    (hnot : t ∉ s.rq) : t ∈ s.rhanded := by
  subst hpc
  rcases h.queues.waiters.queue_or_released ⟨.inl hq.1, hunl⟩ with hin | hin
  · apply absurd _ hq.2
    exact h.queues.writes t (.inl ((mem_append.mp hin.1).resolve_left hnot))
  · exact h.rhanded_of_reads hin.2 hq.2

theorem Inv.whanded_of_timeout (hpc : s.pc t = q) (hq : q.writes ∧ ¬ q.reads) (hunl : ¬ unlinked s.mutex t)
    (hnot : t ∉ s.wq) : t ∈ s.whanded := by
  subst hpc
  rcases h.queues.waiters.queue_or_released ⟨.inr hq.1, hunl⟩ with hin | hin
  · apply absurd _ hq.2
    exact h.queues.reads t (.inl ((mem_append.mp hin.1).resolve_right hnot))
  · exact h.whanded_of_writes hin.2 hq.2

theorem inv_wakeReader (hpc : s.pc t = .rSleeping timed) (hsig : s.sched.signal t = true) :
    Inv ({ s with sched := s.sched.resetSignal t, rhanded := s.rhanded.erase t }.retRead t) := by
  have hfree := h.free_of_waits (t := t) (by simp [hpc]) (by simp [hpc]) (by rw [hpc]; exact .inl trivial)
  refine h.retReader (h.rhanded_of_reads (h.queues.waiters.signal t hsig).1 (by rw [hpc]; exact id))
    hfree ?_
  exact h.queues.waiters.wake hsig (update_iff_and id) waits_ret

theorem inv_wakeWriter (hpc : s.pc t = .wSleeping timed) (hsig : s.sched.signal t = true) :
    Inv ({ s with sched := s.sched.resetSignal t, whanded := s.whanded.erase t }.retWrite t) := by
  have hfree := h.free_of_waits (t := t) (by simp [hpc]) (by simp [hpc]) (by rw [hpc]; exact .inr trivial)
  have hstoring : storing s.mutex ≠ some t := by
    -- a writer that is not in the word yet was not woken
    intro hst
    have hno := (h.queues.waiters.appended t (storing_mem_appended hst)).2
    rw [hsig] at hno
    cases hno
  refine h.retWriter (h.whanded_of_writes (h.queues.waiters.signal t hsig).1 (by rw [hpc]; exact id))
    hfree hstoring ?_
  exact h.queues.waiters.wake hsig (update_iff_and id) waits_ret

theorem Inv.leave (hm : s.mutex = none) (hrel : t ∈ s.rhanded ++ s.whanded) (hs : ¬ (s.pc t).sleeps) :
    Returning s t s.sched := by
  unfold Returning
  have hw := h.queues.waiters
  have hret := waits_ret (s := s) (t := t)
  rw [hm] at hw hret ⊢
  exact (hw.leave hrel hs hret).congr (update_iff hs id) fun u => Iff.rfl

theorem Inv.timedOut (hfree : ∀ k, s.mutex ≠ some (t, k))
    (hr : (s.pc t).reads ↔ p.reads) (hw : (s.pc t).writes ↔ p.writes) (hp : PcOk s t p)
    (hempty : p = .rTimedOutEmpty → t ∈ s.rhanded)
    (hwait : Waiters (s.rq ++ s.wq) (s.rhanded ++ s.whanded) (appended s.mutex) sched
      (fun u => (update s.pc t p u).sleeps)
      (fun u => (s.pc u).waits ∧ ¬ unlinked s.mutex u)) :
    Inv ({ s with sched := sched }.goto t p) := by
  refine ⟨⟨?_, fun u hu => ?_, fun u hu => ?_, fun u hu => ?_⟩, ?_⟩
  · refine hwait.congr (fun u => Iff.rfl) fun u => ?_
    show ((update s.pc t p u).waits ∧ _) ↔ _
    rw [update_congr (P := waits) (or_congr hr hw) u]
    exact Iff.rfl
  · exact (update_congr hr u).mpr (h.queues.reads u hu)
  · exact (update_congr hw u).mpr (h.queues.writes u hu)
  · exact at_update h.queues.saw_empty hempty u hu
  · have hmove := h.word.move (g := s.gpr3) hfree hp
    exact
    { hmove with
      crit_ok := fun u k hm => (hmove.crit_ok u k hm).congr rfl rfl rfl }

end

end Waiting

/-! ## Into and out of the queues -/

section Link

variable {s : State} {t : Tid}

omit s in
theorem mem_cons_or {l l' : List Tid} {Q : Tid → Prop} (h : ∀ u, u ∈ l ∨ u ∈ l' → Q u) {u : Tid}
    (hu : u ∈ t :: l ∨ u ∈ l') : Q u ∨ u = t := by
  rcases hu with hu | hu
  · rcases mem_cons.mp hu with hu | hu
    · exact .inr hu
    · exact .inl (h u (.inl hu))
  · exact .inl (h u (.inr hu))

theorem Inv.linkReader (h : Inv s) (hm : s.mutex = none) (hpc : s.pc t = .rlockLock timed) (hodd : s.owner % 2 = 1) :
    Inv ({ s with rq := t :: s.rq, sched := (s.sched.sleep t).enqueued t }.goto t
      (.rSleeping timed)) := by
  have hfree : ∀ k, s.mutex ≠ some (t, k) := Holder.free hm
  have hnot := not_waits hpc ⟨id, id⟩
  have hw := h.queues.waiters
  have hsleeps := trivial
  have hreads : (rSleeping timed).reads := trivial
  refine ⟨⟨?_, fun u hu => ?_, fun u hu => ?_, fun u hu => ?_⟩, ?_⟩
  · refine hw.emplace (fun hc => hnot hc.1) (update_iff_or hsleeps) fun u => ?_
    show ((update s.pc t (.rSleeping timed) u).waits ∧ ¬ unlinked s.mutex u) ↔ _
    rw [update_iff_or (P := waits) (.inl hreads) u, hm]
    simp only [unlinked, not_false_eq_true, and_true]
  · refine (update_iff_or hreads u).mpr ?_
    exact mem_cons_or h.queues.reads hu
  · exact (update_iff (fun hw => hnot (.inr hw)) id u).mpr (h.queues.writes u hu)
  · exact at_update h.queues.saw_empty (by simp) u hu
  · have hmove := h.word.move (p := .rSleeping timed) (g := s.gpr3) hfree trivial
    exact
    { hmove with
      bit := fun (heven : s.owner % 2 = 0) => by omega }

theorem Inv.linkWriter (h : Inv s) {old : Int} (hm : s.mutex = some (t, .wlockEmplace timed old)) :
    Inv ({ s with wq := t :: s.wq, sched := (s.sched.sleep t).enqueued t, mutex := none }.goto t
      (.wSleeping timed)) := by
  have ⟨hpc, hodd, _⟩ : s.pc t = .wlockLock timed ∧ s.owner % 2 = 1 ∧ old / 2 ≠ t.id := h.word.crit_ok t _ hm
  have hok := h.word.pc_ok t
  rw [hpc] at hok
  have hnot := not_waits hpc ⟨id, id⟩
  have hw := h.queues.waiters
  have hsleeps : (wSleeping timed).sleeps := trivial
  have hwrites : (wSleeping timed).writes := trivial
  rw [hm] at hw
  refine ⟨⟨?_, fun u hu => ?_, fun u hu => ?_, fun u hu => ?_⟩, ?_⟩
  · refine (hw.emplace (fun hc => hnot hc.1) (update_iff_or hsleeps)
      fun u => ?_).perm perm_middle.symm (List.Perm.refl _)
    show ((update s.pc t (.wSleeping timed) u).waits ∧ ¬ unlinked none u) ↔ _
    rw [update_iff_or (P := waits) (.inr hwrites) u]
    simp only [unlinked, not_false_eq_true, and_true]
  · exact (update_iff (fun hw => hnot (.inl hw)) id u).mpr (h.queues.reads u hu)
  · refine (update_iff_or hwrites u).mpr ?_
    exact mem_cons_or h.queues.writes hu
  · exact at_update h.queues.saw_empty (by simp) u hu
  · refine h.word.hold hm (fun u hu => update_of_ne hu _ _) (by rw [update_self]; trivial) left rfl rfl id
      (fun (heven : s.owner % 2 = 0) => by omega) (fun _ _ => .inl (cons_ne_nil _ _)) (fun u hu => ?_) rfl rfl
    rcases mem_cons.mp hu with hu | hu
    · rw [hu]
      exact hok
    · exact h.word.queued u hu

theorem Inv.cancelReader (h : Inv s) {rq : List Tid} (hm : s.mutex = some (t, .rUnqueue))
    (hsome : unqueue s.rq t = some rq) :
    Inv ({ s with rq := rq, mutex := none }.ret t .etimedout) := by
  have hpc := h.word.crit_ok t _ hm
  have htq := (unqueue_eq_some.mp hsome).1
  have hperm := unqueue_perm hsome
  have hw := h.queues.waiters
  rw [hm] at hw
  have hne : ∀ u, u ∈ rq → u ≠ t := by
    intro u hu hut
    have hnd := hperm.nodup_iff.mp (nodup_append.mp (nodup_append.mp hw.nodup).1).1
    exact (nodup_cons.mp hnd).1 (hut ▸ hu)
  have hrh : ∀ u, u ∈ s.rhanded → u ≠ t := by
    intro u hu hut
    exact (nodup_append.mp hw.nodup).2.2 t (mem_append_left _ htq) u (mem_append_left _ hu) hut.symm
  refine ⟨⟨?_, fun u hu => ?_, fun u hu => ?_, fun u hu => ?_⟩, ?_⟩
  · refine (hw.cancel (hperm.append_right s.wq) (by rw [hpc]; exact id) fun u => Iff.rfl).congr
      (update_iff (by rw [hpc]; exact id) id) fun u => ?_
    show ((update s.pc t .idle u).waits ∧ ¬ unlinked none u) ↔ _
    rw [update_iff_and (P := waits) (fun hw => hw.elim id id) u]
    simp only [unlinked, not_false_eq_true, and_true]
  · have hut := hu.elim (hne u) (hrh u)
    show (update s.pc t .idle u).reads
    rw [update_of_ne hut]
    exact h.queues.reads u (hu.imp_left fun hin => hperm.mem_iff.mpr (mem_cons_of_mem t hin))
  · exact (update_iff (by rw [hpc]; exact id) id u).mpr (h.queues.writes u hu)
  · exact at_update h.queues.saw_empty (by simp) u hu
  · have hq := hm ▸ Quiet.of_simple rfl
    have hmove := (h.unlock hq).word.move (t := t) (p := .idle) (g := update s.gpr3 t .etimedout) nofun trivial
    exact
    { hmove with
      bit := by
        intro heven
        have hnil := h.word.bit heven
        rw [hnil.1] at htq
        cases htq }

theorem Inv.cancelWriter (h : Inv s) {wq : List Tid} (hm : s.mutex = some (t, .wUnqueue))
    (hsome : unqueue s.wq t = some wq) : Inv { s with wq := wq, mutex := some (t, .wTimeout) } := by
  have hpc := h.word.crit_ok t _ hm
  have htq := (unqueue_eq_some.mp hsome).1
  have hperm := unqueue_perm hsome
  have hmem : ∀ u, u ∈ wq → u ∈ s.wq := fun u hu => hperm.mem_iff.mpr (mem_cons_of_mem t hu)
  have hodd : s.owner % 2 = 1 := by
    by_contra hne
    have hnil := h.word.bit (by omega)
    rw [hnil.2] at htq
    cases htq
  have hw := h.queues.waiters
  rw [hm] at hw
  refine ⟨⟨?_, h.queues.reads, fun u hu => ?_, h.queues.saw_empty⟩, ?_⟩
  · have hq :=
      (hperm.append_left s.rq).trans perm_middle
    refine hw.cancel hq (by rw [hpc]; exact id) fun u => ?_
    simp only [unlinked, not_false_eq_true, and_true, eq_comm, ne_eq]
  · exact h.queues.writes u (hu.imp_left (hmem u))
  · exact h.word.hold hm (fun _ _ => rfl) (by rw [hpc]; trivial) (entered ⟨hpc, hodd⟩) rfl rfl id
      (fun heven => by omega) (fun _ _ => .inr trivial) (fun u hu => h.word.queued u (hmem u hu)) rfl rfl

end Link

end Armsx3.Lv2.Rwlock
