import Armsx3.Lv2.RwlockWord

/-!
# The rwlock keeps its readers and its writer apart

The critical sections in which the lock is handed over, and from them what holds in every state.
-/

namespace Armsx3.Lv2.Rwlock

open Transition Function Holder List Option Pc Quiet

variable {k : Crit} {size : Nat} {ws : List Tid}

section Handover

variable {s : State} {t u : Tid}

theorem Inv.releaseReader (h : Inv s) {m m' : Crit} {rq : List Tid}
    (hm : s.mutex = some (t, m)) (hperm : s.rq.Perm (u :: rq))
    (happ : appended (some (t, m')) = u :: appended (some (t, m)))
    (hunl : ∀ v, unlinked (some (t, m')) v ↔ unlinked (some (t, m)) v)
    (hsto : storing (some (t, m)) = none) (hsto' : storing (some (t, m')) = none)
    (hgra : granting (some (t, m')) = granting (some (t, m)) + 1)
    (hunq : unqueued (some (t, m)) → unqueued (some (t, m'))) (hawake : ∀ ws, m ≠ .awakeAll ws)
    (hcrit : CritOk s t m') :
    Inv { s with rq := rq, rhanded := u :: s.rhanded, mutex := some (t, m') } := by
  have huq := hperm.mem_iff.mpr mem_cons_self
  have hmem : ∀ v, v ∈ rq → v ∈ s.rq := fun v hv => hperm.mem_iff.mpr (mem_cons_of_mem u hv)
  have hw := h.queues.waiters
  rw [hm] at hw
  refine ⟨⟨?_, fun v hv => ?_, h.queues.writes, fun v hv => ?_⟩, ?_⟩
  · rw [happ]
    refine (hw.release (hperm.append_right s.wq)).congr (fun v => Iff.rfl) fun v => ?_
    simp only [hunl v]
  · rcases hv with hv | hv
    · exact h.queues.reads v (.inl (hmem v hv))
    · rcases mem_cons.mp hv with hv | hv
      · exact hv ▸ h.queues.reads u (.inl huq)
      · exact h.queues.reads v (.inr hv)
  · exact mem_cons_of_mem u (h.queues.saw_empty v hv)
  exact
  { h.word with
    pc_ok := by
      intro v
      refine (h.word.pc_ok v).congr id id fun ws hws => ?_
      rw [hm, some.injEq, Prod.mk.injEq] at hws
      exact absurd hws.2 (hawake ws)
    crit_ok := entered (hcrit.congr rfl rfl rfl)
    bit := by
      intro heven
      have hnil := h.word.bit heven
      rw [hnil.1] at huq
      cases huq
    writer_bit := by
      intro hneg hodd
      have hold := h.word.writer_bit hneg hodd
      rw [hm] at hold
      exact hold.imp_right hunq
    count := by
      have hcount := h.word.count
      rw [hm] at hcount
      simp only [hgra, length_cons]
      omega
    writer := by
      intro v
      have hold := h.word.writer v
      simp only [writerIs, hm, hsto] at hold
      simp only [writerIs, hsto']
      exact hold
    stored := fun v hst => by rw [hsto'] at hst; cases hst }

theorem Inv.releaseWriter (h : Inv s) {m' : Crit} {wq : List Tid} (hq : Quiet s.mutex) (hperm : s.wq.Perm (u :: wq))
    (happ : appended (some (t, m')) = [u]) (hunl : ∀ v, ¬ unlinked (some (t, m')) v)
    (hsto : storing (some (t, m')) = some u) (hgra : granting (some (t, m')) = 0)
    (hunq : s.owner < 0 → unqueued (some (t, m')))
    (hcrit : CritOk { s with wq := wq, whanded := u :: s.whanded, mutex := some (t, m') } t m') :
    Inv { s with wq := wq, whanded := u :: s.whanded, mutex := some (t, m') } := by
  have huq := hperm.mem_iff.mpr mem_cons_self
  have hmem : ∀ v, v ∈ wq → v ∈ s.wq := fun v hv => hperm.mem_iff.mpr (mem_cons_of_mem u hv)
  have hnot := fun hu => h.word.queued u huq ((h.word.writer u).mp hu)
  have hw := h.queues.waiters
  rw [hq.appended] at hw
  refine ⟨⟨?_, h.queues.reads, fun v hv => ?_, h.queues.saw_empty⟩, ?_⟩
  · rw [happ]
    have hp := (hperm.append_left s.rq).trans perm_middle
    refine ((hw.release hp).perm (List.Perm.refl _) perm_middle.symm).congr (fun v => Iff.rfl) fun v => ?_
    simp only [hunl v, hq.unlinked v]
  · rcases hv with hv | hv
    · exact h.queues.writes v (.inl (hmem v hv))
    · rcases mem_cons.mp hv with hv | hv
      · exact hv ▸ h.queues.writes u (.inl huq)
      · exact h.queues.writes v (.inr hv)
  exact
  { h.word with
    pc_ok := fun v => (h.word.pc_ok v).congr id id fun ws hws => absurd hws (hq.awake v ws)
    crit_ok := entered hcrit
    bit := by
      intro heven
      have hnil := h.word.bit heven
      rw [hnil.2] at huq
      cases huq
    writer_bit := fun hneg _ => .inr (hunq hneg)
    count := by
      have hcount := h.word.count
      rw [hq.granting] at hcount
      rw [hgra]
      exact hcount
    writer := by
      intro v
      have hold := h.word.writer v
      simp only [writerIs, hq.storing] at hold hnot
      simp only [writerIs, hsto]
      by_cases hvu : v = u
      · subst hvu
        exact iff_of_false (fun hv => hv.2 rfl) (h.word.queued v huq)
      · rw [← hold, mem_cons]
        simp only [hvu, false_or, some.injEq, Ne.symm hvu, ne_eq, not_false_eq_true, reduceCtorEq]
    queued := fun v hv => h.word.queued v (hmem v hv)
    stored := by
      intro v hst
      rw [hsto, some.injEq] at hst
      subst hst
      refine ⟨mem_cons_self, ?_⟩
      by_contra hne
      exact hnot ⟨.inl (by simpa using hne), by rw [hq.storing]; simp⟩ }

theorem Inv.store (h : Inv s) {w : Tid → Bool} {r : List Tid}
    (hm : s.mutex = some (t, k)) (hsto : storing s.mutex = some u) (happ : appended s.mutex = [u])
    (hunl : ∀ v, ¬ unlinked s.mutex v) (hgra : granting s.mutex = 0)
    (hpc : s.pc t = .runlockLock ∨ s.pc t = .wunlockLock)
    (hothers : ∀ v, v ≠ u → ¬ (w v = true ∨ v ∈ s.whanded))
    (hkept : ∀ v, v ≠ t → s.writing v = true → w v = true) (hwu : w u = false)
    (hcount : readers s.owner + s.released.length = r.length) :
    Inv { s with owner := s.handWord u, writing := w, released := r
                 mutex := some (t, .awakeAll [u]) } where
  queues := h.queues.congr happ.symm fun v => iff_of_false id (hunl v)
  word := by
    have huw := (h.word.stored u hsto).1
    have hwrites := h.queues.writes u (.inr huw)
    have hdiv := handWord_div s u
    have hpos := handWord_pos s u
    exact
    { h.word with
      pc_ok := by
        intro v
        by_cases hvt : v = t
        · subst hvt
          rcases hpc with hpc | hpc
          · rw [hpc]; trivial
          · rw [hpc]; exact .inr ⟨[u], rfl⟩
        · by_cases hvu : v = u
          · subst hvu
            cases hp : s.pc v <;> rw [hp] at hwrites <;> first | exact hwrites.elim | trivial
          · refine (h.word.pc_ok v).congr (fun _ hv => hvu ((hdiv v).mp hv)) (hkept v hvt) fun ws hws => ?_
            exact absurd hws (other hm (Ne.symm hvt) _)
      crit_ok := entered hpc
      bit := handWord_even
      writer_bit := fun (hneg : s.handWord u < 0) => by omega
      count := by
        have hold := h.word.count
        show readers (s.handWord u) + 0 + (r.length : Int) = s.acquired.length + s.rhanded.length
        rw [readers, if_neg (by omega)]
        omega
      writer := by
        intro v
        refine Iff.trans ?_ (hdiv v).symm
        by_cases hvu : v = u
        · subst hvu
          exact iff_of_true ⟨.inr huw, by simp [storing]⟩ rfl
        · exact iff_of_false (fun hv => hothers v hvu hv.1) hvu
      positive := fun _ => ⟨u, (hdiv u).mpr rfl⟩
      queued := by
        intro v hv hvu
        have heq := (hdiv v).mp hvu
        exact (nodup_append.mp h.queues.waiters.nodup).2.2 v (mem_append_right _ hv) u (mem_append_right _ huw) heq
      stored := nofun }

theorem Inv.storeReaders (h : Inv s) (hm : s.mutex = some (t, .wunlockReaders size ws)) (hrq : s.rq = [])
    (hmine : s.owner / 2 = t.id) :
    Inv { s with owner := -2 * size, writing := update s.writing t false
                 mutex := some (t, .awakeAll ws) } where
  queues := h.queues.congr (by rw [hm]; rfl) fun v => by rw [hm]; exact Iff.rfl
  word := by
    have ⟨hpc, hwq⟩ : s.pc t = .wunlockLock ∧ s.wq = [] := h.word.crit_ok t _ hm
    have hle : -2 * (size : Int) ≤ 0 := by omega
    have htw := (h.not_waiting hpc ⟨id, id⟩).2.2.2
    exact
    { h.word with
      pc_ok := by
        intro v
        by_cases hvt : v = t
        · subst hvt
          rw [hpc]
          exact .inr ⟨ws, rfl⟩
        · refine (h.word.pc_ok v).congr (fun _ => div_ne_id hle v) (fun hw => ?_) fun ws hws => ?_
          · exact (update_of_ne hvt _ _).trans hw
          · exact absurd hws (other hm (Ne.symm hvt) _)
      crit_ok := entered (.inr hpc)
      bit := fun _ => ⟨hrq, hwq⟩
      writer_bit := fun _ (hodd : -2 * (size : Int) % 2 = 1) => by omega
      count := by
        have hcount := h.word.count
        simp only [hm, granting] at hcount
        have hold : readers s.owner = 0 := by rw [readers, if_neg (by omega)]
        have hnew : readers (-2 * (size : Int)) = size := by
          unfold readers
          split <;> omega
        show readers (-2 * (size : Int)) + 0 + (s.released.length : Int) = s.acquired.length + s.rhanded.length
        omega
      writer := by
        intro v
        refine iff_of_false (fun hv => ?_) (div_ne_id hle v)
        by_cases hvt : v = t
        · subst hvt
          rcases hv.1 with hw | hw
          · have hfalse := (update_self v false s.writing).symm.trans hw
            cases hfalse
          · exact htw hw
        · have hold : writerIs s v :=
            ⟨hv.1.imp_left fun hw => (update_of_ne hvt _ _).symm.trans hw, by
              rw [hm]; simp [storing]⟩
          have hdiv := (h.word.writer v).mp hold
          apply hvt
          apply Tid.ext_id
          omega
      positive := fun (hp : 0 < -2 * (size : Int)) => by omega
      queued := fun v hv => div_ne_id hle v
      stored := nofun }

theorem Inv.retTimeout (h : Inv s) {sched : Sched} {o : Int}
    (hm : s.mutex = some (t, k)) (hunl : ∀ v, unlinked (some (t, k)) v ↔ t = v)
    (hsto : storing (some (t, k)) = none) (hgra : granting (some (t, k)) = 0)
    (hpc : s.pc t = .wTimedOut) (ho : o / 2 = s.owner / 2) (hreaders : readers o = readers s.owner)
    (hbit : o % 2 = 0 → s.rq = [] ∧ s.wq = []) (hwbit : o < 0 → o % 2 = 1 → s.wq ≠ [])
    (hpos : 0 < o → 0 < s.owner)
    (hwait : Waiters (s.rq ++ s.wq) (s.rhanded ++ s.whanded) [] sched
      (fun v => (s.pc v).sleeps) (fun v => (s.pc v).waits ∧ ¬ unlinked s.mutex v)) :
    Inv ({ s with owner := o, sched := sched, mutex := none }.ret t .etimedout) := by
  have hout : ∀ v, v ∈ s.rq ++ s.wq ∨ v ∈ s.rhanded ++ s.whanded → v ≠ t := by
    intro v hv hvt
    have hwaits := (h.queues.waiters.mem_iff v).mp (mem_append.mpr hv)
    rw [hm, hunl v] at hwaits
    exact hwaits.2 hvt.symm
  refine ⟨⟨?_, fun v hv => ?_, fun v hv => ?_, fun v hv => ?_⟩, ?_⟩
  · refine hwait.congr (update_iff (by rw [hpc]; exact id) id) fun v => ?_
    show ((update s.pc t .idle v).waits ∧ ¬ unlinked none v) ↔ _
    rw [update_iff_and (P := waits) (fun hw => hw.elim id id) v, hm, hunl v]
    simp only [unlinked, not_false_eq_true, and_true, eq_comm, ne_eq]
  · show (update s.pc t .idle v).reads
    rw [update_of_ne (hout v (hv.imp (mem_append_left _) (mem_append_left _)))]
    exact h.queues.reads v hv
  · show (update s.pc t .idle v).writes
    rw [update_of_ne (hout v (hv.imp (mem_append_right _) (mem_append_right _)))]
    exact h.queues.writes v hv
  · exact at_update h.queues.saw_empty (by simp) v hv
  · exact h.word.hold hm (fun v hv => update_of_ne hv _ _) (by rw [update_self]; trivial) left ho hreaders hpos
      hbit (fun hneg hodd => .inl (hwbit hneg hodd)) h.word.queued hgra.symm hsto.symm

end Handover

/-! ## Every critical section -/

section Critical

variable {s : State} {t : Tid} (h : Inv s) (protocol : Protocol)
include h

variable {timed : Bool}

theorem inv_rlockFetch (hm : s.mutex = some (t, .rlockFetch timed)) :
    Inv (runCrit protocol s t (.rlockFetch timed)) := by
  have hpc := h.word.crit_ok t _ hm
  have hq := hm ▸ of_simple rfl
  rw [runCrit]
  split_ifs with hread
  · exact ((h.unlock hq).ret nofun hpc ⟨id, id⟩).addReader (.inr rfl) (readable_iff.mp hread).1
  have hread : s.owner ≤ 0 → s.owner % 2 = 1 := by
    intro hle
    by_contra hne
    exact hread (readable_iff.mpr ⟨hle, by omega⟩)
  refine h.setWait hm rfl rfl (fun _ => id) rfl rfl (fun hneg => ?_) (fun hz => ?_) ⟨hpc, setWait_odd s.owner⟩
  · exact .inl ((h.word.writer_bit hneg (hread (by omega))).resolve_right hq.unqueued)
  · omega

theorem inv_rlockEmplace (hm : s.mutex = some (t, .rlockEmplace timed)) :
    Inv (runCrit protocol s t (.rlockEmplace timed)) := by
  have ⟨hpc, hodd⟩ : s.pc t = .rlockLock timed ∧ s.owner % 2 = 1 := h.word.crit_ok t _ hm
  have hq := hm ▸ of_simple rfl
  exact (h.unlock hq).linkReader rfl hpc hodd

theorem inv_rUnqueue (hm : s.mutex = some (t, .rUnqueue)) : Inv (runCrit protocol s t .rUnqueue) := by
  have hpc := h.word.crit_ok t _ hm
  have hq := hm ▸ of_simple rfl
  have hfree := h.unlock hq
  rw [runCrit]
  split
  · -- the lock was given to the reader before it got the mutex
    rename_i hnone
    have hrel := h.rhanded_of_timeout hpc ⟨trivial, id⟩ (hq.unlinked t) (unqueue_eq_none.mp hnone)
    exact hfree.retReader hrel nofun (hfree.leave rfl (mem_append_left _ hrel) (by rw [hpc]; exact id))
  next rq hsome =>
    exact h.cancelReader hm hsome

theorem inv_runlockFetch (hm : s.mutex = some (t, .runlockFetch)) : Inv (runCrit protocol s t .runlockFetch) := by
  have hpc := h.word.crit_ok t _ hm
  have hq := hm ▸ of_simple rfl
  have hidle : ∀ g, Inv { s with mutex := none, pc := update s.pc t .idle, gpr3 := g } :=
    fun g => (h.unlock hq).ret nofun hpc ⟨id, id⟩
  rw [runCrit]
  split
  next hlt =>
    exact (hidle _).dropReader (.inr rfl) hlt
  · split
    · exact hidle _
    · exact h.setMutex hq (of_simple rfl) (entered ⟨hpc, by omega⟩)

theorem inv_runlockSchedule (hm : s.mutex = some (t, .runlockSchedule)) :
    Inv (runCrit protocol s t .runlockSchedule) := by
  have ⟨hpc, howner⟩ : s.pc t = .runlockLock ∧ s.owner = -1 := h.word.crit_ok t _ hm
  have hq := hm ▸ of_simple rfl
  rw [runCrit]
  split
  next u wq hsome =>
    exact h.releaseWriter hq (schedule_perm hsome) rfl (fun _ => id) rfl rfl (fun _ => trivial) ⟨hpc, howner⟩
  -- the wait bit of the last reader stands for a queued writer
  rename_i hnone
  have hne := (h.word.writer_bit (by omega) (by omega)).resolve_right hq.unqueued
  exact absurd (schedule_eq_none.mp hnone) hne

theorem inv_runlockStore {u : Tid} (hm : s.mutex = some (t, .runlockStore u)) :
    Inv (runCrit protocol s t (.runlockStore u)) := by
  have ⟨hpc, howner⟩ : s.pc t = .runlockLock ∧ s.owner = -1 := h.word.crit_ok t _ hm
  have hsto : storing s.mutex = some u := by rw [hm]; rfl
  refine h.store hm hsto (by rw [hm]; rfl) (fun _ => by rw [hm]; exact id) (by rw [hm]; rfl)
    (.inl hpc) (fun v hvu hv => ?_) (fun _ _ => id) (h.word.stored u hsto).2 ?_
  · have hdiv := (h.word.writer v).mp ⟨hv, by rw [hsto]; simpa using Ne.symm hvu⟩
    exact div_ne_id (by omega) v hdiv
  · rw [howner, length_cons]
    rw [readers, if_pos (by omega)]
    omega

theorem inv_wlockFetch (hm : s.mutex = some (t, .wlockFetch timed)) :
    Inv (runCrit protocol s t (.wlockFetch timed)) := by
  have hpc := h.word.crit_ok t _ hm
  have hok := h.word.pc_ok t
  rw [hpc] at hok
  have hq := hm ▸ of_simple rfl
  rw [runCrit]
  split
  next hzero =>
    have hidle := (h.unlock hq).ret (g := update s.gpr3 t .ok) nofun hpc ⟨id, id⟩
    exact hidle.casWriter (update_self _ _ _) hzero
  next hne =>
    exact h.setWait hm rfl rfl (fun _ => id) rfl rfl (fun _ => .inr trivial) hne ⟨hpc, setWait_odd s.owner, hok⟩

theorem inv_wlockEmplace {old : Int} (hm : s.mutex = some (t, .wlockEmplace timed old)) :
    Inv (runCrit protocol s t (.wlockEmplace timed old)) := by
  have hcrit := h.word.crit_ok t _ hm
  simp only [runCrit]
  rw [if_neg hcrit.2.2]
  exact h.linkWriter hm

theorem inv_wUnqueue (hm : s.mutex = some (t, .wUnqueue)) : Inv (runCrit protocol s t .wUnqueue) := by
  have hpc := h.word.crit_ok t _ hm
  have hq := hm ▸ of_simple rfl
  have hfree := h.unlock hq
  rw [runCrit]
  split
  · -- the lock was given to the writer before it got the mutex
    rename_i hnone
    have hrel := h.whanded_of_timeout hpc ⟨trivial, id⟩ (hq.unlinked t) (unqueue_eq_none.mp hnone)
    exact hfree.retWriter hrel nofun (by simp [storing])
      (hfree.leave rfl (mem_append_right _ hrel) (by rw [hpc]; exact id))
  next wq hsome =>
    exact h.cancelWriter hm hsome

theorem inv_wTimeout (hm : s.mutex = some (t, .wTimeout)) : Inv (runCrit protocol s t .wTimeout) := by
  have ⟨hpc, hodd⟩ : s.pc t = .wTimedOut ∧ s.owner % 2 = 1 := h.word.crit_ok t _ hm
  have hw := h.queues.waiters
  rw [hm] at hw
  rw [runCrit]
  split
  next hcase =>
    exact ⟨h.queues.congr (by rw [hm]; rfl) fun v => by rw [hm]; exact Iff.rfl,
      h.word.hold hm (fun _ _ => rfl) (by rw [hpc]; trivial) (entered ⟨hpc, hodd, hcase.2.2, hcase.2.1⟩)
        rfl rfl id h.word.bit (fun _ _ => .inr trivial) h.word.queued rfl rfl⟩
  rename_i hcase
  split_ifs with hnil
  · refine h.retTimeout hm (fun _ => Iff.rfl) rfl rfl hpc
      (clearWait_div _) (readers_clearWait _) (fun _ => hnil) (fun _ hbit => ?_) (fun hpos => ?_)
      (by rw [hm]; exact hw)
    · rw [clearWait_even] at hbit
      omega
    · unfold clearWait at hpos
      omega
  · refine h.retTimeout hm (fun _ => Iff.rfl) rfl rfl hpc rfl rfl
      h.word.bit (fun hneg _ hwq => ?_) id (by rw [hm]; exact hw)
    -- no writer is left: the readers that wait were found, or nobody waits
    by_cases hrq : s.rq = []
    · exact hnil ⟨hrq, hwq⟩
    · exact hcase ⟨hrq, hwq, hneg⟩

theorem inv_wTimeoutReaders (hm : s.mutex = some (t, .wTimeoutReaders size ws)) :
    Inv (runCrit protocol s t (.wTimeoutReaders size ws)) := by
  have hcrit := h.word.crit_ok t _ hm
  have ⟨hpc, hodd, hneg, hwq⟩ := hcrit
  rw [runCrit]
  split
  next u rq hsome =>
    exact h.releaseReader hm (schedule_perm hsome) rfl (fun _ => Iff.rfl) rfl rfl
      (by simp only [granting]; push_cast; rfl) (fun _ => trivial) nofun hcrit
  rename_i hnone
  have hrq := schedule_eq_none.mp hnone
  have hle : clearWait (s.owner - 2 * size) ≤ 0 := by unfold clearWait; omega
  refine ⟨h.queues.congr (by rw [hm]; rfl) fun v => by rw [hm]; exact Iff.rfl, ?_⟩
  exact
  { h.word with
    pc_ok := fun v => (h.word.pc_ok v).congr (fun _ => div_ne_id hle v) id
      fun ws hws => by rw [hm] at hws; cases hws
    crit_ok := entered hpc
    bit := fun _ => ⟨hrq, hwq⟩
    writer_bit := by
      intro _ hbit
      have heven := clearWait_even (s.owner - 2 * size)
      simp only at hbit
      omega
    count := by
      have hcount := h.word.count
      simp only [hm, granting] at hcount
      have hadd : readers (clearWait (s.owner - 2 * size)) = readers s.owner + size := by
        rw [readers_clearWait]
        unfold readers
        omega
      show readers (clearWait (s.owner - 2 * size)) + 0 + (s.released.length : Int) =
        s.acquired.length + s.rhanded.length
      omega
    writer := by
      intro v
      have hold := h.word.writer v
      simp only [writerIs, hm] at hold
      exact hold.trans (iff_of_false (div_ne_id (by omega) v) (div_ne_id hle v))
    positive := fun (hpos : 0 < clearWait (s.owner - 2 * size)) => by omega
    queued := fun v _ => div_ne_id hle v
    stored := nofun }

theorem inv_wTimeoutAwake (hm : s.mutex = some (t, .wTimeoutAwake ws)) :
    Inv (runCrit protocol s t (.wTimeoutAwake ws)) := by
  have hpc := h.word.crit_ok t _ hm
  have hw := h.queues.waiters
  rw [hm] at hw
  refine h.retTimeout hm (fun _ => Iff.rfl) rfl rfl hpc rfl rfl
    h.word.bit (fun hneg hodd => ?_) id (by rw [hm]; exact hw.awakeAll)
  have hbit := h.word.writer_bit hneg hodd
  rw [hm] at hbit
  exact hbit.resolve_right id

theorem inv_wunlockSchedule (hm : s.mutex = some (t, .wunlockSchedule)) :
    Inv (runCrit protocol s t .wunlockSchedule) := by
  have hpc := h.word.crit_ok t _ hm
  have hq := hm ▸ of_simple rfl
  have hmine : s.owner / 2 = t.id := by
    have hok := h.word.pc_ok t
    rw [hpc] at hok
    have hwriting := hok.resolve_right fun ⟨ws, hws⟩ => hq.awake t ws hws
    exact (h.word.writer t).mp ⟨.inl hwriting, by rw [hq.storing]; simp⟩
  rw [runCrit]
  split
  next u wq hsome =>
    exact h.releaseWriter hq (schedule_perm hsome) rfl (fun _ => id) rfl rfl (fun hneg => by omega) hpc
  rename_i hnone
  have hwq := schedule_eq_none.mp hnone
  split_ifs with hrq
  · exact ⟨h.queues.congr hq.appended.symm fun v => iff_of_false id (hq.unlinked v),
      h.word.hold hm (fun _ _ => rfl) ((h.word.pc_ok t).congr id id fun ws hws => absurd hws (hq.awake t ws))
        (entered ⟨hpc, hwq⟩) rfl rfl id h.word.bit (fun hneg => by omega) h.word.queued rfl rfl⟩
  · have hidle := (h.unlock hq).ret (g := update s.gpr3 t .ok) nofun hpc ⟨id, id⟩
    exact hidle.free (update_self _ _ _) hmine ⟨not_not.mp hrq, hwq⟩ (.inr rfl)

theorem wunlock_owner (hm : s.mutex = some (t, k)) (hpc : s.pc t = .wunlockLock)
    (hk : ∀ ws, k ≠ .awakeAll ws) : s.writing t = true ∧ s.owner / 2 = t.id := by
  have hok := h.word.pc_ok t
  rw [hpc] at hok
  have hwriting : s.writing t = true := by
    refine hok.resolve_right fun ⟨ws, hws⟩ => ?_
    rw [hm, some.injEq, Prod.mk.injEq] at hws
    exact hk ws hws.2
  refine ⟨hwriting, (h.word.writer t).mp ⟨.inl hwriting, fun hst => ?_⟩⟩
  rw [(h.word.stored t hst).2] at hwriting
  cases hwriting

theorem inv_wunlockStore {u : Tid} (hm : s.mutex = some (t, .wunlockStore u)) :
    Inv (runCrit protocol s t (.wunlockStore u)) := by
  have hpc := h.word.crit_ok t _ hm
  have hsto : storing s.mutex = some u := by rw [hm]; rfl
  have ⟨hwriting, hmine⟩ := wunlock_owner h hm hpc fun _ hk => by cases hk
  have hut : u ≠ t := by
    intro hut
    have hu := (h.word.stored u hsto).2
    rw [hut, hwriting] at hu
    cases hu
  have htw := (h.not_waiting hpc ⟨id, id⟩).2.2.2
  refine h.store hm hsto (by rw [hm]; rfl) (fun _ => by rw [hm]; exact id) (by rw [hm]; rfl)
    (.inr hpc) (fun v hvu hv => ?_) (fun v hvt hw => ?_) ?_ ?_
  · by_cases hvt : v = t
    · subst hvt
      exact htw (hv.resolve_left (by simp))
    rw [update_of_ne hvt] at hv
    have hdiv := (h.word.writer v).mp ⟨hv, by rw [hsto]; simpa using Ne.symm hvu⟩
    apply hvt
    apply Tid.ext_id
    omega
  · exact (update_of_ne hvt _ _).trans hw
  · rw [update_of_ne hut]
    exact (h.word.stored u hsto).2
  · rw [readers, if_neg (by omega)]
    omega

theorem inv_wunlockReaders (hm : s.mutex = some (t, .wunlockReaders size ws)) :
    Inv (runCrit protocol s t (.wunlockReaders size ws)) := by
  have hcrit := h.word.crit_ok t _ hm
  have ⟨hwriting, hmine⟩ := wunlock_owner h hm hcrit.1 fun _ hk => by cases hk
  rw [runCrit]
  split
  next u rq hsome =>
    exact h.releaseReader hm (schedule_perm hsome) rfl (fun _ => Iff.rfl) rfl rfl
      (by simp only [granting]; push_cast; rfl) id nofun hcrit
  next hnone =>
    exact h.storeReaders hm (schedule_eq_none.mp hnone) hmine

theorem inv_awakeAll (hm : s.mutex = some (t, .awakeAll ws)) : Inv (runCrit protocol s t (.awakeAll ws)) := by
  have hpc := h.word.crit_ok t _ hm
  have hnot : ¬ (s.pc t).waits := by
    rcases hpc with hpc | hpc <;> rw [hpc] <;> exact fun hw => hw.elim id id
  have hw := h.queues.waiters
  rw [hm] at hw
  have hq := h.queues.move (p := .idle) (g := update s.gpr3 t .ok) hnot (fun hw => hw.elim id id)
  refine ⟨⟨?_, hq.reads, hq.writes, hq.saw_empty⟩, ?_⟩
  · refine hw.awakeAll.congr (update_iff (fun hs => hnot (waits_of_sleeps hs)) id) fun v => ?_
    show ((update s.pc t .idle v).waits ∧ ¬ unlinked none v) ↔ _
    rw [update_iff hnot (fun hw => hw.elim id id) v]
    exact Iff.rfl
  · refine h.word.hold hm (fun v hv => update_of_ne hv _ _) (by rw [update_self]; trivial) left rfl rfl id
      h.word.bit (fun hneg hodd => ?_) h.word.queued rfl rfl
    have hbit := h.word.writer_bit hneg hodd
    rw [hm] at hbit
    exact hbit

theorem inv_runCrit (hm : s.mutex = some (t, k)) : Inv (runCrit protocol s t k) := by
  cases k with
  | rlockFetch => exact inv_rlockFetch h protocol hm
  | rlockEmplace => exact inv_rlockEmplace h protocol hm
  | rUnqueue => exact inv_rUnqueue h protocol hm
  | runlockFetch => exact inv_runlockFetch h protocol hm
  | runlockSchedule => exact inv_runlockSchedule h protocol hm
  | runlockStore => exact inv_runlockStore h protocol hm
  | wlockFetch => exact inv_wlockFetch h protocol hm
  | wlockEmplace => exact inv_wlockEmplace h protocol hm
  | wUnqueue => exact inv_wUnqueue h protocol hm
  | wTimeout => exact inv_wTimeout h protocol hm
  | wTimeoutReaders => exact inv_wTimeoutReaders h protocol hm
  | wTimeoutAwake => exact inv_wTimeoutAwake h protocol hm
  | wunlockSchedule => exact inv_wunlockSchedule h protocol hm
  | wunlockStore => exact inv_wunlockStore h protocol hm
  | wunlockReaders => exact inv_wunlockReaders h protocol hm
  | awakeAll => exact inv_awakeAll h protocol hm

end Critical

/-! ## Every step -/

section Free

variable {s s' : State} {t : Tid} {q : Pc} {val : Int} (h : Inv s) (hfree : ∀ k, s.mutex ≠ some (t, k))
include h hfree

theorem inv_wunlockRet (hpc : s.pc t = q) (hq : ¬ q.reads ∧ ¬ q.writes)
    (hmine : val / 2 = t.id → s.writing t = true ∨ val % 2 ≠ 1) : Inv (wunlockRet s t val) := by
  unfold wunlockRet
  split
  · exact h.outside hfree hpc hq ⟨id, id⟩ trivial
  rename_i hdiv
  split_ifs with hodd
  · refine h.outside hfree hpc hq ⟨id, id⟩ (.inl ?_)
    exact (hmine (not_not.mp hdiv)).resolve_right (fun hne => hne hodd)
  · exact h.outside hfree hpc hq ⟨id, id⟩ trivial

theorem inv_trywlockRet (hpc : s.pc t = q) (hq : ¬ q.reads ∧ ¬ q.writes) : Inv (trywlockRet s t val) := by
  unfold trywlockRet
  split <;> exact h.outside hfree hpc hq ⟨id, id⟩ trivial

omit hfree in
theorem Inv.writing_of_owner (hpc : s.pc t = q) (hq : ¬ q.reads ∧ ¬ q.writes)
    (hdiv : s.owner / 2 = t.id) : s.writing t = true :=
  ((h.word.writer t).mpr hdiv).1.resolve_right (h.not_waiting hpc hq).2.2.2

theorem inv_runFree (hrun : runFree s t = some s') : Inv s' := by
  have hok := h.word.pc_ok t
  unfold runFree at hrun
  cases hpc : s.pc t with simp only [hpc] at hrun
  | idle => cases hrun
  | rlockLoad timed | runlockLoad =>
    cases hrun
    refine h.outside hfree hpc ⟨id, id⟩ ?_ ?_
    · split <;> exact ⟨id, id⟩
    · split
      · assumption
      · trivial
  | rlockCas =>
    simp only [hpc] at hok
    have hread := readable_iff.mp hok
    split at hrun <;> cases hrun
    next heq =>
      rw [← heq] at hread ⊢
      exact (h.ret hfree hpc ⟨id, id⟩).addReader (.inl hread.2) hread.1
    · exact h.outside hfree hpc ⟨id, id⟩ ⟨id, id⟩ trivial
  | rlockLock timed | runlockLock | wlockLock timed | wunlockLock | rTimedOutLock | wTimedOut =>
    split at hrun <;> cases hrun
    rename_i hm
    exact h.lock hm hpc (of_simple rfl)
  | rSleeping =>
    split at hrun <;> cases hrun
    rename_i hsig
    exact inv_wakeReader h hpc hsig
  | rTimedOut =>
    cases hrun
    refine h.timedOut hfree ?_ ?_ ?_ (fun hempty => ?_) ?_
    · rw [hpc]
      split <;> exact Iff.rfl
    · rw [hpc]
      split <;> exact Iff.rfl
    · split <;> trivial
    · split at hempty
      · -- the queue is empty, so the lock was given to this reader
        rename_i hrq
        exact h.rhanded_of_timeout hpc ⟨trivial, id⟩ (not_unlinked_of_free hfree) (by rw [hrq]; exact not_mem_nil)
      · cases hempty
    · refine h.queues.waiters.congr (update_iff (by rw [hpc]; exact id) ?_)
        fun u => Iff.rfl
      split <;> exact id
  | rTimedOutEmpty =>
    split at hrun <;> cases hrun
    rename_i hm
    have hrel := h.queues.saw_empty t hpc
    exact h.retReader hrel hfree (h.leave hm (mem_append_left _ hrel) (by rw [hpc]; exact id))
  | runlockCas val =>
    rw [hpc] at hok
    have hval : val < 0 ∧ val % 2 = 0 := hok
    split at hrun <;> cases hrun
    next heq =>
      rw [← heq] at hval ⊢
      exact (h.ret hfree hpc ⟨id, id⟩).dropReader (.inl hval.2) (show s.owner < -1 by omega)
    · exact h.outside hfree hpc ⟨id, id⟩ ⟨id, id⟩ trivial
  | wlockLoad =>
    split at hrun
    · cases hrun
      exact h.outside hfree hpc ⟨id, id⟩ ⟨id, id⟩ (div_ne_id (by omega) t)
    split at hrun <;> cases hrun
    · exact h.outside hfree hpc ⟨id, id⟩ ⟨id, id⟩ trivial
    next hne =>
      exact h.outside hfree hpc ⟨id, id⟩ ⟨id, id⟩ hne
  | wlockCas =>
    rw [hpc] at hok
    split at hrun <;> cases hrun
    next hzero =>
      exact (h.ret hfree hpc ⟨id, id⟩).casWriter (update_self _ _ _) hzero
    · exact h.outside hfree hpc ⟨id, id⟩ ⟨id, id⟩ hok
  | wSleeping =>
    split at hrun <;> cases hrun
    rename_i hsig
    exact inv_wakeWriter h hpc hsig
  | trywlockLoad =>
    split at hrun <;> cases hrun
    · exact h.outside hfree hpc ⟨id, id⟩ ⟨id, id⟩ trivial
    · exact inv_trywlockRet h hfree hpc ⟨id, id⟩
  | trywlockCas =>
    split at hrun <;> cases hrun
    next hzero =>
      exact (h.ret hfree hpc ⟨id, id⟩).casWriter (update_self _ _ _) hzero
    · exact inv_trywlockRet h hfree hpc ⟨id, id⟩
  | wunlockLoad =>
    split at hrun <;> cases hrun
    next hmine =>
      refine h.outside hfree hpc ⟨id, id⟩ ⟨id, id⟩ (h.writing_of_owner hpc ⟨id, id⟩ ?_)
      rw [hmine]
      exact (writerWord_div t t).mpr rfl
    · exact inv_wunlockRet h hfree hpc ⟨id, id⟩ fun hdiv => .inl (h.writing_of_owner hpc ⟨id, id⟩ hdiv)
  | wunlockCas =>
    split at hrun <;> cases hrun
    next hmine =>
      have hdiv : s.owner / 2 = t.id := by rw [hmine]; exact (writerWord_div t t).mpr rfl
      have heven : s.owner % 2 = 0 := by rw [hmine]; unfold writerWord; omega
      have hret : wunlockRet { s with owner := 0, writing := update s.writing t false } t
          s.owner = { s with owner := 0, writing := update s.writing t false }.ret t .ok := by
        unfold wunlockRet
        rw [if_neg (not_not.mpr hdiv), if_neg (by omega)]
      rw [hret]
      exact (h.ret hfree hpc ⟨id, id⟩).free (update_self _ _ _) hdiv (h.word.bit heven) (.inl heven)
    · exact inv_wunlockRet h hfree hpc ⟨id, id⟩ fun hdiv => .inl (h.writing_of_owner hpc ⟨id, id⟩ hdiv)

end Free

variable {s : State}

theorem inv_timeout {t : Tid} (h : Inv s) {p q : Pc} (hpc : s.pc t = p)
    (hr : p.reads ↔ q.reads) (hw : p.writes ↔ q.writes) (hsleeps : p.sleeps) (hq : ¬ q.sleeps)
    (hne : q ≠ .rTimedOutEmpty) (hok : PcOk s t q) :
    Inv ({ s with sched := s.sched.checkState t }.goto t q) := by
  have hwaits : (s.pc t).waits := by rw [hpc]; exact waits_of_sleeps hsleeps
  have hfree := h.free_of_waits (fun hp => by rw [← hpc, hp] at hsleeps; exact hsleeps)
    (fun hp => by rw [← hpc, hp] at hsleeps; exact hsleeps) hwaits
  refine h.timedOut hfree (by rw [hpc]; exact hr) (by rw [hpc]; exact hw) hok
    (fun he => absurd he hne) ?_
  exact h.queues.waiters.timeout (update_iff_and hq)

theorem inv_step {protocol : Protocol} {s s' : State} {e : Event} (h : Inv s)
    (hstep : step protocol s e = some s') : Inv s' := by
  have hfree : ∀ t, s.pc t = .idle → ∀ k, s.mutex ≠ some (t, k) := by
    intro t hpc k hm
    have hk := (h.word.crit_ok t k hm).pc
    rw [hpc] at hk
    simp at hk
  cases e with simp only [step] at hstep
  | rlock t timed | runlock t | wlock t timed | trywlock t | wunlock t =>
    split at hstep <;> cases hstep
    rename_i hpc
    exact h.outside (hfree t hpc) hpc ⟨id, id⟩ ⟨id, id⟩ trivial
  | tryrlock t =>
    have ⟨hpc, hstep⟩ := ite_none_right_eq_some.mp hstep
    have hret : ∀ g, Inv { s with pc := update s.pc t .idle, gpr3 := g } := fun g => h.ret (hfree t hpc) hpc ⟨id, id⟩
    split at hstep <;> cases hstep
    next hread =>
      have hread := readable_iff.mp hread
      exact (hret _).addReader (.inl hread.2) hread.1
    · exact hret _
  | timeout =>
    split at hstep
    next hpc =>
      cases hstep
      exact inv_timeout h hpc Iff.rfl Iff.rfl trivial id (by simp) trivial
    · split at hstep <;> cases hstep
      rename_i hpc
      exact inv_timeout h hpc Iff.rfl Iff.rfl trivial id (by simp) trivial
  | run =>
    split at hstep
    next holder crit hm =>
      split at hstep
      next hht =>
        subst hht
        cases hstep
        exact inv_runCrit h protocol hm
      next hne =>
        exact inv_runFree h (other hm hne) hstep
    next hm =>
      exact inv_runFree h (free hm) hstep

theorem inv_initial (h : Initial s) : Inv s := by
  have ⟨howner, hrq, hwq, hmutex, hasleep, hsignal, hpc, hfailed, hacq, hrel, hwriting, hrh, hwh⟩ := h
  refine ⟨⟨?_, fun t ht => ?_, fun t ht => ?_, fun t ht => ?_⟩, ⟨fun t => ?_, fun t k ht => ?_,
    fun _ => ⟨hrq, hwq⟩, fun hneg => ?_, ?_, fun t => ?_, fun hpos => ?_, fun t ht => ?_,
    fun t ht => ?_, hfailed⟩⟩
  · rw [hrq, hwq, hrh, hwh, hmutex]
    exact .none_waits hasleep hsignal (fun t => by simp [hpc, sleeps])
      fun t => by simp [hpc, waits, reads, writes]
  · simp [hrq, hrh] at ht
  · simp [hwq, hwh] at ht
  · simp [hpc] at ht
  · rw [hpc]; trivial
  · rw [hmutex] at ht; cases ht
  · omega
  · simp [howner, hmutex, hacq, hrel, hrh, readers, granting]
  · refine iff_of_false (fun hw => ?_) (div_ne_id (by omega) t)
    rcases hw.1 with hw | hw
    · rw [hwriting] at hw; cases hw
    · rw [hwh] at hw; cases hw
  · omega
  · rw [hwq] at ht; cases ht
  · rw [hmutex] at ht; cases ht

theorem inv_reachable {protocol : Protocol} (h : (system protocol).Reachable s) : Inv s :=
  h.invariant (fun _ => inv_initial) fun _ _ _ => inv_step

/-- The read locks that were acquired and not released yet: by calls that have returned, and by
queued readers the lock was given to. -/
def outstanding (s : State) : Int := s.acquired.length + s.rhanded.length - s.released.length

/-- The readers in the word are counted by acquisition and not by thread: a thread that takes the
read lock twice is two readers. -/
theorem rlock_twice_counts_two : let t : Tid := ⟨1, by decide, by decide⟩
    ∃ s, (system .fifo).Reachable s ∧ s.mutex = none ∧ (∀ u, s.pc u = .idle) ∧
      readers s.owner = 2 ∧ ∀ u, s.released.count u < s.acquired.count u ↔ u = t := by
  intro t
  have hrun : (system .fifo).run .created [.tryrlock t, .tryrlock t] = some
      ({ ({ State.created with owner := -2 }.retRead t) with owner := -4 }.retRead t) := rfl
  refine ⟨_, (System.Reachable.of_init initial_created).run hrun, rfl, fun u => ?_, rfl, fun u => ?_⟩
  · simp only [State.retRead, State.ret, State.created, update_apply, ite_self]
  · show List.count u [] < List.count u [t, t] ↔ u = t
    by_cases hut : u = t
    · simp
    · simp [hut, Ne.symm hut]

/-- The word is free, names one writer, or counts the readers; a free word has no waiters, and while the mutex is free
the wait bit of a lock that readers own stands for a queued writer.  With fewer than `2^62` outstanding acquisitions the
word is one of an `s64`. -/
theorem rwlock_word_exact {protocol : Protocol} {s : State} (h : (system protocol).Reachable s) :
    (s.owner = 0 → s.rq = [] ∧ s.wq = []) ∧ (0 < s.owner → ∃ t : Tid, s.owner / 2 = t.id) ∧
      (s.owner < 0 → 0 < readers s.owner) ∧ readers s.owner + granting s.mutex = outstanding s ∧
      (∀ t, s.writing t = true → s.owner / 2 = t.id ∧ readers s.owner = 0) ∧
      (s.mutex = none → readers s.owner = outstanding s ∧
        (s.owner < 0 → (s.owner % 2 = 1 ↔ s.wq ≠ []))) ∧ s.failed = false ∧
      (outstanding s < 2 ^ 62 → -2 ^ 63 ≤ s.owner ∧ s.owner < 2 ^ 63) := by
  have hinv := inv_reachable h
  have hcount : readers s.owner + granting s.mutex = outstanding s := by
    have := hinv.word.count
    unfold outstanding
    omega
  refine ⟨fun hzero => hinv.word.bit (by omega), hinv.word.positive, fun hneg => ?_, hcount,
    fun t hw => ?_, fun hm => ⟨?_, fun hneg => ⟨fun hodd => ?_, fun hwq => ?_⟩⟩, hinv.word.failed,
    fun hfew => ?_⟩
  · rw [readers, if_pos hneg]
    omega
  · have hdiv := (hinv.word.writer t).mp ⟨.inl hw, fun hst => by
      rw [(hinv.word.stored t hst).2] at hw
      cases hw⟩
    refine ⟨hdiv, ?_⟩
    rw [readers, if_neg (by omega)]
  · simp only [hm, granting] at hcount
    omega
  · have hbit := hinv.word.writer_bit hneg hodd
    rw [hm] at hbit
    exact hbit.resolve_right id
  · by_contra hne
    exact hwq (hinv.word.bit (by omega)).2
  · have hgranting : 0 ≤ granting s.mutex := by
      unfold granting
      split <;> omega
    by_cases hpos : 0 < s.owner
    · obtain ⟨t, ht⟩ := hinv.word.positive hpos
      have hlt := t.lt
      omega
    · unfold readers at hcount
      split at hcount <;> omega

theorem rwlock_word_writer_waits : ∃ s, (system .priority).Reachable s ∧ s.mutex = none ∧ s.owner = -1 ∧ s.wq ≠ [] ∧
      outstanding s = 1 := by
  let t : Tid := ⟨1, by decide, by decide⟩
  let u : Tid := ⟨2, by decide, by decide⟩
  have ⟨s, hs, hm, howner⟩ := System.Reachable.exists_of_run (M := system .priority) initial_created
    [.tryrlock t, .wlock u false, .run u, .run u, .run u, .run u]
    (fun s => s.mutex = none ∧ s.owner = -1) (by decide)
  have hfree := (rwlock_word_exact hs).2.2.2.2.2.1 hm
  refine ⟨s, hs, hm, howner, (hfree.2 (by omega)).mp (by omega), ?_⟩
  rw [← hfree.1, howner]
  rfl

end Armsx3.Lv2.Rwlock
