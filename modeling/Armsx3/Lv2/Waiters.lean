import Armsx3.Library.Holder
import Armsx3.Lv2.Sync

/-!
# Waiters — the life of a waiting thread, once for every LV2 object

A thread that waits is linked into a queue, then taken out of it by another thread (`schedule`), then woken; or it
times out and unlinks itself.  `released` are the threads taken out of the queue that did not return yet, and
`appended` those of them that still wait for `lv2_obj::awake_all`.
-/

namespace Armsx3.Lv2

open Function Sched List Bool

variable {α : Type*} {P : α → Prop} {pc : Tid → α} {t : Tid} {p : α}

theorem update_congr (hP : P (pc t) ↔ P p) (u : Tid) : P (update pc t p u) ↔ P (pc u) := by
  rw [update_apply]
  split_ifs with hut
  · rw [hut]
    exact hP.symm
  · exact Iff.rfl

theorem update_iff (hold : ¬ P (pc t)) (hnew : ¬ P p) (u : Tid) : P (update pc t p u) ↔ P (pc u) :=
  update_congr (iff_of_false hold hnew) u

theorem update_iff_and (hnew : ¬ P p) (u : Tid) : P (update pc t p u) ↔ P (pc u) ∧ u ≠ t := by
  rw [update_apply]
  split_ifs with hut
  · exact ⟨fun hp => absurd hp hnew, fun hp => absurd hut hp.2⟩
  · exact ⟨fun hp => ⟨hp, hut⟩, fun hp => hp.1⟩

theorem of_update {q : α} (hnew : p ≠ q) {u : Tid} (hu : update pc t p u = q) : pc u = q ∧ u ≠ t :=
  (update_iff_and (P := (· = q)) hnew u).mp hu

/-- What holds of the threads at `q` holds of `t` too when it goes there. -/
theorem at_update {q : α} {Q : Tid → Prop} (h : ∀ u, pc u = q → Q u) (ht : p = q → Q t) (u : Tid) :
    update pc t p u = q → Q u :=
  (forall_update_iff pc fun u x => x = q → Q u).mpr ⟨ht, fun u _ => h u⟩ u

theorem update_iff_or (hnew : P p) (u : Tid) : P (update pc t p u) ↔ P (pc u) ∨ u = t := by
  rw [update_apply]
  split_ifs with hut
  · exact ⟨fun _ => .inr hut, fun _ => hnew⟩
  · exact ⟨.inl, fun hp => hp.resolve_right hut⟩

/-- `waits` holds from the `emplace` of a thread to its return, `sleeps` while it is in the loop
that tests `cpu_flag::signal`. -/
structure Waiters (queue released appended : List Tid) (sched : Sched)
    (sleeps waits : Tid → Prop) : Prop where
  nodup : (queue ++ released).Nodup
  mem_iff : ∀ t, t ∈ queue ++ released ↔ waits t
  waits_of_sleeps : ∀ t, sleeps t → waits t
  signal : ∀ t, sched.signal t = true → t ∈ released ∧ sleeps t ∧ sched.asleep t = false
  asleep : ∀ t, sched.asleep t = true → sleeps t
  appended : ∀ t ∈ appended, t ∈ released ∧ sched.signal t = false

namespace Waiters

variable {queue released appended : List Tid} {sched : Sched} {sleeps waits : Tid → Prop}
  {sleeps' waits' : Tid → Prop} {t : Tid}

theorem none_waits (hasleep : ∀ t, sched.asleep t = false) (hsignal : ∀ t, sched.signal t = false)
    (hs : ∀ t, ¬ sleeps t) (hw : ∀ t, ¬ waits t) : Waiters [] [] [] sched sleeps waits := by
  refine ⟨nodup_nil, fun t => ⟨nofun, fun ht => absurd ht (hw t)⟩, fun t ht => absurd ht (hs t), fun t ht => ?_,
    fun t ht => ?_, nofun⟩
  · exact absurd ((hsignal t).symm.trans ht) nofun
  · exact absurd ((hasleep t).symm.trans ht) nofun

section

variable (h : Waiters queue released appended sched sleeps waits)
include h

theorem not_mem (ht : ¬ waits t) : t ∉ queue ∧ t ∉ released := by
  have hm := fun hmem => ht ((h.mem_iff t).mp hmem)
  exact ⟨fun hq => hm (mem_append_left _ hq), fun hr => hm (mem_append_right _ hr)⟩

theorem queue_or_released (ht : waits t) : (t ∈ queue ∧ t ∉ released) ∨ (t ∉ queue ∧ t ∈ released) := by
  have hdisj := (nodup_append.mp h.nodup).2.2
  rcases mem_append.mp ((h.mem_iff t).mpr ht) with hq | hr
  · exact .inl ⟨hq, fun hr => hdisj t hq t hr rfl⟩
  · exact .inr ⟨fun hq => hdisj t hq t hr rfl, hr⟩

theorem congr (hs : ∀ u, sleeps' u ↔ sleeps u) (hw : ∀ u, waits' u ↔ waits u) :
    Waiters queue released appended sched sleeps' waits' := by
  have hs' := funext fun u => propext (hs u)
  have hw' := funext fun u => propext (hw u)
  rw [hs', hw']
  exact h

theorem perm {queue' released' : List Tid} (hq : queue.Perm queue') (hr : released.Perm released') :
    Waiters queue' released' appended sched sleeps waits := by
  have hperm := hq.append hr
  refine ⟨hperm.nodup_iff.mp h.nodup, fun u => ?_, h.waits_of_sleeps, fun u hu => ?_, h.asleep, fun u hu => ?_⟩
  · rw [← hperm.mem_iff, h.mem_iff]
  · have hold := h.signal u hu
    exact ⟨hr.mem_iff.mp hold.1, hold.2⟩
  · have hold := h.appended u hu
    exact ⟨hr.mem_iff.mp hold.1, hold.2⟩

theorem emplace (ht : ¬ waits t) (hs : ∀ u, sleeps' u ↔ sleeps u ∨ u = t) (hw : ∀ u, waits' u ↔ waits u ∨ u = t) :
    Waiters (t :: queue) released appended ((sched.sleep t).enqueued t) sleeps' waits' := by
  have hmem := fun hm => ht ((h.mem_iff t).mp hm)
  refine ⟨nodup_cons.mpr ⟨hmem, h.nodup⟩, fun u => ?_, fun u hu => ?_, fun u hu => ?_, fun u hu => ?_, h.appended⟩
  · rw [cons_append, mem_cons, h.mem_iff u, hw u]
    exact or_comm
  · rcases (hs u).mp hu with hu | hu
    · exact (hw u).mpr (.inl (h.waits_of_sleeps u hu))
    · exact (hw u).mpr (.inr hu)
  · have hold := h.signal u hu
    have hut : u ≠ t := fun hut => ht (hut ▸ h.waits_of_sleeps u hold.2.1)
    refine ⟨hold.1, (hs u).mpr (.inl hold.2.1), ?_⟩
    simpa only [enqueued, sleep, update_of_ne hut] using hold.2.2
  · by_cases hut : u = t
    · exact (hs u).mpr (.inr hut)
    · have hold : sched.asleep u = true := by
        simpa only [enqueued, sleep, update_of_ne hut] using hu
      exact (hs u).mpr (.inl (h.asleep u hold))

theorem release {u : Tid} {rest : List Tid} (hp : queue.Perm (u :: rest)) :
    Waiters rest (u :: released) (u :: appended) sched sleeps waits := by
  have hperm := (hp.append_right released).trans perm_middle.symm
  have huq := hp.mem_iff.mpr mem_cons_self
  have hdisj := (nodup_append.mp h.nodup).2.2
  have hur := fun hr => hdisj u huq u hr rfl
  refine ⟨hperm.nodup_iff.mp h.nodup, fun v => ?_, h.waits_of_sleeps, fun v hv => ?_, h.asleep, fun v hv => ?_⟩
  · rw [← hperm.mem_iff, h.mem_iff]
  · have hold := h.signal v hv
    exact ⟨mem_cons_of_mem u hold.1, hold.2⟩
  rcases mem_cons.mp hv with hv | hv
  · subst hv
    refine ⟨mem_cons_self, ?_⟩
    by_contra hsig
    exact hur (h.signal v (by simpa using hsig)).1
  · have hold := h.appended v hv
    exact ⟨mem_cons_of_mem u hold.1, hold.2⟩

theorem releaseAll {us rest : List Tid} (hp : queue.Perm (us ++ rest)) :
    Waiters rest (us ++ released) (us ++ appended) sched sleeps waits := by
  induction us generalizing rest with
  | nil => exact h.perm hp (List.Perm.refl _)
  | cons u us ih => exact (ih (hp.trans perm_middle.symm)).release (List.Perm.refl _)

theorem awakeAll : Waiters queue released [] (sched.awakeAll appended) sleeps waits := by
  refine ⟨h.nodup, h.mem_iff, h.waits_of_sleeps, fun u hu => ?_, fun u hu => ?_, fun u hu => ?_⟩
  · have hawake := sched.awakeAll_asleep appended u
    rcases (sched.awakeAll_signal appended u).mp hu with hu | ⟨ha, hu⟩
    · have hold := h.signal u hu
      refine ⟨hold.1, hold.2.1, ?_⟩
      by_contra hne
      have hne' := hawake.mp (by simpa using hne)
      rw [hold.2.2] at hne'
      cases hne'.1
    · refine ⟨(h.appended u hu).1, h.asleep u ha, ?_⟩
      by_contra hne
      exact (hawake.mp (by simpa using hne)).2 hu
  · exact h.asleep u ((sched.awakeAll_asleep appended u).mp hu).1
  · cases hu

/-- What is left when `t` is taken out of the queue or of the released threads. -/
theorem without {l : List Tid} (hperm : (queue ++ released).Perm (t :: l)) :
    l.Nodup ∧ ∀ u, u ∈ l ↔ waits u ∧ u ≠ t := by
  have hnd := nodup_cons.mp (hperm.nodup_iff.mp h.nodup)
  refine ⟨hnd.2, fun u => ?_⟩
  rw [← h.mem_iff u, hperm.mem_iff, mem_cons]
  constructor
  · intro hu
    exact ⟨.inr hu, fun hut => hnd.1 (hut ▸ hu)⟩
  · rintro ⟨hu | hu, hne⟩
    · exact absurd hu hne
    · exact hu

omit h in
theorem perm_erase (hrel : t ∈ released) : (queue ++ released).Perm (t :: (queue ++ released.erase t)) :=
  ((perm_cons_erase hrel).append_left queue).trans perm_middle

theorem wake (ht : sched.signal t = true) (hs : ∀ u, sleeps' u ↔ sleeps u ∧ u ≠ t)
    (hw : ∀ u, waits' u ↔ waits u ∧ u ≠ t) : Waiters queue (released.erase t) appended (sched.resetSignal t) sleeps' waits' := by
  have hrel := (h.signal t ht).1
  have hasleep := (h.signal t ht).2.2
  have hrest := h.without (perm_erase hrel)
  refine ⟨hrest.1, fun u => (hrest.2 u).trans (hw u).symm, fun u hu => ?_, fun u hu => ?_, fun u hu => ?_,
    fun u hu => ?_⟩
  · have hold := (hs u).mp hu
    exact (hw u).mpr ⟨h.waits_of_sleeps u hold.1, hold.2⟩
  · by_cases hut : u = t
    · subst hut
      simp only [resetSignal, update_self, false_eq_true] at hu
    have hold : sched.signal u = true := by
      simpa only [resetSignal, update_of_ne hut] using hu
    have hin := h.signal u hold
    exact ⟨(mem_erase_of_ne hut).mpr hin.1, (hs u).mpr ⟨hin.2.1, hut⟩, hin.2.2⟩
  · have hut : u ≠ t := by
      intro hut
      have hu' : sched.asleep u = true := hu
      rw [hut, hasleep] at hu'
      cases hu'
    exact (hs u).mpr ⟨h.asleep u hu, hut⟩
  · have hold := h.appended u hu
    have hut : u ≠ t := by
      intro hut
      rw [hut, ht] at hold
      cases hold.2
    refine ⟨(mem_erase_of_ne hut).mpr hold.1, ?_⟩
    simpa only [resetSignal, update_of_ne hut] using hold.2

theorem timeout (hs : ∀ u, sleeps' u ↔ sleeps u ∧ u ≠ t) :
    Waiters queue released appended (sched.checkState t) sleeps' waits := by
  refine ⟨h.nodup, h.mem_iff, fun u hu => h.waits_of_sleeps u ((hs u).mp hu).1, fun u hu => ?_,
    fun u hu => ?_, fun u hu => ?_⟩
  · by_cases hut : u = t
    · subst hut
      simp only [checkState, update_self, false_eq_true] at hu
    have hold : sched.signal u = true := by
      simpa only [checkState, update_of_ne hut] using hu
    have hin := h.signal u hold
    refine ⟨hin.1, (hs u).mpr ⟨hin.2.1, hut⟩, ?_⟩
    simpa only [checkState, update_of_ne hut] using hin.2.2
  · by_cases hut : u = t
    · subst hut
      simp only [checkState, update_self, false_eq_true] at hu
    · have hold : sched.asleep u = true := by
        simpa only [checkState, update_of_ne hut] using hu
      exact (hs u).mpr ⟨h.asleep u hold, hut⟩
  · have hold := h.appended u hu
    refine ⟨hold.1, ?_⟩
    by_cases hut : u = t
    · subst hut
      simp only [checkState, update_self]
    · simpa only [checkState, update_of_ne hut] using hold.2

theorem cancel {rest : List Tid} (hp : queue.Perm (t :: rest)) (ht : ¬ sleeps t)
    (hw : ∀ u, waits' u ↔ waits u ∧ u ≠ t) : Waiters rest released appended sched sleeps waits' := by
  have hrest := h.without (hp.append_right released)
  refine ⟨hrest.1, fun u => (hrest.2 u).trans (hw u).symm, fun u hu => ?_, h.signal, h.asleep, h.appended⟩
  exact (hw u).mpr ⟨h.waits_of_sleeps u hu, fun hut => ht (hut ▸ hu)⟩

end

theorem leave (h : Waiters queue released [] sched sleeps waits) (hrel : t ∈ released)
    (ht : ¬ sleeps t) (hw : ∀ u, waits' u ↔ waits u ∧ u ≠ t) :
    Waiters queue (released.erase t) [] sched sleeps waits' := by
  have hrest := h.without (perm_erase hrel)
  refine ⟨hrest.1, fun u => (hrest.2 u).trans (hw u).symm, fun u hu => ?_, fun u hu => ?_, h.asleep, nofun⟩
  · exact (hw u).mpr ⟨h.waits_of_sleeps u hu, fun hut => ht (hut ▸ hu)⟩
  · have hold := h.signal u hu
    have hut : u ≠ t := fun hut => ht (hut ▸ hold.2.1)
    exact ⟨(mem_erase_of_ne hut).mpr hold.1, hold.2⟩

end Waiters

end Armsx3.Lv2
