import Armsx3.Lv2.Scheduler

/-!
# SchedulerOrder — the run list stays in order

Every operation takes a thread out of the run list or puts one at the end of its priority group.
-/

namespace Armsx3.Lv2

open Function List Option Nat Scheduler Transition

namespace Scheduler

variable {s : Scheduler} {prio : Tid → Int} {cpu t : Tid} {l l' : List Tid}

/-! ## The run list -/

theorem emplaceWalk_spec (cpu : Tid) (h : l.Pairwise fun a b => prio a ≤ prio b) :
    (emplaceWalk prio cpu l = none → cpu ∈ l) ∧
      ∀ l', emplaceWalk prio cpu l = some l' → cpu ∉ l ∧ ∃ before after, l = before ++ after ∧
        l' = before ++ cpu :: after ∧ (∀ a ∈ before, prio a ≤ prio cpu) ∧ ∀ b ∈ after, prio cpu < prio b := by
  induction l with
  | nil =>
    refine ⟨nofun, ?_⟩
    intro l' hl
    cases hl
    exact ⟨not_mem_nil, [], [], rfl, rfl, nofun, nofun⟩
  | cons next rest ih =>
    have ⟨hnext, hrest⟩ := pairwise_cons.mp h
    have ⟨hnone, hsome⟩ := ih hrest
    unfold emplaceWalk
    by_cases heq : next = cpu
    · rw [if_pos heq, heq]
      exact ⟨fun _ => mem_cons_self, nofun⟩
    rw [if_neg heq]
    by_cases hlater : prio next > prio cpu
    · rw [if_pos hlater]
      have hall : ∀ b ∈ next :: rest, prio cpu < prio b := by
        intro b hb
        rcases mem_cons.mp hb with rfl | hb
        · exact hlater
        · exact lt_of_lt_of_le hlater (hnext b hb)
      refine ⟨nofun, ?_⟩
      intro l' hl
      cases hl
      -- a thread of the same priority cannot stand further behind
      exact ⟨fun hmem => absurd (hall cpu hmem) (lt_irrefl _), [], next :: rest, rfl, rfl, nofun, hall⟩
    · rw [if_neg hlater]
      constructor
      · intro h
        exact mem_cons_of_mem _ (hnone (map_eq_none_iff.mp h))
      · intro l' hl
        have ⟨l1, hl1, hcons⟩ := map_eq_some_iff.mp hl
        have ⟨hmem, before, after, hl, hl', hbefore, hafter⟩ := hsome l1 hl1
        refine ⟨?_, next :: before, after, ?_, ?_, ?_, hafter⟩
        · exact fun h => (mem_cons.mp h).elim (fun h => heq h.symm) hmem
        · rw [hl]
          rfl
        · rw [← hcons, hl']
          rfl
        · intro a ha
          rcases mem_cons.mp ha with rfl | ha
          · exact not_lt.mp hlater
          · exact hbefore a ha

theorem rotate_spec {i : Nat} (h : rotate prio cpu l = some (l', i)) :
    ∃ before group after, l = before ++ cpu :: (group ++ after) ∧ l' = before ++ (group ++ cpu :: after) ∧
      (∀ t ∈ group, prio t = prio cpu) ∧ (∀ t, after.head? = some t → prio t ≠ prio cpu) ∧ group ≠ [] ∧
      i = before.length + group.length := by
  induction l generalizing l' i with
  | nil => cases h
  | cons first rest ih =>
    unfold rotate at h
    by_cases heq : first = cpu
    · rw [if_pos heq] at h
      split at h
      · cases h
      rename_i t group hgroup
      cases h
      refine ⟨[], t :: group, rest.dropWhile fun t => prio t = prio cpu, ?_, rfl, ?_, ?_, cons_ne_nil _ _, ?_⟩
      · rw [← hgroup, takeWhile_append_dropWhile, heq]
        rfl
      · intro u hu
        rw [← hgroup] at hu
        have hdec := mem_takeWhile_imp hu
        exact of_decide_eq_true hdec
      · intro u hu heq'
        have hdrop := List.head?_dropWhile_not (fun t => decide (prio t = prio cpu)) rest
        rw [hu] at hdrop
        simp [heq'] at hdrop
      · show group.length + 1 = 0 + (group.length + 1)
        omega
    · rw [if_neg heq] at h
      have ⟨⟨l1, j⟩, hr, hpair⟩ := map_eq_some_iff.mp h
      have ⟨before, group, after, hl, hl', hgroup, hafter, hne, hi⟩ := ih hr
      cases hpair
      refine ⟨first :: before, group, after, ?_, ?_, hgroup, hafter, hne, ?_⟩
      · rw [hl]
        rfl
      · rw [hl']
        rfl
      · show j + 1 = before.length + 1 + group.length
        omega

theorem rotate_none (h : rotate prio cpu l = none) (hmem : cpu ∈ l) :
    ∃ before after, l = before ++ cpu :: after ∧ ∀ t, after.head? = some t → prio t ≠ prio cpu := by
  induction l with
  | nil => cases hmem
  | cons first rest ih =>
    unfold rotate at h
    by_cases heq : first = cpu
    · rw [if_pos heq] at h
      split at h
      next hgroup =>
        refine ⟨[], rest, by rw [heq]; rfl, ?_⟩
        intro t ht heq'
        cases rest with
        | nil => cases ht
        | cons =>
          cases ht
          rw [takeWhile_cons_of_pos (by simp [heq'])] at hgroup
          cases hgroup
      · cases h
    · rw [if_neg heq] at h
      have hrest := (mem_cons.mp hmem).resolve_left fun h => heq h.symm
      have ⟨before, after, hl, hafter⟩ := ih (map_eq_none_iff.mp h) hrest
      exact ⟨first :: before, after, by rw [hl]; rfl, hafter⟩

theorem Before.prio_le {since : Tid → Nat} {a b : Tid} (h : s.Before since a b) : s.prio a ≤ s.prio b := by
  rcases h with h | h
  · exact le_of_lt h
  · exact le_of_eq h.1

theorem Before.irrefl (s : Scheduler) (since : Tid → Nat) (a : Tid) : ¬ s.Before since a a := by
  intro h
  rcases h with h | h
  · exact lt_irrefl _ h
  · exact lt_irrefl _ h.2

end Scheduler

/-! ## The invariant -/

/-- What holds between any two operations under the lock. -/
structure SchedCore (s : Scheduler) : Prop where
  sorted : s.ppu.Pairwise (s.Before s.entered)
  fresh : ∀ t, s.entered t < s.clock
  deadlines : s.waiting.Pairwise fun a b => a.1 ≤ b.1
  single : (s.waiting.map Prod.snd).Nodup
  apart : ∀ e ∈ s.waiting, e.2 ∉ s.ppu
  pending : ∃ acks : Finset Tid, (∀ t, t ∈ acks ↔ s.ackSuspend t = true) ∧ s.pending = acks.card
  acked : ∀ t, s.ackSuspend t = true → s.suspend t = true

namespace SchedCore

variable {s s' : Scheduler} {cpu t : Tid}

theorem prio_sorted (h : SchedCore s) : s.ppu.Pairwise fun a b => s.prio a ≤ s.prio b :=
  h.sorted.imp Scheduler.Before.prio_le

theorem nodup (h : SchedCore s) : s.ppu.Nodup := by
  apply h.sorted.imp
  intro a b hab heq
  rw [heq] at hab
  exact Scheduler.Before.irrefl s s.entered b hab

theorem sorted_of_same (h : SchedCore s) {l : List Tid} (hsub : l.Sublist s.ppu) (hprio : ∀ t ∈ l, s'.prio t = s.prio t)
    (hentered : ∀ t ∈ l, s'.entered t = s.entered t) : l.Pairwise (s'.Before s'.entered) := by
  apply (h.sorted.sublist hsub).imp_of_mem
  intro a b ha hb hab
  unfold Scheduler.Before at hab ⊢
  rwa [hprio a ha, hprio b hb, hentered a ha, hentered b hb]

theorem fresh_update (h : SchedCore s) (t : Tid) : update s.entered cpu s.clock t < s.clock + 1 := by
  by_cases ht : t = cpu
  · rw [ht, update_self]
    exact lt_succ_self _
  · rw [update_of_ne ht]
    exact lt_succ_of_lt (h.fresh t)

theorem sorted_insert (h : SchedCore s) {before after : List Tid} (hold : (before ++ after).Sublist s.ppu)
    (hcpu : cpu ∉ before ++ after) (hprio : s'.prio = s.prio) (hentered : s'.entered = update s.entered cpu s.clock)
    (hbefore : ∀ a ∈ before, s.prio a ≤ s.prio cpu) (hafter : ∀ b ∈ after, s.prio cpu < s.prio b) :
    (before ++ cpu :: after).Pairwise (s'.Before s'.entered) := by
  have hrest : (before ++ after).Pairwise (s'.Before s'.entered) := by
    apply h.sorted_of_same hold (fun t _ => congrFun hprio t)
    intro t ht
    rw [hentered, update_of_ne (ne_of_mem_of_not_mem ht hcpu)]
  have ⟨hp1, hp2, hp3⟩ := pairwise_append.mp hrest
  apply pairwise_append.mpr
  refine ⟨hp1, pairwise_cons.mpr ⟨?_, hp2⟩, ?_⟩
  · intro b hb
    left
    rw [hprio]
    exact hafter b hb
  intro a ha b hb
  rcases mem_cons.mp hb with rfl | hb
  · have hna := ne_of_mem_of_not_mem (mem_append_left _ ha) hcpu
    unfold Scheduler.Before
    rw [hprio, hentered, update_of_ne hna, update_self]
    rcases lt_or_eq_of_le (hbefore a ha) with hlt | heq
    · exact .inl hlt
    · exact .inr ⟨heq, h.fresh a⟩
  · exact hp3 a ha b hb

theorem not_mem_eraseP {waiting : List (Nat × Tid)} (h : (waiting.map Prod.snd).Nodup) {e : Nat × Tid}
    (he : e ∈ waiting.eraseP fun e => e.2 = cpu) : e.2 ≠ cpu := by
  induction waiting with
  | nil => cases he
  | cons w rest ih =>
    have ⟨hw, hrest⟩ := nodup_cons.mp h
    by_cases hcpu : w.2 = cpu
    · rw [eraseP_cons_of_pos (by simp [hcpu])] at he
      intro heq
      exact hw (mem_map.mpr ⟨e, he, heq.trans hcpu.symm⟩)
    · rw [eraseP_cons_of_neg (by simp [hcpu])] at he
      rcases mem_cons.mp he with rfl | he
      · exact hcpu
      · exact ih hrest he

theorem emplaceThread (h : SchedCore s) (cpu : Tid) (awakes : Bool) : SchedCore (s.emplaceThread cpu awakes).1 := by
  have ⟨_, hsome⟩ := emplaceWalk_spec cpu h.prio_sorted
  unfold Scheduler.emplaceThread
  cases hwalk : emplaceWalk s.prio cpu s.ppu with
  | none => exact { h with }
  | some l =>
    have ⟨hcpu, before, after, hppu, hl, hbefore, hafter⟩ := hsome l hwalk
    have hsub : (s.waiting.eraseP fun e => e.2 = cpu).Sublist s.waiting := eraseP_sublist
    refine ⟨?_, ?_, h.deadlines.sublist hsub, h.single.sublist (hsub.map _), ?_, h.pending, h.acked⟩
    · rw [hl]
      rw [hppu] at hcpu
      exact h.sorted_insert (by rw [hppu]) hcpu rfl rfl hbefore hafter
    · exact h.fresh_update
    · intro e he
      have hne := not_mem_eraseP h.single he
      have hold := h.apart e (hsub.subset he)
      rw [hl]
      rw [hppu] at hold
      intro hmem
      rcases mem_append.mp hmem with hm | hm
      · exact hold (mem_append_left _ hm)
      · exact hold (mem_append_right _ ((mem_cons.mp hm).resolve_left hne))

theorem emplaceAll (h : SchedCore s) (toAwake : List Tid) : SchedCore (s.emplaceAll toAwake).1 := by
  have hfold : ∀ r : Scheduler × Bool, SchedCore r.1 →
      SchedCore (toAwake.foldl (fun r t => let r' := r.1.emplaceThread t true; (r'.1, r.2 || r'.2)) r).1 := by
    induction toAwake with
    | nil => exact fun _ hr => hr
    | cons t rest ih =>
      intro r hr
      exact ih _ (hr.emplaceThread t true)
  exact hfold (s, false) h

theorem acknowledge (h : SchedCore s) (t : Tid) : SchedCore (s.acknowledge t) := by
  unfold Scheduler.acknowledge
  by_cases hack : s.ackSuspend t = true
  · rw [if_pos hack]
    refine { h with pending := ?_, acked := ?_ }
    · rcases h.pending with ⟨acks, hacks, hcard⟩
      have hmem := (hacks t).mpr hack
      refine ⟨acks.erase t, ?_, ?_⟩
      · intro u
        rw [Finset.mem_erase, hacks]
        show _ ↔ update s.ackSuspend t false u = true
        by_cases hu : u = t
        · rw [hu, update_self]
          simp
        · simp [hu]
      · show s.pending - 1 = _
        have hpos := Finset.card_pos.mpr ⟨t, hmem⟩
        rw [hcard, Finset.card_erase_of_mem hmem]
        omega
    · intro u hu
      have hu : update s.ackSuspend t false u = true := hu
      by_cases hut : u = t
      · rw [hut, update_self] at hu
        cases hu
      · rw [update_of_ne hut] at hu
        exact h.acked u hu
  · rw [if_neg hack]
    exact h

theorem acknowledge_ppu (s : Scheduler) (t : Tid) :
    (s.acknowledge t).ppu = s.ppu ∧ (s.acknowledge t).suspend = s.suspend ∧ (s.acknowledge t).waiting = s.waiting := by
  unfold Scheduler.acknowledge
  split <;> exact ⟨rfl, rfl, rfl⟩

/-! ## Suspending -/

theorem update_suspend {f : Tid → Bool} {u : Tid} (hu : f u = true) : update f t true u = true := by
  by_cases hut : u = t
  · rw [hut, update_self]
  · rwa [update_of_ne hut]

theorem suspendThread (h : SchedCore s) (t : Tid) : SchedCore (s.suspendThread t) := by
  unfold Scheduler.suspendThread
  by_cases hsuspend : s.suspend t = true
  · rw [if_pos hsuspend]
    exact h
  rw [if_neg hsuspend]
  have hack := fun hack => hsuspend (h.acked t hack)
  refine { h with pending := ?_, acked := ?_ }
  · rcases h.pending with ⟨acks, hacks, hcard⟩
    have hmem := fun hmem => hack ((hacks t).mp hmem)
    refine ⟨insert t acks, ?_, ?_⟩
    · intro u
      rw [Finset.mem_insert, hacks]
      show _ ↔ update s.ackSuspend t true u = true
      by_cases hu : u = t
      · rw [hu, update_self]
        simp
      · simp [hu]
    · rw [hcard, Finset.card_insert_of_notMem hmem]
      rfl
  · intro u hu
    have hu : update s.ackSuspend t true u = true := hu
    show update s.suspend t true u = true
    by_cases hut : u = t
    · rw [hut, update_self]
    · rw [update_of_ne hut] at hu ⊢
      exact h.acked u hu

theorem suspendThread_spec (s : Scheduler) (t : Tid) :
    (s.suspendThread t).ppu = s.ppu ∧ (s.suspendThread t).suspend t = true ∧
      ∀ u, s.suspend u = true → (s.suspendThread t).suspend u = true := by
  unfold Scheduler.suspendThread
  by_cases hsuspend : s.suspend t = true
  · rw [if_pos hsuspend]
    exact ⟨rfl, hsuspend, fun _ hu => hu⟩
  rw [if_neg hsuspend]
  refine ⟨rfl, update_self _ _ _, ?_⟩
  exact fun u hu => update_suspend hu

theorem suspendLoop (h : SchedCore s) (l : List Tid) :
    SchedCore (l.foldl Scheduler.suspendThread s) ∧ (l.foldl Scheduler.suspendThread s).ppu = s.ppu ∧
      (∀ u, s.suspend u = true → (l.foldl Scheduler.suspendThread s).suspend u = true) ∧
      ∀ u ∈ l, (l.foldl Scheduler.suspendThread s).suspend u = true := by
  induction l generalizing s with
  | nil => exact ⟨h, rfl, fun _ hu => hu, nofun⟩
  | cons t rest ih =>
    have ⟨hppu, ht, hmono⟩ := suspendThread_spec s t
    have ⟨hcore, hsame, hkeep, hrest⟩ := ih (h.suspendThread t)
    refine ⟨hcore, hsame.trans hppu, fun u hu => hkeep u (hmono u hu), ?_⟩
    intro u hu
    rcases mem_cons.mp hu with rfl | hu
    · exact hkeep u ht
    · exact hrest u hu

end SchedCore

structure SchedInv (ppuThreads : Nat) (s : Scheduler) : Prop where
  core : SchedCore s
  beyond : ∀ t ∈ s.ppu.drop ppuThreads, s.suspend t = true

variable {ppuThreads : Nat} {s : Scheduler}

theorem SchedCore.suspendOthers (h : SchedCore s) (ppuThreads : Nat) (current : Option Tid) :
    SchedInv ppuThreads (s.suspendOthers ppuThreads current) ∧ (s.suspendOthers ppuThreads current).ppu = s.ppu := by
  have ⟨hcore, hppu, _, hall⟩ := h.suspendLoop (s.ppu.drop ppuThreads)
  unfold Scheduler.suspendOthers
  cases current with
  | none =>
    refine ⟨⟨hcore, ?_⟩, hppu⟩
    intro t ht
    rw [hppu] at ht
    exact hall t ht
  | some c =>
    have ⟨hp, hs, _⟩ := SchedCore.acknowledge_ppu ((s.ppu.drop ppuThreads).foldl Scheduler.suspendThread s) c
    refine ⟨⟨hcore.acknowledge c, ?_⟩, hp.trans hppu⟩
    intro t ht
    rw [hp, hppu] at ht
    rw [hs]
    exact hall t ht

/-! ## Sleeping -/

theorem insertWaiting_spec (waitUntil : Nat) (t : Tid) {waiting : List (Nat × Tid)}
    (h : waiting.Pairwise fun a b => a.1 ≤ b.1) : (insertWaiting waitUntil t waiting).Perm ((waitUntil, t) :: waiting) ∧
      (insertWaiting waitUntil t waiting).Pairwise fun a b => a.1 ≤ b.1 := by
  induction waiting with
  | nil => exact ⟨List.Perm.refl _, pairwise_singleton _ _⟩
  | cons e rest ih =>
    have ⟨he, hrest⟩ := pairwise_cons.mp h
    have ⟨hperm, hsorted⟩ := ih hrest
    unfold insertWaiting
    by_cases hlater : e.1 > waitUntil
    · rw [if_pos hlater]
      refine ⟨List.Perm.refl _, pairwise_cons.mpr ⟨?_, h⟩⟩
      intro b hb
      rcases mem_cons.mp hb with rfl | hb
      · exact le_of_lt hlater
      · exact le_trans (le_of_lt hlater) (he b hb)
    · rw [if_neg hlater]
      refine ⟨(hperm.cons e).trans (List.Perm.swap _ _ _), pairwise_cons.mpr ⟨?_, hsorted⟩⟩
      intro b hb
      rcases mem_cons.mp (hperm.mem_iff.mp hb) with rfl | hb
      · exact not_lt.mp hlater
      · exact he b hb

theorem SchedCore.registerTimeout (h : SchedCore s) {t : Tid} (hppu : t ∉ s.ppu) (hwaiting : ∀ e ∈ s.waiting, e.2 ≠ t)
    (timeout now : Nat) : SchedCore (s.registerTimeout t timeout now) := by
  unfold Scheduler.registerTimeout
  split
  · have ⟨hperm, hsorted⟩ := insertWaiting_spec (now + min timeout (2 ^ 64 - 1 - now)) t h.deadlines
    refine ⟨h.sorted, h.fresh, hsorted, ?_, ?_, h.pending, h.acked⟩
    · apply (hperm.map Prod.snd).nodup_iff.mpr
      refine nodup_cons.mpr ⟨?_, h.single⟩
      intro hmem
      have ⟨e, he, heq⟩ := mem_map.mp hmem
      exact hwaiting e he heq
    · intro e he
      rcases mem_cons.mp (hperm.mem_iff.mp he) with rfl | he
      · exact hppu
      · exact h.apart e he
  · exact h

theorem registerTimeout_ppu (s : Scheduler) (t : Tid) (timeout now : Nat) :
    (s.registerTimeout t timeout now).ppu = s.ppu ∧ (s.registerTimeout t timeout now).suspend = s.suspend := by
  unfold registerTimeout
  split <;> exact ⟨rfl, rfl⟩

theorem SchedInv.sleepUnlocked (h : SchedInv ppuThreads s) (t : Tid) (timeout now : Nat) :
    SchedInv ppuThreads (s.sleepUnlocked t timeout now).1 := by
  have hack := h.core.acknowledge t
  have ⟨hppu, hsuspend, _⟩ := SchedCore.acknowledge_ppu s t
  have hbeyond : ∀ u ∈ (s.acknowledge t).ppu.drop ppuThreads, (s.acknowledge t).suspend u = true := by
    rw [hppu, hsuspend]
    exact h.beyond
  unfold Scheduler.sleepUnlocked
  generalize s.acknowledge t = s1 at hack hbeyond
  simp only []
  by_cases hsignal : s1.signal t = true
  · rw [if_pos hsignal]
    exact ⟨{ hack with }, hbeyond⟩
  rw [if_neg hsignal]
  have hkeep : ∀ {l : List Tid}, l.Sublist s1.ppu → ∀ u ∈ l.drop ppuThreads, update s1.suspend t true u = true :=
    fun hsub u hu => SchedCore.update_suspend (hbeyond u ((hsub.drop ppuThreads).subset hu))
  have hacked : ∀ u, s1.ackSuspend u = true → update s1.suspend t true u = true := fun u hu => SchedCore.update_suspend (hack.acked u hu)
  cases hunqueue : unqueue s1.ppu t with
  | none =>
    simp only []
    split
    all_goals
      exact ⟨{ hack with acked := hacked }, hkeep (List.Sublist.refl _)⟩
  | some l =>
    have ⟨hmem, hl⟩ := unqueue_eq_some.mp hunqueue
    have hsub : l.Sublist s1.ppu := by
      rw [hl]
      exact erase_sublist
    have hout : t ∉ l := by
      rw [hl]
      exact hack.nodup.not_mem_erase
    have hwaiting : ∀ e ∈ s1.waiting, e.2 ≠ t := fun e he heq => hack.apart e he (heq ▸ hmem)
    have ⟨hp, hs⟩ := registerTimeout_ppu { s1 with
        cancelSleep := update s1.cancelSleep t 0
        suspend := update s1.suspend t true
        ppu := l } t timeout now
    refine ⟨?_, ?_⟩
    · apply SchedCore.registerTimeout
      · exact ⟨hack.sorted.sublist hsub, hack.fresh, hack.deadlines, hack.single,
          fun e he hmem => hack.apart e he (hsub.subset hmem), hack.pending, hacked⟩
      · exact hout
      · exact hwaiting
    · rw [hp, hs]
      exact hkeep hsub

/-! ## Waking up -/

theorem SchedInv.awakeEnqueue (h : SchedInv ppuThreads s) (cpu : Option Tid) (toAwake : List Tid)
    (current : Option Tid) : SchedInv ppuThreads (s.awakeEnqueue ppuThreads cpu toAwake current).1 := by
  cases cpu with
  | some t => exact ((h.core.emplaceThread t true).suspendOthers ppuThreads current).1
  | none => exact ((h.core.emplaceAll toAwake).suspendOthers ppuThreads current).1

variable {cpu : Tid}

theorem SchedCore.setPrio (h : SchedCore s) {l : List Tid} (hsub : l.Sublist s.ppu) (hcpu : cpu ∉ l)
    (prio : Int) : SchedCore { s with prio := update s.prio cpu prio, ppu := l } := by
  refine ⟨?_, h.fresh, h.deadlines, h.single, fun e he hmem => h.apart e he (hsub.subset hmem), h.pending, h.acked⟩
  exact h.sorted_of_same hsub (fun t ht => update_of_ne (ne_of_mem_of_not_mem ht hcpu) _ _) fun _ _ => rfl

theorem SchedInv.awakeSetPrio (h : SchedInv ppuThreads s) (cpu : Tid) (prio : Int) (current : Option Tid) :
    SchedInv ppuThreads (s.awakeSetPrio ppuThreads cpu prio current).1 := by
  unfold Scheduler.awakeSetPrio
  split
  · exact h
  cases hunqueue : unqueue s.ppu cpu with
  | none => exact ⟨h.core.setPrio (List.Sublist.refl _) (unqueue_eq_none.mp hunqueue) prio, h.beyond⟩
  | some l =>
    have ⟨_, hl⟩ := unqueue_eq_some.mp hunqueue
    have hcore : SchedCore { s with prio := update s.prio cpu prio, ppu := l } := by
      apply h.core.setPrio
      · rw [hl]
        exact erase_sublist
      · rw [hl]
        exact h.core.nodup.not_mem_erase
    exact ((hcore.emplaceThread cpu false).suspendOthers ppuThreads current).1

/-! ## Yielding -/

theorem SchedCore.after_later (h : SchedCore s) {before after : List Tid} (hppu : s.ppu = before ++ cpu :: after)
    {group rest : List Tid} (hafter : after = group ++ rest)
    (hhead : ∀ t, rest.head? = some t → s.prio t ≠ s.prio cpu) : ∀ t ∈ rest, s.prio cpu < s.prio t := by
  have hsorted := h.prio_sorted
  rw [hppu, hafter] at hsorted
  have ⟨_, hrest, _⟩ := pairwise_append.mp hsorted
  have ⟨hcpu, htail⟩ := pairwise_cons.mp hrest
  have ⟨_, hsuffix, _⟩ := pairwise_append.mp htail
  cases rest with
  | nil => exact nofun
  | cons u =>
    have hu := lt_of_le_of_ne (hcpu u (mem_append_right _ mem_cons_self)) (hhead u rfl).symm
    intro t ht
    rcases mem_cons.mp ht with rfl | ht
    · exact hu
    · exact lt_of_lt_of_le hu ((pairwise_cons.mp hsuffix).1 t ht)

theorem SchedCore.rotated (h : SchedCore s) {before group after : List Tid}
    (hppu : s.ppu = before ++ cpu :: (group ++ after)) (hgroup : ∀ t ∈ group, s.prio t = s.prio cpu)
    (hafter : ∀ t ∈ after, s.prio cpu < s.prio t) : SchedCore (s.rotated cpu (before ++ (group ++ cpu :: after))) := by
  have hsub : ((before ++ group) ++ after).Sublist s.ppu := by
    rw [hppu, append_assoc]
    exact (List.Sublist.refl before).append (sublist_cons_self _ _)
  have hcpu : cpu ∉ (before ++ group) ++ after := by
    have hnodup := h.nodup
    rw [hppu] at hnodup
    rw [append_assoc]
    exact (nodup_middle.mp hnodup |> nodup_cons.mp).1
  have hbefore : ∀ a ∈ before ++ group, s.prio a ≤ s.prio cpu := by
    intro a ha
    rcases mem_append.mp ha with ha | ha
    · have hsorted := h.prio_sorted
      rw [hppu] at hsorted
      exact (pairwise_append.mp hsorted).2.2 a ha cpu mem_cons_self
    · exact le_of_eq (hgroup a ha)
  have hlist : before ++ (group ++ cpu :: after) = (before ++ group) ++ cpu :: after := (append_assoc _ _ _).symm
  refine ⟨?_, ?_, h.deadlines, h.single, ?_, h.pending, h.acked⟩
  · rw [hlist]
    exact h.sorted_insert hsub hcpu rfl rfl hbefore hafter
  · exact h.fresh_update
  · intro e he hmem
    apply h.apart e he
    have hmem : e.2 ∈ before ++ (group ++ cpu :: after) := hmem
    rw [hppu]
    simp only [mem_append, mem_cons] at hmem ⊢
    tauto

theorem SchedInv.awakeYield (h : SchedInv ppuThreads s) (cpu : Tid) (toAwake : List Tid) (current : Option Tid) :
    SchedInv ppuThreads (s.awakeYield ppuThreads cpu toAwake current).1 := by
  unfold Scheduler.awakeYield
  cases hrotate : rotate s.prio cpu s.ppu with
  | none => exact h
  | some r =>
    have ⟨before, group, after, hppu, hl, hgroup, hhead, _, hi⟩ := rotate_spec hrotate
    have hafter := h.core.after_later hppu rfl hhead
    have hcore := h.core.rotated hppu hgroup hafter
    rw [← hl] at hcore
    show SchedInv ppuThreads (if r.2 < ppuThreads then (s.rotated cpu r.1, false) else _).1
    by_cases hnear : r.2 < ppuThreads
    · rw [if_pos hnear]
      refine ⟨hcore, ?_⟩
      -- both lists agree behind the group
      have hdrop : ∀ front : List Tid, front.length = r.2 + 1 →
          (front ++ after).drop ppuThreads = after.drop (ppuThreads - (r.2 + 1)) := by
        intro front hlen
        rw [drop_append, drop_eq_nil_of_le (by omega), hlen]
        rfl
      have hold : s.ppu.drop ppuThreads = after.drop (ppuThreads - (r.2 + 1)) := by
        rw [← hdrop (before ++ cpu :: group) (by rw [length_append, length_cons]; omega)]
        simp [hppu]
      have hnew : r.1.drop ppuThreads = after.drop (ppuThreads - (r.2 + 1)) := by
        rw [← hdrop (before ++ (group ++ [cpu])) (by rw [length_append, length_append, length_singleton]; omega)]
        simp [hl]
      intro t ht
      have ht : t ∈ r.1.drop ppuThreads := ht
      rw [hnew, ← hold] at ht
      exact h.beyond t ht
    · rw [if_neg hnear]
      exact ((hcore.emplaceAll toAwake).suspendOthers ppuThreads current).1

theorem SchedInv.yields (h : SchedInv ppuThreads s) (hcpu : cpu ∈ s.ppu) (current : Option Tid) :
    ∃ before group after, s.ppu = before ++ cpu :: (group ++ after) ∧ (∀ t ∈ group, s.prio t = s.prio cpu) ∧
      (∀ t ∈ after, s.prio cpu < s.prio t) ∧
      (s.awakeYield ppuThreads cpu [] current).1.ppu = before ++ (group ++ cpu :: after) := by
  unfold Scheduler.awakeYield
  cases hrotate : rotate s.prio cpu s.ppu with
  | none =>
    have ⟨before, after, hppu, hhead⟩ := rotate_none hrotate hcpu
    exact ⟨before, [], after, hppu, nofun, h.core.after_later hppu (nil_append _).symm hhead, hppu⟩
  | some r =>
    have ⟨before, group, after, hppu, hl, hgroup, hhead, _, _⟩ := rotate_spec hrotate
    have hafter := h.core.after_later hppu rfl hhead
    refine ⟨before, group, after, hppu, hgroup, hafter, ?_⟩
    have hcore := h.core.rotated hppu hgroup hafter
    rw [← hl] at hcore
    show (if r.2 < ppuThreads then (s.rotated cpu r.1, false) else _ : Scheduler × Bool).1.ppu = _
    split
    · exact hl
    · exact (hcore.suspendOthers ppuThreads current).2.trans hl

/-! ## Scheduling -/

theorem wakeLoop (s : Scheduler) (l : List Tid) : ∃ signal, l.foldl wake s =
      { s with suspend := fun t => if t ∈ l then false else s.suspend t, signal := signal } := by
  induction l generalizing s with
  | nil => exact ⟨s.signal, by simp⟩
  | cons u rest ih =>
    have hwake : ∃ signal, s.wake u =
        { s with suspend := fun t => if t = u then false else s.suspend t, signal := signal } := by
      unfold wake
      by_cases hu : s.suspend u = true
      · refine ⟨update s.signal u true, ?_⟩
        rw [if_pos hu]
        congr 1
        funext t
        exact update_apply _ _ _ _
      refine ⟨s.signal, ?_⟩
      rw [if_neg hu]
      have hsame : s.suspend = fun t => if t = u then false else s.suspend t := by
        funext t
        split
        next ht =>
          rw [ht]
          exact Bool.eq_false_iff.mpr hu
        · rfl
      rw [← hsame]
    rcases hwake with ⟨signal, hwake⟩
    rcases ih (s.wake u) with ⟨signal', hrest⟩
    refine ⟨signal', ?_⟩
    rw [foldl_cons, hrest, hwake]
    congr 1
    funext t
    split <;> split <;> simp_all

theorem SchedInv.scheduleAll (h : SchedInv ppuThreads s) (now : Nat) : SchedInv ppuThreads
    (s.scheduleAll ppuThreads now) := by
  have hdrop : (s.waiting.dropWhile fun e => e.1 ≤ now).Sublist s.waiting := dropWhile_sublist _
  unfold Scheduler.scheduleAll
  by_cases hidle : s.pending = 0 ∧ s.ready = true
  · rcases wakeLoop s (s.ppu.take ppuThreads) with ⟨signal, hwake⟩
    simp only [if_pos hidle, hwake]
    -- no thread has a response pending
    have hnone : ∀ t, s.ackSuspend t ≠ true := by
      intro t ht
      rcases h.core.pending with ⟨acks, hacks, hcard⟩
      have hempty : acks = ∅ := Finset.card_eq_zero.mp (by omega)
      have hmem := (hacks t).mpr ht
      rw [hempty] at hmem
      exact absurd hmem (Finset.notMem_empty t)
    refine ⟨⟨h.core.sorted, h.core.fresh, h.core.deadlines.sublist hdrop, h.core.single.sublist (hdrop.map _),
      fun e he => h.core.apart e (hdrop.subset he), h.core.pending, fun t ht => absurd ht (hnone t)⟩, ?_⟩
    intro t ht
    have hout := fun hmem => disjoint_take_drop h.core.nodup (le_refl _) hmem ht
    show (if t ∈ s.ppu.take ppuThreads then false else s.suspend t) = true
    rw [if_neg hout]
    exact h.beyond t ht
  · simp only [if_neg hidle]
    exact ⟨⟨h.core.sorted, h.core.fresh, h.core.deadlines.sublist hdrop, h.core.single.sublist (hdrop.map _),
      fun e he => h.core.apart e (hdrop.subset he), h.core.pending, h.core.acked⟩, h.beyond⟩

theorem scheduled (hpending : s.pending = 0) (hready : s.ready = true) (now : Nat) :
    ∀ t ∈ s.ppu.take ppuThreads, (s.scheduleAll ppuThreads now).suspend t = false := by
  intro t ht
  rcases wakeLoop s (s.ppu.take ppuThreads) with ⟨signal, hwake⟩
  unfold scheduleAll
  simp only [hpending, hready, and_self, if_true, hwake]
  rw [if_pos ht]

theorem SchedInv.safe (h : SchedInv ppuThreads s) : SchedSafe ppuThreads s where
  nodup := h.core.nodup
  ordered := h.core.sorted
  yields := fun _ hcpu current => h.yields hcpu current
  deadlines := h.core.deadlines
  single := h.core.single
  apart := h.core.apart
  pending := h.core.pending
  beyond := h.beyond
  scheduled := fun hpending hready now => scheduled hpending hready now

/-- In every state the scheduler reaches, its promises hold. -/
theorem scheduler_safe (hs : (schedSystem ppuThreads).Reachable s) : SchedSafe ppuThreads s := by
  apply SchedInv.safe
  apply hs.invariant
  · rintro s ⟨hppu, hwaiting, hpending, _, hack, hfresh⟩
    refine ⟨⟨?_, hfresh, ?_, ?_, ?_, ⟨∅, ?_, ?_⟩, ?_⟩, ?_⟩
    · rw [hppu]
      exact List.Pairwise.nil
    · rw [hwaiting]
      exact List.Pairwise.nil
    · rw [hwaiting]
      exact nodup_nil
    · rw [hwaiting]
      exact nofun
    · intro t
      rw [hack t]
      simp
    · rw [hpending]
      rfl
    · intro t ht
      rw [hack t] at ht
      cases ht
    · rw [hppu, drop_nil]
      exact nofun
  · intro s e s' hinv hstep
    cases e with
    | sleep t timeout now =>
      cases hstep
      exact hinv.sleepUnlocked t timeout now
    | awake cpu toAwake current =>
      cases hstep
      exact hinv.awakeEnqueue cpu toAwake current
    | yield cpu toAwake current =>
      cases hstep
      exact hinv.awakeYield cpu toAwake current
    | setPriority cpu prio current =>
      cases hstep
      exact hinv.awakeSetPrio cpu prio current
    | scheduleAll now =>
      cases hstep
      exact hinv.scheduleAll now
    | checkState t | makeReady =>
      cases hstep
      exact ⟨{ hinv.core with }, hinv.beyond⟩
    | outside t prio suspend =>
      have ⟨hout, rfl⟩ := ite_some_none_eq_some.mp hstep
      have hcore := hinv.core.setPrio (List.Sublist.refl _) hout.1 prio
      have hother : ∀ u, u ≠ t → update s.suspend t suspend u = s.suspend u := fun u hu => update_of_ne hu _ _
      refine ⟨{ hcore with acked := ?_ }, ?_⟩
      · intro u hu
        have hne : u ≠ t := by
          intro heq
          rw [heq, hout.2] at hu
          cases hu
        exact (hother u hne).trans (hinv.core.acked u hu)
      · intro u hu
        have hne : u ≠ t := fun heq => hout.1 (heq ▸ mem_of_mem_drop hu)
        exact (hother u hne).trans (hinv.beyond u hu)

def noThreads : Scheduler where
  ppu := []
  waiting := []
  pending := 0
  toSleep := []
  ready := false
  prio := fun _ => 1000
  suspend := fun _ => true
  signal := fun _ => false
  ackSuspend := fun _ => false
  cancelSleep := fun _ => 0
  clock := 1
  entered := fun _ => 0
  runnable := fun _ => 0

theorem schedSystem_init (ppuThreads : Nat) : (schedSystem ppuThreads).init noThreads :=
  ⟨rfl, rfl, rfl, rfl, fun _ => rfl, fun _ => Nat.zero_lt_one⟩

def thread (i : Fin 8) : Tid := ⟨i + 1, by omega, by omega⟩

/-- Three threads of one priority on two hardware threads; the first yields, and the third sleeps with a timeout. -/
theorem scheduler_safe_yield : ∃ s, (schedSystem 2).Reachable s ∧
    (s.ppu = [thread 1, thread 0] ∧ s.waiting = [(150, thread 2)] ∧ s.pending = 0) ∧ SchedSafe 2 s :=
  System.Reachable.exists_of_run_and scheduler_safe (schedSystem_init 2)
    [.makeReady, .awake none [thread 0, thread 1, thread 2] none, .scheduleAll 0, .yield (thread 0) [] (some (thread 0)),
      .scheduleAll 0, .checkState (thread 2), .sleep (thread 2) 50 100, .scheduleAll 100] (by decide +kernel)

/-- The priority of a thread that became runnable first is set to that of another one: it is put behind it. -/
theorem run_list_reordered : ∃ s, (schedSystem 2).Reachable s ∧
    (s.ppu = [thread 1, thread 0] ∧ s.prio (thread 1) = s.prio (thread 0) ∧
      s.runnable (thread 0) < s.runnable (thread 1)) :=
  System.Reachable.exists_of_run (schedSystem_init 2)
    [.outside (thread 1) 1001 true, .awake (some (thread 0)) [] none, .awake (some (thread 1)) [] none,
      .setPriority (thread 0) 1001 (some (thread 1))] _ (by decide +kernel)

end Armsx3.Lv2
