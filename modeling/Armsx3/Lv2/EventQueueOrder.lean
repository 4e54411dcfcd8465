import Armsx3.Lv2.EventQueue
import Armsx3.Lv2.Waiters

/-!
# Every event sent is received once, in order

What left the queue for a thread is what the calls of this thread have returned, followed by what it
holds in its registers or in the array of `tryreceive`.
-/

namespace Armsx3.Lv2.EventQueue

open Transition Function Holder List State Pc

def Pc.sleeps : Pc → Prop
  | .sleeping _ => True
  | _ => False

def Pc.waits : Pc → Prop
  | .sleeping _ | .timedOut | .timedOutEmpty | .timedOutLock => True
  | _ => False

def PcOk (c : Queue) : Pc → Prop
  | .recvLock timed | .sleeping timed => timed = true → c.type = .ppu
  | .timedOut | .timedOutEmpty | .timedOutLock | .tryLock _ | .tryCopy _ => c.type = .ppu
  | _ => True

def CritOk : Crit → Pc → Prop
  | .send event, p => p = .sendLock event
  | .sendStore _ event, p => p = .sendLock event
  | .sendAwake _, p => ∃ event, p = .sendLock event
  | .recv timed, p => p = .recvLock timed
  | .unqueue, p => p = .timedOutLock
  | .tryPop size _, p => p = .tryLock size
  | .spuTry, p => p = .spuTryLock
  | .drain, p => p = .drainLock

def appended : Option (Tid × Crit) → List Tid
  | some (_, .sendStore u _) => [u]
  | some (_, .sendAwake u) => [u]
  | _ => []

def taken : Option (Tid × Crit) → List Ev
  | some (_, .tryPop _ events) => events
  | _ => []

def takenBy (mutex : Option (Tid × Crit)) (t : Tid) : List Ev :=
  match mutex with
  | some (h, .tryPop _ events) => if h = t then events else []
  | _ => []

def Pc.copying : Pc → List Ev
  | .tryCopy events => events
  | _ => []

/-- The event registers of a thread, with the store of a sender that is about to make it. -/
def registers (c : Queue) (s : State) (t : Tid) : Packet :=
  match s.mutex with
  | some (_, .sendStore u event) => if u = t then c.type.packet event else s.data t
  | _ => s.data t

def pending (c : Queue) (s : State) (t : Tid) : List Packet :=
  (if t ∈ s.handed then [registers c s t] else []) ++ (takenBy s.mutex t ++ (s.pc t).copying).map c.type.packet

def delivered (c : Queue) (left : List (Ev × Option Tid)) (t : Tid) : List Packet :=
  (left.filter fun p => p.2 = some t).map fun p => c.type.packet p.1

structure Inv (c : Queue) (s : State) : Prop where
  waiters : Waiters (s.pq ++ s.sq) s.handed (appended s.mutex) s.sched
    (fun t => (s.pc t).sleeps) (fun t => (s.pc t).waits)
  side : if c.type = .ppu then s.sq = [] else s.pq = []
  pc_ok : ∀ t, PcOk c (s.pc t)
  crit_ok : ∀ t k, s.mutex = some (t, k) → CritOk k (s.pc t)
  saw_empty : ∀ t, s.pc t = .timedOutEmpty → t ∈ s.handed
  idle_events : s.events ≠ [] → s.pq = [] ∧ s.sq = []
  size : s.events.length + (taken s.mutex).length ≤ c.size
  order : s.sent = s.left.map Prod.fst ++ s.events
  delivery : ∀ t, delivered c s.left t = s.received t ++ pending c s t
  failed : s.failed = false

/-! ## Frame lemmas -/

theorem delivered_append (c : Queue) (l m : List (Ev × Option Tid)) (t : Tid) :
    delivered c (l ++ m) t = delivered c l t ++ delivered c m t := by
  simp only [delivered, filter_append, map_append]

theorem delivered_one (c : Queue) (event : Ev) (u t : Tid) :
    delivered c [(event, some u)] t = if u = t then [c.type.packet event] else [] := by
  by_cases hut : u = t
  · simp [delivered, hut]
  · simp [delivered, hut]

theorem delivered_drain (c : Queue) (events : List Ev) (t : Tid) :
    delivered c (events.map fun e => (e, none)) t = [] := by
  simp [delivered]

variable {p : Pc}

theorem Pc.waits_of_sleeps (h : p.sleeps) : p.waits := by
  cases p <;> first | exact h.elim | trivial

theorem Pc.ne_timedOutEmpty (h : ¬ p.waits) : p ≠ .timedOutEmpty := by
  intro hp
  rw [hp] at h
  exact h trivial

theorem Pc.copying_of_waits (h : p.waits) : p.copying = [] := by
  cases p with
  | tryCopy => exact h.elim
  | _ => rfl

variable {t : Tid}

theorem takenBy_of_free {mutex : Option (Tid × Crit)} (h : ∀ k, mutex ≠ some (t, k)) : takenBy mutex t = [] := by
  unfold takenBy
  split
  · exact if_neg fun heq => h _ (by rw [heq])
  · rfl

structure Quiet (mutex : Option (Tid × Crit)) : Prop where
  appended : appended mutex = []
  taken : taken mutex = []
  takenBy : ∀ u, takenBy mutex u = []
  store : ∀ h u event, mutex ≠ some (h, .sendStore u event)

theorem Quiet.free : Quiet none := ⟨rfl, rfl, fun _ => rfl, nofun⟩

variable {c : Queue} {s : State}

theorem registers_of_quiet (h : Quiet s.mutex) (t : Tid) : registers c s t = s.data t := by
  unfold registers
  split
  next hm =>
    exact absurd hm (h.store _ _ _)
  · rfl

theorem pending_of_quiet (h : Quiet s.mutex) (t : Tid) : pending c s t =
      (if t ∈ s.handed then [s.data t] else []) ++ (s.pc t).copying.map c.type.packet := by
  rw [pending, registers_of_quiet h, h.takenBy, nil_append]

theorem Inv.crit_update (h : Inv c s) (hfree : ∀ k, s.mutex ≠ some (t, k)) (p : Pc) :
    ∀ u k, s.mutex = some (u, k) → CritOk k (update s.pc t p u) :=
  moved h.crit_ok hfree p

theorem copying_update {pc : Tid → Pc} (hold : (pc t).copying = [])
    (hnew : p.copying = []) (u : Tid) : (update pc t p u).copying = (pc u).copying := by
  rw [update_apply]
  split_ifs with hut
  · rw [hut, hold, hnew]
  · rfl

theorem Inv.outside (h : Inv c s) {p q : Pc}
    {g : Tid → CellError} (hfree : ∀ k, s.mutex ≠ some (t, k)) (hpc : s.pc t = q) (hold : ¬ q.waits)
    (hnew : ¬ p.waits) (hp : PcOk c p) (hcold : q.copying = []) (hcnew : p.copying = []) :
    Inv c { s with pc := update s.pc t p, gpr3 := g } := by
  subst hpc
  exact
  { h with
    waiters := h.waiters.congr
      (update_iff (fun hs => hold (waits_of_sleeps hs))
        (fun hs => hnew (waits_of_sleeps hs)))
      (update_iff hold hnew)
    pc_ok := forall_update h.pc_ok hp
    crit_ok := h.crit_update hfree p
    saw_empty := at_update h.saw_empty fun hp => absurd hp (ne_timedOutEmpty hnew)
    delivery := by
      intro u
      rw [h.delivery u]
      simp only [pending, registers, copying_update hcold hcnew] }

theorem Inv.setMutex (h : Inv c s) {mutex : Option (Tid × Crit)} (hold : Quiet s.mutex) (hnew : Quiet mutex)
    (hcrit : ∀ t k, mutex = some (t, k) → CritOk k (s.pc t)) : Inv c { s with mutex := mutex } :=
  { h with
    waiters := by
      have hw := h.waiters
      rw [hold.appended] at hw
      rw [hnew.appended]
      exact hw
    crit_ok := hcrit
    size := by
      have hsize := h.size
      rw [hold.taken] at hsize
      rw [hnew.taken]
      exact hsize
    delivery := by
      intro u
      rw [h.delivery u, pending_of_quiet hold, pending_of_quiet hnew] }

theorem Inv.lock (h : Inv c s) {k : Crit} (hm : s.mutex = none) (hk : CritOk k (s.pc t)) (hq : Quiet (some (t, k))) :
    Inv c { s with mutex := some (t, k) } :=
  h.setMutex (hm ▸ Quiet.free) hq (entered hk)

theorem Inv.unlock (h : Inv c s) (hq : Quiet s.mutex) : Inv c { s with mutex := none } :=
  h.setMutex hq Quiet.free fun _ _ hu => by cases hu

/-! ## The list of events -/

variable {event : Ev} {events : List Ev}

section Events

variable {c : Queue} {s : State} (h : Inv c s) (hq : Quiet s.mutex)
include h hq

theorem Inv.push (event : Ev) (hpq : s.pq = [] ∧ s.sq = []) (hlen : s.events.length < c.size) :
    Inv c { s with events := s.events ++ [event], sent := s.sent ++ [event] } :=
  { h with
    idle_events := fun _ => hpq
    size := by
      simp only [hq.taken, length_append, length_cons, length_nil]
      omega
    order := by
      simp only [h.order, append_assoc] }

theorem Inv.pop (hev : s.events = event :: events) (ht : ¬ (s.pc t).waits) (hcopy : (s.pc t).copying = []) :
    Inv c { s with events := events, left := s.left ++ [(event, some t)]
                   data := update s.data t (c.type.packet event)
                   received := update s.received t
                     (s.received t ++ [c.type.packet event]) } :=
  { h with
    idle_events := fun _ => h.idle_events (by rw [hev]; exact cons_ne_nil _ _)
    size := by
      have hsize := h.size
      rw [hev, length_cons] at hsize
      simp only
      omega
    order := by
      simp only [h.order, hev, map_append, map_cons, map_nil, append_assoc, cons_append, nil_append]
    delivery := by
      intro u
      have hnot := (h.waiters.not_mem ht).2
      rw [delivered_append, delivered_one, h.delivery u, pending_of_quiet hq, pending_of_quiet]
      swap
      · exact hq
      by_cases hut : t = u
      · subst hut
        simp only [if_neg hnot, hcopy, map_nil, append_nil, if_true, update_self]
      · simp only [if_neg hut, append_nil, update_of_ne (Ne.symm hut)] }

theorem Inv.drain : Inv c { s with events := [], left := s.left ++ s.events.map fun e => (e, none) } :=
  { h with
    idle_events := fun hne => absurd rfl hne
    size := by
      simp only [hq.taken, length_nil]
      omega
    order := by
      simp only [h.order, map_append, map_map, append_nil]
      congr 1
      exact (map_id _).symm
    delivery := by
      intro u
      rw [delivered_append, delivered_drain, append_nil, h.delivery u]
      rfl }

end Events

/-! ## The wait loop -/

variable {timed : Bool}

section Waiting

variable {c : Queue} {s : State} (h : Inv c s) {t : Tid}
include h

theorem Inv.free_of_waits (ht : (s.pc t).waits) (hlock : s.pc t ≠ .timedOutLock) (k : Crit) :
    s.mutex ≠ some (t, k) := by
  intro hm
  have hk := h.crit_ok t k hm
  cases k <;> simp only [CritOk] at hk
  case sendAwake => have ⟨event, hk⟩ := hk; rw [hk] at ht; exact ht
  case unqueue => exact hlock hk
  all_goals rw [hk] at ht; exact ht

theorem Inv.retWaiter {sched : Sched} (hrel : t ∈ s.handed) (hreg : registers c s t = s.data t)
    (ht : (s.pc t).waits) (hfree : ∀ k, s.mutex ≠ some (t, k))
    (hwait : Waiters (s.pq ++ s.sq) (s.handed.erase t) (appended s.mutex) sched
      (fun u => (update s.pc t .idle u).sleeps)
      (fun u => (update s.pc t .idle u).waits)) :
    Inv c ({ s with sched := sched, handed := s.handed.erase t }.retWith t [s.data t]) := by
  have hnd := (nodup_append.mp h.waiters.nodup).2.1
  have hcopy := copying_of_waits ht
  have htaken := takenBy_of_free hfree
  exact
  { h with
    waiters := hwait
    pc_ok := forall_update h.pc_ok trivial
    crit_ok := h.crit_update hfree .idle
    saw_empty := by
      intro u hu
      have hold := of_update (by simp) hu
      exact (mem_erase_of_ne hold.2).mpr (h.saw_empty u hold.1)
    delivery := by
      intro u
      show delivered c s.left u = update s.received t (s.received t ++ [s.data t]) u ++
        ((if u ∈ s.handed.erase t then [registers c s u] else []) ++
          (takenBy s.mutex u ++ (update s.pc t .idle u).copying).map c.type.packet)
      rw [h.delivery u, pending, copying_update hcopy (rfl)]
      by_cases hut : u = t
      · subst hut
        simp only [if_pos hrel, hcopy, htaken, hreg, hnd.mem_erase_iff, ne_eq, not_true_eq_false,
          false_and, if_false, update_self, map_nil, append_nil]
      · simp only [hnd.mem_erase_iff, hut, ne_eq, not_false_eq_true, true_and, update_of_ne hut] }

theorem inv_wake (hpc : s.pc t = .sleeping timed) (hsig : s.sched.signal t = true) :
    Inv c ({ s with sched := s.sched.resetSignal t
                    handed := s.handed.erase t }.retWith t [s.data t]) := by
  have hfree := h.free_of_waits (by rw [hpc]; trivial) (by rw [hpc]; simp)
  have hreg : registers c s t = s.data t := by
    unfold registers
    split
    next holder u event hm =>
      split
      · -- a thread whose registers are still to be stored was not woken
        rename_i hut
        have happ := (h.waiters.appended u (by rw [hm]; exact mem_singleton_self u)).2
        rw [hut, hsig] at happ
        cases happ
      · rfl
    · rfl
  refine h.retWaiter (h.waiters.signal t hsig).1 hreg (by rw [hpc]; trivial) hfree ?_
  exact h.waiters.wake hsig (update_iff_and id) (update_iff_and id)

theorem inv_leave (hm : s.mutex = none) (hrel : t ∈ s.handed) (ht : (s.pc t).waits) (hs : ¬ (s.pc t).sleeps) :
    Inv c ({ s with handed := s.handed.erase t }.retWith t [s.data t]) := by
  have hq := hm ▸ Quiet.free
  have hfree : ∀ k, s.mutex ≠ some (t, k) := free hm
  refine h.retWaiter hrel (registers_of_quiet hq t) ht hfree ?_
  have hw := h.waiters
  rw [hm] at hw ⊢
  exact (hw.leave hrel hs (update_iff_and id)).congr (update_iff hs id) fun u => Iff.rfl

theorem Inv.timedOut {sched : Sched} (hfree : ∀ k, s.mutex ≠ some (t, k))
    (ht : (s.pc t).waits) (hp : p.waits) (hok : PcOk c p)
    (hempty : p = .timedOutEmpty → t ∈ s.handed)
    (hwait : Waiters (s.pq ++ s.sq) s.handed (appended s.mutex) sched
      (fun u => (update s.pc t p u).sleeps) (fun u => (s.pc u).waits)) :
    Inv c ({ s with sched := sched }.goto t p) :=
  { h with
    waiters := hwait.congr (fun u => Iff.rfl) (update_congr (iff_of_true ht hp))
    pc_ok := forall_update h.pc_ok hok
    crit_ok := h.crit_update hfree p
    saw_empty := at_update h.saw_empty hempty
    delivery := by
      intro u
      show delivered c s.left u = s.received u ++ ((if u ∈ s.handed then [registers c s u] else []) ++
          (takenBy s.mutex u ++ (update s.pc t p u).copying).map c.type.packet)
      rw [h.delivery u, pending, copying_update (copying_of_waits ht) (copying_of_waits hp)] }

end Waiting

/-! ## Handing an event over -/

section Handover

variable {c : Queue} {s : State} (h : Inv c s) {t : Tid}
include h

variable {u : Tid}

theorem Inv.release {pq sq : List Tid}
    (hm : s.mutex = some (t, .send event)) (hperm : (s.pq ++ s.sq).Perm (u :: (pq ++ sq)))
    (hside : if c.type = .ppu then sq = [] else pq = []) :
    Inv c { s with pq := pq, sq := sq, handed := u :: s.handed, sent := s.sent ++ [event]
                   left := s.left ++ [(event, some u)], mutex := some (t, .sendStore u event) } := by
  have huq := hperm.mem_iff.mpr mem_cons_self
  have hur := fun hr => (nodup_append.mp h.waiters.nodup).2.2 u huq u hr rfl
  have huw := (h.waiters.mem_iff u).mp (mem_append_left _ huq)
  have hev : s.events = [] := by
    by_contra hne
    have hnil := h.idle_events hne
    rw [hnil.1, hnil.2] at huq
    cases huq
  have hcopy := copying_of_waits huw
  have hw := h.waiters
  have hpc := h.crit_ok t _ hm
  rw [hm] at hw
  exact
  { h with
    waiters := hw.release hperm
    side := hside
    crit_ok := entered hpc
    saw_empty := fun v hv => mem_cons_of_mem u (h.saw_empty v hv)
    idle_events := fun hne => absurd hev hne
    size := by
      simp only [hev, taken, length_nil]
      omega
    order := by
      simp only [h.order, hev, map_append, map_cons, map_nil, append_nil]
    delivery := by
      intro v
      have hold := h.delivery v
      rw [delivered_append, delivered_one, hold]
      simp only [pending, registers, takenBy, hm, nil_append, append_assoc]
      by_cases huv : u = v
      · subst huv
        simp only [if_neg hur, hcopy, mem_cons, true_or, if_true, map_nil, append_nil, nil_append]
      · simp only [mem_cons, Ne.symm huv, huv, if_false, false_or, append_nil] }

theorem inv_sendStore (hm : s.mutex = some (t, .sendStore u event)) : Inv c (runCrit c s t (.sendStore u event)) := by
  rw [runCrit]
  exact
  { h with
    waiters := by
      have hw := h.waiters
      rw [hm] at hw
      exact hw
    crit_ok := entered ⟨event, h.crit_ok t _ hm⟩
    size := by
      have hsize := h.size
      rw [hm] at hsize
      exact hsize
    delivery := by
      intro v
      rw [h.delivery v]
      simp only [pending, registers, takenBy, hm, update_apply, @eq_comm _ u v] }

theorem inv_sendAwake (hm : s.mutex = some (t, .sendAwake u)) : Inv c (runCrit c s t (.sendAwake u)) := by
  have ⟨event, hpc⟩ := h.crit_ok t _ hm
  have hawake : Inv c { s with sched := s.sched.awake u, mutex := none } :=
    { h with
      waiters := by
        have hw := h.waiters
        rw [hm] at hw
        exact hw.awakeAll
      crit_ok := Holder.left
      size := by
        have hsize := h.size
        rw [hm] at hsize
        exact hsize
      delivery := by
        intro v
        rw [h.delivery v]
        simp only [pending, registers, takenBy, hm] }
  exact hawake.outside nofun hpc id id trivial rfl rfl

theorem inv_send (hm : s.mutex = some (t, .send event)) : Inv c (runCrit c s t (.send event)) := by
  have hpc := h.crit_ok t _ hm
  have hq : Quiet s.mutex := by
    rw [hm]
    exact ⟨rfl, rfl, fun _ => rfl, nofun⟩
  have hside := h.side
  rw [runCrit]
  split
  next hnil =>
    split_ifs with hlen
    · exact ((h.push hq event hnil hlen).unlock hq).outside nofun hpc id id trivial rfl rfl
    · exact (h.unlock hq).outside nofun hpc id id trivial rfl rfl
  rename_i hnil
  split
  next hty =>
    rw [if_pos hty] at hside
    split
    next hnone =>
      exact absurd ⟨schedule_eq_none.mp hnone, hside⟩ hnil
    rename_i u pq hsome
    refine h.release hm ((schedule_perm hsome).append_right s.sq) ?_
    rw [if_pos hty]
    exact hside
  next hty =>
    rw [if_neg (by rw [hty]; simp)] at hside
    split
    next hnone =>
      exact absurd ⟨hside, schedule_eq_none.mp hnone⟩ hnil
    rename_i u sq hsome
    refine h.release hm ?_ ?_
    · rw [hside]
      exact schedule_perm hsome
    · rw [if_neg (by rw [hty]; simp)]
      exact hside

end Handover

/-! ## The receivers under the mutex -/

section Receive

variable {c : Queue} {s : State} (h : Inv c s) {t : Tid}
include h

theorem Inv.link {pq sq : List Tid} (hm : s.mutex = some (t, .recv timed))
    (hev : s.events = []) (hqueue : pq ++ sq = t :: (s.pq ++ s.sq))
    (hside : if c.type = .ppu then sq = [] else pq = []) :
    Inv c ({ s with pq := pq, sq := sq, sched := (s.sched.sleep t).enqueued t
                    mutex := none }.goto t (.sleeping timed)) := by
  have hpc := h.crit_ok t _ hm
  have hok := h.pc_ok t
  have hw := h.waiters
  rw [hpc] at hok
  rw [hm] at hw
  exact
  { h with
    waiters := by
      show Waiters (pq ++ sq) _ _ _ _ _
      rw [hqueue]
      exact hw.emplace (by rw [hpc]; exact id) (update_iff_or trivial)
        (update_iff_or trivial)
    side := hside
    pc_ok := forall_update h.pc_ok hok
    crit_ok := Holder.left
    saw_empty := at_update h.saw_empty nofun
    idle_events := fun hne => absurd hev hne
    size := by
      simp only [goto, hev, taken, length_nil]
      omega
    delivery := by
      intro v
      have hcopy : (update s.pc t (.sleeping timed) v).copying = (s.pc v).copying :=
        copying_update (by rw [hpc]; rfl) rfl v
      refine (h.delivery v).trans ?_
      simp only [goto, pending, registers, takenBy, hm, hcopy]
      rfl }

theorem inv_recv (hm : s.mutex = some (t, .recv timed)) : Inv c (runCrit c s t (.recv timed)) := by
  have hpc := h.crit_ok t _ hm
  have hq : Quiet s.mutex := by
    rw [hm]
    exact ⟨rfl, rfl, fun _ => rfl, nofun⟩
  have hside := h.side
  rw [runCrit]
  split
  next hev =>
    split
    next hty =>
      refine h.link hm hev rfl ?_
      rw [if_pos hty] at hside ⊢
      exact hside
    next hty =>
      have hne : c.type ≠ .ppu := by rw [hty]; simp
      rw [if_neg hne] at hside
      refine h.link hm hev (by rw [hside]; rfl) ?_
      rw [if_neg hne]
      exact hside
  next event events hev =>
    exact ((h.pop hq hev (by rw [hpc]; exact id) (by rw [hpc]; rfl)).unlock hq).outside
      nofun hpc id id trivial rfl rfl

theorem inv_spuTry (hm : s.mutex = some (t, .spuTry)) : Inv c (runCrit c s t .spuTry) := by
  have hpc := h.crit_ok t _ hm
  have hq : Quiet s.mutex := by
    rw [hm]
    exact ⟨rfl, rfl, fun _ => rfl, nofun⟩
  rw [runCrit]
  split
  · exact (h.unlock hq).outside nofun hpc id id trivial rfl rfl
  next event events hev =>
    exact ((h.pop hq hev (by rw [hpc]; exact id) (by rw [hpc]; rfl)).unlock hq).outside
      nofun hpc id id trivial rfl rfl

theorem inv_drain (hm : s.mutex = some (t, .drain)) : Inv c (runCrit c s t .drain) := by
  have hpc := h.crit_ok t _ hm
  have hq : Quiet s.mutex := by
    rw [hm]
    exact ⟨rfl, rfl, fun _ => rfl, nofun⟩
  exact ((h.drain hq).unlock hq).outside nofun hpc id id trivial rfl rfl

theorem inv_unqueue (hm : s.mutex = some (t, .unqueue)) : Inv c (runCrit c s t .unqueue) := by
  have hpc := h.crit_ok t _ hm
  have hq : Quiet s.mutex := by
    rw [hm]
    exact ⟨rfl, rfl, fun _ => rfl, nofun⟩
  have hwaits : (s.pc t).waits := by rw [hpc]; trivial
  have hsleeps : ¬ (s.pc t).sleeps := by rw [hpc]; exact id
  have hty : c.type = .ppu := by
    have hok := h.pc_ok t
    rwa [hpc] at hok
  have hsq : s.sq = [] := by
    have hside := h.side
    rwa [if_pos hty] at hside
  have hfree := h.unlock hq
  rw [runCrit]
  split
  · -- a sender has taken the thread out of the queue before it got the mutex
    rename_i hnone
    refine inv_leave hfree rfl ?_ hwaits hsleeps
    rcases h.waiters.queue_or_released hwaits with hin | hin
    · rw [hsq, append_nil] at hin
      exact absurd hin.1 (unqueue_eq_none.mp hnone)
    · exact hin.2
  rename_i pq hsome
  have hperm := (unqueue_perm hsome).append_right s.sq
  have hw := h.waiters
  rw [hm] at hw
  exact
  { hfree with
    waiters := (hw.cancel hperm hsleeps (update_iff_and id)).congr
      (update_iff hsleeps id) fun u => Iff.rfl
    side := by
      rw [if_pos hty]
      exact hsq
    pc_ok := forall_update h.pc_ok trivial
    crit_ok := Holder.left
    saw_empty := at_update h.saw_empty nofun
    idle_events := by
      intro hne
      have hnil := h.idle_events hne
      rw [hnil.1] at hsome
      cases hsome
    delivery := by
      intro v
      have hcopy : (update s.pc t .idle v).copying = (s.pc v).copying := copying_update (by rw [hpc]; rfl) rfl v
      refine (hfree.delivery v).trans ?_
      simp only [ret, pending, registers, takenBy, hcopy]
      rfl }

variable {size : Int}

theorem Inv.take {events rest : List Ev}
    (hm : s.mutex = some (t, .tryPop size events)) (hev : s.events = event :: rest) :
    Inv c { s with events := rest, left := s.left ++ [(event, some t)]
                   failed := s.failed || decide (127 ≤ events.length)
                   mutex := some (t, .tryPop size (events ++ [event])) } := by
  have hpc : s.pc t = .tryLock size := h.crit_ok t _ hm
  have hsize := h.size
  have hle := c.size_le
  simp only [hm, hev, taken, length_cons] at hsize
  have hw := h.waiters
  rw [hm] at hw
  exact
  { h with
    waiters := hw
    crit_ok := entered hpc
    idle_events := fun _ => h.idle_events (by rw [hev]; exact cons_ne_nil _ _)
    size := by
      simp only [taken, length_append, length_cons, length_nil]
      omega
    order := by
      simp only [h.order, hev, map_append, map_cons, map_nil, append_assoc, cons_append, nil_append]
    delivery := by
      intro v
      have hnot := (h.waiters.not_mem (by rw [hpc]; exact id)).2
      rw [delivered_append, delivered_one, h.delivery v]
      simp only [pending, registers, takenBy, hm]
      by_cases htv : t = v
      · subst htv
        simp only [if_neg hnot, if_true, hpc, copying, append_nil, nil_append,
          map_append, map_cons, map_nil, append_assoc]
      · simp only [if_neg htv, append_nil]
    failed := by
      -- the array is as long as the largest queue
      simp only [h.failed, Bool.false_or, decide_eq_false_iff_not]
      omega }

theorem Inv.tryDone (hm : s.mutex = some (t, .tryPop size events)) :
    Inv c ({ s with mutex := none }.goto t (.tryCopy events)) := by
  have hpc : s.pc t = .tryLock size := h.crit_ok t _ hm
  have hok := h.pc_ok t
  rw [hpc] at hok
  have hw := h.waiters
  rw [hm] at hw
  exact
  { h with
    waiters := hw.congr (update_iff (by rw [hpc]; exact id) id)
      (update_iff (by rw [hpc]; exact id) id)
    pc_ok := forall_update h.pc_ok hok
    crit_ok := Holder.left
    saw_empty := at_update h.saw_empty nofun
    size := by
      have hsize := h.size
      simp only [goto, taken, length_nil]
      omega
    delivery := by
      intro v
      refine (h.delivery v).trans ?_
      simp only [goto, pending, registers, takenBy, hm, update_apply]
      by_cases htv : t = v
      · subst htv
        simp only [if_true, hpc, copying, append_nil, nil_append]
        rfl
      · simp only [if_neg htv, if_neg (Ne.symm htv), nil_append]
        rfl }

theorem inv_tryPop (hm : s.mutex = some (t, .tryPop size events)) : Inv c (runCrit c s t (.tryPop size events)) := by
  rw [runCrit]
  split
  · exact h.tryDone hm
  rename_i event rest hev
  split
  · exact h.take hm hev
  · exact h.tryDone hm

theorem inv_tryCopy (hpc : s.pc t = .tryCopy events) : Inv c (s.retWith t (events.map .regs)) := by
  have hfree := outside h.crit_ok hpc fun k hk => by cases k <;> simp [CritOk] at hk
  have hty : c.type = .ppu := by
    have hok := h.pc_ok t
    rwa [hpc] at hok
  exact
  { h with
    waiters := h.waiters.congr (update_iff (by rw [hpc]; exact id) id)
      (update_iff (by rw [hpc]; exact id) id)
    pc_ok := forall_update h.pc_ok trivial
    crit_ok := h.crit_update hfree .idle
    saw_empty := at_update h.saw_empty nofun
    delivery := by
      intro v
      have hnot := (h.waiters.not_mem (by rw [hpc]; exact id)).2
      show delivered c s.left v = update s.received t (s.received t ++ events.map .regs) v
        ++ ((if v ∈ s.handed then [registers c s v] else []) ++
          (takenBy s.mutex v ++ (update s.pc t .idle v).copying).map c.type.packet)
      rw [h.delivery v, pending]
      by_cases htv : v = t
      · have htaken := takenBy_of_free hfree
        have hpacket : c.type.packet = Packet.regs := by
          rw [hty]
          rfl
        subst htv
        simp only [if_neg hnot, hpc, htaken, hpacket, update_self, copying, nil_append, append_nil, map_nil]
      · simp only [update_of_ne htv] }

end Receive

/-! ## Every step -/

theorem inv_runCrit (h : Inv c s) {k : Crit} (hm : s.mutex = some (t, k)) : Inv c (runCrit c s t k) := by
  cases k with
  | send => exact inv_send h hm
  | sendStore => exact inv_sendStore h hm
  | sendAwake => exact inv_sendAwake h hm
  | recv => exact inv_recv h hm
  | unqueue => exact inv_unqueue h hm
  | tryPop => exact inv_tryPop h hm
  | spuTry => exact inv_spuTry h hm
  | drain => exact inv_drain h hm

variable {s s' : State}

theorem inv_runFree (h : Inv c s) (hfree : ∀ k, s.mutex ≠ some (t, k)) (hrun : runFree s t = some s') : Inv c s' := by
  have hok := h.pc_ok t
  unfold runFree at hrun
  cases hpc : s.pc t with simp only [hpc] at hrun hok
  | idle => cases hrun
  | sendLock event | recvLock timed | timedOutLock | spuTryLock | drainLock =>
    split at hrun <;> cases hrun
    rename_i hm
    exact h.lock hm hpc ⟨rfl, rfl, fun _ => rfl, nofun⟩
  | tryLock =>
    split at hrun <;> cases hrun
    rename_i hm
    exact h.lock hm hpc ⟨rfl, rfl, fun _ => ite_self _, nofun⟩
  | sleeping =>
    split at hrun <;> cases hrun
    rename_i hsig
    exact inv_wake h hpc hsig
  | timedOut =>
    cases hrun
    have hwaits : (s.pc t).waits := by rw [hpc]; trivial
    refine h.timedOut hfree hwaits ?_ ?_ ?_ ?_
    · split <;> trivial
    · split <;> exact hok
    · intro hempty
      split at hempty
      next hpq =>
        -- the queue is empty, so a sender has taken this thread out of it
        have hside := h.side
        rw [if_pos (show c.type = .ppu from hok)] at hside
        rcases h.waiters.queue_or_released hwaits with hin | hin
        · rw [hpq, hside] at hin
          cases hin.1
        · exact hin.2
      · cases hempty
    · refine h.waiters.congr (update_iff (by rw [hpc]; exact id) ?_)
        fun u => Iff.rfl
      split <;> exact id
  | timedOutEmpty =>
    split at hrun <;> cases hrun
    rename_i hm
    exact inv_leave h hm (h.saw_empty t hpc) (by rw [hpc]; trivial) (by rw [hpc]; exact id)
  | tryCopy =>
    cases hrun
    exact inv_tryCopy h hpc

theorem inv_timeout (h : Inv c s) (hpc : s.pc t = .sleeping true) :
    Inv c ({ s with sched := s.sched.checkState t }.goto t .timedOut) := by
  have hok := h.pc_ok t
  rw [hpc] at hok
  refine h.timedOut (h.free_of_waits (by rw [hpc]; trivial) (by rw [hpc]; simp))
    (by rw [hpc]; trivial) trivial (hok rfl) nofun ?_
  exact h.waiters.timeout (update_iff_and id)

theorem inv_step {e : Event} (h : Inv c s) (hstep : step c s e = some s') : Inv c s' := by
  have hidle : ∀ t p, s.pc t = .idle → ¬ p.waits → PcOk c p → p.copying = [] → ∀ g,
      Inv c { s with pc := update s.pc t p, gpr3 := g } := by
    intro t p hpc hp hok hcopy g
    refine h.outside (outside h.crit_ok hpc fun k hk => ?_) hpc id hp hok rfl hcopy
    cases k <;> simp [CritOk] at hk
  cases e with simp only [step] at hstep
  | send t event =>
    split at hstep <;> cases hstep
    rename_i hpc
    exact hidle t (.sendLock event) hpc id trivial rfl _
  | drain t =>
    split at hstep <;> cases hstep
    rename_i hpc
    exact hidle t .drainLock hpc id trivial rfl _
  | receive t timed =>
    split at hstep <;> cases hstep
    rename_i hpc
    split_ifs with hty
    · exact hidle t (.recvLock timed) hpc id (fun _ => hty) rfl _
    · exact hidle t .idle hpc id trivial rfl _
  | tryreceive t size =>
    split at hstep <;> cases hstep
    rename_i hpc
    split_ifs with hty
    · exact hidle t (.tryLock size.toInt) hpc id hty rfl _
    · exact hidle t .idle hpc id trivial rfl _
  | spuReceive t =>
    split at hstep <;> cases hstep
    rename_i hpc
    exact hidle t (.recvLock false) hpc.1 id nofun rfl _
  | spuTryreceive t =>
    split at hstep <;> cases hstep
    rename_i hpc
    exact hidle t .spuTryLock hpc.1 id trivial rfl _
  | timeout =>
    split at hstep <;> cases hstep
    rename_i hpc
    exact inv_timeout h hpc
  | run =>
    split at hstep
    next holder crit hm =>
      split at hstep
      next hht =>
        subst hht
        cases hstep
        exact inv_runCrit h hm
      next hne =>
        exact inv_runFree h (other hm hne) hstep
    next hm =>
      exact inv_runFree h (free hm) hstep

theorem inv_initial (h : Initial s) : Inv c s := by
  have ⟨hevents, hpq, hsq, hmutex, hasleep, hsignal, hpc, hfailed, hsent, hleft, hreceived, hhanded⟩ := h
  refine ⟨?_, ?_, fun t => ?_, fun t k ht => ?_, fun t ht => ?_, fun hne => ⟨hpq, hsq⟩, ?_, ?_, fun t => ?_, hfailed⟩
  · rw [hpq, hsq, hhanded, hmutex]
    exact .none_waits hasleep hsignal (fun t => by simp [hpc, sleeps]) fun t => by simp [hpc, waits]
  · split
    · exact hsq
    · exact hpq
  · rw [hpc]; trivial
  · rw [hmutex] at ht; cases ht
  · rw [hpc] at ht; cases ht
  · simp [hevents, hmutex, taken]
  · simp [hsent, hleft, hevents]
  · simp [delivered, pending, takenBy, hleft, hreceived, hhanded, hmutex, hpc, copying]

theorem inv_reachable (h : (system c).Reachable s) : Inv c s := h.invariant (fun _ => inv_initial) fun _ _ _ => inv_step

end Armsx3.Lv2.EventQueue
