import Mathlib

/-!
# Sync — wait queues and sleeping threads of the LV2 kernel objects

What every LV2 synchronization object rests on: thread ids, the intrusive list of waiters, and what `lv2_obj::sleep`
and `lv2_obj::awake` do to a thread.  A wait queue is the list of its nodes, so the thread that came last is the first
element.  Stopping the emulator (`cpu_flag::again`, `is_stopped`) is left out.
-/

namespace Armsx3.Lv2

open Function List Option

/-- The id of a PPU thread.  Ids start at `ppu_thread::id_base = 0x01000000`, so no id is the free
owner word `0`, and `id << 1` does not leave 32 bits. -/
structure Tid where
  id : Nat
  pos : 0 < id
  lt : id < 2 ^ 31
  deriving DecidableEq

theorem Tid.ext_id {t u : Tid} (h : t.id = u.id) : t = u := by
  cases t; cases u; simp only at h; subst h; rfl

theorem Tid.length_lt {ts : List Tid} (h : ts.Nodup) : ts.length < 2 ^ 31 := by
  have hinj : Function.Injective Tid.id := fun t u => Tid.ext_id
  have hsub : (ts.map Tid.id).toFinset ⊆ (Finset.range (2 ^ 31)).erase 0 := by
    intro n hn
    have ⟨t, _, ht⟩ := mem_map.mp (mem_toFinset.mp hn)
    rw [Finset.mem_erase, Finset.mem_range, ← ht]
    exact ⟨Nat.ne_of_gt t.pos, t.lt⟩
  have hcard := Finset.card_le_card hsub
  rw [toFinset_card_of_nodup (h.map hinj), length_map,
    Finset.card_erase_of_mem (Finset.mem_range.mpr (by decide)), Finset.card_range] at hcard
  omega

inductive Protocol
  | fifo | priority | priorityInherit | retry
  deriving DecidableEq

inductive CellError
  | ok | ebusy | etimedout | einval | eperm | esrch | edeadlk | ekresource | ecanceled
  deriving DecidableEq

/-- `ppu_thread::prio`: a smaller `prio` runs first, and of two equal ones the smaller `order`. -/
structure Prio where
  prio : Int
  order : Int
  deriving DecidableEq

def Prio.before (a b : Prio) : Bool :=
  decide (a.prio < b.prio) || (a.prio == b.prio && decide (a.order < b.order))

/-! ## The list of waiters -/

section Queue

variable {α : Type*} [DecidableEq α]

/-- `lv2_obj::unqueue`: unlink the object; `none` is the null result for one that is not linked. -/
def unqueue (first : List α) (object : α) : Option (List α) :=
  if object ∈ first then some (first.erase object) else none

/-- The walk of `schedule` along the list when the protocol is not FIFO. -/
def scheduleScan (prio : α → Prio) (found : α) : List α → α
  | [] => found
  | next :: rest =>
    scheduleScan prio (if (prio next).before (prio found) then next else found) rest

def schedule (protocol : Protocol) (prio : α → Prio) : List α → Option (α × List α)
  | [] => none
  | first :: rest =>
    if protocol = .fifo then
      -- the walk ends on the node without a successor, the first one that was linked
      some ((first :: rest).getLast (cons_ne_nil _ _), (first :: rest).dropLast)
    else
      let found := scheduleScan prio first rest
      some (found, (first :: rest).erase found)

omit [DecidableEq α] in
theorem scheduleScan_mem (prio : α → Prio) (found : α) (rest : List α) :
    scheduleScan prio found rest ∈ found :: rest := by
  induction rest generalizing found with
  | nil => exact mem_cons_self
  | cons next rest ih =>
    have h := ih (if (prio next).before (prio found) then next else found)
    rw [scheduleScan]
    split_ifs at h with hb
    · rw [if_pos hb]
      exact mem_cons_of_mem _ h
    rw [if_neg hb]
    rcases mem_cons.mp h with h | h
    · rw [h]; exact mem_cons_self
    · exact mem_cons_of_mem _ (mem_cons_of_mem _ h)

variable {q r : List α} {x : α}

theorem schedule_perm {protocol : Protocol} {prio : α → Prio}
    (h : schedule protocol prio q = some (x, r)) : q.Perm (x :: r) := by
  cases q with
  | nil => cases h
  | cons first rest =>
    rw [schedule] at h
    split at h
    · simp only [some.injEq, Prod.mk.injEq] at h
      have ⟨hx, hr⟩ := h
      have hsplit := dropLast_append_getLast (cons_ne_nil first rest)
      rw [hx, hr] at hsplit
      rw [← hsplit]
      exact perm_append_singleton x r
    · simp only [some.injEq, Prod.mk.injEq] at h
      rw [← h.1, ← h.2]
      exact perm_cons_erase (scheduleScan_mem prio first rest)

theorem schedule_eq_none {protocol : Protocol} {prio : α → Prio} {q : List α} :
    schedule protocol prio q = none ↔ q = [] := by
  cases q with
  | nil => exact ⟨fun _ => rfl, fun _ => rfl⟩
  | cons =>
    rw [schedule]
    split <;> simp only [reduceCtorEq]

theorem unqueue_eq_some : unqueue q x = some r ↔ x ∈ q ∧ r = q.erase x := by
  rw [unqueue]
  split_ifs with hx
  · simp only [hx, true_and, some.injEq]
    exact eq_comm
  · simp only [hx, false_and]

theorem unqueue_perm (h : unqueue q x = some r) : q.Perm (x :: r) := by
  have ⟨hx, hr⟩ := unqueue_eq_some.mp h
  rw [hr]
  exact perm_cons_erase hx

theorem unqueue_eq_none {q : List α} : unqueue q x = none ↔ x ∉ q := by
  rw [unqueue]
  split_ifs with hx
  · simp only [hx, not_true_eq_false]
  · simp only [hx, not_false_eq_true]

end Queue

/-! ## Sleeping and waking -/

/-- The thread flags the wait loops read.  `asleep` is true of a thread out of the running queue, `order` and `tag` are
`ppu_thread::prio.order` and `g_priority_order_tag`.  `cancelSleep` is 1 in a thread that is about to sleep, and
becomes 2 when it is woken before. -/
structure Sched where
  asleep : Tid → Bool
  signal : Tid → Bool
  prio : Tid → Prio
  tag : Int
  cancelSleep : Tid → Nat

namespace Sched

def running : Sched := ⟨fun _ => false, fun _ => false, fun _ => ⟨0, 0⟩, 0, fun _ => 0⟩

def sleep (s : Sched) (t : Tid) : Sched :=
  { s with asleep := update s.asleep t true
           cancelSleep := update s.cancelSleep t 0 }

/-- `lv2_obj::awake`: a thread that still is in the running queue is left alone, but for the sleep it
has announced. -/
def awake (s : Sched) (t : Tid) : Sched :=
  if s.asleep t then
    { s with asleep := update s.asleep t false, signal := update s.signal t true }
  else if s.cancelSleep t = 1 then { s with cancelSleep := update s.cancelSleep t 2 }
  else s

def awakeAll (s : Sched) (ts : List Tid) : Sched := ts.foldl awake s

/-- `cpu_thread::check_state` on the way out of a timeout: the thread puts itself back into the
running queue and the signal that brings is consumed there. -/
def checkState (s : Sched) (t : Tid) : Sched :=
  { s with asleep := update s.asleep t false, signal := update s.signal t false }

def resetSignal (s : Sched) (t : Tid) : Sched :=
  { s with signal := update s.signal t false }

def enqueued (s : Sched) (t : Tid) : Sched :=
  { s with prio := update s.prio t ⟨(s.prio t).prio, s.tag + 1⟩, tag := s.tag + 1 }

theorem awakeAll_cons (s : Sched) (t : Tid) (ts : List Tid) : s.awakeAll (t :: ts) = (s.awake t).awakeAll ts := rfl

theorem awake_running {s : Sched} {t : Tid} (h : ¬ s.asleep t = true) :
    (s.awake t).asleep = s.asleep ∧ (s.awake t).signal = s.signal := by
  unfold awake
  rw [if_neg h]
  split <;> exact ⟨rfl, rfl⟩

theorem awake_asleep (s : Sched) (t u : Tid) : (s.awake t).asleep u = true ↔ s.asleep u = true ∧ u ≠ t := by
  by_cases h : s.asleep t = true
  · unfold awake
    rw [if_pos h]
    by_cases hu : u = t
    · simp [hu]
    · simp only [update_of_ne hu, hu, ne_eq, not_false_eq_true, and_true]
  · rw [(awake_running h).1]
    constructor
    · intro hu
      exact ⟨hu, fun hut => h (hut ▸ hu)⟩
    · exact fun hu => hu.1

theorem awake_signal (s : Sched) (t u : Tid) :
    (s.awake t).signal u = true ↔ s.signal u = true ∨ (s.asleep u = true ∧ u = t) := by
  by_cases h : s.asleep t = true
  · unfold awake
    rw [if_pos h]
    by_cases hu : u = t
    · simp [hu, h]
    · simp only [update_of_ne hu, hu, and_false, or_false]
  · rw [(awake_running h).2]
    constructor
    · exact Or.inl
    · rintro (hu | ⟨ha, hut⟩)
      · exact hu
      · exact absurd (hut ▸ ha) h

theorem awakeAll_asleep (s : Sched) (ts : List Tid) (u : Tid) :
    (s.awakeAll ts).asleep u = true ↔ s.asleep u = true ∧ u ∉ ts := by
  induction ts generalizing s with
  | nil => simp only [awakeAll, foldl_nil, not_mem_nil, not_false_eq_true, and_true]
  | cons t ts ih =>
    rw [awakeAll_cons, ih, awake_asleep, mem_cons]
    tauto

theorem awakeAll_signal (s : Sched) (ts : List Tid) (u : Tid) :
    (s.awakeAll ts).signal u = true ↔ s.signal u = true ∨ (s.asleep u = true ∧ u ∈ ts) := by
  induction ts generalizing s with
  | nil => simp only [awakeAll, foldl_nil, not_mem_nil, and_false, or_false]
  | cons t ts ih =>
    rw [awakeAll_cons, ih, awake_signal, awake_asleep, mem_cons]
    tauto

end Sched

end Armsx3.Lv2
