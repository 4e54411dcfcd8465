import Armsx3.Library.Holder
import Armsx3.Lv2.Sync

/-!
# Sleeper — the flags of one thread

A thread sleeps only at the points of its code where it waits, and it is signalled, or its announced
sleep cancelled, only after it was released.
-/

namespace Armsx3.Lv2

structure Flags where
  signal : Bool
  asleep : Bool
  cancelSleep : Nat

def Flags.rest : Flags := ⟨false, false, 0⟩

def Flags.awake (x : Flags) : Flags :=
  if x.asleep then ⟨true, false, x.cancelSleep⟩
  else if x.cancelSleep = 1 then ⟨x.signal, false, 2⟩
  else x

def Sched.flags (s : Sched) (t : Tid) : Flags := ⟨s.signal t, s.asleep t, s.cancelSleep t⟩

theorem Sched.flags_awake_self (s : Sched) (t : Tid) : (s.awake t).flags t = (s.flags t).awake := by
  unfold Sched.flags Sched.awake Flags.awake
  by_cases ha : s.asleep t = true
  · simp only [if_pos ha, Function.update_self]
  simp only [if_neg ha]
  split
  · simp only [Function.update_self, Bool.not_eq_true _ ▸ ha]
  · rfl

theorem Sched.flags_awake_of_ne (s : Sched) {t u : Tid} (h : u ≠ t) : (s.awake t).flags u = s.flags u := by
  unfold Sched.flags Sched.awake
  split
  · simp only [Function.update_of_ne h]
  · split
    · simp only [Function.update_of_ne h]
    · rfl

/-- `sleeps` is at a test of `cpu_flag::signal`, `announces` between the announcement of a sleep and
the sleep, `released` after another thread has taken this one out of its queue. -/
structure FlagsOk (x : Flags) (sleeps announces released : Prop) : Prop where
  signal : x.signal = true → released ∧ sleeps ∧ x.asleep = false
  asleep : x.asleep = true → sleeps
  announces : x.cancelSleep ≠ 0 → announces
  cancelled : x.cancelSleep = 2 → released

namespace FlagsOk

variable {x : Flags} {sleeps announces released released' : Prop}

theorem rest : FlagsOk .rest sleeps announces released where
  signal := fun h => by cases h
  asleep := fun h => by cases h
  announces := fun h => absurd rfl h
  cancelled := fun h => by cases h

theorem announced (ha : announces) : FlagsOk ⟨false, false, 1⟩ sleeps announces released where
  signal := fun h => by cases h
  asleep := fun h => by cases h
  announces := fun _ => ha
  cancelled := fun h => by cases h

theorem asleepOnly (hs : sleeps) : FlagsOk ⟨false, true, 0⟩ sleeps announces released where
  signal := fun h => by cases h
  asleep := fun _ => hs
  announces := fun h => absurd rfl h
  cancelled := fun h => by cases h

variable (h : FlagsOk x sleeps announces released)
include h

theorem release (hr : released → released') : FlagsOk x sleeps announces released' where
  signal := fun hs => have ⟨h1, h2⟩ := h.signal hs; ⟨hr h1, h2⟩
  __ := h
  cancelled := fun hc => hr (h.cancelled hc)

theorem quiet (hs : ¬ sleeps) : x.signal = false ∧ x.asleep = false := by
  apply And.intro
  · by_contra hsig
    exact hs (h.signal (by simpa using hsig)).2.1
  · by_contra hasl
    exact hs (h.asleep (by simpa using hasl))

theorem cancelSleep_eq_zero (ha : ¬ announces) : x.cancelSleep = 0 := by
  by_contra hc
  exact ha (h.announces hc)

theorem eq_rest (hs : ¬ sleeps) (ha : ¬ announces) : x = .rest := by
  have hq := h.quiet hs
  have hc := h.cancelSleep_eq_zero ha
  cases x
  simp only at hq hc
  rw [hq.1, hq.2, hc]
  rfl

theorem awake (hr : released) : FlagsOk x.awake sleeps announces released := by
  unfold Flags.awake
  split
  next ha =>
    exact ⟨fun _ => ⟨hr, h.asleep ha, rfl⟩, fun hf => absurd hf Bool.false_ne_true, h.announces, fun _ => hr⟩
  split
  · have hann := h.announces (by omega)
    exact ⟨fun hs => ⟨hr, (h.signal hs).2.1, rfl⟩, fun hf => absurd hf Bool.false_ne_true, fun _ => hann, fun _ => hr⟩
  · exact h

end FlagsOk

end Armsx3.Lv2
