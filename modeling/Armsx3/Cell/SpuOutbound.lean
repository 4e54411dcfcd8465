import Armsx3.Cell.SpuChannel

/-!
# SpuOutbound — the outbound mailbox of an SPU

`spu_channel::push_wait` of the SPU against `spu_channel::pop` of other threads; each `fetch_op` is one step.
-/

namespace Armsx3.Cell

open List Transition

structure Outbound where
  data : ChannelData := {}
  jostlingValue : BitVec 32 := 0
  /-- The SPU is in the loop of `push_wait` with this value. -/
  waiting : Option (BitVec 32) := none
  /-- What the pops that found a value have taken. -/
  taken : List (BitVec 32) := []
  /-- The values whose `push_wait` returned true. -/
  pushed : List (BitVec 32) := []

inductive OutboundEvent
  | push (value : BitVec 32)
  | wait (stopped : Bool)
  | pop
deriving DecidableEq

namespace Outbound

def push (s : Outbound) (value : BitVec 32) : Outbound :=
  if s.data.count then
    { s with jostlingValue := value, data := { s.data with occupy := true, wait := true }, waiting := some value }
  else { s with data := { count := true, value }, pushed := s.pushed ++ [value] }

def wait (s : Outbound) (value : BitVec 32) (stopped : Bool) : Outbound :=
  if !s.data.wait then { s with waiting := none, pushed := s.pushed ++ [value] }
  -- `data.bit_test_reset(off_wait)` leaves `bit_occupy` as it is
  else if stopped then { s with data := { s.data with wait := false }, waiting := none }
  else s

def pop (s : Outbound) : Outbound :=
  { s with
    data := if s.data.count && s.data.occupy then { count := true, value := s.jostlingValue } else { value := s.data.value }
    taken := s.taken ++ s.data.content.toList }

def step (s : Outbound) : OutboundEvent → Option Outbound
  | .push value => if s.waiting = none then some (s.push value) else none
  | .wait stopped => s.waiting.map fun value => s.wait value stopped
  | .pop => some s.pop

/-- The value of a push that a pop has promoted and that has not returned. -/
def owed (s : Outbound) : List (BitVec 32) := if s.data.wait then [] else s.waiting.toList

/-- What was taken and is in the word are the values of the pushes that returned true or are about to. -/
def Safe (s : Outbound) : Prop := s.taken ++ s.data.content.toList = s.pushed ++ s.owed

instance decidableSafe (s : Outbound) : Decidable s.Safe := inferInstanceAs (Decidable (_ = _))

/-- A pop promotes a value only while its push waits. -/
def PromotesWaiting (s : Outbound) (e : OutboundEvent) : Prop := e = .pop → s.data.occupy = true → s.waiting ≠ none

instance decidablePromotesWaiting (s : Outbound) (e : OutboundEvent) : Decidable (PromotesWaiting s e) :=
  inferInstanceAs (Decidable (_ → _ → _))

structure Inv (s : Outbound) : Prop where
  occupied : s.data.occupy = true → s.data.count = true
  idle : s.waiting = none → s.data.wait = false
  parked : ∀ v, s.waiting = some v → s.data.wait = s.data.occupy ∧ (s.data.occupy = true → s.jostlingValue = v)
  safe : s.Safe

variable {s s' : Outbound} (h : Inv s)
include h

theorem Inv.push (hnone : s.waiting = none) (value : BitVec 32) : Inv (s.push value) := by
  have hsafe := h.safe
  unfold Safe owed at hsafe
  simp only [h.idle hnone, hnone] at hsafe
  unfold Outbound.push
  split
  next hc =>
    refine ⟨fun _ => hc, nofun, fun v hv => ⟨rfl, fun _ => Option.some.inj hv⟩, ?_⟩
    simpa [Safe, owed, ChannelData.content] using hsafe
  next hc =>
    refine ⟨nofun, fun _ => rfl, fun v hv => absurd (hnone.symm.trans hv) nofun, ?_⟩
    simpa [Safe, owed, hnone, hc, ChannelData.content] using hsafe

theorem Inv.wait {value : BitVec 32} (hw : s.waiting = some value) (stopped : Bool) : Inv (s.wait value stopped) := by
  have hsafe := h.safe
  unfold Safe owed at hsafe
  unfold Outbound.wait
  split_ifs with hclear
  · have hclear : s.data.wait = false := by simpa using hclear
    exact ⟨h.occupied, fun _ => hclear, nofun, by simpa [Safe, owed, hw, hclear] using hsafe⟩
  · have hset : s.data.wait = true := by simpa using hclear
    exact ⟨h.occupied, fun _ => rfl, nofun, by simpa [Safe, owed, hset, ChannelData.content] using hsafe⟩
  · exact h

theorem Inv.pop (hC : s.data.occupy = true → s.waiting ≠ none) : Inv s.pop := by
  have hsafe := h.safe
  unfold Safe owed at hsafe
  unfold Outbound.pop
  cases hocc : s.data.occupy with
  | true =>
    -- the value goes from the waiting push into the word, and the push will return true
    obtain ⟨v, hv⟩ := Option.ne_none_iff_exists'.mp (hC hocc)
    have ⟨hwait, hj⟩ := h.parked v hv
    have hold : s.taken ++ [s.data.value] = s.pushed := by
      simpa [hwait, hocc, h.occupied hocc, ChannelData.content] using hsafe
    rw [h.occupied hocc]
    refine ⟨nofun, fun _ => rfl, fun _ _ => ⟨rfl, nofun⟩, ?_⟩
    simp [Safe, owed, hv, hj hocc, h.occupied hocc, ChannelData.content, ← hold]
  | false =>
    have hwait : s.data.wait = false := by
      cases hw : s.waiting with
      | none => exact h.idle hw
      | some v => exact (h.parked v hw).1.trans hocc
    rw [Bool.and_false]
    refine ⟨nofun, fun _ => rfl, fun _ _ => ⟨rfl, nofun⟩, ?_⟩
    simpa [Safe, owed, hwait, ChannelData.content] using hsafe

theorem inv_step {e : OutboundEvent} (hC : PromotesWaiting s e) (hs : s.step e = some s') : Inv s' := by
  cases e with
  | push value =>
    obtain ⟨hnone, rfl⟩ := Option.ite_some_none_eq_some.mp hs
    exact h.push hnone value
  | wait stopped =>
    obtain ⟨value, hw, rfl⟩ := Option.map_eq_some_iff.mp hs
    exact h.wait hw stopped
  | pop =>
    obtain rfl := Option.some.inj hs
    exact h.pop (hC rfl)

end Outbound

end Armsx3.Cell
