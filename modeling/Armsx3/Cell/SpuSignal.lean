import Armsx3.Cell.SpuChannel

/-!
# SpuSignal — the event of a signal notification register

The field `old_count` of the result of `spu_channel::push` is the negation of the old count, so the event is raised for
the writes that find the register full.
-/

namespace Armsx3.Cell

open Function List Channel Transition

/-- `spu_channel_op_state`. -/
structure OpState where
  oldCount : Nat
  count : Nat
  notify : Bool
  opDone : Bool

/-- The result of a `push` that read `old`, the same in both of its branches. -/
def ChannelData.opState (old : ChannelData) : OpState := ⟨(!old.count).toNat, 1, old.wait, true⟩

def snrEventBit (number : BitVec 32) : BitVec 32 := 0x200 >>> (number &&& 1).toNat

/-- What `push_snr` gives to `set_events`. -/
def snrRaised (number : BitVec 32) (pushState : OpState) : BitVec 32 :=
  if pushState.oldCount < pushState.count then snrEventBit number else 0

structure SnrCall where
  /-- The write made the count go from 0 to 1, or the value went to an SPU that waited on the empty register. -/
  rises : Bool := false
  raised : BitVec 32 := 0
deriving DecidableEq

/-- The event is raised exactly by the writes that make the count go from 0 to 1. -/
def SnrCall.Right (number : BitVec 32) (c : SnrCall) : Prop := c.raised = if c.rises then snrEventBit number else 0

instance SnrCall.decidableRight (number : BitVec 32) (c : SnrCall) : Decidable (c.Right number) :=
  inferInstanceAs (Decidable (_ = _))

/-- A register under calls of `push_snr` and of `pop_wait`. -/
structure Snr (n : Nat) where
  channel : Channel n := {}
  /-- The outcome of the call that a thread is in, by the word that it read last. -/
  pending : Fin n → SnrCall := fun _ => {}
  /-- The calls that have returned. -/
  calls : List SnrCall := []

namespace Snr

variable {n : Nat}

def look (number : BitVec 32) (s : Channel n) (p : Fin n) (c : SnrCall) : SnrCall :=
  match s.threads p with
  | .op _ _ _ => ⟨!s.data.count, snrRaised number s.data.opState⟩
  | .jostle _ _ _ _ => { c with rises := true }
  | _ => c

def push (number : BitVec 32) (s : Snr n) (p : Fin n) : Option (Snr n) :=
  (s.channel.pushStep p).map fun channel =>
    let c := look number s.channel p (s.pending p)
    { channel
      pending := update s.pending p c
      -- a call that leaves `push` while it clears the waiting bit has failed an `ensure` and does not return
      calls := if channel.threads p = .out ∧ (s.channel.threads p).clearing = false then s.calls ++ [c] else s.calls }

def step (number : BitVec 32) (s : Snr n) : ChannelEvent n → Option (Snr n)
  | .push p => s.push number p
  | e => (s.channel.step e).map fun channel => { s with channel }

end Snr

def snrSystem (n : Nat) (number : BitVec 32) : System (Snr n) (ChannelEvent n) where
  init s := s = {}
  step := Snr.step number

/-- An occupied word has no value. -/
def ChannelData.Vacant (d : ChannelData) : Prop := d.occupy = true → d.count = false

def SnrCall.Inverted (number : BitVec 32) (c : SnrCall) : Prop := c.raised = if c.rises then 0 else snrEventBit number

def PushAt.Looked (number : BitVec 32) (c : SnrCall) : PushAt → Prop
  | .jostle _ _ _ _ => c.raised = 0
  | .clear _ | .notify => c.Inverted number
  | .out | .op _ _ _ => True

structure SnrInv {n : Nat} (number : BitVec 32) (s : Snr n) : Prop where
  vacant : s.channel.data.Vacant
  looked : ∀ p, (s.channel.threads p).Looked number (s.pending p)
  inverted : ∀ c ∈ s.calls, c.Inverted number

section

variable {n : Nat} {number : BitVec 32} {s s' : Channel n}

theorem inverted_opState (number : BitVec 32) (d : ChannelData) :
    (SnrCall.mk (!d.count) (snrRaised number d.opState)).Inverted number := by
  cases hcount : d.count <;> simp [SnrCall.Inverted, snrRaised, ChannelData.opState, hcount]

theorem looked_pushStep {p : Fin n} {c : SnrCall} (hs : s.pushStep p = some s') (hv : s.data.Vacant)
    (h : (s.threads p).Looked number c) :
    s'.data.Vacant ∧ ∃ l, s'.threads = update s.threads p l ∧ l.Looked number (Snr.look number s p c) ∧
      (l = .out → (s.threads p).clearing = false → (Snr.look number s p c).Inverted number) := by
  unfold pushStep at hs
  unfold Snr.look
  cases hp : s.threads p with
  | out => rw [hp] at hs; cases hs
  | op =>
    have hinv := inverted_opState number s.data
    simp only [hp] at hs
    split at hs
    next ho =>
      cases hs
      refine ⟨hv, _, rfl, ?_, nofun⟩
      simp only [PushAt.Looked, snrRaised, ChannelData.opState, hv ho]
      rfl
    next =>
      cases hs
      refine ⟨nofun, _, rfl, ?_, fun _ _ => hinv⟩
      cases s.data.wait
      · trivial
      · exact hinv
  | jostle =>
    rw [hp] at h
    simp only [hp] at hs
    split at hs <;> cases hs
    · exact ⟨hv, _, rfl, h, nofun⟩
    · exact ⟨hv, _, rfl, trivial, nofun⟩
  | clear =>
    rw [hp] at h
    simp only [hp, clearWait] at hs
    split at hs <;> cases hs
    · exact ⟨nofun, _, rfl, h, nofun⟩
    · exact ⟨nofun, _, rfl, trivial, nofun⟩
  | notify =>
    rw [hp] at h
    simp only [hp] at hs
    cases hs
    exact ⟨hv, _, rfl, trivial, fun _ _ => h⟩

/-- The other events leave every thread where it is, or let it enter `push`. -/
theorem looked_step (number : BitVec 32) {e : ChannelEvent n} (he : ∀ p, e ≠ .push p) (hs : s.step e = some s')
    (hv : s.data.Vacant) : s'.data.Vacant ∧ ∀ q c, (s.threads q).Looked number c → (s'.threads q).Looked number c := by
  cases e with
  | push p => exact absurd rfl (he p)
  | startPush p =>
    simp only [Channel.step, startPush] at hs
    split at hs <;> cases hs
    refine ⟨hv, fun q c h => ?_⟩
    by_cases hq : q = p
    · rw [hq]
      simp only [update_self, PushAt.Looked]
    · simpa only [update_of_ne hq] using h
  | pop =>
    suffices h : s'.data.Vacant ∧ s'.threads = s.threads from ⟨h.1, fun q c hq => h.2 ▸ hq⟩
    simp only [Channel.step, popStep] at hs
    split at hs <;> cases hs
    all_goals grind [evaluate, commit, load, Channel.take, abort, returnReceived, withdraw, ChannelData.Vacant,
      ChannelData.awaiting, ChannelData.released]
  | startPop | check | sleep | wake | stop =>
    suffices h : s'.data.Vacant ∧ s'.threads = s.threads from ⟨h.1, fun q c hq => h.2 ▸ hq⟩
    simp only [Channel.step, startPop, Channel.check, sleep, wake, stop] at hs
    grind [load]

theorem snrInv_reachable {s : Snr n} (hs : (snrSystem n number).Reachable s) : SnrInv number s := by
  refine hs.invariant ?_ fun s e s' h hstep => ?_
  · rintro _ rfl
    exact ⟨nofun, fun _ => trivial, fun _ hc => absurd hc not_mem_nil⟩
  · cases e with
    | push p =>
      obtain ⟨channel, hchannel, rfl⟩ := Option.map_eq_some_iff.mp hstep
      have ⟨hvacant, l, hthreads, hl, hout⟩ := looked_pushStep hchannel h.vacant (h.looked p)
      refine ⟨hvacant, fun q => ?_, ?_⟩
      · simp only [hthreads]
        by_cases hq : q = p
        · simpa only [hq, update_self] using hl
        · simpa only [update_of_ne hq] using h.looked q
      · simp only
        split
        next hret =>
          rw [hthreads, update_self] at hret
          exact forall_mem_append.mpr ⟨h.inverted, forall_mem_singleton.mpr (hout hret.1 hret.2)⟩
        next => exact h.inverted
    | _ =>
      obtain ⟨channel, hchannel, rfl⟩ := Option.map_eq_some_iff.mp hstep
      obtain ⟨hvacant, hthreads⟩ := looked_step number (fun _ he => by cases he) hchannel h.vacant
      exact ⟨hvacant, fun q => hthreads q _ (h.looked q), h.inverted⟩

theorem snrEventBit_ne_zero (number : BitVec 32) : snrEventBit number ≠ 0 := by
  have hbit : (number &&& 1).toNat < 2 := by
    rw [BitVec.toNat_and]
    exact Nat.lt_succ_of_le Nat.and_le_right
  unfold snrEventBit
  generalize (number &&& 1).toNat = k at hbit
  interval_cases k <;> decide

end

theorem snr_calls_right_iff {n : Nat} {number : BitVec 32} {s : Snr n} (hs : (snrSystem n number).Reachable s) :
    (∀ c ∈ s.calls, c.Right number) ↔ s.calls = [] := by
  refine ⟨fun hright => eq_nil_iff_forall_not_mem.mpr fun c hc => ?_, fun hnil => by rw [hnil]; exact nofun⟩
  have hr := hright c hc
  rw [SnrCall.Right, (snrInv_reachable hs).inverted c hc] at hr
  have hne := snrEventBit_ne_zero number
  cases hrises : c.rises <;> simp_all

theorem snrSystem_init (n : Nat) (number : BitVec 32) : (snrSystem n number).init {} := rfl

theorem snr_calls_right_iff_read : ∃ s : Snr 1, (snrSystem 1 0).Reachable s ∧ s.channel.results = [7] ∧
    ((∀ c ∈ s.calls, c.Right 0) ↔ s.calls = []) :=
  System.Reachable.exists_of_run_and snr_calls_right_iff (snrSystem_init 1 0)
    [.startPush 0 7 true, .push 0, .startPop true, .pop, .pop] (by decide +kernel)

/-- The first write finds the register empty and raises nothing; the second finds it full and raises the event. -/
theorem snr_event_inverted : ∃ s : Snr 1, (snrSystem 1 0).Reachable s ∧
    s.calls = [⟨true, 0⟩, ⟨false, 0x200⟩] ∧ ¬ ∀ c ∈ s.calls, c.Right 0 :=
  System.Reachable.exists_of_run (snrSystem_init 1 0)
    [.startPush 0 1 false, .push 0, .startPush 0 2 false, .push 0] _ (by decide +kernel)

end Armsx3.Cell
