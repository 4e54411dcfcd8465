import Armsx3.Net.TcpTimeoutMonitor

/-!
# TcpTimeoutSafety — which messages are still registered

A message leaves the map when it is acknowledged or cleared, when its stream is given up, or when the time
for it is taken by another message.
-/

namespace Armsx3.TcpTimeout

open Transition OrderedMap List Wake

/-! ## A turn of the monitor ends -/

def visits (now : Nat) (x : Nat × Message) : Nat :=
  if x.1 < now then 2 else if x.1 = now then 1 else 0

def Wake.visits (now : Nat) (w : Wake) : Nat := (w.msgs.entries.map (TcpTimeout.visits now)).sum

theorem Wake.late_msgs (w : Wake) (sockId : Int) : (w.late sockId).msgs = w.msgs := by
  unfold late
  split <;> rfl

variable {now key : Nat} {msg : Message}

theorem visits_erase_lt {m m' : OrderedMap Nat Message} (hmem : (key, msg) ∈ m')
    (hle : (m'.entries.map (visits now)).sum < (m.entries.map (visits now)).sum + visits now (key, msg)) :
    ((m'.erase key).entries.map (visits now)).sum < (m.entries.map (visits now)).sum := by
  have hsum := sum_erase (visits now) hmem
  omega

theorem visits_pos (msg : Message) (hkey : key ≤ now) : 0 < visits now (key, msg) := by
  unfold visits
  split
  · omega
  · split <;> omega

theorem visits_emplace_lt {m : OrderedMap Nat Message} {now time key : Nat}
    (hmem : (key, msg) ∈ m) (hkey : key ≤ now) (htime : now ≤ time) :
    ((m.emplace time msg).entries.map (visits now)).sum < (m.entries.map (visits now)).sum + visits now (key, msg) := by
  have hpos := visits_pos msg hkey
  have hle := m.sum_emplace_le (visits now) time msg
  by_cases hlt : key < time
  · have hv : visits now (time, msg) < visits now (key, msg) := by
      unfold visits
      split <;> split <;> (try split) <;> (try split) <;> omega
    omega
  · have htaken : ∃ y ∈ m, y.1 = time := ⟨(key, msg), hmem, by simp only; omega⟩
    rw [emplace_eq_self htaken]
    omega

variable {w : Wake}

theorem Wake.visits_message (outcome : Outcome) (hmem : (key, msg) ∈ w.msgs) (hkey : key ≤ now) :
    (w.message now outcome key msg).visits now < w.visits now := by
  have hpos := visits_pos msg hkey
  have hdrop : ((w.msgs.erase key).entries.map (TcpTimeout.visits now)).sum <
      (w.msgs.entries.map (TcpTimeout.visits now)).sum := visits_erase_lt hmem (by omega)
  unfold message visits
  simp only
  split
  · rw [late_msgs]
    exact hdrop
  cases outcome with simp only [late_msgs]
  | noSocket | failed => exact hdrop
  | sent =>
    apply visits_erase_lt
    · exact mem_emplace.mpr (.inl hmem)
    · exact visits_emplace_lt hmem hkey (Nat.le_add_right _ _)

theorem wakeLoop_isSome (now : Nat) (outcome : Nat → Outcome) {fuel : Nat}
    (hfuel : w.visits now < fuel) : (wakeLoop now outcome fuel w).isSome := by
  induction fuel generalizing w with
  | zero => omega
  | succ n ih =>
    rw [wakeLoop]
    cases hb : w.msgs.begin? with
    | none => rfl
    | some =>
      simp only
      split
      · rfl
      next hkey =>
        have hlt := w.visits_message (outcome n) (begin?_mem hb) (Nat.le_of_not_lt hkey)
        exact ih (by omega)

theorem sum_visits_le (now : Nat) (l : List (Nat × Message)) : (l.map (visits now)).sum ≤ 2 * l.length := by
  induction l with
  | nil => exact Nat.le_refl _
  | cons x =>
    rw [map_cons, sum_cons, length_cons]
    have hx : visits now x ≤ 2 := by
      unfold visits
      split
      · omega
      · split <;> omega
    omega

theorem wakeUp_isSome (s : State) (now : Nat) (outcome : Nat → Outcome) : (wakeUp s now outcome).isSome :=
  wakeLoop_isSome now outcome (Nat.lt_succ_of_le (sum_visits_le now s.msgs.entries))

/-! ## No message is forgotten -/

def Registered (msgs : OrderedMap Nat Message) (m : Message) : Prop := ∃ t, (t, m) ∈ msgs

/-- Every message that has to be sent again is in the map. -/
def Kept (s : State) : Prop := ∀ m ∈ s.added, m.id ∉ s.excused → Registered s.msgs m

/-- The same in the middle of a turn: the sockets that are given up are not excused yet. -/
def Wake.Kept (s : State) (w : Wake) : Prop :=
  ∀ m ∈ s.added, m.id ∉ s.excused → m.sockId ∈ w.streamsToClose ∨ m.sockId ∈ w.gone ∨ Registered w.msgs m

variable {s : State}

theorem mem_excuse {p : Message → Bool} {n : Nat} :
    n ∈ s.excuse p ↔ n ∈ s.excused ∨ ∃ m ∈ s.added, p m = true ∧ m.id = n := by
  rw [State.excuse, mem_append, mem_map]
  simp only [mem_filter, and_assoc]

theorem Registered.erase {msgs : OrderedMap Nat Message} {m msg : Message} {key : Nat}
    (h : Registered msgs m) (hmsg : (key, msg) ∈ msgs) : m = msg ∨ Registered (msgs.erase key) m := by
  have ⟨t, ht⟩ := h
  by_cases hk : t = key
  · exact .inl (congrArg Prod.snd (eq_of_key ht hmsg hk))
  · exact .inr ⟨t, mem_erase.mpr ⟨ht, hk⟩⟩

theorem Registered.eraseIf {msgs : OrderedMap Nat Message} {m : Message} {p : Message → Bool}
    (h : Registered msgs m) (hp : p m = false) : Registered (msgs.eraseIf fun x => p x.2) m := by
  have ⟨t, ht⟩ := h
  exact ⟨t, mem_eraseIf.mpr ⟨ht, hp⟩⟩

theorem Wake.late_kept (h : w.Kept s) (sockId : Int) : (w.late sockId).Kept s := by
  unfold late
  split
  · exact h
  · exact h

/-- The time for which the turn at `now` registers a message again. -/
def resendTime (s : State) (now : Nat) (m : Message) : Nat := expectedTime (s.rtts m.sockId).increased now

/-- The turn at `now` comes to the message, and does not give up its stream for the number of attempts. -/
def Due (s : State) (now : Nat) (x : Nat × Message) : Prop := x.1 ≤ now ∧ (s.rtts x.2.sockId).increased.numRetries < 10

instance (s : State) (now : Nat) (x : Nat × Message) : Decidable (Due s now x) := inferInstanceAs (Decidable (_ ∧ _))

/-- The new times of the messages that are due lie behind the turn, are no keys of the map, and differ. -/
def Apart (s : State) (now : Nat) : Prop :=
  ∀ x ∈ s.msgs.entries, Due s now x → now < resendTime s now x.2 ∧ s.msgs.find? (resendTime s now x.2) = none ∧
    ∀ y ∈ s.msgs.entries, Due s now y → y ≠ x → resendTime s now y.2 ≠ resendTime s now x.2

/-- In the middle of a turn: what the map has got besides are messages that were due, with their new times. -/
structure Wake.Inv (s : State) (now : Nat) (w : Wake) : Prop where
  rtts : ∀ i, w.rtts i = if i ∈ w.rttIncreased then (s.rtts i).increased else s.rtts i
  entries : ∀ x ∈ w.msgs, x ∈ s.msgs ∨ ∃ y ∈ s.msgs, Due s now y ∧ x = (resendTime s now y.2, y.2) ∧ y ∉ w.msgs
  kept : w.Kept s

section Turn

variable (h : w.Inv s now) (hapart : Apart s now)
include h

theorem Wake.Inv.late (sockId : Int) :
    (w.late sockId).Inv s now ∧ (w.late sockId).rtts sockId = (s.rtts sockId).increased := by
  have hkept := w.late_kept h.kept sockId
  have hsock := h.rtts sockId
  unfold Wake.late at hkept ⊢
  split
  next hmem =>
    rw [if_pos hmem] at hsock
    exact ⟨h, hsock⟩
  next hmem =>
    rw [if_neg hmem] at hsock
    rw [if_neg hmem] at hkept
    rw [hsock] at hkept ⊢
    refine ⟨⟨fun i => ?_, h.entries, hkept⟩, Function.update_self ..⟩
    by_cases hi : i = sockId
    · rw [hi, if_pos mem_cons_self]
      exact Function.update_self ..
    · have hiff : i ∈ sockId :: w.rttIncreased ↔ i ∈ w.rttIncreased := mem_cons.trans (or_iff_right hi)
      simp only [hiff, ← h.rtts i]
      exact Function.update_of_ne hi ..

include hapart

theorem Wake.Inv.mem {x : Nat × Message} (hx : x ∈ w.msgs) (hle : x.1 ≤ now) : x ∈ s.msgs := by
  rcases h.entries x hx with hx | ⟨y, hy, hdue, rfl, _⟩
  · exact hx
  · exact absurd hle (Nat.not_le_of_lt (hapart y hy hdue).1)

theorem Wake.Inv.free (hmsg : (key, msg) ∈ w.msgs) (hdue : Due s now (key, msg)) :
    ∀ x ∈ w.msgs, x.1 ≠ resendTime s now msg := by
  have hmem := h.mem hapart hmsg hdue.1
  have ⟨_, hfree, hother⟩ := hapart _ hmem hdue
  intro x hx
  rcases h.entries x hx with hx | ⟨y, hy, hydue, rfl, hgone⟩
  · exact find?_eq_none.mp hfree x hx
  · exact hother y hy hydue fun heq => hgone (heq ▸ hmsg)

/-- A message that is sent again comes back behind the turn. -/
theorem Wake.Inv.resend (hmsg : (key, msg) ∈ w.msgs) (hdue : Due s now (key, msg)) :
    Wake.Inv s now { w with msgs := (w.msgs.emplace (resendTime s now msg) msg).erase key } := by
  have hmem := h.mem hapart hmsg hdue.1
  have hlt := (hapart _ hmem hdue).1
  have hfree := h.free hapart hmsg hdue
  have hnew : (resendTime s now msg, msg) ∈ w.msgs.emplace (resendTime s now msg) msg :=
    mem_emplace.mpr (.inr ⟨rfl, hfree⟩)
  refine ⟨h.rtts, fun x hx => ?_, fun m hm hx => ?_⟩
  · rcases mem_emplace.mp (mem_erase.mp hx).1 with hx | ⟨rfl, _⟩
    · refine (h.entries x hx).imp_right fun ⟨y, hy, hydue, heq, hgone⟩ => ⟨y, hy, hydue, heq, fun hin => ?_⟩
      rcases mem_emplace.mp (mem_erase.mp hin).1 with hin | ⟨rfl, _⟩
      · exact hgone hin
      · exact absurd hydue.1 (Nat.not_le_of_lt hlt)
    · exact .inr ⟨(key, msg), hmem, hdue, rfl, fun hin => (mem_erase.mp hin).2 rfl⟩
  · rcases h.kept m hm hx with hd | hd | ⟨t, ht⟩
    · exact .inl hd
    · exact .inr (.inl hd)
    have hold : Registered (w.msgs.emplace (resendTime s now msg) msg) m := ⟨t, mem_emplace.mpr (.inl ht)⟩
    right; right
    rcases hold.erase (mem_emplace.mpr (.inl hmsg)) with rfl | hr
    · exact ⟨_, mem_erase.mpr ⟨hnew, fun heq => hfree _ hmsg heq.symm⟩⟩
    · exact hr

omit hapart

/-- Giving up a stream excuses the message that is erased. -/
theorem Wake.Inv.close {sockets gone : List Int} (hmsg : (key, msg) ∈ w.msgs)
    (hsockets : ∀ i ∈ w.streamsToClose, i ∈ sockets) (hgone : ∀ i ∈ w.gone, i ∈ gone)
    (hclosed : msg.sockId ∈ sockets ∨ msg.sockId ∈ gone) :
    Wake.Inv s now { w with streamsToClose := sockets, gone := gone, msgs := w.msgs.erase key } := by
  refine ⟨h.rtts, fun x hx => ?_, fun m hm hx => ?_⟩
  · refine (h.entries x (mem_erase.mp hx).1).imp_right fun ⟨y, hy, hdue, heq, hnot⟩ => ⟨y, hy, hdue, heq, fun hin => ?_⟩
    exact hnot (mem_erase.mp hin).1
  · rcases h.kept m hm hx with hd | hd | hr
    · exact .inl (hsockets _ hd)
    · exact .inr (.inl (hgone _ hd))
    · rcases hr.erase hmsg with rfl | hr
      · exact hclosed.elim .inl fun hg => .inr (.inl hg)
      · exact .inr (.inr hr)

include hapart

theorem Wake.Inv.message {outcome : Outcome} (hmsg : (key, msg) ∈ w.msgs) (hkey : key ≤ now) :
    (w.message now outcome key msg).Inv s now := by
  have ⟨hlate, hrtt⟩ := h.late msg.sockId
  rw [← w.late_msgs msg.sockId] at hmsg
  unfold Wake.message
  generalize w.late msg.sockId = v at *
  simp only [hrtt]
  split
  · exact hlate.close hmsg (fun i hi => mem_append_left _ hi) (fun _ hi => hi)
      (.inl (mem_append_right _ (mem_singleton_self _)))
  next hretries =>
    cases outcome with
    | noSocket =>
      exact hlate.close hmsg (fun _ hi => hi) (fun i hi => mem_append_left _ hi)
        (.inr (mem_append_right _ (mem_singleton_self _)))
    | failed =>
      exact hlate.close hmsg (fun i hi => mem_append_left _ hi) (fun _ hi => hi)
        (.inl (mem_append_right _ (mem_singleton_self _)))
    | sent => exact hlate.resend hapart hmsg ⟨hkey, Nat.lt_of_not_le hretries⟩

theorem Wake.Inv.loop {fuel : Nat} {outcome : Nat → Outcome} {w' : Wake}
    (hw : wakeLoop now outcome fuel w = some w') : w'.Inv s now := by
  induction fuel generalizing w with
  | zero => cases hw
  | succ n ih =>
    rw [wakeLoop] at hw
    split at hw
    · cases hw
      exact h
    next hb =>
      split at hw
      · cases hw
        exact h
      next hkey => exact ih (h.message hapart (begin?_mem hb) (Nat.le_of_not_lt hkey)) hw

end Turn

def NoCollision (s : State) : Event → Prop
  | .addMessage sockId _ now => s.msgs.find? (expectedTime (s.rtts sockId) now) = none
  | .wakeUp now _ => Apart s now
  | _ => True

instance (s : State) (e : Event) : Decidable (NoCollision s e) :=
  match e with
  | .addMessage _ _ _ => inferInstanceAs (Decidable (_ = _))
  | .wakeUp _ _ => inferInstanceAs (Decidable (∀ x ∈ _, _))
  | .confirmDataReceived _ _ _ | .clearAllMessages _ => isTrue trivial

/-- The messages that are erased are excused. -/
theorem Kept.eraseIf {s' : State} (h : Kept s) (p : Message → Bool) (hadded : s'.added = s.added)
    (hexcused : s'.excused = s.excuse p) (hmsgs : s'.msgs = s.msgs.eraseIf fun x => p x.2) : Kept s' := by
  intro m hm hx
  rw [hadded] at hm
  rw [hexcused, mem_excuse, not_or] at hx
  have hp : p m = false := by
    rw [← Bool.not_eq_true]
    exact fun ht => hx.2 ⟨m, hm, ht, rfl⟩
  rw [hmsgs]
  exact (h m hm hx.1).eraseIf hp

theorem kept_step {s s' : State} {e : Event} (h : Kept s) (hc : NoCollision s e)
    (hstep : step s e = some s') : Kept s' := by
  cases e with
  | addMessage =>
    have ⟨_, rfl⟩ := Option.ite_some_none_eq_some.mp hstep
    intro m hm hx
    rcases mem_append.mp hm with hm | hm
    · have ⟨t, ht⟩ := h m hm hx
      exact ⟨t, mem_emplace.mpr (.inl ht)⟩
    · rw [mem_singleton.mp hm]
      exact ⟨_, mem_emplace.mpr (.inr ⟨rfl, find?_eq_none.mp hc⟩)⟩
  | confirmDataReceived sockId ack =>
    have ⟨_, rfl⟩ := Option.ite_some_none_eq_some.mp hstep
    exact h.eraseIf (fun m => m.confirmed sockId ack) rfl rfl rfl
  | clearAllMessages sockId =>
    cases hstep
    exact h.eraseIf (fun m => decide (m.sockId = sockId)) rfl rfl rfl
  | wakeUp now outcome =>
    have ⟨_, hstep⟩ := Option.ite_none_right_eq_some.mp hstep
    have ⟨w, hw, heq⟩ := Option.map_eq_some_iff.mp hstep
    cases heq
    have hstart : Wake.Inv s now ⟨s.msgs, s.rtts, [], [], []⟩ :=
      ⟨fun _ => rfl, fun _ hx => .inl hx, fun m hm hx => .inr (.inr (h m hm hx))⟩
    have hkept := (hstart.loop hc hw).kept
    intro m hm hx
    have hx := fun hn => hx (mem_excuse.mpr hn)
    have hnot := fun hd => hx (.inr ⟨m, hm, decide_eq_true hd, rfl⟩)
    rcases hkept m hm fun hn => hx (.inl hn) with hd | hd | hr
    · exact absurd (.inl hd) hnot
    · exact absurd (.inr hd) hnot
    · exact hr

/-- As long as no two messages are to be sent again at the same time, each message that is not excused is registered. -/
theorem messages_registered {s : State} (hs : (system.restrict NoCollision).Reachable s) :
    (∀ m ∈ s.added, m.id ∉ s.excused → Registered s.msgs m) ∧ ∀ now outcome, (wakeUp s now outcome).isSome := by
  refine ⟨?_, fun now outcome => wakeUp_isSome s now outcome⟩
  apply hs.invariant
  · intro s₀ h₀ m hm
    cases h₀
    exact absurd hm not_mem_nil
  · intro t e t' ht hstep
    have ⟨hc, hstep⟩ := System.step_restrict.mp hstep
    exact kept_step ht hc hstep

/-- Three messages, of which one is acknowledged and one sent again. -/
theorem messages_registered_resent : ∃ s, (system.restrict NoCollision).Reachable s ∧
    s.added.length = 3 ∧ s.excused = [1] ∧ s.msgs.entries.map Prod.fst = [50000008, 105000004] ∧
    ∀ m ∈ s.added, m.id ∉ s.excused → Registered s.msgs m := by
  have ⟨s, hs, hP⟩ := System.Reachable.exists_of_run (M := system.restrict NoCollision) rfl
    [.addMessage 5 1 3, .addMessage 7 1 5, .addMessage 5 3 8, .confirmDataReceived 7 2 50000003,
      .wakeUp 50000004 fun _ => .sent]
    (fun s => s.added.length = 3 ∧ s.excused = [1] ∧
      s.msgs.entries.map Prod.fst = [50000008, 105000004]) (by decide +kernel)
  exact ⟨s, hs, hP.1, hP.2.1, hP.2.2, (messages_registered hs).1⟩

/-- Two messages that are added at one reading of the clock: the second is not registered. -/
theorem message_lost : ∃ s, system.Reachable s ∧ s.excused = [] ∧ ∃ m ∈ s.added, ¬ Registered s.msgs m := by
  have ⟨s, hs, hP⟩ := System.Reachable.exists_of_run (M := system) rfl [.addMessage 5 1 3, .addMessage 5 2 3]
    (fun s => s.excused = [] ∧ s.added = [⟨5, 1, 3, 0⟩, ⟨5, 2, 3, 1⟩] ∧
      s.msgs.entries = [(50000003, ⟨5, 1, 3, 0⟩)]) (by decide +kernel)
  refine ⟨s, hs, hP.1, ⟨5, 2, 3, 1⟩, ?_, ?_⟩
  · rw [hP.2.1]
    decide
  · rintro ⟨t, ht⟩
    rw [mem_def, hP.2.2, mem_singleton] at ht
    cases ht

end Armsx3.TcpTimeout
