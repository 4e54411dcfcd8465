import Armsx3.Cell.LfQueue
import Armsx3.Library.Ring

/-!
# LfQueueCompletions — the published position of the cellSync lock-free queue

The published position is just past the operations that are complete, as long as the mask has a bit for every
pointer that can be outstanding.  Depths of up to `0x7fff` are accepted, but the mask has 16 bits.
-/

namespace Armsx3.Cell.LfQueue

open Window List Option Nat Role

variable {d base i n : Nat} {side : Side} {pointer : Int}

/-! ## Positions -/

theorem wrap_sub {a b : Nat} (hle : b ≤ a) (hlt : a < b + d * 2) :
    wrap d (((a % (d * 2) : Nat) : Int) - ((b % (d * 2) : Nat) : Int)) = (a : Int) - b := by
  have ha : a % (d * 2) = if b % (d * 2) + (a - b) < d * 2 then b % (d * 2) + (a - b)
      else b % (d * 2) + (a - b) - d * 2 := by
    rw [← Ring.add_mod_of_lt (by omega), show b + (a - b) = a by omega]
  unfold wrap
  split at ha
  · split <;> omega
  · split <;> omega

theorem s16_mod (hd : 0 < d) (hd' : d ≤ 16) : s16 (n % (d * 2)) = ((n % (d * 2) : Nat) : Int) := by
  have hlt := mod_lt n (show 0 < d * 2 by omega)
  exact if_pos (by omega)

theorem succ_mod (hd : 0 < d) : succ d (n % (d * 2)) = (n + 1) % (d * 2) := by
  have hlt := mod_lt n (show 0 < d * 2 by omega)
  rw [Ring.succ_mod (by omega), succ]
  split
  · rw [if_neg (by omega)]
  · rw [if_pos (by omega)]

theorem distance_mod {a b : Nat} (hle : b ≤ a) (hlt : a < b + d * 2) :
    distance d (a % (d * 2)) (b % (d * 2)) = a - b := by
  have ha := Ring.add_mod_of_lt (n := b) (show a - b < d * 2 by omega)
  rw [show b + (a - b) = a by omega] at ha
  unfold distance
  split at ha
  · rw [show a % (d * 2) + d * 2 - b % (d * 2) = a - b + d * 2 by omega, add_mod_right]
    exact mod_eq_of_lt (by omega)
  · rw [show a % (d * 2) + d * 2 - b % (d * 2) = a - b by omega]
    exact mod_eq_of_lt (by omega)

/-! ## One completion -/

theorem getMsbD_completionBit : ∀ k j : Fin 16, (completionBit (k : Nat)).getMsbD j = decide (j = k) := by
  decide +kernel

theorem and_thirty_of_lt : ∀ k : Fin 16, BitVec.ofNat 32 k &&& 0x30 = 0 := by decide

theorem countlZero_not (m : BitVec 16) : countlZero ((~~~m).setWidth 32) - 16 = leadingOnes m := by
  have hle : leadingOnes m ≤ 16 := countWhile_le
  have hbit : ∀ k, k < 16 → ((~~~m).setWidth 32).getMsbD (16 + k) = !m.getMsbD k := by
    intro k hk
    have hidx : 32 - 1 - (16 + k) = 16 - 1 - k := by omega
    simp only [BitVec.getMsbD, BitVec.getLsbD_setWidth, BitVec.getLsbD_not, hidx, hk,
      show 16 + k < 32 by omega, show 16 - 1 - k < 32 by omega, show 16 - 1 - k < 16 by omega, decide_true,
      Bool.true_and]
  have hcount : countlZero ((~~~m).setWidth 32) = 16 + leadingOnes m := by
    apply countWhile_eq (by omega)
    · intro k hk
      by_cases hlow : k < 16
      · have hidx : ¬ 32 - 1 - k < 16 := by omega
        simp only [BitVec.getMsbD, BitVec.getLsbD_setWidth, BitVec.getLsbD_not, hidx, decide_false, Bool.false_and,
          Bool.and_false, Bool.not_false]
      have hone := of_lt_countWhile (show k - 16 < countWhile m.getMsbD 16 by
        show k - 16 < leadingOnes m
        omega)
      have hk' := hbit (k - 16) (by omega)
      rw [show 16 + (k - 16) = k by omega, hone] at hk'
      rw [hk']
      rfl
    · intro hlt
      rw [hbit _ (by omega), getMsbD_leadingOnes]
      rfl
  rw [hcount, Nat.add_sub_cancel_left]

theorem complete_tracks {done : Nat → Prop} (hd : 0 < d) (hd' : d ≤ 16)
    (hmask : Window.Tracks side.mask base done) (hpos : side.published = base % (d * 2))
    (hdone : ∀ j, done j → j < n) (hn : n ≤ base + d) (hle : base ≤ i) (hlt : i < n)
    (hpointer : pointer = ((i % (d * 2) : Nat) : Int)) :
    ∃ base', base ≤ base' ∧ base' ≤ n ∧ (complete d side pointer).published = base' % (d * 2) ∧
      Window.Tracks (complete d side pointer).mask base' (fun j => done j ∨ j = i) := by
  have hvar1 : wrap d (pointer - side.published) = ((i - base : Nat) : Int) := by
    rw [hpointer, hpos, wrap_sub hle (by omega)]
    omega
  let m : BitVec 16 := completionBit ((i - base : Nat) : Int) ||| side.mask
  have hm : ∀ k, k < 16 → m.getMsbD k = (side.mask.getMsbD k || decide (base + k = i)) := by
    intro k hk
    have hbit := getMsbD_completionBit ⟨i - base, by omega⟩ ⟨k, hk⟩
    have hiff : decide ((⟨k, hk⟩ : Fin 16) = ⟨i - base, by omega⟩) = decide (base + k = i) := by
      apply decide_eq_decide.mpr
      rw [Fin.mk.injEq]
      omega
    rw [hiff] at hbit
    rw [BitVec.getMsbD_or, hbit, Bool.or_comm]
  have htracks := hmask.complete (by omega) hm
  have hcount : advance d side pointer = leadingOnes m := by
    simp only [advance, hvar1]
    exact countlZero_not m
  -- nothing that was not handed out is complete
  have hend : base + leadingOnes m ≤ n := by
    rw [← not_lt]
    intro hgt
    rcases htracks.before n hgt with h | h
    · have hn' := hdone n h
      omega
    · omega
  refine ⟨base + leadingOnes m, by omega, hend, ?_, ?_⟩
  · have hlt' := mod_lt base (show 0 < d * 2 by omega)
    have hadd := Ring.add_mod_of_lt (n := base) (show leadingOnes m < d * 2 by omega)
    simp only [complete, hcount, hpos]
    rw [hadd]
    split
    · rw [if_neg (by omega)]
      exact mod_eq_of_lt (by omega)
    · rw [if_pos (by omega)]
      exact mod_eq_of_lt (by omega)
  · have hshift : (complete d side pointer).mask = m <<< leadingOnes m := by
      simp only [complete, hcount, hvar1]
      by_cases hfull : leadingOnes m < 16
      · rw [if_neg (not_not.mpr (and_thirty_of_lt ⟨_, hfull⟩)), BitVec.or_comm]
      · have hsixteen : leadingOnes m = 16 := by omega
        rw [hsixteen, if_pos (by decide)]
        exact (BitVec.shiftLeft_eq_zero (le_refl 16)).symm
    rw [hshift]
    exact htracks

/-! ## The invariant -/

/-- Only what was pushed is popped, and no more is pushed than the depth.  `base` and `n` are the operations
published and handed out here, `given` and `got` those of the SPUs. -/
def Ordered (r : Role) (d base n got given : Nat) : Prop :=
  match r with
  | .push => got ≤ base ∧ n ≤ given + d
  | .pop => n ≤ given ∧ got ≤ base + d

/-- The counters of the positions: `base` operations were published here, and the SPUs have got `got` and
published `given`. -/
structure Inv (r : Role) (d : Nat) (s : State) (base got given : Nat) : Prop where
  depth : s.queue.depth = d
  direction : s.queue.direction = r.direction
  bs : s.queue.bs = -1
  idle : (r.own s.queue).waiting = 0
  pop2 : s.queue.pop2 = 0
  push2 : s.queue.push2 = 0
  published : (r.own s.queue).published = base % (d * 2)
  reserved : (r.own s.queue).reserved = s.pointers.length % (d * 2)
  peerPublished : (r.peer s.queue).published = given % (d * 2)
  peerReserved : (r.peer s.queue).reserved = got % (d * 2)
  tracks : Window.Tracks (r.own s.queue).mask base (· ∈ s.completed)
  handed : ∀ j ∈ s.completed, j < s.pointers.length
  pointers : ∀ j p, s.pointers[j]? = some p → p = ((j % (d * 2) : Nat) : Int)
  own_le : base ≤ s.pointers.length
  peer_le : given ≤ got
  order : Ordered r d base s.pointers.length got given
  alive : s.failed = false

def Role.setOwn (r : Role) (q : LFQueue) (side : Side) : LFQueue :=
  match r with
  | push => { q with push1 := side }
  | pop => { q with pop1 := side }

section Sides

variable (r : Role) (q : LFQueue) (side : Side)

@[simp] theorem setOwn_own : r.setOwn q (r.own q) = q := by cases r <;> rfl

end Sides

theorem Inv.setOwn {r : Role} {s : State} {got given base' : Nat} {side : Side} {ps : List Int} {js : List Nat}
    (h : Inv r d s base got given) (hidle : side.waiting = 0) (hpublished : side.published = base' % (d * 2))
    (hreserved : side.reserved = ps.length % (d * 2)) (htracks : Window.Tracks side.mask base' (· ∈ js))
    (hhanded : ∀ j ∈ js, j < ps.length) (hps : ∀ j p, ps[j]? = some p → p = ((j % (d * 2) : Nat) : Int))
    (hle : base' ≤ ps.length) (horder : Ordered r d base' ps.length got given) :
    Inv r d { s with queue := r.setOwn s.queue side, pointers := ps, completed := js } base' got given := by
  cases r <;> exact ⟨h.depth, h.direction, h.bs, hidle, h.pop2, h.push2, hpublished, hreserved, h.peerPublished,
    h.peerReserved, htracks, hhanded, hps, hle, h.peer_le, horder, h.alive⟩

theorem Inv.setPeer {r : Role} {s : State} {got given got' given' : Nat} {side : Side} (h : Inv r d s base got given)
    (hpublished : side.published = given' % (d * 2)) (hreserved : side.reserved = got' % (d * 2)) (hle : given' ≤ got')
    (horder : Ordered r d base s.pointers.length got' given') :
    Inv r d { s with queue := r.setPeer s.queue side } base got' given' := by
  cases r <;> exact
    { h with peerPublished := hpublished, peerReserved := hreserved, peer_le := hle, order := horder }

/-! ## Handing out -/

def Role.room (r : Role) (q : LFQueue) : Bool :=
  match r with
  | push => wrap q.depth (s16 q.push1.reserved - q.pop1.published) < q.depth
  | pop => wrap q.depth (q.push1.published - s16 q.pop1.reserved) > 0

theorem getPointer_cases (hidle : side.waiting = 0) (bs : Int) (room : Bool) (isBlocking : Nat) (useEventQueue : Bool) :
    (room = true ∧ getPointer d bs room side isBlocking useEventQueue false =
      .ret none { side with reserved := if s16 side.reserved + 1 ≥ d * 2 then 0 else (side.reserved + 1) % 2 ^ 16 }
        (some (s16 side.reserved))) ∨
    (∃ e, getPointer d bs room side isBlocking useEventQueue false = .ret (some e) side none) ∨
    getPointer d bs room side isBlocking useEventQueue false = .retry ∨
    ∃ side', getPointer d bs room side isBlocking useEventQueue false = .receive side' := by
  unfold getPointer
  simp only [Bool.false_eq_true, if_false, hidle, if_true]
  split
  · exact .inr (.inl ⟨_, rfl⟩)
  split
  · exact .inr (.inl ⟨_, rfl⟩)
  split
  next hroom =>
    exact .inl ⟨hroom, rfl⟩
  split
  · exact .inr (.inl ⟨_, rfl⟩)
  split
  · exact .inr (.inr (.inl rfl))
  split
  · exact .inr (.inr (.inr ⟨_, rfl⟩))
  · exact .inr (.inr (.inr ⟨_, rfl⟩))

theorem get_eq {r : Role} {q : LFQueue} (hdir : q.direction = r.direction) (isBlocking : Nat) (useEventQueue : Bool) :
    r.get q isBlocking useEventQueue =
    (getPointer q.depth q.bs (r.room q) (r.own q) isBlocking useEventQueue false).map (r.setOwn q) := by
  cases r with
  | push =>
    have hdir' : ¬ q.direction ≠ .PPU2SPU := not_not.mpr hdir
    simp only [Role.get, getPushPointer, if_neg hdir']
    rfl
  | pop =>
    have hdir' : ¬ q.direction ≠ .SPU2PPU := not_not.mpr hdir
    simp only [Role.get, getPopPointer, if_neg hdir']
    rfl

variable {r : Role} {s s' : State} {got given : Nat}

theorem Inv.room (hd : 0 < d) (hd' : d ≤ 16) (h : Inv r d s base got given)
    (hroom : r.room s.queue = true) : Ordered r d base (s.pointers.length + 1) got given := by
  have hown := h.own_le
  have hpeer := h.peer_le
  have horder := h.order
  have hreserved := h.reserved
  have hpublished := h.peerPublished
  cases r with
  | push =>
    obtain ⟨hgot, hlen⟩ := horder
    simp only [room, decide_eq_true_iff] at hroom
    simp only [own, peer] at hreserved hpublished
    rw [hreserved, hpublished, h.depth, s16_mod hd hd', wrap_sub (by omega) (by omega)] at hroom
    exact ⟨hgot, by omega⟩
  | pop =>
    obtain ⟨hlen, hgot⟩ := horder
    simp only [room, decide_eq_true_iff] at hroom
    simp only [own, peer] at hreserved hpublished
    rw [hreserved, hpublished, h.depth, s16_mod hd hd', wrap_sub (by omega) (by omega)] at hroom
    exact ⟨by omega, hgot⟩

theorem inv_get (hd : 0 < d) (hd' : d ≤ 16) (h : Inv r d s base got given) {isBlocking : Nat} {useEventQueue : Bool}
    (hstep : step r s (.get isBlocking useEventQueue) = some s') : Inv r d s' base got given := by
  simp only [step] at hstep
  rw [get_eq h.direction] at hstep
  rcases getPointer_cases h.idle s.queue.bs (r.room s.queue) isBlocking useEventQueue with
    ⟨hroom, hget⟩ | ⟨e, hget⟩ | hget | ⟨side', hget⟩ <;> rw [hget] at hstep
  · cases hstep
    have hnew := h.room hd hd' hroom
    have hown := h.own_le
    have hpointer : s16 (r.own s.queue).reserved = ((s.pointers.length % (d * 2) : Nat) : Int) := by
      rw [h.reserved, s16_mod hd hd']
    refine h.setOwn h.idle h.published ?_ h.tracks ?_ ?_ ?_ ?_
    · have hsucc := succ_mod (n := s.pointers.length) hd
      rw [length_append, length_singleton, ← hsucc, hpointer, h.reserved, h.depth, succ]
      by_cases hend : s.pointers.length % (d * 2) + 1 ≥ d * 2
      · rw [if_pos (by omega), if_pos hend]
      · rw [if_neg (by omega), if_neg hend]
        exact mod_eq_of_lt (by omega)
    · intro j hj
      have hlt := h.handed j hj
      rw [length_append]
      omega
    · intro j p hp
      rcases lt_or_ge j s.pointers.length with hlt | hge
      · rw [getElem?_append_left hlt] at hp
        exact h.pointers j p hp
      -- the new one
      rw [getElem?_append_right hge] at hp
      have hlt := (List.getElem?_eq_some_iff.mp hp).1
      rw [length_singleton] at hlt
      have hj : j = s.pointers.length := by omega
      rw [hj, Nat.sub_self] at hp
      have hp' := Option.some.inj hp
      rw [← hp', hj]
      exact hpointer
    · rw [length_append]
      omega
    · rw [length_append]
      exact hnew
  · have hs' := (Option.some.inj hstep).symm
    rw [setOwn_own] at hs'
    subst hs'
    exact h
  · cases hstep
  · cases hstep

/-! ## Completing -/

theorem complete_eq (hd' : d ≤ 16) (h : Inv r d s base got given) (hout : base < s.pointers.length)
    (fpSendSignal noQueueFull : Bool) : r.complete s.queue pointer fpSendSignal noQueueFull =
    .done (r.setOwn s.queue (complete s.queue.depth (r.own s.queue) pointer)) none := by
  have horder := h.order
  have hpeer := h.peer_le
  have hreserved := h.peerReserved
  have hpublished := h.peerPublished
  cases r with
  | push =>
    have hdir : ¬ s.queue.direction ≠ .PPU2SPU := not_not.mpr h.direction
    obtain ⟨hgot, hlen⟩ := horder
    have hvar2 : wrap s.queue.depth (s16 s.queue.pop1.reserved - s.queue.pop1.published) = (got : Int) - given := by
      have hreserved : s.queue.pop1.reserved = got % (d * 2) := hreserved
      have hpublished : s.queue.pop1.published = given % (d * 2) := hpublished
      rw [hreserved, hpublished, h.depth, s16_mod (by omega) hd', wrap_sub hpeer (by omega)]
    have hvar4 : packDistance (packFirst s.queue.push2) (packMiddle s.queue.push2) = 0 := by
      rw [h.push2]
      rfl
    have hfields : packFirst s.queue.push2 = packLast s.queue.push2 := by
      rw [h.push2]
      rfl
    simp only [Role.complete, completePushPointer, if_neg hdir, hvar2, hvar4]
    rw [if_neg (fun hw => hw.2 hfields), if_neg (by omega), if_pos hfields.symm]
    rfl
  | pop =>
    have hdir : ¬ s.queue.direction ≠ .SPU2PPU := not_not.mpr h.direction
    have hfields : packFirst s.queue.pop2 = packLast s.queue.pop2 := by
      rw [h.pop2]
      rfl
    simp only [Role.complete, completePopPointer, if_neg hdir]
    rw [if_pos (.inr (.inr hfields)), if_pos hfields.symm]
    rfl

theorem inv_complete (hd : 0 < d) (hd' : d ≤ 16) (h : Inv r d s base got given) {fpSendSignal noQueueFull : Bool}
    (hstep : step r s (.complete i fpSendSignal noQueueFull) = some s') : ∃ base', Inv r d s' base' got given := by
  simp only [step] at hstep
  split at hstep
  · cases hstep
  rename_i hnew
  have ⟨pointer, hp, hs'⟩ := map_eq_some_iff.mp hstep
  have hi := (List.getElem?_eq_some_iff.mp hp).1
  have horder := h.order
  have hpeer := h.peer_le
  -- an operation before the published position was completed before
  have hle : base ≤ i := by
    rw [← not_lt]
    exact fun hlt => hnew (h.tracks.before i hlt)
  have hn : s.pointers.length ≤ base + d := by
    cases r with
    | push =>
      obtain ⟨hgot, hlen⟩ := horder
      omega
    | pop =>
      obtain ⟨hlen, hgot⟩ := horder
      omega
  have ⟨base', hbase, hend, hpublished, htracks⟩ :=
    complete_tracks hd hd' h.tracks h.published h.handed hn hle hi (h.pointers i pointer hp)
  rw [complete_eq hd' h (by omega) fpSendSignal noQueueFull, h.depth] at hs'
  have hs' : s' = { s with
    queue := r.setOwn s.queue (complete d (r.own s.queue) pointer)
    completed := s.completed ++ [i] } := hs'.symm
  subst hs'
  refine ⟨base', h.setOwn h.idle hpublished h.reserved ?_ ?_ h.pointers hend ?_⟩
  · have hmem : (· ∈ s.completed ++ [i]) = fun j => j ∈ s.completed ∨ j = i := by
      funext j
      rw [mem_append, mem_singleton]
    rw [hmem]
    exact htracks
  · exact forall_mem_append.mpr ⟨h.handed, forall_mem_singleton.mpr hi⟩
  · cases r with
    | push =>
      obtain ⟨hgot, hlen⟩ := horder
      exact ⟨le_trans hgot hbase, hlen⟩
    | pop =>
      obtain ⟨hlen, hgot⟩ := horder
      exact ⟨hlen, by omega⟩

/-! ## The SPUs -/

theorem inv_peerGet (hd : 0 < d) (h : Inv r d s base got given) (hstep : step r s .peerGet = some s') :
    Inv r d s' base (got + 1) given := by
  have ⟨hroom, hstep⟩ := ite_none_right_eq_some.mp hstep
  cases hstep
  have hown := h.own_le
  have hpeer := h.peer_le
  have horder := h.order
  have hpublished := h.published
  have hpeerReserved := h.peerReserved
  refine h.setPeer h.peerPublished ?_ (by omega) ?_
  · rw [h.depth, h.peerReserved, succ_mod hd]
  -- the SPU has looked for an element, or for room
  cases r with
  | push =>
    obtain ⟨hgot, hlen⟩ := horder
    simp only [peerRoom, decide_eq_true_iff] at hroom
    simp only [own, peer] at hpublished hpeerReserved
    rw [h.depth, hpublished, hpeerReserved, distance_mod hgot (by omega)] at hroom
    exact ⟨by omega, hlen⟩
  | pop =>
    obtain ⟨hlen, hgot⟩ := horder
    simp only [peerRoom, decide_eq_true_iff] at hroom
    simp only [own, peer] at hpublished hpeerReserved
    rw [h.depth, hpublished, hpeerReserved, distance_mod (by omega) (by omega)] at hroom
    exact ⟨hlen, by omega⟩

theorem inv_peerComplete (hd : 0 < d) (h : Inv r d s base got given) (hstep : step r s .peerComplete = some s') :
    Inv r d s' base got (given + 1) := by
  have ⟨hne, hstep⟩ := ite_none_right_eq_some.mp hstep
  cases hstep
  have hpeer := h.peer_le
  have horder := h.order
  have hlt : given < got := by
    rw [h.peerPublished, h.peerReserved] at hne
    rcases lt_or_eq_of_le hpeer with hlt | heq
    · exact hlt
    · rw [heq] at hne
      exact absurd rfl hne
  refine h.setPeer ?_ h.peerReserved hlt ?_
  · rw [h.depth, h.peerPublished, succ_mod hd]
  cases r with
  | push =>
    obtain ⟨hgot, hlen⟩ := horder
    exact ⟨hgot, le_trans hlen (by omega)⟩
  | pop =>
    obtain ⟨hlen, hgot⟩ := horder
    exact ⟨le_succ_of_le hlen, hgot⟩

/-! ## Runs -/

theorem inv_step (hd : 0 < d) (hd' : d ≤ 16) {e : Event} (h : ∃ base got given, Inv r d s base got given)
    (hstep : step r s e = some s') : ∃ base got given, Inv r d s' base got given := by
  have ⟨base, got, given, h⟩ := h
  cases e with
  | get => exact ⟨base, got, given, inv_get hd hd' h hstep⟩
  | complete =>
    have ⟨base', h'⟩ := inv_complete hd hd' h hstep
    exact ⟨base', got, given, h'⟩
  | peerGet => exact ⟨base, got + 1, given, inv_peerGet hd h hstep⟩
  | peerComplete => exact ⟨base, got, given + 1, inv_peerComplete hd h hstep⟩

theorem inv_init (r : Role) (d : Nat) : Inv r d { queue := syncLFQueueInitialize d r.direction } 0 0 0 := by
  have htracks : Window.Tracks (0 : BitVec 16) 0 (· ∈ ([] : List Nat)) := by
    have hnone : (· ∈ ([] : List Nat)) = fun _ => False := by
      funext j
      simp
    rw [hnone]
    exact Window.Tracks.zero
  cases r <;> exact {
    depth := rfl
    direction := rfl
    bs := rfl
    idle := rfl
    pop2 := rfl
    push2 := rfl
    published := (zero_mod _).symm
    reserved := (zero_mod _).symm
    peerPublished := (zero_mod _).symm
    peerReserved := (zero_mod _).symm
    tracks := htracks
    handed := by simp
    pointers := by simp
    own_le := le_refl _
    peer_le := le_refl _
    order := ⟨zero_le _, zero_le _⟩
    alive := rfl }

/-- The published position is just past the operations that are complete up to there, so that it is the position to be
handed out next when all of them are, and every completion returns. -/
structure Good (r : Role) (s : State) : Prop where
  published : (r.own s.queue).published =
    countWhile (fun i => decide (i ∈ s.completed)) s.pointers.length % (s.queue.depth * 2)
  reserved : (r.own s.queue).reserved = s.pointers.length % (s.queue.depth * 2)
  all : (∀ i, i < s.pointers.length → i ∈ s.completed) → (r.own s.queue).published = (r.own s.queue).reserved
  returns : s.failed = false

theorem Inv.good (h : Inv r d s base got given) : Good r s := by
  have hcount := h.tracks.countWhile_eq (fun i => decide_eq_true_iff) h.own_le
  refine ⟨?_, ?_, ?_, h.alive⟩
  · rw [hcount, h.depth]
    exact h.published
  · rw [h.depth]
    exact h.reserved
  · intro hall
    -- the first operation that is not complete was not handed out
    have hbase : base = s.pointers.length := by
      rcases lt_or_eq_of_le h.own_le with hlt | heq
      · exact absurd (hall base hlt) h.tracks.first
      · exact heq
    rw [h.published, h.reserved, hbase]

/-- The queue after `n` pointers for pushes were handed out and `k` completed in order, with the completions in
`completed`. -/
def outstanding (d n k : Nat) (completed : List Nat) : State where
  queue := { depth := d, direction := .PPU2SPU, push1 := { published := k, reserved := n } }
  pointers := (range n).map Int.ofNat
  completed := completed

theorem depth_of_initialize {queue buffer size depth direction : BitVec 32} {q : LFQueue}
    (h : cellSyncLFQueueInitialize queue buffer size depth direction = .ok q) : 0 < depth.toNat := by
  rw [Nat.pos_iff_ne_zero]
  intro hzero
  have hdepth : depth = 0 ∨ depth.toNat > 0x7fff := .inl (BitVec.eq_of_toNat_eq hzero)
  unfold cellSyncLFQueueInitialize at h
  split at h
  · cases h
  split at h
  · cases h
  split at h
  · cases h
  · cases h

end Armsx3.Cell.LfQueue
