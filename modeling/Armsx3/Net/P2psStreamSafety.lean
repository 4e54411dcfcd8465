import Armsx3.Net.P2psReceive

/-!
# P2psStreamSafety — the reader gets what the writer sent, in order

The datagrams a side has sent cut its stream into segments that do not overlap.  What the other side has
stored are segments of these, the first of which may have been read in part.
-/

namespace Armsx3.P2ps

open Transition Reassembly Function OrderedMap List Option Nat

def Sent (net : List Packet) (x : Nat × Bytes) : Prop := ∃ p ∈ net, p.data ≠ [] ∧ x = (p.seq, p.data)

structure Sender (start curSeq : Nat) (stream : Bytes) (net : List Packet) : Prop where
  next : curSeq = start + stream.length
  bound : curSeq < 2 ^ 64
  cut : Cut start stream (Sent net)
  control : ∀ p ∈ net, p.data = [] → p.seq < start

/-- What the other side has made of it, apart from the count of what it can read. -/
structure Received (start : Nat) (stream : Bytes) (net : List Packet) (s : Socket) (given : Bytes) :
    Prop where
  status : s.status ≠ .handshaking
  low : start ≤ s.dataBegSeq
  high : s.dataBegSeq ≤ start + stream.length
  given : given = stream.take (s.dataBegSeq - start)
  buffered : Buffered (Sent net) s.dataBegSeq s.receivedData

structure Receiver (start : Nat) (stream : Bytes) (net : List Packet) (s : Socket) (given : Bytes) : Prop
    extends Received start stream net s given where
  available : Available s.receivedData s.dataBegSeq s.dataAvailable

section

variable {start curSeq : Nat} {stream given : Bytes} {net ps : List Packet} {s : Socket}

theorem Receiver.append (h : Receiver start stream net s given) (more : Bytes) (ps : List Packet) :
    Receiver start (stream ++ more) (net ++ ps) s given := by
  have hhigh := h.high
  refine ⟨⟨h.status, h.low, ?_, ?_, ?_⟩, h.available⟩
  · rw [length_append]
    omega
  · rw [take_append_of_le_length (by omega)]
    exact h.given
  · apply h.buffered.mono
    rintro x ⟨p, hp, hx⟩
    exact ⟨p, mem_append_left _ hp, hx⟩

/-! ## Sending -/

section

variable (h : Sender start curSeq stream net)
include h

theorem Sender.control_append
    (hps : ∀ p ∈ ps, p.data = [] ∧ p.seq < start) : Sender start curSeq stream (net ++ ps) := by
  have hsent : ∀ x, Sent (net ++ ps) x → Sent net x := by
    rintro x ⟨p, hp, hne, hx⟩
    rcases mem_append.mp hp with hp | hp
    · exact ⟨p, hp, hne, hx⟩
    · exact absurd (hps p hp).1 hne
  refine ⟨h.next, h.bound, ?_, ?_⟩
  · exact ⟨fun x hx => h.cut.nonempty x (hsent x hx), fun x hx => h.cut.slice x (hsent x hx),
      fun x y hx hy => h.cut.apart x y (hsent x hx) (hsent y hy)⟩
  · intro p hp hd
    rcases mem_append.mp hp with hp | hp
    · exact h.control p hp hd
    · exact (hps p hp).2

theorem Sender.segment {d : Bytes} (hd : d ≠ []) (hb : curSeq + d.length < 2 ^ 64) :
    Sender start (curSeq + d.length) (stream ++ d) (net ++ [⟨0, curSeq, 0, d⟩]) := by
  refine ⟨?_, hb, ?_, ?_⟩
  · rw [length_append, h.next]
    omega
  · apply h.cut.extend hd
    rintro x ⟨p, hp, hne, hx⟩
    rcases mem_append.mp hp with hp | hp
    · exact .inl ⟨p, hp, hne, hx⟩
    rw [mem_singleton] at hp
    rw [hp] at hx
    right
    rw [hx, h.next]
  · intro p hp hd'
    rcases mem_append.mp hp with hp | hp
    · exact h.control p hp hd'
    · rw [mem_singleton] at hp
      rw [hp] at hd'
      exact absurd hd' hd

theorem Sender.sendLoop {curSeq' fuel : Nat} {buf : Bytes}
    (hb : curSeq + buf.length < 2 ^ 64) (hloop : P2ps.sendLoop fuel curSeq buf = some (curSeq', ps)) :
    Sender start curSeq' (stream ++ buf) (net ++ ps) := by
  induction fuel generalizing curSeq stream buf net ps with
  | zero =>
    cases buf with
    | nil =>
      cases hloop
      rw [append_nil, append_nil]
      exact h
    | cons => cases hloop
  | succ n ih =>
    cases buf with
    | nil =>
      cases hloop
      rw [append_nil, append_nil]
      exact h
    | cons b bs =>
      have ⟨p, hp, hrest⟩ := bind_eq_some_iff.mp hloop
      have ⟨⟨c, qs⟩, hq, heq⟩ := map_eq_some_iff.mp hrest
      cases heq
      generalize hlen : min (b :: bs).length maxDataLen = len at hp hq
      have hmax : maxDataLen = 65497 := rfl
      have hcons : (b :: bs).length = bs.length + 1 := rfl
      have htake : ((b :: bs).take len).length = len := by
        rw [length_take]
        omega
      have hpeq : p = ⟨0, curSeq, 0, (b :: bs).take len⟩ := by
        rw [generateU2sPacket] at hp
        split at hp
        · exact (Option.some.inj hp).symm
        · cases hp
      rw [wrap_of_lt (by omega)] at hq
      have hseg := h.segment (d := (b :: bs).take len) (ne_nil_of_length_pos (by omega)) (by omega)
      rw [htake] at hseg
      have hdrop : ((b :: bs).drop len).length = (b :: bs).length - len := length_drop
      have hdone := ih hseg (by omega) hq
      rw [append_assoc, take_append_drop, append_assoc] at hdone
      rw [hpeq]
      exact hdone

end

/-! ## Receiving -/

theorem Received.walkable (h : Received start stream net s given)
    (hs : Sender start curSeq stream net) : Walkable s.receivedData := by
  have hnext := hs.next
  have hbound := hs.bound
  have hsum : storedBytes s.receivedData ≤ stream.length := h.buffered.sum_length_le hs.cut
  refine ⟨fun x hx => ?_, h.buffered.nonempty, by omega⟩
  have hstop := (h.buffered.slice hs.cut hx).stop_le
  unfold stop at hstop
  omega

variable {m : OrderedMap Nat Bytes}

theorem reached_finalAck {beg a b fuel : Nat} (hs : Sender start curSeq stream net) (hb : Buffered (Sent net) beg m)
    (hbeg : beg ≤ start + stream.length) (ha : Reached m beg a) (hf : finalAck m fuel a = some b) :
    Reached m beg b ∧ ∀ x ∈ m, x.1 ≠ b := by
  induction fuel generalizing a with
  | zero => cases hf
  | succ n ih =>
    rw [finalAck] at hf
    split at hf
    next hnone =>
      cases hf
      exact ⟨ha, find?_eq_none.mp hnone⟩
    rename_i d hd
    have hnext := ha.next (find?_eq_some.mp hd)
    have hle := Reached.le_length hnext hb hs.cut hbeg
    have hn := hs.next
    have hbound := hs.bound
    rw [wrap_of_lt (by omega)] at hf
    exact ih hnext hf

def Answered (start : Nat) (stream : Bytes) (net : List Packet) (given : Bytes) (curSeq : Nat)
    (r : Option (Socket × List Packet)) : Prop :=
  ∃ s' ps, r = some (s', ps) ∧ Receiver start stream net s' given ∧ s'.curSeq = curSeq ∧
    ∀ q ∈ ps, q.data = [] ∧ q.seq = 0

theorem Received.sendAck (h : Received start stream net s given) (hs : Sender start curSeq stream net) :
    Answered start stream net given s.curSeq (P2ps.sendAck s) := by
  have hw := h.walkable hs
  have ⟨a, ha⟩ := isSome_iff_exists.mp (finalAck_isSome hw.nonempty hw.bytes s.dataBegSeq)
  have ⟨hreach, hend⟩ := reached_finalAck hs h.buffered h.high reached_self ha
  have hle := hreach.1
  have hlast := Reached.le_length hreach h.buffered hs.cut h.high
  have hnext := hs.next
  have hbound := hs.bound
  have hcount : wrap (a + 2 ^ 64 - s.dataBegSeq) = a - s.dataBegSeq := by
    unfold wrap
    omega
  refine ⟨{ s with dataAvailable := a - s.dataBegSeq }, [⟨ack, 0, a, []⟩], ?_, ?_, rfl, ?_⟩
  · rw [P2ps.sendAck, ha, ← hcount]
    rfl
  · exact ⟨{ h with }, hreach.available h.buffered hs.cut hend⟩
  · intro q hq
    rw [mem_singleton.mp hq]
    exact ⟨rfl, rfl⟩

section

variable (h : Receiver start stream net s given)
include h

theorem Receiver.answered : Answered start stream net given s.curSeq (some (s, [])) :=
  ⟨s, [], rfl, h, rfl, fun _ hq => absurd hq not_mem_nil⟩

theorem Receiver.disconnected : Receiver start stream net { s with status := .disconnected } given :=
  ⟨⟨Status.noConfusion, h.low, h.high, h.given, h.buffered⟩, h.available⟩

theorem Receiver.handleConnected (hs : Sender start curSeq stream net) {p : Packet} (hp : p ∈ net) :
    Answered start stream net given s.curSeq (P2ps.handleConnected s p) := by
  rw [P2ps.handleConnected]
  split
  · exact h.answered
  rw [if_neg h.status]
  split
  · split
    · split
      · exact h.toReceived.sendAck hs
      · exact h.answered
    rename_i hseq
    -- a datagram without data has a number below the stream
    have hdata : p.data ≠ [] := by
      intro hnil
      have hctl := hs.control p hp hnil
      have hlow := h.low
      omega
    have hbuf := h.buffered.emplace hs.cut ⟨p, hp, hdata, rfl⟩ (Nat.le_of_not_lt hseq)
    have hrec : Received start stream net { s with receivedData := s.receivedData.emplace p.seq p.data } given :=
      { h with buffered := hbuf }
    exact hrec.sendAck hs
  · split
    · exact h.disconnected.answered
    · exact h.answered

end

/-! ## Reading -/

theorem recvLoop_zero (fuel : Nat) (m : OrderedMap Nat Bytes) (buf : Bytes) :
    recvLoop fuel 0 m buf = some (m, buf) := by
  cases fuel <;> rfl

theorem mem_taken {beg n : Nat} {d : Bytes} (hb : Buffered (Sent net) beg m) (hc : Cut start stream (Sent net))
    (hm : m.begin? = some (beg, d)) (hn : 0 < n) (hle : n ≤ d.length) (hbound : beg + n < 2 ^ 64) (y : Nat × Bytes) :
    y ∈ (if d.length ≠ n then m.emplace (wrap (beg + n)) (d.drop n) else m).eraseBegin ↔
      (y ∈ m ∧ y.1 ≠ beg) ∨ (n < d.length ∧ y = (beg + n, d.drop n)) := by
  rw [wrap_of_lt hbound]
  split
  · have hlt : beg < beg + n := by omega
    have hfree : ∀ z ∈ m, z.1 ≠ beg + n := by
      intro z hz heq
      have hstop := hb.stop_le hc (begin?_mem hm) hz (by simp only; omega)
      simp only [stop] at hstop
      omega
    rw [mem_eraseBegin (begin?_emplace hm hlt), mem_emplace]
    constructor
    · rintro ⟨hy | ⟨hy, _⟩, hyk⟩
      · exact .inl ⟨hy, hyk⟩
      · exact .inr ⟨by omega, hy⟩
    · rintro (⟨hy, hyk⟩ | ⟨_, hy⟩)
      · exact ⟨.inl hy, hyk⟩
      · exact ⟨.inr ⟨hy, hfree⟩, by rw [hy]; simp only; omega⟩
  · rw [mem_eraseBegin hm]
    constructor
    · exact .inl
    · rintro (hy | ⟨hlt, _⟩)
      · exact hy
      · exact absurd hlt (by omega)

theorem recvLoop_spec (hs : Sender start curSeq stream net) {fuel beg avail : Nat} (left : Nat)
    (given buf : Bytes) (hb : Buffered (Sent net) beg m)
    (ha : Available m beg avail) (hleft : left ≤ avail) (hstart : start ≤ beg)
    (hread : given ++ buf = stream.take (beg - start)) (hfuel : m.entries.length ≤ fuel) :
    ∃ m' buf', recvLoop fuel left m buf = some (m', buf') ∧ Buffered (Sent net) (beg + left) m' ∧
      Available m' (beg + left) (avail - left) ∧ given ++ buf' = stream.take (beg + left - start) := by
  induction fuel generalizing left beg avail m buf with
  | zero =>
    cases left with
    | zero => exact ⟨m, buf, rfl, hb, ha, hread⟩
    | succ =>
      have ⟨d, hd, _⟩ := hb.begin?_eq (ha.1 beg (le_refl _) (by omega))
      have hpos := length_pos_of_mem hd
      omega
  | succ n ih =>
    cases left with
    | zero => exact ⟨m, buf, rfl, hb, ha, hread⟩
    | succ left =>
      have ⟨d, hd, hm⟩ := hb.begin?_eq (ha.1 beg (le_refl _) (by omega))
      have hslice := hb.slice hs.cut hd
      have hpos : 0 < d.length := hb.length_pos hd
      have hstop : beg + d.length ≤ start + stream.length := hslice.stop_le
      have hnext := hs.next
      have hbound := hs.bound
      rw [recvLoop, hm]
      simp only
      generalize hgive : min d.length (left + 1) = give
      have hmem := mem_taken hb hs.cut hm (n := give) (by omega) (by omega) (by omega)
      have hb' := hb.consume hs.cut hd (by omega) hmem
      have ha' := ha.consume hd (by omega) (by omega) hmem
      have hread' : given ++ (buf ++ d.take give) = stream.take (beg + give - start) := by
        have htake := (hslice.take give).take_stop
        simp only [stop, length_take] at htake
        rw [min_eq_left (by omega : give ≤ d.length)] at htake
        rw [htake, ← hread, append_assoc]
      generalize hm' : (if d.length ≠ give then m.emplace (wrap (beg + give)) (d.drop give)
        else m).eraseBegin = m' at hb' ha' ⊢
      have hdone : beg + give + (left + 1 - give) = beg + (left + 1) := by omega
      have hcount : avail - give - (left + 1 - give) = avail - (left + 1) := by omega
      by_cases hwhole : d.length ≤ left + 1
      · -- the whole entry is taken, and there is one less
        have hlen : m'.entries.length ≤ n := by
          rw [← hm', if_neg (by omega)]
          show m.entries.tail.length ≤ n
          rw [length_tail]
          omega
        have hrest := ih (left + 1 - give) _ hb' ha' (by omega) (by omega) hread' hlen
        rw [hdone, hcount] at hrest
        exact hrest
      · have hzero : left + 1 - give = 0 := by omega
        rw [hzero, recvLoop_zero]
        rw [hzero] at hdone hcount
        rw [add_zero] at hdone
        rw [hdone] at hb' ha' hread'
        exact ⟨m', _, rfl, hb', hcount ▸ ha', hread'⟩

theorem Receiver.recvfrom (h : Receiver start stream net s given) (hs : Sender start curSeq stream net)
    (len : Nat) (nonblocking : Bool) : ∃ s' r, P2ps.recvfrom s len nonblocking = some (s', r) ∧
      Receiver start stream net s' (given ++ r.data) ∧ s'.curSeq = s.curSeq := by
  have hself : ∀ r : RecvResult, r.data = [] → ∃ s' r', some (s, r) = some (s', r') ∧
      Receiver start stream net s' (given ++ r'.data) ∧ s'.curSeq = s.curSeq := by
    intro r hr
    refine ⟨s, r, rfl, ?_, rfl⟩
    rw [hr, append_nil]
    exact h
  rw [P2ps.recvfrom]
  split
  · split
    · exact hself _ rfl
    split
    · exact hself _ rfl
    · split
      · exact hself _ rfl
      · exact hself _ rfl
  obtain ⟨m', buf', hloop, hb, ha, hread⟩ := recvLoop_spec hs (min s.dataAvailable len) given []
    h.buffered h.available (min_le_left _ _) h.low
    (by rw [append_nil]; exact h.given) (le_refl _)
  have hlow := h.low
  have hlast := h.available.le_length h.buffered hs.cut h.high
  have hnext := hs.next
  have hbound := hs.bound
  generalize hgive : min s.dataAvailable len = give at *
  have hwrap : wrap (s.dataBegSeq + give) = s.dataBegSeq + give := wrap_of_lt (by omega)
  simp only [hloop, hwrap, map_some]
  refine ⟨_, _, rfl, ⟨⟨h.status, ?_, ?_, hread, hb⟩, ha⟩, rfl⟩
  · show start ≤ s.dataBegSeq + give
    omega
  · show s.dataBegSeq + give ≤ start + stream.length
    omega

theorem Sender.sendto (h : Sender start s.curSeq stream net) {buf : Bytes}
    (hb : s.curSeq + buf.length < 2 ^ 64) {s' : Socket} {r : SendResult}
    (hsend : P2ps.sendto s buf = some (s', r, ps)) :
    Sender start s'.curSeq (stream ++ if r = .accepted then buf else []) (net ++ ps) ∧
      ∃ n, s' = { s with curSeq := n } := by
  rw [P2ps.sendto] at hsend
  split at hsend
  · cases hsend
    rw [if_neg (by decide), append_nil, append_nil]
    exact ⟨h, _, rfl⟩
  split at hsend
  · cases hsend
    rw [if_neg (by decide), append_nil, append_nil]
    exact ⟨h, _, rfl⟩
  · obtain ⟨⟨c, qs⟩, hloop, heq⟩ := map_eq_some_iff.mp hsend
    cases heq
    exact ⟨h.sendLoop hb hloop, c, rfl⟩

end

/-! ## Both directions -/

structure Inv (start : Side → Nat) (s : State) : Prop where
  start_pos : ∀ i, 0 < start i
  sender : ∀ i, Sender (start i) (s.sock i).curSeq (s.sent i) (s.net i)
  receiver : ∀ i, Receiver (start i.peer) (s.sent i.peer) (s.net i.peer) (s.sock i) (s.given i)

theorem Side.peer_peer (i : Side) : i.peer.peer = i := by cases i <;> rfl

theorem Side.peer_ne (i : Side) : i.peer ≠ i := by cases i <;> decide

theorem Side.eq_or_eq_peer (i j : Side) : j = i ∨ j = i.peer := by
  cases i <;> cases j <;> decide

theorem Inv.call {start : Side → Nat} {s s' : State} (h : Inv start s) (i : Side) (more : Bytes)
    (ps : List Packet) (hsock : s'.sock i.peer = s.sock i.peer) (hnet : s'.net i.peer = s.net i.peer)
    (hsent : s'.sent i.peer = s.sent i.peer) (hgiven : s'.given i.peer = s.given i.peer)
    (hmore : s'.sent i = s.sent i ++ more) (hps : s'.net i = s.net i ++ ps)
    (hsender : Sender (start i) (s'.sock i).curSeq (s.sent i ++ more) (s.net i ++ ps))
    (hreceiver : Receiver (start i.peer) (s.sent i.peer) (s.net i.peer) (s'.sock i) (s'.given i)) : Inv start s' := by
  refine ⟨h.start_pos, fun j => ?_, fun j => ?_⟩
  · rcases Side.eq_or_eq_peer i j with rfl | rfl
    · rw [hmore, hps]
      exact hsender
    · rw [hsock, hsent, hnet]
      exact h.sender i.peer
  · rcases Side.eq_or_eq_peer i j with rfl | rfl
    · rw [hsent, hnet]
      exact hreceiver
    have hr := (h.receiver i.peer).append more ps
    rw [Side.peer_peer] at hr ⊢
    rw [hsock, hgiven, hmore, hps]
    exact hr

theorem inv_step {start : Side → Nat} {s s' : State} {e : Event} (h : Inv start s)
    (hstep : step s e = some s') : Inv start s' := by
  cases e with
  | send i buf =>
    have ⟨hbound, hstep⟩ := ite_none_right_eq_some.mp hstep
    have ⟨⟨sock, r, ps⟩, hsend, heq⟩ := map_eq_some_iff.mp hstep
    have ⟨hsender, n, hsock⟩ := (h.sender i).sendto hbound hsend
    have hr := h.receiver i
    cases heq
    apply h.call i (if r = .accepted then buf else []) ps <;> simp only [update_self, update_of_ne i.peer_ne]
    · exact hsender
    · rw [hsock]
      exact ⟨{ hr with }, hr.available⟩
  | recv i len nonblocking =>
    have ⟨⟨sock, r⟩, hrecv, heq⟩ := map_eq_some_iff.mp hstep
    have ⟨sock', r', hrecv', hr, hcur⟩ := (h.receiver i).recvfrom (h.sender i.peer) len nonblocking
    cases hrecv.symm.trans hrecv'
    cases heq
    apply h.call i [] [] <;> simp only [update_self, update_of_ne i.peer_ne, append_nil]
    · rw [hcur]
      exact h.sender i
    · exact hr
  | deliver i =>
    have ⟨p, hp, hmap⟩ := bind_eq_some_iff.mp hstep
    have ⟨⟨sock, ps⟩, hhandle, heq⟩ := map_eq_some_iff.mp hmap
    have ⟨sock', ps', hhandle', hr, hcur, hctl⟩ := (h.receiver i).handleConnected (h.sender i.peer) (mem_of_getElem? hp)
    cases hhandle.symm.trans hhandle'
    cases heq
    apply h.call i [] ps <;> simp only [update_self, update_of_ne i.peer_ne, append_nil]
    · rw [hcur]
      apply (h.sender i).control_append
      intro q hq
      have ⟨hd, hseq⟩ := hctl q hq
      exact ⟨hd, hseq ▸ h.start_pos i⟩
    · exact hr
  | closeStream i =>
    cases hstep
    apply h.call i [] [] <;> simp only [update_self, update_of_ne i.peer_ne, append_nil]
    · exact h.sender i
    · exact (h.receiver i).disconnected

theorem inv_initial {start : Side → Nat} {s : State} (h : Connected start s) : Inv start s := by
  have hsent : ∀ i x, ¬ Sent (s.net i) x := by
    rintro i x ⟨p, hp, hne, _⟩
    exact hne (h.net i p hp).1
  refine ⟨h.start_pos, fun i => ⟨?_, ?_, ?_, ?_⟩, fun i => ⟨⟨?_, ?_, ?_, ?_, ?_⟩, ?_⟩⟩
  · rw [h.curSeq, h.sent]
    rfl
  · rw [h.curSeq]
    exact h.start_lt i
  · exact ⟨fun x hx => absurd hx (hsent i x), fun x hx => absurd hx (hsent i x), fun x _ hx => absurd hx (hsent i x)⟩
  · intro p hp _
    exact (h.net i p hp).2
  · rw [h.status]
    exact Status.noConfusion
  · exact le_of_eq (h.dataBegSeq i).symm
  · rw [h.dataBegSeq]
    exact le_add_right _ _
  · rw [h.given, h.sent, take_nil]
  · rw [h.receivedData]
    exact buffered_empty
  · rw [h.receivedData, h.dataAvailable]
    exact available_empty

/-- What one side has read is a beginning of what the other has sent, and `data_available` counts the bytes that can
be read without a gap. -/
theorem stream_in_order {s : State} (hs : system.Reachable s) (i : Side) : s.given i <+: s.sent i.peer ∧
    Available (s.sock i).receivedData (s.sock i).dataBegSeq (s.sock i).dataAvailable ∧
    (∀ p ∈ s.net i.peer, (handleConnected (s.sock i) p).isSome) ∧
    ∀ len nonblocking, (recvfrom (s.sock i) len nonblocking).isSome := by
  have ⟨start, h⟩ : ∃ start, Inv start s := by
    apply hs.invariant
    · intro s₀ h₀
      have ⟨start, hc⟩ := h₀
      exact ⟨start, inv_initial hc⟩
    · intro t e t' ht hstep
      have ⟨start, h⟩ := ht
      exact ⟨start, inv_step h hstep⟩
  have hr := h.receiver i
  refine ⟨?_, hr.available, ?_, ?_⟩
  · rw [hr.given]
    exact take_prefix _ _
  · intro p hp
    have ⟨s', ps, heq, _⟩ := hr.handleConnected (h.sender i.peer) hp
    rw [heq]
    rfl
  · intro len nonblocking
    have ⟨s', r, heq, _⟩ := hr.recvfrom (h.sender i.peer) len nonblocking
    rw [heq]
    rfl

def connectedState : State :=
  ⟨fun _ => connectedSocket, fun _ => [⟨syn, 0, 0, []⟩], fun _ => [], fun _ => []⟩

theorem connected_connectedState : Connected (fun _ => 1) connectedState where
  start_pos _ := by decide
  start_lt _ := by decide
  status _ := rfl
  curSeq _ := rfl
  dataBegSeq _ := rfl
  dataAvailable _ := rfl
  receivedData _ := rfl
  net _ p hp := by
    rw [mem_singleton.mp hp]
    exact ⟨rfl, by decide⟩
  sent _ := rfl
  given _ := rfl

/-- Two writes arrive in the wrong order and twice, with reads that split the first one. -/
theorem stream_in_order_reordered : ∃ s, system.Reachable s ∧ s.given .b = [1, 2, 3] ∧
    s.sent .a = [1, 2, 3, 4, 5] ∧ s.given .b <+: s.sent .a := by
  have ⟨s, hs, hP⟩ := System.Reachable.exists_of_run (M := system) ⟨_, connected_connectedState⟩
    [.send .a [1, 2], .send .a [3, 4, 5], .deliver .b 2, .deliver .b 0, .deliver .b 1, .recv .b 1 true,
      .deliver .b 1, .deliver .b 2, .recv .b 2 true]
    (fun s => s.given .b = [1, 2, 3] ∧ s.sent .a = [1, 2, 3, 4, 5]) (by decide)
  exact ⟨s, hs, hP.1, hP.2, (stream_in_order hs .b).1⟩

end Armsx3.P2ps
