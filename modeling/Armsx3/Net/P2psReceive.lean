import Armsx3.Net.P2psStream

/-!
# P2psReceive — datagrams from anywhere

`recv_data` hands a socket every datagram whose signature, length, port and checksum are right.  The loop of
`send_ack` follows the stored datagrams by their numbers, which wrap.
-/

namespace Armsx3.P2ps

open Transition OrderedMap List Option Nat

/-! ## The loop of `send_ack` -/

def storedBytes (m : OrderedMap Nat Bytes) : Nat := (m.entries.map fun x => x.2.length).sum

theorem wrap_lt (n : Nat) : wrap n < 2 ^ 64 := mod_lt _ (by decide)

theorem wrap_of_lt {n : Nat} (h : n < 2 ^ 64) : wrap n = n := mod_eq_of_lt h

theorem wrap_add (m n : Nat) : wrap (wrap m + n) = wrap (m + n) := by
  unfold wrap
  omega

section FinalAck

variable {m : OrderedMap Nat Bytes} {visited : List (Nat × Bytes)}

theorem length_le_of_visited (hnd : visited.Nodup) (hsub : ∀ x ∈ visited, x ∈ m) : visited.length ≤ m.entries.length :=
  (hnd.subperm hsub).length_le

theorem bytes_le_of_visited (hnd : visited.Nodup)
    (hsub : ∀ x ∈ visited, x ∈ m) : (visited.map fun x => x.2.length).sum ≤ storedBytes m := by
  have ⟨l, hperm, hsl⟩ := hnd.subperm hsub
  rw [← (hperm.map fun x : Nat × Bytes => x.2.length).sum_eq]
  exact (hsl.map fun x : Nat × Bytes => x.2.length).sum_le_sum fun _ _ => zero_le _

/-- `visited` are the entries the loop has come by; from each of them it has gone on by less than `2^64`
bytes, so that it is not there again. -/
theorem finalAck_visited (hne : ∀ x ∈ m, x.2 ≠ [])
    (hbytes : storedBytes m < 2 ^ 64) {fuel a : Nat} (hnd : visited.Nodup) (hsub : ∀ x ∈ visited, x ∈ m)
    (hback : ∀ x ∈ visited, ∃ n, 0 < n ∧ n ≤ (visited.map fun y => y.2.length).sum ∧ wrap (x.1 + n) = a)
    (hfuel : m.entries.length < fuel + visited.length) : (finalAck m fuel a).isSome := by
  induction fuel generalizing a visited with
  | zero =>
    have hle := length_le_of_visited hnd hsub
    omega
  | succ n ih =>
    rw [finalAck]
    cases hfind : m.find? a with
    | none => rfl
    | some d =>
      have hmem := find?_eq_some.mp hfind
      have hpos := length_pos_iff.mpr (hne _ hmem)
      have hnew : (a, d) ∉ visited := by
        intro hv
        have ⟨n, hn, hle, hw⟩ := hback _ hv
        have hsum := bytes_le_of_visited hnd hsub
        unfold wrap at hw
        omega
      apply ih (nodup_cons.mpr ⟨hnew, hnd⟩)
      · intro x hx
        rcases mem_cons.mp hx with rfl | hx
        · exact hmem
        · exact hsub x hx
      · intro x hx
        rw [map_cons, sum_cons]
        rcases mem_cons.mp hx with rfl | hx
        · exact ⟨d.length, hpos, le_add_right _ _, rfl⟩
        · have ⟨n, hn, hle, hw⟩ := hback x hx
          refine ⟨n + d.length, by omega, by simp only; omega, ?_⟩
          rw [← add_assoc, ← wrap_add, hw]
      · rw [length_cons]
        omega

theorem finalAck_isSome (hne : ∀ x ∈ m, x.2 ≠ []) (hbytes : storedBytes m < 2 ^ 64) (a : Nat) :
    (finalAck m (m.entries.length + 1) a).isSome :=
  finalAck_visited hne hbytes nodup_nil (fun _ hx => absurd hx not_mem_nil)
    (fun _ hx => absurd hx not_mem_nil) (lt_succ_self _)

theorem finalAck_empty {a : Nat} (h : (a, []) ∈ m) (ha : a < 2 ^ 64) (fuel : Nat) : finalAck m fuel a = none := by
  induction fuel with
  | zero => rfl
  | succ n ih =>
    rw [finalAck, find?_eq_some.mpr h]
    show finalAck m n (wrap (a + 0)) = none
    rw [add_zero, wrap_of_lt ha]
    exact ih

end FinalAck

/-! ## One socket and the world -/

/-- What `recv_data` lets through, apart from what it compares: any flags and numbers, and data that fit in
a datagram. -/
def Packet.Valid (p : Packet) : Prop := p.seq < 2 ^ 64 ∧ headerSize + p.data.length ≤ 65535

instance (p : Packet) : Decidable p.Valid := inferInstanceAs (Decidable (_ ∧ _))

inductive Call
  | datagram (p : Packet)
  | recv (len : Nat) (nonblocking : Bool)
  | send (buf : Bytes)
  | closeStream
deriving Repr

def callStep (s : Socket) : Call → Option Socket
  | .datagram p => if p.Valid then (handleConnected s p).map Prod.fst else none
  | .recv len nonblocking => (recvfrom s len nonblocking).map Prod.fst
  | .send buf => (sendto s buf).map Prod.fst
  | .closeStream => some { s with status := .disconnected }

structure Opened (s : Socket) : Prop where
  status : s.status = .handshaking ∨ s.status = .connected
  dataBegSeq : s.dataBegSeq < 2 ^ 64
  dataAvailable : s.dataAvailable = 0
  receivedData : s.receivedData = .empty

def receiver : System Socket Call := ⟨Opened, callStep⟩

def Stores (s : Socket) (p : Packet) : Prop :=
  s.status = .connected ∧ s.dataBegSeq ≤ p.seq ∧
  (p.flags = 0 ∨ p.flags = psh ∨ p.flags = ack ∨ p.flags = syn ∨ p.flags = syn ||| ack)

instance (s : Socket) (p : Packet) : Decidable (Stores s p) := inferInstanceAs (Decidable (_ ∧ _ ∧ _))

def HasData (s : Socket) : Call → Prop
  | .datagram p => Stores s p → p.data ≠ [] ∧ storedBytes s.receivedData + p.data.length < 2 ^ 64
  | _ => True

instance (s : Socket) (c : Call) : Decidable (HasData s c) :=
  match c with
  | .datagram _ => inferInstanceAs (Decidable (_ → _))
  | .recv _ _ | .send _ | .closeStream => isTrue trivial

/-! ## What is stored -/

structure Walkable (m : OrderedMap Nat Bytes) : Prop where
  key : ∀ x ∈ m, x.1 < 2 ^ 64
  nonempty : ∀ x ∈ m, x.2 ≠ []
  bytes : storedBytes m < 2 ^ 64

theorem walkable_empty : Walkable .empty :=
  ⟨fun _ hx => absurd hx not_mem_empty, fun _ hx => absurd hx not_mem_empty, by decide⟩

theorem storedBytes_emplace_le (m : OrderedMap Nat Bytes) (k : Nat) (d : Bytes) :
    storedBytes (m.emplace k d) ≤ storedBytes m + d.length :=
  m.sum_emplace_le (fun x => x.2.length) k d

variable {m : OrderedMap Nat Bytes} {x : Nat × Bytes}

theorem storedBytes_begin (h : m.begin? = some x) : storedBytes m = x.2.length + storedBytes m.eraseBegin := by
  have ⟨rest, hrest⟩ := List.head?_eq_some_iff.mp h
  show (m.entries.map _).sum = _ + (m.entries.tail.map _).sum
  rw [hrest, map_cons, sum_cons, tail_cons]

theorem Walkable.emplace (h : Walkable m) {k : Nat} {d : Bytes}
    (hk : k < 2 ^ 64) (hd : d ≠ []) (hb : storedBytes m + d.length < 2 ^ 64) : Walkable (m.emplace k d) := by
  have hle := storedBytes_emplace_le m k d
  exact ⟨forall_emplace h.key hk, forall_emplace h.nonempty hd, by omega⟩

theorem mem_of_mem_eraseBegin (hx : x ∈ m.eraseBegin) : x ∈ m := mem_of_mem_tail hx

theorem Walkable.eraseBegin (h : Walkable m) (hx : m.begin? = some x) : Walkable m.eraseBegin := by
  have hsum := storedBytes_begin hx
  have hbytes := h.bytes
  exact ⟨fun y hy => h.key y (mem_of_mem_eraseBegin hy), fun y hy => h.nonempty y (mem_of_mem_eraseBegin hy), by omega⟩

theorem Walkable.split (h : Walkable m) {key : Nat} {d : Bytes} {n : Nat}
    (hm : m.begin? = some (key, d)) (hn : n < d.length) :
    Walkable (m.emplace (wrap (key + n)) (d.drop n)).eraseBegin := by
  have hlen : (d.drop n).length = d.length - n := length_drop
  have hle := storedBytes_emplace_le m (wrap (key + n)) (d.drop n)
  have hbytes := h.bytes
  have hmem : ∀ x ∈ (m.emplace (wrap (key + n)) (d.drop n)).eraseBegin, x.1 < 2 ^ 64 ∧ x.2 ≠ [] := by
    intro x hx
    rcases mem_emplace.mp (mem_of_mem_eraseBegin hx) with hx | ⟨rfl, _⟩
    · exact ⟨h.key x hx, h.nonempty x hx⟩
    · exact ⟨wrap_lt _, ne_nil_of_length_pos (by rw [hlen]; omega)⟩
  refine ⟨fun x hx => (hmem x hx).1, fun x hx => (hmem x hx).2, ?_⟩
  rcases begin?_emplace_cases (k := wrap (key + n)) (v := d.drop n) hm with hb | hb
  all_goals
    have hsum := storedBytes_begin hb
    simp only at hsum
    omega

theorem Walkable.recvLoop {m m' : OrderedMap Nat Bytes} (h : Walkable m) {fuel left : Nat}
    {buf buf' : Bytes} (hr : P2ps.recvLoop fuel left m buf = some (m', buf')) : Walkable m' := by
  induction fuel generalizing left m buf with
  | zero =>
    cases left with
    | zero =>
      cases hr
      exact h
    | succ => cases hr
  | succ n ih =>
    cases left with
    | zero =>
      cases hr
      exact h
    | succ =>
      rw [P2ps.recvLoop] at hr
      split at hr
      · cases hr
      rename_i key d hm
      apply ih _ hr
      split
      · exact h.split hm (by omega)
      · exact h.eraseBegin hm

variable {s s' : Socket}

theorem Walkable.recvfrom (h : Walkable s.receivedData) {len : Nat}
    {nonblocking : Bool} {r : RecvResult} (hr : P2ps.recvfrom s len nonblocking = some (s', r)) :
    Walkable s'.receivedData := by
  rw [P2ps.recvfrom] at hr
  split at hr
  · have hs : s' = s := by
      split at hr
      · cases hr; rfl
      split at hr
      · cases hr; rfl
      · split at hr
        · cases hr; rfl
        · cases hr; rfl
    rw [hs]
    exact h
  · have ⟨⟨m, buf⟩, hm, heq⟩ := map_eq_some_iff.mp hr
    cases heq
    exact h.recvLoop hm

theorem sendto_receivedData {buf : Bytes} {r : SendResult} {ps : List Packet}
    (h : sendto s buf = some (s', r, ps)) : s'.receivedData = s.receivedData := by
  rw [sendto] at h
  split at h
  · cases h; rfl
  split at h
  · cases h; rfl
  · have ⟨_, _, heq⟩ := map_eq_some_iff.mp h
    cases heq
    rfl

/-! ## `handle_connected` -/

variable {s : Socket}

theorem sendAck_isSome (h : Walkable s.receivedData) : (sendAck s).isSome := by
  have ⟨a, ha⟩ := isSome_iff_exists.mp (finalAck_isSome h.nonempty h.bytes s.dataBegSeq)
  rw [sendAck, ha]
  rfl

theorem sendAck_receivedData {ps : List Packet} (h : sendAck s = some (s', ps)) : s'.receivedData = s.receivedData := by
  have ⟨_, _, hb⟩ := bind_eq_some_iff.mp h
  have ⟨_, _, heq⟩ := map_eq_some_iff.mp hb
  cases heq
  rfl

theorem handleConnected_cases (s : Socket) (p : Packet) :
    (∃ s', handleConnected s p = some (s', []) ∧ s'.receivedData = s.receivedData) ∨
    (∃ s', handleConnected s p = sendAck s' ∧ s'.receivedData = s.receivedData) ∨
    (Stores s p ∧ handleConnected s p =
      sendAck { s with receivedData := s.receivedData.emplace p.seq p.data }) := by
  rw [handleConnected]
  split
  · exact .inl ⟨s, rfl, rfl⟩
  split
  · split
    · exact .inr (.inl ⟨_, rfl, rfl⟩)
    · exact .inl ⟨s, rfl, rfl⟩
  split
  next hflags =>
    split
    · split
      · exact .inr (.inl ⟨s, rfl, rfl⟩)
      · exact .inl ⟨s, rfl, rfl⟩
    · exact .inr (.inr ⟨⟨by tauto, by omega, hflags⟩, rfl⟩)
  · split
    · exact .inl ⟨_, rfl, rfl⟩
    · exact .inl ⟨s, rfl, rfl⟩

theorem Walkable.stored (h : Walkable s.receivedData) {p : Packet} (hp : p.Valid)
    (hd : HasData s (.datagram p)) (hs : Stores s p) : Walkable (s.receivedData.emplace p.seq p.data) :=
  have ⟨hne, hbytes⟩ := hd hs
  h.emplace hp.1 hne hbytes

theorem handleConnected_isSome (h : Walkable s.receivedData) {p : Packet} (hp : p.Valid)
    (hd : HasData s (.datagram p)) : (handleConnected s p).isSome := by
  rcases handleConnected_cases s p with ⟨s', heq, _⟩ | ⟨s', heq, hmap⟩ | ⟨hs, heq⟩
  · rw [heq]
    rfl
  · rw [heq]
    exact sendAck_isSome (hmap ▸ h)
  · rw [heq]
    exact sendAck_isSome (h.stored hp hd hs)

theorem walkable_step {c : Call} (h : Walkable s.receivedData) (hc : HasData s c)
    (hstep : callStep s c = some s') : Walkable s'.receivedData := by
  cases c with
  | datagram p =>
    have ⟨hp, hstep⟩ := ite_none_right_eq_some.mp hstep
    have ⟨⟨t, ps⟩, ht, heq⟩ := map_eq_some_iff.mp hstep
    cases heq
    rcases handleConnected_cases s p with ⟨t', hn, hmap⟩ | ⟨t', hn, hmap⟩ | ⟨hs, hn⟩
    · cases ht.symm.trans hn
      exact hmap ▸ h
    · rw [sendAck_receivedData (hn.symm.trans ht), hmap]
      exact h
    · rw [sendAck_receivedData (hn.symm.trans ht)]
      exact h.stored hp hc hs
  | recv =>
    have ⟨⟨t, r⟩, ht, heq⟩ := map_eq_some_iff.mp hstep
    cases heq
    exact h.recvfrom ht
  | send =>
    have ⟨⟨t, r, ps⟩, ht, heq⟩ := map_eq_some_iff.mp hstep
    cases heq
    rw [sendto_receivedData ht]
    exact h
  | closeStream =>
    cases hstep
    exact h

/-- As long as every datagram that is stored has data, each call of `handle_connected` returns. -/
theorem handleConnected_returns {s : Socket} (hs : (receiver.restrict HasData).Reachable s) {p : Packet}
    (hp : p.Valid) (hd : HasData s (.datagram p)) : (handleConnected s p).isSome := by
  have hw : Walkable s.receivedData := by
    apply hs.invariant
    · intro s₀ h₀
      rw [h₀.receivedData]
      exact walkable_empty
    · intro t c t' ht hstep
      have ⟨hc, hstep⟩ := System.step_restrict.mp hstep
      exact walkable_step ht hc hstep
  exact handleConnected_isSome hw hp hd

def connectedSocket : Socket := ⟨.connected, 1, 0, .empty, 1⟩

theorem opened_connectedSocket : Opened connectedSocket := ⟨.inr rfl, by decide, rfl, rfl⟩

theorem handleConnected_returns_second : ∃ s, (receiver.restrict HasData).Reachable s ∧
    s.receivedData.entries = [(1, [7])] ∧ (handleConnected s ⟨psh, 2, 0, [8]⟩).isSome := by
  have ⟨s, hs, hP⟩ := System.Reachable.exists_of_run (M := receiver.restrict HasData)
    opened_connectedSocket [.datagram ⟨0, 1, 0, [7]⟩]
    (fun s => s.receivedData.entries = [(1, [7])] ∧ HasData s (.datagram ⟨psh, 2, 0, [8]⟩))
    (by decide)
  exact ⟨s, hs, hP.1, handleConnected_returns hs (by decide) hP.2⟩

/-- A datagram without data that has the next number: the loop of `send_ack` stays at it for ever. -/
theorem handleConnected_hangs : receiver.Reachable connectedSocket ∧
    (⟨0, 1, 0, []⟩ : Packet).Valid ∧ Stores connectedSocket ⟨0, 1, 0, []⟩ ∧
    (∀ fuel, finalAck (connectedSocket.receivedData.emplace 1 []) fuel connectedSocket.dataBegSeq =
      none) ∧ handleConnected connectedSocket ⟨0, 1, 0, []⟩ = none := by
  refine ⟨System.Reachable.of_init opened_connectedSocket, by decide, by decide, ?_, by decide⟩
  exact finalAck_empty (mem_emplace.mpr (.inr ⟨rfl, fun _ hy =>
    absurd hy not_mem_empty⟩)) (by decide)

end Armsx3.P2ps
