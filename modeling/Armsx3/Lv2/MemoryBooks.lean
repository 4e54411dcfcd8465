import Armsx3.Lv2.MemoryContainer

/-!
# MemoryBooks — what a system call can do to the memory containers

An object is charged to a container or given back by it, and a container is created or destroyed.
-/

namespace Armsx3.Lv2.MemoryContainer

open OrderedMap Nat Option List Containers

theorem u32_of_lt {n : Nat} (h : n < 2 ^ 32) : u32 n = n := mod_eq_of_lt h

/-! ## Containers -/

namespace Containers

variable {m m' : Containers} {c : Cid} {ct : Container} {n : Nat}

theorem get_set (d : Cid) : (m.set ct c).get d = if d = c then some ct else m.get d := by
  cases c with
  | none =>
    cases d with
    | none => rfl
    | some => rfl
  | some c =>
    cases d with
    | none => rfl
    | some d =>
      show (m.cts.assign c ct).find? d = _
      rw [find?_assign]
      simp only [some.injEq]
      rfl

theorem set_set {ct' : Container} : (m.set ct c).set ct' c = m.set ct' c := by
  cases c with
  | none => rfl
  | some c =>
    show { m with cts := (m.cts.assign c ct).assign c ct' } = _
    rw [assign_assign]
    rfl

theorem set_self (h : m.get c = some ct) : m.set ct c = m := by
  cases c with
  | none =>
    have hdct := some.inj h
    rw [← hdct]
    rfl
  | some c =>
    show { m with cts := m.cts.assign c ct } = m
    rw [assign_self h]

def Bounded (m : Containers) : Prop :=
  ∀ c ct, m.get c = some ct → ct.used ≤ ct.size ∧ ct.size < 2 ^ 32

def charge (m : Containers) (c : Cid) (ct : Container) (n : Nat) : Containers :=
  m.set { ct with used := ct.used + n } c

def refund (m : Containers) (c : Cid) (ct : Container) (n : Nat) : Containers :=
  m.set { ct with used := ct.used - n } c

theorem take_cases (hb : m.Bounded) (h : m.take c n = some m') :
    ∃ ct, m.get c = some ct ∧ ct.used + n ≤ ct.size ∧ n < 2 ^ 32 ∧ m' = m.charge c ct n := by
  have ⟨ct, hct, htake⟩ := bind_eq_some_iff.mp h
  have ⟨hused, hsize⟩ := hb c ct hct
  -- the difference does not wrap
  have hleft : u32 (ct.size + 2 ^ 32 - ct.used) = ct.size - ct.used := by
    unfold u32
    omega
  unfold Container.take at htake
  rw [hleft] at htake
  by_cases hn : n ≤ ct.size - ct.used
  · have hn32 : u32 n = n := u32_of_lt (by omega)
    have hsum : u32 (ct.used + n) = ct.used + n := u32_of_lt (by omega)
    simp only [hn, if_true, hn32, hsum] at htake
    split at htake
    · cases htake
    · exact ⟨ct, hct, by omega, by omega, (some.inj htake).symm⟩
  · simp only [hn, if_false, if_true] at htake
    cases htake

theorem free_cases (h : m.free c n = some m') : ∃ ct, m.get c = some ct ∧ n ≤ ct.used ∧ m' = m.refund c ct n := by
  have ⟨ct, hct, hfree⟩ := bind_eq_some_iff.mp h
  have ⟨ct', hct', ht⟩ := map_eq_some_iff.mp hfree
  unfold Container.free at hct'
  split at hct'
  next hn =>
    split at hct'
    next hn32 =>
      cases hct'
      rw [hn32] at ht
      exact ⟨ct, hct, hn, ht.symm⟩
    · cases hct'
  · split at hct'
    · omega
    · cases hct'

theorem free_charge (hct : m.get c = some ct) (h : (m.charge c ct n).free c n = some m') : m' = m := by
  have ⟨ct', hct', hn, hm'⟩ := free_cases h
  have hcharged : (m.charge c ct n).get c = some { ct with used := ct.used + n } := by
    rw [charge, get_set, if_pos rfl]
  rw [hcharged] at hct'
  cases hct'
  rw [hm', refund, charge, set_set]
  simp only [Nat.add_sub_cancel]
  exact set_self hct

end Containers

/-! ## What a system call does -/

def Syscall.sharedSize : Syscall → Nat
  | .allocateShared _ size _ _ => size
  | .allocateSharedFromContainer _ size _ _ _ => size
  | .allocateSharedExt _ size _ _ _ _ _ => size
  | .allocateSharedFromContainerExt _ size _ _ _ _ _ _ => size
  | _ => 0

/-- What a call changes that does not fail; `shared` is the size of shared memory it is given. -/
inductive Effect (hasRoot : Bool) (shared : Nat) (s : State) : State → Prop
  | alloc (c ct n addr) (hct : s.containers.get c = some ct) (hn : ct.used + n ≤ ct.size)
      (haddr : s.allocs.find? addr = none) :
      Effect hasRoot shared s
        { s with
          containers := s.containers.charge c ct n
          allocs := s.allocs.emplace addr ⟨c, n, n⟩ }
  | allocFree (addr a ct) (ha : s.allocs.find? addr = some a)
      (hct : s.containers.get a.ct = some ct) (hn : a.size ≤ ct.used) :
      Effect hasRoot shared s
        { s with
          containers := s.containers.refund a.ct ct a.size
          allocs := s.allocs.erase addr }
  | create (id size) (hid : s.containers.cts.find? id = none)
      (hn : s.containers.dct.used + roundDown size ≤ s.containers.dct.size)
      (hsize : roundDown size < 2 ^ 32) :
      Effect hasRoot shared s
        { s with
          containers := {
            dct := { s.containers.dct with used := s.containers.dct.used + roundDown size }
            cts := s.containers.cts.emplace id ⟨roundDown size, 0, size⟩ } }
  | destroy (id ct) (hct : s.containers.cts.find? id = some ct) (hused : ct.used = 0)
      (hn : ct.size ≤ s.containers.dct.used) :
      Effect hasRoot shared s
        { s with
          containers := {
            dct := { s.containers.dct with used := s.containers.dct.used - ct.size }
            cts := s.containers.cts.erase id } }
  | memNew (c ct n key id) (hct : s.containers.get c = some ct)
      (hn : ct.used + u32 shared ≤ ct.size) (hfresh : s.mems.find? n = none) :
      Effect hasRoot shared s
        { s with
          containers := s.containers.charge c ct (u32 shared)
          mems := s.mems.emplace n ⟨c, u32 shared, shared, key, [id], 0⟩ }
  | memSet (n m m') (hm : s.mems.find? n = some m)
      (hsame : m'.ct = m.ct ∧ m'.size = m.size ∧ m'.asked = m.asked) :
      Effect hasRoot shared s { s with mems := s.mems.assign n m' }
  | memFree (n m ct) (hm : s.mems.find? n = some m) (hct : s.containers.get m.ct = some ct)
      (hn : m.size ≤ ct.used) :
      Effect hasRoot shared s
        { s with containers := s.containers.refund m.ct ct m.size, mems := s.mems.erase n }
  | vmMap (c ct vsize psize i) (hct : s.containers.get c = some ct) (hn : ct.used + psize ≤ ct.size)
      (hi : s.vms.find? i = none) (hvsize : 0x2000000 ≤ vsize)
      (hlimit : s.totalVsize + vsize ≤ vsizeLimit hasRoot) :
      Effect hasRoot shared s
        { s with
          containers := s.containers.charge c ct psize
          vms := s.vms.emplace i ⟨c, vsize, psize, psize⟩
          totalVsize := s.totalVsize + vsize }
  | vmUnmap (i v ct) (hv : s.vms.find? i = some v) (hct : s.containers.get v.ct = some ct)
      (hn : v.psize ≤ ct.used) :
      Effect hasRoot shared s
        { s with
          containers := s.containers.refund v.ct ct v.psize
          vms := s.vms.erase i
          totalVsize := s.totalVsize - v.size }
  | vmAppend (i v ct n) (hv : s.vms.find? i = some v) (hct : s.containers.get v.ct = some ct)
      (hn : ct.used + n ≤ ct.size) :
      Effect hasRoot shared s
        { s with
          containers := s.containers.charge v.ct ct n
          vms := s.vms.assign i { v with psize := v.psize + n, asked := v.asked + n } }
  | vmReturn (i v ct n) (hv : s.vms.find? i = some v) (hct : s.containers.get v.ct = some ct)
      (hn : n ≤ v.psize) (hused : n ≤ ct.used) :
      Effect hasRoot shared s
        { s with
          containers := s.containers.refund v.ct ct n
          vms := s.vms.assign i { v with psize := v.psize - n, asked := v.asked - n } }

/-- A call leaves the state as it is or does one of these things, and the latter without an error. -/
def Outcome (hasRoot : Bool) (shared : Nat) (s : State) (answer : State × Option CellError) : Prop :=
  answer.1 = s ∨ (answer.2 = none ∧ Effect hasRoot shared s answer.1)

/-! ## What holds between two calls -/

/-- The bytes that a container has given to objects other than containers. -/
def State.held (s : State) (c : Cid) : Nat :=
  s.allocs.tally Alloc.ct Alloc.size c + s.mems.tally Mem.ct Mem.size c + s.vms.tally Vm.ct Vm.psize c

def Containers.children (m : Containers) (c : Cid) : Nat :=
  m.cts.tally (fun _ => (none : Cid)) Container.size c

/-- The counters are right; `held` is what the objects have got. -/
structure Books (m : Containers) (held : Cid → Nat) : Prop where
  account : ∀ c ct, m.get c = some ct → ct.used = held c + m.children c
  bounded : m.Bounded
  live : ∀ c, m.get c = none → held c = 0

structure Inv (hasRoot : Bool) (s : State) : Prop where
  books : Books s.containers s.held
  vsize : s.totalVsize = (s.vms.entries.map fun x => x.2.size).sum
  limit : s.totalVsize ≤ vsizeLimit hasRoot
  chunk : ∀ x ∈ s.vms, 0x2000000 ≤ x.2.size

theorem vsizeLimit_le (hasRoot : Bool) : vsizeLimit hasRoot ≤ 0x1E000000 := by
  cases hasRoot <;> decide

theorem Inv.length_vms {hasRoot : Bool} {s : State} (hi : Inv hasRoot s) : s.vms.entries.length < 16 := by
  have hsum : s.vms.entries.length * 0x2000000 ≤ (s.vms.entries.map fun x => x.2.size).sum := by
    have hall : ∀ n ∈ s.vms.entries.map fun x => x.2.size, 0x2000000 ≤ n := by
      intro n hn
      have ⟨x, hx, hxn⟩ := mem_map.mp hn
      exact hxn ▸ hi.chunk x hx
    have hcard := card_nsmul_le_sum _ _ hall
    rwa [length_map, smul_eq_mul] at hcard
  have hvsize := hi.vsize
  have hlimit := hi.limit
  have hle := vsizeLimit_le hasRoot
  omega

namespace Books

variable {m : Containers} {held held' : Cid → Nat} {c : Cid} {ct : Container} {n : Nat}

theorem children_set {ct' : Container} (hct : m.get c = some ct) (hsize : ct'.size = ct.size) :
    (m.set ct' c).children = m.children := by
  funext d
  cases c with
  | none => rfl
  | some id =>
    have hassign : (m.cts.assign id ct').tally (fun _ => (none : Cid)) Container.size d + _ = _ := tally_assign _ _ hct
    rw [hsize] at hassign
    exact add_right_cancel hassign

theorem children_some (m : Containers) (id : Nat) : m.children (some id) = 0 := by
  unfold children tally OrderedMap.charge
  simp

section

variable (hb : Books m held)
include hb

theorem set {ct' : Container} (hct : m.get c = some ct) (hsize : ct'.size = ct.size)
    (hle : ct'.used ≤ ct'.size) (hself : ct'.used + held c = held' c + ct.used)
    (hother : ∀ d, d ≠ c → held' d = held d) : Books (m.set ct' c) held' where
  account d ct1 h := by
    rw [children_set hct hsize]
    rw [get_set] at h
    split_ifs at h with hd
    · cases h
      have hused := hb.account c ct hct
      rw [hd]
      omega
    · rw [hother d hd, hb.account d ct1 h]
  bounded d ct1 h := by
    rw [get_set] at h
    split at h
    · cases h
      exact ⟨hle, hsize ▸ (hb.bounded c ct hct).2⟩
    · exact hb.bounded d ct1 h
  live d h := by
    rw [get_set] at h
    split at h
    · cases h
    next hd =>
      rw [hother d hd, hb.live d h]

theorem charge (hct : m.get c = some ct) (hn : ct.used + n ≤ ct.size)
    (hheld : ∀ d, held' d = held d + if c = d then n else 0) : Books (m.charge c ct n) held' := by
  have hc := hheld c
  rw [if_pos rfl] at hc
  refine hb.set hct rfl hn ?_ ?_
  · simp only
    omega
  · intro d hd
    rw [hheld, if_neg (Ne.symm hd), add_zero]

theorem refund (hct : m.get c = some ct) (hn : n ≤ ct.used)
    (hheld : ∀ d, held d = held' d + if c = d then n else 0) : Books (m.refund c ct n) held' := by
  have hc := hheld c
  rw [if_pos rfl] at hc
  refine hb.set hct rfl (le_trans (sub_le _ _) (hb.bounded c ct hct).1) ?_ ?_
  · simp only
    omega
  · intro d hd
    rw [hheld, if_neg (Ne.symm hd), add_zero]

theorem create {id asked : Nat} (hid : m.cts.find? id = none) (hn : m.dct.used + n ≤ m.dct.size) (hn32 : n < 2 ^ 32) :
    Books ⟨{ m.dct with used := m.dct.used + n }, m.cts.emplace id ⟨n, 0, asked⟩⟩ held where
  account d ct h := by
    cases d with
    | none =>
      cases h
      have hchild : (m.cts.emplace id ⟨n, 0, asked⟩).tally (fun _ => (none : Cid)) Container.size none = _ :=
        tally_emplace _ _ hid
      rw [if_pos rfl] at hchild
      have hused := hb.account none m.dct rfl
      unfold children at hused ⊢
      rw [hchild]
      simp only
      omega
    | some d =>
      rw [children_some]
      change (m.cts.emplace id ⟨n, 0, asked⟩).find? d = some ct at h
      rw [find?_emplace hid] at h
      split_ifs at h with hd
      · cases h
        rw [hd, hb.live (some id) hid]
      · have hused := hb.account (some d) ct h
        rw [children_some] at hused
        exact hused
  bounded d ct h := by
    cases d with
    | none =>
      cases h
      exact ⟨hn, (hb.bounded none m.dct rfl).2⟩
    | some d =>
      change (m.cts.emplace id ⟨n, 0, asked⟩).find? d = some ct at h
      rw [find?_emplace hid] at h
      split at h
      · cases h
        exact ⟨zero_le n, hn32⟩
      · exact hb.bounded (some d) ct h
  live d h := by
    cases d with
    | none => cases h
    | some d =>
      change (m.cts.emplace id ⟨n, 0, asked⟩).find? d = none at h
      rw [find?_emplace hid] at h
      split at h
      · cases h
      · exact hb.live (some d) h

theorem destroy {id : Nat} (hct : m.cts.find? id = some ct) (hused : ct.used = 0) (hn : ct.size ≤ m.dct.used) :
    Books ⟨{ m.dct with used := m.dct.used - ct.size }, m.cts.erase id⟩ held where
  account d ct' h := by
    cases d with
    | none =>
      cases h
      have hchild : m.children none = ct.size + _ := tally_erase _ _ hct
      have hdct := hb.account none m.dct rfl
      show m.dct.used - ct.size = held none + (m.cts.erase id).tally _ Container.size none
      omega
    | some d =>
      change (m.cts.erase id).find? d = some ct' at h
      rw [find?_erase] at h
      split at h
      · cases h
      · have hd := hb.account (some d) ct' h
        rw [children_some] at hd ⊢
        exact hd
  bounded d ct' h := by
    cases d with
    | none =>
      cases h
      have hle := hb.bounded none m.dct rfl
      exact ⟨by simp only; omega, hle.2⟩
    | some d =>
      change (m.cts.erase id).find? d = some ct' at h
      rw [find?_erase] at h
      split at h
      · cases h
      · exact hb.bounded (some d) ct' h
  live d h := by
    cases d with
    | none => cases h
    | some d =>
      change (m.cts.erase id).find? d = none at h
      rw [find?_erase] at h
      split_ifs at h with hd
      · have hzero := hb.account (some id) ct hct
        rw [hd]
        omega
      · exact hb.live (some d) h

end

end Books

end Armsx3.Lv2.MemoryContainer
