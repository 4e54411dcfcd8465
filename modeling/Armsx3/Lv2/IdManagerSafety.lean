import Armsx3.Lv2.IdManager

/-!
# IdManagerSafety — what handles promise

The value in the key of a slot is the last id issued for it.  A creation whose provider fails resets the key, and the
invalidation counter with it.
-/

namespace Armsx3.Lv2

open Function List Nat Transition Option

variable {τ : Type}

/-! ## The invalidation counter -/

variable {id : BitVec 32}

namespace IdTraits

variable (c : IdTraits τ)

def counter (id : BitVec 32) : Nat := id.toNat / 2 ^ c.first % 2 ^ c.bits

theorem getLsbD_mask (i : Nat) : c.mask.getLsbD i = (decide (c.first ≤ i) && decide (i < c.first + c.bits)) := by
  have hrange := c.range
  have hone : (1 : BitVec 32) <<< c.bits - 1 = BitVec.ofNat 32 (2 ^ c.bits - 1) := by
    apply BitVec.eq_of_toNat_eq
    have hpos : 0 < 2 ^ c.bits := Nat.two_pow_pos _
    rw [BitVec.toNat_sub, BitVec.toNat_shiftLeft, BitVec.toNat_ofNat]
    have h1 : (1 : BitVec 32).toNat = 1 := rfl
    rw [h1, shiftLeft_eq, one_mul]
    omega
  unfold mask
  rw [hone, BitVec.getLsbD_shiftLeft, BitVec.getLsbD_ofNat, testBit_two_pow_sub_one]
  by_cases hi : i < 32
  · by_cases hfirst : i < c.first
    · simp [hi, hfirst]
    · have hlt : i - c.first < 32 := by omega
      have hiff : (i - c.first < c.bits) ↔ i < c.first + c.bits := by omega
      simp [hi, hfirst, hlt, hiff, not_lt.mp hfirst]
  · have hout : ¬ i < c.first + c.bits := by omega
    simp [hi, hout]

theorem counter_testBit (id : BitVec 32) (j : Nat) :
    (c.counter id).testBit j = (decide (j < c.bits) && id.getLsbD (c.first + j)) := by
  unfold counter
  rw [testBit_mod_two_pow, testBit_div_two_pow, add_comm]
  rfl

theorem counter_eq_of_masked {a b : BitVec 32}
    (h : ∀ i, c.first ≤ i → i < c.first + c.bits → a.getLsbD i = b.getLsbD i) : c.counter a = c.counter b := by
  apply eq_of_testBit_eq
  intro j
  rw [counter_testBit, counter_testBit]
  by_cases hj : j < c.bits
  · rw [h (c.first + j) (by omega) (by omega)]
  · rw [decide_eq_false hj, Bool.false_and, Bool.false_and]

theorem counter_lt (id : BitVec 32) : c.counter id < 2 ^ c.bits := Nat.mod_lt _ (Nat.two_pow_pos _)

theorem counter_add (v : BitVec 32) : c.counter (v + (1 : BitVec 32) <<< c.first) = (c.counter v + 1) % 2 ^ c.bits := by
  have hrange := c.range
  by_cases hbits : c.bits = 0
  · unfold counter
    rw [hbits, pow_zero, mod_one, mod_one]
  have hfirst : c.first < 32 := by omega
  have hone : ((1 : BitVec 32) <<< c.first).toNat = 2 ^ c.first := by
    have hpow : 2 ^ c.first < 2 ^ 32 := Nat.pow_lt_pow_right (by decide) hfirst
    rw [BitVec.toNat_shiftLeft]
    have h1 : (1 : BitVec 32).toNat = 1 := rfl
    rw [h1, shiftLeft_eq, one_mul, mod_eq_of_lt hpow]
  have hsplit : 2 ^ 32 = 2 ^ c.first * 2 ^ (32 - c.first) := by
    rw [← pow_add]
    congr 1
    omega
  have hdvd : 2 ^ c.bits ∣ 2 ^ (32 - c.first) := pow_dvd_pow 2 (by omega)
  unfold counter
  rw [BitVec.toNat_add, hone, hsplit, mod_mul_right_div_self, mod_mod_of_dvd _ hdvd,
    Nat.add_div_right _ (Nat.two_pow_pos _), Nat.mod_add_mod]

variable {t : τ} {i : Nat}

theorem toNat_next (hi : i < c.count) : (c.next t i).toNat = (c.base t).toNat + c.step * i := by
  have hfits := c.fits t i hi
  unfold next
  rw [BitVec.toNat_add, BitVec.toNat_ofNat]
  omega

theorem next_getLsbD {i j : Nat} (hi : i < c.count) (hj : c.mask.getLsbD j = true) :
    (c.next t i).getLsbD j = false := by
  rw [getLsbD_mask, Bool.and_eq_true, decide_eq_true_eq, decide_eq_true_eq] at hj
  have hclear : c.counter (c.next t i) = 0 := by
    unfold counter
    rw [c.toNat_next hi]
    exact c.clear t i hi
  have hbit := c.counter_testBit (c.next t i) (j - c.first)
  have hsum : c.first + (j - c.first) = j := by omega
  rw [hclear, zero_testBit, hsum, decide_eq_true (by omega), Bool.true_and] at hbit
  exact hbit.symm

def IsId (t : τ) (i : Nat) (id : BitVec 32) : Prop := ∃ v, id = c.next t i ||| (v &&& c.mask)

theorem isId_next (t : τ) (i : Nat) : c.IsId t i (c.next t i) := ⟨0, by simp⟩

theorem counter_id (hi : i < c.count) (v : BitVec 32) : c.counter (c.next t i ||| (v &&& c.mask)) = c.counter v := by
  apply counter_eq_of_masked
  intro j h1 h2
  have hmask : c.mask.getLsbD j = true := by
    rw [getLsbD_mask, decide_eq_true h1, decide_eq_true h2]
    rfl
  rw [BitVec.getLsbD_or, BitVec.getLsbD_and, hmask, c.next_getLsbD hi hmask, Bool.false_or, Bool.and_true]

theorem IsId.strip {c : IdTraits τ} (h : c.IsId t i id) (hi : i < c.count) : id &&& ~~~c.mask = c.next t i := by
  rcases h with ⟨v, rfl⟩
  apply BitVec.eq_of_getLsbD_eq
  intro j hj
  rw [BitVec.getLsbD_and, BitVec.getLsbD_or, BitVec.getLsbD_and, BitVec.getLsbD_not]
  cases hmask : c.mask.getLsbD j with
  | true =>
    rw [c.next_getLsbD hi hmask]
    simp
  | false => simp [hj]

theorem IsId.slot {c : IdTraits τ} {t u : τ} {i j : Nat} (h : c.IsId t i id) (h' : c.IsId u j id)
    (hi : i < c.count) (hj : j < c.count) : i = j := by
  have heq := (h.strip hi).symm.trans (h'.strip hj)
  have hnat := congrArg BitVec.toNat heq
  rw [c.toNat_next hi, c.toNat_next hj] at hnat
  exact c.apart t u i hi j hj hnat

theorem mask_of_bits (h : c.bits = 0) : c.mask = 0 := by
  apply BitVec.eq_of_getLsbD_eq
  intro j _
  rw [getLsbD_mask, h]
  have hnone : ¬ (c.first ≤ j ∧ j < c.first + 0) := by omega
  simp only [BitVec.ofNat_eq_ofNat, BitVec.getLsbD_zero, ← Bool.decide_and, decide_eq_false hnone]

end IdTraits

/-! ## The invariant -/

/-- The counters of the ids issued for a slot go up by one. -/
def Counted (c : IdTraits τ) (ids : List (BitVec 32)) : Prop :=
  ∀ a x y, ids[a]? = some x → ids[a + 1]? = some y → c.counter y = (c.counter x + 1) % 2 ^ c.bits

variable {ids : List (BitVec 32)}

theorem Counted.concat {c : IdTraits τ} (h : Counted c ids)
    (hid : ∀ x, ids.getLast? = some x → c.counter id = (c.counter x + 1) % 2 ^ c.bits) : Counted c (ids ++ [id]) := by
  intro a x y hx hy
  by_cases hlast : a + 1 < ids.length
  · rw [getElem?_append_left (by omega)] at hx
    rw [getElem?_append_left hlast] at hy
    exact h a x y hx hy
  have hlen := (List.getElem?_eq_some_iff.mp hy).1
  rw [length_append, length_singleton] at hlen
  have heq : a + 1 = ids.length := by omega
  rw [getElem?_append_left (by omega)] at hx
  rw [heq, getElem?_concat_length] at hy
  cases hy
  apply hid
  rw [getLast?_eq_getElem?, ← heq]
  exact hx

theorem Counted.add {c : IdTraits τ} (h : Counted c ids) {a d : Nat} {x y : BitVec 32}
    (hx : ids[a]? = some x) (hy : ids[a + d]? = some y) : c.counter y = (c.counter x + d) % 2 ^ c.bits := by
  induction d generalizing y with
  | zero =>
    rw [add_zero, hx] at hy
    cases hy
    exact (mod_eq_of_lt (c.counter_lt x)).symm
  | succ d ih =>
    have hlen := (List.getElem?_eq_some_iff.mp hy).1
    have hz : ids[a + d]? = some ids[a + d] := getElem?_eq_getElem (by omega)
    rw [h (a + d) _ y hz hy, ih hz, mod_add_mod, add_assoc]

/-- An id comes back only after the counter has gone through all of its values. -/
theorem Counted.apart {c : IdTraits τ} (h : Counted c ids) {a b : Nat}
    (hab : a < b) (ha : ids[a]? = some id) (hb : ids[b]? = some id) : 2 ^ c.bits - 1 ≤ b - a - 1 := by
  have hb : ids[a + (b - a)]? = some id := by
    rw [Nat.add_sub_cancel' (Nat.le_of_lt hab)]
    exact hb
  have hsum := h.add ha hb
  by_contra hfew
  -- fewer issues would not bring the counter back
  by_cases hwrap : c.counter id + (b - a) < 2 ^ c.bits
  · rw [mod_eq_of_lt hwrap] at hsum
    omega
  · rw [mod_eq_sub_mod (by omega), mod_eq_of_lt (by omega)] at hsum
    omega

structure IdInv (c : IdTraits τ) (m : IdMap τ) : Prop where
  free : ∀ i, m.data i = none → (m.keys i).type = none
  live : ∀ i a, m.data i = some a →
    m.keys i = ⟨a.id, some a.type⟩ ∧ i < c.count ∧ i < m.highestIndex ∧ c.IsId a.type i a.id
  highest : m.highestIndex ≤ c.count
  /-- the slots above have never been used -/
  above : ∀ i, m.highestIndex ≤ i → m.data i = none ∧ m.issued i = []
  last : ∀ i id, (m.issued i).getLast? = some id → (m.keys i).value = id
  counted : ∀ i, Counted c (m.issued i)

variable {c : IdTraits τ} {m m' : IdMap τ} {t : τ} {i : Nat}

theorem IdInv.data_of_type (h : IdInv c m) (hfree : (m.keys i).type = none) : m.data i = none := by
  cases hd : m.data i with
  | none => rfl
  | some a =>
    rw [(h.live i a hd).1] at hfree
    cases hfree

structure Allocated (c : IdTraits τ) (m m' : IdMap τ) (t : τ) (i : Nat) (id : BitVec 32) : Prop where
  keys : m'.keys = update m.keys i ⟨id, some t⟩
  data : m'.data = m.data
  issued : m'.issued = m.issued
  slot : i < c.count ∧ m.data i = none
  highest : i < m'.highestIndex ∧ m.highestIndex ≤ m'.highestIndex ∧ m'.highestIndex ≤ c.count
  isId : c.IsId t i id
  counter : ∀ x, (m.issued i).getLast? = some x → c.counter id = (c.counter x + 1) % 2 ^ c.bits

theorem IdInv.nextId (h : IdInv c m) (hi : i < c.count) : c.IsId t i (m.nextId c t i) ∧
      ∀ x, (m.issued i).getLast? = some x → c.counter (m.nextId c t i) = (c.counter x + 1) % 2 ^ c.bits := by
  have hmask : (if c.bits ≠ 0 then c.mask else 0) = c.mask := by
    by_cases hbits : c.bits = 0
    · rw [if_neg (not_not.mpr hbits), c.mask_of_bits hbits]
    · rw [if_pos hbits]
  unfold IdMap.nextId
  rw [hmask]
  refine ⟨⟨_, rfl⟩, ?_⟩
  intro x hx
  rw [c.counter_id hi, c.counter_add, h.last i x hx]

theorem IdInv.allocateId (h : IdInv c m) (t : τ) :
    (∃ m' i id, m.allocateId c t = (m', some i) ∧ Allocated c m m' t i id) ∨
      (∃ highest, m.allocateId c t = ({ m with highestIndex := highest }, none) ∧ m.highestIndex ≤ highest ∧
        highest ≤ c.count ∧ ∀ i < c.count, (m.data i).isSome = true) := by
  have hhighest := h.highest
  unfold IdMap.allocateId
  by_cases hback : (!c.usesLowestId t && decide (m.highestIndex < c.count)) = true
  · rw [if_pos hback]
    rw [Bool.and_eq_true, decide_eq_true_eq] at hback
    have ⟨hdata, hissued⟩ := h.above m.highestIndex (le_refl _)
    refine .inl ⟨_, _, c.next t m.highestIndex, rfl, rfl, rfl, rfl, ⟨hback.2, hdata⟩, ?_, c.isId_next t _, ?_⟩
    · exact ⟨lt_succ_self _, le_succ _, hback.2⟩
    · intro x hx
      rw [hissued] at hx
      cases hx
  rw [if_neg hback]
  -- all slots have been given away before, or the type uses the lowest ids
  have hcount : (if c.usesLowestId t = true then c.count else m.highestIndex) = c.count := by
    by_cases hlow : c.usesLowestId t = true
    · rw [if_pos hlow]
    rw [if_neg hlow]
    have hge : ¬ m.highestIndex < c.count := by
      intro hlt
      apply hback
      rw [Bool.eq_false_iff.mpr hlow, decide_eq_true hlt]
      rfl
    omega
  simp only [hcount]
  cases hfind : m.freeSlot c with
  | some i =>
    have hmem := mem_range.mp (mem_of_find?_eq_some hfind)
    have hfound := find?_some hfind
    have htype := of_decide_eq_true hfound
    have ⟨hid, hcounter⟩ := h.nextId (t := t) hmem
    exact .inl ⟨_, i, _, rfl, rfl, rfl, rfl, ⟨hmem, h.data_of_type htype⟩, ⟨hmem, hhighest, le_refl _⟩, hid, hcounter⟩
  | none =>
    refine .inr ⟨c.count, rfl, hhighest, le_refl _, ?_⟩
    intro i hi
    have hnone := find?_eq_none.mp hfind i (mem_range.mpr hi)
    rw [decide_eq_true_eq] at hnone
    cases hd : m.data i with
    | none => exact absurd (h.free i hd) hnone
    | some => rfl

/-! ## Steps -/

theorem Allocated.provided (ha : Allocated c m m' t i id) (h : IdInv c m) : IdInv c (m'.place i t) := by
  have hkeys : ∀ j, (m'.place i t).keys j = if j = i then ⟨id, some t⟩ else m.keys j := by
    intro j
    show m'.keys j = _
    rw [ha.keys, update_apply]
  have hid : (m'.keys i).value = id := by rw [ha.keys, update_self]
  have hdata : ∀ j, (m'.place i t).data j = if j = i then some ⟨t, id⟩ else m.data j := by
    intro j
    show update m'.data i (some ⟨t, (m'.keys i).value⟩) j = _
    rw [hid, update_apply, ha.data]
  have hissued : ∀ j, (m'.place i t).issued j = if j = i then m.issued i ++ [id] else m.issued j := by
    intro j
    show update m'.issued i (m'.issued i ++ [(m'.keys i).value]) j = _
    rw [hid, update_apply, ha.issued]
  refine ⟨?_, ?_, ha.highest.2.2, ?_, ?_, ?_⟩
  · intro j hj
    rw [hdata] at hj
    rw [hkeys]
    split at hj
    · cases hj
    next hne =>
      rw [if_neg hne]
      exact h.free j hj
  · intro j a hj
    rw [hdata] at hj
    rw [hkeys]
    split at hj
    next heq =>
      cases hj
      rw [heq, if_pos rfl]
      exact ⟨rfl, ha.slot.1, ha.highest.1, ha.isId⟩
    next hne =>
      rw [if_neg hne]
      have ⟨hk, hc, hh, hi⟩ := h.live j a hj
      exact ⟨hk, hc, lt_of_lt_of_le hh ha.highest.2.1, hi⟩
  · intro j hj
    have hne : j ≠ i := fun heq => absurd ha.highest.1 (not_lt.mpr (heq ▸ hj))
    rw [hdata, hissued, if_neg hne, if_neg hne]
    exact h.above j (le_trans ha.highest.2.1 hj)
  · intro j x hx
    rw [hissued] at hx
    rw [hkeys]
    split at hx
    next heq =>
      rw [getLast?_concat] at hx
      cases hx
      rw [if_pos heq]
    next hne =>
      rw [if_neg hne]
      exact h.last j x hx
  · intro j
    rw [hissued]
    split
    · exact (h.counted i).concat ha.counter
    · exact h.counted j

theorem Allocated.failed (ha : Allocated c m m' t i id) (h : IdInv c m)
    (hvalue : (m.keys i).value = 0) : IdInv c (m'.setKey i {}) := by
  have hkeys : ∀ j, (m'.setKey i {}).keys j = if j = i then {} else m.keys j := by
    intro j
    show update m'.keys i {} j = _
    rw [ha.keys, update_idem, update_apply]
  have hdata : (m'.setKey i {}).data = m.data := ha.data
  have hissued : (m'.setKey i {}).issued = m.issued := ha.issued
  refine ⟨?_, ?_, ha.highest.2.2, ?_, ?_, ?_⟩
  · intro j hj
    rw [hdata] at hj
    rw [hkeys]
    split
    · rfl
    · exact h.free j hj
  · intro j a hj
    rw [hdata] at hj
    have hne : j ≠ i := by
      intro heq
      rw [heq, ha.slot.2] at hj
      cases hj
    have ⟨hk, hc, hh, hi⟩ := h.live j a hj
    rw [hkeys, if_neg hne]
    exact ⟨hk, hc, lt_of_lt_of_le hh ha.highest.2.1, hi⟩
  · intro j hj
    rw [hdata, hissued]
    exact h.above j (le_trans ha.highest.2.1 hj)
  · intro j x hx
    rw [hissued] at hx
    rw [hkeys]
    split_ifs with heq
    · rw [heq] at hx
      exact hvalue.symm.trans (h.last i x hx)
    · exact h.last j x hx
  · intro j
    rw [hissued]
    exact h.counted j

theorem IdInv.release (h : IdInv c m) (i : Nat) : IdInv c (m.release i) := by
  have hkeys : ∀ j, (m.release i).keys j = if j = i then { m.keys i with type := none } else m.keys j :=
    fun j => update_apply _ _ _ _
  have hdata : ∀ j, (m.release i).data j = if j = i then none else m.data j := fun j => update_apply _ _ _ _
  refine ⟨?_, ?_, h.highest, ?_, ?_, h.counted⟩
  · intro j hj
    rw [hdata] at hj
    rw [hkeys]
    split at hj
    next heq =>
      rw [if_pos heq]
    next hne =>
      rw [if_neg hne]
      exact h.free j hj
  · intro j a hj
    rw [hdata] at hj
    split at hj
    · cases hj
    next hne =>
      rw [hkeys, if_neg hne]
      exact h.live j a hj
  · intro j hj
    have ⟨hd, hi⟩ := h.above j hj
    refine ⟨?_, hi⟩
    rw [hdata]
    split
    · rfl
    · exact hd
  · intro j x hx
    rw [hkeys]
    split_ifs with heq
    · rw [heq] at hx
      exact h.last i x hx
    · exact h.last j x hx

/-- A provider may fail only in a slot whose key holds no id. -/
def KeepsCounter (c : IdTraits τ) (m : IdMap τ) : IdEvent τ → Prop
  | .create t false =>
    match (m.allocateId c t).2 with
    | some i => (m.keys i).value = 0
    | none => True
  | _ => True

instance (c : IdTraits τ) (m : IdMap τ) : (e : IdEvent τ) → Decidable (KeepsCounter c m e)
  | .create t false =>
    match h : (m.allocateId c t).2 with
    | some i => decidable_of_iff ((m.keys i).value = 0) (by simp only [KeepsCounter, h])
    | none => .isTrue (by simp only [KeepsCounter, h])
  | .create _ true => .isTrue trivial
  | .remove .. => .isTrue trivial
  | .removeVerify .. => .isTrue trivial
  | .withdraw .. => .isTrue trivial

theorem IdInv.createId (h : IdInv c m) (t : τ) (provided : Bool)
    (hkeeps : KeepsCounter c m (.create t provided)) : IdInv c (m.createId c t provided) := by
  unfold IdMap.createId
  rcases h.allocateId t with ⟨m', i, id, heq, ha⟩ | ⟨highest, heq, hle, hcount, _⟩
  · rw [heq]
    cases provided with
    | true => exact ha.provided h
    | false =>
      have hkeeps : match (m.allocateId c t).2 with
        | some i => (m.keys i).value = 0
        | none => True := hkeeps
      rw [heq] at hkeeps
      exact ha.failed h hkeeps
  · rw [heq]
    refine ⟨h.free, ?_, hcount, ?_, h.last, h.counted⟩
    · intro j a hj
      have ⟨hk, hc, hh, hi⟩ := h.live j a hj
      exact ⟨hk, hc, lt_of_lt_of_le hh hle, hi⟩
    · intro j hj
      exact h.above j (le_trans hle hj)

/-! ## Handles -/

theorem IdInv.found_without_bits (h : IdInv c m) {a : IdObject τ} (hbits : c.bits = 0)
    (hindex : c.getIndex t id = i) (hdata : m.data i = some a) (htype : a.type = t) : a.id = id := by
  have ⟨_, hcount, _, hisId⟩ := h.live i a hdata
  have hmask := c.mask_of_bits hbits
  have hid : a.id = c.next t i := by
    rcases hisId with ⟨v, hv⟩
    rw [hv, hmask, htype]
    simp
  unfold IdTraits.getIndex at hindex
  simp only [hmask] at hindex
  split_ifs at hindex with hdiv
  · omega
  rw [ne_eq, not_not] at hdiv
  have hself : id &&& ~~~(0 : BitVec 32) = id := by
    rw [show ~~~(0 : BitVec 32) = BitVec.allOnes 32 from rfl, BitVec.and_allOnes]
  rw [hself] at hdiv hindex
  have hfits := c.fits t i hcount
  have hprod : c.step * i = (id - c.base t).toNat := by
    rw [← hindex]
    exact Nat.mul_div_cancel' (Nat.dvd_of_mod_eq_zero hdiv)
  rw [hid]
  apply BitVec.eq_of_toNat_eq
  rw [c.toNat_next hcount, hprod, BitVec.toNat_sub]
  rw [hprod, BitVec.toNat_sub] at hfits
  omega

variable [DecidableEq τ]

theorem IdInv.removeVerify (h : IdInv c m) (t : τ) (id : BitVec 32) (equal : Bool) :
    IdInv c (m.removeVerify c t id equal) := by
  unfold IdMap.removeVerify
  simp only []
  split
  · exact h
  split
  · split
    · exact h.release _
    · exact h
  · exact h

theorem IdInv.safe (h : IdInv c m) : IdSafe c m where
  distinct := by
    intro i j a b ha hb hid
    have ⟨_, hi, _, hia⟩ := h.live i a ha
    have ⟨_, hj, _, hjb⟩ := h.live j b hb
    rw [← hid] at hjb
    exact hia.slot hjb hi hj
  found := by
    intro t id a hfind
    have ⟨i, hindex, hdata⟩ := bind_eq_some_iff.mp hfind
    unfold IdMap.findIndex at hindex
    split at hindex
    · cases hindex
    have ⟨hcond, rfl⟩ := ite_some_none_eq_some.mp hindex
    rw [Bool.and_eq_true, Bool.and_eq_true, Bool.or_eq_true, Bool.or_eq_true, decide_eq_true_eq, decide_eq_true_eq,
      decide_eq_true_eq] at hcond
    have ⟨hkey, _, _, _⟩ := h.live _ a hdata
    have htype : a.type = t := by
      rcases hcond.1.2 with hsingle | hsame
      · exact c.alone hsingle a.type t
      · rw [hkey] at hsame
        exact some.inj hsame
    refine ⟨⟨_, hdata⟩, htype, ?_⟩
    rcases hcond.2 with hbits | hvalue
    · exact h.found_without_bits hbits rfl hdata htype
    · rw [hkey] at hvalue
      exact hvalue
  exhausted := by
    intro t hnone
    rcases h.allocateId t with ⟨m', i, id, heq, _⟩ | ⟨_, _, _, _, hall⟩
    · rw [heq] at hnone
      cases hnone
    · exact hall
  reissued := fun i a b id hab ha hb => (h.counted i).apart hab ha hb

theorem handles_safe (c : IdTraits τ) {m : IdMap τ} (hm : ((idSystem c).restrict (KeepsCounter c)).Reachable m) :
    IdSafe c m := by
  apply IdInv.safe
  apply hm.invariant
  · rintro m rfl
    refine ⟨fun _ _ => rfl, ?_, zero_le _, fun _ _ => ⟨rfl, rfl⟩, ?_, ?_⟩
    · intro i a ha
      cases ha
    · intro i id hid
      cases hid
    · intro i a x y hx
      cases hx
  · intro m e m' hinv hstep
    have ⟨hkeeps, hstep⟩ := System.step_restrict.mp hstep
    cases e with
    | create t provided =>
      cases hstep
      exact hinv.createId t provided hkeeps
    | remove t id | withdraw t id =>
      cases hstep
      exact hinv.removeVerify t id true
    | removeVerify t id equal =>
      cases hstep
      exact hinv.removeVerify t id equal

def oneSlot : IdTraits Bool where
  base t := if t then 0x85000000 else 0x8d000000
  step := 0x100
  count := 1
  first := 0
  bits := 8
  usesLowestId _ := false
  single := false
  step_pos := by decide
  range := by decide
  fits := by decide
  clear := by decide
  apart := by decide
  alone := nofun

theorem idSystem_init (c : IdTraits τ) : (idSystem c).init {} := rfl

/-- The slot changes hands between two types. -/
theorem handles_safe_two_types : ∃ m, ((idSystem oneSlot).restrict (KeepsCounter oneSlot)).Reachable m ∧
    (m.issued 0 = [0x85000000, 0x8d000001, 0x85000002] ∧ m.find oneSlot true 0x85000002 = some ⟨true, 0x85000002⟩ ∧
      m.find oneSlot true 0x85000000 = none) ∧ IdSafe oneSlot m := by
  have ⟨m, hm, hrun⟩ := System.Reachable.exists_of_run
    (M := (idSystem oneSlot).restrict (KeepsCounter oneSlot)) (idSystem_init oneSlot)
    [.create true true, .remove true 0x85000000, .create false true, .withdraw false 0x8d000001, .create true true,
      .create true false]
    (fun m => m.issued 0 = [0x85000000, 0x8d000001, 0x85000002] ∧
      m.find oneSlot true 0x85000002 = some ⟨true, 0x85000002⟩ ∧ m.find oneSlot true 0x85000000 = none)
    (by decide +kernel)
  exact ⟨m, hm, hrun, handles_safe oneSlot hm⟩

/-- A creation that fails between two others makes the last one get the id of the first. -/
theorem handle_reissued : ∃ m, (idSystem oneSlot).Reachable m ∧
    (m.issued 0 = [0x85000000, 0x85000001, 0x85000001] ∧ ¬ 2 ^ oneSlot.bits - 1 ≤ 2 - 1 - 1) :=
  System.Reachable.exists_of_run (idSystem_init oneSlot)
    [.create true true, .remove true 0x85000000, .create true true, .remove true 0x85000001, .create true false,
      .create true true] _ (by decide +kernel)

end Armsx3.Lv2
