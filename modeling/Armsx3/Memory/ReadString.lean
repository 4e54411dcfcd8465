import Armsx3.Library.Loop
import Armsx3.Memory.BlockCalls

/-!
# ReadString — reading a guest string page by page

The end of the loop is the limit rounded up to a page, so a string without a terminator within its limit is read to the
end of the page its last character is on.
-/

namespace Armsx3.Vm

open Loop List Nat

def readable (pages : Pages) (addr : Nat) : Bool :=
  ~~~pages (addr / 4096) &&& (pageReadable ||| pageAllocated) == 0

def bytesAt (mem : Nat → UInt8) (addr n : Nat) : List UInt8 := (range' addr n).map mem

/-- `reads` are the ranges that were read, with their lengths. -/
structure ReadState where
  i : Word
  out : List UInt8 := []
  reads : List (Nat × Nat) := []
deriving DecidableEq

def readStep (pages : Pages) (mem : Nat → UInt8) (checkPages : Bool) (last : Word) (full : Bool) (s : ReadState) :
    Outcome ReadState (Bool × ReadState) :=
  if s.i ≤ last then
    if checkPages && !readable pages s.i.toNat then .done (false, s)
    else
      let space := min (last - s.i + 1).toNat (4096 - s.i.toNat % 4096)
      let chunk := bytesAt mem s.i.toNat space
      let part := chunk.takeWhile (· != 0)
      -- zeroes are looked for again in what was appended
      let out := s.out ++ part.takeWhile (· != 0)
      let s' : ReadState := ⟨s.i + BitVec.ofNat 32 space, out, s.reads ++ [(s.i.toNat, space)]⟩
      if out.length ≠ s.out.length + part.length ∨ part.length ≠ chunk.length then .done (true, s')
      else if s'.i = 0 then .done (full, s')
      else .next s'
  else .done (full, s)

def stringSize (addr maxSize : Word) : Word := if 0 - maxSize < addr then 0 - addr else maxSize

/-- `vm::read_string` returns the result, and `out_string` with it. -/
def ReadString (pages : Pages) (mem : Nat → UInt8) (checkPages : Bool) (addr maxSize : Word) (outString : List UInt8)
    (r : Bool × ReadState) : Prop :=
  if maxSize = 0 then r = (true, ⟨addr, outString, []⟩)
  else Returns (readStep pages mem checkPages (align (addr + stringSize addr maxSize) 4096 - 1)
    (stringSize addr maxSize == maxSize)) ⟨addr, outString, []⟩ r

/-! ## What is expected -/

def limit (addr maxSize : Word) : Nat := min maxSize.toNat (2 ^ 32 - addr.toNat)

/-- An unreadable page or the end of the address space comes before a terminator and the limit. -/
def Blocked (pages : Pages) (mem : Nat → UInt8) (addr maxSize : Word) : Prop :=
  ∃ k < maxSize.toNat, (∀ j < k, mem (addr.toNat + j) ≠ 0) ∧
    (addr.toNat + k = 2 ^ 32 ∨ readable pages (addr.toNat + k) = false)

structure RightResult (pages : Pages) (mem : Nat → UInt8) (addr maxSize : Word) (r : Bool × ReadState) : Prop where
  string : r.1 = true → r.2.out = (bytesAt mem addr.toNat (limit addr maxSize)).takeWhile (· != 0)
  reads : ∀ x ∈ r.2.reads, ∀ a, x.1 ≤ a → a < x.1 + x.2 → readable pages a = true
  fails : r.1 = false → Blocked pages mem addr maxSize

/-- The limit is at the end of a page, or there is a terminator behind it at the latest. -/
def Terminated (pages : Pages) (mem : Nat → UInt8) (addr maxSize : Word) : Prop :=
  if addr = 0 ∧ 2 ^ 32 - 4096 < maxSize.toNat then mem 0 = 0 ∨ readable pages 0 = false
  else (addr.toNat + maxSize.toNat) % 4096 = 0 ∨ (∃ k ≤ maxSize.toNat, mem (addr.toNat + k) = 0) ∨
    maxSize = 0 ∨ ∃ k < maxSize.toNat, addr.toNat + k = 2 ^ 32 ∨ readable pages (addr.toNat + k) = false

/-! ## The loop -/

section

variable {pages : Pages} {mem : Nat → UInt8} {addr maxSize : Word} {a n m : Nat} {s : ReadState}

theorem bytesAt_add (mem : Nat → UInt8) (a n m : Nat) : bytesAt mem a
    (n + m) = bytesAt mem a n ++ bytesAt mem (a + n) m := by
  rw [bytesAt, ← range'_append_1, map_append]
  rfl

theorem length_bytesAt : (bytesAt mem a n).length = n := by
  rw [bytesAt, length_map, length_range']

def Plain (mem : Nat → UInt8) (a n : Nat) : Prop := ∀ j < n, mem (a + j) ≠ 0

theorem takeWhile_cases (mem : Nat → UInt8) (a n : Nat) :
    ∃ z, Plain mem a z ∧ (bytesAt mem a n).takeWhile (· != 0) = bytesAt mem a z ∧
      (z = n ∨ z < n ∧ mem (a + z) = 0) := by
  induction n with
  | zero => exact ⟨0, nofun, rfl, .inl rfl⟩
  | succ n ih =>
    have ⟨z, hplain, hscan, hz⟩ := ih
    rw [bytesAt_add, takeWhile_append, hscan, length_bytesAt, length_bytesAt]
    rcases hz with hz | ⟨hz, hzero⟩
    · subst hz
      by_cases hzero : mem (a + z) = 0
      · refine ⟨z, hplain, ?_, .inr ⟨lt_succ_self z, hzero⟩⟩
        simp [bytesAt, hzero]
      refine ⟨z + 1, fun j hj => ?_, ?_, .inl rfl⟩
      · by_cases hlt : j < z
        · exact hplain j hlt
        · rw [show j = z by omega]
          exact hzero
      · rw [bytesAt_add]
        simp [bytesAt, hzero]
    · rw [if_neg (by omega)]
      exact ⟨z, hplain, rfl, .inr ⟨by omega, hzero⟩⟩

theorem stringSize_toNat (addr : Word) (hmax : maxSize ≠ 0) : (stringSize addr maxSize).toNat = limit addr maxSize := by
  unfold stringSize limit
  split <;> bv_omega

theorem limit_pos (addr : Word) (hmax : maxSize ≠ 0) : 0 < limit addr maxSize := by
  have hmax : maxSize.toNat ≠ 0 := fun h => hmax (BitVec.eq_of_toNat_eq h)
  unfold limit
  omega

theorem last_toNat (addr : Word) (hmax : maxSize ≠ 0) :
    ∃ e, (align (addr + stringSize addr maxSize) 4096 - 1).toNat + 1 = e ∧ e % 4096 = 0 ∧
      addr.toNat + limit addr maxSize ≤ e ∧ e < addr.toNat + limit addr maxSize + 4096 ∧ e ≤ 2 ^ 32 := by
  have hsize := stringSize_toNat addr hmax
  have hlimit := limit_pos addr hmax
  have hle : limit addr maxSize ≤ 2 ^ 32 - addr.toNat := min_le_right _ _
  have halign := align_cases (addr + stringSize addr maxSize) (k := 12) (a := 4096) rfl
  refine ⟨_, rfl, ?_⟩
  bv_omega

theorem takeWhile_plain (h : Plain mem a n) : (bytesAt mem a n).takeWhile (· != 0) = bytesAt mem a n := by
  have ⟨z, _, hscan, hz⟩ := takeWhile_cases mem a n
  rcases hz with hz | ⟨hz, hzero⟩
  · rw [hscan, hz]
  · exact absurd hzero (h z hz)

theorem takeWhile_zero (h : Plain mem a n) (hzero : mem (a + n) = 0) (hlt : n < m) :
    (bytesAt mem a m).takeWhile (· != 0) = bytesAt mem a n := by
  have ⟨z, hplain, hscan, hz⟩ := takeWhile_cases mem a m
  have hle := Nat.le_of_not_lt fun hnz => hplain n hnz hzero
  rcases hz with hz | ⟨_, hzero'⟩
  · omega
  · have hge := Nat.le_of_not_lt fun hzn => h z hzn hzero'
    rw [hscan, le_antisymm hle hge]

structure Reading (pages : Pages) (mem : Nat → UInt8) (addr : Nat) (i : Nat) (s : ReadState) : Prop where
  lo : addr ≤ i
  page : i = addr ∨ i % 4096 = 0
  out : s.out = bytesAt mem addr (i - addr)
  plain : Plain mem addr (i - addr)
  all : ∀ b, addr ≤ b → b < i → readable pages b = true
  reads : ∀ x ∈ s.reads, ∀ b, x.1 ≤ b → b < x.1 + x.2 → readable pages b = true

/-- What the call returns when the string may go on up to `e`. -/
structure Read (pages : Pages) (mem : Nat → UInt8) (addr maxSize : Word) (e : Nat) (r : Bool × ReadState) : Prop where
  ok : r.1 = true ↔ ¬Blocked pages mem addr maxSize
  out : r.1 = true → r.2.out = (bytesAt mem addr.toNat (e - addr.toNat)).takeWhile (· != 0)
  reads : ∀ x ∈ r.2.reads, ∀ b, x.1 ≤ b → b < x.1 + x.2 → readable pages b = true

theorem readStep_spec {last : Word} {full : Bool} {e : Nat} (he : last.toNat + 1 = e) (hmod : e % 4096 = 0)
    (hfull : full = true ↔ maxSize.toNat ≤ 2 ^ 32 - addr.toNat) (hlo : addr.toNat + limit addr maxSize ≤ e)
    (hhi : e < addr.toNat + limit addr maxSize + 4096) (hwhole : ¬(addr = 0 ∧ e = 2 ^ 32)) (hmax : maxSize ≠ 0)
    (h : Reading pages mem addr.toNat s.i.toNat s) (hle : s.i.toNat ≤ e) :
    (∃ r, readStep pages mem true last full s = .done r ∧ Read pages mem addr maxSize e r) ∨
      ∃ s', readStep pages mem true last full s = .next s' ∧ s.i.toNat < s'.i.toNat ∧ s'.i.toNat ≤ e ∧
        Reading pages mem addr.toNat s'.i.toNat s' := by
  have hlimit : 0 < limit addr maxSize ∧ limit addr maxSize = min maxSize.toNat (2 ^ 32 - addr.toNat) :=
    ⟨limit_pos addr hmax, rfl⟩
  -- everything up to the end was read
  have hend : ∀ s' : ReadState, Reading pages mem addr.toNat e s' → Read pages mem addr maxSize e (full, s') := by
    intro s' h'
    refine ⟨hfull.trans ⟨fun hle ⟨k, hk, _, hstop⟩ => ?_, fun hno => ?_⟩,
      fun _ => h'.out.trans (takeWhile_plain h'.plain).symm, h'.reads⟩
    · rcases hstop with hstop | hstop
      · omega
      · rw [h'.all _ (by omega) (by omega)] at hstop
        cases hstop
    · by_contra hgt
      exact hno ⟨e - addr.toNat, by omega, h'.plain, .inl (by omega)⟩
  unfold readStep
  by_cases hi : s.i ≤ last
  · have hlt : s.i.toNat < e := by bv_omega
    have hpage := h.page
    rw [if_pos hi]
    cases hread : readable pages s.i.toNat with
    | false =>
      refine .inl ⟨(false, s), rfl, ⟨nofun, fun hno => absurd ⟨s.i.toNat - addr.toNat, ?_⟩ hno⟩, nofun, h.reads⟩
      rw [Nat.add_sub_cancel' h.lo]
      exact ⟨by omega, h.plain, .inr hread⟩
    | true =>
      have hspace : min (last - s.i + 1).toNat (4096 - s.i.toNat % 4096) = 4096 - s.i.toNat % 4096 := by
        have hlo := h.lo
        have hsub : (last - s.i + 1).toNat = e - s.i.toNat := by bv_omega
        omega
      have hpages : ∀ b, s.i.toNat ≤ b → b < s.i.toNat + (4096 - s.i.toNat % 4096) → readable pages b = true := by
        intro b hb hb'
        rw [readable, show b / 4096 = s.i.toNat / 4096 by omega]
        exact hread
      have hreads : ∀ x ∈ s.reads ++ [(s.i.toNat, 4096 - s.i.toNat % 4096)], ∀ b, x.1 ≤ b → b < x.1 + x.2 →
          readable pages b = true := by
        exact forall_mem_append.mpr ⟨h.reads, forall_mem_singleton.mpr hpages⟩
      have hall : ∀ b, addr.toNat ≤ b → b < s.i.toNat + (4096 - s.i.toNat % 4096) → readable pages b = true := by
        intro b hb hb'
        by_cases hbi : b < s.i.toNat
        · exact h.all b hb hbi
        · exact hpages b (by omega) hb'
      have hplain : ∀ z, Plain mem s.i.toNat z → Plain mem addr.toNat (s.i.toNat + z - addr.toNat) := by
        intro z hz j hj
        by_cases hji : j < s.i.toNat - addr.toNat
        · exact h.plain j hji
        · rw [show addr.toNat + j = s.i.toNat + (addr.toNat + j - s.i.toNat) by have := h.lo; omega]
          exact hz _ (by omega)
      have hbytes : ∀ z, s.out ++ bytesAt mem s.i.toNat z = bytesAt mem addr.toNat (s.i.toNat + z - addr.toNat) := by
        intro z
        rw [h.out, Nat.sub_add_comm h.lo, bytesAt_add, Nat.add_sub_cancel' h.lo]
      have ⟨z, hz, hscan, hcase⟩ := takeWhile_cases mem s.i.toNat (4096 - s.i.toNat % 4096)
      simp only [Bool.not_true, Bool.and_false, Bool.false_eq_true, if_false, hspace, length_bytesAt,
        ne_eq, hscan, takeWhile_plain hz, hbytes]
      have hlo' := h.lo
      have hlen : s.out.length = s.i.toNat - addr.toNat := by rw [h.out, length_bytesAt]
      rcases hcase with hcase | ⟨hlt', hzero⟩
      · have hnext : Reading pages mem addr.toNat (s.i.toNat + z) ⟨s.i + BitVec.ofNat 32 z,
            bytesAt mem addr.toNat (s.i.toNat + z - addr.toNat), s.reads ++ [(s.i.toNat, z)]⟩ :=
          ⟨by omega, .inr (by omega), rfl, hplain z hz, hcase ▸ hall, hcase ▸ hreads⟩
        rw [if_neg (by omega), ← hcase]
        split
        · have hi' : s.i.toNat + z = e := by bv_omega
          exact .inl ⟨_, rfl, hend _ (hi' ▸ hnext)⟩
        · have hi' : (s.i + BitVec.ofNat 32 z).toNat = s.i.toNat + z := by bv_omega
          exact .inr ⟨_, rfl, by rw [hi']; omega, by rw [hi']; omega, hi' ▸ hnext⟩
      · rw [if_pos (by omega)]
        have hzero' : mem (addr.toNat + (s.i.toNat + z - addr.toNat)) = 0 := by
          rw [Nat.add_sub_cancel' (by omega)]
          exact hzero
        refine .inl ⟨_, rfl, iff_of_true rfl fun ⟨k, hk, hno, hstop⟩ => ?_,
          fun _ => (takeWhile_zero (hplain z hz) hzero' (by omega)).symm, hreads⟩
        -- the terminator comes first
        have hkz := Nat.le_of_not_lt fun hlt => hno _ hlt hzero'
        rcases hstop with hstop | hstop
        · omega
        · rw [hall _ (by omega) (by omega)] at hstop
          cases hstop
  · have hi : s.i.toNat = e := by bv_omega
    rw [if_neg (by bv_omega)]
    exact .inl ⟨_, rfl, hend s (hi ▸ h)⟩

theorem takeWhile_limit_iff {r : Bool × ReadState} {e : Nat} (h : Read pages mem addr maxSize e r) (hmax : maxSize ≠ 0)
    (hmod : e % 4096 = 0) (hlo : addr.toNat + limit addr maxSize ≤ e) (hhi : e < addr.toNat + limit addr maxSize + 4096) :
    RightResult pages mem addr maxSize r ↔ (addr.toNat + maxSize.toNat) % 4096 = 0 ∨
      (∃ k ≤ maxSize.toNat, mem (addr.toNat + k) = 0) ∨ maxSize = 0 ∨
      ∃ k < maxSize.toNat, addr.toNat + k = 2 ^ 32 ∨ readable pages (addr.toNat + k) = false := by
  have hlimit : limit addr maxSize = min maxSize.toNat (2 ^ 32 - addr.toNat) := rfl
  constructor
  · intro hright
    by_contra hno
    simp only [not_or, not_exists, not_and] at hno
    have ⟨hunaligned, hplain, _, hclear⟩ := hno
    have hok := h.ok.mpr fun ⟨k, hk, _, hstop⟩ => hstop.elim (hclear k hk).1 (hclear k hk).2
    have htop : ¬2 ^ 32 - addr.toNat < maxSize.toNat := fun hlt => (hclear _ hlt).1 (by omega)
    -- the string goes on behind the limit
    have hstring := (h.out hok).symm.trans (hright.string hok)
    have ⟨z, _, hscan, hz⟩ := takeWhile_cases mem addr.toNat (e - addr.toNat)
    rw [hscan, takeWhile_plain fun j hj => hplain j (by omega)] at hstring
    have hlen := congrArg length hstring
    rw [length_bytesAt, length_bytesAt] at hlen
    rcases hz with hz | ⟨_, hzero⟩
    · omega
    · exact hplain z (by omega) hzero
  · intro hterm
    refine ⟨fun hok => (h.out hok).trans ?_, h.reads, fun hfail => ?_⟩
    · have hblocked := h.ok.mp hok
      have ⟨z, hplain, hscan, hz⟩ := takeWhile_cases mem addr.toNat (limit addr maxSize)
      rw [hscan]
      rcases hz with hz | ⟨hz, hzero⟩
      · subst hz
        by_cases heq : e = addr.toNat + limit addr maxSize
        · rw [heq, Nat.add_sub_cancel_left]
          exact takeWhile_plain hplain
        rcases hterm with hterm | ⟨k, hk, hzero⟩ | hterm | ⟨k, hk, hstop⟩
        · omega
        · have hkmax : k = limit addr maxSize := by
            by_contra hne
            exact hplain k (by omega) hzero
          exact takeWhile_zero hplain (hkmax ▸ hzero) (by omega)
        · exact absurd hterm hmax
        · exact absurd ⟨k, hk, fun j hj => hplain j (by omega), hstop⟩ hblocked
      · exact takeWhile_zero hplain hzero (by omega)
    · by_contra hblocked
      rw [h.ok.mpr hblocked] at hfail
      cases hfail

/-- The call returns; and what is asked for holds exactly if the string ends at the limit or before. -/
theorem readString_right_iff (pages : Pages) (mem : Nat → UInt8) (addr maxSize : Word) :
    ∃ r, ReadString pages mem true addr maxSize [] r ∧
      (RightResult pages mem addr maxSize r ↔ Terminated pages mem addr maxSize) := by
  by_cases hmax : maxSize = 0
  · subst hmax
    refine ⟨(true, ⟨addr, [], []⟩), (if_pos rfl).mpr rfl, iff_of_true ⟨fun _ => ?_, nofun, nofun⟩ ?_⟩
    · simp [limit, bytesAt]
    · exact (if_neg fun h => absurd h.2 (by decide)).mpr (.inr (.inr (.inl rfl)))
  have ⟨e, he, hmod, hlo, hhi, htop⟩ := last_toNat addr hmax
  have hlimit : limit addr maxSize = min maxSize.toNat (2 ^ 32 - addr.toNat) := rfl
  have hpos := limit_pos addr hmax
  have hfull : (stringSize addr maxSize == maxSize) = true ↔ maxSize.toNat ≤ 2 ^ 32 - addr.toNat := by
    rw [beq_iff_eq, ← BitVec.toNat_inj, stringSize_toNat addr hmax, limit]
    omega
  simp only [ReadString, if_neg hmax]
  by_cases hwhole : addr = 0 ∧ e = 2 ^ 32
  · -- the size of the loop wraps to 0, and nothing is read
    have ⟨hzero, he'⟩ := hwhole
    subst hzero
    have hz : (0 : Word).toNat = 0 := rfl
    have hlast : align (0 + stringSize 0 maxSize) 4096 - 1 = 0xffffffff :=
      BitVec.eq_of_toNat_eq (Nat.succ.inj (he.trans he'))
    rw [hfull.mpr (by omega), hlast, Terminated, if_pos ⟨rfl, by omega⟩]
    cases hread : readable pages 0 with
    | false =>
      refine ⟨(false, ⟨0, [], []⟩), .of_done (by simp [readStep, hread]), iff_of_true ⟨nofun, nofun, fun _ => ?_⟩
        (.inr rfl)⟩
      exact ⟨0, by omega, nofun, .inr hread⟩
    | true =>
      refine ⟨(true, ⟨0, [], [(0, 0)]⟩), .of_done (by simp [readStep, hread, bytesAt]), fun h => .inl ?_, fun h => ?_⟩
      · have ⟨z, _, hscan, hz'⟩ := takeWhile_cases mem (0 : Word).toNat (limit 0 maxSize)
        have hlen := congrArg length ((h.string rfl).trans hscan)
        rw [length_bytesAt] at hlen
        rcases hz' with hz' | ⟨_, hzero⟩
        · exact absurd (hlen.trans hz') (Nat.ne_of_lt hpos)
        · rw [← hlen] at hzero
          exact hzero
      · refine ⟨fun _ => (takeWhile_zero (n := 0) nofun ?_ hpos).symm, fun x hx b hlo hhi => ?_, nofun⟩
        · exact h.resolve_right nofun
        · rw [mem_singleton.mp hx] at hlo hhi
          exact absurd hhi (not_lt.mpr hlo)
  · have hterm : ¬(addr = 0 ∧ 2 ^ 32 - 4096 < maxSize.toNat) := by
      intro ⟨hzero, hlt⟩
      exact hwhole ⟨hzero, by omega⟩
    have hinit : Reading pages mem addr.toNat addr.toNat ⟨addr, [], []⟩ :=
      ⟨le_refl _, .inl rfl, by simp [bytesAt], fun j hj => by omega, fun b _ _ => by omega, nofun⟩
    have hloop : ∃ r, Returns (readStep pages mem true (align (addr + stringSize addr maxSize) 4096 - 1)
        (stringSize addr maxSize == maxSize)) ⟨addr, [], []⟩ r ∧ Read pages mem addr maxSize e r := by
      apply Returns.total (I := fun s n =>
        Reading pages mem addr.toNat s.i.toNat s ∧ s.i.toNat ≤ e ∧ n = e - s.i.toNat) _
        ⟨hinit, le_trans (le_add_right _ _) hlo, rfl⟩
      intro s n ⟨h, hle, hn⟩
      rcases readStep_spec he hmod hfull hlo hhi hwhole hmax h hle with hdone | ⟨s', hs', hlt, hle', h'⟩
      · exact .inl hdone
      · exact .inr ⟨s', _, hs', by omega, h', hle', rfl⟩
    have ⟨r, hr, hread⟩ := hloop
    refine ⟨r, hr, ?_⟩
    rw [Terminated, if_neg hterm]
    exact takeWhile_limit_iff hread hmax hmod hlo hhi

/-- A string of at most one character that is two characters long. -/
theorem readString_overrun : ∃ r, ReadString (fun _ => 0x81) (fun _ => 65) true 0x1ffe 1 [] r ∧ r.1 = true ∧
    r.2.out = [65, 65] ∧ ¬RightResult (fun _ => 0x81) (fun _ => 65) 0x1ffe 1 r := by
  refine ⟨(true, ⟨0x2000, [65, 65], [(0x1ffe, 2)]⟩), ?_, rfl, rfl, fun h => absurd (h.string rfl) (by decide +kernel)⟩
  exact ⟨2, by decide +kernel⟩

end

end Armsx3.Vm
