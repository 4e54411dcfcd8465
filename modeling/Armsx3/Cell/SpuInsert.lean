import Armsx3.Library.Bits

/-!
# SpuInsert — stores of bytes, halfwords, words and doublewords

A register is given by its `_u8`, which has the bytes in the reverse order of memory; of the two address registers only
the preferred words `_u32[3]` are read.
-/

namespace Armsx3.Cell.SpuInsert

open BitVec

abbrev V128 := Fin 16 → BitVec 8

abbrev LocalStore := BitVec 18 → BitVec 8

def address (ra rb : BitVec 32) : BitVec 18 := ((ra + rb) &&& 0x3fff0).setWidth 18

def lqx (ls : LocalStore) (ra rb : BitVec 32) : V128 := fun i => ls (address ra rb + BitVec.ofNat 18 i.rev)

def stqx (ls : LocalStore) (ra rb : BitVec 32) (rt : V128) : LocalStore := fun p =>
  let offset := (p - address ra rb).toNat
  if h : offset < 16 then rt (Fin.rev ⟨offset, h⟩) else ls p

/-- The mask with element `t` of `size` bytes set to `value`. -/
def mask (size : Nat) (value : BitVec 64) (t : Nat) : V128 := fun i =>
  if i.val / size = t then value.extractLsb' (8 * (i.val % size)) 8
  else (0x101112131415161718191a1b1c1d1e1f : BitVec 128).extractLsb' (8 * i.val) 8

/-- What the four instructions have in common; `sp` is `op.ra == 1`, and `none` the exception. -/
def generate (size : Nat) (value : BitVec 64) (sp : Bool) (ra rb : BitVec 32) : Option V128 :=
  if sp ∧ ra &&& 0xf ≠ 0 then none
  else some (mask size value ((~~~(rb + ra) &&& BitVec.ofNat 32 (16 - size)).toNat / size))

def cbx := generate 1 0x03

def chx := generate 2 0x0203

def cwx := generate 4 0x00010203

def cdx := generate 8 0x0001020304050607

/-- `_mm_avg_epu8` -/
def avg (a b : BitVec 8) : BitVec 8 := BitVec.ofNat 8 ((a.toNat + b.toNat + 1) / 2)

def shufb (ra rb rc : V128) : V128 := fun i =>
  let x := (~~~rc i &&& 0x1f).toNat
  let res := if h : x < 16 then rb ⟨x, h⟩ else ra (Fin.ofNat 16 x)
  let cmp0 : BitVec 8 := if (rc i).slt 0 then 0xff else 0
  let cmp1 : BitVec 8 := if rc i &&& 0xc0 = 0xc0 then 0xff else 0
  let cmp2 : BitVec 8 := if rc i &&& 0xe0 = 0xc0 then 0xff else 0
  (~~~cmp0 &&& res) ||| avg cmp1 cmp2

/-- `LQX`, the mask, `SHUFB` and `STQX`; `gen` is the instruction that makes the mask. -/
def insert (gen : Bool → BitVec 32 → BitVec 32 → Option V128) (ls : LocalStore) (v : V128) (sp : Bool)
    (ra rb : BitVec 32) : Option LocalStore :=
  let q := lqx ls ra rb
  (gen sp ra rb).map fun mask => stqx ls ra rb (shufb v q mask)

/-- Of the local store exactly one element of `size` bytes changes, which gets the bytes of the value from byte `slot`
on. -/
def Inserts (gen : Bool → BitVec 32 → BitVec 32 → Option V128) (size slot : Nat) : Prop :=
  ∀ ls v sp ra rb, (sp = true → ra &&& 0xf = 0) → ∃ ls', insert gen ls v sp ra rb = some ls' ∧ ∀ p, ls' p =
    if p.toNat / size = (ra + rb).toNat % 2 ^ 18 / size then v (Fin.ofNat 16 (15 - (slot + p.toNat % size))) else ls p

/-! ## The bytes that are selected -/

theorem shufb_select {ra rb rc : V128} {i : Fin 16} (h : (rc i).toNat < 128) :
    shufb ra rb rc i = let x := (~~~rc i &&& 0x1f).toNat
      if h : x < 16 then rb ⟨x, h⟩ else ra (Fin.ofNat 16 x) := by
  have hplain : ∀ c : BitVec 8, c.toNat < 128 → ¬c.slt 0 ∧ c &&& 0xc0 ≠ 0xc0 ∧ c &&& 0xe0 ≠ 0xc0 := by decide +kernel
  have ⟨h0, h1, h2⟩ := hplain _ h
  have hid : ∀ x : BitVec 8, ~~~0 &&& x ||| avg 0 0 = x := by decide +kernel
  simp only [shufb, if_neg h0, if_neg h1, if_neg h2, hid]

/-- The bytes of the element are taken from the value, all others from where they were. -/
def Selects (size slot : Nat) (value : BitVec 64) : Prop :=
  ∀ (lo : BitVec 4) (o : Fin 16), let c := mask size value ((~~~lo &&& BitVec.ofNat 4 (16 - size)).toNat / size) o.rev
    c.toNat < 128 ∧ (~~~c &&& 0x1f).toNat =
      if o.val / size = lo.toNat / size then 31 - (slot + o.val % size) else 15 - o.val

instance (size slot : Nat) (value : BitVec 64) : Decidable (Selects size slot value) :=
  inferInstanceAs (Decidable (∀ _ _, _))

theorem nibble (w : BitVec 32) {m : Nat} (hm : m < 16) :
    (~~~w &&& BitVec.ofNat 32 m).toNat = (~~~w.setWidth 4 &&& BitVec.ofNat 4 m).toNat := by
  have hlow : ~~~w &&& BitVec.ofNat 32 m = (~~~w.setWidth 4 &&& BitVec.ofNat 4 m).setWidth 32 := by
    apply eq_of_getLsbD_eq
    intro i hi
    have hbit (h : 4 ≤ i) : m.testBit i = false :=
      Nat.testBit_lt_two_pow (Nat.lt_of_lt_of_le hm (Nat.pow_le_pow_right (show 0 < 2 by decide) h))
    simp only [getLsbD_and, getLsbD_not, getLsbD_setWidth, getLsbD_ofNat]
    grind
  rw [hlow, toNat_setWidth]
  omega

theorem inserts_of_selects {size slot : Nat} {value : BitVec 64} (hsize : size = 1 ∨ size = 2 ∨ size = 4 ∨ size = 8)
    (hslot : slot + size ≤ 16) (h : Selects size slot value) : Inserts (generate size value) size slot := by
  intro ls v sp ra rb hsp
  unfold insert generate
  rw [if_neg fun hc => hc.2 (hsp hc.1)]
  refine ⟨_, rfl, fun p => ?_⟩
  have haddr : (address ra rb).toNat = (ra + rb).toNat % 2 ^ 18 - (ra + rb).toNat % 2 ^ 18 % 2 ^ 4 := by
    have hmask : address ra rb = (ra + rb).setWidth 18 &&& (0 - 16) := setWidth_and ..
    rw [hmask, Bits.toNat_and_neg (k := 4) rfl, toNat_setWidth]
  have hlo : ((ra + rb).setWidth 4).toNat = (ra + rb).toNat % 2 ^ 18 % 2 ^ 4 := by
    rw [toNat_setWidth]
    omega
  have hp := toNat_sub p (address ra rb)
  show dite _ _ _ = _
  by_cases ho : (p - address ra rb).toNat < 16
  · have ⟨hlt, hsel⟩ := h ((ra + rb).setWidth 4) ⟨_, ho⟩
    rw [BitVec.add_comm rb ra, nibble _ (by omega), dif_pos ho, shufb_select hlt]
    have hcond : (p - address ra rb).toNat / size = (ra + rb).toNat % 2 ^ 18 % 2 ^ 4 / size ↔
        p.toNat / size = (ra + rb).toNat % 2 ^ 18 / size := by
      rcases hsize with rfl | rfl | rfl | rfl <;> omega
    have hmod : (p - address ra rb).toNat % size = p.toNat % size := by
      rcases hsize with rfl | rfl | rfl | rfl <;> omega
    simp only [hlo, hcond, hmod] at hsel
    split_ifs at hsel ⊢ with hin
    · have hmod := Nat.mod_lt p.toNat (show 0 < size by omega)
      rw [dif_neg (by omega), hsel]
      exact congrArg v (Fin.ext (show (31 - _) % 16 = (15 - _) % 16 by omega))
    · rw [dif_pos (by omega)]
      apply congrArg ls
      apply eq_of_toNat_eq
      simp only [toNat_add, toNat_ofNat, Fin.val_rev, hsel]
      omega
  · rw [dif_neg ho, if_neg]
    rcases hsize with rfl | rfl | rfl | rfl <;> omega

theorem sub_quadword_stores : Inserts cbx 1 3 ∧ Inserts chx 2 2 ∧ Inserts cwx 4 0 ∧ Inserts cdx 8 0 := by
  have hb : Selects 1 3 0x03 := by decide +kernel
  have hh : Selects 2 2 0x0203 := by decide +kernel
  have hw : Selects 4 0 0x00010203 := by decide +kernel
  have hd : Selects 8 0 0x0001020304050607 := by decide +kernel
  exact ⟨inserts_of_selects (by decide) (by decide) hb, inserts_of_selects (by decide) (by decide) hh,
    inserts_of_selects (by decide) (by decide) hw, inserts_of_selects (by decide) (by decide) hd⟩

end Armsx3.Cell.SpuInsert
