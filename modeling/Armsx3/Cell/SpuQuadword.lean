import Mathlib

/-!
# SpuQuadword — quadword shifts of the SPU

A register is the number that its `__m128i` stands for, with `_u8[i]` in bits `8 * i` and up.  Of the register of a
count only the preferred word `_u32[3]` is read.
-/

namespace Armsx3.Cell.SpuQuadword

open BitVec

abbrev V128 := BitVec 128

def slliEpi64 (a : V128) (n : Nat) : V128 := (a.extractLsb' 64 64 <<< n) ++ (a.extractLsb' 0 64 <<< n)

def srliEpi64 (a : V128) (n : Nat) : V128 := (a.extractLsb' 64 64 >>> n) ++ (a.extractLsb' 0 64 >>> n)

/-- `_mm_loadu_si128` from `offset` bytes behind the start of a buffer. -/
def loadu {w : Nat} (buf : BitVec w) (offset : Nat) : V128 := buf.extractLsb' (8 * offset) 128

def rotqbybi (a : V128) (rb : BitVec 32) : V128 := loadu (a ++ a) (16 - (rb >>> 3 &&& 0xf).toNat)

def rotqmbybi (a : V128) (rb : BitVec 32) : V128 := loadu (0#256 ++ a) ((0 - rb >>> 3) &&& 0x1f).toNat

def shlqbybi (a : V128) (rb : BitVec 32) : V128 := loadu (a ++ 0#256) (32 - (rb >>> 3 &&& 0x1f).toNat)

def rotqbi (a : V128) (rb : BitVec 32) : V128 :=
  let n := (rb &&& 7).toNat
  -- `_mm_shuffle_epi32(a, 0x4E)` exchanges the halves
  slliEpi64 a n ||| srliEpi64 (a.extractLsb' 0 64 ++ a.extractLsb' 64 64) (64 - n)

def rotqmbi (a : V128) (rb : BitVec 32) : V128 :=
  let n := (-rb &&& 7).toNat
  srliEpi64 a n ||| slliEpi64 (a >>> 64) (64 - n)

def shlqbi (a : V128) (rb : BitVec 32) : V128 :=
  let n := (rb &&& 7).toNat
  slliEpi64 a n ||| srliEpi64 (a <<< 64) (64 - n)

variable (a : V128) (rb : BitVec 32) {i n : Nat}

theorem getLsbD_slliEpi64 : (slliEpi64 a n).getLsbD i = (decide (i < 128 ∧ n ≤ i % 64) && a.getLsbD (i - n)) := by
  grind [slliEpi64]

theorem getLsbD_srliEpi64 : (srliEpi64 a n).getLsbD i = (decide (i < 128 ∧ i % 64 + n < 64) && a.getLsbD (i + n)) := by
  grind [srliEpi64]

theorem toNat_and7 : (rb &&& 7).toNat = rb.toNat % 8 := by
  rw [toNat_and]
  exact Nat.and_two_pow_sub_one_eq_mod _ 3

theorem shlqbi_eq : shlqbi a rb = a <<< (rb.toNat % 8) := by
  unfold shlqbi
  rw [toNat_and7]
  apply eq_of_getLsbD_eq
  intro i hi
  simp only [getLsbD_or, getLsbD_slliEpi64, getLsbD_srliEpi64, getLsbD_shiftLeft]
  grind

theorem rotqmbi_eq : rotqmbi a rb = a >>> ((-rb).toNat % 8) := by
  unfold rotqmbi
  rw [toNat_and7]
  apply eq_of_getLsbD_eq
  intro i hi
  simp only [getLsbD_or, getLsbD_slliEpi64, getLsbD_srliEpi64, getLsbD_ushiftRight]
  grind

theorem getLsbD_rotl (hi : i < 128) : (a.rotateLeft n).getLsbD i = a.getLsbD ((i + (128 - n % 128)) % 128) := by
  rw [getLsbD_rotateLeft, Bool.cond_decide, decide_eq_true hi, Bool.true_and]
  split_ifs
  · exact congrArg _ (by omega)
  · exact congrArg _ (by omega)

theorem rotqbi_eq : rotqbi a rb = a.rotateLeft (rb.toNat % 8) := by
  unfold rotqbi
  rw [toNat_and7]
  apply eq_of_getLsbD_eq
  intro i hi
  simp only [getLsbD_or, getLsbD_slliEpi64, getLsbD_srliEpi64, getLsbD_rotl _ hi, getLsbD_append, getLsbD_extractLsb']
  grind

theorem toNat_shift3 : (rb >>> 3).toNat = rb.toNat / 8 := by
  rw [toNat_ushiftRight, Nat.shiftRight_eq_div_pow]

theorem toNat_and31 : (rb &&& 0x1f).toNat = rb.toNat % 32 := by
  rw [toNat_and]
  exact Nat.and_two_pow_sub_one_eq_mod _ 5

theorem shlqbybi_eq : shlqbybi a rb = a <<< (8 * (rb.toNat / 8 % 32)) := by
  unfold shlqbybi loadu
  rw [toNat_and31, toNat_shift3]
  apply eq_of_getLsbD_eq
  intro i hi
  have hn : rb.toNat / 8 % 32 < 32 := Nat.mod_lt _ (by decide)
  generalize rb.toNat / 8 % 32 = n at hn
  have hidx : 8 * (32 - n) + i - 256 = i - 8 * n := by omega
  simp only [getLsbD_extractLsb', getLsbD_append, getLsbD_shiftLeft, hidx]
  grind

theorem rotqbybi_eq : rotqbybi a rb = a.rotateLeft (8 * (rb.toNat / 8 % 16)) := by
  have hn : (rb >>> 3 &&& 0xf).toNat = rb.toNat / 8 % 16 := by
    rw [toNat_and, toNat_shift3]
    exact Nat.and_two_pow_sub_one_eq_mod _ 4
  unfold rotqbybi loadu
  rw [hn]
  apply eq_of_getLsbD_eq
  intro i hi
  have hn : rb.toNat / 8 % 16 < 16 := Nat.mod_lt _ (by decide)
  generalize rb.toNat / 8 % 16 = n at hn
  rw [getLsbD_rotl _ hi, getLsbD_extractLsb', decide_eq_true hi, Bool.true_and, getLsbD_append]
  split_ifs
  · exact congrArg _ (by omega)
  · exact congrArg _ (by omega)

theorem rotqmbybi_eq : rotqmbybi a rb = a >>> (8 * ((0 - rb >>> 3).toNat % 32)) := by
  unfold rotqmbybi loadu
  rw [toNat_and31]
  apply eq_of_getLsbD_eq
  intro i hi
  simp only [getLsbD_extractLsb', getLsbD_append, getLsbD_ushiftRight, getLsbD_zero]
  grind

theorem rotateLeft_rotateLeft (m n : Nat) : (a.rotateLeft m).rotateLeft n = a.rotateLeft (m + n) := by
  apply eq_of_getLsbD_eq
  intro i hi
  rw [getLsbD_rotl _ hi, getLsbD_rotl _ (Nat.mod_lt _ (by decide)), getLsbD_rotl _ hi]
  exact congrArg _ (by omega)

theorem right_count : ∀ n : Fin 256, (- -BitVec.ofNat 32 n).toNat % 8 +
    8 * ((0 - (7 - BitVec.ofNat 32 n) >>> 3).toNat % 32) = n := by
  decide +kernel

theorem quadword_shifts (x : V128) (c : BitVec 32) :
    ((shlqbybi (shlqbi x c) c).toNat = x.toNat * 2 ^ (c.toNat % 256) % 2 ^ 128 ∧
      shlqbi (shlqbybi x c) c = shlqbybi (shlqbi x c) c) ∧
    (rotqbybi (rotqbi x c) c = x.rotateLeft (c.toNat % 128) ∧ rotqbi (rotqbybi x c) c = rotqbybi (rotqbi x c) c) ∧
    ∀ n : Fin 256, let c := BitVec.ofNat 32 n
      (rotqmbybi (rotqmbi x (-c)) (7 - c)).toNat = x.toNat / 2 ^ n.val ∧
      rotqmbi (rotqmbybi x (7 - c)) (-c) = rotqmbybi (rotqmbi x (-c)) (7 - c) := by
  have hshl : c.toNat % 8 + 8 * (c.toNat / 8 % 32) = c.toNat % 256 := by omega
  have hrot : c.toNat % 8 + 8 * (c.toNat / 8 % 16) = c.toNat % 128 := by omega
  refine ⟨⟨?_, ?_⟩, ⟨?_, ?_⟩, fun n => ⟨?_, ?_⟩⟩
  · rw [shlqbybi_eq, shlqbi_eq, ← shiftLeft_add, hshl, toNat_shiftLeft, Nat.shiftLeft_eq]
  · simp only [shlqbybi_eq, shlqbi_eq, ← shiftLeft_add, Nat.add_comm]
  · rw [rotqbybi_eq, rotqbi_eq, rotateLeft_rotateLeft, hrot]
  · simp only [rotqbybi_eq, rotqbi_eq, rotateLeft_rotateLeft, Nat.add_comm]
  · rw [rotqmbybi_eq, rotqmbi_eq, ← shiftRight_add, right_count, toNat_ushiftRight, Nat.shiftRight_eq_div_pow]
  · simp only [rotqmbybi_eq, rotqmbi_eq, ← shiftRight_add, Nat.add_comm]

end Armsx3.Cell.SpuQuadword
