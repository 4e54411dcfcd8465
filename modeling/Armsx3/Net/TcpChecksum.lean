import Mathlib

/-!
# TcpChecksum — the checksum of the datagrams of a stream

`u2s_tcp_checksum` adds up words in 32 bits and folds the sum twice, which is enough for packets of up to 65535 bytes.
-/

namespace Armsx3.TcpChecksum

open BitVec List

/-- The little-endian words of the buffer; an odd byte at the end is a word of its own. -/
def words : List (BitVec 8) → List (BitVec 16)
  | [] => []
  | [b] => [b.setWidth 16]
  | lo :: hi :: rest => (hi ++ lo) :: words rest

def u2sTcpChecksum (packet : List (BitVec 8)) : BitVec 16 :=
  let cksum := (words packet).foldl (fun cksum w => cksum + w.setWidth 32) 0#32
  let cksum := (cksum >>> 16) + (cksum &&& 0xffff)
  let cksum := cksum + (cksum >>> 16)
  (~~~cksum).setWidth 16

/-- One's-complement addition: the carry comes in again at the other end. -/
def onesAdd (a b : Nat) : Nat := if a + b < 2 ^ 16 then a + b else a + b - (2 ^ 16 - 1)

def onesSum (packet : List (BitVec 8)) : Nat := (words packet).foldl (fun sum w => onesAdd sum w.toNat) 0

/-! ## The sum modulo `2 ^ 16 - 1` -/

def total (l : List (BitVec 16)) : Nat := (l.map BitVec.toNat).sum

/-- The residue of a sum; only the sum 0 has the residue 0. -/
def residue (n : Nat) : Nat := if n = 0 then 0 else (n - 1) % 65535 + 1

theorem total_cons (w : BitVec 16) (l : List (BitVec 16)) : total (w :: l) = w.toNat + total l := sum_cons

theorem total_le (l : List (BitVec 16)) : total l ≤ 65535 * l.length := by
  induction l with
  | nil => exact le_rfl
  | cons w l ih =>
    have := w.isLt
    rw [total_cons, length_cons]
    omega

theorem length_words (packet : List (BitVec 8)) : 2 * (words packet).length ≤ packet.length + 1 := by
  fun_induction words packet with
  | case1 => exact Nat.zero_le _
  | case2 => exact le_rfl
  | case3 lo hi rest ih =>
    simp only [length_cons]
    omega

theorem foldl_onesAdd (n : Nat) (l : List (BitVec 16)) :
    l.foldl (fun sum w => onesAdd sum w.toNat) (residue n) = residue (n + total l) := by
  induction l generalizing n with
  | nil => rfl
  | cons w l ih =>
    have hadd : onesAdd (residue n) w.toNat = residue (n + w.toNat) := by
      have := w.isLt
      unfold onesAdd residue
      split_ifs <;> omega
    rw [foldl_cons, hadd, ih, total_cons, Nat.add_assoc]

theorem foldl_toNat (cksum : BitVec 32) (l : List (BitVec 16)) :
    (l.foldl (fun cksum w => cksum + w.setWidth 32) cksum).toNat = (cksum.toNat + total l) % 2 ^ 32 := by
  induction l generalizing cksum with
  | nil => exact (Nat.mod_eq_of_lt cksum.isLt).symm
  | cons w l ih =>
    have := w.isLt
    rw [foldl_cons, ih, total_cons, toNat_add, toNat_setWidth]
    omega

/-! ## The checksum -/

/-- Folding twice is enough for sums below `2 ^ 31`. -/
theorem fold_residue {n : Nat} (hn : n < 2 ^ 31) :
    (n / 2 ^ 16 + n % 2 ^ 16 + (n / 2 ^ 16 + n % 2 ^ 16) / 2 ^ 16) % 2 ^ 16 = residue n := by
  unfold residue
  split_ifs with h0
  · omega
  have hsplit : n - 1 = 65535 * (n / 2 ^ 16) + (n / 2 ^ 16 + n % 2 ^ 16 - 1) := by omega
  have hlt : 0 < n / 2 ^ 16 + n % 2 ^ 16 ∧ n / 2 ^ 16 + n % 2 ^ 16 < 98304 := by omega
  rw [hsplit, Nat.mul_add_mod]
  generalize n / 2 ^ 16 + n % 2 ^ 16 = sum at hlt
  rcases Nat.lt_or_ge sum 65536 with h | h <;> omega

theorem checksum_eq {packet : List (BitVec 8)} (h : packet.length ≤ 65535) :
    u2sTcpChecksum packet = ~~~BitVec.ofNat 16 (residue (total (words packet))) := by
  have hle := total_le (words packet)
  have hlen := length_words packet
  have hacc := foldl_toNat 0#32 (words packet)
  rw [toNat_zero, Nat.zero_add, Nat.mod_eq_of_lt (by omega)] at hacc
  unfold u2sTcpChecksum
  rw [setWidth_not (by decide)]
  congr 1
  apply eq_of_toNat_eq
  have hlow (n : Nat) : n &&& (0xffff : BitVec 32).toNat = n % 2 ^ 16 := Nat.and_two_pow_sub_one_eq_mod n 16
  simp only [toNat_setWidth, toNat_add, toNat_and, toNat_ushiftRight, Nat.shiftRight_eq_div_pow, toNat_ofNat, hacc,
    hlow]
  rw [← fold_residue (by omega)]
  omega

theorem flip_byte : ∀ (b : BitVec 8) (k : Fin 8), (b ^^^ twoPow 8 k).toNat = b.toNat + 2 ^ k.val ∨
    b.toNat = (b ^^^ twoPow 8 k).toNat + 2 ^ k.val := by
  decide +kernel

theorem toNat_word (lo hi : BitVec 8) : (hi ++ lo).toNat = lo.toNat + 256 * hi.toNat := by
  rw [toNat_append, Nat.shiftLeft_eq, Nat.mul_comm, ← Nat.two_pow_add_eq_or_of_lt lo.isLt]
  omega

/-- The sum changes by a power of two, and none of them up to `2 ^ 15` is a multiple of `2 ^ 16 - 1`. -/
theorem total_flip (k : Fin 8) {packet : List (BitVec 8)} {i : Nat} (hi : i < packet.length) :
    let flipped := packet.modify i (· ^^^ twoPow 8 k)
    ∃ d, 0 < d ∧ d ≤ 32768 ∧ (total (words flipped) = total (words packet) + d ∨
      total (words packet) = total (words flipped) + d) := by
  have hpos : 0 < 2 ^ k.val := Nat.two_pow_pos _
  have hle : 2 ^ k.val ≤ 2 ^ 7 := Nat.pow_le_pow_right (by decide) (by omega)
  induction packet using words.induct generalizing i with
  | case1 => cases hi
  | case2 b =>
    obtain rfl : i = 0 := Nat.lt_one_iff.mp hi
    have hb := flip_byte b k
    refine ⟨2 ^ k.val, hpos, by omega, ?_⟩
    simp only [modify_zero_cons, words, total, map_cons, map_nil, sum_singleton, toNat_setWidth]
    omega
  | case3 lo up rest ih =>
    have hlo := flip_byte lo k
    have hup := flip_byte up k
    match i with
    | 0 =>
      refine ⟨2 ^ k.val, hpos, by omega, ?_⟩
      simp only [modify_zero_cons, words, total_cons, toNat_word]
      omega
    | 1 =>
      refine ⟨256 * 2 ^ k.val, by omega, by omega, ?_⟩
      simp only [modify_succ_cons, modify_zero_cons, words, total_cons, toNat_word]
      omega
    | i + 2 =>
      have ⟨d, hd, hd', hsum⟩ := ih (Nat.lt_of_add_lt_add_right hi)
      refine ⟨d, hd, hd', ?_⟩
      simp only [modify_succ_cons, words, total_cons]
      omega

theorem tcp_checksum {packet : List (BitVec 8)} (h : packet.length ≤ 65535) :
    u2sTcpChecksum packet = ~~~BitVec.ofNat 16 (onesSum packet) ∧
    ∀ i < packet.length, ∀ k : Fin 8,
      u2sTcpChecksum (packet.modify i (· ^^^ twoPow 8 k)) ≠ u2sTcpChecksum packet := by
  constructor
  · rw [checksum_eq h, ← Nat.zero_add (total _), ← foldl_onesAdd]
    rfl
  intro i hi k heq
  rw [checksum_eq h, checksum_eq (by rwa [length_modify])] at heq
  have hres := congrArg BitVec.toNat (BitVec.not_inj.mp heq)
  have ⟨d, hd, hd', hsum⟩ := total_flip k hi
  simp only [toNat_ofNat, residue] at hres
  split_ifs at hres <;> omega

theorem tcp_checksum_three : u2sTcpChecksum [1, 2, 3] = ~~~BitVec.ofNat 16 (onesSum [1, 2, 3]) ∧
    ∀ i < 3, ∀ k : Fin 8, u2sTcpChecksum ([1, 2, 3].modify i (· ^^^ twoPow 8 k)) ≠ u2sTcpChecksum [1, 2, 3] :=
  tcp_checksum (by decide)

end Armsx3.TcpChecksum
