import Mathlib

/-!
# Ring — the slots of a ring buffer

Element `n` of a sequence goes to slot `n % d`.
-/

namespace Ring

open Nat

variable {d i j n c : Nat}

theorem mod_ne (hij : i < j) (hjd : j < i + d) : i % d ≠ j % d := by
  intro h
  have hdvd := (modEq_iff_dvd' (by omega)).mp h
  have hle := le_of_dvd (by omega) hdvd
  omega

theorem succ_mod (hd : 0 < d) : (n + 1) % d = if n % d + 1 ≠ d then n % d + 1 else 0 := by
  have hlt := mod_lt n hd
  rw [← mod_add_mod]
  split
  · exact mod_eq_of_lt (by omega)
  next hd' =>
    rw [not_not.mp hd', mod_self]

theorem add_mod_of_lt (hc : c < d) : (n + c) % d = if n % d + c < d then n % d + c else n % d + c - d := by
  have hlt := mod_lt n (show 0 < d by omega)
  rw [← mod_add_mod]
  split
  next h =>
    exact mod_eq_of_lt h
  next h =>
    rw [mod_eq_sub_mod (by omega)]
    exact mod_eq_of_lt (by omega)

theorem back_mod (hc : c ≤ d) (hcn : c ≤ n) : (n % d + d - c) % d = (n - c) % d := by
  have hn := div_add_mod n d
  have hsum : n % d + d - c + d * (n / d) = n - c + d := by omega
  rw [← add_mul_mod_self_left, hsum, add_mod_right]

theorem stretches_disjoint {low lap lap' pos pos' len len' : Nat} (hlow : low ≤ lap * d + pos)
    (horder : lap * d + pos + len ≤ lap' * d + pos') (hhigh : lap' * d + pos' + len' ≤ low + d) (hpos : pos' ≤ d) :
    pos + len ≤ pos' ∨ pos' + len' ≤ pos := by
  rcases lt_trichotomy lap lap' with hlap | hlap | hlap
  · have hle := mul_le_mul_right d hlap
    rw [succ_mul] at hle
    omega
  · rw [hlap] at horder
    omega
  · have hle := mul_le_mul_right d hlap
    rw [succ_mul] at hle
    omega

end Ring
