import Mathlib

/-!
# Natural numbers in double precision

What `double` arithmetic does to non-negative integers: conversion, sums and products round to 53
significant bits, ties to even, and a quotient that is converted back to an integer is rounded
first and truncated afterwards.  Overflow is out of reach of 64-bit integers and is not modelled.
-/

namespace Binary64

open Nat

/-- The integer nearest to `a / b`, ties to even. -/
def roundDiv (a b : ℕ) : ℕ :=
  if 2 * (a % b) < b then a / b
  else if b < 2 * (a % b) then a / b + 1
  else a / b + a / b % 2

/-- The double nearest to a natural number. -/
def round (a : ℕ) : ℕ :=
  if a < 2 ^ 53 then a
  else roundDiv a (2 ^ (a.log2 - 52)) * 2 ^ (a.log2 - 52)

/-- The quotient of two doubles, itself at least 1, rounded to a double and then truncated. -/
def divTrunc (a b : ℕ) : ℕ :=
  let e := (a / b).log2
  if e ≤ 52 then roundDiv (a * 2 ^ (52 - e)) b / 2 ^ (52 - e)
  else roundDiv a (b * 2 ^ (e - 52)) * 2 ^ (e - 52)

lemma div_le_roundDiv (a b : ℕ) : a / b ≤ roundDiv a b := by
  unfold roundDiv
  split_ifs <;> omega

lemma round_of_lt {a : ℕ} (h : a < 2 ^ 53) : round a = a := if_pos h

lemma le_two_mul_round (a : ℕ) : a ≤ 2 * round a := by
  unfold round
  split_ifs with h
  · omega
  have ha : a ≠ 0 := by omega
  set s := a.log2 - 52
  have hpow : 2 ^ s ≤ a := by
    refine le_trans (Nat.pow_le_pow_right (by norm_num) ?_) (Nat.log2_self_le ha)
    omega
  have hdiv := div_le_roundDiv a (2 ^ s)
  have hmod := mod_lt a (show 0 < 2 ^ s by positivity)
  have hsplit := div_add_mod a (2 ^ s)
  have hmul : 2 ^ s * (a / 2 ^ s) ≤ roundDiv a (2 ^ s) * 2 ^ s := by
    rw [mul_comm]
    exact mul_le_mul_right _ hdiv
  have hone : 2 ^ s ≤ 2 ^ s * (a / 2 ^ s) := Nat.le_mul_of_pos_right _ (Nat.div_pos hpow (by positivity))
  omega

lemma one_le_divTrunc {a b : ℕ} (hb : 0 < b) (hab : b ≤ a) : 1 ≤ divTrunc a b := by
  simp only [divTrunc]
  set e := (a / b).log2
  split_ifs with h
  · have hdiv := div_le_roundDiv (a * 2 ^ (52 - e)) b
    have hle : 2 ^ (52 - e) ≤ a * 2 ^ (52 - e) / b := by
      rw [le_div_iff_mul_le hb, mul_comm]
      exact mul_le_mul_right _ hab
    exact div_pos (hle.trans hdiv) (by positivity)
  have hq : a / b ≠ 0 := (div_pos hab hb).ne'
  have hdiv := div_le_roundDiv a (b * 2 ^ (e - 52))
  have hle : 2 ^ (e - 52) ≤ a / b :=
    le_trans (Nat.pow_le_pow_right (by norm_num) (Nat.sub_le e 52)) (Nat.log2_self_le hq)
  have hpos : 1 ≤ a / (b * 2 ^ (e - 52)) := by
    rw [← Nat.div_div_eq_div_mul]
    exact div_pos hle (by positivity)
  exact one_le_iff_ne_zero.mpr (mul_ne_zero (by omega) (by positivity))

end Binary64
