import Mathlib.Data.Nat.Bitwise
import Mathlib.Data.UInt
import Mathlib.Tactic.Ring
import Mathlib.Tactic.NormNum

/-!
# Shifts and masks of 64-bit words as arithmetic

The low `k` bits of a word are its remainder by `2 ^ k`, what is above them its quotient.  Shifting
right divides, clearing the low bits rounds down to a multiple of `2 ^ k`, setting them rounds up to
one less than the next multiple.  Each lemma says so for one operation on `UInt64`, with the shift
count as a natural number below 64.  A word below `2 ^ 63` is itself as a signed one.
-/

namespace Word64

/-! ## Natural numbers -/

lemma nat_or_lowMask (x k : ℕ) : x ||| (2 ^ k - 1) = x / 2 ^ k * 2 ^ k + (2 ^ k - 1) := by
  have hpos : 0 < 2 ^ k := Nat.two_pow_pos k
  have hlow : (x % 2 ^ k) ||| (2 ^ k - 1) = 2 ^ k - 1 := by
    apply Nat.eq_of_testBit_eq
    intro i
    rw [Nat.testBit_or, Nat.testBit_mod_two_pow, Nat.testBit_two_pow_sub_one]
    cases decide (i < k) <;> simp
  calc x ||| (2 ^ k - 1)
      = (2 ^ k * (x / 2 ^ k) ||| x % 2 ^ k) ||| (2 ^ k - 1) := by
        rw [← Nat.two_pow_add_eq_or_of_lt (Nat.mod_lt x hpos), Nat.div_add_mod]
    _ = 2 ^ k * (x / 2 ^ k) ||| (2 ^ k - 1) := by rw [Nat.or_assoc, hlow]
    _ = x / 2 ^ k * 2 ^ k + (2 ^ k - 1) := by
        rw [← Nat.two_pow_add_eq_or_of_lt (by omega), Nat.mul_comm]

/-- Clearing the low bits of a number of `w` bits. -/
lemma nat_and_highMask {x k w : ℕ} (hx : x < 2 ^ w) (hk : k ≤ w) :
    x &&& (2 ^ w - 1 - (2 ^ k - 1)) = x / 2 ^ k * 2 ^ k := by
  have hmask : 2 ^ w - 1 - (2 ^ k - 1) = 2 ^ k * (2 ^ (w - k) - 1) := by
    have hpow : 2 ^ k * 2 ^ (w - k) = 2 ^ w := by rw [← pow_add, Nat.add_sub_cancel' hk]
    rw [Nat.mul_sub, hpow, mul_one]
    have := Nat.two_pow_pos k
    omega
  rw [hmask]
  apply Nat.eq_of_testBit_eq
  intro i
  rw [Nat.testBit_and, Nat.testBit_two_pow_mul, Nat.mul_comm (x / 2 ^ k), Nat.testBit_two_pow_mul,
    Nat.testBit_two_pow_sub_one, Nat.testBit_div_two_pow]
  by_cases hik : k ≤ i
  · by_cases hiw : i < w
    · have h₁ : i - k < w - k := by omega
      simp [hik, h₁]
    · have hzero : x.testBit i = false :=
        Nat.testBit_lt_two_pow (lt_of_lt_of_le hx (Nat.pow_le_pow_right (by norm_num) (by omega)))
      have hi : i - k + k = i := by omega
      simp [hzero, hi]
  · simp [hik]

/-! ## Words -/

variable {k : ℕ}

lemma toNat_ofNat_of_lt {n : ℕ} (h : n < 2 ^ 64) : (UInt64.ofNat n).toNat = n := by
  rw [UInt64.toNat_ofNat', Nat.mod_eq_of_lt h]

variable (x : UInt64)

section
variable (hk : k < 64)
include hk

lemma toNat_shiftRight : (x >>> UInt64.ofNat k).toNat = x.toNat / 2 ^ k := by
  rw [UInt64.toNat_shiftRight, toNat_ofNat_of_lt (by omega), Nat.mod_eq_of_lt hk, Nat.shiftRight_eq_div_pow]

lemma toNat_shiftLeft : (x <<< UInt64.ofNat k).toNat = x.toNat * 2 ^ k % 2 ^ 64 := by
  rw [UInt64.toNat_shiftLeft, toNat_ofNat_of_lt (by omega), Nat.mod_eq_of_lt hk, Nat.shiftLeft_eq]

/-- `(1 << k) - 1`, the word of `k` ones. -/
lemma toNat_lowMask : ((1 : UInt64) <<< UInt64.ofNat k - 1).toNat = 2 ^ k - 1 := by
  have hlt : 2 ^ k < 2 ^ 64 := Nat.pow_lt_pow_right (by norm_num) hk
  have hshift : ((1 : UInt64) <<< UInt64.ofNat k).toNat = 2 ^ k := by
    rw [toNat_shiftLeft _ hk, UInt64.toNat_one, one_mul, Nat.mod_eq_of_lt hlt]
  have hone : (1 : UInt64) ≤ (1 : UInt64) <<< UInt64.ofNat k := by
    rw [UInt64.le_iff_toNat_le, hshift]
    exact Nat.one_le_two_pow
  rw [UInt64.toNat_sub_of_le _ _ hone, hshift, UInt64.toNat_one]

lemma toNat_and_lowMask : (x &&& ((1 : UInt64) <<< UInt64.ofNat k - 1)).toNat = x.toNat % 2 ^ k := by
  rw [UInt64.toNat_and, toNat_lowMask hk, Nat.and_two_pow_sub_one_eq_mod]

lemma toNat_or_lowMask :
    (x ||| ((1 : UInt64) <<< UInt64.ofNat k - 1)).toNat = x.toNat / 2 ^ k * 2 ^ k + (2 ^ k - 1) := by
  rw [UInt64.toNat_or, toNat_lowMask hk, nat_or_lowMask]

lemma toNat_and_not_lowMask :
    (x &&& ~~~((1 : UInt64) <<< UInt64.ofNat k - 1)).toNat = x.toNat / 2 ^ k * 2 ^ k := by
  rw [UInt64.toNat_and, UInt64.toNat_not, toNat_lowMask hk]
  exact nat_and_highMask x.toNat_lt (by omega)

end

/-! ## Fields

A field of `b` bits at position `s`, of words that have nothing below it. -/

section
variable {x : UInt64} {q s b : ℕ}

lemma toNat_fieldMask (hs : s < 64) (hb : b < 64) (hsb : s + b ≤ 64) :
    (((1 : UInt64) <<< UInt64.ofNat b - 1) <<< UInt64.ofNat s).toNat = (2 ^ b - 1) * 2 ^ s := by
  have hle : (2 ^ b - 1) * 2 ^ s < 2 ^ 64 := by
    have hpow : 2 ^ b * 2 ^ s ≤ 2 ^ 64 := by
      rw [← pow_add]
      exact Nat.pow_le_pow_right (by norm_num) (by omega)
    have hpos := Nat.two_pow_pos s
    rw [Nat.sub_mul, one_mul]
    omega
  rw [toNat_shiftLeft _ hs, toNat_lowMask hb, Nat.mod_eq_of_lt hle]

section
variable (hx : x.toNat = q * 2 ^ s) (hs : s < 64) (hb : b < 64) (hsb : s + b ≤ 64)
include hx hs hb hsb

lemma toNat_and_fieldMask : (x &&& (((1 : UInt64) <<< UInt64.ofNat b - 1) <<< UInt64.ofNat s)).toNat
    = q % 2 ^ b * 2 ^ s := by
  rw [UInt64.toNat_and, toNat_fieldMask hs hb hsb, hx, ← Nat.shiftLeft_eq, ← Nat.shiftLeft_eq,
    ← Nat.shiftLeft_and_distrib, Nat.and_two_pow_sub_one_eq_mod, Nat.shiftLeft_eq]

lemma toNat_or_fieldMask : (x ||| (((1 : UInt64) <<< UInt64.ofNat b - 1) <<< UInt64.ofNat s)).toNat
    = (q / 2 ^ b * 2 ^ b + (2 ^ b - 1)) * 2 ^ s := by
  rw [UInt64.toNat_or, toNat_fieldMask hs hb hsb, hx, ← Nat.shiftLeft_eq, ← Nat.shiftLeft_eq,
    ← Nat.shiftLeft_or_distrib, nat_or_lowMask, Nat.shiftLeft_eq]

/-- Clearing the field rounds down to a multiple of what is above it. -/
lemma toNat_and_not_fieldMask : (x &&& ~~~(((1 : UInt64) <<< UInt64.ofNat b - 1) <<< UInt64.ofNat s)).toNat
    = q / 2 ^ b * 2 ^ (s + b) := by
  have hmask := toNat_fieldMask hs hb hsb
  have hlt := (((1 : UInt64) <<< UInt64.ofNat b - 1) <<< UInt64.ofNat s).toNat_lt
  have hx64 := x.toNat_lt
  rw [UInt64.toNat_and, UInt64.toNat_not]
  rw [hmask] at hlt ⊢
  rw [hx] at hx64 ⊢
  apply Nat.eq_of_testBit_eq
  intro i
  rw [Nat.testBit_and, Nat.sub_sub, Nat.add_comm 1, Nat.testBit_two_pow_sub_succ hlt,
    Nat.testBit_mul_two_pow, Nat.testBit_mul_two_pow, Nat.testBit_two_pow_sub_one,
    Nat.testBit_mul_two_pow, Nat.testBit_div_two_pow]
  by_cases hi : s + b ≤ i
  · have h₁ : s ≤ i := by omega
    have h₂ : ¬ i - s < b := by omega
    have h₃ : i - (s + b) + b = i - s := by omega
    by_cases hi64 : i < 64
    · simp [hi, h₁, h₂, h₃, hi64]
    have hzero : (q * 2 ^ s).testBit i = false :=
      Nat.testBit_lt_two_pow (lt_of_lt_of_le hx64 (Nat.pow_le_pow_right (by norm_num) (by omega)))
    rw [Nat.testBit_mul_two_pow] at hzero
    simp only [h₁, decide_true, Bool.true_and] at hzero
    simp [hi, h₁, h₃, hzero]
  · by_cases h₁ : s ≤ i
    · have h₂ : i - s < b := by omega
      simp [hi, h₁, h₂]
    · simp [hi, h₁]

end

/-- Writing a field over zeros adds its value. -/
lemma toNat_or_shiftLeft {v : ℕ} (hx : x.toNat = q * 2 ^ (s + b)) (hv : v < 2 ^ b) (hs : s < 64) (hsb : s + b ≤ 64) :
    (x ||| (UInt64.ofNat v <<< UInt64.ofNat s)).toNat = x.toNat + v * 2 ^ s := by
  have hvs : v * 2 ^ s < 2 ^ (s + b) := by
    rw [pow_add, Nat.mul_comm (2 ^ s)]
    exact Nat.mul_lt_mul_of_pos_right hv (Nat.two_pow_pos s)
  have h64 : 2 ^ (s + b) ≤ 2 ^ 64 := Nat.pow_le_pow_right (by norm_num) hsb
  have hv64 : v < 2 ^ 64 := lt_of_lt_of_le hv (Nat.pow_le_pow_right (by norm_num) (by omega))
  rw [UInt64.toNat_or, toNat_shiftLeft _ hs, toNat_ofNat_of_lt hv64,
    Nat.mod_eq_of_lt (lt_of_lt_of_le hvs h64), hx, Nat.mul_comm q,
    ← Nat.two_pow_add_eq_or_of_lt hvs]

end

/-! ## Signed words -/

lemma bmod_eq {z : ℤ} (hlo : -2 ^ 63 ≤ z) (hhi : z < 2 ^ 63) : z.bmod (2 ^ 64) = z := by
  apply Int.bmod_eq_of_le <;> norm_num <;> omega

lemma toInt_toInt64 {x : UInt64} (h : x.toNat < 2 ^ 63) : x.toInt64.toInt = x.toNat := by
  have hbits : x.toInt64.toInt = x.toBitVec.toInt := rfl
  have hnat : x.toBitVec.toNat = x.toNat := rfl
  rw [hbits, BitVec.toInt_eq_toNat_cond, hnat, if_pos (by omega)]

lemma toUInt64_of_toInt {x : Int64} {n : ℕ} (h : x.toInt = n) : x.toUInt64 = UInt64.ofNat n := by
  have hx := x.toInt_lt
  have hsize : Int64.size = 2 ^ 64 := rfl
  have hofNat : x = Int64.ofNat n := by
    rw [← Int64.toInt_inj, h, Int64.toInt_ofNat', hsize, bmod_eq (by omega) (by omega)]
  rw [hofNat, Int64.toUInt64_ofNat']

end Word64
