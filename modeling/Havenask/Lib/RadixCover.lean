import Mathlib.Data.Nat.ModEq
import Mathlib.Tactic.Ring
import Mathlib.Tactic.Linarith

/-!
# Covering an interval by blocks of a radix

An interval of naturals is cut at the multiples of `b`: an incomplete block at each end, and whole
blocks in between.  The whole blocks are an interval again, of numbers divided by `b`, and are cut in
the same way one level up.  `cover b n l r` lists the ranges of each level, the lowest level first,
for at most `n` levels above it.

A number is looked up by itself in the ranges of the lowest level, divided by `b` in those of the
next, and so on; `hits` counts the ranges that contain it.  The cover is exact and without overlap:
a number of the interval is hit once and any other never (`hits_cover`).
-/

namespace RadixCover

open Nat

/-- `p.1 ≤ v ≤ p.2`. -/
def inRange (v : ℕ) (p : ℕ × ℕ) : Bool := decide (p.1 ≤ v) && decide (v ≤ p.2)

/-- The first and the last block, where the interval has only a part of them. -/
def ends (b l r : ℕ) : List (ℕ × ℕ) :=
  (if l % b = 0 then [] else [(l, l / b * b + (b - 1))])
    ++ if r % b = b - 1 then [] else [(r / b * b, r)]

/-- The first whole block from `l` on. -/
def firstBlock (b l : ℕ) : ℕ := l / b + if l % b = 0 then 0 else 1

/-- One more than the last whole block up to `r`. -/
def endBlock (b r : ℕ) : ℕ := r / b + if r % b = b - 1 then 1 else 0

def cover (b : ℕ) : ℕ → ℕ → ℕ → List (List (ℕ × ℕ))
  | 0, l, r => [[(l, r)]]
  | n + 1, l, r =>
    if endBlock b r ≤ firstBlock b l then [[(l, r)]]
    else ends b l r :: cover b n (firstBlock b l) (endBlock b r - 1)

/-- How many ranges contain a number, or the block of it that belongs to their level. -/
def hits (b : ℕ) : List (List (ℕ × ℕ)) → ℕ → ℕ
  | [], _ => 0
  | ranges :: rest, v => ranges.countP (inRange v) + hits b rest (v / b)

lemma hits_singleton (b l r v : ℕ) : hits b [[(l, r)]] v = if l ≤ v ∧ v ≤ r then 1 else 0 := by
  simp [hits, inRange, List.countP_cons]

variable {b : ℕ}

section
variable (hb : 0 < b)
include hb

lemma firstBlock_le_iff (l v : ℕ) :
    firstBlock b l ≤ v / b ↔ firstBlock b l * b ≤ v := le_div_iff_mul_le hb

lemma lt_endBlock_iff (r v : ℕ) : v / b < endBlock b r ↔ v < endBlock b r * b := div_lt_iff_lt_mul hb

/-- Where the whole blocks start: at `l` or after the incomplete block of `l`. -/
lemma firstBlock_mul (l : ℕ) :
    firstBlock b l * b = if l % b = 0 then l else l / b * b + (b - 1) + 1 := by
  have hdiv := div_add_mod' l b
  unfold firstBlock
  split_ifs with h
  · rw [add_zero]
    omega
  · rw [add_mul, one_mul]
    omega

omit hb in
lemma endBlock_le (b r : ℕ) : endBlock b r ≤ r / b + 1 := by
  unfold endBlock
  split_ifs <;> omega

lemma endBlock_mul (r : ℕ) : endBlock b r * b = if r % b = b - 1 then r + 1 else r / b * b := by
  have hdiv := div_add_mod' r b
  unfold endBlock
  split_ifs with h
  · rw [add_mul, one_mul]
    omega
  · rw [add_zero]

/-- The incomplete blocks hold what the whole blocks leave out. -/
lemma countP_ends (l r v : ℕ) : (ends b l r).countP (inRange v)
    = (if l ≤ v ∧ v < firstBlock b l * b then 1 else 0) + if endBlock b r * b ≤ v ∧ v ≤ r then 1 else 0 := by
  rw [ends, List.countP_append, firstBlock_mul hb, endBlock_mul hb]
  congr 1
  · split_ifs <;> simp [inRange, List.countP_cons] <;> omega
  · split_ifs <;> simp [inRange, List.countP_cons] <;> omega

/-- **Exact cover.**  A number of the interval is hit exactly once, and no other number is. -/
theorem hits_cover (n l r v : ℕ) : hits b (cover b n l r) v = if l ≤ v ∧ v ≤ r then 1 else 0 := by
  induction n generalizing l r v with
  | zero => exact hits_singleton b l r v
  | succ n ih =>
    rw [cover]
    by_cases hblocks : endBlock b r ≤ firstBlock b l
    · rw [if_pos hblocks, hits_singleton]
    have hle : firstBlock b l * b ≤ endBlock b r * b := mul_le_mul_right b (by omega)
    have hl : l ≤ firstBlock b l * b := by
      rw [firstBlock_mul hb]
      have hlt := mod_lt l hb
      have hdiv := div_add_mod' l b
      split_ifs <;> omega
    have hr : endBlock b r * b ≤ r + 1 := by
      rw [endBlock_mul hb]
      have hdiv := div_mul_le_self r b
      split_ifs <;> omega
    have hinner : (firstBlock b l ≤ v / b ∧ v / b ≤ endBlock b r - 1)
        ↔ firstBlock b l * b ≤ v ∧ v < endBlock b r * b := by
      rw [← firstBlock_le_iff hb, ← lt_endBlock_iff hb]
      omega
    rw [if_neg hblocks, hits, countP_ends hb, ih]
    simp only [hinner]
    split_ifs <;> omega

/-- The ranges of a cover are in order, and below any multiple of the radix that the interval is
below. -/
lemma cover_bounds {B : ℕ} (n : ℕ) {l r : ℕ} (hlr : l ≤ r) (hr : r < B * b) :
    ∀ ranges ∈ cover b n l r, ∀ p ∈ ranges, p.1 ≤ p.2 ∧ p.2 < B * b := by
  have hpair : ∀ p ∈ [(l, r)], p.1 ≤ p.2 ∧ p.2 < B * b := by
    simpa using ⟨hlr, hr⟩
  induction n generalizing l r with
  | zero => simpa [cover] using hpair
  | succ n ih =>
    rw [cover]
    split_ifs with hblocks
    · simpa using hpair
    have hrdiv : r / b < B := Nat.div_lt_of_lt_mul (by rwa [Nat.mul_comm])
    have hldiv : l / b < B := lt_of_le_of_lt (Nat.div_le_div_right hlr) hrdiv
    have hlmod := div_add_mod' l b
    have hrmod := div_add_mod' r b
    have hllt := mod_lt l hb
    have hstep : l / b * b + b ≤ B * b := by
      calc l / b * b + b = (l / b + 1) * b := by ring
        _ ≤ B * b := mul_le_mul_right b hldiv
    have hend := endBlock_le b r
    have hnext : endBlock b r - 1 < B * b := lt_of_lt_of_le (by omega) (Nat.le_mul_of_pos_right B hb)
    have hnextle : firstBlock b l ≤ endBlock b r - 1 := by omega
    intro ranges hranges p hp
    rcases List.mem_cons.mp hranges with rfl | hrest
    · rw [ends] at hp
      rcases List.mem_append.mp hp with hp | hp
      · split_ifs at hp with h
        · simp at hp
        · obtain rfl := List.mem_singleton.mp hp
          constructor <;> dsimp only <;> omega
      split_ifs at hp with h
      · simp at hp
      · obtain rfl := List.mem_singleton.mp hp
        constructor <;> dsimp only <;> omega
    · exact ih hnextle hnext (by simpa using ⟨hnextle, hnext⟩) ranges hrest p hp

/-- Above the lowest level the numbers have been divided by the radix. -/
lemma cover_tail_bounds {B : ℕ} (n : ℕ) {l r : ℕ} (hr : r < B * b * b)
    {bottom : List (ℕ × ℕ)} {higher : List (List (ℕ × ℕ))} (hcover : cover b (n + 1) l r = bottom :: higher) :
    ∀ ranges ∈ higher, ∀ p ∈ ranges, p.1 ≤ p.2 ∧ p.2 < B * b := by
  rw [cover] at hcover
  split_ifs at hcover with hblocks
  · obtain ⟨-, rfl⟩ := List.cons.inj hcover
    simp
  obtain ⟨-, rfl⟩ := List.cons.inj hcover
  have hend := endBlock_le b r
  have hdiv : r / b < B * b := Nat.div_lt_of_lt_mul (by rwa [Nat.mul_comm])
  exact cover_bounds hb n (by omega) (by omega)

end

lemma length_cover_le (n l r : ℕ) : (cover b n l r).length ≤ n + 1 := by
  induction n generalizing l r with
  | zero => simp [cover]
  | succ n ih =>
    rw [cover]
    split_ifs
    · simp
    · simpa using ih _ _

end RadixCover
