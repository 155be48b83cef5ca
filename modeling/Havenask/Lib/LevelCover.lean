import Havenask.Lib.RadixCover

/-!
# Covering an interval with blocks of several sizes

A radix cover whose levels have sizes of their own, and which may take the right end for the end of
its block although it is not: a level says by `full` for which right ends it does.  That is exact for
numbers that never lie in the rest of such a block (`Respects`), as the days of a calendar do not lie
after the last day of a month.

The levels may run out while there are whole blocks left; these are lost.  `remainder` is what is left
after the last level, and a number is selected exactly when it is in the interval and not in there
(`selects_cover`).
-/

namespace LevelCover

open RadixCover (firstBlock firstBlock_mul firstBlock_le_iff)

/-- A level cuts blocks of `size` numbers. -/
structure Level where
  size : ℕ
  full : ℕ → Bool

namespace Level

variable (L : Level)

/-- The first and the last block, where the interval has only a part of them. -/
def ends (l r : ℕ) : List (ℕ × ℕ) :=
  (if l % L.size = 0 then [] else [(l, l / L.size * L.size + (L.size - 1))])
    ++ if L.full r then [] else [(r / L.size * L.size, r)]

/-- One more than the last block that is taken for a whole one. -/
def endBlock (r : ℕ) : ℕ := r / L.size + if L.full r then 1 else 0

lemma endBlock_le (r : ℕ) : L.endBlock r ≤ r / L.size + 1 := by
  unfold endBlock
  split_ifs
  · exact le_rfl
  · exact Nat.le_succ _

end Level

def cover : List Level → ℕ → ℕ → List (List (ℕ × ℕ))
  | [], _, _ => []
  | L :: levels, l, r =>
    if L.endBlock r ≤ firstBlock L.size l then [[(l, r)]]
    else L.ends l r :: cover levels (firstBlock L.size l) (L.endBlock r - 1)

def remainder : List Level → ℕ → ℕ → Option (ℕ × ℕ)
  | [], l, r => some (l, r)
  | L :: levels, l, r =>
    if L.endBlock r ≤ firstBlock L.size l then none
    else remainder levels (firstBlock L.size l) (L.endBlock r - 1)

/-- The block of a number after the last level. -/
def topBlock : List Level → ℕ → ℕ
  | [], v => v
  | L :: levels, v => topBlock levels (v / L.size)

variable {levels : List Level}

lemma topBlock_mono {v v' : ℕ} (hle : v ≤ v') : topBlock levels v ≤ topBlock levels v' := by
  induction levels generalizing v v' with
  | nil => exact hle
  | cons L levels ih => exact ih (Nat.div_le_div_right hle)

/-- Some range of some level has the number, or the block of it that belongs to the level. -/
def Selects : List Level → List (List (ℕ × ℕ)) → ℕ → Prop
  | L :: levels, ranges :: rest, v =>
    (∃ p ∈ ranges, p.1 ≤ v ∧ v ≤ p.2) ∨ Selects levels rest (v / L.size)
  | _, _, _ => False

/-- The number is never in the part of a block that a level takes for empty. -/
def Respects : List Level → ℕ → Prop
  | [], _ => True
  | L :: levels, v =>
    (∀ r, L.full r = true → v / L.size = r / L.size → v ≤ r) ∧ Respects levels (v / L.size)

/-- The number is among the blocks that no level covers. -/
def Lost (levels : List Level) (l r v : ℕ) : Prop :=
  ∃ p, remainder levels l r = some p ∧ p.1 ≤ topBlock levels v ∧ topBlock levels v ≤ p.2

section
variable {L : Level} {l r v : ℕ}

section
variable (hpos : 0 < L.size)
include hpos

lemma le_firstBlock_mul : l ≤ firstBlock L.size l * L.size := by
  have hlt := Nat.mod_lt l hpos
  have hdiv := Nat.div_add_mod' l L.size
  rw [firstBlock_mul hpos]
  split_ifs <;> omega

lemma mem_first_iff :
    (∃ p ∈ (if l % L.size = 0 then [] else [(l, l / L.size * L.size + (L.size - 1))]),
      p.1 ≤ v ∧ v ≤ p.2) ↔ l ≤ v ∧ v < firstBlock L.size l * L.size := by
  rw [firstBlock_mul hpos]
  split_ifs with h
  · simp
  · simp only [List.mem_singleton, exists_eq_left]
    omega

lemma mem_last_iff :
    (∃ p ∈ (if L.full r then [] else [(r / L.size * L.size, r)]), p.1 ≤ v ∧ v ≤ p.2)
    ↔ L.endBlock r * L.size ≤ v ∧ v ≤ r := by
  rw [Level.endBlock]
  split_ifs with h
  · have hlt := Nat.lt_div_mul_add hpos (a := r)
    rw [Nat.add_mul, one_mul]
    simp
    omega
  · simp

/-- What a level leaves to the next: the numbers between the incomplete blocks. -/
lemma inner_iff (hblocks : firstBlock L.size l < L.endBlock r) :
    (firstBlock L.size l ≤ v / L.size ∧ v / L.size ≤ L.endBlock r - 1)
    ↔ firstBlock L.size l * L.size ≤ v ∧ v < L.endBlock r * L.size := by
  rw [firstBlock_le_iff hpos, ← Nat.div_lt_iff_lt_mul hpos]
  omega

/-- The numbers before the end of the last block taken for a whole one are in the interval. -/
lemma le_of_lt_endBlock_mul (hresp : L.full r = true → v / L.size = r / L.size → v ≤ r)
    (hlt : v < L.endBlock r * L.size) : v ≤ r := by
  rw [← Nat.div_lt_iff_lt_mul hpos, Level.endBlock] at hlt
  have hmono : v / L.size < r / L.size → v ≤ r := fun h =>
    (lt_of_not_ge fun hle => absurd (Nat.div_le_div_right hle) (not_le.mpr h)).le
  split_ifs at hlt with h
  · rcases Nat.lt_succ_iff_lt_or_eq.mp hlt with hlt | heq
    · exact hmono hlt
    · exact hresp h heq
  · exact hmono (by omega)

end

end

lemma Lost.inInterval {l r v : ℕ} (hpos : ∀ L ∈ levels, 0 < L.size)
    (hresp : Respects levels v) (hlost : Lost levels l r v) : l ≤ v ∧ v ≤ r := by
  induction levels generalizing l r v with
  | nil =>
    obtain ⟨p, hp, hin⟩ := hlost
    obtain rfl : (l, r) = p := Option.some.inj hp
    exact hin
  | cons L levels ih =>
    rw [List.forall_mem_cons] at hpos
    obtain ⟨p, hp, hin⟩ := hlost
    rw [remainder] at hp
    split_ifs at hp with hblocks
    have hinner := (inner_iff hpos.1 (not_le.mp hblocks)).mp (ih hpos.2 hresp.2 ⟨p, hp, hin⟩)
    exact ⟨(le_firstBlock_mul hpos.1).trans hinner.1, le_of_lt_endBlock_mul hpos.1 (hresp.1 r) hinner.2⟩

/-- **Exact cover**, but for what is left after the last level. -/
theorem selects_cover {l r v : ℕ} (hpos : ∀ L ∈ levels, 0 < L.size) (hresp : Respects levels v) :
    Selects levels (cover levels l r) v ↔ (l ≤ v ∧ v ≤ r) ∧ ¬ Lost levels l r v := by
  induction levels generalizing l r v with
  | nil =>
    have hlost : Lost [] l r v ↔ l ≤ v ∧ v ≤ r := by simp [Lost, remainder, topBlock]
    rw [hlost]
    simp [Selects]
  | cons L levels ih =>
    rw [List.forall_mem_cons] at hpos
    by_cases hblocks : L.endBlock r ≤ firstBlock L.size l
    · have hlost : ¬ Lost (L :: levels) l r v := by
        rintro ⟨p, hp, -⟩
        rw [remainder, if_pos hblocks] at hp
        simp at hp
      have hnil : ∀ w, ¬ Selects levels [] w := by
        intro w
        cases levels <;> exact not_false
      rw [cover, if_pos hblocks]
      simp [Selects, hlost, hnil]
    have hlt := not_le.mp hblocks
    have hlost : Lost (L :: levels) l r v
        ↔ Lost levels (firstBlock L.size l) (L.endBlock r - 1) (v / L.size) := by
      rw [Lost, remainder, if_neg hblocks]
      rfl
    have hsub : Lost levels (firstBlock L.size l) (L.endBlock r - 1) (v / L.size) →
        firstBlock L.size l * L.size ≤ v ∧ v < L.endBlock r * L.size := fun h =>
      (inner_iff hpos.1 hlt).mp (h.inInterval hpos.2 hresp.2)
    have hmul : firstBlock L.size l * L.size ≤ L.endBlock r * L.size := Nat.mul_le_mul_right _ hlt.le
    have hl := le_firstBlock_mul (l := l) hpos.1
    have hr : v < L.endBlock r * L.size → v ≤ r := le_of_lt_endBlock_mul hpos.1 (hresp.1 r)
    rw [cover, if_neg hblocks, Selects, ih hpos.2 hresp.2, hlost, inner_iff hpos.1 hlt]
    have hends : (∃ p ∈ L.ends l r, p.1 ≤ v ∧ v ≤ p.2)
        ↔ (l ≤ v ∧ v < firstBlock L.size l * L.size)
          ∨ (L.endBlock r * L.size ≤ v ∧ v ≤ r) := by
      rw [← mem_first_iff hpos.1, ← mem_last_iff hpos.1, Level.ends]
      simp only [List.mem_append, or_and_right, exists_or]
    rw [hends]
    -- before the whole blocks, in them, after them
    by_cases hlo : v < firstBlock L.size l * L.size
    · have hn : ¬ Lost levels (firstBlock L.size l) (L.endBlock r - 1) (v / L.size) := fun h =>
        absurd (hsub h).1 (not_le.mpr hlo)
      have := hr (by omega)
      simp only [hn, not_false_eq_true, and_true]
      omega
    by_cases hhi : v < L.endBlock r * L.size
    · have := hr hhi
      by_cases hn : Lost levels (firstBlock L.size l) (L.endBlock r - 1) (v / L.size)
      · simp only [hn, not_true_eq_false, and_false, or_false, iff_false]
        omega
      · simp only [hn, not_false_eq_true, and_true]
        omega
    · have hn : ¬ Lost levels (firstBlock L.size l) (L.endBlock r - 1) (v / L.size) := fun h =>
        hhi (hsub h).2
      simp only [hn, not_false_eq_true, and_true]
      omega

/-- Nothing is left where the last level never takes a block for a whole one. -/
lemma remainder_append_eq_none {L : Level} {l r : ℕ}
    (hlast : ∀ r' ≤ topBlock levels r, L.endBlock r' = 0) : remainder (levels ++ [L]) l r = none := by
  induction levels generalizing l r with
  | nil =>
    rw [List.nil_append, remainder, hlast r le_rfl, if_pos (Nat.zero_le _)]
  | cons L' levels ih =>
    rw [List.cons_append, remainder]
    split_ifs with hblocks
    · rfl
    · refine ih fun r' hr' => hlast r' (hr'.trans (topBlock_mono ?_))
      exact Nat.sub_le_of_le_add (L'.endBlock_le r)

end LevelCover
