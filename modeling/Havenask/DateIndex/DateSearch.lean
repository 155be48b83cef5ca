import Havenask.DateIndex.DateTerm
import Havenask.Lib.LevelCover

/-!
# Searching a date index

The loop of `CalculateRanges` and `CalculateTerms` as a cover of an interval of numbers.  At a level
whose bits start at `T`, a key stands for its number of units `1 << T`.

* **One level.**  Each test and each new key of a round, on words, is the one of the cover on numbers
  (`stops_iff`, `toNat_higherLeftValue`, `higherRightValue_spec`); with no whole block left of the right
  end the subtraction wraps around, and the loop stops.
* **The loop** is the cover with the levels of the format (`keyIntervals_eq`).  The limits of the levels
  stand for right ends that are taken for the end of a block; no field of a date exceeds its limit
  (`Limited`).
* **Keys.**  The keys of a document meet the intervals level by level, whatever a search makes of an
  interval (`Hits`, `exists_hit_iff`).  For a granularity, a query finds the units between its ends but
  those lost above the last level (`exists_hit_query`).
-/

namespace Havenask

open DateLevelFormat LevelCover List Word64
open RadixCover (firstBlock)
open TimestampUtil (TM)

namespace DateTerm

/-! ## One level -/

/-- The bits of the field that a level compares with its limit. -/
def fieldBits (level : ℕ) : ℕ := if level % 2 = 1 then noMiddleLevelBits level else levelBits level

/-- The level of a cover: a right end is the end of its block when its field has reached the limit. -/
def dateLevel (level : ℕ) : Level where
  size := 2 ^ levelBits level
  full r := !(decide (r % 2 ^ fieldBits level < levelValueLimits level)
    && decide (r % 2 ^ levelBits level ≠ 2 ^ levelBits level - 1))

section
variable {level b T l r : ℕ} {fromKey toKey : UInt64}

lemma toNat_plusUnit {n : ℕ} (hn : n < 64) : (plusUnit n).toNat = 2 ^ n := by
  rw [plusUnit, toNat_shiftLeft _ hn, UInt64.toNat_one, one_mul,
    Nat.mod_eq_of_lt (Nat.pow_lt_pow_right (by norm_num) hn)]

lemma fromKeyHasTerms_eq (hT : T + b < 60) (hfrom : fromKey.toNat = l * 2 ^ T) :
    fromKeyHasTerms b T fromKey = decide (l % 2 ^ b ≠ 0) := by
  have hmask := toNat_and_fieldMask hfrom (b := b) (by omega) (by omega) (by omega)
  have hpos := Nat.two_pow_pos T
  rw [fromKeyHasTerms, decide_eq_decide, ne_eq, ne_eq, not_iff_not, ← UInt64.toNat_inj,
    levelBitsMask, lowMask, hmask, UInt64.toNat_zero]
  constructor
  · intro h
    exact (Nat.mul_eq_zero.mp h).resolve_right hpos.ne'
  · intro h
    rw [h, zero_mul]

lemma toNat_rightLevelValue (hlevel : level ≤ 12) (hT : T < 60) (hto : toKey.toNat = r * 2 ^ T) :
    (rightLevelValue level (levelBits level) T toKey).toNat = r % 2 ^ fieldBits level := by
  have hbits : fieldBits level < 64 := by
    interval_cases level <;> decide
  have hmask : (if level % 2 = 1 then lowMask (noMiddleLevelBits level)
      else lowMask (levelBits level)) = lowMask (fieldBits level) := by
    rw [fieldBits]
    split_ifs <;> rfl
  rw [rightLevelValue, hmask, lowMask, toNat_and_lowMask _ hbits,
    toNat_shiftRight _ (by omega), hto, Nat.mul_div_cancel _ (Nat.two_pow_pos T)]

lemma toKeyHasTerms_eq (hlevel : level ≤ 12) (hT : T + levelBits level < 60) (hto : toKey.toNat = r * 2 ^ T) :
    toKeyHasTerms level (levelBits level) T toKey = !(dateLevel level).full r := by
  have hmask := toNat_and_fieldMask hto (b := levelBits level) (by omega) (by omega) (by omega)
  have hall := toNat_fieldMask (s := T) (b := levelBits level) (by omega) (by omega) (by omega)
  have hpos := Nat.two_pow_pos T
  have hlimit : levelValueLimits level < 2 ^ 64 := by
    interval_cases level <;> decide
  have hvalue : rightLevelValue level (levelBits level) T toKey
      < UInt64.ofNat (levelValueLimits level)
        ↔ r % 2 ^ fieldBits level < levelValueLimits level := by
    rw [UInt64.lt_iff_toNat_lt, toNat_rightLevelValue hlevel (by omega) hto, toNat_ofNat_of_lt hlimit]
  have hfull : toKey &&& levelBitsMask (levelBits level) T = levelBitsMask (levelBits level) T
      ↔ r % 2 ^ levelBits level = 2 ^ levelBits level - 1 := by
    rw [← UInt64.toNat_inj, levelBitsMask, lowMask, hmask, hall, Nat.mul_right_cancel_iff hpos]
  rw [toKeyHasTerms, dateLevel, Bool.not_not]
  simp only [hvalue, ne_eq, hfull]

/-- The next left key is the first whole block. -/
lemma toNat_higherLeftValue (hT : T + b < 60) (hfrom : fromKey.toNat = l * 2 ^ T) (hlt : l * 2 ^ T < 2 ^ 60) :
    (higherLeftValue b T fromKey).toNat = firstBlock (2 ^ b) l * 2 ^ (T + b) := by
  rw [higherLeftValue, fromKeyHasTerms_eq hT hfrom, firstBlock, levelBitsMask, lowMask]
  by_cases h : l % 2 ^ b = 0
  · simp only [h, ne_eq, not_true_eq_false, decide_false, Bool.false_eq_true, if_false, if_true, add_zero]
    exact toNat_and_not_fieldMask hfrom (by omega) (by omega) (by omega)
  simp only [h, ne_eq, not_false_eq_true, decide_true, if_true, if_false]
  have hpow : 2 ^ (T + b) < 2 ^ 60 := Nat.pow_lt_pow_right (by norm_num) hT
  have hsum : (fromKey + plusUnit (T + b)).toNat = (l + 2 ^ b) * 2 ^ T := by
    rw [UInt64.toNat_add, toNat_plusUnit (by omega), hfrom, Nat.mod_eq_of_lt (by omega),
      Nat.add_mul, pow_add, Nat.mul_comm (2 ^ T)]
  rw [toNat_and_not_fieldMask hsum (by omega) (by omega) (by omega), Nat.add_div_right _ (Nat.two_pow_pos b)]

/-- Below the unit the subtraction of the next right key wraps around, to the top of the words. -/
lemma toNat_sub_plusUnit_of_lt (hT : T + b < 60) (hto : toKey.toNat = r * 2 ^ T) (hr : r < 2 ^ b) :
    (toKey - plusUnit (T + b)).toNat = (2 ^ b * (2 ^ (64 - (T + b)) - 1) + r) * 2 ^ T := by
  have hunit : 2 ^ (T + b) = 2 ^ b * 2 ^ T := by rw [pow_add, Nat.mul_comm]
  have hwords : 2 ^ (64 - (T + b)) * 2 ^ (T + b) = 2 ^ 64 := by
    rw [← pow_add, Nat.sub_add_cancel (by omega)]
  have hlt : r * 2 ^ T < 2 ^ (T + b) := by
    rw [hunit]
    exact Nat.mul_lt_mul_of_pos_right hr (Nat.two_pow_pos T)
  have hle : 2 ^ (T + b) < 2 ^ 60 := Nat.pow_lt_pow_right (by norm_num) hT
  rw [UInt64.toNat_sub, toNat_plusUnit (by omega), hto, Nat.mod_eq_of_lt (by omega)]
  calc 2 ^ 64 - 2 ^ (T + b) + r * 2 ^ T
      = (2 ^ (64 - (T + b)) - 1) * 2 ^ (T + b) + r * 2 ^ T := by
        rw [Nat.sub_mul, hwords, one_mul]
    _ = _ := by
        rw [hunit]
        ring

/-- The next right key is the last block taken for a whole one; without one it wraps around. -/
lemma higherRightValue_spec (hlevel : level ≤ 12) (hT : T + levelBits level < 60) (hto : toKey.toNat = r * 2 ^ T) :
    ((dateLevel level).endBlock r = 0 → 2 ^ 60 ≤ (higherRightValue level (levelBits level) T toKey).toNat)
    ∧ ((dateLevel level).endBlock r ≠ 0 → (higherRightValue level (levelBits level) T toKey).toNat
        = ((dateLevel level).endBlock r - 1) * 2 ^ (T + levelBits level)) := by
  have hpos := Nat.two_pow_pos (levelBits level)
  rw [higherRightValue, toKeyHasTerms_eq hlevel hT hto, Level.endBlock, levelBitsMask, lowMask]
  have hsize : (dateLevel level).size = 2 ^ levelBits level := rfl
  rw [hsize]
  cases hfull : (dateLevel level).full r with
  | true =>
    simp only [Bool.not_true, Bool.false_eq_true, if_false, if_true, Nat.add_sub_cancel]
    exact ⟨fun h => absurd h (Nat.succ_ne_zero _), fun _ =>
      toNat_and_not_fieldMask hto (by omega) (by omega) (by omega)⟩
  | false =>
    simp only [Bool.not_false, if_true, Bool.false_eq_true, if_false, add_zero]
    constructor
    · intro hzero
      have hr : r < 2 ^ levelBits level := (Nat.div_eq_zero_iff.mp hzero).resolve_left hpos.ne'
      rw [toNat_and_not_fieldMask (toNat_sub_plusUnit_of_lt hT hto hr) (by omega) (by omega)
        (by omega), Nat.mul_add_div hpos, Nat.div_eq_of_lt hr, add_zero, Nat.sub_mul, one_mul,
        ← pow_add, Nat.sub_add_cancel (by omega)]
      have hle : 2 ^ (T + levelBits level) < 2 ^ 60 := Nat.pow_lt_pow_right (by norm_num) hT
      omega
    · intro hne
      have hr : 2 ^ levelBits level ≤ r := by
        by_contra hlt
        exact hne (Nat.div_eq_of_lt (not_le.mp hlt))
      have hsub : (toKey - plusUnit (T + levelBits level)).toNat
          = (r - 2 ^ levelBits level) * 2 ^ T := by
        have hle : plusUnit (T + levelBits level) ≤ toKey := by
          rw [UInt64.le_iff_toNat_le, toNat_plusUnit (by omega), hto, pow_add, Nat.mul_comm (2 ^ T)]
          exact Nat.mul_le_mul_right _ hr
        rw [UInt64.toNat_sub_of_le _ _ hle, toNat_plusUnit (by omega), hto, pow_add,
          Nat.mul_comm (2 ^ T), ← Nat.sub_mul]
      rw [toNat_and_not_fieldMask hsub (by omega) (by omega) (by omega)]
      congr 1
      have hdiv := Nat.sub_mul_div r (2 ^ levelBits level) 1
      rwa [mul_one] at hdiv

/-- The last whole block starts inside the range. -/
lemma endBlock_pred_mul_le (level r : ℕ) : ((dateLevel level).endBlock r - 1) * 2 ^ levelBits level ≤ r :=
  calc ((dateLevel level).endBlock r - 1) * 2 ^ levelBits level
      ≤ r / 2 ^ levelBits level * 2 ^ levelBits level :=
        Nat.mul_le_mul_right _ (Nat.sub_le_of_le_add ((dateLevel level).endBlock_le r))
    _ ≤ r := Nat.div_mul_le_self _ _

/-- The loop stops when there is no whole block. -/
lemma stops_iff (hlevel : level ≤ 12) (hT : T + levelBits level < 60)
    (hfrom : fromKey.toNat = l * 2 ^ T) (hto : toKey.toNat = r * 2 ^ T)
    (hfromlt : fromKey.toNat < 2 ^ 60) (htolt : toKey.toNat < 2 ^ 60) :
    (higherRightValue level (levelBits level) T toKey < higherLeftValue (levelBits level) T fromKey
      ∨ higherLeftValue (levelBits level) T fromKey < fromKey
      ∨ toKey < higherRightValue level (levelBits level) T toKey)
    ↔ (dateLevel level).endBlock r ≤ firstBlock (2 ^ levelBits level) l := by
  have hleft := toNat_higherLeftValue hT hfrom (hfrom ▸ hfromlt)
  have hright := higherRightValue_spec hlevel hT hto
  have hunit : 2 ^ (T + levelBits level) = 2 ^ levelBits level * 2 ^ T := by
    rw [pow_add, Nat.mul_comm]
  have hpos := Nat.two_pow_pos (T + levelBits level)
  have hge : fromKey.toNat ≤ (higherLeftValue (levelBits level) T fromKey).toNat := by
    rw [hleft, hfrom, hunit, ← Nat.mul_assoc]
    exact Nat.mul_le_mul_right _ (le_firstBlock_mul (L := dateLevel level) (Nat.two_pow_pos _))
  simp only [UInt64.lt_iff_toNat_lt]
  by_cases hzero : (dateLevel level).endBlock r = 0
  · have := hright.1 hzero
    omega
  have hval := hright.2 hzero
  have hle : (higherRightValue level (levelBits level) T toKey).toNat ≤ toKey.toNat := by
    rw [hval, hto, hunit, ← Nat.mul_assoc]
    exact Nat.mul_le_mul_right _ (endBlock_pred_mul_le level r)
  have hlt : (higherRightValue level (levelBits level) T toKey).toNat
        < (higherLeftValue (levelBits level) T fromKey).toNat
      ↔ (dateLevel level).endBlock r - 1 < firstBlock (2 ^ levelBits level) l := by
    rw [hleft, hval]
    exact Nat.mul_lt_mul_right hpos
  omega

end

/-! ## The loop is a cover -/

/-- Numbers of a level as keys of it. -/
def scale (level T : ℕ) (p : ℕ × ℕ) : KeyInterval :=
  ⟨level, T, UInt64.ofNat (p.1 * 2 ^ T), UInt64.ofNat (p.2 * 2 ^ T)⟩

def scaleLevels : List ℕ → ℕ → List (List (ℕ × ℕ)) → List KeyInterval
  | level :: levels, T, ranges :: rest =>
    ranges.map (scale level T) ++ scaleLevels levels (T + levelBits level) rest
  | _, _, _ => []

/-- The levels of a format, all of them present. -/
def Present (format : DateLevelFormat) (levels : List ℕ) : Prop :=
  ∀ level ∈ levels, hasLevel format level = true ∧ getLevelBit level format = levelBits level
    ∧ level ≤ 12

lemma eq_ofNat {x : UInt64} {n : ℕ} (h : x.toNat = n) : x = UInt64.ofNat n := by
  rw [← h, UInt64.ofNat_toNat]

variable {format : DateLevelFormat} {levels : List ℕ}

/-- The intervals are a cover, from the lowest level of the format on. -/
lemma keyIntervals_eq {T l r : ℕ} {fromKey toKey : UInt64} (hlevels : Present format levels)
    (hT : T + (levels.map levelBits).sum < 60) (hfrom : fromKey.toNat = l * 2 ^ T)
    (hto : toKey.toNat = r * 2 ^ T) (hfromlt : fromKey.toNat < 2 ^ 60) (htolt : toKey.toNat < 2 ^ 60) :
    keyIntervals format levels T fromKey toKey = scaleLevels levels T (cover (levels.map dateLevel) l r) := by
  induction levels generalizing T l r fromKey toKey with
  | nil => rfl
  | cons level levels ih =>
    obtain ⟨⟨hhas, hbits, hlevel⟩, hrest⟩ := forall_mem_cons.mp hlevels
    rw [map_cons, sum_cons, ← Nat.add_assoc] at hT
    have hT' : T + levelBits level < 60 := by omega
    have hstops := stops_iff hlevel hT' hfrom hto hfromlt htolt
    have hleft := toNat_higherLeftValue hT' hfrom (hfrom ▸ hfromlt)
    have hsize : (dateLevel level).size = 2 ^ levelBits level := rfl
    simp only [keyIntervals, hhas, hbits, Bool.true_eq_false, if_false, hstops, map_cons, cover, hsize]
    by_cases hblocks : (dateLevel level).endBlock r ≤ firstBlock (2 ^ levelBits level) l
    · rw [if_pos hblocks, if_pos hblocks]
      simp only [scaleLevels, map_cons, map_nil, scale, ← eq_ofNat hfrom, ← eq_ofNat hto]
      cases levels <;> rfl
    rw [if_neg hblocks, if_neg hblocks]
    have hne : (dateLevel level).endBlock r ≠ 0 := by omega
    have hright := (higherRightValue_spec hlevel hT' hto).2 hne
    have hgo := mt hstops.mp hblocks
    simp only [UInt64.lt_iff_toNat_lt] at hgo
    rw [ih hrest hT hleft hright (by omega) (by omega), scaleLevels]
    congr 1
    rw [fromKeyHasTerms_eq hT' hfrom, toKeyHasTerms_eq hlevel hT' hto, Level.ends, hsize, map_append]
    congr 1
    · by_cases h : l % 2 ^ levelBits level = 0
      · simp [h]
      · simp only [h, ne_eq, not_false_eq_true, decide_true, if_true, if_false, map_cons,
          map_nil, scale, ← eq_ofNat hfrom]
        rw [levelBitsMask, lowMask, eq_ofNat (toNat_or_fieldMask hfrom (by omega) (by omega) (by omega))]
    cases hfull : (dateLevel level).full r with
    | true => simp
    | false =>
      simp only [Bool.not_false, if_true, Bool.false_eq_true, if_false, map_cons, map_nil, scale, ← eq_ofNat hto]
      rw [levelBitsMask, lowMask, eq_ofNat (toNat_and_not_fieldMask hto (by omega)
        (by omega) (by omega)), pow_add, Nat.mul_comm (2 ^ T), Nat.mul_assoc]

/-! ## Keys in intervals -/

/-- No field of the number is above the limit of its level, from the first of the levels on. -/
def Limited : List ℕ → ℕ → Prop
  | [], _ => True
  | level :: levels, v =>
    v % 2 ^ fieldBits level ≤ levelValueLimits level ∧ Limited levels (v / 2 ^ levelBits level)

lemma levelBits_le_fieldBits {level : ℕ} (h : level ≤ 12) : levelBits level ≤ fieldBits level := by
  interval_cases level <;> decide

variable {v : ℕ}

/-- A number with a field that has not passed the limit is not after a right end that has reached it. -/
lemma le_of_full {level r : ℕ} (hlevel : level ≤ 12)
    (hv : v % 2 ^ fieldBits level ≤ levelValueLimits level) (hfull : (dateLevel level).full r = true)
    (hblock : v / 2 ^ levelBits level = r / 2 ^ levelBits level) : v ≤ r := by
  have hpos := Nat.two_pow_pos (levelBits level)
  have hvr := Nat.div_add_mod' v (2 ^ levelBits level)
  have hrr := Nat.div_add_mod' r (2 ^ levelBits level)
  by_cases hlast : r % 2 ^ levelBits level = 2 ^ levelBits level - 1
  · rw [hblock] at hvr
    omega
  have hlimit : levelValueLimits level ≤ r % 2 ^ fieldBits level := by
    by_contra hlt
    simp [dateLevel, hlast, not_le.mp hlt] at hfull
  have hfield : v / 2 ^ fieldBits level = r / 2 ^ fieldBits level := by
    obtain ⟨d, hd⟩ := Nat.exists_eq_add_of_le (levelBits_le_fieldBits hlevel)
    rw [hd, pow_add, ← Nat.div_div_eq_div_mul, ← Nat.div_div_eq_div_mul, hblock]
  have hvf := Nat.div_add_mod' v (2 ^ fieldBits level)
  have hrf := Nat.div_add_mod' r (2 ^ fieldBits level)
  rw [hfield] at hvf
  omega

lemma respects_of_limited (hlevels : ∀ level ∈ levels, level ≤ 12)
    (hv : Limited levels v) : Respects (levels.map dateLevel) v := by
  induction levels generalizing v with
  | nil => trivial
  | cons level levels ih =>
    obtain ⟨hlevel, hrest⟩ := forall_mem_cons.mp hlevels
    exact ⟨fun r => le_of_full hlevel hv.1, ih hrest hv.2⟩

lemma toNat_mark {level : ℕ} (hlevel : level ≤ 12) {x : UInt64} (hx : x.toNat < 2 ^ 60) :
    (mark level x).toNat = level * 2 ^ 60 + x.toNat := by
  have hshift := toNat_shiftLeft (UInt64.ofNat level) (k := 60) (by norm_num)
  have h60 : UInt64.ofNat 60 = 60 := rfl
  rw [h60, toNat_ofNat_of_lt (by omega), Nat.mod_eq_of_lt (by omega)] at hshift
  rw [mark, UInt64.toNat_or, hshift, Nat.or_comm, Nat.mul_comm level, ← Nat.two_pow_add_eq_or_of_lt hx]

/-- Numbers of a level that fit below its mark. -/
structure Fits (level T : ℕ) (p : ℕ × ℕ) : Prop where
  level_le : level ≤ 12
  bits : T + levelBits level < 60
  left : p.1 * 2 ^ T < 2 ^ 60
  right : p.2 * 2 ^ T < 2 ^ 60

variable {p : ℕ × ℕ}

lemma Fits.toNat_fromKey {level T : ℕ} (h : Fits level T p) : (scale level T p).fromKey.toNat = p.1 * 2 ^ T :=
  toNat_ofNat_of_lt (h.left.trans (by norm_num))

lemma Fits.toNat_toKey {level T : ℕ} (h : Fits level T p) : (scale level T p).toKey.toNat = p.2 * 2 ^ T :=
  toNat_ofNat_of_lt (h.right.trans (by norm_num))

/-- How a kind of search finds keys in an interval: those of its level, by their numbers. -/
structure Hits (hit : KeyInterval → UInt64 → Prop) : Prop where
  level_eq : ∀ {level T p level' x}, Fits level T p → level' ≤ 12 → x.toNat < 2 ^ 60 →
    hit (scale level T p) (mark level' x) → level' = level
  same : ∀ {level T p v}, Fits level T p → v * 2 ^ T < 2 ^ 60 → v % 2 ^ fieldBits level ≤ levelValueLimits level →
    (hit (scale level T p) (mark level (UInt64.ofNat (v * 2 ^ T))) ↔ p.1 ≤ v ∧ v ≤ p.2)

lemma toNat_and_not_lowMask_of_aligned {x : UInt64} {T b : ℕ} (hx : x.toNat = v * 2 ^ T) (hT : T + b < 64) :
    (x &&& ~~~lowMask (T + b)).toNat = v / 2 ^ b * 2 ^ (T + b) := by
  rw [lowMask, toNat_and_not_lowMask _ hT, hx, pow_add, ← Nat.div_div_eq_div_mul,
    Nat.mul_div_cancel _ (Nat.two_pow_pos T)]

lemma mem_encodeLevels {T : ℕ} {key k : UInt64}
    (hkey : key.toNat < 2 ^ 60) (hk : k ∈ encodeLevels format levels T key) :
    ∃ level ∈ levels, ∃ x, x.toNat < 2 ^ 60 ∧ k = mark level x := by
  induction levels generalizing T key with
  | nil => simp [encodeLevels] at hk
  | cons level levels ih =>
    rw [encodeLevels, mem_append] at hk
    rcases hk with hk | hk
    · split_ifs at hk
      · exact ⟨level, by simp, key, hkey, mem_singleton.mp hk⟩
      · simp at hk
    have hle : (key &&& ~~~lowMask (T + levelBits level)).toNat ≤ key.toNat := by
      rw [UInt64.toNat_and]
      exact Nat.and_le_left
    obtain ⟨level', hlevel', hx⟩ := ih (lt_of_le_of_lt hle hkey) hk
    exact ⟨level', by simp [hlevel'], hx⟩

section
variable {level T l r : ℕ}

lemma fits_of_mem_ends (hlevel : level ≤ 12) (hT : T + levelBits level < 60)
    (hl : l * 2 ^ T < 2 ^ 60) (hr : r * 2 ^ T < 2 ^ 60) (hp : p ∈ (dateLevel level).ends l r) : Fits level T p := by
  have hsize : (dateLevel level).size = 2 ^ levelBits level := rfl
  have hround : ∀ n, n / 2 ^ levelBits level * 2 ^ levelBits level * 2 ^ T ≤ n * 2 ^ T := fun n =>
    Nat.mul_le_mul_right _ (Nat.div_mul_le_self _ _)
  rw [Level.ends, hsize] at hp
  rcases mem_append.mp hp with hp | hp
  · split_ifs at hp
    · simp at hp
    · obtain rfl := mem_singleton.mp hp
      refine ⟨hlevel, hT, hl, ?_⟩
      -- the end of the block of `l` is below the next multiple of the block, and so is `2 ^ 60`
      have hblock : l / 2 ^ levelBits level < 2 ^ (60 - (T + levelBits level)) := by
        rw [Nat.div_lt_iff_lt_mul (Nat.two_pow_pos _), ← pow_add]
        refine lt_of_mul_lt_mul_right (a := 2 ^ T) ?_ (Nat.zero_le _)
        have hexp : 60 - (T + levelBits level) + levelBits level + T = 60 := by omega
        rw [← pow_add, hexp]
        exact hl
      calc (l / 2 ^ levelBits level * 2 ^ levelBits level + (2 ^ levelBits level - 1)) * 2 ^ T
          < (l / 2 ^ levelBits level + 1) * 2 ^ levelBits level * 2 ^ T := by
            refine Nat.mul_lt_mul_of_pos_right ?_ (Nat.two_pow_pos T)
            have := Nat.two_pow_pos (levelBits level)
            rw [Nat.add_mul, one_mul]
            omega
        _ ≤ 2 ^ (60 - (T + levelBits level)) * 2 ^ levelBits level * 2 ^ T :=
            Nat.mul_le_mul_right _ (Nat.mul_le_mul_right _ hblock)
        _ = 2 ^ 60 := by
            rw [← pow_add, ← pow_add]
            congr 1
            omega
  · split_ifs at hp
    · simp at hp
    · obtain rfl := mem_singleton.mp hp
      exact ⟨hlevel, hT, lt_of_le_of_lt (hround r) hr, hr⟩

/-- The whole blocks are numbers of the next level that fit. -/
lemma next_lt (hr : r * 2 ^ T < 2 ^ 60)
    (hblocks : ¬ (dateLevel level).endBlock r ≤ firstBlock (2 ^ levelBits level) l) :
    firstBlock (2 ^ levelBits level) l * 2 ^ (T + levelBits level) < 2 ^ 60
    ∧ ((dateLevel level).endBlock r - 1) * 2 ^ (T + levelBits level) < 2 ^ 60 := by
  have hle : ((dateLevel level).endBlock r - 1) * 2 ^ (T + levelBits level) ≤ r * 2 ^ T := by
    rw [pow_add, Nat.mul_comm (2 ^ T), ← Nat.mul_assoc]
    exact Nat.mul_le_mul_right _ (endBlock_pred_mul_le level r)
  have hfirst : firstBlock (2 ^ levelBits level) l * 2 ^ (T + levelBits level)
      ≤ ((dateLevel level).endBlock r - 1) * 2 ^ (T + levelBits level) :=
    Nat.mul_le_mul_right _ (by omega)
  omega

end

lemma mem_scaleLevels (hlevels : ∀ level ∈ levels, level ≤ 12) {T l r : ℕ}
    (hT : T + (levels.map levelBits).sum < 60) (hl : l * 2 ^ T < 2 ^ 60) (hr : r * 2 ^ T < 2 ^ 60)
    {interval : KeyInterval} (hmem : interval ∈ scaleLevels levels T (cover (levels.map dateLevel) l r)) :
    ∃ level ∈ levels, ∃ T' p, interval = scale level T' p ∧ Fits level T' p := by
  induction levels generalizing T l r with
  | nil => simp [scaleLevels] at hmem
  | cons level levels ih =>
    obtain ⟨hlevel, hrest⟩ := forall_mem_cons.mp hlevels
    rw [map_cons, sum_cons, ← Nat.add_assoc] at hT
    have hsize : (dateLevel level).size = 2 ^ levelBits level := rfl
    rw [map_cons, cover, hsize] at hmem
    split_ifs at hmem with hblocks
    · have hnil : scaleLevels levels (T + levelBits level) [] = [] := by
        cases levels <;> rfl
      rw [scaleLevels, hnil, append_nil] at hmem
      obtain ⟨p, hp, rfl⟩ := mem_map.mp hmem
      obtain rfl := mem_singleton.mp hp
      exact ⟨level, by simp, T, (l, r), rfl, hlevel, by omega, hl, hr⟩
    rw [scaleLevels] at hmem
    rcases mem_append.mp hmem with hmem | hmem
    · obtain ⟨p, hp, rfl⟩ := mem_map.mp hmem
      exact ⟨level, by simp, T, p, rfl, fits_of_mem_ends hlevel (by omega) hl hr hp⟩
    obtain ⟨hl', hr'⟩ := next_lt hr hblocks
    obtain ⟨level', hlevel', h⟩ := ih hrest hT hl' hr' hmem
    exact ⟨level', by simp [hlevel'], h⟩

/-- **A number has a key in an interval of the cover exactly when the cover selects it.** -/
lemma exists_hit_iff {hit : KeyInterval → UInt64 → Prop} (hhit : Hits hit) (hlevels : Present format levels)
    (hnodup : levels.Nodup) {T l r : ℕ} {key : UInt64}
    (hT : T + (levels.map levelBits).sum < 60) (hl : l * 2 ^ T < 2 ^ 60) (hr : r * 2 ^ T < 2 ^ 60)
    (hkey : key.toNat = v * 2 ^ T) (hv : v * 2 ^ T < 2 ^ 60) (hlimited : Limited levels v) :
    (∃ interval ∈ scaleLevels levels T (cover (levels.map dateLevel) l r),
      ∃ k ∈ encodeLevels format levels T key, hit interval k)
    ↔ Selects (levels.map dateLevel) (cover (levels.map dateLevel) l r) v := by
  induction levels generalizing T l r v key with
  | nil => simp [scaleLevels, Selects]
  | cons level levels ih =>
    obtain ⟨⟨hhas, hbits, hlevel⟩, hrest⟩ := forall_mem_cons.mp hlevels
    obtain ⟨hnew, hnodup⟩ := nodup_cons.mp hnodup
    rw [map_cons, sum_cons, ← Nat.add_assoc] at hT
    have hsize : (dateLevel level).size = 2 ^ levelBits level := rfl
    have hnil : scaleLevels levels (T + levelBits level) [] = [] := by
      cases levels <;> rfl
    have hselnil : ∀ w, ¬ Selects (levels.map dateLevel) [] w := by
      intro w
      cases levels <;> exact not_false
    have hkey' := toNat_and_not_lowMask_of_aligned hkey (b := levelBits level) (by omega)
    have hv' : v / 2 ^ levelBits level * 2 ^ (T + levelBits level) < 2 ^ 60 := by
      refine lt_of_le_of_lt ?_ hv
      rw [pow_add, Nat.mul_comm (2 ^ T), ← Nat.mul_assoc]
      exact Nat.mul_le_mul_right _ (Nat.div_mul_le_self _ _)
    -- the keys of the other levels are not in the intervals of this one
    have hsame : ∀ p, Fits level T p →
        ((∃ k ∈ encodeLevels format (level :: levels) T key, hit (scale level T p) k)
          ↔ p.1 ≤ v ∧ v ≤ p.2) := by
      intro p hp
      rw [← hhit.same hp hv hlimited.1, ← eq_ofNat hkey, encodeLevels, hhas, if_pos rfl]
      constructor
      · rintro ⟨k, hk, h⟩
        rcases mem_cons.mp hk with rfl | hk
        · exact h
        obtain ⟨level', hlevel', x, hx, rfl⟩ := mem_encodeLevels (by rw [hkey']; exact hv') hk
        obtain rfl := hhit.level_eq hp (hrest level' hlevel').2.2 hx h
        exact absurd hlevel' hnew
      · exact fun h => ⟨_, mem_cons_self, h⟩
    rw [map_cons, cover, hsize]
    by_cases hblocks : (dateLevel level).endBlock r ≤ firstBlock (2 ^ levelBits level) l
    · rw [if_pos hblocks, scaleLevels, hnil, Selects]
      simp only [map_cons, map_nil, append_nil, mem_singleton, exists_eq_left, hselnil, or_false]
      exact hsame (l, r) ⟨hlevel, by omega, hl, hr⟩
    obtain ⟨hl', hr'⟩ := next_lt hr hblocks
    have hrec := ih hrest hnodup hT hl' hr' hkey' hv' hlimited.2
    rw [if_neg hblocks, scaleLevels, Selects, hsize, ← hrec]
    constructor
    · rintro ⟨interval, hmem, hk⟩
      rcases mem_append.mp hmem with hmem | hmem
      · obtain ⟨p, hp, rfl⟩ := mem_map.mp hmem
        exact Or.inl ⟨p, hp, (hsame p (fits_of_mem_ends hlevel (by omega) hl hr hp)).mp hk⟩
      obtain ⟨k, hk, h⟩ := hk
      rw [encodeLevels, hhas, if_pos rfl] at hk
      rcases mem_cons.mp hk with rfl | hk
      · -- nor is the key of this level in the intervals of the others
        obtain ⟨level', hlevel', T', p, rfl, hfits⟩ := mem_scaleLevels (fun a ha => (hrest a ha).2.2) hT hl' hr' hmem
        obtain rfl := hhit.level_eq hfits hlevel (by rw [hkey]; exact hv) h
        exact absurd hlevel' hnew
      · exact Or.inr ⟨interval, hmem, k, hk, h⟩
    · rintro (⟨p, hp, hin⟩ | ⟨interval, hmem, k, hk, h⟩)
      · exact ⟨scale level T p, mem_append_left _ (mem_map_of_mem hp),
          (hsame p (fits_of_mem_ends hlevel (by omega) hl hr hp)).mpr hin⟩
      · refine ⟨interval, mem_append_right _ hmem, k, ?_, h⟩
        rw [encodeLevels, hhas, if_pos rfl]
        exact mem_cons_of_mem _ hk

/-! ## The levels of a granularity -/

/-- The levels that a granularity keeps. -/
def presentLevels (granularity : Granularity) : List ℕ :=
  List.range' (getGranularityLevel granularity) (13 - getGranularityLevel granularity)

def absentLevels (granularity : Granularity) : List ℕ := List.range' 1 (getGranularityLevel granularity - 1)

variable (granularity : Granularity)

lemma range'_eq_append : range' 1 12 = absentLevels granularity ++ presentLevels granularity := by
  cases granularity <;> rfl

lemma present_presentLevels : Present (init granularity) (presentLevels granularity) := by
  unfold Present
  cases granularity <;> decide

lemma hasLevel_absentLevels : ∀ level ∈ absentLevels granularity,
      hasLevel (init granularity) level = false := by
  cases granularity <;> decide

/-- Where the lowest field of a granularity is. -/
def unitBits : Granularity → ℕ
  | .millisecond => 0
  | .second => 10
  | .minute => 16
  | .hour => 22
  | .day => 27
  | .month => 32
  | .year => 36

/-- Where the loop takes the lowest level to be: the bits `GetLevelBit` counts for the absent levels.
It counts none for the month, so that the years are taken to be four bits lower than they are. -/
def startBits (granularity : Granularity) : ℕ :=
  ((absentLevels granularity).map (getLevelBit · (DateLevelFormat.init granularity))).sum

lemma startBits_eq : startBits granularity = if granularity = .year then 32 else unitBits granularity := by
  cases granularity <;> decide

lemma sum_levelBits_absentLevels : ((absentLevels granularity).map levelBits).sum = unitBits granularity := by
  cases granularity <;> rfl

lemma keyIntervals_skip {absent levels : List ℕ} {T : ℕ}
    {fromKey toKey : UInt64} (habsent : ∀ level ∈ absent, hasLevel format level = false) :
    keyIntervals format (absent ++ levels) T fromKey toKey
    = keyIntervals format levels (T + (absent.map (getLevelBit · format)).sum) fromKey toKey := by
  induction absent generalizing T with
  | nil => rfl
  | cons level absent ih =>
    obtain ⟨hlevel, hrest⟩ := forall_mem_cons.mp habsent
    simp only [cons_append, keyIntervals, hlevel, if_true, map_cons, sum_cons]
    rw [ih hrest, Nat.add_assoc]

lemma encodeLevels_skip {absent levels : List ℕ} {T u : ℕ}
    {key : UInt64} (habsent : ∀ level ∈ absent, hasLevel format level = false)
    (hu : T + (absent.map levelBits).sum ≤ u) (hu64 : u < 64) (hkey : 2 ^ u ∣ key.toNat) :
    encodeLevels format (absent ++ levels) T key
    = encodeLevels format levels (T + (absent.map levelBits).sum) key := by
  induction absent generalizing T with
  | nil => rfl
  | cons level absent ih =>
    obtain ⟨hlevel, hrest⟩ := forall_mem_cons.mp habsent
    rw [map_cons, sum_cons, ← Nat.add_assoc] at hu ⊢
    have hsame : key &&& ~~~lowMask (T + levelBits level) = key := by
      have hdvd : 2 ^ (T + levelBits level) ∣ key.toNat := (Nat.pow_dvd_pow 2 (by omega)).trans hkey
      rw [← UInt64.toNat_inj, lowMask, toNat_and_not_lowMask _ (by omega), Nat.div_mul_cancel hdvd]
    rw [cons_append, encodeLevels, hlevel, hsame, ← ih hrest hu]
    rfl

/-- The keys of a document, from the lowest level of the granularity on. -/
lemma encodeDateTermToTerms_eq {word : UInt64}
    (hword : 2 ^ unitBits granularity ∣ word.toNat) (hlt : word.toNat < 2 ^ 60) :
    encodeDateTermToTerms word (init granularity)
    = encodeLevels (init granularity) (presentLevels granularity) (startBits granularity) word := by
  have hmask : word &&& lowMask 60 = word := by
    rw [← UInt64.toNat_inj, lowMask, toNat_and_lowMask _ (by norm_num), Nat.mod_eq_of_lt hlt]
  have hu : unitBits granularity < 64 := by
    cases granularity <;> decide
  have hsum := sum_levelBits_absentLevels granularity
  rw [encodeDateTermToTerms, hmask, range'_eq_append granularity,
    encodeLevels_skip (hasLevel_absentLevels granularity) (by rw [hsum, zero_add]) hu hword, hsum,
    zero_add, startBits_eq]
  -- the only key of a year does not depend on the bits below it
  cases granularity <;> rfl

section
variable (granularity : Granularity) {left right : UInt64} {a b : ℕ}

lemma startBits_add_sum_lt : startBits granularity + ((presentLevels granularity).map levelBits).sum < 60 := by
  cases granularity <;> decide

section
variable (hleft : left.toNat = a * 2 ^ startBits granularity) (hright : right.toNat = b * 2 ^ startBits granularity)
  (hleftlt : left.toNat < 2 ^ 60) (hrightlt : right.toNat < 2 ^ 60)
include hleft hright hleftlt hrightlt

/-- The intervals of a query are a cover by the levels of the granularity. -/
lemma keyIntervals_init_eq : keyIntervals (init granularity) (range' 1 12) 0 left right
    = scaleLevels (presentLevels granularity) (startBits granularity)
      (cover ((presentLevels granularity).map dateLevel) a b) := by
  rw [range'_eq_append granularity, keyIntervals_skip (hasLevel_absentLevels granularity), zero_add]
  exact keyIntervals_eq (present_presentLevels granularity) (startBits_add_sum_lt granularity) hleft
    hright hleftlt hrightlt

lemma mem_keyIntervals_init {interval : KeyInterval}
    (hmem : interval ∈ keyIntervals (init granularity) (range' 1 12) 0 left right) :
    ∃ level T p, interval = scale level T p ∧ Fits level T p := by
  rw [keyIntervals_init_eq granularity hleft hright hleftlt hrightlt] at hmem
  obtain ⟨level, -, T, p, h⟩ := mem_scaleLevels (fun level h => (present_presentLevels granularity level h).2.2)
    (startBits_add_sum_lt granularity) (hleft ▸ hleftlt) (hright ▸ hrightlt) hmem
  exact ⟨level, T, p, h⟩

end

/-- **What a query finds**: the numbers in its interval but those lost above the last level. -/
lemma exists_hit_query {hit : KeyInterval → UInt64 → Prop} (hhit : Hits hit) {word : UInt64}
    (hleft : left.toNat = a * 2 ^ startBits granularity)
    (hright : right.toNat = b * 2 ^ startBits granularity) (hleftlt : left.toNat < 2 ^ 60)
    (hrightlt : right.toNat < 2 ^ 60) (hword : word.toNat = v * 2 ^ startBits granularity)
    (hdvd : 2 ^ unitBits granularity ∣ word.toNat) (hwordlt : word.toNat < 2 ^ 60)
    (hlimited : Limited (presentLevels granularity) v) :
    (∃ interval ∈ keyIntervals (init granularity) (range' 1 12) 0 left right,
      ∃ k ∈ encodeDateTermToTerms word (init granularity), hit interval k)
    ↔ (a ≤ v ∧ v ≤ b) ∧ ¬ Lost ((presentLevels granularity).map dateLevel) a b v := by
  have hpresent := present_presentLevels granularity
  rw [encodeDateTermToTerms_eq granularity hdvd hwordlt,
    keyIntervals_init_eq granularity hleft hright hleftlt hrightlt,
    exists_hit_iff hhit hpresent nodup_range' (startBits_add_sum_lt granularity)
      (hleft ▸ hleftlt) (hright ▸ hrightlt) hword (hword ▸ hwordlt) hlimited]
  refine selects_cover ?_ (respects_of_limited (fun level h => (hpresent level h).2.2) hlimited)
  intro L hL
  obtain ⟨level, -, rfl⟩ := mem_map.mp hL
  exact Nat.two_pow_pos _

end

end DateTerm

end Havenask
