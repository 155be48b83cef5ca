import Havenask.Lib.RadixCover
import Havenask.Lib.Word64

/-!
# Keys and search ranges of a range index

`index/common/field_format/range/RangeFieldEncoder.h`.  A number is indexed under sixteen keys: the
number itself, in the bottom index, and for each level from 1 to 15 the number shifted right by that
many nibbles, with the level in the top nibble, in the higher index.  A query for an interval is
turned into ranges of keys, at most two for each level: `CalculateSearchRange` cuts incomplete
blocks of sixteen off both ends and goes on with the whole blocks one level up.

The model computes with `UInt64` as the source does.  It is a radix cover with base 16 whose levels
are marked in the keys (`calculateSearchRange_eq`), and a number has a key in a range exactly when it
lies in the interval, and then a single one in a single range (`calculateSearchRange_exact`).
-/

namespace Havenask

namespace RangeFieldEncoder

open RadixCover List Word64

/-- `RangeFieldEncoder::RangeFieldType`. -/
inductive RangeFieldType
  | int | uint | unknown
  deriving DecidableEq

abbrev Range := UInt64 × UInt64

abbrev Ranges := List Range

/-! ## Encoding -/

/-- `NormalizeToUInt64`, with the two instances of `StringUtil::numberFromString` it calls. -/
def normalizeToUInt64 (int64FromString : String → Option Int64)
    (uint64FromString : String → Option UInt64) (type : RangeFieldType) (fieldValue : String) : Option UInt64 :=
  if type = .int then (int64FromString fieldValue).map fun num => ((1 : UInt64) <<< 63) + num.toUInt64
  else uint64FromString fieldValue

/-- The loop of `Encode`, from the level `levelIdx` on. -/
def encodeLevels : ℕ → UInt64 → UInt64 → List UInt64
  | 0, _, _ => []
  | n + 1, levelIdx, value =>
    let value := value >>> 4
    (value + (levelIdx <<< 60)) :: encodeLevels n (levelIdx + 1) value

/-- The sixteen keys of a value, that of the bottom index first. -/
def encodeValue (value : UInt64) : List UInt64 := value :: encodeLevels 15 1 value

def encode (int64FromString : String → Option Int64) (uint64FromString : String → Option UInt64)
    (fieldVec : List RangeFieldType) (fieldId : ℕ) (fieldValue : String) : List UInt64 :=
  match fieldVec[fieldId]? with
  | none => []
  | some type =>
    if type = .unknown then []
    else if fieldValue.isEmpty then []
    else
      match normalizeToUInt64 int64FromString uint64FromString type fieldValue with
      | none => []
      | some value => encodeValue value

/-! ## Search ranges -/

def mask : UInt64 := 15

def hasLower (leftTerm : UInt64) : Bool := decide (leftTerm &&& mask ≠ 0)

def hasUpper (rightTerm : UInt64) : Bool := decide (rightTerm &&& mask ≠ mask)

def nextLeftTerm (leftTerm : UInt64) : Int64 := (leftTerm >>> 4).toInt64 + if hasLower leftTerm then 1 else 0

/-- Signed, because there may be no block before that of `rightTerm`. -/
def nextRightTerm (rightTerm : UInt64) : Int64 := (rightTerm >>> 4).toInt64 - if hasUpper rightTerm then 1 else 0

/-- One round of the loop of `CalculateSearchRange`: the ranges it appends, and the terms it goes on
with, `none` after its `break`. -/
def searchLevel (level leftTerm rightTerm : UInt64) : Ranges × Option (UInt64 × UInt64) :=
  if level = 15 ∨ nextRightTerm rightTerm < nextLeftTerm leftTerm then
    ([(leftTerm + (level <<< 60), rightTerm + (level <<< 60))], none)
  else
    ((if hasLower leftTerm then
          [(leftTerm + (level <<< 60), (leftTerm ||| mask) + (level <<< 60))]
        else [])
        ++ (if hasUpper rightTerm then
          [((rightTerm &&& ~~~mask) + (level <<< 60), rightTerm + (level <<< 60))]
        else []),
      some ((nextLeftTerm leftTerm).toUInt64, (nextRightTerm rightTerm).toUInt64))

/-- The ranges go to the bottom index at level 0 and to the higher index above it. -/
def appendRanges (level : UInt64) (levelRanges : Ranges) (ranges : Ranges × Ranges) : Ranges × Ranges :=
  if level = 0 then (ranges.1 ++ levelRanges, ranges.2) else (ranges.1, ranges.2 ++ levelRanges)

def searchLoop : ℕ → UInt64 → UInt64 → UInt64 → Ranges × Ranges → Ranges × Ranges
  | 0, _, _, _, ranges => ranges
  | n + 1, level, leftTerm, rightTerm, ranges =>
    if leftTerm ≤ rightTerm then
      let (levelRanges, next) := searchLevel level leftTerm rightTerm
      let ranges := appendRanges level levelRanges ranges
      match next with
      | none => ranges
      | some (leftTerm, rightTerm) => searchLoop n (level + 1) leftTerm rightTerm ranges
    else ranges

/-- The ranges of the bottom index and those of the higher index. -/
def calculateSearchRange (leftTerm rightTerm : UInt64) : Ranges × Ranges :=
  searchLoop 16 0 leftTerm rightTerm ([], [])

/-! ## Words as numbers -/

lemma mask_eq : mask = (1 : UInt64) <<< UInt64.ofNat 4 - 1 := by decide

variable (x : UInt64)

lemma toNat_shiftRight_four : (x >>> 4).toNat = x.toNat / 16 := toNat_shiftRight x (k := 4) (by norm_num)

lemma toNat_and_mask : (x &&& mask).toNat = x.toNat % 16 := by
  rw [mask_eq]
  exact toNat_and_lowMask x (by norm_num)

lemma toNat_or_mask : (x ||| mask).toNat = x.toNat / 16 * 16 + 15 := by
  rw [mask_eq]
  exact toNat_or_lowMask x (by norm_num)

lemma toNat_and_not_mask : (x &&& ~~~mask).toNat = x.toNat / 16 * 16 := by
  rw [mask_eq]
  exact toNat_and_not_lowMask x (by norm_num)

lemma hasLower_eq : hasLower x = decide (x.toNat % 16 ≠ 0) := by
  rw [hasLower, decide_eq_decide, ne_eq, ← UInt64.toNat_inj, toNat_and_mask]
  rfl

lemma hasUpper_eq : hasUpper x = decide (x.toNat % 16 ≠ 15) := by
  rw [hasUpper, decide_eq_decide, ne_eq, ← UInt64.toNat_inj, toNat_and_mask]
  rfl

lemma toInt_nextLeftTerm : (nextLeftTerm x).toInt = firstBlock 16 x.toNat := by
  have hx := x.toNat_lt
  have hshift := toNat_shiftRight_four x
  have hword := toInt_toInt64 (x := x >>> 4) (by omega)
  rw [nextLeftTerm, hasLower_eq, firstBlock]
  by_cases h : x.toNat % 16 = 0
  · simp only [h, ne_eq, not_true_eq_false, decide_false, Bool.false_eq_true, if_false, if_true,
      Int64.add_zero, add_zero]
    rw [hword, hshift]
  simp only [h, ne_eq, not_false_eq_true, decide_true, if_true, if_false]
  rw [Int64.toInt_add, hword, hshift, Int64.toInt_one, bmod_eq (by omega) (by omega)]
  omega

/-- The next right term is the last whole block, -1 when there is none. -/
lemma toInt_nextRightTerm : (nextRightTerm x).toInt = endBlock 16 x.toNat - 1 := by
  have hx := x.toNat_lt
  have hshift := toNat_shiftRight_four x
  have hword := toInt_toInt64 (x := x >>> 4) (by omega)
  rw [nextRightTerm, hasUpper_eq, endBlock]
  by_cases h : x.toNat % 16 = 15
  · simp only [h, ne_eq, not_true_eq_false, decide_false, Bool.false_eq_true, if_false, if_true, Int64.sub_zero]
    rw [hword, hshift]
    omega
  simp only [h, ne_eq, not_false_eq_true, decide_true, if_true, if_false]
  rw [Int64.toInt_sub, hword, hshift, Int64.toInt_one, bmod_eq (by omega) (by omega)]
  omega

/-! ## The loop is a radix cover -/

/-- A range of blocks of a level, with the level in the top nibble of its ends. -/
def tag (level : ℕ) (p : ℕ × ℕ) : Range := (UInt64.ofNat (p.1 + level * 2 ^ 60), UInt64.ofNat (p.2 + level * 2 ^ 60))

lemma add_level (level : ℕ) : x + (UInt64.ofNat level <<< 60) = UInt64.ofNat (x.toNat + level * 2 ^ 60) := by
  have hshift := toNat_shiftLeft (UInt64.ofNat level) (k := 60) (by norm_num)
  have hlevel : UInt64.ofNat 60 = 60 := rfl
  rw [hlevel] at hshift
  rw [← UInt64.toNat_inj, UInt64.toNat_add, hshift, UInt64.toNat_ofNat', UInt64.toNat_ofNat']
  omega

/-- One round cuts off the incomplete blocks, or stops when there is no whole one. -/
lemma searchLevel_eq {level : ℕ} (hlevel : level ≤ 15) (leftTerm rightTerm : UInt64) :
    searchLevel (UInt64.ofNat level) leftTerm rightTerm
    = if level = 15 ∨ endBlock 16 rightTerm.toNat ≤ firstBlock 16 leftTerm.toNat then
        ([tag level (leftTerm.toNat, rightTerm.toNat)], none)
      else ((ends 16 leftTerm.toNat rightTerm.toNat).map (tag level),
        some (UInt64.ofNat (firstBlock 16 leftTerm.toNat), UInt64.ofNat (endBlock 16 rightTerm.toNat - 1))) := by
  have hleft := toInt_nextLeftTerm leftTerm
  have hright := toInt_nextRightTerm rightTerm
  have hlast : UInt64.ofNat level = 15 ↔ level = 15 := by
    rw [← UInt64.toNat_inj, toNat_ofNat_of_lt (by omega)]
    rfl
  have hstop : nextRightTerm rightTerm < nextLeftTerm leftTerm
      ↔ endBlock 16 rightTerm.toNat ≤ firstBlock 16 leftTerm.toNat := by
    rw [Int64.lt_iff_toInt_lt, hleft, hright]
    omega
  simp only [searchLevel, hlast, hstop, add_level]
  by_cases hdone : level = 15 ∨ endBlock 16 rightTerm.toNat ≤ firstBlock 16 leftTerm.toNat
  · rw [if_pos hdone, if_pos hdone]
    rfl
  have hnextRight : (nextRightTerm rightTerm).toInt = (endBlock 16 rightTerm.toNat - 1 : ℕ) := by
    omega
  rw [if_neg hdone, if_neg hdone, toUInt64_of_toInt hleft,
    toUInt64_of_toInt hnextRight, hasLower_eq, hasUpper_eq, toNat_or_mask,
    toNat_and_not_mask, ends, map_append]
  congr 2
  · by_cases h : leftTerm.toNat % 16 = 0
    · simp [h]
    · simp [h, tag]
  by_cases h : rightTerm.toNat % 16 = 15
  · simp [h]
  · simp [h, tag]

/-- The ranges of successive levels, from `level` on. -/
def tagLevels : ℕ → List (List (ℕ × ℕ)) → Ranges
  | _, [] => []
  | level, ranges :: rest => ranges.map (tag level) ++ tagLevels (level + 1) rest

lemma toNat_firstBlock : (UInt64.ofNat (firstBlock 16 x.toNat)).toNat = firstBlock 16 x.toNat := by
  have hx := x.toNat_lt
  apply toNat_ofNat_of_lt
  unfold firstBlock
  split_ifs <;> omega

lemma toNat_endBlock : (UInt64.ofNat (endBlock 16 x.toNat - 1)).toNat = endBlock 16 x.toNat - 1 := by
  have hx := x.toNat_lt
  apply toNat_ofNat_of_lt
  unfold endBlock
  split_ifs <;> omega

variable {leftTerm rightTerm : UInt64} {level level' k : ℕ} {levels : List (List (ℕ × ℕ))}

lemma next_le (h : ¬ endBlock 16 rightTerm.toNat ≤ firstBlock 16 leftTerm.toNat) :
    UInt64.ofNat (firstBlock 16 leftTerm.toNat) ≤ UInt64.ofNat (endBlock 16 rightTerm.toNat - 1) := by
  rw [UInt64.le_iff_toNat_le, toNat_firstBlock, toNat_endBlock]
  omega

/-- Above the bottom level the loop appends the levels of the cover one by one. -/
lemma searchLoop_eq (n : ℕ) {level : ℕ} (hpos : 0 < level) (hlevel : level + n = 15) (hle : leftTerm ≤ rightTerm)
    (ranges : Ranges × Ranges) : searchLoop (n + 1) (UInt64.ofNat level) leftTerm rightTerm ranges
    = (ranges.1, ranges.2 ++ tagLevels level (cover 16 n leftTerm.toNat rightTerm.toNat)) := by
  have hzero : UInt64.ofNat level ≠ 0 := by
    rw [ne_eq, ← UInt64.toNat_inj, toNat_ofNat_of_lt (by omega)]
    exact hpos.ne'
  induction n generalizing level leftTerm rightTerm ranges with
  | zero =>
    rw [searchLoop, if_pos hle, searchLevel_eq (by omega), if_pos (Or.inl (by omega))]
    simp [appendRanges, hzero, cover, tagLevels]
  | succ n ih =>
    rw [searchLoop, if_pos hle, searchLevel_eq (by omega), cover]
    by_cases hdone : endBlock 16 rightTerm.toNat ≤ firstBlock 16 leftTerm.toNat
    · rw [if_pos (Or.inr hdone), if_pos hdone]
      simp [appendRanges, hzero, tagLevels]
    have hsucc : UInt64.ofNat level + 1 = UInt64.ofNat (level + 1) := by
      rw [UInt64.ofNat_add]
      rfl
    rw [if_neg (by omega), if_neg hdone]
    dsimp only
    rw [hsucc, ih (by omega) (by omega) (next_le hdone), toNat_firstBlock, toNat_endBlock, tagLevels]
    · simp [appendRanges, hzero]
    · rw [ne_eq, ← UInt64.toNat_inj, toNat_ofNat_of_lt (by omega)]
      exact (Nat.succ_pos level).ne'

/-- **The search ranges are a radix cover** with base 16 and fifteen levels above the bottom. -/
lemma calculateSearchRange_eq (hle : leftTerm ≤ rightTerm) :
    ∃ bottom higher, cover 16 15 leftTerm.toNat rightTerm.toNat = bottom :: higher
    ∧ calculateSearchRange leftTerm rightTerm = (bottom.map (tag 0), tagLevels 1 higher) := by
  have hlevel : (0 : UInt64) = UInt64.ofNat 0 := rfl
  rw [calculateSearchRange, searchLoop, if_pos hle, hlevel, searchLevel_eq (by omega), cover]
  by_cases hdone : endBlock 16 rightTerm.toNat ≤ firstBlock 16 leftTerm.toNat
  · rw [if_pos (Or.inr hdone), if_pos hdone]
    exact ⟨_, _, rfl, rfl⟩
  have hgo : ¬ (0 = 15 ∨ endBlock 16 rightTerm.toNat ≤ firstBlock 16 leftTerm.toNat) := by omega
  rw [if_neg hgo, if_neg hdone]
  refine ⟨_, _, rfl, ?_⟩
  have hone : UInt64.ofNat 0 + 1 = UInt64.ofNat 1 := rfl
  dsimp only
  rw [hone, searchLoop_eq 14 (by norm_num) (by norm_num) (next_le hdone), toNat_firstBlock, toNat_endBlock]
  simp [appendRanges]

/-! ## Keys and ranges -/

def contains (key : UInt64) (range : Range) : Bool := decide (range.1 ≤ key) && decide (key ≤ range.2)

/-- A key of one level and a range of another have nothing in common. -/
lemma contains_tag {p : ℕ × ℕ} (hlevel : level ≤ 15) (hlevel' : level' ≤ 15)
    (hk : k < 2 ^ 60) (hp : p.1 ≤ p.2 ∧ p.2 < 2 ^ 60) : contains (UInt64.ofNat (k + level * 2 ^ 60)) (tag level' p)
    = (decide (level = level') && inRange k p) := by
  rw [contains, tag, inRange, Bool.eq_iff_iff]
  simp only [Bool.and_eq_true, decide_eq_true_eq, UInt64.le_iff_toNat_le]
  rw [toNat_ofNat_of_lt (by omega), toNat_ofNat_of_lt (by omega), toNat_ofNat_of_lt (by omega)]
  omega

/-- Ranges of blocks above the bottom level. -/
def Bounded (levels : List (List (ℕ × ℕ))) : Prop := ∀ ranges ∈ levels, ∀ p ∈ ranges, p.1 ≤ p.2 ∧ p.2 < 2 ^ 60

lemma countP_tag {ranges : List (ℕ × ℕ)} (hlevel : level ≤ 15)
    (hlevel' : level' ≤ 15) (hk : k < 2 ^ 60) (hp : ∀ p ∈ ranges, p.1 ≤ p.2 ∧ p.2 < 2 ^ 60) :
    (ranges.map (tag level')).countP (contains (UInt64.ofNat (k + level * 2 ^ 60)))
    = if level = level' then ranges.countP (inRange k) else 0 := by
  rw [countP_map]
  split_ifs with h
  · refine countP_congr fun p hmem => ?_
    rw [Function.comp_apply, contains_tag hlevel hlevel' hk (hp p hmem)]
    simp [h]
  rw [countP_eq_zero]
  intro p hmem
  rw [Function.comp_apply, contains_tag hlevel hlevel' hk (hp p hmem)]
  simp [h]

/-- The higher levels have no range for a key of a lower one. -/
lemma countP_tagLevels_of_lt (hlt : level < level') (hlevels : level' + levels.length ≤ 16) (hk : k < 2 ^ 60)
    (hbounded : Bounded levels) :
    (tagLevels level' levels).countP (contains (UInt64.ofNat (k + level * 2 ^ 60))) = 0 := by
  induction levels generalizing level' with
  | nil => rfl
  | cons ranges rest ih =>
    rw [length_cons] at hlevels
    rw [tagLevels, countP_append, countP_tag (by omega) (by omega) hk (hbounded ranges (by simp)), if_neg (by omega),
      ih (by omega) (by omega) fun r hr => hbounded r (by simp [hr])]

lemma encodeLevels_succ (n level : ℕ) (value : UInt64) : encodeLevels (n + 1) (UInt64.ofNat level) value
    = UInt64.ofNat (value.toNat / 16 + level * 2 ^ 60)
      :: encodeLevels n (UInt64.ofNat (level + 1)) (value >>> 4) := by
  have hsucc : UInt64.ofNat level + 1 = UInt64.ofNat (level + 1) := by
    rw [UInt64.ofNat_add]
    rfl
  rw [encodeLevels, add_level, toNat_shiftRight_four, hsucc]

lemma length_encodeLevels (n : ℕ) (level value : UInt64) : (encodeLevels n level value).length = n := by
  induction n generalizing level value with
  | zero => rfl
  | succ n ih => simp [encodeLevels, ih]

lemma mem_encodeLevels {n level : ℕ} {value key : UInt64} (h : key ∈ encodeLevels n (UInt64.ofNat level) value) :
    ∃ level' k, level ≤ level' ∧ level' < level + n ∧ k < 2 ^ 60
    ∧ key = UInt64.ofNat (k + level' * 2 ^ 60) := by
  induction n generalizing level value with
  | zero => simp [encodeLevels] at h
  | succ n ih =>
    rw [encodeLevels_succ] at h
    rcases mem_cons.mp h with rfl | h
    · have hvalue := value.toNat_lt
      exact ⟨level, value.toNat / 16, le_rfl, by omega, by omega, rfl⟩
    · obtain ⟨level', k, hle, hlt, hk, rfl⟩ := ih h
      exact ⟨level', k, by omega, by omega, hk, rfl⟩

/-- How many ranges contain one of the keys. -/
def countMatches (keys : List UInt64) (ranges : Ranges) : ℕ := (keys.map fun key => ranges.countP (contains key)).sum

/-- **The keys of the higher index look a value up in the cover.**  The induction goes up the levels
together with the keys and the ranges; keys and ranges of different levels do not meet. -/
lemma countMatches_encodeLevels (n : ℕ) {level : ℕ} (hlevel : level + n = 16) (value : UInt64)
    (hlen : levels.length ≤ n) (hbounded : Bounded levels) :
    countMatches (encodeLevels n (UInt64.ofNat level) value) (tagLevels level levels)
    = hits 16 levels (value.toNat / 16) := by
  induction n generalizing level value levels with
  | zero =>
    obtain rfl := eq_nil_of_length_eq_zero (Nat.le_zero.mp hlen)
    rfl
  | succ n ih =>
    cases levels with
    | nil => simp [countMatches, tagLevels, hits]
    | cons ranges rest =>
      have hvalue := value.toNat_lt
      have hranges := hbounded ranges (by simp)
      have hrest : Bounded rest := fun r hr => hbounded r (by simp [hr])
      rw [length_cons] at hlen
      have hhead : (tagLevels level (ranges :: rest)).countP
          (contains (UInt64.ofNat (value.toNat / 16 + level * 2 ^ 60)))
            = ranges.countP (inRange (value.toNat / 16)) := by
        rw [tagLevels, countP_append, countP_tag (by omega) (by omega) (by omega) hranges,
          if_pos rfl, countP_tagLevels_of_lt (by omega) (by omega) (by omega) hrest, add_zero]
      have htail : ∀ key ∈ encodeLevels n (UInt64.ofNat (level + 1)) (value >>> 4),
          (tagLevels level (ranges :: rest)).countP (contains key)
            = (tagLevels (level + 1) rest).countP (contains key) := by
        intro key hkey
        obtain ⟨level', k, hle, hlt, hk, rfl⟩ := mem_encodeLevels hkey
        rw [tagLevels, countP_append, countP_tag (by omega) (by omega) hk hranges,
          if_neg (by omega), zero_add]
      have hih := ih (by omega : level + 1 + n = 16) (value >>> 4) (by omega) hrest
      rw [toNat_shiftRight_four] at hih
      rw [encodeLevels_succ, countMatches, map_cons, sum_cons, hhead, map_congr_left htail, hits, ← hih]
      rfl

/-- Level 0 has no mark. -/
lemma countP_bottom {value : UInt64} {ranges : List (ℕ × ℕ)} (hp : ∀ p ∈ ranges, p.1 ≤ p.2 ∧ p.2 < 2 ^ 64) :
    (ranges.map (tag 0)).countP (contains value) = ranges.countP (inRange value.toNat) := by
  rw [countP_map]
  refine countP_congr fun p hmem => ?_
  obtain ⟨hle, hlt⟩ := hp p hmem
  simp only [Function.comp_apply, contains, tag, inRange, zero_mul, add_zero, Bool.and_eq_true,
    decide_eq_true_eq, UInt64.le_iff_toNat_le]
  rw [toNat_ofNat_of_lt (by omega), toNat_ofNat_of_lt (by omega)]

/-- The keys of a value that the search ranges contain, counted: one for a value of the interval, and
none for any other. -/
lemma countMatches_calculateSearchRange (hle : leftTerm ≤ rightTerm) (value : UInt64) :
    (calculateSearchRange leftTerm rightTerm).1.countP (contains value)
      + countMatches (encodeLevels 15 1 value) (calculateSearchRange leftTerm rightTerm).2
    = if leftTerm ≤ value ∧ value ≤ rightTerm then 1 else 0 := by
  obtain ⟨bottom, higher, hcover, hranges⟩ := calculateSearchRange_eq hle
  rw [UInt64.le_iff_toNat_le] at hle
  have hright := rightTerm.toNat_lt
  have hbottom : ∀ p ∈ bottom, p.1 ≤ p.2 ∧ p.2 < 2 ^ 64 := by
    have hbounds := cover_bounds (b := 16) (B := 2 ^ 60) (by norm_num) 15 hle (by omega)
    rw [hcover] at hbounds
    exact fun p hp => by simpa using hbounds bottom (by simp) p hp
  have hhigher : Bounded higher := by
    have hbounds := cover_tail_bounds (b := 16) (B := 2 ^ 56) (by norm_num) 14 (by omega) hcover
    exact fun ranges hranges p hp => by simpa using hbounds ranges hranges p hp
  have hlength := length_cover_le (b := 16) 15 leftTerm.toNat rightTerm.toNat
  have hhits := hits_cover (b := 16) (by norm_num) 15 leftTerm.toNat rightTerm.toNat value.toNat
  rw [hcover, length_cons] at hlength
  rw [hcover, hits] at hhits
  have hone : (1 : UInt64) = UInt64.ofNat 1 := rfl
  rw [hranges, countP_bottom hbottom, hone,
    countMatches_encodeLevels 15 (by norm_num) value (by omega) hhigher, hhits]
  simp only [UInt64.le_iff_toNat_le]

lemma countMatches_pos_iff (keys : List UInt64) (ranges : Ranges) :
    0 < countMatches keys ranges ↔ ∃ key ∈ keys, ∃ p ∈ ranges, contains key p = true := by
  induction keys with
  | nil => simp [countMatches]
  | cons key keys ih =>
    have hcons : countMatches (key :: keys) ranges
        = ranges.countP (contains key) + countMatches keys ranges := by
      simp [countMatches]
    rw [hcons, Nat.add_pos_iff_pos_or_pos, ih, countP_pos_iff]
    simp

/-- A value has a key in the ranges: itself in those of the bottom index, or one of its other keys in
those of the higher index. -/
def Selects (ranges : Ranges × Ranges) (value : UInt64) : Prop :=
  (∃ p ∈ ranges.1, contains value p = true)
    ∨ ∃ key ∈ (encodeValue value).tail, ∃ p ∈ ranges.2, contains key p = true

/-- The pairs of a key and a range that contains it. -/
def matchingPairs (ranges : Ranges × Ranges) (value : UInt64) : List (UInt64 × Range) :=
  ((ranges.1.filter (contains value)).map fun p => (value, p))
    ++ (encodeValue value).tail.flatMap fun key =>
      (ranges.2.filter (contains key)).map fun p => (key, p)

lemma length_matchingPairs (ranges : Ranges × Ranges) (value : UInt64) :
    (matchingPairs ranges value).length = ranges.1.countP (contains value)
      + countMatches (encodeLevels 15 1 value) ranges.2 := by
  simp [matchingPairs, encodeValue, countMatches, countP_eq_length_filter, length_flatMap]

lemma selects_calculateSearchRange_iff (hle : leftTerm ≤ rightTerm)
    (value : UInt64) : Selects (calculateSearchRange leftTerm rightTerm) value
    ↔ leftTerm ≤ value ∧ value ≤ rightTerm := by
  have hcount := countMatches_calculateSearchRange hle value
  have hhigher := countMatches_pos_iff (encodeLevels 15 1 value) (calculateSearchRange leftTerm rightTerm).2
  have htail : (encodeValue value).tail = encodeLevels 15 1 value := rfl
  rw [Selects, htail, ← hhigher, ← countP_pos_iff]
  split_ifs at hcount with hin
  · simp only [hin, and_self, iff_true]
    omega
  · simp only [hin, iff_false]
    omega

/-- **Exact and unambiguous.**  A value lies in the interval exactly when one of its sixteen keys lies
in one of the search ranges, and then there is only one such key and one such range. -/
theorem calculateSearchRange_exact (leftTerm rightTerm value : UInt64) (hle : leftTerm ≤ rightTerm) :
    (encodeValue value).length = 16
      ∧ (leftTerm ≤ value ∧ value ≤ rightTerm
        ↔ Selects (calculateSearchRange leftTerm rightTerm) value)
      ∧ (leftTerm ≤ value ∧ value ≤ rightTerm →
        (matchingPairs (calculateSearchRange leftTerm rightTerm) value).length = 1) := by
  refine ⟨?_, (selects_calculateSearchRange_iff hle value).symm, ?_⟩
  · rw [encodeValue, length_cons, length_encodeLevels]
  · intro hin
    rw [length_matchingPairs, countMatches_calculateSearchRange hle, if_pos hin]

/-- The value 300 of the interval from 255 to 511 is found two levels up, and nowhere else. -/
theorem calculateSearchRange_exact_block : calculateSearchRange 255 511 = ([tag 0 (255, 255)], [tag 2 (1, 1)])
      ∧ (matchingPairs (calculateSearchRange 255 511) 300).length = 1 :=
  ⟨by decide, (calculateSearchRange_exact 255 511 300 (by decide)).2.2 (by decide)⟩

end RangeFieldEncoder

end Havenask
