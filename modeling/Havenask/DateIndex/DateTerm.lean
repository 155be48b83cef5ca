import Havenask.DateIndex.Timestamp
import Havenask.Lib.Word64

/-!
# Keys of a date index

`index/common/field_format/date/DateTerm.cpp`, with the level formats of
`index/inverted_index/config/DateLevelFormat.cpp` and the queries of `DateQueryParser.cpp`.

A date is a word of bit fields, from the year down to the millisecond.  It is indexed under one key
for each of up to twelve levels: the word with the fields below the level cleared, and the level in
the top nibble.  Every field but month and year has two levels, the unit itself and a middle level of
several units.  A build granularity drops the levels below it (`DateLevelFormat::Init`).

* **A document** gets the keys of `EncodeDateTermToTerms`.
* **A query** for times from `l` to `r` is made two date words by `ParseQuery`, and these are cut, level
  by level, into intervals of keys.  `CalculateRanges` returns the intervals as ranges, for the segments
  on disk; `CalculateTerms` lists their keys, for the one in memory.  The source has the loop twice;
  `keyIntervals` is the loop, and the two functions are what each makes of an interval.
-/

namespace Havenask

open TimestampUtil (TM)

/-- `DateLevelFormat::Granularity`, without `GU_UNKOWN`, for which there is no search unit. -/
inductive Granularity
  | millisecond | second | minute | hour | day | month | year
  deriving DecidableEq

/-- The bits of a `DateLevelFormat`, that of level 1 lowest. -/
abbrev DateLevelFormat := UInt16

namespace DateLevelFormat

def removeLowerGranularity (levelFormat : DateLevelFormat) : Granularity → DateLevelFormat
  | .year => levelFormat &&& ~~~((1 : UInt16) <<< 11 - 1)
  | .month => levelFormat &&& ~~~((1 : UInt16) <<< 10 - 1)
  | .day => levelFormat &&& ~~~((1 : UInt16) <<< 8 - 1)
  | .hour => levelFormat &&& ~~~((1 : UInt16) <<< 6 - 1)
  | .minute => levelFormat &&& ~~~((1 : UInt16) <<< 4 - 1)
  | .second => levelFormat &&& ~~~((1 : UInt16) <<< 2 - 1)
  | .millisecond => levelFormat

/-- `Init`, from `DEFALT_LEVEL_FORMAT`. -/
def init (granularity : Granularity) : DateLevelFormat := removeLowerGranularity 4095 granularity

def getGranularityLevel : Granularity → ℕ
  | .millisecond => 1
  | .second => 3
  | .minute => 5
  | .hour => 7
  | .day => 9
  | .month => 11
  | .year => 12

variable (format : DateLevelFormat)

def hasLevel (level : ℕ) : Bool := decide (format >>> UInt16.ofNat (level - 1) &&& 1 ≠ 0)

def hasMillisecond : Bool := hasLevel format 1

def hasSecond : Bool := hasLevel format 3

def hasMinute : Bool := hasLevel format 5

def hasHour : Bool := hasLevel format 7

def hasDay : Bool := hasLevel format 9

def hasMonth : Bool := hasLevel format 11

def hasYear : Bool := hasLevel format 12

end DateLevelFormat

open DateLevelFormat

namespace DateTerm

/-! ## Date words -/

/-- The low `bits` bits. -/
def lowMask (bits : ℕ) : UInt64 := (1 : UInt64) <<< UInt64.ofNat bits - 1

/-- Overwrites the field of `bits` bits at `shift`. -/
def setField (bits shift value : ℕ) (dateTerm : UInt64) : UInt64 :=
  (dateTerm &&& ~~~(lowMask bits <<< UInt64.ofNat shift))
    ||| (UInt64.ofNat value <<< UInt64.ofNat shift)

def setMillisecond : ℕ → UInt64 → UInt64 := setField 10 0

def setSecond : ℕ → UInt64 → UInt64 := setField 6 10

def setMinute : ℕ → UInt64 → UInt64 := setField 6 16

def setHour : ℕ → UInt64 → UInt64 := setField 5 22

def setDay : ℕ → UInt64 → UInt64 := setField 5 27

def setMonth : ℕ → UInt64 → UInt64 := setField 4 32

def setYear : ℕ → UInt64 → UInt64 := setField 9 36

variable (level : ℕ)

def setLevelType (dateTerm : UInt64) : UInt64 := (dateTerm &&& lowMask 60) ||| (UInt64.ofNat level <<< 60)

/-- `ConvertToDateTerm`: the fields that the format has, from the year down to the first that it has
not. -/
def convertToDateTerm (date : TM) (format : DateLevelFormat) : UInt64 :=
  if !hasYear format then 0
  else
    let tmp := setYear date.year 0
    if !hasMonth format then tmp
    else
      let tmp := setMonth date.month tmp
      if !hasDay format then tmp
      else
        let tmp := setDay date.day tmp
        if !hasHour format then tmp
        else
          let tmp := setHour date.hour tmp
          if !hasMinute format then tmp
          else
            let tmp := setMinute date.minute tmp
            if !hasSecond format then tmp
            else
              let tmp := setSecond date.second tmp
              if !hasMillisecond format then tmp
              else setMillisecond date.millisecond tmp

/-! ## Levels -/

/-- `_levelBits`: the bits of each level, from level 1 on. -/
def levelBits : ℕ := [0, 5, 5, 3, 3, 3, 3, 2, 3, 2, 3, 4, 9].getD level 0

/-- `_noMiddleLevelBits`: the bits of the whole field of a level that is not a middle one. -/
def noMiddleLevelBits : ℕ := [0, 10, 0, 6, 0, 6, 0, 5, 0, 5, 0, 4, 9].getD level 0

/-- `_levelValueLimits`: the greatest value of each level. -/
def levelValueLimits : ℕ := [0, 999, 31, 59, 8, 59, 8, 23, 5, 31, 7, 12, 512].getD level 0

def getLevelBit (format : DateLevelFormat) : ℕ :=
  if level % 2 = 1 ∧ level ≤ 10 ∧ hasLevel format (level + 1) = false then
    levelBits level + levelBits (level + 1)
  else if hasLevel format level then levelBits level
  else 0

/-- A key of a level. -/
def mark (key : UInt64) : UInt64 := key ||| (UInt64.ofNat level <<< 60)

/-- The loop of `EncodeDateTermToTerms`. -/
def encodeLevels (format : DateLevelFormat) : List ℕ → ℕ → UInt64 → List UInt64
  | [], _, _ => []
  | level :: levels, totalLevelBits, key =>
    let totalLevelBits := totalLevelBits + levelBits level
    (if hasLevel format level then [mark level key] else [])
      ++ encodeLevels format levels totalLevelBits (key &&& ~~~lowMask totalLevelBits)

def encodeDateTermToTerms (dateTerm : UInt64) (format : DateLevelFormat) : List UInt64 :=
  encodeLevels format (List.range' 1 12) 0 (dateTerm &&& lowMask 60)

/-! ## Intervals of keys -/

/-- Keys of one level, in steps of `1 << totalBits`, both ends included. -/
structure KeyInterval where
  level : ℕ
  totalBits : ℕ
  fromKey : UInt64
  toKey : UInt64
  deriving DecidableEq

def levelBitsMask (bits totalBits : ℕ) : UInt64 := lowMask bits <<< UInt64.ofNat totalBits

/-- The value of the level in `toKey`, of the whole field where the level is not a middle one. -/
def rightLevelValue (level bits totalBits : ℕ) (toKey : UInt64) : UInt64 :=
  toKey >>> UInt64.ofNat totalBits
    &&& if level % 2 = 1 then lowMask (noMiddleLevelBits level) else lowMask bits

def fromKeyHasTerms (bits totalBits : ℕ) (fromKey : UInt64) : Bool :=
  decide (fromKey &&& levelBitsMask bits totalBits ≠ 0)

def toKeyHasTerms (level bits totalBits : ℕ) (toKey : UInt64) : Bool :=
  decide (rightLevelValue level bits totalBits toKey < UInt64.ofNat (levelValueLimits level))
    && decide (toKey &&& levelBitsMask bits totalBits ≠ levelBitsMask bits totalBits)

def plusUnit (totalBits : ℕ) : UInt64 := (1 : UInt64) <<< UInt64.ofNat totalBits

def higherLeftValue (bits totalBits : ℕ) (fromKey : UInt64) : UInt64 :=
  (if fromKeyHasTerms bits totalBits fromKey then fromKey + plusUnit (totalBits + bits) else fromKey)
    &&& ~~~levelBitsMask bits totalBits

def higherRightValue (level bits totalBits : ℕ) (toKey : UInt64) : UInt64 :=
  (if toKeyHasTerms level bits totalBits toKey then toKey - plusUnit (totalBits + bits) else toKey)
    &&& ~~~levelBitsMask bits totalBits

/-- The loop of `CalculateRanges` and `CalculateTerms`. -/
def keyIntervals (format : DateLevelFormat) : List ℕ → ℕ → UInt64 → UInt64 → List KeyInterval
  | [], _, _, _ => []
  | level :: levels, totalBits, fromKey, toKey =>
    let bits := getLevelBit level format
    if hasLevel format level = false then
      keyIntervals format levels (totalBits + bits) fromKey toKey
    else
      let higherLeft := higherLeftValue bits totalBits fromKey
      let higherRight := higherRightValue level bits totalBits toKey
      if higherRight < higherLeft ∨ higherLeft < fromKey ∨ toKey < higherRight then
        [⟨level, totalBits, fromKey, toKey⟩]
      else
        (if fromKeyHasTerms bits totalBits fromKey then
            [⟨level, totalBits, fromKey, fromKey ||| levelBitsMask bits totalBits⟩]
          else [])
          ++ (if toKeyHasTerms level bits totalBits toKey then
            [⟨level, totalBits, toKey &&& ~~~levelBitsMask bits totalBits, toKey⟩]
          else [])
          ++ keyIntervals format levels (totalBits + bits) higherLeft higherRight

def KeyInterval.range (interval : KeyInterval) : UInt64 × UInt64 :=
  (mark interval.level interval.fromKey, mark interval.level interval.toKey)

def calculateRanges (fromKey toKey : UInt64) (format : DateLevelFormat) : List (UInt64 × UInt64) :=
  (keyIntervals format (List.range' 1 12) 0 fromKey toKey).map KeyInterval.range

/-- The end of the loop of `AddTerms`: a value of the level above its limit is taken for the limit. -/
def clampToLimit (level totalBits : ℕ) (toKey : UInt64) : UInt64 :=
  let levelValueMask := lowMask (if level % 2 = 1 ∨ 10 < level then noMiddleLevelBits level
    else levelBits level)
  if UInt64.ofNat (levelValueLimits level) < (toKey >>> UInt64.ofNat totalBits &&& levelValueMask) then
    (toKey &&& ~~~(levelValueMask <<< UInt64.ofNat totalBits))
      ||| (UInt64.ofNat (levelValueLimits level) <<< UInt64.ofNat totalBits)
  else toKey

/-- The loop of `AddTerms`; `none` is a run that exceeds `fuel`. -/
def addTermsLoop (level totalBits : ℕ) : ℕ → UInt64 → UInt64 → Option (List UInt64)
  | 0, _, _ => none
  | fuel + 1, fromKey, toKey =>
    if fromKey ≤ toKey then
      (addTermsLoop level totalBits fuel (fromKey + plusUnit totalBits) toKey).map
        (setLevelType level fromKey :: ·)
    else some []

def addTerms (fuel : ℕ) (interval : KeyInterval) : Option (List UInt64) :=
  addTermsLoop interval.level interval.totalBits fuel interval.fromKey
    (clampToLimit interval.level interval.totalBits interval.toKey)

def calculateTerms (fuel : ℕ) (fromKey toKey : UInt64) (format : DateLevelFormat) : Option (List UInt64) :=
  ((keyIntervals format (List.range' 1 12) 0 fromKey toKey).mapM (addTerms fuel)).map List.flatten

/-! ## Queries -/

def getSearchGranularityUnit : Granularity → UInt64
  | .millisecond => 1
  | .second => (1 : UInt64) <<< 10
  | .minute => (1 : UInt64) <<< 16
  | .hour => (1 : UInt64) <<< 22
  | .day => (1 : UInt64) <<< 27
  | .month => (1 : UInt64) <<< 32
  | .year => (1 : UInt64) <<< 36

/-- `DateQueryParser::ParseQuery`, of a parser for the granularity: the left and the right term. -/
def parseQuery (granularity : Granularity) (leftNumber rightNumber : ℤ) : Option (UInt64 × UInt64) :=
  let leftIsZero := decide (leftNumber ≤ 0)
  let leftTimestamp := if leftIsZero then 0 else leftNumber
  if rightNumber < 0 ∨ rightNumber < leftTimestamp then none
  else
    let leftTimestamp := if leftIsZero then leftTimestamp else leftTimestamp - 1
    let format := DateLevelFormat.init granularity
    let left := convertToDateTerm (TimestampUtil.convertToTM leftTimestamp.toNat) format
    let right := convertToDateTerm (TimestampUtil.convertToTM rightNumber.toNat) format
    some (if leftIsZero then left else left + getSearchGranularityUnit granularity, right)

def documentKeys (granularity : Granularity) (timestamp : ℕ) : List UInt64 :=
  encodeDateTermToTerms (convertToDateTerm (TimestampUtil.convertToTM timestamp)
    (DateLevelFormat.init granularity)) (DateLevelFormat.init granularity)

end DateTerm

end Havenask
