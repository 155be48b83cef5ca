import Havenask.RangeIndex.RangeFieldEncoder

/-!
# Looking an interval up in a segment

`index/inverted_index/builtin_index/range/RangeLeafReader.cpp`, the reader of a dumped segment, and
`RangeLeafMemReader.cpp`, that of the segment being built.  A segment knows the least and the greatest
of its values, and both readers clamp a query to them.  The reader on disk then widens an end that it
has clamped, down or up to a block boundary, so that `CalculateSearchRange` has fewer incomplete
blocks to cut off.

Widening asks for more values than the query did, but only for values that the segment cannot have:
below its minimum where the left end was clamped to it, above its maximum where the right end was
(`alignedTerm_mem_iff`).  So both readers find what the query asks for (`lookup_exact`).  Signed fields
and the segments of a query, in `RangeIndexReader.cpp`, are at the end.
-/

namespace Havenask

open UInt64

namespace RangeFieldEncoder

/-! ## Widening -/

/-- The loop of `AlignedTerm` that looks for the nibble from which the two terms agree. -/
def diffBitsLoop : ℕ → UInt64 → UInt64 → UInt64 → UInt64
  | 0, _, _, diffBits => diffBits
  | n + 1, tmpLeft, tmpRight, diffBits =>
    if tmpLeft ≠ tmpRight ∧ diffBits < 60 then
      diffBitsLoop n (tmpLeft >>> 4) (tmpRight >>> 4) (diffBits + 4)
    else diffBits

/-- Each round adds 4, so fifteen rounds reach the bound 60 of the loop. -/
def diffBits (leftTerm rightTerm : UInt64) : UInt64 := diffBitsLoop 15 leftTerm rightTerm 0

def alignedTerm (alignLeft alignRight : Bool) (leftTerm rightTerm : UInt64) : UInt64 × UInt64 :=
  if !alignLeft && !alignRight then (leftTerm, rightTerm)
  else
    let mask := (1 <<< diffBits leftTerm rightTerm) - 1
    (if alignLeft then leftTerm &&& ~~~mask else leftTerm,
      if alignRight then rightTerm ||| mask else rightTerm)

lemma diffBitsLoop_le (n : ℕ) {d : ℕ} (hd : d + 4 * n = 60) (l r : UInt64) :
    (diffBitsLoop n l r (ofNat d)).toNat ≤ 60 := by
  induction n generalizing d l r with
  | zero =>
    rw [diffBitsLoop, Word64.toNat_ofNat_of_lt (by omega)]
    omega
  | succ n ih =>
    have hnext : ofNat d + 4 = ofNat (d + 4) := by
      rw [ofNat_add]
      rfl
    rw [diffBitsLoop]
    split_ifs
    · rw [hnext]
      exact ih (by omega) _ _
    · rw [Word64.toNat_ofNat_of_lt (by omega)]
      omega

/-- The shift counts of `AlignedTerm` stay below the word width. -/
lemma diffBits_le (l r : UInt64) : (diffBits l r).toNat ≤ 60 := diffBitsLoop_le 15 rfl l r

/-- The left end only moves down, and the right end only up. -/
lemma alignedTerm_bounds (alignLeft alignRight : Bool) (l r : UInt64) :
    (alignedTerm alignLeft alignRight l r).1 ≤ l ∧ r ≤ (alignedTerm alignLeft alignRight l r).2
    ∧ (alignLeft = false → (alignedTerm alignLeft alignRight l r).1 = l)
    ∧ (alignRight = false → (alignedTerm alignLeft alignRight l r).2 = r) := by
  have hk := diffBits_le l r
  have hshift : diffBits l r = UInt64.ofNat (diffBits l r).toNat := UInt64.ofNat_toNat.symm
  have hdown := Word64.toNat_and_not_lowMask l (k := (diffBits l r).toNat) (by omega)
  have hup := Word64.toNat_or_lowMask r (k := (diffBits l r).toNat) (by omega)
  rw [← hshift] at hdown hup
  have hle : l &&& ~~~((1 <<< diffBits l r) - 1) ≤ l := by
    rw [le_iff_toNat_le, hdown]
    exact Nat.div_mul_le_self _ _
  have hge : r ≤ r ||| ((1 <<< diffBits l r) - 1) := by
    rw [le_iff_toNat_le, hup]
    have hpos := Nat.two_pow_pos (diffBits l r).toNat
    have hmod := Nat.mod_lt r.toNat hpos
    have hdiv := Nat.div_add_mod' r.toNat (2 ^ (diffBits l r).toNat)
    omega
  cases alignLeft <;> cases alignRight <;> simp [alignedTerm, hle, hge]

end RangeFieldEncoder

/-! ## The readers -/

open RangeFieldEncoder

structure RangeInfo where
  minNumber : UInt64
  maxNumber : UInt64

namespace RangeLeafReader

/-- The search ranges of `RangeLeafReader::Lookup`; `none` is its early return with no postings. -/
def searchRanges (rangeInfo : RangeInfo) (leftTerm rightTerm : UInt64) : Option (Ranges × Ranges) :=
  if rangeInfo.minNumber > rangeInfo.maxNumber ∨ rangeInfo.minNumber > rightTerm
      ∨ rangeInfo.maxNumber < leftTerm then none
  else
    let alignRight := decide (rangeInfo.maxNumber < rightTerm)
    let rightTerm := if alignRight then rangeInfo.maxNumber else rightTerm
    let alignLeft := decide (rangeInfo.minNumber > leftTerm)
    let leftTerm := if alignLeft then rangeInfo.minNumber else leftTerm
    let (leftTerm, rightTerm) := alignedTerm alignLeft alignRight leftTerm rightTerm
    some (calculateSearchRange leftTerm rightTerm)

end RangeLeafReader

namespace RangeLeafMemReader

/-- The search ranges of `RangeLeafMemReader::Lookup`. -/
def searchRanges (rangeInfo : RangeInfo) (leftTerm rightTerm : UInt64) : Option (Ranges × Ranges) :=
  if rangeInfo.minNumber > rangeInfo.maxNumber ∨ rangeInfo.minNumber > rightTerm
      ∨ rangeInfo.maxNumber < leftTerm then none
  else
    let rightTerm := if rangeInfo.maxNumber < rightTerm then rangeInfo.maxNumber else rightTerm
    let leftTerm := if rangeInfo.minNumber > leftTerm then rangeInfo.minNumber else leftTerm
    some (calculateSearchRange leftTerm rightTerm)

end RangeLeafMemReader

section
variable {Doc : Type} (valueOf : Doc → UInt64)

instance decidableSelects (ranges : Ranges × Ranges) (value : UInt64) :
    Decidable (Selects ranges value) := inferInstanceAs (Decidable (_ ∨ _))

/-- The documents in the postings of the keys that lie in the ranges. -/
def fillPostings (segment : List Doc) : Option (Ranges × Ranges) → List Doc
  | none => []
  | some ranges => segment.filter fun doc => decide (Selects ranges (valueOf doc))

/-- The documents a query asks for. -/
def inInterval (leftTerm rightTerm : UInt64) (doc : Doc) : Bool :=
  decide (leftTerm ≤ valueOf doc ∧ valueOf doc ≤ rightTerm)

variable {valueOf}

variable {segment : List Doc} {rangeInfo : RangeInfo} {l r : UInt64}

lemma fillPostings_eq {l r l' r' : UInt64} (hle : l' ≤ r')
    (hsame : ∀ doc ∈ segment, (l' ≤ valueOf doc ∧ valueOf doc ≤ r')
    ↔ (l ≤ valueOf doc ∧ valueOf doc ≤ r)) : fillPostings valueOf segment (some (calculateSearchRange l' r'))
    = segment.filter (inInterval valueOf l r) := by
  refine List.filter_congr fun doc hdoc => ?_
  rw [inInterval, decide_eq_decide, selects_calculateSearchRange_iff hle]
  exact hsame doc hdoc

/-- The early return is for intervals without a value of the segment. -/
lemma filter_eq_nil_of_outside (hsegment : ∀ doc ∈ segment, rangeInfo.minNumber ≤ valueOf doc
    ∧ valueOf doc ≤ rangeInfo.maxNumber) (hout : rangeInfo.minNumber > rangeInfo.maxNumber ∨ rangeInfo.minNumber > r
    ∨ rangeInfo.maxNumber < l) : segment.filter (inInterval valueOf l r) = [] := by
  rw [List.filter_eq_nil_iff]
  intro doc hdoc hin
  obtain ⟨hmin, hmax⟩ := hsegment doc hdoc
  simp only [inInterval, decide_eq_true_eq] at hin
  simp only [le_iff_toNat_le, lt_iff_toNat_lt, gt_iff_lt] at hmin hmax hin hout
  omega

/-- Clamped and widened ends select the same values of the segment: an end moves only where it was
clamped, and then over values that the segment does not have. -/
lemma alignedTerm_mem_iff {minNumber maxNumber l r v : UInt64} (hmin : minNumber ≤ v)
    (hmax : v ≤ maxNumber) {alignLeft alignRight : Bool}
    (hleft : alignLeft = decide (minNumber > l)) (hright : alignRight = decide (maxNumber < r)) :
    ((alignedTerm alignLeft alignRight (if alignLeft then minNumber else l)
        (if alignRight then maxNumber else r)).1 ≤ v
      ∧ v ≤ (alignedTerm alignLeft alignRight (if alignLeft then minNumber else l)
        (if alignRight then maxNumber else r)).2)
    ↔ l ≤ v ∧ v ≤ r := by
  obtain ⟨hdown, hup, hkeepLeft, hkeepRight⟩ := alignedTerm_bounds alignLeft alignRight
    (if alignLeft then minNumber else l) (if alignRight then maxNumber else r)
  revert hdown hup hkeepLeft hkeepRight
  generalize alignedTerm alignLeft alignRight _ _ = terms
  intro hdown hup hkeepLeft hkeepRight
  have hl : terms.1 ≤ v ↔ l ≤ v := by
    cases alignLeft with
    | false => rw [hkeepLeft rfl, if_neg (by simp)]
    | true =>
      have hlt : l < minNumber := of_decide_eq_true hleft.symm
      rw [if_pos rfl] at hdown
      exact iff_of_true (UInt64.le_trans hdown hmin) (UInt64.le_trans (UInt64.le_of_lt hlt) hmin)
  have hr : v ≤ terms.2 ↔ v ≤ r := by
    cases alignRight with
    | false => rw [hkeepRight rfl, if_neg (by simp)]
    | true =>
      have hlt : maxNumber < r := of_decide_eq_true hright.symm
      rw [if_pos rfl] at hup
      exact iff_of_true (UInt64.le_trans hmax hup) (UInt64.le_trans hmax (UInt64.le_of_lt hlt))
  rw [hl, hr]

/-- The clamped ends are in order where the reader goes on. -/
lemma clamped_le (hle : l ≤ r) (hin : ¬ (rangeInfo.minNumber > rangeInfo.maxNumber ∨ rangeInfo.minNumber > r
    ∨ rangeInfo.maxNumber < l)) : (if decide (rangeInfo.minNumber > l) = true then rangeInfo.minNumber else l)
    ≤ if decide (rangeInfo.maxNumber < r) = true then rangeInfo.maxNumber else r := by
  simp only [decide_eq_true_eq, le_iff_toNat_le, lt_iff_toNat_lt, gt_iff_lt] at *
  split_ifs <;> omega

section
variable (hle : l ≤ r)
  (hsegment : ∀ doc ∈ segment, rangeInfo.minNumber ≤ valueOf doc ∧ valueOf doc ≤ rangeInfo.maxNumber)
include hsegment

/-- A reader with an early return, and the ends that it looks for otherwise. -/
lemma fillPostings_ite {l' r' : UInt64}
    (hin : ¬ (rangeInfo.minNumber > rangeInfo.maxNumber ∨ rangeInfo.minNumber > r ∨ rangeInfo.maxNumber < l) →
    l' ≤ r' ∧ ∀ v, rangeInfo.minNumber ≤ v → v ≤ rangeInfo.maxNumber → (l' ≤ v ∧ v ≤ r' ↔ l ≤ v ∧ v ≤ r)) :
    fillPostings valueOf segment (if rangeInfo.minNumber > rangeInfo.maxNumber ∨ rangeInfo.minNumber > r
      ∨ rangeInfo.maxNumber < l then none else some (calculateSearchRange l' r'))
    = segment.filter (inInterval valueOf l r) := by
  split_ifs with hout
  · rw [filter_eq_nil_of_outside hsegment hout]
    rfl
  · obtain ⟨hle, hsame⟩ := hin hout
    exact fillPostings_eq hle fun doc hdoc => hsame _ (hsegment doc hdoc).1 (hsegment doc hdoc).2

include hle

lemma fillPostings_searchRanges : fillPostings valueOf segment (RangeLeafReader.searchRanges rangeInfo l r)
    = segment.filter (inInterval valueOf l r) := by
  refine fillPostings_ite hsegment fun hin => ⟨?_, fun v hmin hmax => alignedTerm_mem_iff hmin hmax rfl rfl⟩
  obtain ⟨hdown, hup, -, -⟩ := alignedTerm_bounds (decide (rangeInfo.minNumber > l))
    (decide (rangeInfo.maxNumber < r))
    (if decide (rangeInfo.minNumber > l) = true then rangeInfo.minNumber else l)
    (if decide (rangeInfo.maxNumber < r) = true then rangeInfo.maxNumber else r)
  exact UInt64.le_trans (UInt64.le_trans hdown (clamped_le hle hin)) hup

lemma fillPostings_memSearchRanges : fillPostings valueOf segment (RangeLeafMemReader.searchRanges rangeInfo l r)
    = segment.filter (inInterval valueOf l r) := by
  refine fillPostings_ite hsegment fun hin => ⟨by simpa using clamped_le hle hin, fun v hmin hmax => ?_⟩
  simp only [le_iff_toNat_le, lt_iff_toNat_lt, gt_iff_lt] at *
  split_ifs <;> omega

end

/-- **The reader on disk finds what is asked for.**  Whatever ends are clamped and widened, its
documents are those of the interval, the same that the ranges of the query itself select and that
the reader in memory finds; and no shift of `AlignedTerm` exceeds the word. -/
theorem lookup_exact (rangeInfo : RangeInfo) (valueOf : Doc → UInt64) (segment : List Doc)
    (leftTerm rightTerm : UInt64) (hle : leftTerm ≤ rightTerm)
    (hsegment : ∀ doc ∈ segment, rangeInfo.minNumber ≤ valueOf doc
      ∧ valueOf doc ≤ rangeInfo.maxNumber) :
    fillPostings valueOf segment (RangeLeafReader.searchRanges rangeInfo leftTerm rightTerm)
        = segment.filter (inInterval valueOf leftTerm rightTerm)
      ∧ fillPostings valueOf segment (RangeLeafReader.searchRanges rangeInfo leftTerm rightTerm)
        = fillPostings valueOf segment (some (calculateSearchRange leftTerm rightTerm))
      ∧ fillPostings valueOf segment (RangeLeafReader.searchRanges rangeInfo leftTerm rightTerm)
        = fillPostings valueOf segment (RangeLeafMemReader.searchRanges rangeInfo leftTerm rightTerm)
      ∧ ∀ a b, (diffBits a b).toNat < 64 := by
  have hdisk := fillPostings_searchRanges hle hsegment
  refine ⟨hdisk, ?_, ?_, fun a b => Nat.lt_of_le_of_lt (diffBits_le a b) (by norm_num)⟩
  · rw [hdisk, fillPostings_eq hle fun _ _ => Iff.rfl]
  · rw [hdisk, fillPostings_memSearchRanges hle hsegment]

/-- A segment with the values 20, 33 and 250, asked for everything up to 40: the left end is clamped
to 20 and widened to 0. -/
theorem lookup_exact_widened : RangeLeafReader.searchRanges ⟨20, 250⟩ 3 40 = some (calculateSearchRange 0 40)
      ∧ fillPostings id [20, 33, 250] (RangeLeafReader.searchRanges ⟨20, 250⟩ 3 40) = [20, 33] := by
  refine ⟨by decide, ?_⟩
  have hsegment : List.Forall (fun doc : UInt64 => 20 ≤ id doc ∧ id doc ≤ 250) [20, 33, 250] :=
    ⟨by decide, by decide, by decide⟩
  rw [(lookup_exact ⟨20, 250⟩ id [20, 33, 250] 3 40 (by decide) (List.forall_iff_forall_mem.mp hsegment)).1]
  decide

/-! ## Signed fields -/

/-- `(1UL << 63) + num`: the signed order as that of `uint64_t`. -/
def signedKey (num : Int64) : UInt64 := ((1 : UInt64) <<< 63) + num.toUInt64

/-- `ConvertTerm`, of the two numbers of the term. -/
def convertTerm (leftNumber rightNumber : Int64) (fieldType : RangeFieldType) : UInt64 × UInt64 :=
  if fieldType = .int then (signedKey leftNumber, signedKey rightNumber)
  else (leftNumber.toUInt64, rightNumber.toUInt64)

lemma toNat_signedKey (num : Int64) : ((signedKey num).toNat : ℤ) = num.toInt + 2 ^ 63 := by
  have hlt := num.toUInt64.toNat_lt
  have hone : ((1 : UInt64) <<< 63).toNat = 2 ^ 63 := by decide
  have hnat : num.toUInt64.toNat = num.toBitVec.toNat := rfl
  have hint : num.toInt = num.toBitVec.toInt := rfl
  rw [signedKey, UInt64.toNat_add, hone, hint, BitVec.toInt_eq_toNat_cond, ← hnat]
  split <;> omega

lemma signedKey_le_iff (a b : Int64) : signedKey a ≤ signedKey b ↔ a ≤ b := by
  have ha := toNat_signedKey a
  have hb := toNat_signedKey b
  rw [le_iff_toNat_le, Int64.le_iff_toInt_le]
  omega

/-- `RangeInfo()`. -/
instance : Inhabited RangeInfo := ⟨⟨18446744073709551615, 0⟩⟩

def RangeInfo.update (rangeInfo : RangeInfo) (value : UInt64) : RangeInfo :=
  ⟨if value < rangeInfo.minNumber then value else rangeInfo.minNumber,
    if value > rangeInfo.maxNumber then value else rangeInfo.maxNumber⟩

/-- Whatever it starts from, the info has seen all values that were added. -/
lemma RangeInfo.foldl_update_bounds (values : List UInt64) (info : RangeInfo) :
    (values.foldl update info).minNumber ≤ info.minNumber ∧ info.maxNumber ≤ (values.foldl update info).maxNumber
    ∧ ∀ v ∈ values, (values.foldl update info).minNumber ≤ v ∧ v ≤ (values.foldl update info).maxNumber := by
  induction values generalizing info with
  | nil => simp
  | cons value values ih =>
    obtain ⟨hmin, hmax, hall⟩ := ih (info.update value)
    simp only [update, le_iff_toNat_le, lt_iff_toNat_lt, gt_iff_lt, List.foldl_cons, List.forall_mem_cons] at *
    refine ⟨?_, ?_, ?_, hall⟩ <;> split_ifs at * <;> omega

/-- If the ends are the wrong way round, none of them is clamped, and there are no ranges. -/
lemma fillPostings_of_lt (h : r < l) : fillPostings valueOf segment (RangeLeafReader.searchRanges rangeInfo l r) = [] := by
  rw [RangeLeafReader.searchRanges]
  split_ifs with hout
  · rfl
  · have hmax : ¬ rangeInfo.maxNumber < r := by grind
    have hmin : ¬ rangeInfo.minNumber > l := by grind
    simp [hmax, hmin, alignedTerm, calculateSearchRange, searchLoop, UInt64.not_le.mpr h, fillPostings, Selects]

/-- **A signed field is searched in signed order**: with the info of the segment's own values, a query finds the
documents whose number lies between its ends. -/
theorem lookup_signed (valueOf : Doc → Int64) (segment : List Doc) (leftNumber rightNumber : Int64) :
    fillPostings (signedKey ∘ valueOf) segment (RangeLeafReader.searchRanges
      ((segment.map (signedKey ∘ valueOf)).foldl RangeInfo.update default)
      (convertTerm leftNumber rightNumber .int).1 (convertTerm leftNumber rightNumber .int).2)
    = segment.filter fun doc => decide (leftNumber ≤ valueOf doc ∧ valueOf doc ≤ rightNumber) := by
  have hinterval : (fun doc => decide (leftNumber ≤ valueOf doc ∧ valueOf doc ≤ rightNumber))
      = inInterval (signedKey ∘ valueOf) (signedKey leftNumber) (signedKey rightNumber) := by
    funext doc
    simp only [inInterval, Function.comp_apply, signedKey_le_iff]
  rw [hinterval, convertTerm, if_pos rfl]
  rcases UInt64.le_or_lt (signedKey leftNumber) (signedKey rightNumber) with hle | hlt
  · exact fillPostings_searchRanges hle fun doc hdoc =>
      (RangeInfo.foldl_update_bounds _ default).2.2 _ (List.mem_map_of_mem hdoc)
  · rw [fillPostings_of_lt hlt, eq_comm, List.filter_eq_nil_iff]
    simp only [inInterval, decide_eq_true_eq, le_iff_toNat_le, lt_iff_toNat_lt] at *
    omega

end

/-! ## The segments of a query -/

namespace RangeIndexReader

open List

/-- The segments looked up, with this one in front unless it has been `filled`. -/
def lookUp (filled : Bool) (segment : ℕ × ℕ) (rest : List (ℕ × ℕ) × Bool) : List (ℕ × ℕ) × Bool :=
  (if filled then rest.1 else segment :: rest.1, rest.2)

/-- The loop of `GetSegmentPostings` over the docid ranges of a query: the segments it looks up, each with the docids it
begins and ends at, and `needBuilding`, whether a range is left.  What ends first, the segment or the range, is left behind.
The third list is `_baseDocIds` from `currentRangeIdx` on: the source reads `segBegin` there, and `none` is a read behind
the vector. -/
def searchedSegments : List (ℕ × ℕ) → List (ℕ × ℕ) → List ℕ → Bool → Option (List (ℕ × ℕ) × Bool)
  | segment :: segments, range :: ranges, segBegin :: baseDocIds, filled =>
    if segment.2 ≤ range.1 then searchedSegments segments (range :: ranges) (segBegin :: baseDocIds) false
    else if range.2 ≤ segBegin then searchedSegments (segment :: segments) ranges baseDocIds filled
    else if segment.2 < range.2 then
      (searchedSegments segments (range :: ranges) (segBegin :: baseDocIds) false).map (lookUp filled segment)
    else if range.2 < segment.2 then
      (searchedSegments (segment :: segments) ranges baseDocIds true).map (lookUp filled segment)
    else (searchedSegments segments ranges baseDocIds false).map (lookUp filled segment)
  | _ :: _, _ :: _, [], _ => none
  | _, ranges, _, _ => some ([], !ranges.isEmpty)
termination_by segments ranges => segments.length + ranges.length

/-- The segment has a docid of the range. -/
def Meets (segment range : ℕ × ℕ) : Prop := segment.1 < range.2 ∧ range.1 < segment.2

/-- Every range ends behind the first docid of the segment with its number. -/
def EndsBehind (ranges : List (ℕ × ℕ)) (baseDocIds : List ℕ) : Prop :=
  ∀ (idx : ℕ) range, ranges[idx]? = some range → ∃ base ∈ baseDocIds[idx]?, base < range.2

lemma searchedSegments_spec {segments ranges : List (ℕ × ℕ)} {baseDocIds : List ℕ} {filled : Bool}
    (hsegments : segments.Pairwise fun a b => a.2 ≤ b.1) (hranges : ranges.Pairwise fun a b => a.1 ≤ b.1)
    (hbehind : EndsBehind ranges baseDocIds) : ∃ found building,
    searchedSegments segments ranges baseDocIds filled = some (found, building)
    ∧ (∀ x ∈ (if filled then segments.tail else segments), ∀ r ∈ ranges, Meets x r → x ∈ found)
    ∧ ∀ r ∈ ranges, (∀ x ∈ segments, x.2 < r.2) → building = true := by
  fun_induction searchedSegments segments ranges baseDocIds filled with
  | case1 segment segments range ranges segBegin baseDocIds filled hle ih =>
    -- the segment ends before all ranges that are left
    obtain ⟨found, building, hfound, hall, hbuilding⟩ := ih hsegments.tail hranges hbehind
    have hfirst := (pairwise_cons.mp hranges).1
    grind [Meets]
  | case2 segment segments range ranges segBegin baseDocIds filled _ hskip =>
    obtain ⟨base, hbase, hlt⟩ := hbehind 0 range rfl
    grind
  | case3 segment segments range ranges segBegin baseDocIds filled _ _ hlt ih =>
    obtain ⟨rest, building, hrest, hall, hbuilding⟩ := ih hsegments.tail hranges hbehind
    grind [lookUp]
  | case4 segment segments range ranges segBegin baseDocIds filled _ _ _ hgt ih =>
    obtain ⟨rest, building, hrest, hall, hbuilding⟩ := ih hsegments hranges.tail fun idx r hr => hbehind (idx + 1) r hr
    have hnext := (pairwise_cons.mp hsegments).1
    grind [Meets, lookUp]
  | case5 segment segments range ranges segBegin baseDocIds filled _ _ hlt hgt ih =>
    obtain ⟨rest, building, hrest, hall, hbuilding⟩ :=
      ih hsegments.tail hranges.tail fun idx r hr => hbehind (idx + 1) r hr
    have hnext := (pairwise_cons.mp hsegments).1
    grind [Meets, lookUp]
  | case6 segment segments range ranges =>
    obtain ⟨base, hbase, -⟩ := hbehind 0 range rfl
    simp at hbase
  | case7 segments ranges baseDocIds filled hcons hnil =>
    refine ⟨[], _, rfl, fun x hx r hr _ => ?_, fun r hr _ => ?_⟩
    · cases segments <;> cases ranges <;> cases baseDocIds <;> grind
    · cases ranges <;> simp_all

/-- **Every segment with a docid of a range is looked up**, the building segments are where a range ends behind the others,
and nothing is read behind `_baseDocIds`, if each range ends behind the first docid of the segment with its number. -/
theorem searchedSegments_complete (segments ranges : List (ℕ × ℕ)) (hsegments : segments.Pairwise fun a b => a.2 ≤ b.1)
    (hranges : ranges.Pairwise fun a b => a.1 ≤ b.1) (hbehind : EndsBehind ranges (segments.map Prod.fst)) :
    ∃ found building, searchedSegments segments ranges (segments.map Prod.fst) false = some (found, building)
    ∧ (∀ segment ∈ segments, ∀ range ∈ ranges, Meets segment range → segment ∈ found)
    ∧ ∀ range ∈ ranges, (∀ segment ∈ segments, segment.2 < range.2) → building = true :=
  searchedSegments_spec hsegments hranges hbehind

/-- With one more range in the first segment the second one is missed. -/
theorem searchedSegments_complete_two : (∃ found building, searchedSegments [(0, 100), (100, 200)] [(0, 10), (150, 160)]
    [0, 100] false = some (found, building) ∧ (100, 200) ∈ found)
    ∧ searchedSegments [(0, 100), (100, 200), (200, 300)] [(0, 10), (20, 30), (150, 160)] [0, 100, 200] false
    = some ([(0, 100)], false) := by
  obtain ⟨found, building, hfound, hall, -⟩ := searchedSegments_complete [(0, 100), (100, 200)] [(0, 10), (150, 160)]
    (by decide) (by decide) (by rintro (_ | _ | idx) range hrange <;> simp at hrange <;> subst hrange <;> simp)
  refine ⟨⟨found, building, hfound, ?_⟩, by decide +kernel⟩
  exact hall _ (by decide) (150, 160) (by decide) (by simp [Meets])

end RangeIndexReader

end Havenask
