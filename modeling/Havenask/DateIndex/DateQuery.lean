import Havenask.DateIndex.DateSearch

/-!
# Queries of a date index

A document is found by a query for the times from `l` to `r` when one of its keys lies in one of the
ranges of the query.  It should be found exactly when its time, truncated to the build granularity, is
in the interval (`truncate`).

That holds for all granularities but the year (`calculateRanges_exact_iff`).  There the loop takes the
years to begin four bits too low, and cuts blocks of 32 years instead of 512.  With no level above it,
the whole blocks of 32 years between the two ends of the query are in no range (`YearLost`).
-/

namespace Havenask

open DateLevelFormat LevelCover TimestampUtil
open TimestampUtil (TM convertToTM maxTimeSupport convertToTM_spec timestamp_le_iff)

namespace DateTerm

/-! ## Date words as numbers -/

/-- A field written over zeros is a digit below those that are there. -/
lemma toNat_setField (bits shift value : ℕ) {q : ℕ} {x : UInt64} (hx : x.toNat = q * 2 ^ (shift + bits))
    (hvalue : value < 2 ^ bits) (hshift : shift < 64) (hbits : bits < 64) (hsum : shift + bits ≤ 64) :
    (setField bits shift value x).toNat = (q * 2 ^ bits + value) * 2 ^ shift := by
  have hpow : q * 2 ^ (shift + bits) = q * 2 ^ bits * 2 ^ shift := by
    rw [pow_add, Nat.mul_comm (2 ^ shift), Nat.mul_assoc]
  have hclear : (x &&& ~~~(lowMask bits <<< UInt64.ofNat shift)).toNat = q * 2 ^ (shift + bits) := by
    rw [lowMask, Word64.toNat_and_not_fieldMask (hx.trans hpow) hshift hbits hsum,
      Nat.mul_div_cancel _ (Nat.two_pow_pos bits)]
  rw [setField, Word64.toNat_or_shiftLeft hclear hvalue hshift hsum, hclear, hpow, Nat.add_mul]

variable {tm : TM} (granularity : Granularity)

/-- **A date word is the packed date**, down to the unit of the granularity. -/
lemma toNat_convertToDateTerm (htm : tm.Valid) :
    (convertToDateTerm tm (init granularity)).toNat
    = tm.packed / 2 ^ unitBits granularity * 2 ^ unitBits granularity := by
  have hday := htm.day_le
  obtain ⟨hyear, ⟨-, hmonth⟩, -, hhour, hminute, hsecond, hms⟩ := htm
  have h₁ : (setYear tm.year 0).toNat = tm.year * 2 ^ 36 := by
    have h := toNat_setField 9 36 tm.year (x := 0) (q := 0) rfl (by omega) (by norm_num) (by norm_num) (by norm_num)
    rwa [zero_mul, zero_add] at h
  have h₂ := toNat_setField 4 32 tm.month h₁ (by omega) (by norm_num) (by norm_num) (by norm_num)
  have h₃ := toNat_setField 5 27 tm.day h₂ (by omega) (by norm_num) (by norm_num) (by norm_num)
  have h₄ := toNat_setField 5 22 tm.hour h₃ (by omega) (by norm_num) (by norm_num) (by norm_num)
  have h₅ := toNat_setField 6 16 tm.minute h₄ (by omega) (by norm_num) (by norm_num) (by norm_num)
  have h₆ := toNat_setField 6 10 tm.second h₅ (by omega) (by norm_num) (by norm_num) (by norm_num)
  have h₇ := toNat_setField 10 0 tm.millisecond h₆ (by omega) (by norm_num) (by norm_num) (by norm_num)
  unfold TM.packed
  cases granularity with
  | year =>
    refine h₁.trans ?_
    simp only [unitBits]
    omega
  | month =>
    refine h₂.trans ?_
    simp only [unitBits]
    omega
  | day =>
    refine h₃.trans ?_
    simp only [unitBits]
    omega
  | hour =>
    refine h₄.trans ?_
    simp only [unitBits]
    omega
  | minute =>
    refine h₅.trans ?_
    simp only [unitBits]
    omega
  | second =>
    refine h₆.trans ?_
    simp only [unitBits]
    omega
  | millisecond =>
    refine h₇.trans ?_
    simp only [unitBits]
    omega

lemma limited_packed (htm : tm.Valid) : Limited (List.range' 1 12) tm.packed := by
  have hday := htm.day_le
  obtain ⟨hyear, ⟨-, hmonth⟩, -, hhour, hminute, hsecond, hms⟩ := htm
  show tm.packed % 1024 ≤ 999 ∧ tm.packed / 32 % 32 ≤ 31 ∧ tm.packed / 32 / 32 % 64 ≤ 59
    ∧ tm.packed / 32 / 32 / 8 % 8 ≤ 8 ∧ tm.packed / 32 / 32 / 8 / 8 % 64 ≤ 59
    ∧ tm.packed / 32 / 32 / 8 / 8 / 8 % 8 ≤ 8 ∧ tm.packed / 32 / 32 / 8 / 8 / 8 / 8 % 32 ≤ 23
    ∧ tm.packed / 32 / 32 / 8 / 8 / 8 / 8 / 4 % 8 ≤ 5
    ∧ tm.packed / 32 / 32 / 8 / 8 / 8 / 8 / 4 / 8 % 32 ≤ 31
    ∧ tm.packed / 32 / 32 / 8 / 8 / 8 / 8 / 4 / 8 / 4 % 8 ≤ 7
    ∧ tm.packed / 32 / 32 / 8 / 8 / 8 / 8 / 4 / 8 / 4 / 8 % 16 ≤ 12
    ∧ tm.packed / 32 / 32 / 8 / 8 / 8 / 8 / 4 / 8 / 4 / 8 / 16 % 512 ≤ 512 ∧ True
  unfold TM.packed
  refine ⟨?_, ?_, ?_, ?_, ?_, ?_, ?_, ?_, ?_, ?_, ?_, ?_, trivial⟩ <;> omega

lemma Limited.suffix {levels levels' : List ℕ} {v : ℕ} (h : Limited (levels ++ levels') v) :
    Limited levels' (v / 2 ^ (levels.map levelBits).sum) := by
  induction levels generalizing v with
  | nil => simpa using h
  | cons level levels ih =>
    have := ih h.2
    rwa [Nat.div_div_eq_div_mul, ← pow_add] at this

/-- How much lower the loop takes the units of the granularity to be. -/
def pad : ℕ := unitBits granularity - startBits granularity

lemma mul_unit_eq (n : ℕ) :
    n * 2 ^ unitBits granularity = n * 2 ^ pad granularity * 2 ^ startBits granularity := by
  have hle : startBits granularity ≤ unitBits granularity := by
    cases granularity <;> decide
  rw [Nat.mul_assoc, ← pow_add, pad, Nat.sub_add_cancel hle]

lemma limited_unit (htm : tm.Valid) : Limited (presentLevels granularity)
      (tm.packed / 2 ^ unitBits granularity * 2 ^ pad granularity) := by
  by_cases hyear : granularity = .year
  · subst hyear
    exact ⟨(Nat.mod_lt _ (Nat.two_pow_pos _)).le, trivial⟩
  have hpad : pad granularity = 0 := by
    rw [pad, startBits_eq, if_neg hyear, Nat.sub_self]
  have h := limited_packed htm
  rw [range'_eq_append granularity] at h
  rw [hpad, pow_zero, mul_one, ← sum_levelBits_absentLevels]
  exact h.suffix

/-! ## Truncation -/

/-- The date and time at which the unit of a granularity began. -/
def unitStart (tm : TM) : TM :=
  match granularity with
  | .millisecond => tm
  | .second => { tm with millisecond := 0 }
  | .minute => { tm with second := 0, millisecond := 0 }
  | .hour => { tm with minute := 0, second := 0, millisecond := 0 }
  | .day => { tm with hour := 0, minute := 0, second := 0, millisecond := 0 }
  | .month => { tm with day := 1, hour := 0, minute := 0, second := 0, millisecond := 0 }
  | .year => { tm with month := 1, day := 1, hour := 0, minute := 0, second := 0, millisecond := 0 }

variable (timestamp : ℕ)

/-- A timestamp truncated to the granularity. -/
def truncate : ℕ :=
  (unitStart granularity (convertToTM timestamp)).timestamp

lemma unitStart_valid (htm : tm.Valid) : (unitStart granularity tm).Valid := by
  have hone : ∀ month, 1 ≤ monthLength (isLeap tm.year) month := by
    intro month
    unfold monthLength
    split <;> try split_ifs
    all_goals omega
  obtain ⟨hyear, hmonth, hday, hhour, hminute, hsecond, hms⟩ := htm
  cases granularity with
  | millisecond => exact ⟨hyear, hmonth, hday, hhour, hminute, hsecond, hms⟩
  | second => exact ⟨hyear, hmonth, hday, hhour, hminute, hsecond, by simp [unitStart]⟩
  | minute => exact ⟨hyear, hmonth, hday, hhour, hminute, by simp [unitStart], by simp [unitStart]⟩
  | hour =>
    exact ⟨hyear, hmonth, hday, hhour, by simp [unitStart], by simp [unitStart],
      by simp [unitStart]⟩
  | day =>
    exact ⟨hyear, hmonth, hday, by simp [unitStart], by simp [unitStart], by simp [unitStart],
      by simp [unitStart]⟩
  | month =>
    exact ⟨hyear, hmonth, ⟨le_rfl, hone _⟩, by simp [unitStart], by simp [unitStart],
      by simp [unitStart], by simp [unitStart]⟩
  | year =>
    exact ⟨hyear, ⟨le_rfl, by simp [unitStart]⟩, ⟨le_rfl, hone _⟩, by simp [unitStart],
      by simp [unitStart], by simp [unitStart], by simp [unitStart]⟩

/-- The start of a unit is not after a date exactly when the unit is not after that of the date. -/
lemma packed_unitStart_le_iff {tm' : TM} (htm : tm.Valid)
    (htm' : tm'.Valid) : (unitStart granularity tm).packed ≤ tm'.packed
    ↔ tm.packed / 2 ^ unitBits granularity ≤ tm'.packed / 2 ^ unitBits granularity := by
  have hday := htm.day_le
  have hday' := htm'.day_le
  obtain ⟨-, hmonth, hone, hhour, hminute, hsecond, hms⟩ := htm
  obtain ⟨-, hmonth', hone', hhour', hminute', hsecond', hms'⟩ := htm'
  cases granularity <;> simp only [unitStart, unitBits, TM.packed] <;> omega

/-- **A truncated time is not after `r` exactly when its unit is not after that of `r`.** -/
lemma truncate_le_iff {t r : ℕ} (ht : t ≤ maxTimeSupport)
    (hr : r ≤ maxTimeSupport) : truncate granularity t ≤ r
    ↔ (convertToTM t).packed / 2 ^ unitBits granularity ≤ (convertToTM r).packed / 2 ^ unitBits granularity := by
  obtain ⟨htm, -⟩ := convertToTM_spec ht
  obtain ⟨htm', htime⟩ := convertToTM_spec hr
  rw [← packed_unitStart_le_iff granularity htm htm',
    ← timestamp_le_iff (unitStart_valid granularity htm) htm', htime, truncate]

/-! ## The terms of a query -/

/-- The unit of a time: its packed date down to the granularity. -/
def unitNumber : ℕ :=
  (convertToTM timestamp).packed / 2 ^ unitBits granularity

/-- The first unit that begins at `l` or later. -/
def firstUnit (l : ℤ) : ℕ :=
  if l ≤ 0 then unitNumber granularity 0 else unitNumber granularity (l - 1).toNat + 1

lemma unitBits_le : unitBits granularity ≤ 36 := by
  cases granularity <;> decide

lemma unitNumber_mul_lt :
    unitNumber granularity timestamp * 2 ^ unitBits granularity < 131 * 2 ^ 36 :=
  lt_of_le_of_lt (Nat.div_mul_le_self _ _) (convertToTM_valid timestamp).packed_lt

lemma firstUnit_mul_lt (l : ℤ) :
    firstUnit granularity l * 2 ^ unitBits granularity < 132 * 2 ^ 36 := by
  have hunit : 2 ^ unitBits granularity ≤ 2 ^ 36 := Nat.pow_le_pow_right (by norm_num) (unitBits_le granularity)
  rw [firstUnit]
  split_ifs
  · have := unitNumber_mul_lt granularity 0
    omega
  have := unitNumber_mul_lt granularity (l - 1).toNat
  rw [Nat.add_mul, one_mul]
  omega

lemma toNat_dateTerm :
    (convertToDateTerm (convertToTM timestamp) (init granularity)).toNat
    = unitNumber granularity timestamp * 2 ^ unitBits granularity :=
  toNat_convertToDateTerm granularity (convertToTM_valid timestamp)

/-- **The calendar conversion**, up to the first millisecond of 2100: it goes back to the timestamp, its fields are
those of a date, and the date words down to the millisecond grow with the time. -/
theorem convertToTM_strictMono {t : ℕ} (ht : t ≤ maxTimeSupport) :
    TimestampUtil.convertToTimestamp (convertToTM t) = some t ∧ (convertToTM t).Valid
      ∧ ∀ t', t < t' → t' ≤ maxTimeSupport → convertToDateTerm (convertToTM t) (DateLevelFormat.init .millisecond)
          < convertToDateTerm (convertToTM t') (DateLevelFormat.init .millisecond) := by
  refine ⟨?_, convertToTM_valid t, fun t' hlt ht' => ?_⟩
  · rcases ht.lt_or_eq with hlt | rfl
    · exact convertToTimestamp_convertToTM hlt
    · decide +kernel
  obtain ⟨hvalid, htime⟩ := convertToTM_spec ht
  obtain ⟨hvalid', htime'⟩ := convertToTM_spec ht'
  have horder := timestamp_le_iff hvalid' hvalid
  rw [htime, htime', ← not_lt, iff_false_left (not_not_intro hlt), not_le] at horder
  rw [UInt64.lt_iff_toNat_lt, toNat_dateTerm, toNat_dateTerm, unitNumber, unitNumber]
  simpa [unitBits] using horder

/-- The last second of 2000 and the first of 2001. -/
theorem convertToTM_strictMono_newYear :
    convertToDateTerm (convertToTM 978307199000) (DateLevelFormat.init .millisecond)
      < convertToDateTerm (convertToTM 978307200000) (DateLevelFormat.init .millisecond) :=
  (convertToTM_strictMono (by decide)).2.2 _ (by decide) (by decide)

lemma toNat_getSearchGranularityUnit :
    (getSearchGranularityUnit granularity).toNat = 2 ^ unitBits granularity := by
  cases granularity <;> decide

variable {l r : ℤ} {granularity} {left right : UInt64}

lemma parseQuery_eq (granularity : Granularity) (hr : 0 ≤ r) (hlr : l ≤ r) :
    ∃ left right, parseQuery granularity l r = some (left, right) := by
  have hok : ¬ (r < 0 ∨ r < if decide (l ≤ 0) = true then 0 else l) := by
    split_ifs <;> omega
  simp only [parseQuery, if_neg hok]
  exact ⟨_, _, rfl⟩

lemma toNat_leftTerm (granularity : Granularity) {n : ℕ} :
    (convertToDateTerm (convertToTM n) (init granularity)
      + getSearchGranularityUnit granularity).toNat
    = (unitNumber granularity n + 1) * 2 ^ unitBits granularity := by
  have hlt := unitNumber_mul_lt granularity n
  have hunit : 2 ^ unitBits granularity ≤ 2 ^ 36 := Nat.pow_le_pow_right (by norm_num) (unitBits_le granularity)
  rw [UInt64.toNat_add, toNat_dateTerm, toNat_getSearchGranularityUnit, Nat.mod_eq_of_lt (by omega),
    Nat.add_mul, one_mul]

/-- The terms of a query are the words of its first and its last unit. -/
lemma toNat_parseQuery (hquery : parseQuery granularity l r = some (left, right)) :
    left.toNat = firstUnit granularity l * 2 ^ unitBits granularity
    ∧ right.toNat = unitNumber granularity r.toNat * 2 ^ unitBits granularity := by
  by_cases hzero : l ≤ 0
  · simp only [parseQuery, hzero, decide_true, if_true] at hquery
    split_ifs at hquery
    simp only [Option.some.injEq, Prod.mk.injEq] at hquery
    obtain ⟨rfl, rfl⟩ := hquery
    rw [firstUnit, if_pos hzero]
    exact ⟨toNat_dateTerm granularity 0, toNat_dateTerm granularity _⟩
  simp only [parseQuery, hzero, decide_false, Bool.false_eq_true, if_false] at hquery
  split_ifs at hquery
  simp only [Option.some.injEq, Prod.mk.injEq] at hquery
  obtain ⟨rfl, rfl⟩ := hquery
  rw [firstUnit, if_neg hzero]
  exact ⟨toNat_leftTerm granularity, toNat_dateTerm granularity _⟩

/-- **The terms of a query**, as the loop takes them. -/
lemma parseQuery_spec (hquery : parseQuery granularity l r = some (left, right)) :
    left.toNat = firstUnit granularity l * 2 ^ pad granularity * 2 ^ startBits granularity
    ∧ right.toNat = unitNumber granularity r.toNat * 2 ^ pad granularity * 2 ^ startBits granularity
    ∧ left.toNat < 2 ^ 60 ∧ right.toNat < 2 ^ 60 := by
  obtain ⟨hleft, hright⟩ := toNat_parseQuery hquery
  have hleftlt := firstUnit_mul_lt granularity l
  have hrightlt := unitNumber_mul_lt granularity r.toNat
  exact ⟨hleft.trans (mul_unit_eq _ _), hright.trans (mul_unit_eq _ _), by omega, by omega⟩

/-- What a kind of search finds among the keys of a document. -/
lemma exists_hit_document {hit : KeyInterval → UInt64 → Prop} (hhit : Hits hit)
    (hquery : parseQuery granularity l r = some (left, right)) (t : ℕ) :
    (∃ interval ∈ keyIntervals (init granularity) (List.range' 1 12) 0 left right,
      ∃ k ∈ documentKeys granularity t, hit interval k)
    ↔ (firstUnit granularity l ≤ unitNumber granularity t
        ∧ unitNumber granularity t ≤ unitNumber granularity r.toNat)
      ∧ ¬ Lost ((presentLevels granularity).map dateLevel) (firstUnit granularity l * 2 ^ pad granularity)
        (unitNumber granularity r.toNat * 2 ^ pad granularity)
        (unitNumber granularity t * 2 ^ pad granularity) := by
  obtain ⟨hleft, hright, hleftlt, hrightlt⟩ := parseQuery_spec hquery
  have hword := toNat_dateTerm granularity t
  have hwordlt := unitNumber_mul_lt granularity t
  have hpos := Nat.two_pow_pos (pad granularity)
  rw [documentKeys, exists_hit_query granularity hhit hleft hright hleftlt hrightlt
    (hword.trans (mul_unit_eq _ _)) ⟨_, by rw [hword, Nat.mul_comm]⟩ (by omega)
    (limited_unit granularity (convertToTM_valid t)),
    Nat.mul_le_mul_right_iff hpos, Nat.mul_le_mul_right_iff hpos]

/-! ## What is lost -/

/-- The first year, from 1970, that begins at `l` or later. -/
def firstYear (l : ℕ) : ℕ := if l = 0 then 0 else (convertToTM (l - 1)).year + 1

/-- The year of `t` is in a whole block of 32 years, counted from 1970, between the first and the last
year of the query. -/
def YearLost (granularity : Granularity) (l r t : ℕ) : Prop :=
  granularity = .year ∧ (firstYear l + 31) / 32 * 32 ≤ (convertToTM t).year
    ∧ (convertToTM t).year < (convertToTM r).year / 32 * 32

lemma topBlock_map_dateLevel (levels : List ℕ) (v : ℕ) :
    topBlock (levels.map dateLevel) v = v / 2 ^ (levels.map levelBits).sum := by
  induction levels generalizing v with
  | nil => simp [topBlock]
  | cons level levels ih =>
    rw [List.map_cons, topBlock, ih, List.map_cons, List.sum_cons, pow_add, Nat.div_div_eq_div_mul]
    rfl

/-- The level of the years never takes a block for a whole one below the year 511. -/
lemma endBlock_year {r : ℕ} (hr : r < 511) : (dateLevel 12).endBlock r = 0 := by
  have hmod : r % 512 = r := Nat.mod_eq_of_lt (by omega)
  have hfull : (dateLevel 12).full r = false := by
    show (!(decide (r % 512 < 512) && decide (r % 512 ≠ 511))) = false
    rw [hmod]
    simp
    omega
  rw [Level.endBlock, hfull]
  show r / 512 + 0 = 0
  omega

lemma not_lost_of_ne_year (hne : granularity ≠ .year) (a v t : ℕ) :
    ¬ Lost ((presentLevels granularity).map dateLevel) a (unitNumber granularity t * 2 ^ pad granularity) v := by
  rintro ⟨p, hp, -⟩
  have hsplit : presentLevels granularity
      = List.range' (getGranularityLevel granularity) (12 - getGranularityLevel granularity)
        ++ [12] := by
    cases granularity <;> rfl
  have hsum : ((List.range' (getGranularityLevel granularity)
      (12 - getGranularityLevel granularity)).map levelBits).sum = 36 - unitBits granularity := by
    cases granularity <;> rfl
  have hpad : pad granularity = 0 := by
    rw [pad, startBits_eq, if_neg hne, Nat.sub_self]
  have hyear : unitNumber granularity t / 2 ^ (36 - unitBits granularity) < 131 := by
    rw [unitNumber, Nat.div_div_eq_div_mul, ← pow_add, Nat.add_sub_cancel' (unitBits_le granularity)]
    exact Nat.div_lt_of_lt_mul (by rw [Nat.mul_comm]; exact (convertToTM_valid t).packed_lt)
  rw [hsplit, List.map_append, List.map_cons, List.map_nil, hpad, pow_zero, mul_one, remainder_append_eq_none] at hp
  · simp at hp
  intro r' hr'
  rw [topBlock_map_dateLevel, hsum] at hr'
  exact endBlock_year (by omega)

lemma unitNumber_year (t : ℕ) : unitNumber .year t = (convertToTM t).year := by
  have htm := convertToTM_valid t
  have hday := htm.day_le
  obtain ⟨-, ⟨-, hmonth⟩, -, hhour, hminute, hsecond, hms⟩ := htm
  show (convertToTM t).packed / 2 ^ 36 = _
  unfold TM.packed
  omega

lemma firstUnit_year (l : ℕ) : firstUnit .year l = firstYear l := by
  rw [firstUnit, firstYear]
  by_cases hl : l = 0
  · subst hl
    rw [if_pos (by norm_num), if_pos rfl, unitNumber_year]
    decide
  have hpos : ¬ ((l : ℤ) ≤ 0) := by omega
  rw [if_neg hpos, if_neg hl, unitNumber_year]
  congr 3
  omega

lemma lost_year_iff (a b y : ℕ) : Lost ((presentLevels .year).map dateLevel) (a * 2 ^ pad .year) (b * 2 ^ pad .year)
      (y * 2 ^ pad .year)
    ↔ Granularity.year = .year ∧ (a + 31) / 32 * 32 ≤ y ∧ y < b / 32 * 32 := by
  have hlevels : (presentLevels .year).map dateLevel = [dateLevel 12] := rfl
  have hpad : 2 ^ pad .year = 16 := rfl
  have hfirst : RadixCover.firstBlock (dateLevel 12).size (a * 16) = (a + 31) / 32 := by
    show a * 16 / 512 + (if a * 16 % 512 = 0 then 0 else 1) = _
    split_ifs <;> omega
  have hlast : (dateLevel 12).endBlock (b * 16) = b / 32 := by
    have hfull : (dateLevel 12).full (b * 16) = false := by
      show (!(decide (b * 16 % 512 < 512) && decide (b * 16 % 512 ≠ 511))) = false
      simp
      omega
    rw [Level.endBlock, hfull]
    show b * 16 / 512 + 0 = _
    omega
  have htop : topBlock [dateLevel 12] (y * 16) = y / 32 := by
    show y * 16 / 512 = _
    omega
  rw [hlevels, hpad, Lost, remainder, hfirst, hlast, htop]
  by_cases hblocks : b / 32 ≤ (a + 31) / 32
  · simp only [if_pos hblocks, reduceCtorEq, false_and, exists_false, true_and, false_iff]
    omega
  · simp only [if_neg hblocks, remainder, Option.some.injEq, exists_eq_left', true_and]
    omega

variable (granularity : Granularity)

/-- The lost units are years in whole blocks of 32. -/
lemma lost_iff (l r t : ℕ) : Lost ((presentLevels granularity).map dateLevel)
      (firstUnit granularity l * 2 ^ pad granularity) (unitNumber granularity r * 2 ^ pad granularity)
      (unitNumber granularity t * 2 ^ pad granularity)
    ↔ YearLost granularity l r t := by
  by_cases hyear : granularity = .year
  · subst hyear
    rw [firstUnit_year, unitNumber_year, unitNumber_year]
    exact lost_year_iff _ _ _
  · simp only [YearLost, hyear, false_and, iff_false]
    exact not_lost_of_ne_year hyear _ _ _

/-! ## Ranges -/

/-- Some key lies in some range. -/
def Finds (ranges : List (UInt64 × UInt64)) (keys : List UInt64) : Prop :=
  ∃ range ∈ ranges, ∃ k ∈ keys, range.1 ≤ k ∧ k ≤ range.2

instance decidableFinds (ranges : List (UInt64 × UInt64)) (keys : List UInt64) : Decidable (Finds ranges keys) :=
  inferInstanceAs (Decidable (∃ range ∈ ranges, ∃ k ∈ keys, range.1 ≤ k ∧ k ≤ range.2))

/-- The range of an interval has the keys of its level with a number in the interval. -/
lemma hits_range : Hits fun interval k => interval.range.1 ≤ k ∧ k ≤ interval.range.2 := by
  have hends : ∀ {level T p}, Fits level T p →
      (scale level T p).range.1.toNat = level * 2 ^ 60 + p.1 * 2 ^ T
        ∧ (scale level T p).range.2.toNat = level * 2 ^ 60 + p.2 * 2 ^ T := by
    intro level T p hp
    have hfrom := hp.toNat_fromKey
    have hto := hp.toNat_toKey
    have hleft := hp.left
    have hright := hp.right
    rw [KeyInterval.range, ← hfrom, ← hto]
    exact ⟨toNat_mark hp.level_le (by omega), toNat_mark hp.level_le (by omega)⟩
  constructor
  · intro level T p level' x hp hlevel' hx hin
    obtain ⟨hfrom, hto⟩ := hends hp
    have hleft := hp.left
    have hright := hp.right
    rw [UInt64.le_iff_toNat_le, UInt64.le_iff_toNat_le, hfrom, hto, toNat_mark hlevel' hx] at hin
    omega
  · intro level T p v hp hv _
    obtain ⟨hfrom, hto⟩ := hends hp
    have hnum := Word64.toNat_ofNat_of_lt (n := v * 2 ^ T) (by omega)
    rw [UInt64.le_iff_toNat_le, UInt64.le_iff_toNat_le, hfrom, hto,
      toNat_mark hp.level_le (by omega), hnum, Nat.add_le_add_iff_left, Nat.add_le_add_iff_left,
      Nat.mul_le_mul_right_iff (Nat.two_pow_pos T), Nat.mul_le_mul_right_iff (Nat.two_pow_pos T)]

lemma finds_calculateRanges_iff (left right : UInt64) (format : DateLevelFormat)
    (keys : List UInt64) : Finds (calculateRanges left right format) keys
    ↔ ∃ interval ∈ keyIntervals format (List.range' 1 12) 0 left right,
      ∃ k ∈ keys, interval.range.1 ≤ k ∧ k ≤ interval.range.2 := by
  simp only [Finds, calculateRanges, List.mem_map, exists_exists_and_eq_and]

lemma firstUnit_le_iff {l t : ℕ} (hl : l ≤ maxTimeSupport) (ht : t ≤ maxTimeSupport) :
    firstUnit granularity l ≤ unitNumber granularity t ↔ l ≤ truncate granularity t := by
  by_cases hzero : l = 0
  · subst hzero
    have hstart := ((truncate_le_iff granularity (Nat.zero_le _) (Nat.zero_le _)).mpr le_rfl).trans (Nat.zero_le t)
    rw [firstUnit, if_pos (by norm_num)]
    exact iff_of_true ((truncate_le_iff granularity (Nat.zero_le _) ht).mp hstart) (Nat.zero_le _)
  have hpos : ¬ ((l : ℤ) ≤ 0) := by omega
  have hpred : ((l : ℤ) - 1).toNat = l - 1 := by omega
  have hbefore := truncate_le_iff granularity ht (r := l - 1) (by omega)
  rw [firstUnit, if_neg hpos, hpred, Nat.succ_le_iff, ← not_le]
  unfold unitNumber
  rw [← hbefore]
  omega

/-- **A date search is exact, but for the years in whole blocks of 32.** -/
theorem calculateRanges_exact_iff (l r t : ℕ) (hlr : l ≤ r)
    (hr : r ≤ maxTimeSupport) (ht : t ≤ maxTimeSupport) :
    ∃ left right, parseQuery granularity l r = some (left, right)
      ∧ ((Finds (calculateRanges left right (DateLevelFormat.init granularity)) (documentKeys granularity t)
          ↔ l ≤ truncate granularity t ∧ truncate granularity t ≤ r)
        ↔ ¬ YearLost granularity l r t) := by
  obtain ⟨left, right, hquery⟩ := parseQuery_eq granularity (l := l) (r := r) (by omega) (by omega)
  refine ⟨left, right, hquery, ?_⟩
  have hunits : (firstUnit granularity l ≤ unitNumber granularity t
        ∧ unitNumber granularity t ≤ unitNumber granularity (r : ℤ).toNat)
      ↔ l ≤ truncate granularity t ∧ truncate granularity t ≤ r := by
    rw [firstUnit_le_iff granularity (hlr.trans hr) ht, Int.toNat_natCast, truncate_le_iff granularity ht hr]
    rfl
  have hinterval : YearLost granularity l r t → l ≤ truncate granularity t ∧ truncate granularity t ≤ r := by
    rintro ⟨rfl, hfirst, hlast⟩
    rw [← hunits, firstUnit_year, unitNumber_year, unitNumber_year, Int.toNat_natCast]
    omega
  rw [finds_calculateRanges_iff, exists_hit_document hits_range hquery, hunits, Int.toNat_natCast, lost_iff]
  by_cases hlost : YearLost granularity l r t
  · simp [hlost, hinterval hlost]
  · simp [hlost]

/-- A query of March to May 1970 finds a document of April 15. -/
theorem calculateRanges_exact_april : ∃ left right, parseQuery .month 5097600000 13046400000 = some (left, right)
      ∧ Finds (calculateRanges left right (DateLevelFormat.init .month)) (documentKeys .month 8985600000) := by
  obtain ⟨left, right, hquery, hexact⟩ := calculateRanges_exact_iff .month 5097600000 13046400000
    8985600000 (by norm_num) (by decide) (by decide)
  refine ⟨left, right, hquery, (hexact.mpr ?_).mpr ?_⟩
  · rintro ⟨hyear, -⟩
    simp at hyear
  · decide +kernel

/-- A query from 1970 to the first day of 2002, with one key per year, does not find a document of
1970: the first 32 years are a whole block of which no level has a range. -/
theorem calculateRanges_misses_1970 : parseQuery .year (0 : ℕ) (1009843200000 : ℕ) = some (0, 2199023255552)
      ∧ ¬ Finds (calculateRanges 0 2199023255552 (DateLevelFormat.init .year)) (documentKeys .year 0)
      ∧ 0 ≤ truncate .year 0 ∧ truncate .year 0 ≤ 1009843200000 := by
  decide +kernel

end DateTerm

end Havenask
