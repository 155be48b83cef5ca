import Havenask.DateIndex.DateQuery
import Havenask.Lib.Fuel

/-!
# The two readers of a date index

A segment on disk is searched by the ranges of a query, the one in memory by a list of its keys:
`CalculateTerms` runs the same loop as `CalculateRanges`, and `AddTerms` lists the keys of each interval
in steps of the unit of its level, after it has lowered a right end above the limit of the level to the
limit.  A document has no such values, so that both find the same documents
(`calculateTerms_iff_calculateRanges`).
-/

namespace Havenask

open DateLevelFormat

open Fuel (Returns)

namespace DateTerm

/-! ## The loop of `AddTerms` -/

lemma setLevelType_eq_mark {x : UInt64} (hx : x.toNat < 2 ^ 60) (level : ℕ) :
    setLevelType level x = mark level x := by
  have hlow : x &&& lowMask 60 = x := by
    rw [← UInt64.toNat_inj, lowMask, Word64.toNat_and_lowMask _ (by norm_num), Nat.mod_eq_of_lt hx]
  rw [setLevelType, hlow, mark]

/-- Multiples of the unit of a level, from the first key to the last. -/
def IsTermList (level T a : ℕ) (toKey : UInt64) (terms : List UInt64) : Prop :=
  ∀ k, k ∈ terms ↔ ∃ w, a ≤ w ∧ w * 2 ^ T ≤ toKey.toNat
    ∧ k = mark level (UInt64.ofNat (w * 2 ^ T))

section
variable {T a : ℕ} {fromKey toKey : UInt64}

lemma addTermsLoop_stops (level : ℕ) (hfrom : fromKey.toNat = a * 2 ^ T) (hstop : ¬ fromKey ≤ toKey) :
    Returns (fun fuel => addTermsLoop level T fuel fromKey toKey) []
    ∧ IsTermList level T a toKey [] := by
  refine ⟨⟨1, fun fuel hfuel => ?_⟩, fun k => ?_⟩
  · obtain ⟨n, rfl⟩ : ∃ n, fuel = n + 1 := ⟨fuel - 1, by omega⟩
    exact if_neg hstop
  rw [UInt64.le_iff_toNat_le] at hstop
  simp only [List.not_mem_nil, false_iff]
  rintro ⟨w, hw, hle, -⟩
  have := Nat.mul_le_mul_right (2 ^ T) hw
  omega

/-- **The loop lists the multiples of its unit.** -/
lemma addTermsLoop_returns (level : ℕ) (hT : T < 60) (hfrom : fromKey.toNat = a * 2 ^ T)
    (hfromlt : fromKey.toNat < 2 ^ 61) (htolt : toKey.toNat < 2 ^ 60) :
    ∃ terms, Returns (fun fuel => addTermsLoop level T fuel fromKey toKey) terms
    ∧ IsTermList level T a toKey terms := by
  have hpow : 2 ^ T < 2 ^ 60 := Nat.pow_lt_pow_right (by norm_num) hT
  have hpos := Nat.two_pow_pos T
  obtain ⟨n, hn⟩ : ∃ n, toKey.toNat < fromKey.toNat + n := ⟨toKey.toNat + 1, by omega⟩
  induction n generalizing a fromKey with
  | zero =>
    refine ⟨[], addTermsLoop_stops level hfrom ?_⟩
    rw [UInt64.le_iff_toNat_le]
    omega
  | succ n ih =>
    by_cases hgo : fromKey ≤ toKey
    · have hle := UInt64.le_iff_toNat_le.mp hgo
      have hnext : (fromKey + plusUnit T).toNat = (a + 1) * 2 ^ T := by
        rw [UInt64.toNat_add, toNat_plusUnit (by omega), hfrom, Nat.mod_eq_of_lt (by omega), Nat.add_mul, one_mul]
      have hsucc : (a + 1) * 2 ^ T = fromKey.toNat + 2 ^ T := by
        rw [Nat.add_mul, one_mul, hfrom]
      obtain ⟨terms, ⟨N, hN⟩, hmem⟩ := ih hnext (by omega) (by omega)
      refine ⟨mark level fromKey :: terms, ⟨N + 1, fun fuel hfuel => ?_⟩, fun k => ?_⟩
      · obtain ⟨m, rfl⟩ : ∃ m, fuel = m + 1 := ⟨fuel - 1, by omega⟩
        have hrest : addTermsLoop level T m (fromKey + plusUnit T) toKey = some terms := hN m (by omega)
        show addTermsLoop level T (m + 1) fromKey toKey = _
        rw [addTermsLoop, if_pos hgo, hrest, Option.map_some, setLevelType_eq_mark (by omega)]
      rw [List.mem_cons, hmem, eq_ofNat hfrom]
      constructor
      · rintro (rfl | ⟨w, hw, hwle, rfl⟩)
        · exact ⟨a, le_rfl, by omega, rfl⟩
        · exact ⟨w, by omega, hwle, rfl⟩
      · rintro ⟨w, hw, hwle, rfl⟩
        rcases hw.lt_or_eq with hlt | rfl
        · exact Or.inr ⟨w, hlt, hwle, rfl⟩
        · exact Or.inl rfl
    · exact ⟨[], addTermsLoop_stops level hfrom hgo⟩

end

/-! ## The limit -/

/-- A number with its field lowered to the limit of the level. -/
def clampNumber (level b : ℕ) : ℕ :=
  if levelValueLimits level < b % 2 ^ fieldBits level then
    b / 2 ^ fieldBits level * 2 ^ fieldBits level + levelValueLimits level
  else b

lemma clampNumber_le (level b : ℕ) : clampNumber level b ≤ b := by
  have := Nat.div_add_mod' b (2 ^ fieldBits level)
  rw [clampNumber]
  split_ifs <;> omega

/-- The limit makes no difference to numbers within it. -/
lemma le_clampNumber_iff {level v b : ℕ} (hv : v % 2 ^ fieldBits level ≤ levelValueLimits level) :
    v ≤ clampNumber level b ↔ v ≤ b := by
  refine ⟨fun h => h.trans (clampNumber_le level b), fun h => ?_⟩
  have hdiv := Nat.div_le_div_right (c := 2 ^ fieldBits level) h
  have hvsplit := Nat.div_add_mod' v (2 ^ fieldBits level)
  rw [clampNumber]
  split_ifs
  · have := Nat.mul_le_mul_right (2 ^ fieldBits level) hdiv
    omega
  · exact h

lemma toNat_clampToLimit {level T b : ℕ} {toKey : UInt64} (hlevel : level ≤ 12)
    (hT : T + levelBits level < 60) (hto : toKey.toNat = b * 2 ^ T) :
    (clampToLimit level T toKey).toNat = clampNumber level b * 2 ^ T := by
  have hbits : (if level % 2 = 1 ∨ 10 < level then noMiddleLevelBits level else levelBits level)
      = fieldBits level := by
    interval_cases level <;> rfl
  have hfield : fieldBits level ≤ levelBits level + 5 := by
    interval_cases level <;> decide
  have hfield10 : fieldBits level ≤ 10 := by
    interval_cases level <;> decide
  have hlimit : levelValueLimits level < 2 ^ 64 := by
    interval_cases level <;> decide
  have hvalue : UInt64.ofNat (levelValueLimits level)
      < (toKey >>> UInt64.ofNat T &&& lowMask (fieldBits level))
        ↔ levelValueLimits level < b % 2 ^ fieldBits level := by
    rw [UInt64.lt_iff_toNat_lt, Word64.toNat_ofNat_of_lt hlimit, lowMask,
      Word64.toNat_and_lowMask _ (by omega), Word64.toNat_shiftRight _ (by omega), hto,
      Nat.mul_div_cancel _ (Nat.two_pow_pos T)]
  simp only [clampToLimit, hbits, hvalue, clampNumber]
  by_cases hover : levelValueLimits level < b % 2 ^ fieldBits level
  · have hclear : (toKey &&& ~~~(lowMask (fieldBits level) <<< UInt64.ofNat T)).toNat
        = b / 2 ^ fieldBits level * 2 ^ (T + fieldBits level) :=
      Word64.toNat_and_not_fieldMask hto (by omega) (by omega) (by omega)
    have hlt : levelValueLimits level < 2 ^ fieldBits level := hover.trans (Nat.mod_lt _ (Nat.two_pow_pos _))
    rw [if_pos hover, if_pos hover, Word64.toNat_or_shiftLeft hclear hlt (by omega) (by omega), hclear,
      pow_add, Nat.mul_comm (2 ^ T), Nat.add_mul, Nat.mul_assoc]
  · rw [if_neg hover, if_neg hover, hto]

/-! ## Terms -/

/-- The keys of an interval: those of its level with a number in it, up to the limit. -/
lemma addTerms_returns {level T : ℕ} {p : ℕ × ℕ} (hp : Fits level T p) :
    ∃ terms, Returns (fun fuel => addTerms fuel (scale level T p)) terms
    ∧ ∀ k, k ∈ terms ↔ ∃ w, p.1 ≤ w ∧ w ≤ clampNumber level p.2
      ∧ k = mark level (UInt64.ofNat (w * 2 ^ T)) := by
  have hclamp := toNat_clampToLimit hp.level_le hp.bits hp.toNat_toKey
  have hle := Nat.mul_le_mul_right (2 ^ T) (clampNumber_le level p.2)
  have hleft := hp.left
  have hright := hp.right
  obtain ⟨terms, hreturns, hmem⟩ := addTermsLoop_returns level (by have := hp.bits; omega)
    hp.toNat_fromKey (by rw [hp.toNat_fromKey]; omega)
    (by omega : (clampToLimit level T (scale level T p).toKey).toNat < 2 ^ 60)
  refine ⟨terms, hreturns, fun k => ?_⟩
  rw [hmem, hclamp]
  simp only [Nat.mul_le_mul_right_iff (Nat.two_pow_pos T)]

lemma mark_inj {level level' : ℕ} {x x' : UInt64} (hlevel : level ≤ 12) (hlevel' : level' ≤ 12)
    (hx : x.toNat < 2 ^ 60) (hx' : x'.toNat < 2 ^ 60) (h : mark level x = mark level' x') :
    level = level' ∧ x = x' := by
  have heq := congrArg UInt64.toNat h
  rw [toNat_mark hlevel hx, toNat_mark hlevel' hx'] at heq
  refine ⟨by omega, ?_⟩
  rw [← UInt64.toNat_inj]
  omega

/-- The terms of an interval have the keys of its level with a number in the interval. -/
lemma hits_terms :
    Hits fun interval k => ∃ terms, Returns (fun fuel => addTerms fuel interval) terms ∧ k ∈ terms := by
  have hword : ∀ {level T p w}, Fits level T p → w ≤ clampNumber level p.2 →
      w * 2 ^ T < 2 ^ 60 ∧ (UInt64.ofNat (w * 2 ^ T)).toNat = w * 2 ^ T := by
    intro level T p w hp hw
    have hle := Nat.mul_le_mul_right (2 ^ T) (hw.trans (clampNumber_le level p.2))
    have hright := hp.right
    exact ⟨by omega, Word64.toNat_ofNat_of_lt (by omega)⟩
  constructor
  · rintro level T p level' x hp hlevel' hx ⟨terms, hreturns, hk⟩
    obtain ⟨terms', hreturns', hmem⟩ := addTerms_returns hp
    obtain rfl := hreturns.unique hreturns'
    obtain ⟨w, -, hw, hmark⟩ := (hmem _).mp hk
    obtain ⟨hlt, hnum⟩ := hword hp hw
    exact (mark_inj hlevel' hp.level_le hx (by omega) hmark).1
  · intro level T p v hp hv hlimit
    obtain ⟨terms, hreturns, hmem⟩ := addTerms_returns hp
    have hvnum := Word64.toNat_ofNat_of_lt (n := v * 2 ^ T) (by omega)
    constructor
    · rintro ⟨terms', hreturns', hk⟩
      obtain rfl := hreturns.unique hreturns'
      obtain ⟨w, hfirst, hw, hmark⟩ := (hmem _).mp hk
      obtain ⟨hlt, hnum⟩ := hword hp hw
      obtain ⟨-, heq⟩ := mark_inj hp.level_le hp.level_le (by omega) (by omega) hmark
      rw [← UInt64.toNat_inj, hvnum, hnum] at heq
      obtain rfl := Nat.eq_of_mul_eq_mul_right (Nat.two_pow_pos T) heq
      exact ⟨hfirst, (le_clampNumber_iff hlimit).mp hw⟩
    · rintro ⟨hfirst, hlast⟩
      exact ⟨terms, hreturns, (hmem _).mpr ⟨v, hfirst, (le_clampNumber_iff hlimit).mpr hlast, rfl⟩⟩

/-! ## Both readers -/

lemma calculateTerms_returns {granularity : Granularity} {l r : ℤ} {left right : UInt64}
    (hquery : parseQuery granularity l r = some (left, right)) : ∃ terms, Returns
      (fun fuel => calculateTerms fuel left right (init granularity)) terms
    ∧ ∀ k, k ∈ terms
      ↔ ∃ interval ∈ keyIntervals (init granularity) (List.range' 1 12) 0 left right,
        ∃ list, Returns (fun fuel => addTerms fuel interval) list ∧ k ∈ list := by
  obtain ⟨hleft, hright, hleftlt, hrightlt⟩ := parseQuery_spec hquery
  obtain ⟨lists, ⟨N, hN⟩, hall⟩ := Fuel.exists_returns_mapM (f := addTerms) (R := fun _ _ => True)
    (l := keyIntervals (init granularity) (List.range' 1 12) 0 left right) (by
      intro interval hinterval
      obtain ⟨level, T, p, rfl, hp⟩ := mem_keyIntervals_init granularity hleft hright hleftlt hrightlt hinterval
      obtain ⟨terms, hreturns, -⟩ := addTerms_returns hp
      exact ⟨terms, hreturns, trivial⟩)
  refine ⟨lists.flatten, ⟨N, fun fuel hfuel => ?_⟩, fun k => ?_⟩
  · have hlists : (keyIntervals (init granularity) (List.range' 1 12) 0 left
        right).mapM (addTerms fuel) = some lists := hN fuel hfuel
    show calculateTerms fuel left right (init granularity) = _
    rw [calculateTerms, hlists, Option.map_some]
  rw [List.mem_flatten]
  refine (Fuel.exists_mem_iff_of_forall₂ hall fun interval list hlist => ?_).symm
  constructor
  · rintro ⟨list', hlist', hk⟩
    rwa [hlist.1.unique hlist']
  · exact fun hk => ⟨list, hlist.1, hk⟩

/-- **The readers in memory and on disk agree.** -/
theorem calculateTerms_iff_calculateRanges (granularity : Granularity) (l r : ℤ)
    (left right : UInt64) (hquery : parseQuery granularity l r = some (left, right)) (t : ℕ) : ∃ terms, Returns
        (fun fuel => calculateTerms fuel left right (DateLevelFormat.init granularity)) terms
      ∧ ((∃ k ∈ documentKeys granularity t, k ∈ terms)
        ↔ Finds (calculateRanges left right (DateLevelFormat.init granularity)) (documentKeys granularity t)) := by
  obtain ⟨terms, hreturns, hmem⟩ := calculateTerms_returns hquery
  refine ⟨terms, hreturns, ?_⟩
  rw [finds_calculateRanges_iff, exists_hit_document hits_range hquery, ← exists_hit_document hits_terms hquery]
  simp only [hmem]
  constructor
  · rintro ⟨k, hk, interval, hinterval, h⟩
    exact ⟨interval, hinterval, k, hk, h⟩
  · rintro ⟨interval, hinterval, k, hk, h⟩
    exact ⟨k, hk, interval, hinterval, h⟩

/-- A query of 2 and 3 January 1970, by days. -/
theorem calculateTerms_iff_calculateRanges_january : ∃ terms, Returns
        (fun fuel => calculateTerms fuel 4563402752 4697620480 (DateLevelFormat.init .day)) terms
      ∧ ((∃ k ∈ documentKeys .day 100000000, k ∈ terms)
        ↔ Finds (calculateRanges 4563402752 4697620480 (DateLevelFormat.init .day)) (documentKeys .day 100000000)) :=
  calculateTerms_iff_calculateRanges .day 86400000 172800000 4563402752 4697620480 (by decide +kernel) 100000000

end DateTerm

end Havenask
