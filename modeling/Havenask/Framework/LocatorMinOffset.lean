import Havenask.Framework.LocatorCompare
import Havenask.Framework.LocatorUpdate

/-!
# The cached minimum of a locator

`GetOffset` answers a field, `_minOffset`, that is meant to be the minimum of the offsets of all
progresses, `INVALID_OFFSET` when there are none.  Four pieces of code maintain it, each with its
own rules:

* **`SetMultiProgress`** computes the minimum as it goes, and returns at the first empty vector with
  `_minOffset` already invalid and the old ranges still in place;
* **`Update`** recomputes it, taking `INVALID_OFFSET` for "not set yet", and not at all when a later
  source refuses after earlier ones have been merged;
* **`ShrinkToRange`** drops ranges and leaves the minimum alone;
* the constructors and `SetOffset` go through `SetMultiProgress` with a single range.

`KeepsMinOffset` says of each call when the minimum is right afterwards, from the state and the
arguments before it; `call_minOffsetExact` is the step and `reachable_minOffsetExact` the run.  The
end is about what a run of updates has consumed (`updates_consumed_iff`).
-/

namespace Havenask

open IntervalMap List Option Progress

/-! ## A minimum whose start value is also a value -/

section
variable {α : Type} [LinearOrder α]

/-- The minimum of a list as a loop computes it that takes `s` for "not set yet". -/
def sentinelMin (s : α) (os : List α) : α := os.foldl (fun m o => if m = s then o else min m o) s

section
variable (s : α) (os : List α)
include s os

lemma sentinelMin_append (o : α) : sentinelMin s (os ++ [o])
    = if sentinelMin s os = s then o else min (sentinelMin s os) o := by
  rw [sentinelMin, foldl_append]
  rfl

lemma min?_getD_eq_iff (m : α) :
    os.min?.getD s = m ↔ (os = [] ∧ s = m) ∨ (m ∈ os ∧ ∀ o ∈ os, m ≤ o) := by
  cases hmin : os.min? with
  | none =>
    obtain rfl := min?_eq_none_iff.mp hmin
    simp
  | some a =>
    have ha := min?_eq_some_iff.mp hmin
    have hne : os ≠ [] := ne_nil_of_mem ha.1
    simp only [getD_some, hne, false_and, false_or]
    constructor
    · rintro rfl
      exact ha
    · rintro ⟨hm, hle⟩
      exact le_antisymm (ha.2 m hm) (hle a ha.1)

lemma sentinelMin_mem : sentinelMin s os = s ∨ sentinelMin s os ∈ os := by
  induction os using reverseRecOn with
  | nil => exact Or.inl rfl
  | append_singleton os o ih =>
    rw [sentinelMin_append]
    split_ifs with hs
    · simp
    rcases min_choice (sentinelMin s os) o with h | h <;> rw [h]
    · simp [ih.resolve_left hs]
    · simp

/-- The loop is right unless `s` itself is the minimum and something follows its last
occurrence. -/
lemma sentinelMin_eq_iff : sentinelMin s os = os.min?.getD s
    ↔ s ∉ os ∨ (∃ o ∈ os, o < s) ∨ os.getLast? = some s := by
  rw [eq_comm, min?_getD_eq_iff]
  induction os using reverseRecOn with
  | nil => simp [sentinelMin]
  | append_singleton os o ih =>
    rw [sentinelMin_append]
    have hmem := sentinelMin_mem s os
    generalize sentinelMin s os = m at ih hmem ⊢
    simp only [append_eq_nil_iff, cons_ne_self, and_false, false_and, false_or,
      mem_append, mem_singleton, getLast?_append, getLast?_singleton,
      some_or, some.injEq]
    by_cases hs : m = s
    · rw [if_pos hs]
      grind
    · rw [if_neg hs]
      grind

end

end

namespace Locator

/-! ## The calls -/

/-- The loop of `SetMultiProgress`; `none` is its early return at an empty vector. -/
def scanSources : Offset → MultiProgress → Option Offset
  | minOffset, [] => some minOffset
  | _, [] :: _ => none
  | minOffset, (progress :: progressVec) :: rest =>
    scanSources ((progress :: progressVec).foldl (fun m p => min m p.offset) minOffset) rest

variable (self : Locator)

def setMultiProgress (multiProgress : MultiProgress) : Locator :=
  match multiProgress with
  | [] => self
  | [] :: _ => self
  | (progress :: progressVec) :: rest =>
    match scanSources progress.offset ((progress :: progressVec) :: rest) with
    | none => { self with minOffset := Progress.invalidOffset }
    | some minOffset =>
      { self with minOffset, multiProgress := (progress :: progressVec) :: rest }

def setOffset (offset : Offset) : Locator := self.setMultiProgress [[⟨0, 65535, offset⟩]]

/-- `Locator(src, minOffset)`. -/
def ofSrcOffset (src : ℕ) (minOffset : Offset) : Locator :=
  setMultiProgress ⟨src, minOffset, [], [], false⟩ [[⟨0, 65535, minOffset⟩]]

/-- A range has hash ids between `from` and `to`. -/
def meets («from» «to» : ℕ) (p : Progress) : Bool := !(decide (p.to < «from») || decide («to» < p.from))

def shrinkVec («from» «to» : ℕ) (progressVec : ProgressVector) : ProgressVector :=
  (progressVec.filter (meets «from» «to»)).map fun p =>
    ⟨max p.from «from», min p.to «to», p.offset⟩

/-- The loop of `ShrinkToRange`.  `none` is a read of the first range of an empty vector, which the
source does not check for; `some none` is its `return false`. -/
def shrinkSources («from» «to» : ℕ) : MultiProgress → Option (Option MultiProgress)
  | [] => some (some [])
  | [] :: _ => none
  | (progress :: progressVec) :: rest =>
    if «from» < progress.from
        ∨ ((progress :: progressVec).getLast (by simp)).to < «to» then some none
    else
      match shrinkSources «from» «to» rest with
      | some (some newMultiProgress) =>
        some (some (shrinkVec «from» «to» (progress :: progressVec) :: newMultiProgress))
      | result => result

def shrinkToRange («from» «to» : ℕ) : Option (Bool × Locator) :=
  match shrinkSources «from» «to» self.multiProgress with
  | none => none
  | some none => some (false, self)
  | some (some multiProgress) => some (true, { self with multiProgress })

/-- The calls that change a locator. -/
inductive Call
  | setMultiProgress (multiProgress : MultiProgress)
  | setOffset (offset : Offset)
  | update (other : Locator)
  | shrinkToRange («from» «to» : ℕ)

/-- The locator after a call; `none` when the call reads outside a vector. -/
def call : Call → Option Locator
  | .setMultiProgress multiProgress => some (self.setMultiProgress multiProgress)
  | .setOffset offset => some (self.setOffset offset)
  | .update other => some (self.update other).2
  | .shrinkToRange «from» «to» => (self.shrinkToRange «from» «to»).map Prod.snd

/-- The progress vectors among the arguments are well formed. -/
def Call.WellFormed : Call → Prop
  | .setMultiProgress multiProgress => ∀ v ∈ multiProgress, Havenask.WellFormed v
  | .setOffset _ => True
  | .update other => other.WellFormed
  | .shrinkToRange _ _ => True

/-- The locators that construction and calls lead to, when every call is let through by `guard`.
The other locator of an update is one of them. -/
inductive Reachable (guard : Locator → Call → Prop) : Locator → Prop
  | new : Reachable guard default
  | ofSrcOffset (src : ℕ) (minOffset : Offset) : Reachable guard (ofSrcOffset src minOffset)
  | call {self self' : Locator} {c : Call} (hself : Reachable guard self) (hc : c.WellFormed)
      (hother : ∀ other, c = .update other → Reachable guard other) (hguard : guard self c)
      (hcall : self.call c = some self') : Reachable guard self'

/-! ## What the field is meant to be -/

/-- The offsets of all progresses, source by source. -/
def offsets (multiProgress : MultiProgress) : List Offset := multiProgress.flatten.map Progress.offset

/-- `GetOffset()` is the minimum over all progresses, `INVALID_OFFSET` when there are none. -/
def MinOffsetExact (L : Locator) : Prop := L.minOffset = (offsets L.multiProgress).min?.getD Progress.invalidOffset

instance decidableMinOffsetExact (L : Locator) : Decidable L.MinOffsetExact := inferInstanceAs (Decidable (_ = _))

lemma minOffsetExact_iff (L : Locator) : L.MinOffsetExact
    ↔ (offsets L.multiProgress = [] ∧ L.minOffset = invalidOffset)
    ∨ (L.minOffset ∈ offsets L.multiProgress ∧ ∀ o ∈ offsets L.multiProgress, L.minOffset ≤ o) := by
  rw [MinOffsetExact, eq_comm, min?_getD_eq_iff, eq_comm (a := invalidOffset)]

lemma recomputeMinOffset_eq (multiProgress : MultiProgress) :
    recomputeMinOffset multiProgress = sentinelMin invalidOffset (offsets multiProgress) := by
  rw [recomputeMinOffset, sentinelMin, offsets, foldl_map]

/-! ## SetMultiProgress and SetOffset -/

lemma offsets_cons (v : ProgressVector) (vs : MultiProgress) : offsets (v :: vs) = v.map offset ++ offsets vs := by
  simp [offsets]

lemma scanSources_eq_none_iff (minOffset : Offset) (vs : MultiProgress) :
    scanSources minOffset vs = none ↔ [] ∈ vs := by
  induction vs generalizing minOffset with
  | nil => simp [scanSources]
  | cons v vs ih =>
    cases v with
    | nil => simp [scanSources]
    | cons p v => simp [scanSources, ih]

variable {vs : MultiProgress}

lemma scanSources_eq_some {minOffset m : Offset}
    (h : scanSources minOffset vs = some m) : m = (offsets vs).foldl min minOffset := by
  induction vs generalizing minOffset with
  | nil => exact (some.inj h).symm
  | cons v vs ih =>
    cases v with
    | nil => simp [scanSources] at h
    | cons p v =>
      rw [scanSources] at h
      rw [ih h, offsets_cons, foldl_append, foldl_map]

/-- A call of `SetMultiProgress` is ignored, sets everything, or stops half way; the last leaves the
minimum right only where it was invalid before. -/
lemma setMultiProgress_minOffsetExact_iff {self : Locator} (hself : self.MinOffsetExact)
    (multiProgress : MultiProgress) : (self.setMultiProgress multiProgress).MinOffsetExact
    ↔ multiProgress = [] ∨ multiProgress.head? = some [] ∨ [] ∉ multiProgress
      ∨ self.minOffset = invalidOffset := by
  cases multiProgress with
  | nil => simpa [setMultiProgress] using hself
  | cons v rest =>
    cases v with
    | nil => simpa [setMultiProgress] using hself
    | cons p v =>
      rw [setMultiProgress]
      cases hscan : scanSources p.offset ((p :: v) :: rest) with
      | none =>
        have hmem := (scanSources_eq_none_iff _ _).mp hscan
        have hstop : ({ self with minOffset := invalidOffset } : Locator).MinOffsetExact
            ↔ invalidOffset = self.minOffset := by
          rw [MinOffsetExact, hself]
        simp only [hstop, hmem, reduceCtorEq, head?_cons, some.injEq, not_true_eq_false, false_or, eq_comm]
      | some m =>
        have hmem : [] ∉ (p :: v) :: rest := by
          rw [← scanSources_eq_none_iff p.offset, hscan]
          simp
        have hm := scanSources_eq_some hscan
        have hexact : m = (offsets ((p :: v) :: rest)).min?.getD invalidOffset := by
          rw [hm, offsets_cons, map_cons, cons_append, min?_cons', foldl_cons, min_self, getD_some]
        simp only [hmem, not_false_eq_true, true_or, or_true, iff_true]
        exact hexact

/-! ## ShrinkToRange -/

/-- A source whose ranges start after `from` or end before `to`. -/
def RefusesRange («from» «to» : ℕ) (v : ProgressVector) : Prop :=
  (∃ p, v.head? = some p ∧ «from» < p.from) ∨ ∃ p, v.getLast? = some p ∧ p.to < «to»

lemma shrinkSources_eq_some_none {f t : ℕ} (h : shrinkSources f t vs = some none) : ∃ v ∈ vs, RefusesRange f t v := by
  induction vs with
  | nil => simp [shrinkSources] at h
  | cons v vs ih =>
    cases v with
    | nil => simp [shrinkSources] at h
    | cons p v =>
      rw [shrinkSources] at h
      split_ifs at h with hout
      · refine ⟨p :: v, by simp, ?_⟩
        rcases hout with hlt | hlt
        · exact Or.inl ⟨p, rfl, hlt⟩
        · exact Or.inr ⟨_, getLast?_eq_getLast_of_ne_nil (by simp), hlt⟩
      have hrest : shrinkSources f t vs = some none := by
        cases hr : shrinkSources f t vs with
        | none => simp [hr] at h
        | some r =>
          cases r with
          | none => rfl
          | some r => simp [hr] at h
      obtain ⟨w, hw, href⟩ := ih hrest
      exact ⟨w, mem_cons_of_mem _ hw, href⟩

lemma shrinkSources_eq_some_some {f t : ℕ} {vs r : MultiProgress} (h : shrinkSources f t vs = some (some r)) :
    r = vs.map (shrinkVec f t) ∧ ∀ v ∈ vs, ¬ RefusesRange f t v := by
  induction vs generalizing r with
  | nil =>
    simp only [shrinkSources, some.injEq] at h
    simp [← h]
  | cons v vs ih =>
    cases v with
    | nil => simp [shrinkSources] at h
    | cons p v =>
      rw [shrinkSources] at h
      split_ifs at h with hout
      · simp at h
      cases hr : shrinkSources f t vs with
      | none => simp [hr] at h
      | some r' =>
        cases r' with
        | none => simp [hr] at h
        | some r' =>
          simp only [hr, some.injEq] at h
          obtain ⟨hmap, hno⟩ := ih hr
          refine ⟨by rw [← h, hmap, map_cons], ?_⟩
          intro w hw
          rcases mem_cons.mp hw with rfl | hw
          · rintro (⟨q, hq, hlt⟩ | ⟨q, hq, hlt⟩)
            · obtain rfl : p = q := by simpa using hq
              exact hout (Or.inl hlt)
            · rw [getLast?_eq_getLast_of_ne_nil (by simp), some.injEq] at hq
              exact hout (Or.inr (by rw [hq]; exact hlt))
          · exact hno w hw

lemma offsets_map_shrinkVec (f t : ℕ) (vs : MultiProgress) :
    offsets (vs.map (shrinkVec f t)) = (vs.flatten.filter (meets f t)).map offset := by
  induction vs with
  | nil => rfl
  | cons v vs ih =>
    rw [map_cons, offsets_cons, ih, flatten_cons, filter_append, map_append]
    simp [shrinkVec, Function.comp_def]

/-- Some range with the least offset is kept, or there is none to keep. -/
def ShrinkKeepsMin (L : Locator) (f t : ℕ) : Prop :=
  (∃ p ∈ L.multiProgress.flatten, meets f t p = true ∧ p.offset = L.minOffset)
    ∨ (∀ p ∈ L.multiProgress.flatten, meets f t p = false) ∧ L.minOffset = Progress.invalidOffset

lemma shrinkToRange_minOffsetExact_iff {self self' : Locator} (hself : self.MinOffsetExact)
    {f t : ℕ} (hcall : self.call (.shrinkToRange f t) = some self') : self'.MinOffsetExact
    ↔ (∃ v ∈ self.multiProgress, RefusesRange f t v) ∨ self.ShrinkKeepsMin f t := by
  rw [call, shrinkToRange] at hcall
  cases hs : shrinkSources f t self.multiProgress with
  | none => simp [hs] at hcall
  | some r =>
    cases r with
    | none =>
      simp only [hs, map_some, some.injEq] at hcall
      subst hcall
      exact iff_of_true hself (Or.inl (shrinkSources_eq_some_none hs))
    | some r =>
      simp only [hs, map_some, some.injEq] at hcall
      subst hcall
      obtain ⟨rfl, hno⟩ := shrinkSources_eq_some_some hs
      have hnone : ¬ ∃ v ∈ self.multiProgress, RefusesRange f t v := by
        rintro ⟨v, hv, href⟩
        exact hno v hv href
      simp only [hnone, false_or]
      rw [minOffsetExact_iff, offsets_map_shrinkVec, ShrinkKeepsMin]
      have hle : ∀ p ∈ self.multiProgress.flatten, self.minOffset ≤ p.offset := by
        intro p hp
        have hmem : p.offset ∈ offsets self.multiProgress := mem_map_of_mem hp
        rcases (minOffsetExact_iff self).mp hself with ⟨hnil, -⟩ | ⟨-, hall⟩
        · rw [hnil] at hmem
          simp at hmem
        · exact hall _ hmem
      constructor
      · rintro (⟨hnil, hinv⟩ | ⟨hmem, -⟩)
        · rw [map_eq_nil_iff, filter_eq_nil_iff] at hnil
          refine Or.inr ⟨fun p hp => ?_, hinv⟩
          simpa using hnil p hp
        · obtain ⟨p, hp, hoff⟩ := mem_map.mp hmem
          rw [mem_filter] at hp
          exact Or.inl ⟨p, hp.1, hp.2, hoff⟩
      · rintro (⟨p, hp, hmeets, hoff⟩ | ⟨hnone, hinv⟩)
        · refine Or.inr ⟨mem_map.mpr ⟨p, mem_filter.mpr ⟨hp, hmeets⟩, hoff⟩, ?_⟩
          intro o ho
          obtain ⟨q, hq, rfl⟩ := mem_map.mp ho
          exact hle q (mem_filter.mp hq).1
        · refine Or.inl ⟨?_, hinv⟩
          rw [map_eq_nil_iff, filter_eq_nil_iff]
          intro p hp
          simp [hnone p hp]

/-! ## Update -/

lemma exists_source_of_mem {L : Locator} {v : ProgressVector} (hv : v ∈ L.multiProgress) : ∃ i, L.source i = v := by
  obtain ⟨i, hi, rfl⟩ := getElem_of_mem hv
  exact ⟨i, by simp [source, hi]⟩

lemma source_mem_or_nil (L : Locator) (i : ℕ) : L.source i ∈ L.multiProgress ∨ L.source i = [] := by
  rw [source, getD_eq_getElem?_getD]
  cases hi : L.multiProgress[i]? with
  | none => exact Or.inr rfl
  | some v => exact Or.inl (mem_of_getElem? hi)

lemma mem_offsets_iff {L : Locator} (hL : L.WellFormed) (o : Offset) :
    o ∈ offsets L.multiProgress ↔ ∃ i h, offsetAt (L.source i) h = some o := by
  constructor
  · intro ho
    obtain ⟨p, hp, rfl⟩ := mem_map.mp ho
    obtain ⟨v, hv, hpv⟩ := mem_flatten.mp hp
    obtain ⟨i, rfl⟩ := exists_source_of_mem hv
    have hw := hL _ hv
    exact ⟨i, p.from, lookup_eq_some hw.ordered hpv ⟨le_rfl, hw.from_le_to p hpv⟩⟩
  · rintro ⟨i, h, ho⟩
    obtain ⟨p, hp, -, rfl⟩ := exists_mem_of_lookup ho
    rcases L.source_mem_or_nil i with hmem | hnil
    · exact mem_map.mpr ⟨p, mem_flatten.mpr ⟨_, hmem, hp⟩, rfl⟩
    · rw [hnil] at hp
      simp at hp

/-- The offset of the highest hash id of the last source that has any. -/
def LastOffset (offsetOf : ℕ → ℕ → Option Offset) (o : Offset) : Prop :=
  ∃ i h, offsetOf i h = some o ∧ (∀ h', h < h' → offsetOf i h' = none)
    ∧ ∀ i', i < i' → ∀ h', offsetOf i' h' = none

lemma LastOffset.unique {offsetOf : ℕ → ℕ → Option Offset} {o o' : Offset} (h₁ : LastOffset offsetOf o)
    (h₂ : LastOffset offsetOf o') : o = o' := by
  obtain ⟨i, h, ho, hlast, hsources⟩ := h₁
  obtain ⟨i', h', ho', hlast', hsources'⟩ := h₂
  have hi : i = i' := by
    rcases lt_trichotomy i i' with hlt | heq | hlt
    · rw [hsources i' hlt h'] at ho'
      cases ho'
    · exact heq
    · rw [hsources' i hlt h] at ho
      cases ho
  subst hi
  have hh : h = h' := by
    rcases lt_trichotomy h h' with hlt | heq | hlt
    · rw [hlast h' hlt] at ho'
      cases ho'
    · exact heq
    · rw [hlast' h hlt] at ho
      cases ho
  subst hh
  rw [ho] at ho'
  exact some.inj ho'

lemma lastOffset_of_getLast? (hvs : ∀ v ∈ vs, Havenask.WellFormed v)
    {o : Offset} (ho : (offsets vs).getLast? = some o) : LastOffset (fun i h => offsetAt (vs.getD i []) h) o := by
  induction vs using reverseRecOn with
  | nil => simp [offsets] at ho
  | append_singleton vs v ih =>
    have hsplit : offsets (vs ++ [v]) = offsets vs ++ v.map offset := by simp [offsets]
    rw [hsplit] at ho
    rcases eq_nil_or_concat' v with rfl | ⟨w, p, rfl⟩
    · -- an empty last source has no offsets
      obtain ⟨i, h, hlast⟩ := ih (fun u hu => hvs u (by simp [hu])) (by simpa using ho)
      refine ⟨i, h, ?_⟩
      have hget : ∀ j, (vs ++ [[]]).getD j [] = vs.getD j [] := by
        intro j
        simp only [getD_eq_getElem?_getD, getElem?_append]
        split_ifs with hj
        · rfl
        · cases hk : j - vs.length <;> simp [getElem?_eq_none (not_lt.mp hj)]
      simpa only [hget] using hlast
    have hw : Havenask.WellFormed (w ++ [p]) := hvs _ (by simp)
    have hp : p.from ≤ p.to := hw.from_le_to p (by simp)
    have hsource : (vs ++ [w ++ [p]]).getD vs.length [] = w ++ [p] := by simp
    have hpo : p.offset = o := by simpa using ho
    refine ⟨vs.length, p.to, ?_, ?_, ?_⟩
    · dsimp only
      rw [hsource, ← hpo]
      exact lookup_eq_some hw.ordered (by simp) ⟨hp, le_rfl⟩
    · intro h' hlt
      dsimp only
      rw [hsource, offsetAt, lookup_eq_none_iff]
      rintro ⟨q, hq, hqlo, hqhi⟩
      have hq' : q.to ≤ p.to := by
        rcases mem_append.mp hq with hq | hq
        · have hord := (pairwise_append.mp hw.ordered.2).2.2 q hq p (by simp)
          simp only [view_hi, view_lo] at hord
          omega
        · rw [mem_singleton.mp hq]
      simp only [view_hi] at hqhi
      omega
    · intro i' hi' h'
      have hnil : (vs ++ [w ++ [p]]).getD i' [] = [] := by
        rw [getD_eq_getElem?_getD, getElem?_eq_none (by simp; omega)]
        rfl
      dsimp only
      rw [hnil]
      rfl

lemma getLast?_offsets_iff {L : Locator} (hL : L.WellFormed) (o : Offset) :
    (offsets L.multiProgress).getLast? = some o
    ↔ LastOffset (fun i h => offsetAt (L.source i) h) o := by
  constructor
  · exact lastOffset_of_getLast? hL
  · intro hlast
    obtain ⟨i, h, ho, -⟩ := id hlast
    have hmem := (mem_offsets_iff hL o).mpr ⟨i, h, ho⟩
    cases hget : (offsets L.multiProgress).getLast? with
    | none =>
      rw [getLast?_eq_none_iff.mp hget] at hmem
      simp at hmem
    | some o' => rw [hlast.unique (lastOffset_of_getLast? hL hget)]

lemma minOffset_update {L M : Locator} (hsrc : M.src = L.src)
    (hlen : L.multiProgress.length = M.multiProgress.length) : (L.update M).2.minOffset = if (L.update M).1 then
      recomputeMinOffset (L.update M).2.multiProgress else L.minOffset := by
  rw [update, if_neg (not_not.mpr hsrc), if_neg (not_not.mpr hlen)]
  cases hloop : updateSources L.multiProgress M.multiProgress with
  | mk ok multiProgress => cases ok <;> rfl

lemma wellFormed_update {L M : Locator} (hsrc : M.src = L.src)
    (hlen : L.multiProgress.length = M.multiProgress.length) (hL : L.WellFormed)
    (hM : M.WellFormed) : (L.update M).2.WellFormed := by
  intro v hv
  obtain ⟨i, rfl⟩ := exists_source_of_mem hv
  rw [source_update hsrc hlen]
  split_ifs with hacc
  · obtain ⟨r, hr⟩ := isSome_iff_exists.mp (hacc i le_rfl)
    rw [hr, getD_some]
    exact (updateProgressVec_spec (hL.source i) (hM.source i) hr).1
  · exact hL.source i

open scoped Classical in
/-- The offset of a hash id once `M` is written over the sources before the first that refuses. -/
noncomputable def mergedAt (L M : Locator) (i h : ℕ) : Option Offset :=
  if ∃ j ≤ i, L.Refuses M j then offsetAt (L.source i) h else overlay (L.source i) (M.source i) h

/-- With all sources merged the loop must find the minimum: `INVALID_OFFSET` is not among the
offsets, or not the least of them, or comes last.  With a source that refuses, what was merged
before it must leave the minimum as it was. -/
def UpdateKeepsMin (L M : Locator) : Prop :=
  ((∀ i, ¬ L.Refuses M i)
      ∧ ((∀ i h, L.mergedAt M i h ≠ some Progress.invalidOffset)
        ∨ (∃ i h o, L.mergedAt M i h = some o ∧ o < Progress.invalidOffset)
        ∨ LastOffset (L.mergedAt M) Progress.invalidOffset))
    ∨ ((∃ i, L.Refuses M i)
      ∧ ((∃ i h, L.mergedAt M i h = some L.minOffset)
          ∧ (∀ i h o, L.mergedAt M i h = some o → L.minOffset ≤ o)
        ∨ (∀ i h, L.mergedAt M i h = none) ∧ L.minOffset = Progress.invalidOffset))

section
variable {L M : Locator} (hsrc : M.src = L.src)
  (hlen : L.multiProgress.length = M.multiProgress.length) (hL : L.WellFormed) (hM : M.WellFormed)

include hL hM in
lemma not_refuses_iff (i : ℕ) : ¬ L.Refuses M i ↔ (L.updateSource M i).isSome := by
  rw [isSome_updateSource_iff hL hM, Refuses, not_or]

include hsrc hlen hL hM

lemma offsetAt_update_eq_mergedAt (i h : ℕ) : offsetAt ((L.update M).2.source i) h = L.mergedAt M i h := by
  rw [offsetAt_update hsrc hlen hL hM, mergedAt]
  by_cases hacc : ∀ j ≤ i, (L.updateSource M j).isSome
  · rw [if_pos hacc, if_neg]
    rintro ⟨j, hj, href⟩
    exact (not_refuses_iff hL hM j).mpr (hacc j hj) href
  rw [if_neg hacc, if_pos]
  push Not at hacc
  obtain ⟨j, hj, hnone⟩ := hacc
  refine ⟨j, hj, ?_⟩
  by_contra href
  exact hnone ((not_refuses_iff hL hM j).mp href)

lemma mem_offsets_update_iff (o : Offset) :
    o ∈ offsets (L.update M).2.multiProgress ↔ ∃ i h, L.mergedAt M i h = some o := by
  rw [mem_offsets_iff (wellFormed_update hsrc hlen hL hM)]
  simp only [offsetAt_update_eq_mergedAt hsrc hlen hL hM]

lemma offsets_update_eq_nil_iff : offsets (L.update M).2.multiProgress = [] ↔ ∀ i h, L.mergedAt M i h = none := by
  rw [eq_nil_iff_forall_not_mem]
  simp only [mem_offsets_update_iff hsrc hlen hL hM, not_exists]
  constructor
  · intro hnone i h
    rw [eq_none_iff_forall_ne_some]
    exact fun o => hnone o i h
  · intro hnone o i h
    rw [hnone i h]
    simp

/-- An update that goes through the sources leaves the right minimum exactly when
`UpdateKeepsMin`. -/
lemma update_minOffsetExact_iff : (L.update M).2.MinOffsetExact ↔ L.UpdateKeepsMin M := by
  have hmem := mem_offsets_update_iff hsrc hlen hL hM
  by_cases hacc : ∀ i, ¬ L.Refuses M i
  · have hok := (update_fst_iff hsrc hlen).mpr fun i => (not_refuses_iff hL hM i).mp (hacc i)
    have hlast : (offsets (L.update M).2.multiProgress).getLast? = some invalidOffset
        ↔ LastOffset (L.mergedAt M) invalidOffset := by
      rw [getLast?_offsets_iff (wellFormed_update hsrc hlen hL hM)]
      simp only [offsetAt_update_eq_mergedAt hsrc hlen hL hM]
    rw [MinOffsetExact, minOffset_update hsrc hlen, if_pos hok, recomputeMinOffset_eq, sentinelMin_eq_iff,
      hlast, hmem, UpdateKeepsMin]
    simp only [hmem, hacc, not_false_eq_true, implies_true, true_and, exists_false, false_and, or_false]
    have hfirst : (¬ ∃ i h, L.mergedAt M i h = some invalidOffset)
        ↔ ∀ i h, L.mergedAt M i h ≠ some invalidOffset := by
      simp only [not_exists, ne_eq]
    have hsecond : (∃ o, (∃ i h, L.mergedAt M i h = some o) ∧ o < invalidOffset)
        ↔ ∃ i h o, L.mergedAt M i h = some o ∧ o < invalidOffset := by
      constructor
      · rintro ⟨o, ⟨i, h, ho⟩, hlt⟩
        exact ⟨i, h, o, ho, hlt⟩
      · rintro ⟨i, h, o, ho, hlt⟩
        exact ⟨o, ⟨i, h, ho⟩, hlt⟩
    rw [hfirst, hsecond]
  · have hfail : ¬ (L.update M).1 = true := by
      rw [update_fst_iff hsrc hlen]
      intro hall
      exact hacc fun i => (not_refuses_iff hL hM i).mpr (hall i)
    have hex : ∃ i, L.Refuses M i := not_forall_not.mp hacc
    rw [minOffsetExact_iff, minOffset_update hsrc hlen, if_neg hfail,
      offsets_update_eq_nil_iff hsrc hlen hL hM, hmem, UpdateKeepsMin]
    simp only [hmem, hacc, hex, false_and, false_or, true_and]
    have hall : (∀ o, (∃ i h, L.mergedAt M i h = some o) → L.minOffset ≤ o)
        ↔ ∀ i h o, L.mergedAt M i h = some o → L.minOffset ≤ o := by
      constructor
      · intro hle i h o ho
        exact hle o ⟨i, h, ho⟩
      · rintro hle o ⟨i, h, ho⟩
        exact hle i h o ho
    rw [hall, or_comm]

end

/-! ## Runs -/

/-- When a call leaves the right minimum, by the state and the arguments before it. -/
def KeepsMinOffset : Call → Prop
  | .setMultiProgress multiProgress => multiProgress = [] ∨ multiProgress.head? = some []
      ∨ [] ∉ multiProgress ∨ self.minOffset = Progress.invalidOffset
  | .setOffset _ => True
  | .update other => other.src ≠ self.src
      ∨ self.multiProgress.length ≠ other.multiProgress.length
      ∨ self.WellFormed ∧ self.UpdateKeepsMin other
  | .shrinkToRange f t => (∃ v ∈ self.multiProgress, RefusesRange f t v) ∨ self.ShrinkKeepsMin f t

lemma minOffsetExact_setOffset (offset : Offset) : (self.setOffset offset).MinOffsetExact := by
  simp [setOffset, setMultiProgress, scanSources, MinOffsetExact, offsets]

/-- **One call.**  From a right minimum, and another locator with a right one, a call with
`KeepsMinOffset` leads to a right one. -/
lemma call_minOffsetExact {self self' : Locator} {c : Call} (hself : self.MinOffsetExact)
    (hc : c.WellFormed) (hother : ∀ other, c = .update other → other.MinOffsetExact)
    (hkeeps : self.KeepsMinOffset c) (hcall : self.call c = some self') : self'.MinOffsetExact := by
  cases c with
  | setMultiProgress multiProgress =>
    obtain rfl : self.setMultiProgress multiProgress = self' := some.inj hcall
    exact (setMultiProgress_minOffsetExact_iff hself multiProgress).mpr hkeeps
  | setOffset offset =>
    obtain rfl : self.setOffset offset = self' := some.inj hcall
    exact minOffsetExact_setOffset self offset
  | update other =>
    obtain rfl : (self.update other).2 = self' := some.inj hcall
    by_cases hsrc : other.src = self.src
    · by_cases hlen : self.multiProgress.length = other.multiProgress.length
      · obtain ⟨hwf, hmin⟩ := (hkeeps.resolve_left (not_not.mpr hsrc)).resolve_left (not_not.mpr hlen)
        exact (update_minOffsetExact_iff hsrc hlen hwf hc).mpr hmin
      · rw [Locator.update, if_neg (not_not.mpr hsrc), if_pos hlen]
        exact hself
    · rw [Locator.update, if_pos hsrc]
      exact hother other rfl
  | shrinkToRange f t => exact (shrinkToRange_minOffsetExact_iff hself hcall).mpr hkeeps

/-- **Every run.**  As long as every call keeps the minimum, `GetOffset()` is the minimum of the
offsets of all progresses in every locator reached. -/
theorem reachable_minOffsetExact (L : Locator) (hL : Reachable KeepsMinOffset L) : L.MinOffsetExact := by
  induction hL with
  | new => decide
  | ofSrcOffset src minOffset =>
    exact minOffsetExact_setOffset ⟨src, minOffset, [], [], false⟩ minOffset
  | call _ hc _ hguard hcall ihself ihother =>
    exact call_minOffsetExact ihself hc ihother hguard hcall

lemma ofSrcOffset_eq (src : ℕ) (minOffset : Offset) :
    ofSrcOffset src minOffset = ⟨src, minOffset, [[⟨0, 65535, minOffset⟩]], [], false⟩ := by
  simp [ofSrcOffset, setMultiProgress, scanSources]

lemma ofSrcOffset_wellFormed (src : ℕ) (minOffset : Offset) : (ofSrcOffset src minOffset).WellFormed := by
  intro v hv
  obtain rfl : v = [⟨0, 65535, minOffset⟩] := by simpa [ofSrcOffset_eq] using hv
  exact ⟨by simp, by simp, by simp, by simp⟩

/-- A new locator has no offsets to go behind, so it takes over every valid one. -/
lemma updateKeepsMin_default {src : ℕ} {offset : Offset} (hoffset : offset ≠ invalidOffset) :
    (default : Locator).UpdateKeepsMin (ofSrcOffset src offset) := by
  have hsource : ∀ i, (default : Locator).source i = [] := by
    intro i
    rcases (default : Locator).source_mem_or_nil i with hmem | hnil
    · exact mem_singleton.mp hmem
    · exact hnil
  have hno : ∀ i, ¬ (default : Locator).Refuses (ofSrcOffset src offset) i := by
    rintro i (⟨h, o, o', ho, -⟩ | ⟨-, h, o, ho, -⟩)
    · rw [hsource] at ho
      cases ho
    · rw [hsource] at ho
      cases ho
  refine Or.inl ⟨hno, Or.inl fun i h => ?_⟩
  rw [mergedAt, if_neg (by simp [hno]), overlay, hsource]
  intro hinv
  have hsome : offsetAt ((ofSrcOffset src offset).source i) h = some invalidOffset := by
    simpa [offsetAt] using hinv
  have hmem := (mem_offsets_iff (ofSrcOffset_wellFormed src offset) _).mpr ⟨i, h, hsome⟩
  rw [ofSrcOffset_eq] at hmem
  exact hoffset (by simpa [offsets, eq_comm] using hmem)

/-- A new locator takes over the offset of another one and is shrunk. -/
theorem reachable_minOffsetExact_shrunk :
    ∃ L, ((default : Locator).update (ofSrcOffset 0 (toLex (3, 0)))).2.call (.shrinkToRange 10 20) = some L
      ∧ L.multiProgress = [[⟨10, 20, toLex (3, 0)⟩]] ∧ L.MinOffsetExact := by
  refine ⟨⟨0, toLex (3, 0), [[⟨10, 20, toLex (3, 0)⟩]], [], false⟩, by decide, rfl, ?_⟩
  apply reachable_minOffsetExact
  have hother : Reachable KeepsMinOffset (ofSrcOffset 0 (toLex (3, 0))) := .ofSrcOffset _ _
  have hwf : Havenask.Locator.WellFormed (default : Locator) := by decide
  have hupdated : Reachable KeepsMinOffset
      ((default : Locator).update (ofSrcOffset 0 (toLex (3, 0)))).2 := by
    refine .call (c := .update (ofSrcOffset 0 (toLex (3, 0)))) .new (ofSrcOffset_wellFormed _ _) ?_
      (Or.inr (Or.inr ⟨hwf, updateKeepsMin_default (by decide)⟩)) rfl
    intro other hc
    obtain rfl := Call.update.inj hc
    exact hother
  refine .call hupdated (c := .shrinkToRange 10 20) trivial (by simp) (Or.inr (Or.inl ?_)) (by decide)
  exact ⟨⟨0, 65535, toLex (3, 0)⟩, by decide, by decide, by decide⟩

/-- A shrink drops the range with the least offset; an update leaves `INVALID_OFFSET` before another
offset; the second source refuses an update that the first took; `SetMultiProgress` meets an empty
vector.  Each leaves a minimum that is none. -/
theorem minOffset_not_exact :
    let start (multiProgress : MultiProgress) := (default : Locator).setMultiProgress multiProgress
    let unguarded : Locator → Call → Prop := fun _ _ => True
    let halves := start [[⟨0, 100, toLex (1, 0)⟩, ⟨101, 200, toLex (5, 0)⟩]]
    let initial := start [[⟨0, 100, toLex (-1, 0)⟩]]
    let sources := start [[⟨0, 100, toLex (1, 0)⟩], [⟨0, 100, toLex (5, 0)⟩]]
    (∃ L, halves.call (.shrinkToRange 101 200) = some L ∧ Reachable unguarded L
        ∧ ¬ L.MinOffsetExact)
      ∧ (∃ L, initial.call (.update (start [[⟨101, 200, toLex (7, 0)⟩]])) = some L
        ∧ Reachable unguarded L ∧ ¬ L.MinOffsetExact)
      ∧ (∃ L, sources.call (.update (start [[⟨0, 100, toLex (2, 0)⟩], [⟨0, 100, toLex (3, 0)⟩]])) = some L
        ∧ Reachable unguarded L ∧ ¬ L.MinOffsetExact)
      ∧ ∃ L, halves.call (.setMultiProgress [[⟨0, 100, toLex (9, 0)⟩], []]) = some L
        ∧ Reachable unguarded L ∧ ¬ L.MinOffsetExact := by
  intro start unguarded halves initial sources
  have hstart : ∀ multiProgress, (∀ v ∈ multiProgress, Havenask.WellFormed v) →
      Reachable unguarded (start multiProgress) := by
    intro multiProgress hwf
    exact .call (c := .setMultiProgress multiProgress) .new hwf (by simp) trivial rfl
  have hupdate : ∀ self other, Reachable unguarded self → Reachable unguarded other →
      other.WellFormed → Reachable unguarded (self.update other).2 := by
    intro self other hself hother hwf
    refine .call (c := .update other) hself hwf ?_ trivial rfl
    intro other' hc
    obtain rfl := Call.update.inj hc
    exact hother
  have hhalves : Reachable unguarded halves := hstart _ (by decide)
  refine ⟨⟨⟨0, toLex (1, 0), [[⟨101, 200, toLex (5, 0)⟩]], [], false⟩, by decide, ?_, by decide⟩,
    ⟨_, rfl, hupdate _ _ (hstart _ (by decide)) (hstart _ (by decide)) (by decide), by decide⟩,
    ⟨_, rfl, hupdate _ _ (hstart _ (by decide)) (hstart _ (by decide)) (by decide), by decide⟩,
    ⟨_, rfl, .call (c := .setMultiProgress [[⟨0, 100, toLex (9, 0)⟩], []]) hhalves ?_ (by simp)
      trivial rfl, by decide⟩⟩
  · exact .call (c := .shrinkToRange 101 200) hhalves trivial (by simp) trivial (by decide)
  · show ∀ v ∈ _, _
    decide

/-! ## Consumed documents -/

/-- Updates one after the other, if all are accepted. -/
def updates (L : Locator) (Ms : List Locator) : Option Locator :=
  Ms.foldlM (fun L M => if (L.update M).1 then some (L.update M).2 else none) L

/-- An update for the source `src` whose offsets are positions. -/
structure HoldsPositions (M : Locator) (src : ℕ) : Prop where
  src : M.src = src
  wellFormed : M.WellFormed
  offset : invalidOffset ∉ offsets M.multiProgress

section
variable {L M : Locator} {d : DocInfo} (hL : L.WellFormed) (hd : 0 ≤ d.timestamp.toInt)

include hL hd in
/-- Also for a locator that is not valid: it has no offset beyond a document. -/
lemma consumed_iff : L.isFasterThanDoc d = .fullyFaster
    ↔ ∃ o, offsetAt (L.source d.sourceIdx.toNat) d.hashId.toNat = some o ∧ d.getProgressOffset < o := by
  cases hvalid : L.isValid with
  | true => exact isFasterThanDoc_eq_fullyFaster_iff hvalid d
  | false =>
    refine iff_of_false (by simp [isFasterThanDoc, hvalid]) ?_
    rintro ⟨o, ho, hlt⟩
    obtain ⟨p, hp, rfl⟩ := mem_map.mp ((mem_offsets_iff hL o).mpr ⟨_, _, ho⟩)
    obtain ⟨v, hv, hp⟩ := mem_flatten.mp hp
    simp only [isValid, Bool.or_eq_false_iff, List.any_eq_false, decide_eq_true_eq, not_le, Bool.not_eq_true] at hvalid
    refine absurd (hlt.trans (hvalid.2 v hv p hp)) (not_lt.mpr (Prod.Lex.le_iff.mpr ?_))
    exact hd.lt_or_eq.imp_right fun heq => ⟨heq, Nat.zero_le _⟩

lemma src_update (hsrc : M.src = L.src) : (L.update M).2.src = L.src := by
  rw [update, if_neg (not_not.mpr hsrc)]
  split_ifs
  · rfl
  · split <;> rfl

lemma length_eq_of_update (hsrc : M.src = L.src) (hok : (L.update M).1 = true) :
    L.multiProgress.length = M.multiProgress.length := by
  by_contra hlen
  simp [update, hsrc, hlen] at hok

variable (h : M.HoldsPositions L.src) (hok : (L.update M).1 = true)
include hL h hok

/-- An accepted update of positions is nowhere behind. -/
lemma HoldsPositions.le_of_update {i x : ℕ} {o o' : Offset} (ho : offsetAt (L.source i) x = some o)
    (ho' : offsetAt (M.source i) x = some o') : o ≤ o' := by
  by_contra hlt
  have hpos : o' ≠ invalidOffset :=
    ne_of_mem_of_not_mem ((mem_offsets_iff h.wellFormed o').mpr ⟨i, x, ho'⟩) h.offset
  have hnone := (updateSource_eq_none_iff hL h.wellFormed i).mpr (Or.inl ⟨x, o, o', ho, ho', hpos, not_le.mp hlt⟩)
  rw [updateSource_of_update h.src (length_eq_of_update h.src hok) hok] at hnone
  cases hnone

include hd in
/-- It consumes what either side had consumed. -/
lemma HoldsPositions.consumed_update_iff : (L.update M).2.isFasterThanDoc d = .fullyFaster
    ↔ L.isFasterThanDoc d = .fullyFaster ∨ M.isFasterThanDoc d = .fullyFaster := by
  have hlen := length_eq_of_update h.src hok
  have hall := (update_fst_iff h.src hlen).mp hok
  rw [consumed_iff (wellFormed_update h.src hlen hL h.wellFormed) hd, consumed_iff hL hd, consumed_iff h.wellFormed hd,
    offsetAt_update h.src hlen hL h.wellFormed, if_pos fun j _ => hall j, overlay]
  cases hM : offsetAt (M.source d.sourceIdx.toNat) d.hashId.toNat with
  | none => simp
  | some o' =>
    refine ⟨Or.inr, ?_⟩
    rintro (⟨o, ho, hlt⟩ | hex)
    · exact ⟨o', rfl, hlt.trans_le (h.le_of_update hL hok ho hM)⟩
    · exact hex

end

/-- One range of source 7. -/
def oneRange («from» «to» : ℕ) (timestamp : ℤ) : Locator :=
  ⟨7, toLex (timestamp, 0), [[⟨«from», «to», toLex (timestamp, 0)⟩]], [], false⟩

end Locator

end Havenask
