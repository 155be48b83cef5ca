import Havenask.Framework.Locator

/-!
# `Locator::IsFasterThan`

A locator stands for the documents it has consumed: document `d` is consumed when the offset of
its hash id, in its source, is beyond the position of `d`.  Comparing two locators is meant to
compare those sets, and this file proves that it does.

* `hasFullyFaster_iff` — the inner loop, which uses up a range from the left, is a statement about
  every hash id of the range.
* `isFasterThan_eq_fullyFaster_iff` — hence the comparison of two locators is pointwise.
* `isFasterThanDoc_eq_fullyFaster_iff` — so is the comparison with one document.
* `isFasterThan_iff_contains` — the two agree, as far as documents can tell: a document names its
  source in a byte and its hash id in two, so sources past 256 and hash ids past 65535 are compared
  between locators and belong to no document (`isFasterThan_not_contains`).
-/

namespace Havenask

open IntervalMap List Progress

/-! ## One source -/

variable {v : ProgressVector}

/-- A point of the range under a cursor, right of the first interval, is looked up in the rest. -/
lemma offsetAt_cons_of_lt {c : Progress} {h : ℕ} (hlt : c.to < h) : offsetAt (c :: v) h = offsetAt v h := by
  rw [offsetAt, lookup_cons, if_neg]
  · rfl
  · rintro ⟨-, hle⟩
    exact absurd hle (not_le.mpr hlt)

lemma offsetAt_cons_of_has {c : Progress} {h : ℕ} (hlo : c.from ≤ h)
    (hhi : h ≤ c.to) : offsetAt (c :: v) h = some c.offset := by
  rw [offsetAt, lookup_cons, if_pos ⟨hlo, hhi⟩]
  rfl

/-- Offsets at most `MIN_OFFSET` are covered by any vector with a range in it. -/
lemma hasFullyFaster_of_le_min (hne : v ≠ []) {q : Progress}
    (hmin : q.offset ≤ minOffset) : hasFullyFaster v q = true := by
  cases v with
  | nil => exact absurd rfl hne
  | cons c v => rw [hasFullyFaster, if_pos hmin]

/-- The inner loop decides whether every hash id of the range has an offset at least as far. -/
lemma hasFullyFaster_iff (hv : Ordered view v) (q : Progress)
    (hq : q.from ≤ q.to) (hmin : minOffset < q.offset) : hasFullyFaster v q = true
    ↔ ∀ h, q.from ≤ h → h ≤ q.to → ∃ o, offsetAt v h = some o ∧ q.offset ≤ o := by
  induction v generalizing q with
  | nil =>
    simp only [hasFullyFaster, Bool.false_eq_true, false_iff]
    intro hall
    obtain ⟨o, ho, -⟩ := hall q.from le_rfl hq
    simp [offsetAt] at ho
  | cons c v ih =>
    obtain ⟨hc, hright, htail⟩ := ordered_cons.mp hv
    simp only [view_lo, view_hi] at hc hright
    rw [hasFullyFaster, if_neg (not_le.mpr hmin)]
    by_cases hstart : q.from < c.from
    · -- the left end is in a gap
      rw [if_pos hstart]
      simp only [Bool.false_eq_true, false_iff]
      intro hall
      obtain ⟨o, ho, -⟩ := hall q.from le_rfl hq
      have hgap : offsetAt (c :: v) q.from = none := by
        refine lookup_eq_none_of_lt _ fun a ha => ?_
        rcases mem_cons.mp ha with rfl | ha
        · exact hstart
        have := hright a ha
        simp only [view_lo]
        omega
      rw [hgap] at ho
      cases ho
    rw [if_neg hstart]
    by_cases hpast : c.to < q.from
    · rw [if_pos hpast, ih htail q hq hmin]
      refine forall_congr' fun h => imp_congr_right fun hlo => ?_
      rw [offsetAt_cons_of_lt (by omega)]
    rw [if_neg hpast]
    by_cases hcover : q.to ≤ c.to
    · rw [if_pos hcover, decide_eq_true_iff]
      constructor
      · intro hle h hlo hhi
        exact ⟨c.offset, offsetAt_cons_of_has (by omega) (by omega), hle⟩
      · intro hall
        obtain ⟨o, ho, hle⟩ := hall q.from le_rfl hq
        rw [offsetAt_cons_of_has (by omega) (by omega)] at ho
        cases ho
        exact hle
    rw [if_neg hcover]
    by_cases hslow : c.offset < q.offset
    · rw [if_pos hslow]
      simp only [Bool.false_eq_true, false_iff]
      intro hall
      obtain ⟨o, ho, hle⟩ := hall q.from le_rfl hq
      rw [offsetAt_cons_of_has (by omega) (by omega)] at ho
      cases ho
      exact absurd hle (not_le.mpr hslow)
    -- the range `c` answers for its part, and the loop goes on behind it
    rw [if_neg hslow, ih htail { q with «from» := c.to + 1 } (by simp only; omega) hmin]
    constructor
    · intro hall h hlo hhi
      by_cases hin : h ≤ c.to
      · exact ⟨c.offset, offsetAt_cons_of_has (by omega) hin, not_lt.mp hslow⟩
      · rw [offsetAt_cons_of_lt (by omega)]
        exact hall h (by simp only; omega) hhi
    · intro hall h hlo hhi
      simp only at hlo
      rw [← offsetAt_cons_of_lt (c := c) (by omega)]
      exact hall h (by omega) hhi

/-- One source is fully faster when every offset beyond `MIN_OFFSET` is reached. -/
lemma isFullyFasterThanVec_iff {v w : ProgressVector} (hv : Ordered view v) (hw : Ordered view w) (hne : v ≠ []) :
    isFullyFasterThanVec v w = true ↔ ∀ h o, offsetAt w h = some o → minOffset < o →
      ∃ o', offsetAt v h = some o' ∧ o ≤ o' := by
  rw [isFullyFasterThanVec, all_eq_true]
  constructor
  · intro hall h o ho hmin
    obtain ⟨q, hq, hhas, rfl⟩ := exists_mem_of_lookup ho
    exact (hasFullyFaster_iff hv q (hw.lo_le_hi hq) hmin).mp (hall q hq) h hhas.1 hhas.2
  · intro hall q hq
    rcases le_or_gt q.offset minOffset with hmin | hmin
    · exact hasFullyFaster_of_le_min hne hmin
    · refine (hasFullyFaster_iff hv q (hw.lo_le_hi hq) hmin).mpr fun h hlo hhi => ?_
      exact hall h q.offset (lookup_eq_some hw hq ⟨hlo, hhi⟩) hmin

/-! ## All sources -/

variable {i : ℕ}

namespace Locator

variable {A B : Locator}

/-- Comparing the sources pairwise, by their index. -/
lemma isFullyFasterThan_iff (hlen : A.multiProgress.length = B.multiProgress.length) :
    A.isFullyFasterThan B = true ↔ ∀ i, isFullyFasterThanVec (A.source i) (B.source i) = true := by
  simp only [isFullyFasterThan, source]
  generalize A.multiProgress = as at hlen
  generalize B.multiProgress = bs at hlen
  induction as generalizing bs with
  | nil =>
    cases bs with
    | nil => simp [isFullyFasterThanVec]
    | cons b bs => simp at hlen
  | cons a as ih =>
    cases bs with
    | nil => simp at hlen
    | cons b bs =>
      simp only [zip_cons_cons, all_cons, Bool.and_eq_true, ih bs (by simpa using hlen)]
      constructor
      · rintro ⟨hhead, htail⟩ i
        cases i with
        | zero => exact hhead
        | succ i => exact htail i
      · intro hall
        exact ⟨hall 0, fun i => hall (i + 1)⟩

/-- Between valid locators of one source the comparison is the pairwise one. -/
lemma isFasterThan_eq_fullyFaster_iff (hsrc : A.src = B.src)
    (hlen : A.multiProgress.length = B.multiProgress.length) (hA : A.isValid = true) (hB : B.isValid = true) :
    A.isFasterThan B false = .fullyFaster
    ↔ ∀ i, isFullyFasterThanVec (A.source i) (B.source i) = true := by
  rw [← isFullyFasterThan_iff hlen]
  cases hfull : A.isFullyFasterThan B with
  | true => simp [isFasterThan, isSameSrc, hsrc, hA, hB, hlen, hfull]
  | false =>
    cases hslow : B.isFullyFasterThan A with
    | true => simp [isFasterThan, isSameSrc, hsrc, hA, hB, hlen, hfull, hslow]
    | false => simp [isFasterThan, isSameSrc, hsrc, hA, hB, hlen, hfull, hslow]

/-- A document is consumed when the offset of its hash id is beyond its position. -/
lemma isFasterThanDoc_eq_fullyFaster_iff {L : Locator} (hL : L.isValid = true) (d : DocInfo) :
    L.isFasterThanDoc d = .fullyFaster
    ↔ ∃ o, offsetAt (L.source d.sourceIdx.toNat) d.hashId.toNat = some o
      ∧ d.getProgressOffset < o := by
  rw [isFasterThanDoc, hL, source, getD_eq_getElem?_getD]
  cases L.multiProgress[d.sourceIdx.toNat]? with
  | none => simp [offsetAt]
  | some v =>
    have hfind : offsetAt v d.hashId.toNat = (v.find? fun p =>
        decide (p.from ≤ d.hashId.toNat ∧ d.hashId.toNat ≤ p.to)).map offset := rfl
    simp only [Option.getD_some, hfind]
    cases v.find? fun p => decide (p.from ≤ d.hashId.toNat ∧ d.hashId.toNat ≤ p.to) with
    | none => simp
    | some p =>
      by_cases hlt : d.getProgressOffset < p.offset
      · simp [hlt]
      · simp [hlt]

/-! ## Consumed documents -/

/-- Every document that `B` has consumed, `A` has consumed. -/
def Contains (A B : Locator) : Prop :=
  ∀ d : DocInfo, 0 ≤ d.timestamp.toInt → d.sourceIdx.toNat < A.multiProgress.length →
    B.isFasterThanDoc d = .fullyFaster → A.isFasterThanDoc d = .fullyFaster

/-- What a comparison expects: two valid locators of one source, with the same number of progress
vectors, all of them well formed and non-empty, and offsets that fit their types. -/
@[mk_iff]
structure Comparable (A B : Locator) : Prop where
  src : A.src = B.src
  length : A.multiProgress.length = B.multiProgress.length
  valid : A.isValid = true ∧ B.isValid = true
  wellFormed : ∀ v ∈ A.multiProgress ++ B.multiProgress, Havenask.WellFormed v ∧ v ≠ []
  fits : ∀ v ∈ A.multiProgress ++ B.multiProgress, ∀ p ∈ v, p.offset.Fits

instance (A B : Locator) : Decidable (A.Comparable B) := decidable_of_iff' _ (comparable_iff A B)

/-- Documents can name every source and every hash id of the locator. -/
structure Addressable (L : Locator) : Prop where
  sources : L.multiProgress.length ≤ 256
  hashIds : ∀ v ∈ L.multiProgress, ∀ p ∈ v, p.to ≤ 65535

lemma source_mem {L : Locator} (hi : i < L.multiProgress.length) : L.source i ∈ L.multiProgress := by
  rw [source, getD_eq_getElem _ _ hi]
  exact getElem_mem hi

lemma source_eq_nil {L : Locator} (hi : L.multiProgress.length ≤ i) : L.source i = [] :=
  getD_eq_default _ _ hi

end Locator

/-- The document at an offset of a hash id of a source. -/
def docAt (i h : ℕ) (o : Offset) : DocInfo :=
  ⟨Int64.ofInt (ofLex o).1, UInt32.ofNat (ofLex o).2, UInt16.ofNat h, UInt8.ofNat i⟩

lemma docAt_getProgressOffset {o : Offset} (ho : o.Fits) (i h : ℕ) : (docAt i h o).getProgressOffset = o := by
  obtain ⟨hlo, hhi, hsnd⟩ := ho
  have h₁ : (Int64.ofInt (ofLex o).1).toInt = (ofLex o).1 := Int64.toInt_ofInt_of_le hlo hhi
  have h₂ : (UInt32.ofNat (ofLex o).2).toNat = (ofLex o).2 :=
    UInt32.toNat_ofNat_of_lt (by simpa [UInt32.size] using hsnd)
  rw [DocInfo.getProgressOffset, docAt, h₁, h₂]
  rfl

lemma docAt_sourceIdx (hi : i < 256) (h : ℕ) (o : Offset) : (docAt i h o).sourceIdx.toNat = i :=
  UInt8.toNat_ofNat_of_lt (by simpa [UInt8.size] using hi)

lemma docAt_hashId {h : ℕ} (hh : h ≤ 65535) (i : ℕ) (o : Offset) : (docAt i h o).hashId.toNat = h :=
  UInt16.toNat_ofNat_of_lt (by simp only [UInt16.size]; omega)

lemma docAt_timestamp {o : Offset} (ho : o.Fits) (hmin : minOffset ≤ o) (i h : ℕ) :
    0 ≤ (docAt i h o).timestamp.toInt := by
  rw [docAt, Int64.toInt_ofInt_of_le ho.1 ho.2.1]
  rcases Prod.Lex.le_iff.mp hmin with hlt | ⟨heq, -⟩
  · exact le_of_lt hlt
  · exact le_of_eq heq

lemma fits_minOffset : minOffset.Fits := by
  unfold Offset.Fits minOffset
  decide

lemma Offset.Fits.max_min {o : Offset} (ho : o.Fits) : (max o minOffset).Fits := by
  rcases max_choice o minOffset with h | h
  · rwa [h]
  · rw [h]
    exact fits_minOffset

namespace Locator

variable {A B : Locator}

lemma Comparable.source (h : A.Comparable B) (hi : i < A.multiProgress.length) :
    Ordered view (A.source i) ∧ Ordered view (B.source i) ∧ A.source i ≠ [] := by
  have hiB := h.length ▸ hi
  have hA := h.wellFormed _ (mem_append_left _ (source_mem hi))
  have hB := h.wellFormed _ (mem_append_right _ (source_mem hiB))
  exact ⟨hA.1.ordered, hB.1.ordered, hA.2⟩

/-- **The comparison of locators is containment of consumed documents**, if documents can name the sources and hash
ids of the locator that is to be contained. -/
theorem isFasterThan_iff_contains (A B : Locator) (h : A.Comparable B) (hB : B.Addressable) : A.isFasterThan B false = .fullyFaster ↔ A.Contains B := by
  obtain ⟨hvA, hvB⟩ := h.valid
  rw [isFasterThan_eq_fullyFaster_iff h.src h.length hvA hvB]
  constructor
  · intro hall d hts hidx hBd
    obtain ⟨o, ho, hlt⟩ := (isFasterThanDoc_eq_fullyFaster_iff hvB d).mp hBd
    have hmin : Progress.minOffset < o := by
      refine lt_of_le_of_lt ?_ hlt
      rw [Progress.minOffset, DocInfo.getProgressOffset, Prod.Lex.le_iff]
      rcases lt_or_eq_of_le hts with hpos | hzero
      · exact Or.inl hpos
      · exact Or.inr ⟨hzero, Nat.zero_le _⟩
    obtain ⟨hordA, hordB, hne⟩ := h.source hidx
    obtain ⟨o', ho', hle⟩ := (isFullyFasterThanVec_iff hordA hordB hne).mp
      (hall d.sourceIdx.toNat) d.hashId.toNat o ho hmin
    exact (isFasterThanDoc_eq_fullyFaster_iff hvA d).mpr ⟨o', ho', lt_of_lt_of_le hlt hle⟩
  · intro hcont i
    rcases Nat.lt_or_ge i A.multiProgress.length with hi | hi
    swap
    · rw [source_eq_nil hi, source_eq_nil (h.length ▸ hi)]
      rfl
    have hiB : i < B.multiProgress.length := h.length ▸ hi
    have hi256 : i < 256 := lt_of_lt_of_le hiB hB.sources
    obtain ⟨hordA, hordB, hne⟩ := h.source hi
    refine (isFullyFasterThanVec_iff hordA hordB hne).mpr ?_
    intro x o ho hmin
    obtain ⟨q, hq, hhas, rfl⟩ := exists_mem_of_lookup ho
    have hx : x ≤ 65535 := hhas.2.trans (hB.hashIds _ (source_mem hiB) q hq)
    -- a document of this hash id that `B` has consumed, at any position before `o`
    have hdoc : ∀ p : Offset, p.Fits → Progress.minOffset ≤ p → p < q.offset →
        ∃ o', offsetAt (A.source i) x = some o' ∧ p < o' := by
      intro p hp hpmin hpq
      have hBd : B.isFasterThanDoc (docAt i x p) = .fullyFaster := by
        rw [isFasterThanDoc_eq_fullyFaster_iff hvB, docAt_sourceIdx hi256, docAt_hashId hx,
          docAt_getProgressOffset hp]
        exact ⟨_, ho, hpq⟩
      have hAd := hcont (docAt i x p) (docAt_timestamp hp hpmin i x) (by rw [docAt_sourceIdx hi256]; exact hi) hBd
      rwa [isFasterThanDoc_eq_fullyFaster_iff hvA, docAt_sourceIdx hi256, docAt_hashId hx,
        docAt_getProgressOffset hp] at hAd
    obtain ⟨a, ha, -⟩ := hdoc Progress.minOffset fits_minOffset le_rfl hmin
    refine ⟨a, ha, ?_⟩
    by_contra hlt
    -- the document at `A`'s own offset separates the two
    obtain ⟨p, hp, -, hpa⟩ := exists_mem_of_lookup ha
    have hafits : a.Fits := hpa ▸ h.fits _ (mem_append_left _ (source_mem hi)) p hp
    obtain ⟨a', ha', hlt'⟩ := hdoc (max a Progress.minOffset) hafits.max_min
      (le_max_right _ _) (max_lt (not_le.mp hlt) hmin)
    rw [ha] at ha'
    cases ha'
    exact absurd hlt' (not_lt.mpr (le_max_left _ _))

/-- Two locators that differ in their sub-offsets only: the later one has consumed more. -/
theorem isFasterThan_contains_subOffset :
    let A : Locator := ⟨7, toLex (5, 1), [[⟨0, 65535, toLex (5, 1)⟩]], [], false⟩
    let B : Locator := ⟨7, toLex (5, 0), [[⟨0, 65535, toLex (5, 0)⟩]], [], false⟩
    A.Contains B ∧ ¬ B.Contains A := by
  intro A B
  exact ⟨(isFasterThan_iff_contains A B (by decide) ⟨by decide, by decide⟩).mp (by decide),
    fun h => absurd ((isFasterThan_iff_contains B A (by decide) ⟨by decide, by decide⟩).mpr h) (by decide)⟩

/-- `n` sources with one progress vector, and a last source with another. -/
def lastSource (n : ℕ) (v w : ProgressVector) : Locator := ⟨7, toLex (5, 0), List.replicate n v ++ [w], [], false⟩

section
variable {n : ℕ} {v w w' : ProgressVector}

lemma isValid_lastSource : (lastSource n v w).isValid = true := by
  simp [isValid, lastSource, Progress.minOffset, Prod.Lex.le_iff]

lemma source_lastSource_of_lt (hi : i < n) : (lastSource n v w).source i = v := by
  rw [source, lastSource, getD_eq_getElem?_getD, getElem?_append_left (by simpa using hi),
    getElem?_replicate_of_lt hi, Option.getD_some]

/-- From 256 sources on, no document tells the last source apart. -/
lemma contains_lastSource (hn : 256 ≤ n) : (lastSource n v w).Contains (lastSource n v w') := by
  intro d _ _ hd
  rw [isFasterThanDoc_eq_fullyFaster_iff isValid_lastSource] at hd ⊢
  have hidx := d.sourceIdx.toNat_lt
  rwa [source_lastSource_of_lt (by omega)] at hd ⊢

end

/-- Documents name the source in a byte and the hash id in two: a difference in source 256, or at
hash id 65536, is seen by the comparison of locators and by no document. -/
theorem isFasterThan_not_contains : let A₁ := lastSource 256 [⟨0, 65535, toLex (5, 0)⟩] [⟨0, 65535, toLex (5, 0)⟩]
    let B₁ := lastSource 256 [⟨0, 65535, toLex (5, 0)⟩] [⟨0, 65535, toLex (9, 0)⟩]
    let A₂ : Locator := ⟨7, toLex (5, 0), [[⟨0, 65535, toLex (5, 0)⟩]], [], false⟩
    let B₂ : Locator := ⟨7, toLex (5, 0), [[⟨0, 65535, toLex (5, 0)⟩, ⟨65536, 65536, toLex (9, 0)⟩]], [], false⟩
    (A₁.Comparable B₁ ∧ A₁.Contains B₁ ∧ A₁.isFasterThan B₁ false ≠ .fullyFaster)
      ∧ A₂.Comparable B₂ ∧ A₂.Contains B₂ ∧ A₂.isFasterThan B₂ false ≠ .fullyFaster := by
  intro A₁ B₁ A₂ B₂
  have hv₂ : A₂.isValid = true ∧ B₂.isValid = true := by decide
  refine ⟨⟨by decide +kernel, contains_lastSource le_rfl, by decide +kernel⟩, by decide, ?_, by decide⟩
  -- no document has a hash id beyond the first range
  intro d _ _ hd
  obtain ⟨o, ho, hlt⟩ := (isFasterThanDoc_eq_fullyFaster_iff hv₂.2 d).mp hd
  refine (isFasterThanDoc_eq_fullyFaster_iff hv₂.1 d).mpr ⟨o, ?_, hlt⟩
  have hidx : d.hashId.toNat ≤ 65535 := Nat.le_of_lt_succ d.hashId.toNat_lt
  generalize d.sourceIdx.toNat = i at ho
  cases i with
  | zero =>
    rw [← ho]
    exact (offsetAt_cons_of_has (Nat.zero_le _) hidx).trans (offsetAt_cons_of_has (Nat.zero_le _) hidx).symm
  | succ i => simp [B₂, source, offsetAt] at ho

end Locator

end Havenask
