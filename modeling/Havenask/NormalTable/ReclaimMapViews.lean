import Havenask.NormalTable.ReclaimMap

/-!
# The views of a reclaim map

A reclaim map answers in four ways: by new docid, by old docid for a new one, by target segment and docid in
it, and by target segment of a new docid.  `Views` says that they agree; `Layout.views` that they do when the
docids are given by target and rank.
-/

namespace Havenask.NormalTable

open List

/-- The documents that get a new docid. -/
def keptDocs (docs : List Doc) : Set Doc := {doc | doc ∈ docs ∧ doc.isDeleted = false}

/-- All views of the map agree. -/
structure Views (handler : Option SegmentSplitHandler) (docs : List Doc) (reclaimMap : ReclaimMap) : Prop where
  invalid : ∀ doc ∈ docs, doc.isDeleted = true → reclaimMap.oldDocIdToNewDocId doc.oldId = invalidDocid
  bijOn : Set.BijOn (fun doc : Doc => reclaimMap.oldDocIdToNewDocId doc.oldId) (keptDocs docs)
    (Set.Ico 0 reclaimMap.totalDocCount)
  total : reclaimMap.totalDocCount + reclaimMap.deletedDocCount = docs.length
  reverse : ∀ doc ∈ keptDocs docs,
    reclaimMap.newDocIdToOldDocid (reclaimMap.oldDocIdToNewDocId doc.oldId).toNat
      = (doc.segment.segmentId, doc.localId)
  map_eq : ∀ doc ∈ keptDocs docs,
    reclaimMap.getTargetSegmentIndex (reclaimMap.oldDocIdToNewDocId doc.oldId)
        = (targetOf handler doc).toNat
      ∧ reclaimMap.map doc.oldId
        = (reclaimMap.getLocalId (reclaimMap.oldDocIdToNewDocId doc.oldId),
          reclaimMap.oldDocIdToNewDocId doc.oldId
            - (reclaimMap.targetSegmentBaseDocIds[(reclaimMap.getTargetSegmentIndex
              (reclaimMap.oldDocIdToNewDocId doc.oldId)).toNat]?).getD 0)
  local_bijOn : ∀ index : UInt16, Set.BijOn (fun doc : Doc => (reclaimMap.map doc.oldId).2)
    {doc | doc ∈ keptDocs docs ∧ targetOf handler doc = index}
    (Set.Ico 0 (docs.countP fun doc => !doc.isDeleted && decide (targetOf handler doc = index) : ℕ))

section

/-! ## Searching the targets -/

variable {start : ℕ → ℕ} (hmono : Monotone start) {i : ℕ} {newId : ℤ}
include hmono

/-- The scan of `Map` stops at the target that has the docid. -/
lemma mapLoop_eq (name : ℕ → ℤ) (hstart : (start i : ℤ) ≤ newId) (n : ℕ) : ∀ {k : ℕ}, k ≤ i → i ≤ k + n →
    (i < k + n → newId < start (i + 1)) →
    ReclaimMap.mapLoop newId ((range' k (n + 1)).map start) ((range' k (n + 1)).map name)
      = (name i, newId - start i) := by
  induction n with
  | zero =>
    intro k hk hi _
    obtain rfl : k = i := by omega
    rfl
  | succ n ih =>
    intro k hk hi hend
    rw [range'_succ, range'_succ]
    simp only [map_cons, ReclaimMap.mapLoop]
    by_cases hki : k = i
    · rw [if_pos (by rw [hki]; exact hend (by omega)), hki]
    have hle : (start (k + 1) : ℤ) ≤ newId := (Int.ofNat_le.mpr (hmono (by omega))).trans hstart
    rw [if_neg (not_lt.mpr hle)]
    have hnext := ih (k := k + 1) (by omega) (by omega) (fun hlt => hend (by omega))
    rw [range'_succ] at hnext
    exact hnext

/-- The upper bound is behind the target that has the docid. -/
lemma length_takeWhile_eq (hstart : (start i : ℤ) ≤ newId) {n : ℕ} (hi : i ≤ n)
    (hend : i < n → newId < start (i + 1)) :
    (((range (n + 1)).map start).takeWhile fun base : ℕ => decide ((base : ℤ) ≤ newId)).length = i + 1 := by
  have hsplit : range (n + 1) = range (i + 1) ++ range' (i + 1) (n - i) := by
    have happend := range'_append_1 (s := 0) (m := i + 1) (n := n - i)
    rw [Nat.zero_add, show i + 1 + (n - i) = n + 1 by omega] at happend
    rw [range_eq_range', range_eq_range', happend]
  have hfront : ∀ base ∈ (range (i + 1)).map start, decide ((base : ℤ) ≤ newId) = true := by
    intro base hmem
    obtain ⟨k, hk, rfl⟩ := mem_map.mp hmem
    rw [mem_range] at hk
    exact decide_eq_true ((Int.ofNat_le.mpr (hmono (by omega))).trans hstart)
  have hback : ((range' (i + 1) (n - i)).map start).takeWhile (fun base : ℕ => decide ((base : ℤ) ≤ newId))
      = [] := by
    rcases Nat.eq_or_lt_of_le hi with rfl | hlt
    · simp
    obtain ⟨m, hm⟩ : ∃ m, n - i = m + 1 := ⟨n - i - 1, by omega⟩
    rw [hm, range'_succ, map_cons, takeWhile_cons, if_neg]
    rw [decide_eq_true_eq, not_le]
    exact hend hlt
  rw [hsplit, map_append, takeWhile_append_of_pos hfront, hback, append_nil, length_map, length_range]

end

/-! ## Ranks -/

section
variable {handler : Option SegmentSplitHandler} {kept : List Doc}

/-- A document of a target comes before the end of its target. -/
lemma countOf_before_lt (handler : Option SegmentSplitHandler) {kept before behind : List Doc} {doc : Doc}
    (hsplit : kept = before ++ doc :: behind) :
    countOf handler before (targetOf handler doc) < countOf handler kept (targetOf handler doc) := by
  rw [hsplit, countOf_append]
  simp [countOf]

/-- The start of a target counts the documents in the targets before it. -/
lemma baseOf_eq_countP {n : ℕ} (hn : n ≤ 65536) :
    baseOf (countOf handler kept) n = kept.countP fun doc => decide ((targetOf handler doc).toNat < n) := by
  induction n with
  | zero => simp [baseOf]
  | succ n ih =>
    rw [baseOf_succ, ih (by omega), countOf]
    clear ih
    induction kept with
    | nil => rfl
    | cons doc kept ih =>
      have heq : targetOf handler doc = UInt16.ofNat n ↔ (targetOf handler doc).toNat = n := by
        rw [← UInt16.toNat_inj, UInt16.toNat_ofNat', Nat.mod_eq_of_lt (by omega)]
      rw [countP_cons, countP_cons, countP_cons, ← ih]
      simp only [decide_eq_true_eq, heq]
      split_ifs <;> omega

/-- Of two places in a list one comes first. -/
lemma split_cases {before before' behind behind' : List Doc} {doc doc' : Doc}
    (h : before ++ doc :: behind = before' ++ doc' :: behind') :
    (before = before' ∧ doc = doc') ∨ (∃ between, before' = before ++ doc :: between)
    ∨ ∃ between, before = before' ++ doc' :: between := by
  rcases append_eq_append_iff.mp h with ⟨middle, hbefore, hbehind⟩ | ⟨middle, hbefore, hbehind⟩
  · cases middle with
    | nil => exact .inl ⟨by simpa using hbefore.symm, (cons.inj hbehind).1⟩
    | cons first middle =>
      obtain ⟨rfl, -⟩ := cons.inj hbehind
      exact .inr (.inl ⟨middle, hbefore⟩)
  cases middle with
  | nil => exact .inl ⟨by simpa using hbefore, (cons.inj hbehind).1.symm⟩
  | cons first middle =>
    obtain ⟨rfl, -⟩ := cons.inj hbehind
    exact .inr (.inr ⟨middle, hbefore⟩)

/-- As many different numbers as there are numbers below the length are all of them. -/
lemma bijOn_of_injOn {α : Type*} {l : List α} {f : α → ℤ} (hnodup : l.Nodup)
    (hinj : ∀ a ∈ l, ∀ b ∈ l, f a = f b → a = b) (hmaps : ∀ a ∈ l, 0 ≤ f a ∧ f a < l.length) :
    Set.BijOn f {a | a ∈ l} (Set.Ico 0 l.length) := by
  refine ⟨fun a hmem => hmaps a hmem, fun a ha b hb => hinj a ha b hb, ?_⟩
  have hsubset : (l.map f).toFinset ⊆ Finset.Ico 0 (l.length : ℤ) := by
    intro n hmem
    obtain ⟨a, ha, rfl⟩ := mem_map.mp (mem_toFinset.mp hmem)
    exact Finset.mem_Ico.mpr (hmaps a ha)
  have hcard : (l.map f).toFinset.card = l.length := by
    rw [toFinset_card_of_nodup (Nodup.map_on hinj hnodup), length_map]
  have hall := Finset.eq_of_subset_of_card_le hsubset (by rw [hcard]; simp)
  intro n hn
  have hmem : n ∈ (l.map f).toFinset := by
    rw [hall]
    exact Finset.mem_Ico.mpr hn
  exact mem_map.mp (mem_toFinset.mp hmem)

end

/-! ## The views of a layout -/

namespace Layout

variable {handler : Option SegmentSplitHandler} {maxIndex : ℕ} {baseSegmentId : ℤ} {docs kept : List Doc}
  {reclaimMap : ReclaimMap} {before behind before' behind' : List Doc} {doc doc' : Doc}

section
variable (h : Layout handler maxIndex baseSegmentId docs kept reclaimMap) (hsplit : kept = before ++ doc :: behind)
include h hsplit

lemma newId_lt : (baseOf (countOf handler kept) (targetOf handler doc).toNat : ℤ)
      ≤ reclaimMap.oldDocIdToNewDocId doc.oldId
    ∧ reclaimMap.oldDocIdToNewDocId doc.oldId
      < baseOf (countOf handler kept) ((targetOf handler doc).toNat + 1) := by
  have hrank := countOf_before_lt handler hsplit
  rw [h.newId_eq before doc behind hsplit, baseOf_succ, UInt16.ofNat_toNat]
  omega

lemma newId_lt_total : 0 ≤ reclaimMap.oldDocIdToNewDocId doc.oldId
    ∧ reclaimMap.oldDocIdToNewDocId doc.oldId < kept.length := by
  obtain ⟨hle, hlt⟩ := h.newId_lt hsplit
  refine ⟨(Int.natCast_nonneg _).trans hle, hlt.trans_le ?_⟩
  rw [baseOf_eq_countP (targetOf handler doc).toNat_lt]
  exact Int.ofNat_le.mpr countP_le_length

lemma target_le_of_newId_le (hsplit' : kept = before' ++ doc' :: behind')
    (heq : reclaimMap.oldDocIdToNewDocId doc.oldId = reclaimMap.oldDocIdToNewDocId doc'.oldId) :
    (targetOf handler doc).toNat ≤ (targetOf handler doc').toNat := by
  by_contra hlt
  have hmono := baseOf_mono (countOf handler kept)
    (show (targetOf handler doc').toNat + 1 ≤ (targetOf handler doc).toNat by omega)
  have hdoc := (h.newId_lt hsplit).1
  have hdoc' := (h.newId_lt hsplit').2
  omega

end

lemma eq_of_rank_eq (hsplit : kept = before ++ doc :: behind) (hsplit' : kept = before' ++ doc' :: behind')
    (htarget : targetOf handler doc = targetOf handler doc')
    (hrank : countOf handler before (targetOf handler doc) = countOf handler before' (targetOf handler doc')) :
    doc = doc' := by
  rcases split_cases (hsplit.symm.trans hsplit') with ⟨-, heq⟩ | ⟨between, hbetween⟩ | ⟨between, hbetween⟩
  · exact heq
  · have hlt := countOf_before_lt handler hbetween
    rw [htarget] at hlt hrank
    omega
  · have hlt := countOf_before_lt handler hbetween
    rw [htarget] at hrank
    omega

section
variable (h : Layout handler maxIndex baseSegmentId docs kept reclaimMap) (hsplit : kept = before ++ doc :: behind)
include h hsplit

lemma eq_of_newId_eq (hsplit' : kept = before' ++ doc' :: behind')
    (heq : reclaimMap.oldDocIdToNewDocId doc.oldId = reclaimMap.oldDocIdToNewDocId doc'.oldId) : doc = doc' := by
  have htarget : targetOf handler doc = targetOf handler doc' := UInt16.toNat_inj.mp
    (Nat.le_antisymm (h.target_le_of_newId_le hsplit hsplit' heq) (h.target_le_of_newId_le hsplit' hsplit heq.symm))
  refine eq_of_rank_eq hsplit hsplit' htarget ?_
  rw [h.newId_eq _ _ _ hsplit, h.newId_eq _ _ _ hsplit', htarget] at heq
  rw [htarget]
  omega

lemma ne_invalid : reclaimMap.oldDocIdToNewDocId doc.oldId ≠ invalidDocid := by
  have hnonneg := (h.newId_lt_total hsplit).1
  rw [invalidDocid]
  omega

lemma getTargetSegmentIndex_eq : reclaimMap.getTargetSegmentIndex (reclaimMap.oldDocIdToNewDocId doc.oldId)
    = (targetOf handler doc).toNat := by
  obtain ⟨hle, hlt⟩ := h.newId_lt hsplit
  have hlength := length_takeWhile_eq (fun _ _ => baseOf_mono (countOf handler kept)) hle
    (h.target_le doc (by rw [hsplit]; simp)) fun _ => hlt
  rw [ReclaimMap.getTargetSegmentIndex, h.bases_eq, if_neg (by simp), hlength]
  push_cast
  ring

lemma map_eq : reclaimMap.map doc.oldId = (baseSegmentId + (targetOf handler doc).toNat,
      (countOf handler before (targetOf handler doc) : ℤ)) := by
  obtain ⟨hle, hlt⟩ := h.newId_lt hsplit
  have htarget := h.target_le doc (by rw [hsplit]; simp)
  rw [ReclaimMap.map]
  rw [if_neg (h.ne_invalid hsplit), h.bases_eq, h.ids_eq, range_eq_range',
    mapLoop_eq (fun _ _ => baseOf_mono (countOf handler kept)) (fun i : ℕ => baseSegmentId + i) hle maxIndex
      (Nat.zero_le _) (by omega) fun _ => hlt, h.newId_eq _ _ _ hsplit]
  simp

/-- A document before another one of its target has the smaller docid there. -/
lemma local_lt (hsplit' : kept = before' ++ doc' :: behind') (htarget : targetOf handler doc = targetOf handler doc')
    (hbefore : ∃ between, before' = before ++ doc :: between) :
    (reclaimMap.map doc.oldId).2 < (reclaimMap.map doc'.oldId).2 := by
  obtain ⟨between, hbetween⟩ := hbefore
  rw [h.map_eq hsplit, h.map_eq hsplit', ← htarget]
  exact Int.ofNat_lt.mpr (countOf_before_lt handler hbetween)

end

/-- All views of a layout agree. -/
theorem views (h : Layout handler maxIndex baseSegmentId docs kept reclaimMap)
    (hperm : kept.Perm (docs.filter (!·.isDeleted))) (hnodup : (docs.map Doc.oldId).Nodup) :
    Views handler docs reclaimMap := by
  have hmem : ∀ doc, doc ∈ kept ↔ doc ∈ keptDocs docs := by
    intro doc
    rw [hperm.mem_iff, mem_filter, keptDocs, Set.mem_ofPred_eq]
    simp
  have hset : keptDocs docs = {doc | doc ∈ kept} := Set.ext fun doc => (hmem doc).symm
  have hdistinct : kept.Nodup := hperm.nodup_iff.mpr ((Nodup.of_map _ hnodup).filter _)
  have hinj : ∀ doc ∈ kept, ∀ doc' ∈ kept,
      reclaimMap.oldDocIdToNewDocId doc.oldId = reclaimMap.oldDocIdToNewDocId doc'.oldId → doc = doc' := by
    intro doc hdoc doc' hdoc' heq
    obtain ⟨before, behind, hsplit⟩ := append_of_mem hdoc
    obtain ⟨before', behind', hsplit'⟩ := append_of_mem hdoc'
    exact h.eq_of_newId_eq hsplit hsplit' heq
  have hvalid : ∀ doc ∈ docs, reclaimMap.oldDocIdToNewDocId doc.oldId ≠ invalidDocid → doc ∈ kept := by
    intro doc hdoc hne
    rw [hmem]
    refine ⟨hdoc, ?_⟩
    by_contra hdeleted
    exact hne (h.invalid doc hdoc (by simpa using hdeleted))
  constructor
  case invalid => exact h.invalid
  case bijOn =>
    rw [h.totalDocCount_eq, hset]
    refine bijOn_of_injOn hdistinct hinj fun doc hdoc => ?_
    obtain ⟨before, behind, hsplit⟩ := append_of_mem hdoc
    exact h.newId_lt_total hsplit
  case total =>
    have hcount := length_eq_countP_add_countP (l := docs) Doc.isDeleted
    rw [h.totalDocCount_eq, h.deletedDocCount_eq, hperm.length_eq, ← countP_eq_length_filter]
    have hnot : docs.countP (fun doc => !doc.isDeleted) = docs.countP (fun doc => decide ¬doc.isDeleted = true) := by
      apply countP_congr
      intro doc _
      simp
    rw [hnot]
    omega
  case reverse =>
    intro doc hdoc
    rw [← hmem] at hdoc
    obtain ⟨before, behind, hsplit⟩ := append_of_mem hdoc
    rw [h.reverse_eq]
    refine foldl_reverseOneDoc docs ?_ ?_ _ doc ((hmem doc).mp hdoc).1 (h.ne_invalid hsplit)
    · intro doc hdoc doc' hdoc' heq hne
      exact hinj doc (hvalid doc hdoc hne) doc' (hvalid doc' hdoc' (heq ▸ hne)) heq
    intro doc hdoc hne
    obtain ⟨before, behind, hsplit⟩ := append_of_mem (hvalid doc hdoc hne)
    exact (h.newId_lt_total hsplit).1
  case map_eq =>
    intro doc hdoc
    rw [← hmem] at hdoc
    obtain ⟨before, behind, hsplit⟩ := append_of_mem hdoc
    have hindex := h.getTargetSegmentIndex_eq hsplit
    have hlt := h.target_le doc hdoc
    refine ⟨hindex, ?_⟩
    rw [h.map_eq hsplit, ReclaimMap.getLocalId, if_neg (h.ne_invalid hsplit), hindex, Int.toNat_natCast,
      h.ids_eq, h.bases_eq, getElem?_map, getElem?_map, getElem?_range (by omega),
      h.newId_eq _ _ _ hsplit]
    simp
  case local_bijOn =>
    intro index
    have hfilter : {doc | doc ∈ keptDocs docs ∧ targetOf handler doc = index}
        = {doc | doc ∈ kept.filter fun doc => decide (targetOf handler doc = index)} := by
      ext doc
      rw [Set.mem_ofPred_eq, Set.mem_ofPred_eq, mem_filter, hmem, decide_eq_true_eq]
    have hcount : docs.countP (fun doc => !doc.isDeleted && decide (targetOf handler doc = index))
        = (kept.filter fun doc => decide (targetOf handler doc = index)).length := by
      rw [← countP_eq_length_filter, hperm.countP_eq, countP_filter]
      apply countP_congr
      intro doc _
      rw [Bool.and_comm]
    rw [hfilter, hcount]
    refine bijOn_of_injOn (hdistinct.filter _) ?_ ?_
    · intro doc hdoc doc' hdoc' heq
      rw [mem_filter, decide_eq_true_eq] at hdoc hdoc'
      obtain ⟨before, behind, hsplit⟩ := append_of_mem hdoc.1
      obtain ⟨before', behind', hsplit'⟩ := append_of_mem hdoc'.1
      rw [h.map_eq hsplit, h.map_eq hsplit'] at heq
      exact eq_of_rank_eq hsplit hsplit' (hdoc.2.trans hdoc'.2.symm) (Int.ofNat_inj.mp heq)
    intro doc hdoc
    rw [mem_filter, decide_eq_true_eq] at hdoc
    obtain ⟨before, behind, hsplit⟩ := append_of_mem hdoc.1
    have hrank := countOf_before_lt handler hsplit
    rw [h.map_eq hsplit, ← countP_eq_length_filter]
    rw [hdoc.2] at hrank ⊢
    exact ⟨Int.natCast_nonneg _, Int.ofNat_lt.mpr hrank⟩

end Layout

end Havenask.NormalTable
