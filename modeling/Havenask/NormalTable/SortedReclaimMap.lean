import Havenask.Lib.KWayMerge
import Havenask.NormalTable.ReclaimMapViews

/-!
# Reclaim maps in source order and in sorted order

`SortedReclaimMap.cpp` takes the documents out of a heap that has the next document of each source segment,
`Comparator.h` and `MultiComparator.cpp` say which comes first.  What follows the heap is the same as in
`ReclaimMap.cpp`.

* **`heapOrder_perm`**, **`heapOrder_sorted`**: the heap gives all documents, and in order.
* **`reclaimMap_consistent`**: when the maps come out, and that all their views agree then.
-/

namespace Havenask.NormalTable

open KWayMerge List

/-- A sort field with the values of the documents; a null has no value. -/
structure SortField where
  T : Type
  order : LinearOrder T
  desc : Bool
  value : Doc → Option T

instance (field : SortField) : LinearOrder field.T := field.order

variable (field : SortField)

/-- `ComparatorTyped::LessThan`. -/
def SortField.lessThan (left right : Doc) : Bool :=
  match field.desc, field.value left, field.value right with
  | false, none, none => false
  | false, none, some _ => true
  | false, some _, none => false
  | false, some t₁, some t₂ => decide (t₁ < t₂)
  | true, none, _ => false
  | true, some _, none => true
  | true, some t₁, some t₂ => decide (t₂ < t₁)

variable (fields : List SortField)

/-- `MultiComparator::LessThan`. -/
def lessThan : Doc → Doc → Bool := lexLess (fields.map SortField.lessThan)

/-- `WeightedDocIteratorComp`: the top of the heap is the least document, of equal ones that of the smaller
segment id. -/
def weightedDocIteratorComp (left right : Doc) : Bool :=
  if lessThan fields right left then true
  else if lessThan fields left right then false
  else decide (left.segment.segmentId > right.segment.segmentId)

/-- `WeightedDocIterator::Next`, if `HasNext`. -/
def Doc.next (doc : Doc) : Option Doc :=
  if doc.localId + 1 < doc.segment.docCount then some ⟨doc.segment, doc.localId + 1⟩ else none

variable (segments : List SrcSegment)

/-- The heap before the loop; empty segments have no iterator. -/
def docHeap : List Doc :=
  (segments.filter fun segment => segment.docCount != 0).map fun segment => ⟨segment, 0⟩

/-- The order in which the loop of `SortByWeightInit` reclaims the documents. -/
def heapOrder : List Doc :=
  heapLoop (weightedDocIteratorComp fields) Doc.next (allDocs segments).length (docHeap segments)

/-- `SortedReclaimMap::SortByWeightInit`. -/
def sortByWeightInit (fuel : ℕ) (handler : Option SegmentSplitHandler) (targetSegmentCount : ℕ)
    (baseSegmentId : ℤ) (fields : List SortField) (src : SrcSegments) : Except CalculateError ReclaimMap :=
  reclaim fuel handler targetSegmentCount baseSegmentId (allDocs src.segments)
    (heapOrder fields src.segments)

/-! ## The comparator -/

/-- The value of a document, with null below all others. -/
def SortField.key (doc : Doc) : WithBot field.T :=
  match field.value doc with
  | none => ⊥
  | some t => (t : WithBot field.T)

lemma SortField.lessThan_eq (left right : Doc) : field.lessThan left right
    = if field.desc then decide (field.key right < field.key left)
      else decide (field.key left < field.key right) := by
  rw [SortField.lessThan, SortField.key, SortField.key]
  cases field.desc <;> cases field.value left <;> cases field.value right <;> simp

lemma SortField.weakOrder : WeakOrder field.lessThan := by
  rw [show field.lessThan = _ from funext₂ field.lessThan_eq]
  cases field.desc with
  | true => exact (weakOrder_of_key field.key).flip
  | false => exact weakOrder_of_key field.key

lemma weakOrder_lessThan : WeakOrder (lessThan fields) := by
  apply weakOrder_lexLess
  intro less hmem
  obtain ⟨field, -, rfl⟩ := mem_map.mp hmem
  exact field.weakOrder

lemma lessThan_of_comp {fields : List SortField} {left right : Doc} :
    (weightedDocIteratorComp fields left right = true → lessThan fields left right = false)
    ∧ (weightedDocIteratorComp fields left right = false → lessThan fields right left = false) := by
  rw [weightedDocIteratorComp]
  cases hright : lessThan fields right left with
  | true => exact ⟨fun _ => (weakOrder_lessThan fields).asymm hright, fun h => by simp at h⟩
  | false =>
    cases hleft : lessThan fields left right with
    | true => exact ⟨fun h => by simp at h, fun _ => rfl⟩
    | false => exact ⟨fun _ => rfl, fun _ => rfl⟩

/-! ## The order of the heap -/

/-- A document and those behind it in its segment. -/
def Doc.run (doc : Doc) : List Doc :=
  doc :: (List.range' (doc.localId + 1) (doc.segment.docCount - (doc.localId + 1))).map (Doc.mk doc.segment)

lemma Doc.run_eq (doc : Doc) : doc.run = doc :: (doc.next.toList.flatMap Doc.run) := by
  rw [Doc.run, Doc.next]
  congr 1
  split
  · rename_i hlt
    obtain ⟨n, hn⟩ : ∃ n, doc.segment.docCount - (doc.localId + 1) = n + 1 :=
      ⟨doc.segment.docCount - (doc.localId + 1) - 1, by omega⟩
    rw [Option.toList_some, flatMap_singleton, Doc.run, hn, range'_succ, map_cons,
      show doc.segment.docCount - (doc.localId + 1 + 1) = n by omega]
  · rw [show doc.segment.docCount - (doc.localId + 1) = 0 by omega]
    rfl

def segmentDocs (segment : SrcSegment) : List Doc := (List.range segment.docCount).map (Doc.mk segment)

lemma run_zero {segment : SrcSegment} (hcount : segment.docCount ≠ 0) :
    (Doc.mk segment 0).run = segmentDocs segment := by
  obtain ⟨n, hn⟩ : ∃ n, segment.docCount = n + 1 := ⟨segment.docCount - 1, by omega⟩
  rw [Doc.run, segmentDocs, hn, range_eq_range', range'_succ, map_cons]
  rfl

lemma flatMap_docHeap : (docHeap segments).flatMap Doc.run = allDocs segments := by
  induction segments with
  | nil => rfl
  | cons segment segments ih =>
    rw [allDocs, flatMap_cons]
    change _ = _ ++ allDocs segments
    rw [← ih, docHeap, filter_cons]
    by_cases hcount : segment.docCount = 0
    · simp [hcount, docHeap]
    · rw [if_pos (by simpa using hcount), map_cons, flatMap_cons, run_zero hcount]
      rfl

lemma heapOrder_perm :
    (heapOrder fields segments).Perm (allDocs segments) := by
  have hperm := heapLoop_perm Doc.run_eq (weightedDocIteratorComp fields)
    (allDocs segments).length (docHeap segments) (by rw [flatMap_docHeap])
  rw [flatMap_docHeap] at hperm
  exact hperm

lemma heapOrder_sorted {fields : List SortField} {segments : List SrcSegment}
    (hsorted : ∀ segment ∈ segments, Sorted (lessThan fields) (segmentDocs segment)) :
    Sorted (lessThan fields) (heapOrder fields segments) := by
  refine heapLoop_sorted Doc.run_eq (weakOrder_lessThan fields) lessThan_of_comp.1 lessThan_of_comp.2 _ _
    (by rw [flatMap_docHeap]) ?_
  intro doc hmem
  obtain ⟨segment, hsegment, rfl⟩ := mem_map.mp hmem
  rw [mem_filter] at hsegment
  rw [run_zero (by simpa using hsegment.2)]
  exact hsorted segment hsegment.1

/-! ## The maps -/

lemma allDocs_pairwise {segments : List SrcSegment} (hordered : segments.Pairwise fun segment segment' =>
    segment.baseDocId + segment.docCount ≤ segment'.baseDocId) :
    (allDocs segments).Pairwise fun doc doc' => doc.oldId < doc'.oldId := by
  induction hordered with
  | nil => exact Pairwise.nil
  | @cons segment segments hfirst _ ih =>
    rw [allDocs, flatMap_cons, pairwise_append]
    refine ⟨?_, ih, ?_⟩
    · rw [pairwise_map]
      exact pairwise_lt_range.imp fun h => Nat.add_lt_add_left h _
    intro doc hdoc doc' hdoc'
    obtain ⟨j, hj, rfl⟩ := mem_map.mp hdoc
    obtain ⟨segment', hsegment', hdoc'⟩ := mem_flatMap.mp hdoc'
    obtain ⟨j', -, rfl⟩ := mem_map.mp hdoc'
    have hle := hfirst segment' hsegment'
    rw [mem_range] at hj
    change segment.baseDocId + j < segment'.baseDocId + j'
    omega

lemma length_allDocs :
    (allDocs segments).length = (segments.map SrcSegment.docCount).sum := by
  rw [allDocs, length_flatMap]
  simp

lemma SrcSegments.nodup_oldIds (src : SrcSegments) : ((allDocs src.segments).map Doc.oldId).Nodup := by
  rw [Nodup, pairwise_map]
  exact (allDocs_pairwise src.ordered).imp fun h => Nat.ne_of_lt h

/-- For enough fuel a map comes out, with views that agree, and with the documents of each target in
order. -/
def GivesMap (handler : Option SegmentSplitHandler) (src : SrcSegments) (inOrder : Doc → Doc → Prop)
    (calculate : ℕ → Except CalculateError ReclaimMap) : Prop :=
  ∃ reclaimMap, (∀ fuel, 65536 < fuel → calculate fuel = .ok reclaimMap)
    ∧ Views handler (allDocs src.segments) reclaimMap
    ∧ reclaimMap.totalDocCount + reclaimMap.deletedDocCount = (src.segments.map SrcSegment.docCount).sum
    ∧ ∀ doc ∈ keptDocs (allDocs src.segments), ∀ doc' ∈ keptDocs (allDocs src.segments),
      targetOf handler doc = targetOf handler doc' →
        (reclaimMap.map doc.oldId).2 < (reclaimMap.map doc'.oldId).2 → inOrder doc doc'

/-- No target has the largest number of 16 bits. -/
def TargetsFit (handler : Option SegmentSplitHandler) (targetSegmentCount : ℕ) (docs : List Doc) : Prop :=
  handler = none ∨ (targetSegmentCount % 65536 ≠ 65535 ∧ ∀ doc ∈ keptDocs docs, targetOf handler doc ≠ 65535)

section
variable {handler : Option SegmentSplitHandler} {targetSegmentCount : ℕ} {src : SrcSegments}
  {order : List Doc}

lemma max_eq_iff (index index' : UInt16) : max index index' = 65535 ↔ index = 65535 ∨ index' = 65535 := by
  have hlt : index.toNat < 65536 := index.toNat_lt
  have hlt' : index'.toNat < 65536 := index'.toNat_lt
  rw [← UInt16.toNat_inj, ← UInt16.toNat_inj, ← UInt16.toNat_inj, toNat_max]
  change max _ _ = 65535 ↔ _ = 65535 ∨ _ = 65535
  omega

lemma foldl_max_eq_iff (kept : List Doc) : ∀ index : UInt16,
    kept.foldl (fun index doc => max index (targetOf handler doc)) index = 65535
    ↔ index = 65535 ∨ ∃ doc ∈ kept, targetOf handler doc = 65535 := by
  induction kept with
  | nil => simp
  | cons doc kept ih =>
    intro index
    rw [foldl_cons, ih, max_eq_iff, or_assoc]
    simp

lemma maxIndexOf_ne_iff (hperm : order.Perm (allDocs src.segments)) :
    maxIndexOf handler targetSegmentCount (order.filter (!·.isDeleted)) ≠ 65535
    ↔ TargetsFit handler targetSegmentCount (allDocs src.segments) := by
  cases hhandler : handler with
  | none =>
    refine ⟨fun _ => .inl rfl, fun _ => ?_⟩
    change (0 : UInt16) ≠ 65535
    decide
  | some split =>
    have hcount : UInt16.ofNat targetSegmentCount = 65535 ↔ targetSegmentCount % 65536 = 65535 := by
      rw [← UInt16.toNat_inj, UInt16.toNat_ofNat']
      rfl
    rw [maxIndexOf, ne_eq, foldl_max_eq_iff, not_or, hcount, TargetsFit, or_iff_right (by simp)]
    refine and_congr_right fun _ => ?_
    rw [not_exists]
    refine forall_congr' fun doc => ?_
    rw [not_and, mem_filter, hperm.mem_iff, keptDocs, Set.mem_ofPred_eq]
    simp

/-- Documents that are reclaimed in some order are in this order in each target. -/
lemma givesMap_of_pairwise (baseSegmentId : ℤ) {inOrder : Doc → Doc → Prop}
    (hperm : order.Perm (allDocs src.segments)) (hsplits : Splits handler (allDocs src.segments))
    (hfit : TargetsFit handler targetSegmentCount (allDocs src.segments)) (hpairwise : order.Pairwise inOrder) :
    GivesMap handler src inOrder fun fuel =>
      reclaim fuel handler targetSegmentCount baseSegmentId (allDocs src.segments) order := by
  obtain ⟨reclaimMap, hreclaim, hlayout⟩ := reclaim_layout baseSegmentId hperm src.nodup_oldIds hsplits
    ((maxIndexOf_ne_iff hperm).mpr hfit)
  have hviews := hlayout.views (hperm.filter _) src.nodup_oldIds
  refine ⟨reclaimMap, hreclaim, hviews, ?_, ?_⟩
  · rw [hviews.total, length_allDocs]
  intro doc hdoc doc' hdoc' htarget hlt
  have hmem : ∀ {doc}, doc ∈ keptDocs (allDocs src.segments) → doc ∈ order.filter (!·.isDeleted) :=
    fun hmem => mem_filter.mpr ⟨hperm.symm.subset hmem.1, by simp [hmem.2]⟩
  obtain ⟨before, behind, hsplit⟩ := append_of_mem (hmem hdoc)
  obtain ⟨before', behind', hsplit'⟩ := append_of_mem (hmem hdoc')
  rcases split_cases (hsplit.symm.trans hsplit') with ⟨-, rfl⟩ | ⟨between, hbetween⟩ | hbetween
  · exact absurd hlt (lt_irrefl _)
  · have hkept := hpairwise.filter (!·.isDeleted)
    rw [hsplit', hbetween, append_assoc, pairwise_append] at hkept
    exact (pairwise_cons.mp hkept.2.1).1 doc' (by simp)
  · exact absurd (hlayout.local_lt hsplit' hsplit htarget.symm hbetween) hlt.asymm

lemma targetsFit_of_givesMap {baseSegmentId : ℤ} {inOrder : Doc → Doc → Prop}
    (hperm : order.Perm (allDocs src.segments)) (hsplits : Splits handler (allDocs src.segments))
    (h : GivesMap handler src inOrder fun fuel =>
      reclaim fuel handler targetSegmentCount baseSegmentId (allDocs src.segments) order) :
    TargetsFit handler targetSegmentCount (allDocs src.segments) := by
  obtain ⟨reclaimMap, hreclaim, -⟩ := h
  rw [← maxIndexOf_ne_iff hperm]
  intro hmax
  have hruns := reclaim_runs baseSegmentId hperm src.nodup_oldIds hsplits hmax 65537
  cases hruns.symm.trans (hreclaim 65537 (by omega))

/-- Whatever the segments, the deletions and the handler, as long as the handler does not fail: both maps
come out with views that agree, in source order and in sorted order, exactly if no target has the largest
number of 16 bits. -/
theorem reclaimMap_consistent (src : SrcSegments) (handler : Option SegmentSplitHandler)
    (targetSegmentCount : ℕ) (baseSegmentId : ℤ) (fields : List SortField)
    (hsplits : Splits handler (allDocs src.segments)) : (GivesMap handler src (fun doc doc' => doc.oldId < doc'.oldId)
          (calculate · handler targetSegmentCount baseSegmentId src)
        ∧ GivesMap handler src
          (fun doc doc' => (∀ segment ∈ src.segments, Sorted (lessThan fields) (segmentDocs segment)) →
            lessThan fields doc' doc = false)
          (sortByWeightInit · handler targetSegmentCount baseSegmentId fields src))
      ↔ TargetsFit handler targetSegmentCount (allDocs src.segments) := by
  constructor
  · exact fun h => targetsFit_of_givesMap (List.Perm.refl _) hsplits h.1
  · intro hfit
    refine ⟨givesMap_of_pairwise baseSegmentId (List.Perm.refl _) hsplits hfit (allDocs_pairwise src.ordered),
      givesMap_of_pairwise baseSegmentId (heapOrder_perm fields src.segments) hsplits hfit ?_⟩
    by_cases hsorted : ∀ segment ∈ src.segments, Sorted (lessThan fields) (segmentDocs segment)
    · exact (heapOrder_sorted hsorted).imp fun h _ => h
    · exact pairwise_of_forall fun _ _ h => absurd h hsorted

end

/-! ## Small tablets -/

/-- Three documents, the middle one deleted, and two more. -/
def twoSegmentsSrc : SrcSegments where
  segments := [⟨0, 0, 3, (· == 1)⟩, ⟨3, 1, 2, fun _ => false⟩]
  ne_nil := by simp
  ordered := by simp
  fits := by simp

/-- Even local docids go to target 0, odd ones to target 1. -/
def byParity : SegmentSplitHandler := fun _ localId => some (if localId % 2 = 0 then 0 else 1)

/-- The documents of both segments in turn: 0 and 4, 1 and 3. -/
def turnField : SortField := ⟨ℕ, inferInstance, false, fun doc => some (2 * doc.localId + doc.segment.segmentId.toNat)⟩

/-- Two targets: both maps come out, and the segments are sorted by the field. -/
theorem reclaimMap_consistent_twoSegments :
    GivesMap (some byParity) twoSegmentsSrc (fun doc doc' => doc.oldId < doc'.oldId)
        (calculate · (some byParity) 2 7 twoSegmentsSrc)
      ∧ GivesMap (some byParity) twoSegmentsSrc (fun doc doc' => lessThan [turnField] doc' doc = false)
        (sortByWeightInit · (some byParity) 2 7 [turnField] twoSegmentsSrc) := by
  have hsorted : ∀ segment ∈ twoSegmentsSrc.segments, Sorted (lessThan [turnField]) (segmentDocs segment) := by
    simp only [twoSegmentsSrc, forall_mem_cons, Sorted]
    decide
  obtain ⟨hplain, reclaimMap, hok, hviews, hcounts, horder⟩ :=
    (reclaimMap_consistent twoSegmentsSrc (some byParity) 2 7 [turnField]
      (fun _ heq _ _ _ => by cases heq; rfl)).mpr (.inr ⟨by decide, fun doc _ => by
        change (if doc.localId % 2 = 0 then (0 : UInt16) else 1) ≠ 65535
        split <;> decide⟩)
  exact ⟨hplain, reclaimMap, hok, hviews, hcounts,
    fun doc hdoc doc' hdoc' htarget hlt => horder doc hdoc doc' hdoc' htarget hlt hsorted⟩

def oneDocSegment : SrcSegment := ⟨0, 0, 1, fun _ => false⟩

def oneDocSrc : SrcSegments where
  segments := [oneDocSegment]
  ne_nil := by simp
  ordered := by simp
  fits := by simp [oneDocSegment]

lemma splits_const (index : UInt16) (docs : List Doc) : Splits (some fun _ _ => some index) docs := by
  intro split hsplit doc _ _
  cases hsplit
  rfl

/-- A handler that uses the last number makes the loop over the targets run for ever. -/
theorem lastTarget_runs : (∀ fuel, calculate fuel (some fun _ _ => some 65535) 1 7 oneDocSrc = .error .outOfFuel)
      ∧ ∀ fuel, sortByWeightInit fuel (some fun _ _ => some 65535) 1 7 [] oneDocSrc = .error .outOfFuel := by
  constructor
  · exact reclaim_runs 7 (List.Perm.refl _) oneDocSrc.nodup_oldIds (splits_const _ _) (by decide)
  · exact reclaim_runs 7 (heapOrder_perm [] _) oneDocSrc.nodup_oldIds (splits_const _ _) (by decide)

end Havenask.NormalTable
