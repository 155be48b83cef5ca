import Mathlib

/-!
# The reclaim map of a merge

`indexlib/table/normal_table/index_task/ReclaimMap.cpp`: a merge gives new docids to the documents of its
source segments.  Deleted documents get none.  A handler may split the documents over target segments; then
each document first gets its number inside its target, and all numbers are shifted afterwards by where the
targets start.

The documents are taken in some order, the one of the segments or a sorted one.  `rank` is the number of a
document among the documents of its target that come before it.

* **`makeTargetBaseDocIds_eq`**: where the targets start, and **`makeTargetBaseDocIds_runs`**: that the loop
  over them does not end if the last one has the largest number.
* **`Processed.fold`**: after the first pass each document has its rank.
* **`reclaim_layout`**: the map that comes out, if it does; **`reclaim_runs`**: when it does not.
-/

namespace Havenask.NormalTable

open List Function UInt16 NormalTable

/-- `INVALID_DOCID`. -/
def invalidDocid : ℤ := -1

/-- A source segment with the docid where it starts, and its deletion map. -/
structure SrcSegment where
  baseDocId : ℕ
  segmentId : ℤ
  docCount : ℕ
  isDeleted : ℕ → Bool

/-- Source segments in the order of the tablet.  All docids are of the type `docid_t`. -/
structure SrcSegments where
  segments : List SrcSegment
  ne_nil : segments ≠ []
  ordered : segments.Pairwise fun segment segment' =>
    segment.baseDocId + segment.docCount ≤ segment'.baseDocId
  fits : ∀ segment ∈ segments, segment.baseDocId + segment.docCount ≤ 2 ^ 31

structure Doc where
  segment : SrcSegment
  localId : ℕ

namespace Doc

/-- The docid in the tablet. -/
def oldId (doc : Doc) : ℕ := doc.segment.baseDocId + doc.localId

def isDeleted (doc : Doc) : Bool := doc.segment.isDeleted doc.localId

end Doc

/-- The documents of segments, one segment after the other. -/
def allDocs (segments : List SrcSegment) : List Doc :=
  segments.flatMap fun segment => (List.range segment.docCount).map (Doc.mk segment)

/-- A split handler gives the index of the target segment, or fails. -/
abbrev SegmentSplitHandler := ℤ → ℕ → Option UInt16

structure SegmentMapper where
  data : ℕ → UInt16
  segDocCounts : UInt16 → ℕ
  maxSegIndex : UInt16

def SegmentMapper.collect (mapper : SegmentMapper) (id : ℕ) (index : UInt16) : SegmentMapper where
  data := Function.update mapper.data id index
  segDocCounts := Function.update mapper.segDocCounts index (mapper.segDocCounts index + 1)
  maxSegIndex := max mapper.maxSegIndex index

structure State where
  deletedDocCount : ℕ
  newDocId : ℤ
  docIdArray : ℕ → ℤ
  segMapper : SegmentMapper

def State.init (targetSegmentCount : ℕ) : State :=
  ⟨0, 0, fun _ => invalidDocid, fun _ => 0, fun _ => 0, UInt16.ofNat targetSegmentCount⟩

section
variable (handler : Option SegmentSplitHandler)

def reclaimOneDoc (state : State) (doc : Doc) : Option State :=
  if doc.isDeleted then some { state with deletedDocCount := state.deletedDocCount + 1 }
  else
    match handler with
    | some handler =>
      match handler doc.segment.segmentId doc.localId with
      | none => none
      | some segIndex =>
        some { state with
          docIdArray := Function.update state.docIdArray doc.oldId (state.segMapper.segDocCounts segIndex)
          segMapper := state.segMapper.collect doc.oldId segIndex }
    | none =>
      some { state with
        docIdArray := Function.update state.docIdArray doc.oldId state.newDocId
        newDocId := state.newDocId + 1 }

/-- `MakeTargetBaseDocIds`: the counter of the loop has 16 bits. -/
def makeTargetBaseDocIds (segDocCounts : UInt16 → ℕ) (maxSegIdx : UInt16) : ℕ → UInt16 → ℕ → Option (List ℕ)
  | 0, _, _ => none
  | fuel + 1, segIdx, currentDocs =>
    if segIdx ≤ maxSegIdx then
      (makeTargetBaseDocIds segDocCounts maxSegIdx fuel (segIdx + 1)
        (currentDocs + segDocCounts segIdx)).map (currentDocs :: ·)
    else some []

/-- One turn of `RewriteDocIdArray`. -/
def rewriteOneDoc (targetBaseDocIds : List ℕ) (state : State) (doc : Doc) : State :=
  if state.docIdArray doc.oldId = invalidDocid then state
  else
    { state with
      docIdArray := Function.update state.docIdArray doc.oldId (state.docIdArray doc.oldId
        + (targetBaseDocIds[(state.segMapper.data doc.oldId).toNat]?).getD 0)
      newDocId := state.newDocId + 1 }

variable (fuel : ℕ)

/-- `FillReclaimMap`: the state with its final docids, and where the targets start. -/
def fillReclaimMap (handler : Option SegmentSplitHandler) (docs : List Doc) (state : State) :
    Option (State × List ℕ) :=
  match handler with
  | some _ =>
    (makeTargetBaseDocIds state.segMapper.segDocCounts state.segMapper.maxSegIndex fuel 0 0).map
      fun targetBaseDocIds =>
        (docs.foldl (rewriteOneDoc targetBaseDocIds) { state with newDocId := 0 }, targetBaseDocIds)
  | none => some (state, [0])

structure ReclaimMap where
  deletedDocCount : ℕ
  totalDocCount : ℤ
  oldDocIdToNewDocId : ℕ → ℤ
  targetSegmentBaseDocIds : List ℕ
  targetSegmentIds : List ℤ
  newDocIdToOldDocid : ℕ → ℤ × ℕ

/-- One turn of `CalculateReverseDocMap`. -/
def reverseOneDoc (oldDocIdToNewDocId : ℕ → ℤ) (reverse : ℕ → ℤ × ℕ) (doc : Doc) : ℕ → ℤ × ℕ :=
  if oldDocIdToNewDocId doc.oldId = invalidDocid then reverse
  else Function.update reverse (oldDocIdToNewDocId doc.oldId).toNat (doc.segment.segmentId, doc.localId)

/-- A handler that fails, or a loop that does not end. -/
inductive CalculateError
  | splitFailed
  | outOfFuel
deriving DecidableEq

/-- The documents are reclaimed in some order, and the map is filled. -/
def reclaim (handler : Option SegmentSplitHandler) (targetSegmentCount : ℕ) (baseSegmentId : ℤ)
    (docs order : List Doc) : Except CalculateError ReclaimMap :=
  match order.foldlM (reclaimOneDoc handler) (State.init targetSegmentCount) with
  | none => .error .splitFailed
  | some state =>
    match fillReclaimMap fuel handler docs state with
    | none => .error .outOfFuel
    | some (state, targetBaseDocIds) =>
      .ok ⟨state.deletedDocCount, state.newDocId, state.docIdArray, targetBaseDocIds,
        (List.range targetBaseDocIds.length).map fun i : ℕ => baseSegmentId + i,
        docs.foldl (reverseOneDoc state.docIdArray) fun _ => (0, 0)⟩

/-- `ReclaimMap::Calculate`. -/
def calculate (handler : Option SegmentSplitHandler) (targetSegmentCount : ℕ)
    (baseSegmentId : ℤ) (src : SrcSegments) : Except CalculateError ReclaimMap :=
  reclaim fuel handler targetSegmentCount baseSegmentId (allDocs src.segments) (allDocs src.segments)

namespace ReclaimMap

/-- The loop of `Map`: the target whose end is behind the docid. -/
def mapLoop (newDocId : ℤ) : List ℕ → List ℤ → ℤ × ℤ
  | base :: next :: bases, id :: ids =>
    if newDocId < next then (id, newDocId - base) else mapLoop newDocId (next :: bases) ids
  | [base], id :: _ => (id, newDocId - base)
  | _, _ => (-1, invalidDocid)

/-- `Map`: target segment and docid in it. -/
def map (reclaimMap : ReclaimMap) (globalOldDocId : ℕ) : ℤ × ℤ :=
  let newDocId := reclaimMap.oldDocIdToNewDocId globalOldDocId
  if newDocId = invalidDocid then (-1, invalidDocid)
  else mapLoop newDocId reclaimMap.targetSegmentBaseDocIds reclaimMap.targetSegmentIds

/-- `GetTargetSegmentIndex`: in front of the upper bound. -/
def getTargetSegmentIndex (reclaimMap : ReclaimMap) (newId : ℤ) : ℤ :=
  if reclaimMap.targetSegmentBaseDocIds = [] then 0
  else (reclaimMap.targetSegmentBaseDocIds.takeWhile fun base : ℕ => decide ((base : ℤ) ≤ newId)).length - 1

/-- `GetLocalId`, which gives the target segment. -/
def getLocalId (reclaimMap : ReclaimMap) (newId : ℤ) : ℤ :=
  if newId = invalidDocid then -1
  else (reclaimMap.targetSegmentIds[(reclaimMap.getTargetSegmentIndex newId).toNat]?).getD (-1)

end ReclaimMap

/-! ## Where the targets start -/

/-- The documents in the targets before the `i`-th. -/
def baseOf (counts : UInt16 → ℕ) (i : ℕ) : ℕ := ((List.range i).map fun j => counts (UInt16.ofNat j)).sum

variable (counts : UInt16 → ℕ)

lemma baseOf_succ (i : ℕ) : baseOf counts (i + 1) = baseOf counts i + counts (ofNat i) := by
  rw [baseOf, range_succ, map_append, sum_append]
  simp [baseOf]

lemma baseOf_mono {i j : ℕ} (h : i ≤ j) : baseOf counts i ≤ baseOf counts j := by
  induction h with
  | refl => exact le_rfl
  | step _ ih =>
    rw [Nat.succ_eq_add_one, baseOf_succ]
    omega

/-- The loop ends unless the largest index is the largest number of 16 bits. -/
lemma makeTargetBaseDocIds_eq {maxSegIdx : UInt16} (hmax : maxSegIdx ≠ 65535) (n : ℕ) :
    ∀ (fuel : ℕ) (segIdx : UInt16), n < fuel → segIdx.toNat + n = maxSegIdx.toNat + 1 →
    makeTargetBaseDocIds counts maxSegIdx fuel segIdx (baseOf counts segIdx.toNat)
      = some ((range n).map fun k => baseOf counts (segIdx.toNat + k)) := by
  have hlt : maxSegIdx.toNat < 65535 := by
    have hle : maxSegIdx.toNat < 65536 := maxSegIdx.toNat_lt
    have hne : maxSegIdx.toNat ≠ 65535 := fun h => hmax (UInt16.toNat_inj.mp h)
    omega
  induction n with
  | zero =>
    intro fuel segIdx hfuel hsum
    obtain ⟨fuel, rfl⟩ : ∃ k, fuel = k + 1 := ⟨fuel - 1, by omega⟩
    rw [makeTargetBaseDocIds, if_neg (by rw [le_iff_toNat_le]; omega)]
    rfl
  | succ n ih =>
    intro fuel segIdx hfuel hsum
    obtain ⟨fuel, rfl⟩ : ∃ k, fuel = k + 1 := ⟨fuel - 1, by omega⟩
    have hnext : (segIdx + 1).toNat = segIdx.toNat + 1 := by
      rw [UInt16.toNat_add]
      change (segIdx.toNat + 1) % 65536 = _
      omega
    have hbase : baseOf counts segIdx.toNat + counts segIdx = baseOf counts (segIdx + 1).toNat := by
      rw [hnext, baseOf_succ, UInt16.ofNat_toNat]
    rw [makeTargetBaseDocIds, if_pos (by rw [le_iff_toNat_le]; omega), hbase,
      ih _ _ (by omega) (by omega), Option.map_some, range_succ_eq_map, map_cons, map_map,
      hnext]
    congr 2
    apply map_congr_left
    intro k _
    congr 1
    omega

/-- Where the largest index is the largest number of 16 bits, the counter never gets behind it. -/
lemma makeTargetBaseDocIds_runs :
    ∀ segIdx currentDocs, makeTargetBaseDocIds counts 65535 fuel segIdx currentDocs = none := by
  induction fuel with
  | zero => exact fun _ _ => rfl
  | succ fuel ih =>
    intro segIdx currentDocs
    have hle : segIdx ≤ 65535 := by
      rw [le_iff_toNat_le]
      exact Nat.le_of_lt_succ segIdx.toNat_lt
    rw [makeTargetBaseDocIds, if_pos hle, ih]
    rfl

/-! ## The first pass -/

/-- The target of a document; without a handler there is one target. -/
def targetOf (doc : Doc) : UInt16 :=
  match handler with
  | none => 0
  | some handler => (handler doc.segment.segmentId doc.localId).getD 0

/-- How many of some documents go to a target. -/
def countOf (docs : List Doc) (i : UInt16) : ℕ :=
  docs.countP fun doc => decide (targetOf handler doc = i)

/-- The handler gives a target to each document that is kept. -/
def Splits (docs : List Doc) : Prop :=
  ∀ split, handler = some split → ∀ doc ∈ docs, doc.isDeleted = false →
    (split doc.segment.segmentId doc.localId).isSome

end

/-- The state after the first pass over documents, of which some are kept. -/
structure Processed (handler : Option SegmentSplitHandler) (targetSegmentCount : ℕ) (kept : List Doc)
    (deleted : ℕ) (state : State) : Prop where
  deleted_eq : state.deletedDocCount = deleted
  rank_eq : ∀ before doc behind, kept = before ++ doc :: behind →
    state.docIdArray doc.oldId = countOf handler before (targetOf handler doc)
  invalid : ∀ id, (∀ doc ∈ kept, doc.oldId ≠ id) → state.docIdArray id = invalidDocid
  newDocId_eq : handler = none → state.newDocId = kept.length
  counts_eq : handler ≠ none → state.segMapper.segDocCounts = countOf handler kept
  data_eq : handler ≠ none → ∀ doc ∈ kept, state.segMapper.data doc.oldId = targetOf handler doc
  max_eq : handler ≠ none → state.segMapper.maxSegIndex
    = kept.foldl (fun index doc => max index (targetOf handler doc)) (UInt16.ofNat targetSegmentCount)

section
variable {handler : Option SegmentSplitHandler} {targetSegmentCount : ℕ} {kept : List Doc} {deleted : ℕ}
  {state : State} {doc : Doc}

lemma processed_init (handler : Option SegmentSplitHandler) (targetSegmentCount : ℕ) :
    Processed handler targetSegmentCount [] 0 (State.init targetSegmentCount) := by
  refine ⟨rfl, ?_, fun _ _ => rfl, fun _ => rfl, fun _ => rfl, fun _ _ hmem => absurd hmem not_mem_nil, fun _ => rfl⟩
  intro before doc behind h
  exact absurd h.symm (by simp)

lemma countOf_append (docs docs' : List Doc) (i : UInt16) :
    countOf handler (docs ++ docs') i = countOf handler docs i + countOf handler docs' i :=
  countP_append

lemma countOf_concat (docs : List Doc) (doc : Doc) :
    countOf handler (docs ++ [doc]) = update (countOf handler docs) (targetOf handler doc)
      (countOf handler docs (targetOf handler doc) + 1) := by
  funext i
  rw [countOf_append]
  by_cases h : i = targetOf handler doc
  · rw [h, update_self]
    simp [countOf]
  · rw [update_of_ne h]
    simp [countOf, Ne.symm h]

/-- A document behind the others is either the last one or one of them. -/
lemma append_singleton_cases {docs before behind : List Doc} {last doc : Doc}
    (h : docs ++ [last] = before ++ doc :: behind) :
    (docs = before ∧ last = doc) ∨ ∃ behind', docs = before ++ doc :: behind' := by
  rcases eq_nil_or_concat behind with rfl | ⟨behind', e, rfl⟩
  · obtain ⟨rfl, heq⟩ := append_inj' h rfl
    exact .inl ⟨rfl, singleton_inj.mp heq⟩
  refine .inr ⟨behind', ?_⟩
  rw [concat_eq_append, ← cons_append, ← append_assoc] at h
  exact (append_inj' h rfl).1

/-- A document gets the number of documents of its target before it. -/
lemma Processed.reclaimOneDoc (h : Processed handler targetSegmentCount kept deleted state)
    (hsplits : Splits handler [doc]) (hkept : doc.isDeleted = false) (hnew : ∀ doc' ∈ kept, doc'.oldId ≠ doc.oldId) :
    ∃ state', reclaimOneDoc handler state doc = some state'
    ∧ Processed handler targetSegmentCount (kept ++ [doc]) deleted state' := by
  have hrank : ∀ (array : ℕ → ℤ),
      array = update state.docIdArray doc.oldId (countOf handler kept (targetOf handler doc) : ℤ) →
      (∀ before doc' behind, kept ++ [doc] = before ++ doc' :: behind →
        array doc'.oldId = countOf handler before (targetOf handler doc'))
      ∧ ∀ id, (∀ doc' ∈ kept ++ [doc], doc'.oldId ≠ id) → array id = invalidDocid := by
    rintro array rfl
    constructor
    · intro before doc' behind heq
      rcases append_singleton_cases heq with ⟨rfl, rfl⟩ | ⟨behind', hsplit⟩
      · rw [update_self]
      · rw [update_of_ne (hnew doc' (by rw [hsplit]; simp))]
        exact h.rank_eq before doc' behind' hsplit
    · intro id hid
      rw [update_of_ne (hid doc (by simp)).symm]
      exact h.invalid id fun doc' hmem => hid doc' (mem_append_left _ hmem)
  rw [reclaimOneDoc.eq_def, hkept, if_neg (by simp)]
  cases hhandler : handler with
  | none =>
    subst hhandler
    have hnumber : countOf none kept (targetOf none doc) = kept.length := by
      rw [countOf, countP_eq_length.mpr]
      intro doc' _
      exact decide_eq_true rfl
    refine ⟨_, rfl, ?_⟩
    obtain ⟨hranks, hinvalid⟩ := hrank (update state.docIdArray doc.oldId state.newDocId)
      (by rw [hnumber, h.newDocId_eq rfl])
    refine ⟨h.deleted_eq, hranks, hinvalid, fun _ => ?_, fun hne => absurd rfl hne,
      fun hne => absurd rfl hne, fun hne => absurd rfl hne⟩
    rw [length_append, length_singleton]
    push_cast
    rw [h.newDocId_eq rfl]
  | some split =>
    obtain ⟨index, hindex⟩ := Option.isSome_iff_exists.mp (hsplits split hhandler doc (mem_singleton_self _) hkept)
    have htarget : targetOf handler doc = index := by
      rw [hhandler, targetOf, hindex]
      rfl
    have hne : handler ≠ none := by rw [hhandler]; simp
    dsimp only
    rw [hindex]
    refine ⟨_, rfl, ?_⟩
    obtain ⟨hranks, hinvalid⟩ := hrank (update state.docIdArray doc.oldId (state.segMapper.segDocCounts index))
      (by rw [htarget, h.counts_eq hne])
    rw [← hhandler]
    refine ⟨h.deleted_eq, hranks, hinvalid, fun hnone => absurd hnone hne, fun _ => ?_, fun _ => ?_, fun _ => ?_⟩
    · rw [countOf_concat, htarget, SegmentMapper.collect, h.counts_eq hne]
    · intro doc' hmem
      change update state.segMapper.data doc.oldId index doc'.oldId = _
      rcases mem_append.mp hmem with hmem | hmem
      · rw [update_of_ne (hnew doc' hmem)]
        exact h.data_eq hne doc' hmem
      · rw [mem_singleton.mp hmem, update_self, htarget]
    · rw [foldl_append, SegmentMapper.collect, h.max_eq hne, ← htarget]
      rfl

lemma Processed.fold (order : List Doc) : ∀ {kept : List Doc} {deleted : ℕ} {state : State},
    Processed handler targetSegmentCount kept deleted state → Splits handler order →
    ((kept ++ order).map Doc.oldId).Nodup →
    ∃ state', order.foldlM (NormalTable.reclaimOneDoc handler) state = some state'
      ∧ Processed handler targetSegmentCount (kept ++ order.filter (!·.isDeleted))
        (deleted + order.countP Doc.isDeleted) state' := by
  induction order with
  | nil =>
    intro kept deleted state h _ _
    exact ⟨state, rfl, by simpa using h⟩
  | cons doc order ih =>
    intro kept deleted state h hsplits hnodup
    have hsplits' : Splits handler order := fun split hsplit doc' hmem =>
      hsplits split hsplit doc' (mem_cons_of_mem _ hmem)
    rw [map_append, map_cons] at hnodup
    rw [foldlM_cons]
    cases hdeleted : doc.isDeleted with
    | true =>
      have hstep : NormalTable.reclaimOneDoc handler state doc
          = some { state with deletedDocCount := state.deletedDocCount + 1 } := by
        rw [reclaimOneDoc.eq_def, if_pos hdeleted]
      rw [hstep]
      have hnext : Processed handler targetSegmentCount kept (deleted + 1)
          { state with deletedDocCount := state.deletedDocCount + 1 } :=
        { h with deleted_eq := by rw [h.deleted_eq] }
      obtain ⟨state', hfold, hprocessed⟩ := ih hnext hsplits' (by
        rw [map_append]
        exact hnodup.sublist (Sublist.append_left (sublist_cons_self _ _) _))
      refine ⟨state', hfold, ?_⟩
      rw [filter_cons_of_neg (by simp [hdeleted]), countP_cons_of_pos hdeleted,
        Nat.add_comm (order.countP _), ← Nat.add_assoc]
      exact hprocessed
    | false =>
      have hnew : ∀ doc' ∈ kept, doc'.oldId ≠ doc.oldId := by
        intro doc' hmem heq
        exact (nodup_append.mp hnodup).2.2 _ (mem_map_of_mem hmem) _ mem_cons_self heq
      have hone : Splits handler [doc] := fun split hsplit doc' hmem =>
        hsplits split hsplit doc' (by rw [mem_singleton.mp hmem]; exact mem_cons_self)
      obtain ⟨state₁, hstep, hnext⟩ := h.reclaimOneDoc hone hdeleted hnew
      rw [hstep]
      obtain ⟨state', hfold, hprocessed⟩ := ih hnext hsplits' (by
        rw [append_assoc, map_append]
        exact hnodup)
      refine ⟨state', hfold, ?_⟩
      rw [filter_cons_of_pos (by simp [hdeleted]), countP_cons_of_neg (by simp [hdeleted]), append_cons]
      exact hprocessed

end

/-! ## The shift -/

section

lemma foldl_rewriteOneDoc (targetBaseDocIds : List ℕ) (docs : List Doc) : ∀ (state : State), (docs.map Doc.oldId).Nodup →
    (∀ id, (∀ doc ∈ docs, doc.oldId ≠ id) →
      (docs.foldl (rewriteOneDoc targetBaseDocIds) state).docIdArray id = state.docIdArray id)
    ∧ (∀ doc ∈ docs, (docs.foldl (rewriteOneDoc targetBaseDocIds) state).docIdArray doc.oldId
      = if state.docIdArray doc.oldId = invalidDocid then invalidDocid else state.docIdArray doc.oldId
          + (targetBaseDocIds[(state.segMapper.data doc.oldId).toNat]?).getD 0)
    ∧ (docs.foldl (rewriteOneDoc targetBaseDocIds) state).newDocId = state.newDocId
      + docs.countP (fun doc => decide (state.docIdArray doc.oldId ≠ invalidDocid))
    ∧ (docs.foldl (rewriteOneDoc targetBaseDocIds) state).deletedDocCount = state.deletedDocCount := by
  induction docs with
  | nil =>
    intro state _
    exact ⟨fun _ _ => rfl, forall_mem_nil _, by simp, rfl⟩
  | cons doc docs ih =>
    intro state hnodup
    rw [map_cons, nodup_cons] at hnodup
    have hapart : ∀ doc' ∈ docs, doc'.oldId ≠ doc.oldId := fun doc' hmem heq =>
      hnodup.1 (heq ▸ mem_map_of_mem hmem)
    -- the turn of the first document leaves the others as they are
    have hother : ∀ id, id ≠ doc.oldId →
        (rewriteOneDoc targetBaseDocIds state doc).docIdArray id = state.docIdArray id := by
      intro id hne
      rw [rewriteOneDoc]
      split
      · rfl
      · exact update_of_ne hne _ _
    have hdata : (rewriteOneDoc targetBaseDocIds state doc).segMapper = state.segMapper := by
      rw [rewriteOneDoc]
      split <;> rfl
    obtain ⟨hout, hin, hcount, hdel⟩ := ih (rewriteOneDoc targetBaseDocIds state doc) hnodup.2
    rw [foldl_cons]
    refine ⟨?_, ?_, ?_, ?_⟩
    · intro id hid
      rw [hout id fun doc' hmem => hid doc' (mem_cons_of_mem _ hmem), hother id (hid doc mem_cons_self).symm]
    · intro doc' hmem
      rcases mem_cons.mp hmem with rfl | hmem
      · rw [hout _ hapart, rewriteOneDoc]
        split
        · assumption
        · exact update_self ..
      · rw [hin doc' hmem, hother _ (hapart doc' hmem), hdata]
    · have hsame : docs.countP (fun doc' => decide
          ((rewriteOneDoc targetBaseDocIds state doc).docIdArray doc'.oldId ≠ invalidDocid))
          = docs.countP (fun doc' => decide (state.docIdArray doc'.oldId ≠ invalidDocid)) := by
        apply countP_congr
        intro doc' hmem
        rw [hother _ (hapart doc' hmem)]
      rw [hcount, hsame, countP_cons, rewriteOneDoc]
      split
      · rename_i hinvalid
        simp [hinvalid]
      rename_i hvalid
      simp only [hvalid, ne_eq, not_false_eq_true, decide_true, if_true]
      push_cast
      ring
    · rw [hdel, rewriteOneDoc]
      split <;> rfl

/-- The reverse map has each document at its new docid. -/
lemma foldl_reverseOneDoc {newIds : ℕ → ℤ} (docs : List Doc)
    (hinj : ∀ doc ∈ docs, ∀ doc' ∈ docs, newIds doc.oldId = newIds doc'.oldId →
    newIds doc.oldId ≠ invalidDocid → doc = doc') (hnonneg : ∀ doc ∈ docs,
    newIds doc.oldId ≠ invalidDocid → 0 ≤ newIds doc.oldId) (reverse : ℕ → ℤ × ℕ) :
    ∀ doc ∈ docs, newIds doc.oldId ≠ invalidDocid → docs.foldl (reverseOneDoc newIds) reverse (newIds doc.oldId).toNat
      = (doc.segment.segmentId, doc.localId) := by
  induction docs using reverseRecOn with
  | nil => exact forall_mem_nil _
  | append_singleton docs last ih =>
    intro doc hmem hvalid
    rw [foldl_append, foldl_cons, foldl_nil, reverseOneDoc]
    have hlast : last ∈ docs ++ [last] := by simp
    by_cases hsame : newIds doc.oldId = newIds last.oldId
    · obtain rfl := hinj doc hmem last hlast hsame hvalid
      rw [if_neg hvalid, update_self]
    have hmem' : doc ∈ docs := by
      rcases mem_append.mp hmem with hmem | hmem
      · exact hmem
      · rw [mem_singleton.mp hmem] at hsame
        exact absurd rfl hsame
    have hprev := ih (fun doc hmem doc' hmem' => hinj doc (mem_append_left _ hmem) doc'
      (mem_append_left _ hmem')) (fun doc hmem => hnonneg doc (mem_append_left _ hmem)) doc
      hmem' hvalid
    split
    · exact hprev
    rename_i hlastvalid
    rw [update_of_ne]
    · exact hprev
    intro heq
    have h₁ := hnonneg doc hmem hvalid
    have h₂ := hnonneg last hlast hlastvalid
    exact hsame (by omega)

end

/-! ## The map -/

/-- The largest index of a target. -/
def maxIndexOf (handler : Option SegmentSplitHandler) (targetSegmentCount : ℕ) (kept : List Doc) : UInt16 :=
  match handler with
  | none => 0
  | some _ => kept.foldl (fun index doc => max index (targetOf handler doc)) (UInt16.ofNat targetSegmentCount)

/-- A map that gives the documents `kept`, in this order, docids by target and rank. -/
structure Layout (handler : Option SegmentSplitHandler) (maxIndex : ℕ) (baseSegmentId : ℤ)
    (docs kept : List Doc) (reclaimMap : ReclaimMap) : Prop where
  deletedDocCount_eq : reclaimMap.deletedDocCount = docs.countP Doc.isDeleted
  totalDocCount_eq : reclaimMap.totalDocCount = kept.length
  newId_eq : ∀ before doc behind, kept = before ++ doc :: behind →
    reclaimMap.oldDocIdToNewDocId doc.oldId = (baseOf (countOf handler kept) (targetOf handler doc).toNat
      + countOf handler before (targetOf handler doc) : ℕ)
  invalid : ∀ doc ∈ docs, doc.isDeleted = true → reclaimMap.oldDocIdToNewDocId doc.oldId = invalidDocid
  bases_eq : reclaimMap.targetSegmentBaseDocIds
    = (List.range (maxIndex + 1)).map (baseOf (countOf handler kept))
  ids_eq : reclaimMap.targetSegmentIds = (List.range (maxIndex + 1)).map fun i : ℕ => baseSegmentId + i
  target_le : ∀ doc ∈ kept, (targetOf handler doc).toNat ≤ maxIndex
  reverse_eq : reclaimMap.newDocIdToOldDocid
    = docs.foldl (reverseOneDoc reclaimMap.oldDocIdToNewDocId) fun _ => (0, 0)

section
variable {handler : Option SegmentSplitHandler} {targetSegmentCount : ℕ} {docs order : List Doc}

lemma toNat_max (index index' : UInt16) : (max index index').toNat = max index.toNat index'.toNat := by
  change (if index ≤ index' then index' else index).toNat = _
  split_ifs with hle
  · rw [max_eq_right (le_iff_toNat_le.mp hle)]
  · rw [le_iff_toNat_le] at hle
    rw [max_eq_left (by omega)]

/-- The largest index is not below any target. -/
lemma le_foldl_max (handler : Option SegmentSplitHandler) (kept : List Doc) : ∀ (index : UInt16),
    index.toNat ≤ (kept.foldl (fun index doc => max index (targetOf handler doc)) index).toNat
    ∧ ∀ doc ∈ kept, (targetOf handler doc).toNat
      ≤ (kept.foldl (fun index doc => max index (targetOf handler doc)) index).toNat := by
  induction kept with
  | nil => exact fun index => ⟨le_rfl, forall_mem_nil _⟩
  | cons doc kept ih =>
    intro index
    obtain ⟨hindex, hdocs⟩ := ih (max index (targetOf handler doc))
    rw [toNat_max] at hindex
    rw [foldl_cons]
    refine ⟨(le_max_left _ _).trans hindex, ?_⟩
    intro doc' hmem
    rcases mem_cons.mp hmem with rfl | hmem
    · exact (le_max_right _ _).trans hindex
    · exact hdocs doc' hmem

lemma eq_of_oldId_eq (hnodup : (docs.map Doc.oldId).Nodup) {doc doc' : Doc} (hmem : doc ∈ docs)
    (hmem' : doc' ∈ docs) (heq : doc.oldId = doc'.oldId) : doc = doc' :=
  inj_on_of_nodup_map hnodup hmem hmem' heq

/-- The documents that are kept, as numbers of the array that are valid. -/
lemma Processed.valid_iff {deleted : ℕ} {state : State}
    (h : Processed handler targetSegmentCount (order.filter (!·.isDeleted)) deleted state)
    (hperm : order.Perm docs) (hnodup : (docs.map Doc.oldId).Nodup) {doc : Doc} (hmem : doc ∈ docs) :
    state.docIdArray doc.oldId ≠ invalidDocid ↔ doc.isDeleted = false := by
  constructor
  · intro hvalid
    by_contra hdeleted
    refine hvalid (h.invalid doc.oldId fun doc' hmem' heq => ?_)
    rw [mem_filter] at hmem'
    rw [eq_of_oldId_eq hnodup (hperm.subset hmem'.1) hmem heq] at hmem'
    exact hdeleted (by simpa using hmem'.2)
  · intro hkept
    obtain ⟨before, behind, hsplit⟩ := append_of_mem
      (mem_filter.mpr ⟨hperm.symm.subset hmem, by simp [hkept]⟩ :
        doc ∈ order.filter (!·.isDeleted))
    rw [h.rank_eq before doc behind hsplit, invalidDocid]
    omega

/-- The first pass over the documents, in their new order. -/
lemma processed_order (targetSegmentCount : ℕ) (hperm : order.Perm docs) (hnodup : (docs.map Doc.oldId).Nodup)
    (hsplits : Splits handler docs) :
    ∃ state, order.foldlM (reclaimOneDoc handler) (State.init targetSegmentCount) = some state
    ∧ Processed handler targetSegmentCount (order.filter (!·.isDeleted)) (order.countP Doc.isDeleted) state := by
  have hsplits' : Splits handler order := fun split hsplit doc hmem =>
    hsplits split hsplit doc (hperm.subset hmem)
  have hnodup' : (order.map Doc.oldId).Nodup := (hperm.map _).nodup_iff.mpr hnodup
  simpa using (processed_init handler targetSegmentCount).fold order hsplits' (by simpa using hnodup')

section
variable (baseSegmentId : ℤ) (hperm : order.Perm docs) (hnodup : (docs.map Doc.oldId).Nodup)
  (hsplits : Splits handler docs)
include baseSegmentId hperm hnodup hsplits

/-- With targets below the largest number of 16 bits, the map comes out, with all docids by target and
rank. -/
lemma reclaim_layout (hmax : maxIndexOf handler targetSegmentCount (order.filter (!·.isDeleted)) ≠ 65535) :
    ∃ reclaimMap, (∀ fuel, 65536 < fuel →
      reclaim fuel handler targetSegmentCount baseSegmentId docs order = .ok reclaimMap)
    ∧ Layout handler (maxIndexOf handler targetSegmentCount (order.filter (!·.isDeleted))).toNat
      baseSegmentId docs (order.filter (!·.isDeleted)) reclaimMap := by
  obtain ⟨state, hfold, hprocessed⟩ := processed_order targetSegmentCount hperm hnodup hsplits
  have hvalid : ∀ doc ∈ docs, (state.docIdArray doc.oldId ≠ invalidDocid ↔ doc.isDeleted = false) :=
    fun doc hmem => hprocessed.valid_iff hperm hnodup hmem
  have hdeleted : state.deletedDocCount = docs.countP Doc.isDeleted := by
    rw [hprocessed.deleted_eq, hperm.countP_eq]
  have hmem : ∀ {doc}, doc ∈ order.filter (!·.isDeleted) → doc ∈ docs := fun hmem =>
    hperm.subset (mem_filter.mp hmem).1
  cases hhandler : handler with
  | none =>
    subst hhandler
    refine ⟨⟨state.deletedDocCount, state.newDocId, state.docIdArray, [0],
      (range 1).map fun i : ℕ => baseSegmentId + i,
      docs.foldl (reverseOneDoc state.docIdArray) fun _ => (0, 0)⟩, ?_, ?_⟩
    · intro fuel _
      rw [reclaim, hfold]
      rfl
    refine ⟨hdeleted, hprocessed.newDocId_eq rfl, ?_, ?_, rfl, rfl, fun _ _ => le_rfl, rfl⟩
    · intro before doc behind hsplit
      refine (hprocessed.rank_eq before doc behind hsplit).trans ?_
      simp [targetOf, baseOf]
    intro doc hdoc hdel
    by_contra hne
    rw [(hvalid doc hdoc).mp hne] at hdel
    cases hdel
  | some split =>
    have hne : handler ≠ none := by rw [hhandler]; simp
    have hmaxeq : state.segMapper.maxSegIndex
        = maxIndexOf handler targetSegmentCount (order.filter (!·.isDeleted)) := by
      rw [hprocessed.max_eq hne, hhandler]
      rfl
    obtain ⟨-, hle⟩ := le_foldl_max handler (order.filter (!·.isDeleted)) (ofNat targetSegmentCount)
    rw [← hprocessed.max_eq hne] at hle
    rw [← hhandler]
    rw [← hmaxeq] at hmax ⊢
    have hbases : ∀ fuel, 65536 < fuel → makeTargetBaseDocIds state.segMapper.segDocCounts
        state.segMapper.maxSegIndex fuel 0 0 = some ((range (state.segMapper.maxSegIndex.toNat + 1)).map
          (baseOf (countOf handler (order.filter (!·.isDeleted))))) := by
      intro fuel hfuel
      have hlt : state.segMapper.maxSegIndex.toNat < 65536 := state.segMapper.maxSegIndex.toNat_lt
      have hbase := makeTargetBaseDocIds_eq state.segMapper.segDocCounts hmax
        (state.segMapper.maxSegIndex.toNat + 1) fuel 0 (by omega)
        (by rw [UInt16.toNat_zero, Nat.zero_add])
      rw [UInt16.toNat_zero] at hbase
      simp only [Nat.zero_add] at hbase
      rw [← hprocessed.counts_eq hne]
      exact hbase
    generalize hlist : (range (state.segMapper.maxSegIndex.toNat + 1)).map
      (baseOf (countOf handler (order.filter (!·.isDeleted)))) = bases at hbases
    obtain ⟨-, hin, hcount, hdel⟩ := foldl_rewriteOneDoc bases docs { state with newDocId := 0 } hnodup
    generalize hshift : docs.foldl (rewriteOneDoc bases) { state with newDocId := 0 } = shifted at hin hcount hdel
    refine ⟨⟨shifted.deletedDocCount, shifted.newDocId, shifted.docIdArray, bases,
      (range bases.length).map fun i : ℕ => baseSegmentId + i,
      docs.foldl (reverseOneDoc shifted.docIdArray) fun _ => (0, 0)⟩, ?_, ?_⟩
    · intro fuel hfuel
      rw [reclaim, hfold]
      dsimp only
      rw [fillReclaimMap.eq_def, hhandler]
      rw [hbases fuel hfuel, Option.map_some, hshift]
    refine ⟨hdel.trans hdeleted, ?_, ?_, ?_, hlist.symm, ?_, hle, rfl⟩
    · dsimp only
      rw [hcount]
      rw [zero_add, ← countP_eq_length_filter, hperm.countP_eq]
      congr 1
      apply countP_congr
      intro doc hdoc
      rw [decide_eq_true_eq, hvalid doc hdoc]
      simp
    · intro before doc behind hsplit
      have hkept : doc ∈ order.filter (!·.isDeleted) := by rw [hsplit]; simp
      have hvalid' := (hvalid doc (hmem hkept)).mpr (by simpa using (mem_filter.mp hkept).2)
      refine (hin doc (hmem hkept)).trans ?_
      rw [if_neg hvalid']
      rw [hprocessed.data_eq hne doc hkept, hprocessed.rank_eq before doc behind hsplit, ← hlist,
        getElem?_map, getElem?_range (by have := hle doc hkept; omega)]
      simp only [Option.map_some, Option.getD_some]
      push_cast
      ring
    · intro doc hdoc hdeleted'
      refine (hin doc hdoc).trans ?_
      rw [if_pos]
      by_contra hvalid'
      rw [(hvalid doc hdoc).mp hvalid'] at hdeleted'
      cases hdeleted'
    · dsimp only
      rw [← hlist, length_map, length_range]

/-- With a target that has the largest number of 16 bits, the loop over the targets does not end. -/
lemma reclaim_runs (hmax : maxIndexOf handler targetSegmentCount (order.filter (!·.isDeleted)) = 65535) (fuel : ℕ) :
    reclaim fuel handler targetSegmentCount baseSegmentId docs order = .error .outOfFuel := by
  obtain ⟨state, hfold, hprocessed⟩ := processed_order targetSegmentCount hperm hnodup hsplits
  cases hhandler : handler with
  | none =>
    rw [hhandler] at hmax
    exact absurd (show (0 : UInt16) = 65535 from hmax) (by decide)
  | some split =>
    have hmaxeq : state.segMapper.maxSegIndex = 65535 := by
      rw [hprocessed.max_eq (by rw [hhandler]; simp), ← hmax, hhandler]
      rfl
    rw [hhandler] at hfold
    rw [reclaim, hfold]
    dsimp only
    rw [fillReclaimMap, hmaxeq, makeTargetBaseDocIds_runs]
    rfl

end

end

end Havenask.NormalTable
