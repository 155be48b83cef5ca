import Havenask.Table.ShardMergeOrder

/-!
# What a merge plan tells about its targets

`ShardBasedMergeStrategy.cpp` and `SegmentMergePlan.cpp`: beside the sources of a plan, the loop over the levels of a
shard sums up their infos for the target.  After a cut the plan starts anew, the info does not.

* **`targetInfos_sources`**: the loop with the infos makes the plans of `doCreateMergePlan`.
* **`targetInfos_describe_iff`**: each info describes its own sources exactly if the runs that the tags join before
  it in its shard have no documents, and no timestamp or TTL above its own.
-/

namespace Havenask.Table

open List

/-- `SegmentInfo`, with the fields that a plan fills in; the locator of each target is that of the version. -/
structure SegmentInfo where
  docCount : ℕ := 0
  timestamp : ℤ := -1
  maxTTL : ℕ := 0
  shardCount : ℕ := 1
  shardId : ℕ := 2 ^ 32 - 1
  mergedSegment : Bool := false

variable (infos : ℤ → SegmentInfo)

def updateTargetSegmentInfo (target : SegmentInfo) (id : ℤ) : SegmentInfo :=
  { target with
    maxTTL := max target.maxTTL (infos id).maxTTL
    timestamp := max target.timestamp (infos id).timestamp
    shardCount := (infos id).shardCount
    docCount := target.docCount + (infos id).docCount }

/-- The loop of `shardLoop` with the info: the sources and the target info of each plan. -/
def infoLoop (mergeTag : ℕ → Bool) (shardCount shardIdx : ℕ) :
    List LevelMeta → ℕ → List ℤ → SegmentInfo → List (List ℤ × SegmentInfo)
  | [], _, _, _ => []
  | level :: levels, levelIdx, current, info =>
    if !mergeTag levelIdx && current.isEmpty then
      infoLoop mergeTag shardCount shardIdx levels (levelIdx + 1) current info
    else
      let ids := valid (level.slot shardIdx)
      let current := ids.foldl addSrcSegment current
      let info := ids.foldl (updateTargetSegmentInfo infos) info
      if mergeTag levelIdx then infoLoop mergeTag shardCount shardIdx levels (levelIdx + 1) current info
      else
        let info := { info with shardId := shardIdx, shardCount }
        (current, info) :: infoLoop mergeTag shardCount shardIdx levels (levelIdx + 1) [] info

/-- The plans of a shard, the first of which starts with level 0. -/
def targetInfos (version : Version) (mergeTag : ℕ → ℕ → Bool) (shardIdx : ℕ) : List (List ℤ × SegmentInfo) :=
  match version.levels with
  | [] => []
  | levelZero :: levels =>
    let ids := levelZero.segments.flatMap valid
    infoLoop infos (mergeTag · shardIdx) version.levels.getShardCount shardIdx levels 1 (ids.foldl addSrcSegment [])
      (ids.foldl (updateTargetSegmentInfo infos) { mergedSegment := true })

/-- What the tags join in a shard of a version. -/
def shardRuns (version : Version) (mergeTag : ℕ → ℕ → Bool) (shardIdx : ℕ) : List (List ℤ) :=
  match version.levels with
  | [] => []
  | levelZero :: levels =>
    runs mergeTag { levelZero with segments := levelZero.segments.flatMap valid } levels shardIdx

/-- The maximum over some segments. -/
def maxOver {α : Type*} [LinearOrder α] (f : ℤ → α) (ids : List ℤ) : WithBot α :=
  ids.toFinset.sup fun id => (f id : WithBot α)

/-- The info has the sum and the maxima over the segments `ids`. -/
structure Describes (ids : List ℤ) (info : SegmentInfo) : Prop where
  docCount : info.docCount = (ids.map (infos · |>.docCount)).sum
  timestamp : info.timestamp = maxOver (infos · |>.timestamp) ids
  maxTTL : info.maxTTL = maxOver (infos · |>.maxTTL) ids

/-- The initial values and the segments `before` add nothing to the info of `ids`. -/
def Clean (before ids : List ℤ) : Prop :=
  (∀ id ∈ before, (infos id).docCount = 0)
    ∧ ((-1 : ℤ) : WithBot ℤ) ⊔ maxOver (infos · |>.timestamp) before ≤ maxOver (infos · |>.timestamp) ids
    ∧ ((0 : ℕ) : WithBot ℕ) ⊔ maxOver (infos · |>.maxTTL) before ≤ maxOver (infos · |>.maxTTL) ids

/-- Each run of a shard is clean of those before it. -/
def AllClean : List ℤ → List (List ℤ) → Prop
  | _, [] => True
  | before, ids :: runs => Clean infos before ids ∧ AllClean (before ++ ids) runs

/-- What the loop has when it has seen `ids`. -/
structure Summed (ids : List ℤ) (info : SegmentInfo) : Prop where
  docCount : info.docCount = (ids.map (infos · |>.docCount)).sum
  timestamp : info.timestamp = ((-1 : ℤ) : WithBot ℤ) ⊔ maxOver (infos · |>.timestamp) ids
  maxTTL : info.maxTTL = ((0 : ℕ) : WithBot ℕ) ⊔ maxOver (infos · |>.maxTTL) ids

variable {infos} {before ids : List ℤ} {info : SegmentInfo}

lemma Summed.perm {ids' : List ℤ} (h : Summed infos ids info) (hperm : ids.Perm ids') : Summed infos ids' info := by
  obtain ⟨hdoc, htimestamp, hmaxTTL⟩ := h
  rw [maxOver, toFinset_eq_of_perm _ _ hperm] at htimestamp hmaxTTL
  exact ⟨hdoc.trans (hperm.map _).sum_eq, htimestamp, hmaxTTL⟩

lemma coe_max_eq {α : Type*} [LinearOrder α] {f : ℤ → α} {x : α} {start : WithBot α} (h : x = start ⊔ maxOver f ids)
    (id : ℤ) : (max x (f id) : α) = start ⊔ maxOver f (id :: ids) := by
  rw [WithBot.coe_max, h, maxOver, maxOver, toFinset_cons, Finset.sup_insert, max_assoc, max_comm (f id : WithBot α)]

lemma Summed.update (h : Summed infos ids info) (id : ℤ) :
    Summed infos (id :: ids) (updateTargetSegmentInfo infos info id) := by
  refine ⟨?_, coe_max_eq h.timestamp id, coe_max_eq h.maxTTL id⟩
  rw [updateTargetSegmentInfo, h.docCount, map_cons, sum_cons, Nat.add_comm]

lemma Summed.add (ids : List ℤ) : ∀ {run : List ℤ} {info : SegmentInfo}, Summed infos (before ++ run) info →
    Summed infos (before ++ (run ++ ids)) (ids.foldl (updateTargetSegmentInfo infos) info) := by
  induction ids with
  | nil =>
    intro run info h
    rwa [append_nil]
  | cons id ids ih =>
    intro run info h
    rw [append_cons]
    refine ih ((h.update id).perm ?_)
    calc id :: (before ++ run) ~ before ++ (id :: run) := perm_middle.symm
      _ ~ before ++ (run ++ [id]) := (perm_append_singleton id run).symm.append_left before

lemma Describes.perm {ids' : List ℤ} (h : Describes infos ids info) (hperm : ids.Perm ids') :
    Describes infos ids' info := by
  obtain ⟨hdoc, htimestamp, hmaxTTL⟩ := h
  rw [maxOver, toFinset_eq_of_perm _ _ hperm] at htimestamp hmaxTTL
  exact ⟨hdoc.trans (hperm.map _).sum_eq, htimestamp, hmaxTTL⟩

lemma Summed.describes_iff (h : Summed infos (before ++ ids) info) :
    Describes infos (ids.insertionSort (· ≤ ·)) info ↔ Clean infos before ids := by
  have hperm := perm_insertionSort (· ≤ ·) ids
  have hsorted : Describes infos (ids.insertionSort (· ≤ ·)) info ↔ Describes infos ids info :=
    ⟨fun h => h.perm hperm, fun h => h.perm hperm.symm⟩
  obtain ⟨hdoc, htimestamp, hmaxTTL⟩ := h
  rw [maxOver, toFinset_append, Finset.sup_union, ← sup_assoc] at htimestamp hmaxTTL
  have hsum : info.docCount = (ids.map (infos · |>.docCount)).sum ↔ ∀ id ∈ before, (infos id).docCount = 0 := by
    rw [hdoc, map_append, sum_append, Nat.add_eq_right, List.sum_eq_zero_iff_forall_eq_nat]
    simp
  rw [hsorted, Clean, ← hsum, ← sup_eq_right, ← sup_eq_right, maxOver, maxOver, maxOver, maxOver, ← htimestamp, ← hmaxTTL]
  exact ⟨fun h => ⟨h.docCount, h.timestamp, h.maxTTL⟩, fun h => ⟨h.1, h.2.1, h.2.2⟩⟩

section
variable {mergeTag : ℕ → Bool} {shardCount shardIdx : ℕ}

lemma forall_describes_iff {levelIdx : ℕ} {run : List ℤ} (levels : List LevelMeta)
    (h : Summed infos (before ++ run) info) :
    (∀ plan ∈ infoLoop infos mergeTag shardCount shardIdx levels levelIdx (run.insertionSort (· ≤ ·)) info,
      Describes infos plan.1 plan.2)
    ↔ AllClean infos before ((column mergeTag (levels.map (·.slot shardIdx)) levelIdx run).filterMap Piece.run?) := by
  induction levels generalizing before run levelIdx info with
  | nil => simp [infoLoop, column, AllClean]
  | cons level levels ih =>
    have hempty : (run.insertionSort (· ≤ ·)).isEmpty = run.isEmpty := by
      rw [Bool.eq_iff_iff, isEmpty_iff_length_eq_zero, isEmpty_iff_length_eq_zero, length_insertionSort]
    obtain ⟨hdoc, htimestamp, hmaxTTL⟩ := h.add (valid (level.slot shardIdx))
    rw [infoLoop, hempty, map_cons, column]
    split
    · exact ih h
    dsimp only
    rw [foldl_addSrcSegment]
    split
    · exact ih ⟨hdoc, htimestamp, hmaxTTL⟩
    rw [forall_mem_cons]
    change _ ↔ Clean infos before (run ++ valid (level.slot shardIdx)) ∧ AllClean infos _ (filterMap Piece.run? _)
    -- the info goes on with what it has
    refine and_congr (Summed.describes_iff ⟨hdoc, htimestamp, hmaxTTL⟩) (@ih _ _ _ [] ?_)
    rw [append_nil]
    exact ⟨hdoc, htimestamp, hmaxTTL⟩

/-! ## The plans of the strategy -/

variable {levelNum : ℕ}

lemma infoLoop_sources (infos : ℤ → SegmentInfo) (info : SegmentInfo) (levels : List LevelMeta) :
    ∀ {levelIdx : ℕ} {current : List ℤ} {first : ℤ},
    (shardLoop mergeTag levelNum shardIdx levels levelIdx current first).1.map SegmentMergePlan.srcSegments
      = (infoLoop infos mergeTag shardCount shardIdx levels levelIdx current info).map Prod.fst := by
  induction levels generalizing info with
  | nil => exact rfl
  | cons level levels ih =>
    intro levelIdx current first
    rw [shardLoop, infoLoop]
    split
    · exact ih _
    dsimp only
    split
    · exact ih _
    · rw [map_cons, map_cons, ih]

lemma shardIdx_shardLoop (levels : List LevelMeta) : ∀ {levelIdx : ℕ} {current : List ℤ} {first : ℤ},
    ∀ plan ∈ (shardLoop mergeTag levelNum shardIdx levels levelIdx current first).1, plan.shardIdx = shardIdx := by
  induction levels with
  | nil => exact forall_mem_nil _
  | cons level levels ih =>
    intro levelIdx current first
    rw [shardLoop]
    split
    · exact ih
    dsimp only
    split
    · exact ih
    · exact forall_mem_cons.mpr ⟨rfl, ih⟩

lemma shardIdx_planShards {mergeTag : ℕ → ℕ → Bool} {levelZero : List ℤ} {levels : List LevelMeta} (shards : List ℕ) :
    ∀ {first : ℤ}, ∀ plan ∈ planShards mergeTag levelNum levelZero levels shards first, plan.shardIdx ∈ shards := by
  induction shards with
  | nil => exact forall_mem_nil _
  | cons shard shards ih =>
    intro first
    rw [planShards]
    refine forall_mem_append.mpr ⟨fun plan hmem => ?_, fun plan hmem => mem_cons_of_mem _ (ih plan hmem)⟩
    rw [shardIdx_shardLoop levels plan hmem]
    exact mem_cons_self

end

/-- The loop with the infos makes the plans of the strategy. -/
lemma targetInfos_sources (version : Version) (mergeTag : ℕ → ℕ → Bool) (lastMergeSegmentId : ℤ) {shardIdx : ℕ}
    (hshard : shardIdx < version.levels.getShardCount) :
    ((doCreateMergePlan version mergeTag lastMergeSegmentId).1.filter (·.shardIdx = shardIdx)).map
        SegmentMergePlan.srcSegments
      = (targetInfos infos version mergeTag shardIdx).map Prod.fst := by
  cases hlevels : version.levels with
  | nil => simp [doCreateMergePlan, targetInfos, hlevels]
  | cons levelZero levels =>
    have hmem := mem_range.mpr hshard
    have hnodup : (range version.levels.getShardCount).Nodup := nodup_range
    simp only [doCreateMergePlan, targetInfos, hlevels]
    rw [← hlevels]
    generalize range version.levels.getShardCount = shards at hmem hnodup ⊢
    induction shards generalizing lastMergeSegmentId with
    | nil => cases hmem
    | cons shard shards ih =>
      obtain ⟨hnot, hnodup⟩ := nodup_cons.mp hnodup
      rw [planShards, filter_append, map_append]
      rcases mem_cons.mp hmem with rfl | hmem
      · rw [filter_eq_self.mpr, infoLoop_sources infos, filter_eq_nil_iff.mpr, map_nil, append_nil]
        · intro plan hplan
          have := shardIdx_planShards shards plan hplan
          grind
        · intro plan hplan
          exact decide_eq_true (shardIdx_shardLoop levels plan hplan)
      · rw [filter_eq_nil_iff.mpr, map_nil, nil_append, ih _ hmem hnodup]
        intro plan hplan
        have := shardIdx_shardLoop levels plan hplan
        grind

/-- **The info of a target describes its own sources** exactly if no run of segments that the tags join before it in
its shard adds to it.  The sources are those of the plans that the strategy makes. -/
theorem targetInfos_describe_iff (infos : ℤ → SegmentInfo) (version : Version) (mergeTag : ℕ → ℕ → Bool)
    (lastMergeSegmentId : ℤ) : (∀ shardIdx < version.levels.getShardCount,
        (targetInfos infos version mergeTag shardIdx).map Prod.fst
          = ((doCreateMergePlan version mergeTag lastMergeSegmentId).1.filter (·.shardIdx = shardIdx)).map
            SegmentMergePlan.srcSegments)
      ∧ ((∀ shardIdx < version.levels.getShardCount, ∀ plan ∈ targetInfos infos version mergeTag shardIdx,
          Describes infos plan.1 plan.2)
        ↔ ∀ shardIdx < version.levels.getShardCount, AllClean infos [] (shardRuns version mergeTag shardIdx)) := by
  refine ⟨fun shardIdx hshard => (targetInfos_sources version mergeTag lastMergeSegmentId hshard).symm,
    forall₂_congr fun shardIdx _ => ?_⟩
  rw [targetInfos, shardRuns]
  split
  · simp [AllClean]
  rename_i levelZero levels _
  have hstart : Summed infos ([] ++ []) { mergedSegment := true } := ⟨rfl, rfl, rfl⟩
  have hzero := hstart.add (levelZero.segments.flatMap valid)
  dsimp only
  rw [runs, shardColumn, foldl_addSrcSegment_nil]
  exact forall_describes_iff levels (hzero.perm (reverse_perm _).symm)

/-- One shard whose levels 1 and 3 are merged down. -/
def twoMerges : Version :=
  ⟨[1, 2, 3, 4], [⟨0, .sequence, []⟩, ⟨0, .hashMod, [4]⟩, ⟨0, .hashMod, [3]⟩, ⟨0, .hashMod, [2]⟩, ⟨0, .hashMod, [1]⟩]⟩

/-- The second plan joins the segments 1 and 2, and counts the documents of all four. -/
theorem twoMerges_leaks :
    (targetInfos (fun id => { docCount := 10, timestamp := id }) twoMerges (fun levelIdx _ => levelIdx % 2 = 1) 0).map
        (fun plan => (plan.1, plan.2.docCount, plan.2.timestamp))
      = [([3, 4], 20, 4), ([1, 2], 40, 4)] := by
  decide

end Havenask.Table
