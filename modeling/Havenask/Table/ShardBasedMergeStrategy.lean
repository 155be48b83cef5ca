import Mathlib

/-!
# Merge plans by shard

`indexlib/table/index_task/merger/ShardBasedMergeStrategy.cpp`: an LSM tree has new segments on level 0 and
one slot for each shard on the levels below.  A merge tag says that a slot is merged into the level below; a
plan joins the segments of a shard down to the next slot without a tag.  `framework/LevelInfo.cpp` lists the
segments of a shard from new to old, and the mergers read the sources of a plan from its end to its start.

* **`doCreateMergePlan`**: the plans, and the version that they lead to.
* **`Version.Sound.createNewVersion`**: that version loses the sources and nothing else, although a segment of
  level 0 is removed once for each shard.
-/

namespace Havenask.Table

open List

/-- `INVALID_SEGMENTID`. -/
def invalidSegmentId : ℤ := -1

/-- `LevelTopology`. -/
inductive LevelTopology
  | sequence
  | hashMod
  | keyRange
deriving DecidableEq

structure LevelMeta where
  cursor : ℕ
  topology : LevelTopology
  segments : List ℤ
deriving DecidableEq

/-- The segment in a slot, if there is one. -/
def valid (segmentId : ℤ) : List ℤ := if segmentId = invalidSegmentId then [] else [segmentId]

namespace LevelMeta

def removeSegment (level : LevelMeta) (segmentId : ℤ) : LevelMeta :=
  { level with
    segments := match level.topology with
      | .hashMod => level.segments.replace segmentId invalidSegmentId
      | _ => level.segments.erase segmentId }

def slot (level : LevelMeta) (shardIdx : ℕ) : ℤ := level.segments.getD shardIdx invalidSegmentId

end LevelMeta

abbrev LevelInfo := List LevelMeta

namespace LevelInfo

def removeSegment (segmentId : ℤ) : LevelInfo → LevelInfo
  | [] => []
  | level :: levels =>
    if segmentId ∈ level.segments then level.removeSegment segmentId :: levels
    else level :: removeSegment segmentId levels

variable (levels : LevelInfo)

def getShardCount : ℕ :=
  levels.foldl (fun count level =>
    if level.topology = .hashMod then max count level.segments.length else count) 1

/-- The level part of `FindPosition`. -/
def findLevel (segmentId : ℤ) : ℕ := levels.findIdx fun level => segmentId ∈ level.segments

/-- `GetSegmentIds`: from new to old, where all levels have the same shards. -/
def getSegmentIds (shardId : ℕ) : List ℤ :=
  levels.flatMap fun level => match level.topology with
    | .hashMod => valid (level.slot shardId)
    | _ => level.segments.reverse

end LevelInfo

/-- The segments and the levels of a version. -/
structure Version where
  segments : List ℤ
  levels : LevelInfo

namespace Version

def removeSegment (version : Version) (segmentId : ℤ) : Version :=
  if segmentId ∈ version.segments then
    ⟨version.segments.erase segmentId, version.levels.removeSegment segmentId⟩
  else version

def addSegment (version : Version) (segmentId : ℤ) : Version :=
  { version with segments := (version.segments ++ [segmentId]).insertionSort (· ≤ ·) }

end Version

/-! ## Merge tags -/

/-- The loop of `GenerateMergeTag` over one level: slots are tagged from the cursor on until the level is
small enough.  The sizes of the level below grow with what is moved. -/
def tagLoop (threshold : ℕ) (sizes : List ℕ) : ℕ → ℕ → ℕ → List ℕ → List Bool → List ℕ × List Bool
  | 0, _, _, below, tags => (below, tags)
  | fuel + 1, cursor, levelSize, below, tags =>
    if threshold < levelSize then
      let size := sizes.getD cursor 0
      tagLoop threshold sizes fuel ((cursor + 1) % sizes.length) (levelSize - size)
        (below.modify cursor (· + size)) (tags.set cursor true)
    else (below, tags)

/-- The rows of the tags for the levels from 1 on.  `sizes` is what has come into the level, `below` are the
levels under it with their thresholds. -/
def tagRows (disableLastLevelMerge : Bool) (levels : List (ℕ × ℕ × List ℕ)) (sizes : List ℕ) : List (List Bool) :=
  match levels with
  | [] => [sizes.map fun _ => false]
  | (threshold, cursor, below) :: rest =>
    if disableLastLevelMerge && rest.isEmpty then
      [sizes.map fun _ => false, below.map fun _ => false]
    else
      let (below, tags) := tagLoop threshold sizes sizes.length cursor sizes.sum below (sizes.map fun _ => false)
      tags :: tagRows disableLastLevelMerge rest below

def tagAt (rows : List (List Bool)) (levelIdx shardIdx : ℕ) : Bool :=
  (rows.getD (levelIdx - 1) []).getD shardIdx false

/-- Nothing is merged out of the last level. -/
lemma tagAt_bottom (disableLastLevelMerge : Bool) (levels : List (ℕ × ℕ × List ℕ)) (sizes : List ℕ) (shardIdx : ℕ) :
    tagAt (tagRows disableLastLevelMerge levels sizes) (levels.length + 1) shardIdx = false := by
  rw [tagAt, Nat.add_sub_cancel]
  fun_induction tagRows disableLastLevelMerge levels sizes with
  | case1 sizes => simp [getD_eq_getElem?_getD]
  | case2 sizes threshold cursor below rest hlast =>
    obtain rfl : rest = [] := by simpa using (Bool.and_eq_true_iff.mp hlast).2
    simp [getD_eq_getElem?_getD]
  | case3 sizes threshold cursor below rest hlast below' tags htags ih => simpa using ih

/-! ## Plans -/

/-- `AddSrcSegment`: the sources are kept sorted. -/
def addSrcSegment (srcSegments : List ℤ) (segmentId : ℤ) : List ℤ :=
  (srcSegments ++ [segmentId]).insertionSort (· ≤ ·)

/-- A plan with its target, and where that is placed (`SegmentTopologyInfo`). -/
structure SegmentMergePlan where
  srcSegments : List ℤ
  target : ℤ
  levelIdx : ℕ
  isBottomLevel : Bool
  shardIdx : ℕ

/-- The loop over the levels of one shard, from `levelIdx` on; also the last id that was given. -/
def shardLoop (mergeTag : ℕ → Bool) (levelNum shardIdx : ℕ) :
    List LevelMeta → ℕ → List ℤ → ℤ → List SegmentMergePlan × ℤ
  | [], _, _, lastMergeSegmentId => ([], lastMergeSegmentId)
  | level :: levels, levelIdx, current, lastMergeSegmentId =>
    if !mergeTag levelIdx && current.isEmpty then
      shardLoop mergeTag levelNum shardIdx levels (levelIdx + 1) current lastMergeSegmentId
    else
      let current := (valid (level.slot shardIdx)).foldl addSrcSegment current
      if mergeTag levelIdx then
        shardLoop mergeTag levelNum shardIdx levels (levelIdx + 1) current lastMergeSegmentId
      else
        let (plans, last) := shardLoop mergeTag levelNum shardIdx levels (levelIdx + 1) []
          (lastMergeSegmentId + 1)
        (⟨current, lastMergeSegmentId + 1, levelIdx, levelIdx = levelNum - 1, shardIdx⟩ :: plans, last)

/-- The loop over the shards; each starts with the segments of level 0. -/
def planShards (mergeTag : ℕ → ℕ → Bool) (levelNum : ℕ) (levelZero : List ℤ) (levels : List LevelMeta) :
    List ℕ → ℤ → List SegmentMergePlan
  | [], _ => []
  | shardIdx :: rest, lastMergeSegmentId =>
    let (plans, last) := shardLoop (mergeTag · shardIdx) levelNum shardIdx levels 1
      ((levelZero.flatMap valid).foldl addSrcSegment []) lastMergeSegmentId
    plans ++ planShards mergeTag levelNum levelZero levels rest last

/-- `MergePlan::CreateNewVersion`, with the targets that were added so far. -/
def createNewVersion : List SegmentMergePlan → List ℤ → Version → Version
  | [], _, version => version
  | plan :: plans, addSegments, version =>
    let version := plan.srcSegments.foldl (fun version segmentId =>
      if segmentId ∈ addSegments then version else version.removeSegment segmentId) version
    createNewVersion plans (plan.target :: addSegments) (version.addSegment plan.target)

/-- The target of a plan takes its slot. -/
def place (levels : LevelInfo) (plan : SegmentMergePlan) : LevelInfo :=
  levels.modify plan.levelIdx fun level =>
    { level with segments := level.segments.set plan.shardIdx plan.target }

/-- The cursors of the levels that a plan empties move on. -/
def moveCursors (original levels : LevelInfo) (plan : SegmentMergePlan) : LevelInfo :=
  let positions := plan.srcSegments.map original.findLevel
  levels.mapIdx fun levelIdx level =>
    if 0 < levelIdx ∧ (∃ position ∈ positions, position ≤ levelIdx) ∧ ∃ position ∈ positions, levelIdx < position
    then { level with cursor := (level.cursor + 1) % level.segments.length } else level

def collectSegmentDescriptions (original : LevelInfo) (plans : List SegmentMergePlan) (levels : LevelInfo) :
    LevelInfo :=
  plans.foldl (moveCursors original) (plans.foldl place levels)

def doCreateMergePlan (version : Version) (mergeTag : ℕ → ℕ → Bool) (lastMergeSegmentId : ℤ) :
    List SegmentMergePlan × Version :=
  match version.levels with
  | [] => ([], version)
  | levelZero :: levels =>
    let plans := planShards mergeTag version.levels.length levelZero.segments levels
      (List.range version.levels.getShardCount) lastMergeSegmentId
    let target := createNewVersion plans [] version
    (plans, { target with levels := collectSegmentDescriptions version.levels plans target.levels })

/-- Whether a segment is a source of a plan. -/
def merged (plans : List SegmentMergePlan) (id : ℤ) : Bool := id ∈ plans.flatMap SegmentMergePlan.srcSegments

lemma merged_iff {plans : List SegmentMergePlan} {id : ℤ} :
    merged plans id = true ↔ ∃ plan ∈ plans, id ∈ plan.srcSegments := by
  rw [merged, decide_eq_true_eq, mem_flatMap]

/-! ## Removing segments -/

namespace LevelMeta

/-- A level without the segments that `p` selects. -/
def drop (p : ℤ → Bool) (level : LevelMeta) : LevelMeta :=
  { level with
    segments := match level.topology with
      | .hashMod => level.segments.map fun id => if p id then invalidSegmentId else id
      | _ => level.segments.filter (!p ·) }

def ids (level : LevelMeta) : List ℤ := level.segments.filter (· ≠ invalidSegmentId)

variable {level : LevelMeta} {p q : ℤ → Bool} {id : ℤ}

lemma mem_ids : id ∈ level.ids ↔ id ∈ level.segments ∧ id ≠ invalidSegmentId := by
  rw [ids, mem_filter, decide_eq_true_eq]

lemma drop_of_not_mem (h : ∀ id ∈ level.segments, p id = false) : level.drop p = level := by
  obtain ⟨cursor, topology, segments⟩ := level
  have hmap : (segments.map fun id => if p id then invalidSegmentId else id) = segments := by
    refine (map_congr_left fun id hmem => ?_).trans (map_id'' (fun _ => rfl) segments)
    rw [h id hmem, if_neg Bool.false_ne_true]
  have hfilter : segments.filter (!p ·) = segments :=
    filter_eq_self.mpr fun id hmem => by rw [h id hmem, Bool.not_false]
  cases topology with
  | hashMod => simp only [drop, hmap]
  | sequence => simp only [drop, hfilter]
  | keyRange => simp only [drop, hfilter]

lemma map_drop_of_not_mem {levels : LevelInfo} (h : ∀ level ∈ levels, ∀ id ∈ level.segments, p id = false) :
    levels.map (drop p) = levels :=
  (map_congr_left fun level hlevel => drop_of_not_mem (h level hlevel)).trans (map_id' levels)

lemma drop_drop : (level.drop p).drop q = level.drop fun id => p id || q id := by
  obtain ⟨cursor, topology, segments⟩ := level
  cases topology with
  | hashMod =>
    simp only [drop, map_map, LevelMeta.mk.injEq, true_and]
    apply map_congr_left
    intro id _
    rw [Function.comp_apply]
    by_cases hp : p id = true
    · simp [hp]
    · simp [hp]
  | sequence => simp [drop, filter_filter, Bool.and_comm]
  | keyRange => simp [drop, filter_filter, Bool.and_comm]

lemma ids_drop : (level.drop p).ids = level.ids.filter (!p ·) := by
  obtain ⟨cursor, topology, segments⟩ := level
  have hhash : (segments.map fun id => if p id then invalidSegmentId else id).filter (· ≠ invalidSegmentId)
      = (segments.filter (· ≠ invalidSegmentId)).filter (!p ·) := by
    induction segments with
    | nil => rfl
    | cons id segments ih =>
      rw [map_cons, filter_cons, filter_cons, ih]
      cases hp : p id <;> by_cases hid : id = invalidSegmentId <;> simp [hp, hid]
  cases topology with
  | hashMod => exact hhash
  | sequence => simp [drop, ids, filter_filter, Bool.and_comm]
  | keyRange => simp [drop, ids, filter_filter, Bool.and_comm]

/-- Where an id occurs once, the first occurrence is the only one. -/
lemma erase_replace_eq {segments : List ℤ} (hcount : segments.count id ≤ 1) :
    segments.erase id = segments.filter (fun other => !decide (other = id))
    ∧ segments.replace id invalidSegmentId
      = segments.map fun other => if decide (other = id) then invalidSegmentId else other := by
  induction segments with
  | nil => exact ⟨rfl, rfl⟩
  | cons other segments ih =>
    by_cases heq : other = id
    · subst heq
      have hnot : other ∉ segments := by
        rw [count_cons_self] at hcount
        exact count_eq_zero.mp (by omega)
      constructor
      · rw [erase_cons_head, filter_cons, if_neg (by simp)]
        symm
        rw [filter_eq_self]
        intro x hx
        simpa using ne_of_mem_of_not_mem hx hnot
      · rw [replace_cons_self, map_cons, if_pos (by simp)]
        congr 1
        symm
        refine (map_congr_left fun x hx => ?_).trans (map_id'' (fun _ => rfl) segments)
        rw [if_neg (by simpa using ne_of_mem_of_not_mem hx hnot)]
    · rw [count_cons_of_ne heq] at hcount
      obtain ⟨herase, hreplace⟩ := ih hcount
      have hbeq : (id == other) = false := by simpa using Ne.symm heq
      constructor
      · rw [erase_cons_tail (by simpa using heq), filter_cons, if_pos (by simpa using heq), herase]
      · rw [replace_cons, hbeq, map_cons, if_neg (by simpa using heq), hreplace]

lemma removeSegment_eq (hnodup : level.ids.Nodup) (hid : id ≠ invalidSegmentId) :
    level.removeSegment id = level.drop (· = id) := by
  have hcount : level.segments.count id ≤ 1 := by
    rw [← count_filter (p := (· ≠ invalidSegmentId)) (by simpa using hid)]
    exact nodup_iff_count_le_one.mp hnodup id
  obtain ⟨cursor, topology, segments⟩ := level
  obtain ⟨herase, hreplace⟩ := erase_replace_eq hcount
  cases topology with
  | hashMod => simp only [removeSegment, drop, hreplace]
  | sequence => simp only [removeSegment, drop, herase]
  | keyRange => simp only [removeSegment, drop, herase]

end LevelMeta

namespace LevelInfo

variable {levels : LevelInfo} {id : ℤ}

/-- All segments of the levels. -/
def ids (levels : LevelInfo) : List ℤ := levels.flatMap LevelMeta.ids

lemma ids_drop (p : ℤ → Bool) : ids (levels.map (LevelMeta.drop p)) = levels.ids.filter (!p ·) := by
  induction levels with
  | nil => rfl
  | cons level levels ih =>
    change (level.drop p).ids ++ ids (levels.map (LevelMeta.drop p)) = (level.ids ++ ids levels).filter _
    rw [ih, LevelMeta.ids_drop, filter_append]

/-- Ids are distinct, so only one level has the segment. -/
lemma removeSegment_eq (hnodup : levels.ids.Nodup) (hid : id ≠ invalidSegmentId) :
    levels.removeSegment id = levels.map (LevelMeta.drop (· = id)) := by
  induction levels with
  | nil => rfl
  | cons level levels ih =>
    obtain ⟨hlevel, hlevels, hdisjoint⟩ := nodup_append.mp (show (level.ids ++ ids levels).Nodup from hnodup)
    rw [removeSegment, map_cons]
    split_ifs with hmem
    · rw [LevelMeta.removeSegment_eq hlevel hid]
      congr 1
      refine (LevelMeta.map_drop_of_not_mem fun other hother id' hid' => ?_).symm
      rw [decide_eq_false_iff_not]
      rintro rfl
      exact hdisjoint id' (LevelMeta.mem_ids.mpr ⟨hmem, hid⟩) id'
        (mem_flatMap.mpr ⟨other, hother, LevelMeta.mem_ids.mpr ⟨hid', hid⟩⟩) rfl
    · rw [ih hlevels, LevelMeta.drop_of_not_mem]
      intro id' hid'
      rw [decide_eq_false_iff_not]
      rintro rfl
      exact hmem hid'

end LevelInfo

namespace Version

/-- Segments of the levels are distinct and belong to the version. -/
structure Sound (version : Version) : Prop where
  nodup : version.levels.ids.Nodup
  listed : ∀ id ∈ version.levels.ids, id ∈ version.segments

variable {version : Version}

lemma Sound.removeSegment (h : version.Sound) {id : ℤ} (hid : id ≠ invalidSegmentId) :
    (version.removeSegment id).levels = version.levels.map (LevelMeta.drop (· = id))
    ∧ (version.removeSegment id).Sound := by
  have hlevels : (version.removeSegment id).levels = version.levels.map (LevelMeta.drop (· = id)) := by
    rw [Version.removeSegment]
    split
    · exact LevelInfo.removeSegment_eq h.nodup hid
    rename_i hnot
    refine (LevelMeta.map_drop_of_not_mem fun level hlevel id' hid' => ?_).symm
    rw [decide_eq_false_iff_not]
    rintro rfl
    exact hnot (h.listed id' (mem_flatMap.mpr ⟨level, hlevel, LevelMeta.mem_ids.mpr ⟨hid', hid⟩⟩))
  refine ⟨hlevels, ?_, ?_⟩
  · rw [hlevels, LevelInfo.ids_drop]
    exact h.nodup.filter _
  intro id' hid'
  rw [hlevels, LevelInfo.ids_drop, mem_filter] at hid'
  have hne : id' ≠ id := by simpa using hid'.2
  rw [Version.removeSegment]
  split
  · exact (mem_erase_of_ne hne).mpr (h.listed id' hid'.1)
  · exact h.listed id' hid'.1

lemma Sound.addSegment (h : version.Sound) (id : ℤ) : (version.addSegment id).Sound := by
  refine ⟨h.nodup, fun id' hid' => ?_⟩
  rw [Version.addSegment, mem_insertionSort]
  exact mem_append_left _ (h.listed id' hid')

lemma Sound.removeAll {addSegments : List ℤ} (srcSegments : List ℤ) : ∀ {version : Version}, version.Sound →
    (∀ id ∈ srcSegments, id ≠ invalidSegmentId ∧ id ∉ addSegments) →
    (srcSegments.foldl (fun version id => if id ∈ addSegments then version else version.removeSegment id)
      version).levels = version.levels.map (LevelMeta.drop (· ∈ srcSegments))
    ∧ (srcSegments.foldl (fun version id => if id ∈ addSegments then version else version.removeSegment id)
      version).Sound := by
  induction srcSegments with
  | nil =>
    intro version h _
    exact ⟨(LevelMeta.map_drop_of_not_mem fun level _ id _ => by simp).symm, h⟩
  | cons id srcSegments ih =>
    intro version h hsrc
    obtain ⟨hid, hadd⟩ := hsrc id mem_cons_self
    obtain ⟨hlevels, hsound⟩ := h.removeSegment hid
    rw [foldl_cons, if_neg hadd]
    obtain ⟨hrest, hsound'⟩ := ih hsound fun id' hid' => hsrc id' (mem_cons_of_mem _ hid')
    refine ⟨?_, hsound'⟩
    rw [hrest, hlevels, map_map]
    apply map_congr_left
    intro level _
    rw [Function.comp_apply, LevelMeta.drop_drop]
    congr 1
    funext id'
    simp [mem_cons]

/-- The target version loses the sources and nothing else, however often each is removed. -/
lemma Sound.createNewVersion (plans : List SegmentMergePlan) : ∀ {addSegments : List ℤ} {version : Version},
    version.Sound → (∀ plan ∈ plans, ∀ id ∈ plan.srcSegments, id ≠ invalidSegmentId ∧ id ∉ addSegments
    ∧ ∀ plan' ∈ plans, id ≠ plan'.target) → (createNewVersion plans addSegments version).levels
    = version.levels.map (LevelMeta.drop (merged plans)) := by
  induction plans with
  | nil =>
    intro addSegments version h _
    exact (LevelMeta.map_drop_of_not_mem fun level _ id _ => by simp [merged]).symm
  | cons plan plans ih =>
    intro addSegments version h hsrc
    obtain ⟨hlevels, hsound⟩ := h.removeAll plan.srcSegments fun id hid =>
      show id ≠ invalidSegmentId ∧ id ∉ addSegments from ⟨(hsrc plan mem_cons_self id hid).1, (hsrc plan mem_cons_self id hid).2.1⟩
    rw [Table.createNewVersion, ih (hsound.addSegment _)]
    · rw [Version.addSegment, hlevels, map_map]
      apply map_congr_left
      intro level _
      rw [Function.comp_apply, LevelMeta.drop_drop]
      congr 1
      funext id'
      simp [merged, mem_append]
    · intro plan' hplan' id hid
      obtain ⟨hinvalid, hadd, htarget⟩ := hsrc plan' (mem_cons_of_mem _ hplan') id hid
      refine ⟨hinvalid, ?_, fun plan'' hplan'' => htarget plan'' (mem_cons_of_mem _ hplan'')⟩
      rw [mem_cons, not_or]
      exact ⟨htarget plan mem_cons_self, hadd⟩

end Version

end Havenask.Table
