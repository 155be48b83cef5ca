import Havenask.Table.ShardBasedMergeStrategy

/-!
# The age order of a shard under a merge plan

The tags of a shard cut its segments, from new to old, into runs: level 0 and the slots down to the first one
without a tag, and after that each tagged slot with the ones below it.  A run becomes the target on its last
level.

* **`column`**: level by level, what the slot of the target version stands for.
* **`mergePlan_ordered_iff`**: replacing targets by their sources gives the old order exactly where the ids of
  each run fall, because the sources of a plan are kept sorted by id.
-/

namespace Havenask.Table

open List LevelMeta

/-- What the slot of a level becomes: it stays, it is merged down, or it takes the target of a run. -/
inductive Piece
  | kept (segmentId : ℤ)
  | emptied
  | target (run : List ℤ)

namespace Piece

/-- The old segments that a slot stands for, from new to old. -/
def segments : Piece → List ℤ
  | kept segmentId => valid segmentId
  | emptied => []
  | target run => run

/-- The old segments in the order in which the target's plan lists them, from its end. -/
def planned : Piece → List ℤ
  | target run => (run.insertionSort (· ≤ ·)).reverse
  | piece => piece.segments

def run? : Piece → Option (List ℤ)
  | target run => some run
  | _ => none

end Piece

/-- The slots of a shard from `levelIdx` on, after a run has come down to there. -/
def column (mergeTag : ℕ → Bool) : List ℤ → ℕ → List ℤ → List Piece
  | [], _, _ => []
  | slot :: slots, levelIdx, run =>
    if !mergeTag levelIdx && run.isEmpty then .kept slot :: column mergeTag slots (levelIdx + 1) run
    else if mergeTag levelIdx then .emptied :: column mergeTag slots (levelIdx + 1) (run ++ valid slot)
    else .target (run ++ valid slot) :: column mergeTag slots (levelIdx + 1) []

section
variable {mergeTag : ℕ → Bool} {slots run : List ℤ} {levelIdx k : ℕ} {id : ℤ}

/-- Nothing is tagged on the last level. -/
def Bottom (mergeTag : ℕ → Bool) (slots : List ℤ) (levelIdx : ℕ) : Prop :=
  ∀ n, slots.length = n + 1 → mergeTag (levelIdx + n) = false

@[grind →] lemma Bottom.tail {slot : ℤ} (h : Bottom mergeTag (slot :: slots) levelIdx) :
    Bottom mergeTag slots (levelIdx + 1) := fun n hn => by
  have := h (n + 1) (by simp [hn])
  rwa [show levelIdx + 1 + n = levelIdx + (n + 1) by omega]

@[grind →] lemma Bottom.ne_nil {slot : ℤ} (h : Bottom mergeTag (slot :: slots) levelIdx)
    (htag : mergeTag levelIdx = true) : slots ≠ [] := by
  rintro rfl
  have := h 0 rfl
  simp_all

@[simp] lemma length_column : (column mergeTag slots levelIdx run).length = slots.length := by
  fun_induction column mergeTag slots levelIdx run <;> simp_all

section
variable (hbottom : Bottom mergeTag slots levelIdx)
include hbottom

/-- Each run ends in a target, so the column stands for what came down and for the slots. -/
lemma flatMap_column (hne : slots = [] → run = []) :
      (column mergeTag slots levelIdx run).flatMap Piece.segments = run ++ slots.flatMap valid := by
  fun_induction column mergeTag slots levelIdx run with
  | case1 => simp [hne rfl]
  | case2 => grind [Piece.segments]
  | case3 => grind [Piece.segments]
  | case4 => grind [Piece.segments]

lemma mem_target_of_mem_run (hne : slots ≠ []) (hmem : id ∈ run) :
    ∃ run', .target run' ∈ column mergeTag slots levelIdx run ∧ id ∈ run' := by
  fun_induction column mergeTag slots levelIdx run with
  | case1 => grind
  | case2 => grind
  | case3 slot slots levelIdx run hskip htag ih =>
    obtain ⟨run', hrun', hid⟩ := ih hbottom.tail (hbottom.ne_nil htag) (mem_append_left _ hmem)
    exact ⟨run', mem_cons_of_mem _ hrun', hid⟩
  | case4 => grind

/-- A slot that is emptied had no segment, or its segment ends in a target. -/
lemma emptied_cases {slot : ℤ}
    (hpiece : (column mergeTag slots levelIdx run)[k]? = some .emptied) (hslot : slots[k]? = some slot) :
    slot = invalidSegmentId ∨ ∃ run', .target run' ∈ column mergeTag slots levelIdx run ∧ slot ∈ run' := by
  fun_induction column mergeTag slots levelIdx run generalizing k with
  | case1 => grind
  | case2 => grind
  | case3 first slots levelIdx run hskip htag ih =>
    have htarget : slot ∈ run ++ valid first → _ := mem_target_of_mem_run hbottom.tail (hbottom.ne_nil htag)
    grind [valid]
  | case4 => grind

end

lemma kept_eq (h : (column mergeTag slots levelIdx run)[k]? = some (.kept id)) : slots[k]? = some id := by
  fun_induction column mergeTag slots levelIdx run generalizing k <;> grind

end

/-! ## The plans of a shard -/

lemma foldl_addSrcSegment (ids run : List ℤ) :
    ids.foldl addSrcSegment (run.insertionSort (· ≤ ·)) = (run ++ ids).insertionSort (· ≤ ·) := by
  induction ids generalizing run with
  | nil => rw [append_nil]; rfl
  | cons id ids ih =>
    have hone : addSrcSegment (run.insertionSort (· ≤ ·)) id = (run ++ [id]).insertionSort (· ≤ ·) := by
      apply Perm.eq_of_pairwise' (pairwise_insertionSort _ _) (pairwise_insertionSort _ _)
      refine (perm_insertionSort _ _).trans (.trans ?_ (perm_insertionSort _ _).symm)
      exact (perm_insertionSort _ _).append_right _
    rw [foldl_cons, hone, ih, ← append_cons]

lemma foldl_addSrcSegment_nil (ids : List ℤ) : ids.foldl addSrcSegment [] = ids.reverse.insertionSort (· ≤ ·) := by
  rw [show ([] : List ℤ) = [].insertionSort (· ≤ ·) from rfl, foldl_addSrcSegment]
  apply Perm.eq_of_pairwise' (pairwise_insertionSort _ _) (pairwise_insertionSort _ _)
  exact (perm_insertionSort _ _).trans ((reverse_perm _).symm.trans (perm_insertionSort _ _).symm)

/-- The plans of a shard, told by its column: one for each target. -/
structure Plans (levelNum shardIdx levelIdx : ℕ) (pieces : List Piece)
    (first last : ℤ) (plans : List SegmentMergePlan) : Prop where
  of_plan : ∀ plan ∈ plans, first < plan.target ∧ plan.target ≤ last ∧ plan.shardIdx = shardIdx
    ∧ (plan.isBottomLevel = true ↔ plan.levelIdx = levelNum - 1)
    ∧ ∃ k run, pieces[k]? = some (.target run) ∧ plan.levelIdx = levelIdx + k
      ∧ plan.srcSegments = run.insertionSort (· ≤ ·)
  of_target : ∀ k run, pieces[k]? = some (.target run) →
    ∃ plan ∈ plans, plan.levelIdx = levelIdx + k ∧ plan.srcSegments = run.insertionSort (· ≤ ·)
  increasing : plans.Pairwise fun plan plan' => plan.target < plan'.target ∧ plan.levelIdx < plan'.levelIdx
  bounds : first ≤ last ∧ last ≤ first + pieces.length

variable {levelNum shardIdx levelIdx : ℕ} {pieces : List Piece}

lemma Plans.cons {piece : Piece} {first last : ℤ} {plans : List SegmentMergePlan}
    (h : Plans levelNum shardIdx (levelIdx + 1) pieces first last plans) (hpiece : ∀ run, piece ≠ .target run) :
    Plans levelNum shardIdx levelIdx (piece :: pieces) first last plans := by
  obtain ⟨hplan, htarget, hincreasing, hbounds⟩ := h
  refine ⟨fun plan hmem => ?_, fun k run hrun => ?_, hincreasing, by grind⟩
  · obtain ⟨h1, h2, h3, h4, k, run, h5, h6, h7⟩ := hplan plan hmem
    exact ⟨h1, h2, h3, h4, k + 1, run, h5, by omega, h7⟩
  cases k with
  | zero => grind
  | succ k => grind

lemma Plans.cons_target {first last : ℤ} {plans : List SegmentMergePlan}
    (h : Plans levelNum shardIdx (levelIdx + 1) pieces (first + 1) last plans) (run : List ℤ) :
    Plans levelNum shardIdx levelIdx (.target run :: pieces) first last
      (⟨run.insertionSort (· ≤ ·), first + 1, levelIdx, levelIdx = levelNum - 1, shardIdx⟩ :: plans) := by
  obtain ⟨hplan, htarget, hincreasing, hbounds⟩ := h
  refine ⟨fun plan hmem => ?_, fun k run' hrun => ?_, pairwise_cons.mpr ⟨fun plan hmem => ?_, hincreasing⟩,
    by grind⟩
  · rcases mem_cons.mp hmem with rfl | hmem
    · exact ⟨by grind, by grind, rfl, by simp, 0, run, rfl, rfl, rfl⟩
    · obtain ⟨h1, h2, h3, h4, k, run, h5, h6, h7⟩ := hplan plan hmem
      exact ⟨by omega, h2, h3, h4, k + 1, run, h5, by omega, h7⟩
  · cases k with
    | zero => exact ⟨_, mem_cons_self, rfl, by simp_all⟩
    | succ k => grind
  · obtain ⟨hfirst, -, -, -, k, run, -, hidx, -⟩ := hplan plan hmem
    exact ⟨hfirst, by dsimp only; omega⟩

lemma plans_shardLoop (mergeTag : ℕ → Bool) (levelNum shardIdx : ℕ) (levels : List LevelMeta) (levelIdx : ℕ)
    (run : List ℤ) (first : ℤ) :
      Plans levelNum shardIdx levelIdx (column mergeTag (levels.map (·.slot shardIdx)) levelIdx run) first
        (shardLoop mergeTag levelNum shardIdx levels levelIdx (run.insertionSort (· ≤ ·)) first).2
        (shardLoop mergeTag levelNum shardIdx levels levelIdx (run.insertionSort (· ≤ ·)) first).1 := by
  induction levels generalizing levelIdx run first with
  | nil => exact ⟨by simp [shardLoop], by simp [column], Pairwise.nil, by simp [shardLoop, column]⟩
  | cons level levels ih =>
    have hempty : (run.insertionSort (· ≤ ·)).isEmpty = run.isEmpty := by
      rw [Bool.eq_iff_iff, isEmpty_iff_length_eq_zero, isEmpty_iff_length_eq_zero, length_insertionSort]
    rw [shardLoop, hempty, foldl_addSrcSegment, map_cons, column]
    split
    · exact (ih ..).cons (by simp)
    split
    · exact (ih ..).cons (by simp)
    · exact (ih (levelIdx + 1) [] (first + 1)).cons_target _

/-! ## The plans of all shards -/

/-- The column of a shard, with level 0 coming down from the top. -/
def shardColumn (mergeTag : ℕ → ℕ → Bool) (levelZero : LevelMeta) (levels : List LevelMeta) (shardIdx : ℕ) :
    List Piece :=
  column (mergeTag · shardIdx) (levels.map (·.slot shardIdx)) 1 levelZero.segments.reverse

/-- The plans, told by the columns of their shards. -/
structure AllPlans (columns : ℕ → List Piece) (levelNum : ℕ) (shards : List ℕ) (first last : ℤ)
    (plans : List SegmentMergePlan) : Prop where
  of_plan : ∀ plan ∈ plans, first < plan.target ∧ plan.target ≤ last ∧ plan.shardIdx ∈ shards
    ∧ (plan.isBottomLevel = true ↔ plan.levelIdx = levelNum - 1)
    ∧ ∃ k run, (columns plan.shardIdx)[k]? = some (.target run) ∧ plan.levelIdx = 1 + k
      ∧ plan.srcSegments = run.insertionSort (· ≤ ·)
  of_target : ∀ shardIdx ∈ shards, ∀ k run, (columns shardIdx)[k]? = some (.target run) →
    ∃ plan ∈ plans, plan.shardIdx = shardIdx ∧ plan.levelIdx = 1 + k
      ∧ plan.srcSegments = run.insertionSort (· ≤ ·)
  distinct : plans.Pairwise fun plan plan' =>
    plan.target ≠ plan'.target ∧ ¬ (plan.levelIdx = plan'.levelIdx ∧ plan.shardIdx = plan'.shardIdx)

section
variable {levelZero : LevelMeta}

lemma flatMap_valid {segments : List ℤ} (h : ∀ id ∈ segments, id ≠ invalidSegmentId) :
    segments.flatMap valid = segments := by
  induction segments with
  | nil => rfl
  | cons id segments ih => grind [valid]

lemma allPlans_planShards (mergeTag : ℕ → ℕ → Bool) (levelNum : ℕ) (levels : List LevelMeta)
    (hzero : ∀ id ∈ levelZero.segments, id ≠ invalidSegmentId) (shards : List ℕ) (hnodup : shards.Nodup) (first : ℤ) :
    AllPlans (shardColumn mergeTag levelZero levels) levelNum shards first (first + shards.length * levels.length)
      (planShards mergeTag levelNum levelZero.segments levels shards first) := by
  have hstart : (levelZero.segments.flatMap valid).foldl addSrcSegment []
      = levelZero.segments.reverse.insertionSort (· ≤ ·) := by rw [flatMap_valid hzero, foldl_addSrcSegment_nil]
  induction shards generalizing first with
  | nil => exact ⟨by simp [planShards], by simp, Pairwise.nil⟩
  | cons shardIdx shards ih =>
    have hone := plans_shardLoop (mergeTag · shardIdx) levelNum shardIdx levels 1 levelZero.segments.reverse first
    obtain ⟨hnot, hnodup⟩ := nodup_cons.mp hnodup
    rw [planShards, hstart]
    generalize shardLoop (mergeTag · shardIdx) levelNum shardIdx levels 1
      (levelZero.segments.reverse.insertionSort (· ≤ ·)) first = result at hone ⊢
    obtain ⟨plans, last⟩ := result
    obtain ⟨hplan, htarget, hincreasing, hbounds⟩ := hone
    obtain ⟨hplan', htarget', hdistinct⟩ := ih hnodup last
    rw [length_column, length_map] at hbounds
    have htotal : ((shardIdx :: shards).length * levels.length : ℤ)
        = levels.length + shards.length * levels.length := by rw [length_cons]; push_cast; ring
    refine ⟨fun plan hmem => ?_, fun shardIdx' hshard k run hrun => ?_, ?_⟩
    · rw [htotal]
      rcases mem_append.mp hmem with hmem | hmem
      · obtain ⟨h1, h2, rfl, h4, h5⟩ := hplan plan hmem
        exact ⟨h1, by dsimp only at h2; nlinarith, mem_cons_self, h4, h5⟩
      · obtain ⟨h1, h2, h3, h4⟩ := hplan' plan hmem
        exact ⟨by dsimp only at hbounds; omega, by dsimp only at hbounds; omega, mem_cons_of_mem _ h3, h4⟩
    · rcases mem_cons.mp hshard with rfl | hshard
      · obtain ⟨plan, hmem, hidx, hsrc⟩ := htarget k run hrun
        exact ⟨plan, mem_append_left _ hmem, (hplan plan hmem).2.2.1, hidx, hsrc⟩
      · obtain ⟨plan, hmem, hfound⟩ := htarget' shardIdx' hshard k run hrun
        exact ⟨plan, mem_append_right _ hmem, hfound⟩
    · refine pairwise_append.mpr ⟨hincreasing.imp (by grind), hdistinct, ?_⟩
      intro plan hmem plan' hmem'
      obtain ⟨-, hlast, hshard, -⟩ := hplan plan hmem
      obtain ⟨hfirst, -, hshard', -⟩ := hplan' plan' hmem'
      grind

end

/-! ## Placing the targets -/

/-- The segment in a slot of a level. -/
def slotAt (levels : LevelInfo) (levelIdx shardIdx : ℕ) : ℤ :=
  ((levels[levelIdx]?).map (·.slot shardIdx)).getD invalidSegmentId

def HasSlot (levels : LevelInfo) (levelIdx shardIdx : ℕ) : Prop :=
  ∃ level, levels[levelIdx]? = some level ∧ shardIdx < level.segments.length

section
variable {levels : LevelInfo} {plan : SegmentMergePlan} {levelIdx shardIdx : ℕ}

lemma slotAt_place (levelIdx shardIdx : ℕ) (hslot : HasSlot levels plan.levelIdx plan.shardIdx) :
    slotAt (place levels plan) levelIdx shardIdx
    = if plan.levelIdx = levelIdx ∧ plan.shardIdx = shardIdx then plan.target
      else slotAt levels levelIdx shardIdx := by
  obtain ⟨level, hlevel, hroom⟩ := hslot
  rw [slotAt, slotAt, place, getElem?_modify]
  by_cases hidx : plan.levelIdx = levelIdx
  · subst hidx
    by_cases hshard : plan.shardIdx = shardIdx
    · subst hshard
      simp [hlevel, slot, hroom]
    · simp [hlevel, slot, hshard]
  · simp [hidx]

lemma hasSlot_place (plan : SegmentMergePlan) (h : HasSlot levels levelIdx shardIdx) :
    HasSlot (place levels plan) levelIdx shardIdx := by
  obtain ⟨level, hlevel, hroom⟩ := h
  rw [HasSlot, place, getElem?_modify, hlevel]
  refine ⟨_, rfl, ?_⟩
  dsimp only
  split
  · rwa [length_set]
  · exact hroom

lemma slotAt_foldl_place {plans : List SegmentMergePlan}
    (hslots : ∀ plan ∈ plans, HasSlot levels plan.levelIdx plan.shardIdx)
    (hdistinct : plans.Pairwise fun plan plan' => plan.target ≠ plan'.target
    ∧ ¬ (plan.levelIdx = plan'.levelIdx ∧ plan.shardIdx = plan'.shardIdx)) :
    (∀ plan ∈ plans, plan.levelIdx = levelIdx → plan.shardIdx = shardIdx →
      slotAt (plans.foldl place levels) levelIdx shardIdx = plan.target)
    ∧ ((∀ plan ∈ plans, ¬ (plan.levelIdx = levelIdx ∧ plan.shardIdx = shardIdx)) →
      slotAt (plans.foldl place levels) levelIdx shardIdx = slotAt levels levelIdx shardIdx) := by
  induction plans generalizing levels with
  | nil => simp
  | cons plan plans ih =>
    obtain ⟨hhead, htail⟩ := pairwise_cons.mp hdistinct
    obtain ⟨hplaced, hother⟩ := ih
      (fun plan' hmem => hasSlot_place plan (hslots plan' (mem_cons_of_mem _ hmem))) htail
    have hslot := slotAt_place levelIdx shardIdx (hslots plan mem_cons_self)
    rw [foldl_cons]
    grind

/-- Level 0 takes no target, and no level changes its topology. -/
lemma foldl_place_cons {plans : List SegmentMergePlan} (hidx : ∀ plan ∈ plans, 0 < plan.levelIdx)
    (levels : LevelInfo) (levelZero : LevelMeta) :
    ∃ levels' : LevelInfo, plans.foldl place (levelZero :: levels) = levelZero :: levels'
    ∧ levels'.map topology = levels.map topology := by
  induction plans generalizing levels with
  | nil => exact ⟨levels, rfl, rfl⟩
  | cons plan plans ih =>
    obtain ⟨levelIdx, hlevelIdx⟩ := Nat.exists_eq_succ_of_ne_zero (hidx plan mem_cons_self).ne'
    obtain ⟨levels', hfold, htopology⟩ := ih
      (fun plan' hmem => hidx plan' (mem_cons_of_mem _ hmem)) (levels.modify levelIdx fun level =>
        { level with segments := level.segments.set plan.shardIdx plan.target })
    refine ⟨levels', by rw [foldl_cons, place, hlevelIdx, modify_succ_cons, hfold],
      htopology.trans (ext_getElem? fun k => ?_)⟩
    rw [getElem?_map, getElem?_map, getElem?_modify]
    split <;> cases levels[k]? <;> rfl

lemma segments_moveCursors (original : LevelInfo) (plans : List SegmentMergePlan) :
    (plans.foldl (moveCursors original) levels).map (fun level => (level.topology, level.segments))
    = levels.map fun level => (level.topology, level.segments) := by
  induction plans generalizing levels with
  | nil => rfl
  | cons plan plans ih =>
    rw [foldl_cons, ih, moveCursors]
    apply ext_getElem (by simp)
    intro k hk hk'
    simp only [getElem_map, getElem_mapIdx]
    split_ifs <;> rfl

lemma getSegmentIds_congr {levels' : LevelInfo} (shardIdx levelIdx : ℕ)
    (h : levels'.map (fun level => (level.topology, level.segments))
    = levels.map fun level => (level.topology, level.segments)) :
    levels'.getSegmentIds shardIdx = levels.getSegmentIds shardIdx
    ∧ slotAt levels' levelIdx shardIdx = slotAt levels levelIdx shardIdx := by
  constructor
  · have hone : ∀ levels : LevelInfo, levels.getSegmentIds shardIdx
        = (levels.map fun level => (level.topology, level.segments)).flatMap fun level =>
          LevelInfo.getSegmentIds [⟨0, level.1, level.2⟩] shardIdx := by
      intro levels
      rw [flatMap_map]
      exact flatMap_congr fun level _ => (append_nil _).symm
    rw [hone, hone, h]
  · have := congrArg (fun l => ((l[levelIdx]?).map fun level : LevelTopology × List ℤ =>
      level.2.getD shardIdx invalidSegmentId).getD invalidSegmentId) h
    simp only [getElem?_map, Option.map_map] at this
    exact this

end

/-! ## The order of the target version -/

/-- Levels of hash topology: new segments on level 0, and one slot for each shard on at least one level below.
All segments are distinct and belong to the version. -/
structure HashLevels (version : Version) (levelZero : LevelMeta) (levels : List LevelMeta) : Prop where
  levels_eq : version.levels = levelZero :: levels
  levels_ne : levels ≠ []
  zero_topology : levelZero.topology = .sequence
  zero_valid : ∀ id ∈ levelZero.segments, id ≠ invalidSegmentId
  topology : ∀ level ∈ levels, level.topology = .hashMod
  shards : ∀ level ∈ levels, level.segments.length = version.levels.getShardCount
  sound : version.Sound

/-- Targets replaced by their sources, from new to old: the mergers read a plan from its end. -/
def expand (plans : List SegmentMergePlan) (ids : List ℤ) : List ℤ :=
  ids.flatMap fun id => ((plans.find? (·.target = id)).map (·.srcSegments.reverse)).getD [id]

/-- What the tags join in a shard. -/
def runs (mergeTag : ℕ → ℕ → Bool) (levelZero : LevelMeta) (levels : List LevelMeta) (shardIdx : ℕ) : List (List ℤ) :=
  (shardColumn mergeTag levelZero levels shardIdx).filterMap Piece.run?

lemma getShardCount_pos (levels : LevelInfo) : 0 < levels.getShardCount := by
  rw [LevelInfo.getShardCount]
  generalize hstart : (1 : ℕ) = start
  replace hstart : 0 < start := by omega
  induction levels generalizing start with
  | nil => exact hstart
  | cons level levels ih => exact ih _ (by dsimp only; split <;> omega)

lemma mem_valid {id id' : ℤ} : id ∈ valid id' ↔ id = id' ∧ id ≠ invalidSegmentId := by
  grind [valid]

variable {level : LevelMeta}

lemma LevelMeta.slot_mem {shardIdx : ℕ} (h : level.slot shardIdx ≠ invalidSegmentId) :
    level.segments[shardIdx]? = some (level.slot shardIdx) ∧ level.slot shardIdx ∈ level.ids := by
  rw [mem_ids]
  grind [slot]

lemma bottom_of_untagged {mergeTag : ℕ → ℕ → Bool} {levels : List LevelMeta}
    (hbottom : ∀ shardIdx, mergeTag levels.length shardIdx = false) (shardIdx : ℕ) :
    Bottom (mergeTag · shardIdx) (levels.map (·.slot shardIdx)) 1 := fun n hn => by
  rw [length_map] at hn
  rw [Nat.add_comm, ← hn]
  exact hbottom shardIdx

namespace HashLevels

variable {version : Version} {levelZero : LevelMeta} {levels : List LevelMeta} {mergeTag : ℕ → ℕ → Bool}
  {shardIdx : ℕ}

section
variable (h : HashLevels version levelZero levels)
include h

lemma getSegmentIds_eq (shardIdx : ℕ) : version.levels.getSegmentIds shardIdx
    = levelZero.segments.reverse ++ (levels.map (·.slot shardIdx)).flatMap valid := by
  rw [h.levels_eq, LevelInfo.getSegmentIds, flatMap_cons, h.zero_topology, flatMap_map]
  congr 1
  apply flatMap_congr
  intro level hlevel
  rw [h.topology level hlevel]

lemma flatMap_shardColumn (hbottom : ∀ shardIdx, mergeTag levels.length shardIdx = false) (shardIdx : ℕ) :
    (shardColumn mergeTag levelZero levels shardIdx).flatMap Piece.segments
    = version.levels.getSegmentIds shardIdx := by
  rw [shardColumn, h.getSegmentIds_eq, flatMap_column (bottom_of_untagged hbottom shardIdx)]
  exact fun hnil => absurd (map_eq_nil_iff.mp hnil) h.levels_ne

lemma ids_eq : version.levels.ids = levelZero.segments ++ levels.flatMap ids := by
  rw [h.levels_eq, LevelInfo.ids, flatMap_cons]
  congr 1
  exact filter_eq_self.mpr fun id hid => by simpa using h.zero_valid id hid

lemma nodup (shardIdx : ℕ) : (version.levels.getSegmentIds shardIdx).Nodup := by
  have hsub : ∀ levels : List LevelMeta, ((levels.map (·.slot shardIdx)).flatMap valid).Sublist
      (levels.flatMap ids) := by
    intro levels
    induction levels with
    | nil => exact Sublist.refl _
    | cons level levels ih =>
      refine Sublist.append ?_ ih
      rw [valid]
      split
      · exact nil_sublist _
      · rename_i hvalid
        exact singleton_sublist.mpr (slot_mem hvalid).2
  rw [h.getSegmentIds_eq]
  refine ((reverse_perm _).append_right _).nodup_iff.mpr (Nodup.sublist ?_ h.sound.nodup)
  rw [h.ids_eq]
  exact (Sublist.refl _).append (hsub levels)

lemma mem_ids {id : ℤ} (shardIdx : ℕ)
    (hid : id ∈ version.levels.getSegmentIds shardIdx) : id ∈ version.levels.ids := by
  rw [h.getSegmentIds_eq, flatMap_map, mem_append, mem_reverse] at hid
  rw [h.ids_eq, mem_append]
  refine hid.imp_right fun hin => ?_
  obtain ⟨level, hlevel, hin⟩ := mem_flatMap.mp hin
  obtain ⟨rfl, hvalid⟩ := mem_valid.mp hin
  exact mem_flatMap.mpr ⟨level, hlevel, (slot_mem hvalid).2⟩

/-- A segment in a slot belongs to the shard of the slot only. -/
lemma shard_eq {shardIdx' : ℕ} (hlevel : level ∈ levels) (hvalid : level.slot shardIdx ≠ invalidSegmentId)
    (hid : level.slot shardIdx ∈ version.levels.getSegmentIds shardIdx') : shardIdx' = shardIdx := by
  have hnodup := h.sound.nodup
  rw [h.ids_eq, nodup_append, nodup_flatMap] at hnodup
  obtain ⟨-, ⟨hlevels, hdisjoint⟩, hzero⟩ := hnodup
  have hslot := slot_mem hvalid
  rw [h.getSegmentIds_eq, flatMap_map, mem_append, mem_reverse] at hid
  rcases hid with hid | hid
  · exact absurd rfl (hzero _ hid _ (mem_flatMap.mpr ⟨level, hlevel, hslot.2⟩))
  obtain ⟨level', hlevel', hin⟩ := mem_flatMap.mp hid
  obtain ⟨heq, -⟩ := mem_valid.mp hin
  have hslot' := slot_mem (heq ▸ hvalid)
  have hsame : level = level' := by
    by_contra hne
    have hsymm : Std.Symm (Function.onFun Disjoint ids) := ⟨fun _ _ hd => hd.symm⟩
    exact hdisjoint.forall hlevel hlevel' hne hslot.2 (heq ▸ hslot'.2)
  subst hsame
  -- two slots of a level with one segment would be two occurrences of it
  have hcount : level.segments.count (level.slot shardIdx) ≤ 1 := by
    rw [← count_filter (p := (· ≠ invalidSegmentId)) (by simpa using hvalid)]
    exact nodup_iff_count_le_one.mp (hlevels level hlevel) _
  obtain ⟨hlt, hval⟩ := List.getElem?_eq_some_iff.mp hslot.1
  obtain ⟨hlt', hval'⟩ := List.getElem?_eq_some_iff.mp hslot'.1
  by_contra hne
  have hdup : Duplicate (level.slot shardIdx) level.segments := by
    rw [duplicate_iff_exists_distinct_get]
    rcases lt_or_gt_of_ne hne with hlt'' | hgt
    · exact ⟨⟨shardIdx', hlt'⟩, ⟨shardIdx, hlt⟩, hlt'', heq.trans hval'.symm, hval.symm⟩
    · exact ⟨⟨shardIdx, hlt⟩, ⟨shardIdx', hlt'⟩, hgt, hval.symm, heq.trans hval'.symm⟩
  have := duplicate_iff_two_le_count.mp hdup
  omega

end

end HashLevels

/-- The plans of a version with hash levels, and targets that are new. -/
structure Planned (version : Version) (levelZero : LevelMeta) (levels : List LevelMeta)
    (mergeTag : ℕ → ℕ → Bool) (first last : ℤ) (plans : List SegmentMergePlan) : Prop
    extends AllPlans (shardColumn mergeTag levelZero levels) version.levels.length
      (range version.levels.getShardCount) first last plans where
  hash : HashLevels version levelZero levels
  untagged : ∀ shardIdx, mergeTag levels.length shardIdx = false
  neg_one_le : -1 ≤ first
  fresh : ∀ plan ∈ plans, plan.target ∉ version.levels.ids

/-- The levels of the target version before their cursors move. -/
def targetLevels (levelZero : LevelMeta) (levels : List LevelMeta) (plans : List SegmentMergePlan) : LevelInfo :=
  plans.foldl place ((levelZero :: levels).map (LevelMeta.drop (merged plans)))

namespace Planned

variable {version : Version} {levelZero : LevelMeta} {levels : List LevelMeta} {mergeTag : ℕ → ℕ → Bool}
  {shardIdx : ℕ} {first last : ℤ} {plans : List SegmentMergePlan}

section
variable (h : Planned version levelZero levels mergeTag first last plans)
include h

lemma mem_old {plan : SegmentMergePlan} (hplan : plan ∈ plans) {id : ℤ} (hid : id ∈ plan.srcSegments) :
    id ∈ version.levels.getSegmentIds plan.shardIdx
    ∧ ∃ run, .target run ∈ shardColumn mergeTag levelZero levels plan.shardIdx ∧ id ∈ run := by
  obtain ⟨-, -, -, -, k, run, hpiece, -, hsrc⟩ := h.of_plan plan hplan
  rw [hsrc, mem_insertionSort] at hid
  refine ⟨?_, run, mem_of_getElem? hpiece, hid⟩
  rw [← h.hash.flatMap_shardColumn h.untagged]
  exact mem_flatMap.mpr ⟨_, mem_of_getElem? hpiece, hid⟩

lemma merged_of_target {id : ℤ} {run : List ℤ} (hshard : shardIdx < version.levels.getShardCount)
    (hrun : .target run ∈ shardColumn mergeTag levelZero levels shardIdx) (hid : id ∈ run) :
    merged plans id = true := by
  obtain ⟨k, hk⟩ := mem_iff_getElem?.mp hrun
  obtain ⟨plan, hplan, -, -, hsrc⟩ := h.of_target shardIdx (mem_range.mpr hshard) k run hk
  exact merged_iff.mpr ⟨plan, hplan, by rwa [hsrc, mem_insertionSort]⟩

lemma expand_target {plan : SegmentMergePlan}
    (hplan : plan ∈ plans) : expand plans (valid plan.target) = plan.srcSegments.reverse := by
  have hvalid : plan.target ≠ invalidSegmentId := by
    have := (h.of_plan plan hplan).1
    have := h.neg_one_le
    rw [invalidSegmentId]
    omega
  have hfind : plans.find? (·.target = plan.target) = some plan := by
    obtain ⟨found, hfound⟩ := Option.isSome_iff_exists.mp
      (find?_isSome (p := fun other => other.target = plan.target).mpr ⟨plan, hplan, by simp⟩)
    have htarget : found.target = plan.target := by simpa using find?_some hfound
    have hsymm : Std.Symm fun plan plan' : SegmentMergePlan => plan.target ≠ plan'.target := ⟨fun _ _ hne => hne.symm⟩
    by_contra hne
    refine (h.distinct.imp And.left).forall (mem_of_find?_eq_some hfound) hplan (fun heq => ?_) htarget
    exact hne (heq ▸ hfound)
  rw [valid, if_neg hvalid, expand, flatMap_singleton, hfind]
  rfl

lemma expand_old {id : ℤ}
    (hid : id ≠ invalidSegmentId → id ∈ version.levels.ids) : expand plans (valid id) = valid id := by
  rw [valid]
  split
  · rfl
  rename_i hvalid
  have hnone : plans.find? (·.target = id) = none := by
    rw [find?_eq_none]
    intro plan hplan htarget
    rw [decide_eq_true_eq] at htarget
    exact h.fresh plan hplan (htarget ▸ hid hvalid)
  rw [expand, flatMap_singleton, hnone]
  rfl

lemma slotAt_targetLevels (levelIdx shardIdx : ℕ) :
    (∀ plan ∈ plans, plan.levelIdx = levelIdx → plan.shardIdx = shardIdx →
      slotAt (targetLevels levelZero levels plans) levelIdx shardIdx = plan.target)
    ∧ ((∀ plan ∈ plans, ¬ (plan.levelIdx = levelIdx ∧ plan.shardIdx = shardIdx)) →
      slotAt (targetLevels levelZero levels plans) levelIdx shardIdx
        = slotAt ((levelZero :: levels).map (LevelMeta.drop (merged plans))) levelIdx shardIdx) := by
  refine slotAt_foldl_place (fun plan hplan => ?_) h.distinct
  obtain ⟨-, -, hshard, -, k, run, hpiece, hidx, -⟩ := h.of_plan plan hplan
  obtain ⟨hk, -⟩ := List.getElem?_eq_some_iff.mp hpiece
  rw [shardColumn, length_column, length_map] at hk
  refine ⟨(levels.get ⟨k, hk⟩).drop (merged plans), ?_, ?_⟩
  · rw [hidx, Nat.add_comm]
    simp [hk]
  have hmem : levels.get ⟨k, hk⟩ ∈ levels := get_mem _ _
  rw [LevelMeta.drop, h.hash.topology _ hmem]
  dsimp only
  rw [length_map, h.hash.shards _ hmem]
  exact mem_range.mp hshard

end

lemma slot_drop (htopology : level.topology = .hashMod) (p : ℤ → Bool) (shardIdx : ℕ) :
    (level.drop p).slot shardIdx = if p (level.slot shardIdx) then invalidSegmentId else level.slot shardIdx := by
  rw [LevelMeta.slot, LevelMeta.slot, LevelMeta.drop, htopology, getD_eq_getElem?_getD,
    getD_eq_getElem?_getD, getElem?_map]
  cases level.segments[shardIdx]? with
  | none => simp
  | some id => rfl

section
variable (h : Planned version levelZero levels mergeTag first last plans) (hshard : shardIdx < version.levels.getShardCount)
include h hshard

/-- What a slot of the target version stands for, in the order of its plan. -/
lemma expand_slot {k : ℕ} {piece : Piece}
    (hpiece : (shardColumn mergeTag levelZero levels shardIdx)[k]? = some piece) :
    expand plans (valid (slotAt (targetLevels levelZero levels plans) (1 + k) shardIdx)) = piece.planned := by
  obtain ⟨hplaced, hother⟩ := h.slotAt_targetLevels (1 + k) shardIdx
  obtain ⟨hk, -⟩ := List.getElem?_eq_some_iff.mp hpiece
  rw [shardColumn, length_column, length_map] at hk
  obtain ⟨level, hlevel, hget⟩ : ∃ level ∈ levels, levels[k]? = some level :=
    ⟨levels.get ⟨k, hk⟩, get_mem _ _, getElem?_eq_getElem hk⟩
  have hslots : (levels.map (·.slot shardIdx))[k]? = some (level.slot shardIdx) := by
    rw [getElem?_map, hget]
    rfl
  have hnone : (∀ run, piece ≠ .target run) → slotAt (targetLevels levelZero levels plans) (1 + k) shardIdx
      = if merged plans (level.slot shardIdx) then invalidSegmentId else level.slot shardIdx := by
    intro htarget
    rw [hother]
    · rw [slotAt, Nat.add_comm, map_cons, getElem?_cons_succ, getElem?_map, hget]
      exact slot_drop (h.hash.topology _ hlevel) _ shardIdx
    rintro plan hplan ⟨hidx, rfl⟩
    obtain ⟨-, -, -, -, k', run, hpiece', hidx', -⟩ := h.of_plan plan hplan
    obtain rfl : k' = k := by omega
    exact htarget run (Option.some.inj (hpiece.symm.trans hpiece'))
  cases piece with
  | target run =>
    obtain ⟨plan, hplan, hshardIdx, hidx, hsrc⟩ := h.of_target shardIdx (mem_range.mpr hshard) k run hpiece
    rw [hplaced plan hplan hidx hshardIdx, h.expand_target hplan, hsrc]
    rfl
  | kept id =>
    have hid := kept_eq hpiece
    rw [hslots, Option.some_inj] at hid
    subst hid
    rw [hnone (fun run heq => by cases heq)]
    -- a segment that stays is in no run, because the segments of a shard are distinct
    have hstays : level.slot shardIdx ≠ invalidSegmentId → merged plans (level.slot shardIdx) = false := by
      intro hvalid
      by_contra hmerged
      obtain ⟨plan, hplan, hid⟩ := merged_iff.mp ((Bool.not_eq_false _).mp hmerged)
      obtain ⟨hold, run, hrun, hin⟩ := h.mem_old hplan hid
      rw [h.hash.shard_eq hlevel hvalid hold] at hrun
      have hnodup := h.hash.nodup shardIdx
      rw [← h.hash.flatMap_shardColumn h.untagged, nodup_flatMap] at hnodup
      have hsymm : Std.Symm (Function.onFun Disjoint Piece.segments) := ⟨fun _ _ hd => hd.symm⟩
      exact hnodup.2.forall (mem_of_getElem? hpiece) hrun nofun (mem_valid.mpr ⟨rfl, hvalid⟩) hin
    have hslot : (if merged plans (level.slot shardIdx) then invalidSegmentId else level.slot shardIdx)
        = level.slot shardIdx := by grind
    rw [hslot]
    refine h.expand_old fun hvalid => h.hash.mem_ids shardIdx ?_
    rw [← h.hash.flatMap_shardColumn h.untagged]
    exact mem_flatMap.mpr ⟨_, mem_of_getElem? hpiece, mem_valid.mpr ⟨rfl, hvalid⟩⟩
  | emptied =>
    rw [hnone (fun run heq => by cases heq)]
    have hgone : (if merged plans (level.slot shardIdx) then invalidSegmentId else level.slot shardIdx)
        = invalidSegmentId := by
      rcases emptied_cases (bottom_of_untagged h.untagged shardIdx) hpiece hslots with hinvalid | ⟨run, hrun, hin⟩
      · rw [hinvalid, ite_self]
      · rw [if_pos (h.merged_of_target hshard hrun hin)]
    rw [hgone]
    rfl

/-- The segments of a shard in the target version, with targets replaced by their sources. -/
lemma expand_getSegmentIds : expand plans (LevelInfo.getSegmentIds (targetLevels levelZero levels plans) shardIdx)
    = (shardColumn mergeTag levelZero levels shardIdx).flatMap Piece.planned := by
  have hpos : ∀ plan ∈ plans, 0 < plan.levelIdx := fun plan hplan => by
    obtain ⟨-, -, -, -, k, run, -, hidx, -⟩ := h.of_plan plan hplan
    omega
  obtain ⟨levels', htarget, htopology⟩ := foldl_place_cons hpos
    (levels.map (drop (merged plans))) (levelZero.drop (merged plans))
  have hlevels : targetLevels levelZero levels plans = levelZero.drop (merged plans) :: levels' := htarget
  have hempty : (levelZero.drop (merged plans)).segments = [] := by
    rw [LevelMeta.drop, h.hash.zero_topology]
    refine filter_eq_nil_iff.mpr fun id hid => ?_
    obtain ⟨run, hrun, hmem⟩ := mem_target_of_mem_run (bottom_of_untagged h.untagged 0)
      (by simpa using h.hash.levels_ne) (mem_reverse.mpr hid)
    simpa using h.merged_of_target (getShardCount_pos _) hrun hmem
  have hlength : levels'.length = levels.length := by simpa using congrArg length htopology
  have hhash : ∀ level ∈ levels', level.topology = .hashMod := by
    intro level hlevel
    have hmem := mem_map_of_mem (f := topology) hlevel
    rw [htopology, map_map, mem_map] at hmem
    obtain ⟨old, hold, heq⟩ := hmem
    exact heq ▸ h.hash.topology old hold
  have hzero : (levelZero.drop (merged plans)).topology = .sequence := h.hash.zero_topology
  rw [hlevels, LevelInfo.getSegmentIds, flatMap_cons, hzero, hempty, reverse_nil, nil_append,
    expand, flatMap_assoc, flatMap_def, flatMap_def]
  congr 1
  apply ext_getElem
  · rw [length_map, length_map, hlength, shardColumn, length_column, length_map]
  intro k hk hk'
  rw [length_map] at hk hk'
  rw [getElem_map, getElem_map, hhash _ (getElem_mem hk),
    ← h.expand_slot hshard (getElem?_eq_getElem hk'), hlevels, slotAt, Nat.add_comm,
    getElem?_cons_succ, getElem?_eq_getElem hk]
  rfl

end

end Planned

/-! ## The result -/

lemma reverse_insertionSort_eq_iff {run : List ℤ} (hnodup : run.Nodup) :
    (run.insertionSort (· ≤ ·)).reverse = run ↔ run.Pairwise (· > ·) := by
  constructor
  · intro heq
    have hsorted := pairwise_reverse.mpr
      ((pairwise_insertionSort (· ≤ ·) run).imp (S := fun a b : ℤ => b ≥ a) fun hle => hle)
    rw [heq] at hsorted
    exact (hsorted.and hnodup).imp fun h => lt_of_le_of_ne h.1 (Ne.symm h.2)
  · intro hfalling
    have hsorted := pairwise_reverse.mpr (hfalling.imp fun hlt => le_of_lt hlt)
    rw [Perm.eq_of_pairwise' (pairwise_insertionSort (· ≤ ·) run) hsorted
      ((perm_insertionSort _ _).trans (reverse_perm _).symm), reverse_reverse]

lemma flatMap_planned_iff (hnodup : (pieces.flatMap Piece.segments).Nodup) :
    pieces.flatMap Piece.planned = pieces.flatMap Piece.segments
    ↔ ∀ run ∈ pieces.filterMap Piece.run?, run.Pairwise (· > ·) := by
  induction pieces with
  | nil => simp
  | cons piece pieces ih =>
    rw [flatMap_cons] at hnodup
    obtain ⟨hpiece, hpieces, -⟩ := nodup_append.mp hnodup
    have hlength : piece.planned.length = piece.segments.length := by
      cases piece <;> simp [Piece.planned, Piece.segments]
    have happend : piece.planned ++ pieces.flatMap Piece.planned
        = piece.segments ++ pieces.flatMap Piece.segments
        ↔ piece.planned = piece.segments
          ∧ pieces.flatMap Piece.planned = pieces.flatMap Piece.segments := by
      constructor
      · exact fun heq => append_inj heq hlength
      · rintro ⟨hfirst, hrest⟩
        rw [hfirst, hrest]
    rw [flatMap_cons, flatMap_cons, happend, ih hpieces]
    cases piece with
    | target run =>
      have hrun : run.Nodup := hpiece
      rw [Piece.planned, Piece.segments, reverse_insertionSort_eq_iff hrun]
      simp [Piece.run?]
    | kept id => simp [Piece.planned, Piece.segments, Piece.run?]
    | emptied => simp [Piece.planned, Piece.segments, Piece.run?]

/-- Replacing targets by their sources gives the old segments of each shard in their order, and each target
has its slot and is marked as bottom level on the last level, exactly if the ids in each run fall from new to
old. -/
theorem mergePlan_ordered_iff (version : Version) (levelZero : LevelMeta) (levels : List LevelMeta)
    (mergeTag : ℕ → ℕ → Bool) (lastMergeSegmentId : ℤ) (h : HashLevels version levelZero levels)
    (hbottom : ∀ shardIdx, mergeTag levels.length shardIdx = false) (hlast : -1 ≤ lastMergeSegmentId)
    (hfresh : ∀ id ∈ version.levels.ids, id ≤ lastMergeSegmentId
      ∨ lastMergeSegmentId + version.levels.getShardCount * levels.length < id) :
    ((∀ shardIdx < version.levels.getShardCount, expand (doCreateMergePlan version mergeTag lastMergeSegmentId).1
          ((doCreateMergePlan version mergeTag lastMergeSegmentId).2.levels.getSegmentIds shardIdx)
          = version.levels.getSegmentIds shardIdx)
      ∧ ∀ plan ∈ (doCreateMergePlan version mergeTag lastMergeSegmentId).1,
        slotAt (doCreateMergePlan version mergeTag lastMergeSegmentId).2.levels plan.levelIdx plan.shardIdx
          = plan.target
        ∧ (plan.isBottomLevel = true ↔ plan.levelIdx = version.levels.length - 1))
      ↔ ∀ shardIdx < version.levels.getShardCount, ∀ run ∈ runs mergeTag levelZero levels shardIdx,
        run.Pairwise (· > ·) := by
  have hall := allPlans_planShards mergeTag version.levels.length levels h.zero_valid
    (range version.levels.getShardCount) nodup_range lastMergeSegmentId
  generalize hplans : planShards mergeTag version.levels.length levelZero.segments levels
    (range version.levels.getShardCount) lastMergeSegmentId = plans at hall
  rw [length_range] at hall
  have hplanned : Planned version levelZero levels mergeTag lastMergeSegmentId
      (lastMergeSegmentId + version.levels.getShardCount * levels.length) plans := by
    refine ⟨hall, h, hbottom, hlast, fun plan hplan hmem => ?_⟩
    obtain ⟨hfirst, hlast', -⟩ := hall.of_plan plan hplan
    rcases hfresh _ hmem with hle | hlt <;> omega
  have hresult : doCreateMergePlan version mergeTag lastMergeSegmentId
      = (plans, { createNewVersion plans [] version with
        levels := collectSegmentDescriptions version.levels plans (createNewVersion plans [] version).levels }) := by
    rw [doCreateMergePlan, ← hplans]
    split
    · rename_i hnil
      rw [h.levels_eq] at hnil
      cases hnil
    rename_i levelZero' levels' hcons
    rw [h.levels_eq, cons.injEq] at hcons
    obtain ⟨rfl, rfl⟩ := hcons
    rfl
  have hnew : (createNewVersion plans [] version).levels
      = (levelZero :: levels).map (drop (merged plans)) := by
    rw [h.sound.createNewVersion plans, h.levels_eq]
    intro plan hplan id hid
    have hmem := h.mem_ids _ (hplanned.mem_old hplan hid).1
    refine ⟨?_, not_mem_nil, fun plan' hplan' heq => hplanned.fresh plan' hplan' (heq ▸ hmem)⟩
    obtain ⟨level, -, hin⟩ := mem_flatMap.mp hmem
    exact (mem_ids.mp hin).2
  have hids : ∀ shardIdx < version.levels.getShardCount,
      expand plans ((doCreateMergePlan version mergeTag lastMergeSegmentId).2.levels.getSegmentIds shardIdx)
        = (shardColumn mergeTag levelZero levels shardIdx).flatMap Piece.planned := by
    intro shardIdx hshard
    rw [hresult]
    dsimp only
    rw [collectSegmentDescriptions, hnew, (getSegmentIds_congr _ 0 (segments_moveCursors version.levels plans)).1]
    exact hplanned.expand_getSegmentIds hshard
  have hplaces : ∀ plan ∈ plans,
      slotAt (doCreateMergePlan version mergeTag lastMergeSegmentId).2.levels plan.levelIdx plan.shardIdx
        = plan.target ∧ (plan.isBottomLevel = true ↔ plan.levelIdx = version.levels.length - 1) := by
    intro plan hplan
    refine ⟨?_, (hall.of_plan plan hplan).2.2.2.1⟩
    rw [hresult]
    dsimp only
    rw [collectSegmentDescriptions, hnew, (getSegmentIds_congr _ _ (segments_moveCursors version.levels plans)).2]
    exact (hplanned.slotAt_targetLevels plan.levelIdx plan.shardIdx).1 plan hplan rfl rfl
  have hfst : (doCreateMergePlan version mergeTag lastMergeSegmentId).1 = plans := by rw [hresult]
  rw [hfst, and_iff_left hplaces]
  apply forall₂_congr
  intro shardIdx hshard
  rw [hids shardIdx hshard, ← h.flatMap_shardColumn hbottom shardIdx, runs]
  apply flatMap_planned_iff
  rw [h.flatMap_shardColumn hbottom]
  exact h.nodup shardIdx

/-- One shard on four levels.  An earlier plan moved the segments of levels 0 and 1 to 10 and those of levels 2
and 3 to 11, so that the newer segment has the smaller id. -/
def twoTargets : Version :=
  ⟨[10, 11, 100], [⟨0, .sequence, [100]⟩, ⟨0, .hashMod, [10]⟩, ⟨0, .hashMod, [-1]⟩, ⟨0, .hashMod, [11]⟩]⟩

/-- The tags where levels 1 and 2 are too large. -/
def fullLevels (levelIdx shardIdx : ℕ) : Bool :=
  tagAt (tagRows false [(5, 0, [0]), (5, 0, [20])] [10]) levelIdx shardIdx

/-- The next plan joins both targets and takes 11 for the newer one. -/
theorem twoTargets_reordered : twoTargets.levels.getSegmentIds 0 = [100, 10, 11]
      ∧ expand (doCreateMergePlan twoTargets fullLevels 11).1
        ((doCreateMergePlan twoTargets fullLevels 11).2.levels.getSegmentIds 0) = [100, 11, 10] := by
  decide

/-- The levels as `twoTargets` has them, with the ids the other way round. -/
def inOrder : Version :=
  ⟨[10, 11, 100], [⟨0, .sequence, [100]⟩, ⟨0, .hashMod, [11]⟩, ⟨0, .hashMod, [-1]⟩, ⟨0, .hashMod, [10]⟩]⟩

/-- With the ids in this order the next plan keeps the order of the shard. -/
theorem inOrder_ordered : 0 < inOrder.levels.getShardCount
      ∧ expand (doCreateMergePlan inOrder fullLevels 11).1
        ((doCreateMergePlan inOrder fullLevels 11).2.levels.getSegmentIds 0) = inOrder.levels.getSegmentIds 0 :=
  ⟨by decide, ((mergePlan_ordered_iff inOrder ⟨0, .sequence, [100]⟩ _ fullLevels 11
    { levels_eq := rfl
      levels_ne := by decide
      zero_topology := rfl
      zero_valid := by decide
      topology := by decide
      shards := by decide
      sound := ⟨by decide, by decide⟩ }
    (tagAt_bottom _ _ _) (by decide) (by decide)).mpr (by decide)).1 0 (by decide)⟩

end Havenask.Table
