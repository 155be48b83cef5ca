import Havenask.Framework.IndexTaskQueue

/-!
# The tablet committer

`framework/TabletCommitter.cpp`: operations are queued by `Push`, `AlterTable`, `Import` and
`HandleIndexTask`, and `Commit` turns the queue into a new version, which it writes and publishes.

`Commit` asks the world many questions: the tablet data, the merged version, the version ids, whether a
mount, an import, a publication or a sync succeeds.  The answers are the fields of a `CommitCall`, so
that a run is a list of calls.

* **`pending`** is what the queue amounts to: `Commit` reads nothing else of it (`commit_similar`).
* **`Keeps`** says when a `Commit` that fails leaves it as it was (`similar_commit_iff`).  The queue is
  taken out before anything can fail.  The road map and, late, the last segment id become members; index
  tasks and imports stay in local variables.
* **`KeepsTasks`** says that it leaves the index tasks alone as well, which other versions share.
* A run whose failing `Commit`s all keep both commits the same versions, with the same tasks, as the run
  without them (`run_eq`), and each version has what was accepted since the last one (`TakesEffect`).

The tasks of a new version come from the merged target, the version on disk and the last public
version; when a task that one of them has stopped is unfinished again is `IndexTaskQueue.Lapses`.
-/

namespace Havenask

open List IndexTaskQueue

/-- `INVALID_SEGMENTID`. -/
def invalidSegmentId : ℤ := -1

/-- `Segment::SegmentStatus`. -/
inductive SegmentStatus
  | built | dumping | building
  deriving DecidableEq

/-- A segment of the tablet data; its statistics may be unreadable. -/
structure TabletSegment where
  segmentId : ℤ
  status : SegmentStatus
  hasStatistics : Bool
  deriving DecidableEq

/-- The parts of a `Version` that the committer fills in. -/
structure TabletVersion where
  versionId : ℤ
  segments : List ℤ
  schemaRoadMap : List ℤ
  isSealed : Bool
  indexTaskQueue : IndexTaskQueue
  deriving DecidableEq

/-- `VersionMerger::MergedVersionInfo`: the segments of the base version, and the target version, whose
tasks `Clone` copies. -/
structure MergedVersionInfo where
  baseSegments : List ℤ
  targetSegments : List ℤ
  targetTasks : List IndexTaskMeta

/-- What a call to the importer or to the version committer answers. -/
inductive CallStatus
  | ok | exist | error
  deriving DecidableEq

/-- A call to `Commit` and the answers it gets from outside. -/
structure CommitCall where
  onDiskVersion : TabletVersion
  segments : List TabletSegment
  mergedVersionInfo : Option MergedVersionInfo
  /-- `CommitOptions::GetTargetVersionId` and the answer of `UpdateBaseVersionId`. -/
  targetVersionId : ℤ
  acceptsTarget : Bool
  commitRetryCount : ℤ
  /-- The mount of the merged target. -/
  mounts : Bool
  /-- The importer, on the versions to import: its status and the segments it adds. -/
  importer : List ℤ → CallStatus × List ℤ
  /-- `GenerateVersionId` and the publication, in each attempt. -/
  generateVersionId : ℕ → ℤ
  publish : ℕ → CallStatus
  syncs : Bool
  /-- The times of the joins and of the task operations. -/
  clock : ℕ → ℤ
  generateVersionId_ne : ∀ i, generateVersionId i ≠ invalidVersionId

/-- What waits for the next `Commit`. -/
inductive CommitOperation
  | dump (segmentId : ℤ)
  | sealTablet
  | alterTable (schemaId : ℤ)
  | importVersions (versions : List ℤ) (hasImporter : Bool)
  | indexTask (op : TaskOperation)

structure TabletCommitter where
  commitQueue : List CommitOperation
  lastCommitSegmentId : ℤ
  lastPublicVersion : TabletVersion
  schemaRoadMap : List ℤ
  dumpError : Bool
  isSealed : Bool

/-- What the loop over the queue collects. -/
@[ext] structure PendingOperations where
  maxSegmentId : ℤ
  schemaRoadMap : List ℤ
  importVersions : List ℤ
  hasImporter : Bool
  indexTasks : List TaskOperation

/-- One round of that loop.  A dump of the invalid segment and an import of no version do nothing. -/
def PendingOperations.collect (pending : PendingOperations) : CommitOperation → PendingOperations
  | .dump segmentId =>
    if segmentId ≠ invalidSegmentId then { pending with maxSegmentId := segmentId } else pending
  | .sealTablet => pending
  | .alterTable schemaId => { pending with schemaRoadMap := pending.schemaRoadMap ++ [schemaId] }
  | .importVersions versions hasImporter =>
    if versions ≠ [] then
      { pending with importVersions := versions, hasImporter := hasImporter }
    else pending
  | .indexTask op => { pending with indexTasks := pending.indexTasks ++ [op] }

namespace TabletCommitter

variable {c c' : TabletCommitter} {heap heap' : TaskHeap} {call : CommitCall}

/-- What the next `Commit` has to put into its version. -/
def pending (c : TabletCommitter) : PendingOperations :=
  c.commitQueue.foldl PendingOperations.collect ⟨c.lastCommitSegmentId, c.schemaRoadMap, [], false, []⟩

/-! ## Queueing operations -/

def enqueue (c : TabletCommitter) (op : CommitOperation) : TabletCommitter :=
  { c with commitQueue := c.commitQueue ++ [op] }

def push (c : TabletCommitter) (segmentId : ℤ) : TabletCommitter :=
  if c.isSealed then c else c.enqueue (.dump segmentId)

def sealTablet (c : TabletCommitter) : TabletCommitter :=
  if c.isSealed then c else { c with isSealed := true }.enqueue .sealTablet

def alterTable (c : TabletCommitter) (schemaId : ℤ) : TabletCommitter := c.enqueue (.alterTable schemaId)

def importVersions (c : TabletCommitter) (versions : List ℤ) (hasImporter : Bool) : TabletCommitter :=
  c.enqueue (.importVersions versions hasImporter)

def handleIndexTask (c : TabletCommitter) (op : TaskOperation) : TabletCommitter := c.enqueue (.indexTask op)

/-! ## `GenerateVersionWithoutId` -/

section
variable (call : CommitCall)

/-- The merged version, unless a segment of its base has left the version on disk. -/
def usedMergedVersion : Option MergedVersionInfo :=
  call.mergedVersionInfo.filter fun info =>
    decide (call.onDiskVersion.versionId = invalidVersionId) ||
      info.baseSegments.all fun segmentId => decide (segmentId ∈ call.onDiskVersion.segments)

/-- `CreateSlice`. -/
def slice (maxSegmentId : ℤ) : List TabletSegment :=
  if maxSegmentId = invalidSegmentId then
    call.segments.filter fun segment => decide (segment.status = .built)
  else call.segments

/-- One round of the loop over the segments; `none` when the statistics cannot be read. -/
def addSegment (maxSegmentId : ℤ) (baseSegments : List ℤ) (segments : List ℤ)
    (segment : TabletSegment) : Option (List ℤ) :=
  if segment.segmentId ∈ segments then some segments
  else if maxSegmentId ≠ invalidSegmentId ∧ segment.segmentId > maxSegmentId ∧
      segment.status ≠ .built then some segments
  else if segment.segmentId ∈ baseSegments then some segments
  else if segment.hasStatistics then some (segments ++ [segment.segmentId])
  else none

/-- The import: `none` when it fails. -/
def importInto (pending : PendingOperations) (call : CommitCall) (segments : List ℤ) : Option (List ℤ) :=
  if pending.importVersions = [] then some segments
  else if !pending.hasImporter then none
  else
    let imported := call.importer pending.importVersions
    if imported.1 = .error then none else some (segments ++ imported.2)

/-- The segments of the new version; `none` on an error of the statistics or of the import. -/
def prepareSegments (pending : PendingOperations) (call : CommitCall) : Option (List ℤ) :=
  let info := usedMergedVersion call
  let added := (slice call pending.maxSegmentId).foldlM
    (addSegment pending.maxSegmentId ((info.map (·.baseSegments)).getD []))
    ((info.map (·.targetSegments)).getD [])
  added.bind (importInto pending call)

/-- The task operations with the times at which they are handled. -/
def timedTasks (ops : List TaskOperation) : List (TaskOperation × ℤ) :=
  ops.zipIdx.map fun op => (op.1, call.clock (op.2 + 2))

/-- The tasks of the merged target that the new version starts from. -/
def targetTasks : List IndexTaskMeta := ((usedMergedVersion call).map (·.targetTasks)).getD []

/-- The heap with the copies that `Clone` makes. -/
def cloneHeap (heap : TaskHeap) (call : CommitCall) : TaskHeap := heap ++ targetTasks call

def cloneQueue (heap : TaskHeap) (call : CommitCall) : IndexTaskQueue :=
  List.range' heap.length (targetTasks call).length

/-- The tasks of the new version: the joins, then the pending operations. -/
def generateTasks (c : TabletCommitter) (heap : TaskHeap) (call : CommitCall) : TaskHeap × IndexTaskQueue :=
  IndexTaskQueue.generate (cloneHeap heap call) (cloneQueue heap call)
    call.onDiskVersion.indexTaskQueue c.lastPublicVersion.indexTaskQueue (call.clock 0)
    (call.clock 1) (timedTasks call c.pending.indexTasks)

/-- The mount of the merged target fails. -/
def failsToMount : Bool := (usedMergedVersion call).isSome && !call.mounts

/-- `GenerateVersionWithoutId`: the version, or `none` on an error, and what it does to the committer and
to the tasks. -/
def generateVersionWithoutId (c : TabletCommitter) (heap : TaskHeap) (call : CommitCall) :
    Option TabletVersion × TabletCommitter × TaskHeap :=
  let pending := c.pending
  -- the queue is swapped out first
  let taken := { c with commitQueue := [], schemaRoadMap := pending.schemaRoadMap }
  if failsToMount call then (none, taken, heap)
  else
    let tasks := generateTasks c heap call
    match prepareSegments pending call with
    | none => (none, taken, tasks.1)
    | some segments =>
      let committer := { taken with lastCommitSegmentId := pending.maxSegmentId }
      if slice call pending.maxSegmentId ≠ [] ∧ segments = [] then (none, committer, tasks.1)
      else
        (some
          { versionId := invalidVersionId
            segments := segments
            schemaRoadMap := pending.schemaRoadMap
            isSealed := c.isSealed
            indexTaskQueue := tasks.2 },
          committer, tasks.1)

/-! ## `Commit` -/

def newDoneTasks (heap : TaskHeap) (queue : IndexTaskQueue) : List (String × String) :=
  ((queue.filterMap fun task => heap[task]?).filter fun taskMeta =>
    decide (taskMeta.state = .done) && decide (taskMeta.committedVersionId = invalidVersionId)).map
      IndexTaskMeta.key

/-- The task gets its committed version id if it is newly done. -/
def markCommitted (doneTasks : List (String × String)) (versionId : ℤ) (taskMeta : IndexTaskMeta) : IndexTaskMeta :=
  if taskMeta.key ∈ doneTasks then { taskMeta with committedVersionId := versionId } else taskMeta

/-- `SetCommittedVersionId` on the newly done tasks of the queue. -/
def setCommittedVersionId (doneTasks : List (String × String)) (versionId : ℤ) (heap : TaskHeap)
    (queue : IndexTaskQueue) : TaskHeap :=
  queue.foldl (fun heap task => heap.modify task (markCommitted doneTasks versionId)) heap

def attemptVersionId (attempt : ℕ) : ℤ :=
  if call.targetVersionId = invalidVersionId then call.generateVersionId attempt
  else call.targetVersionId

/-- The attempts to write the version: the id under which it was written. -/
def commitVersion (call : CommitCall) (queue : IndexTaskQueue) (doneTasks : List (String × String)) :
    ℕ → ℕ → TaskHeap → Option ℤ × TaskHeap
  | 0, _, heap => (none, heap)
  | retries + 1, attempt, heap =>
    let versionId := attemptVersionId call attempt
    let heap := setCommittedVersionId doneTasks versionId heap queue
    match call.publish attempt with
    | .ok => (some versionId, heap)
    | .exist =>
      if call.targetVersionId ≠ invalidVersionId then (none, heap)
      else commitVersion call queue doneTasks retries (attempt + 1) heap
    | .error => (none, heap)

/-- The loop is left when the count has come down to zero, but runs once. -/
def attempts : ℕ := max 1 call.commitRetryCount.toNat

/-- The version id that the caller asks for is refused. -/
def refusesTarget : Bool :=
  decide (call.targetVersionId ≠ invalidVersionId) && !call.acceptsTarget

/-- `Commit`: the version, or `none` on an error. -/
def commit (c : TabletCommitter) (heap : TaskHeap) (call : CommitCall) :
    Option TabletVersion × TabletCommitter × TaskHeap :=
  if c.dumpError then (none, c, heap)
  else if refusesTarget call then (none, c, heap)
  else
    let generated := generateVersionWithoutId c heap call
    match generated.1 with
    | none => generated
    | some version =>
      let queue := version.indexTaskQueue
      let written := commitVersion call queue (newDoneTasks generated.2.2 queue) (attempts call) 0
        generated.2.2
      match written.1 with
      | none => (none, generated.2.1, written.2)
      | some versionId =>
        if call.syncs then
          let version := { version with versionId := versionId }
          (some version, { generated.2.1 with lastPublicVersion := version }, written.2)
        else (none, generated.2.1, written.2)

/-! ## What a commit reads of the committer -/

/-- The two committers have the same left to do, on top of the same public version. -/
structure Similar (c c' : TabletCommitter) : Prop where
  pending : c.pending = c'.pending
  dumpError : c.dumpError = c'.dumpError
  isSealed : c.isSealed = c'.isSealed
  lastPublicVersion : c.lastPublicVersion = c'.lastPublicVersion

lemma Similar.refl (c : TabletCommitter) : Similar c c := ⟨rfl, rfl, rfl, rfl⟩

section
variable (h : Similar c c')
include h

lemma Similar.trans {c'' : TabletCommitter} (h' : Similar c' c'') : Similar c c'' :=
  ⟨h.pending.trans h'.pending, h.dumpError.trans h'.dumpError, h.isSealed.trans h'.isSealed,
    h.lastPublicVersion.trans h'.lastPublicVersion⟩

lemma Similar.symm : Similar c' c :=
  ⟨h.pending.symm, h.dumpError.symm, h.isSealed.symm, h.lastPublicVersion.symm⟩

omit h in
@[simp] lemma pending_enqueue (c : TabletCommitter) (op : CommitOperation) :
    (c.enqueue op).pending = c.pending.collect op := by
  rw [pending, enqueue, foldl_append]
  rfl

lemma Similar.enqueue (op : CommitOperation) : Similar (c.enqueue op) (c'.enqueue op) :=
  ⟨by rw [pending_enqueue, pending_enqueue, h.pending], h.dumpError, h.isSealed, h.lastPublicVersion⟩

lemma Similar.push (segmentId : ℤ) : Similar (c.push segmentId) (c'.push segmentId) := by
  rw [TabletCommitter.push, TabletCommitter.push, h.isSealed]
  split
  · exact h
  · exact h.enqueue _

lemma Similar.sealTablet : Similar c.sealTablet c'.sealTablet := by
  rw [TabletCommitter.sealTablet, TabletCommitter.sealTablet, h.isSealed]
  split
  · exact h
  · have hsealed : Similar { c with isSealed := true } { c' with isSealed := true } :=
      ⟨h.pending, h.dumpError, rfl, h.lastPublicVersion⟩
    exact hsealed.enqueue _

end

/-- **`GenerateVersionWithoutId` in one place.**  It fails to mount, fails to prepare the segments, or
has them; only in the last case the last segment id is remembered. -/
lemma generateVersionWithoutId_cases (c : TabletCommitter) (heap : TaskHeap) (call : CommitCall) :
    (failsToMount call = true ∧ generateVersionWithoutId c heap call =
        (none, { c with commitQueue := [], schemaRoadMap := c.pending.schemaRoadMap }, heap)) ∨
    (failsToMount call = false ∧ prepareSegments c.pending call = none ∧
      generateVersionWithoutId c heap call =
        (none, { c with commitQueue := [], schemaRoadMap := c.pending.schemaRoadMap },
          (generateTasks c heap call).1)) ∨
    ∃ segments, failsToMount call = false ∧ prepareSegments c.pending call = some segments ∧
      generateVersionWithoutId c heap call =
        (if slice call c.pending.maxSegmentId ≠ [] ∧ segments = [] then none
          else some ⟨invalidVersionId, segments, c.pending.schemaRoadMap, c.isSealed, (generateTasks c heap call).2⟩,
          { c with
            commitQueue := []
            schemaRoadMap := c.pending.schemaRoadMap
            lastCommitSegmentId := c.pending.maxSegmentId },
          (generateTasks c heap call).1) := by
  cases hmount : failsToMount call with
  | true => exact Or.inl ⟨rfl, by simp [generateVersionWithoutId, hmount]⟩
  | false =>
    right
    cases hprepare : prepareSegments c.pending call with
    | none => exact Or.inl ⟨rfl, rfl, by simp [generateVersionWithoutId, hmount, hprepare]⟩
    | some segments =>
      refine Or.inr ⟨segments, rfl, rfl, ?_⟩
      by_cases hempty : slice call c.pending.maxSegmentId ≠ [] ∧ segments = []
      · simp [generateVersionWithoutId, hmount, hprepare, hempty]
      · simp only [generateVersionWithoutId, hmount, hprepare, if_neg hempty, Bool.false_eq_true,
          if_false]

end

/-- A committer whose queue has been emptied has nothing left to do. -/
lemma pending_taken {c : TabletCommitter} (h : c.commitQueue = []) :
    c.pending = ⟨c.lastCommitSegmentId, c.schemaRoadMap, [], false, []⟩ := by
  rw [pending, h]
  rfl

/-- **What is pending after a `Commit`**: all of it when the queue was not taken, else the road map
and, if the segments could be prepared, the last segment. -/
lemma commit_committer (c : TabletCommitter) (heap : TaskHeap) (call : CommitCall) :
    (commit c heap call).2.1.pending = (if c.dumpError || refusesTarget call then c.pending
          else if failsToMount call || (prepareSegments c.pending call).isNone then
            ⟨c.lastCommitSegmentId, c.pending.schemaRoadMap, [], false, []⟩
          else ⟨c.pending.maxSegmentId, c.pending.schemaRoadMap, [], false, []⟩) ∧
      (commit c heap call).2.1.dumpError = c.dumpError ∧ (commit c heap call).2.1.isSealed = c.isSealed ∧
      (commit c heap call).2.1.lastPublicVersion = (commit c heap call).1.getD c.lastPublicVersion := by
  rw [commit]
  cases hdump : c.dumpError with
  | true => exact ⟨rfl, hdump, rfl, rfl⟩
  | false =>
    cases refusesTarget call with
    | true => exact ⟨rfl, hdump, rfl, rfl⟩
    | false =>
      rcases generateVersionWithoutId_cases c heap call with
        ⟨hmount, heq⟩ | ⟨hmount, hprepare, heq⟩ | ⟨segments, hmount, hprepare, heq⟩
      · simp [heq, hmount, hdump, pending_taken]
      · simp [heq, hmount, hdump, hprepare, pending_taken]
      simp only [heq, hmount, hprepare, Bool.false_eq_true, if_false, Bool.or_false, Option.isNone_some]
      split
      · rename_i hnone
        exact ⟨pending_taken rfl, hdump, rfl, by rw [hnone]; rfl⟩
      split
      · exact ⟨pending_taken rfl, hdump, rfl, rfl⟩
      · split <;> exact ⟨pending_taken rfl, hdump, rfl, rfl⟩

/-- The segments of a version that is committed could be prepared, and the queue was taken for it. -/
lemma prepared_of_commit {version : TabletVersion} (h : (commit c heap call).1 = some version) :
    c.dumpError = false ∧ refusesTarget call = false ∧ failsToMount call = false ∧
      ∃ segments versionId, prepareSegments c.pending call = some segments ∧
        version = ⟨versionId, segments, c.pending.schemaRoadMap, c.isSealed, (generateTasks c heap call).2⟩ ∧
        (commit c heap call).2.2 = (commitVersion call (generateTasks c heap call).2
          (newDoneTasks (generateTasks c heap call).1 (generateTasks c heap call).2) (attempts call) 0
          (generateTasks c heap call).1).2 := by
  rw [commit] at h ⊢
  cases hdump : c.dumpError with
  | true => simp [hdump] at h
  | false =>
    cases hrefuse : refusesTarget call with
    | true => simp [hdump, hrefuse] at h
    | false =>
      simp only [hdump, hrefuse, Bool.false_eq_true, if_false] at h ⊢
      rcases generateVersionWithoutId_cases c heap call with
        ⟨hmount, heq⟩ | ⟨hmount, hprepare, heq⟩ | ⟨segments, hmount, hprepare, heq⟩
      · simp [heq] at h
      · simp [heq] at h
      rw [heq] at h ⊢
      by_cases hempty : slice call c.pending.maxSegmentId ≠ [] ∧ segments = []
      · simp [if_pos hempty] at h
      simp only [if_neg hempty] at h ⊢
      split at h
      · cases h
      split at h
      · rename_i hsync
        rw [if_pos hsync]
        exact ⟨trivial, trivial, hmount, segments, _, hprepare, (Option.some.inj h).symm, rfl⟩
      · cases h

/-- **A `Commit` reads only what is pending**: on one heap, similar committers commit the same version, leave the
same tasks and have then the same left to do. -/
lemma commit_similar (h : Similar c c') (heap : TaskHeap) (call : CommitCall) :
    (commit c heap call).1 = (commit c' heap call).1 ∧ (commit c heap call).2.2 = (commit c' heap call).2.2 ∧
      ((commit c heap call).1.isSome → Similar (commit c heap call).2.1 (commit c' heap call).2.1) := by
  have htasks : generateTasks c heap call = generateTasks c' heap call := by
    rw [generateTasks, generateTasks, h.pending, h.lastPublicVersion]
  have hgenerate : (generateVersionWithoutId c heap call).1 = (generateVersionWithoutId c' heap call).1 ∧
      (generateVersionWithoutId c heap call).2.2 = (generateVersionWithoutId c' heap call).2.2 := by
    simp only [generateVersionWithoutId, htasks, h.pending, h.isSealed]
    split
    · exact ⟨rfl, rfl⟩
    split
    · exact ⟨rfl, rfl⟩
    · split <;> exact ⟨rfl, rfl⟩
  have hcommit : (commit c heap call).1 = (commit c' heap call).1 ∧
      (commit c heap call).2.2 = (commit c' heap call).2.2 := by
    simp only [commit, h.dumpError, hgenerate.1, hgenerate.2]
    split
    · exact ⟨rfl, rfl⟩
    split
    · exact ⟨rfl, rfl⟩
    split
    · exact hgenerate
    split
    · exact ⟨rfl, rfl⟩
    · split <;> exact ⟨rfl, rfl⟩
  refine ⟨hcommit.1, hcommit.2, fun hsome => ?_⟩
  obtain ⟨version, hversion⟩ := Option.isSome_iff_exists.mp hsome
  obtain ⟨hdump, hrefuse, hmount, segments, -, hprepare, -, -⟩ := prepared_of_commit hversion
  obtain ⟨hpending, hdump₁, hsealed, hpublic⟩ := commit_committer c heap call
  obtain ⟨hpending', hdump', hsealed', hpublic'⟩ := commit_committer c' heap call
  refine ⟨?_, by rw [hdump₁, hdump', h.dumpError], by rw [hsealed, hsealed', h.isSealed],
    by rw [hpublic, hpublic', hcommit.1, h.lastPublicVersion]⟩
  rw [hpending, hpending', ← h.pending, ← h.dumpError, hdump, hrefuse, hmount, hprepare]
  rfl

/-! ## What a failed commit leaves -/

lemma hasImporter_pending (c : TabletCommitter) (h : c.pending.importVersions = []) :
    c.pending.hasImporter = false := by
  rw [pending] at h ⊢
  generalize c.commitQueue = queue at h ⊢
  induction queue using reverseRecOn with
  | nil => rfl
  | append_singleton queue op ih =>
    rw [foldl_append, foldl_cons, foldl_nil] at h ⊢
    cases op with
    | dump segmentId =>
      rw [PendingOperations.collect] at h ⊢
      split_ifs at h with hne
      · rw [if_pos hne]
        exact ih h
      · rw [if_neg hne]
        exact ih h
    | sealTablet => exact ih h
    | alterTable schemaId => exact ih h
    | importVersions versions hasImporter =>
      rw [PendingOperations.collect] at h ⊢
      split_ifs at h with hne
      · exact absurd h hne
      · rw [if_neg hne]
        exact ih h
    | indexTask op => exact ih h

/-- Only the road map and a segment id are left exactly when no import and no task was pending. -/
lemma emptied_eq_pending_iff (c : TabletCommitter) (segmentId : ℤ) :
    (⟨segmentId, c.pending.schemaRoadMap, [], false, []⟩ : PendingOperations) = c.pending ↔
      c.pending.importVersions = [] ∧ c.pending.indexTasks = [] ∧ c.pending.maxSegmentId = segmentId := by
  rw [PendingOperations.ext_iff]
  constructor
  · rintro ⟨hsegment, -, himport, -, htasks⟩
    exact ⟨himport.symm, htasks.symm, hsegment.symm⟩
  · rintro ⟨himport, htasks, hsegment⟩
    exact ⟨hsegment.symm, rfl, himport.symm, (hasImporter_pending c himport).symm, htasks.symm⟩

/-- The `Commit` does not take the queue, or there is nothing in it that is lost: no import, no index
task, and no segment unless the segments of the version can be prepared. -/
def Keeps (c : TabletCommitter) (call : CommitCall) : Prop :=
  c.dumpError = true ∨ refusesTarget call = true ∨
    c.pending.importVersions = [] ∧ c.pending.indexTasks = [] ∧
      (c.pending.maxSegmentId = c.lastCommitSegmentId ∨
        failsToMount call = false ∧ (prepareSegments c.pending call).isSome = true)

/-- **A `Commit` that fails leaves what was pending** exactly when it `Keeps` it. -/
lemma similar_commit_iff (c : TabletCommitter) (heap : TaskHeap) (call : CommitCall)
    (hfails : (commit c heap call).1 = none) : Similar c (commit c heap call).2.1 ↔ Keeps c call := by
  obtain ⟨hpending, hdump, hsealed, hpublic⟩ := commit_committer c heap call
  rw [hfails] at hpublic
  have hsimilar : Similar c (commit c heap call).2.1 ↔ (commit c heap call).2.1.pending = c.pending :=
    ⟨fun h => h.pending.symm, fun h => ⟨h.symm, hdump.symm, hsealed.symm, hpublic.symm⟩⟩
  rw [hsimilar, hpending, Keeps]
  cases hdump : c.dumpError with
  | true => simp
  | false =>
    cases hrefuse : refusesTarget call with
    | true => simp
    | false =>
      cases hmount : failsToMount call with
      | true => simp [emptied_eq_pending_iff]
      | false =>
        cases hprepare : prepareSegments c.pending call with
        | none => simp [emptied_eq_pending_iff]
        | some segments => simp [emptied_eq_pending_iff]

/-- The `Commit` does not come to the index tasks, or finds none to write to: the merged target brings no copies,
and no task that the version on disk or the last public version lists is done without a committed version. -/
def KeepsTasks (c : TabletCommitter) (heap : TaskHeap) (call : CommitCall) : Prop :=
  c.dumpError = true ∨ refusesTarget call = true ∨ failsToMount call = true ∨
    targetTasks call = [] ∧ ∀ task ∈ call.onDiskVersion.indexTaskQueue ++ c.lastPublicVersion.indexTaskQueue,
      ∀ taskMeta, heap[task]? = some taskMeta → taskMeta.state = .done → taskMeta.committedVersionId ≠ invalidVersionId

/-- The retries of `CommitVersion` change the tasks only by `setCommittedVersionId`: what that keeps, they keep. -/
lemma commitVersion_keeps {α : Type*} (f : TaskHeap → α) {call : CommitCall} {queue : IndexTaskQueue}
    {doneTasks : List (String × String)}
    (hset : ∀ versionId heap, f (setCommittedVersionId doneTasks versionId heap queue) = f heap) (retries : ℕ) :
    ∀ attempt heap, f (commitVersion call queue doneTasks retries attempt heap).2 = f heap := by
  induction retries with
  | zero => exact fun _ _ => rfl
  | succ retries ih =>
    intro attempt heap
    rw [commitVersion]
    split
    · exact hset _ _
    · split
      · exact hset _ _
      · exact (ih _ _).trans (hset _ _)
    · exact hset _ _

/-- Without a newly done task there is nothing to mark. -/
lemma commitVersion_nil (call : CommitCall) (queue : IndexTaskQueue) (retries attempt : ℕ) (heap : TaskHeap) :
    (commitVersion call queue [] retries attempt heap).2 = heap := by
  refine commitVersion_keeps id (fun versionId heap => ?_) retries attempt heap
  have hself : markCommitted [] versionId = id := rfl
  simp only [setCommittedVersionId, hself, modify_id, foldl_fixed]

/-- **A failing `Commit` leaves the tasks**: with nothing pending for them it has no operation to handle, and with
nothing to mark it writes no version id. -/
lemma heap_commit_of_keeps (hkeeps : Keeps c call) (htasks : KeepsTasks c heap call) :
    (commit c heap call).2.2 = heap := by
  rw [commit]
  cases hdump : c.dumpError with
  | true => rfl
  | false =>
    cases hrefuse : refusesTarget call with
    | true => rfl
    | false =>
      simp only [Bool.false_eq_true, if_false]
      rcases generateVersionWithoutId_cases c heap call with
        ⟨hmount, heq⟩ | ⟨hmount, hprepare, heq⟩ | ⟨segments, hmount, hprepare, heq⟩
      · rw [heq]
      all_goals
        obtain ⟨-, hpending, -⟩ := hkeeps.resolve_left (by simp [hdump]) |>.resolve_left (by simp [hrefuse])
        obtain ⟨htarget, hdone⟩ := htasks.resolve_left (by simp [hdump]) |>.resolve_left (by simp [hrefuse])
          |>.resolve_left (by simp [hmount])
        have hclone : cloneHeap heap call = heap := by rw [cloneHeap, htarget, append_nil]
        have hqueue : cloneQueue heap call = [] := by rw [cloneQueue, htarget]; rfl
        have hgenerate : generateTasks c heap call = (heap, generatedQueue heap [] call.onDiskVersion.indexTaskQueue
            c.lastPublicVersion.indexTaskQueue (call.clock 0) (call.clock 1)) := by
          rw [generateTasks, hclone, hqueue, hpending]
          rfl
        rw [hgenerate] at heq
      · rw [heq]
      have hnone : newDoneTasks heap (generatedQueue heap [] call.onDiskVersion.indexTaskQueue
          c.lastPublicVersion.indexTaskQueue (call.clock 0) (call.clock 1)) = [] := by
        rw [newDoneTasks, map_eq_nil_iff, filter_eq_nil_iff]
        intro taskMeta hmem
        obtain ⟨task, hin, hget⟩ := mem_filterMap.mp hmem
        have hlisted : task ∈ call.onDiskVersion.indexTaskQueue ++ c.lastPublicVersion.indexTaskQueue := by
          rcases mem_of_mem_join hin with hin | hin
          · rcases mem_of_mem_join hin with hin | hin
            · cases hin
            · exact mem_append_left _ hin
          · exact mem_append_right _ hin
        have := hdone task hlisted taskMeta hget
        simpa using this
      rw [heq]
      by_cases hempty : slice call c.pending.maxSegmentId ≠ [] ∧ segments = []
      · rw [if_pos hempty]
      rw [if_neg hempty]
      dsimp only
      rw [hnone]
      split
      · exact commitVersion_nil call _ _ _ _
      · split <;> exact commitVersion_nil call _ _ _ _

/-! ## Runs -/

/-- The calls that change a committer. -/
inductive CommitterCall
  | push (segmentId : ℤ)
  | sealTablet
  | alterTable (schemaId : ℤ)
  | importVersions (versions : List ℤ) (hasImporter : Bool)
  | handleIndexTask (op : TaskOperation)
  | commit (call : CommitCall)

/-- One call: the version, if it commits one, and the state afterwards. -/
def step (s : TabletCommitter × TaskHeap) : CommitterCall → Option TabletVersion × TabletCommitter × TaskHeap
  | .push segmentId => (none, s.1.push segmentId, s.2)
  | .sealTablet => (none, s.1.sealTablet, s.2)
  | .alterTable schemaId => (none, s.1.alterTable schemaId, s.2)
  | .importVersions versions hasImporter => (none, s.1.importVersions versions hasImporter, s.2)
  | .handleIndexTask op => (none, s.1.handleIndexTask op, s.2)
  | .commit call => s.1.commit s.2 call

/-- The versions that are committed, each with its index tasks as they are then. -/
def run (s : TabletCommitter × TaskHeap) : List CommitterCall → List (TabletVersion × List IndexTaskMeta)
  | [] => []
  | call :: calls =>
    (step s call).1.toList.map (fun version =>
      (version, version.indexTaskQueue.filterMap fun task => (step s call).2.2[task]?))
    ++ run (step s call).2 calls

def fails (s : TabletCommitter × TaskHeap) : CommitterCall → Bool
  | .commit call => (s.1.commit s.2 call).1.isNone
  | _ => false

/-- The calls of a run without the `Commit`s that failed in it. -/
def withoutFailed (s : TabletCommitter × TaskHeap) : List CommitterCall → List CommitterCall
  | [] => []
  | call :: calls =>
    if fails s call then withoutFailed (step s call).2 calls
    else call :: withoutFailed (step s call).2 calls

/-- Every `Commit` that fails in the run keeps what is pending, and the tasks. -/
def KeepsAll (s : TabletCommitter × TaskHeap) : List CommitterCall → Prop
  | [] => True
  | call :: calls =>
    (∀ commitCall, call = .commit commitCall → fails s call = true →
      Keeps s.1 commitCall ∧ KeepsTasks s.1 s.2 commitCall) ∧ KeepsAll (step s call).2 calls

variable {s s' : TabletCommitter × TaskHeap}

/-- A call that does not fail does the same in similar states. -/
lemma step_similar (h : Similar s.1 s'.1) (hheap : s.2 = s'.2) (call : CommitterCall) (hok : fails s call = false) :
    (step s call).1 = (step s' call).1 ∧ (step s call).2.2 = (step s' call).2.2
    ∧ Similar (step s call).2.1 (step s' call).2.1 := by
  cases call with
  | push segmentId => exact ⟨rfl, hheap, h.push segmentId⟩
  | sealTablet => exact ⟨rfl, hheap, h.sealTablet⟩
  | alterTable schemaId => exact ⟨rfl, hheap, h.enqueue _⟩
  | importVersions versions hasImporter => exact ⟨rfl, hheap, h.enqueue _⟩
  | handleIndexTask op => exact ⟨rfl, hheap, h.enqueue _⟩
  | commit call =>
    obtain ⟨hversion, hheap', hsimilar⟩ := commit_similar h s.2 call
    have hsome : (s.1.commit s.2 call).1.isSome := by
      rw [fails] at hok
      cases hcommit : (s.1.commit s.2 call).1 with
      | none => simp [hcommit] at hok
      | some version => rfl
    rw [step, step, ← hheap]
    exact ⟨hversion, hheap', hsimilar hsome⟩

/-- A `Commit` that fails and keeps everything is as if it had not been called. -/
lemma step_failed {call : CommitCall} (hfails : fails s (.commit call) = true) (hkeeps : Keeps s.1 call)
    (htasks : KeepsTasks s.1 s.2 call) : (step s (.commit call)).1 = none
    ∧ Similar s.1 (step s (.commit call)).2.1 ∧ (step s (.commit call)).2.2 = s.2 := by
  rw [fails, Option.isNone_iff_eq_none] at hfails
  exact ⟨hfails, (similar_commit_iff s.1 s.2 call hfails).mpr hkeeps, heap_commit_of_keeps hkeeps htasks⟩

/-- The run lemma: from similar states, a run and the run without its failed `Commit`s. -/
lemma run_eq (h : Similar s.1 s'.1) (hheap : s.2 = s'.2) (calls : List CommitterCall) (hkeeps : KeepsAll s calls) :
    run s calls = run s' (withoutFailed s calls) := by
  induction calls generalizing s s' with
  | nil => rfl
  | cons call calls ih =>
    obtain ⟨hcall, hcalls⟩ := hkeeps
    rw [run, withoutFailed]
    cases hfails : fails s call with
    | false =>
      obtain ⟨hversion, hheap', hsimilar⟩ := step_similar h hheap call hfails
      simp only [Bool.false_eq_true, if_false, run, ih hsimilar hheap' hcalls, hversion, hheap']
    | true =>
      cases call with
      | commit call =>
        obtain ⟨hpending, htasks⟩ := hcall call rfl hfails
        obtain ⟨hnone, hkept, hheap'⟩ := step_failed hfails hpending htasks
        rw [if_pos rfl, hnone, Option.toList_none, map_nil, nil_append]
        exact ih (hkept.symm.trans h) (hheap'.trans hheap) hcalls
      | _ => cases hfails

/-! ## What a version owes to the operations accepted for it -/

/-- A task up to the version in which it was committed. -/
def uncommitted (taskMeta : IndexTaskMeta) : IndexTaskMeta := { taskMeta with committedVersionId := invalidVersionId }

/-- The operations have taken effect in a version: the segments of the tablet up to the last pushed one are in it,
unless the merged version covers them, and so are the segments of the import; its road map has the schemas; and its
tasks are the joined ones after `Handle` for each operation, up to the committed version ids. -/
structure TakesEffect (owed : PendingOperations) (s : TabletCommitter × TaskHeap) (call : CommitCall)
    (version : TabletVersion) (heap : TaskHeap) : Prop where
  segments : owed.maxSegmentId ≠ invalidSegmentId → ∀ segment ∈ call.segments, segment.segmentId ≤ owed.maxSegmentId →
    segment.segmentId ∉ ((usedMergedVersion call).map (·.baseSegments)).getD [] → segment.segmentId ∈ version.segments
  schemas : version.schemaRoadMap = owed.schemaRoadMap
  imports : owed.importVersions ≠ [] → (call.importer owed.importVersions).2 ⊆ version.segments
  queue : version.indexTaskQueue = (IndexTaskQueue.generate (cloneHeap s.2 call) (cloneQueue s.2 call)
    call.onDiskVersion.indexTaskQueue s.1.lastPublicVersion.indexTaskQueue (call.clock 0) (call.clock 1)
    (timedTasks call owed.indexTasks)).2
  tasks : heap.map uncommitted = (IndexTaskQueue.generate (cloneHeap s.2 call) (cloneQueue s.2 call)
    call.onDiskVersion.indexTaskQueue s.1.lastPublicVersion.indexTaskQueue (call.clock 0) (call.clock 1)
    (timedTasks call owed.indexTasks)).1.map uncommitted

/-- What has been accepted since the last `Commit` that succeeded, with the road map and the last segment so far. -/
def owedAfter (owed : PendingOperations) (s : TabletCommitter × TaskHeap) : CommitterCall → PendingOperations
  | .push segmentId => if s.1.isSealed then owed else owed.collect (.dump segmentId)
  | .sealTablet => owed
  | .alterTable schemaId => owed.collect (.alterTable schemaId)
  | .importVersions versions hasImporter => owed.collect (.importVersions versions hasImporter)
  | .handleIndexTask op => owed.collect (.indexTask op)
  | .commit call =>
    if fails s (.commit call) then owed else ⟨owed.maxSegmentId, owed.schemaRoadMap, [], false, []⟩

/-- Every version of a run has what was accepted since the last one, whether or not a `Commit` failed in between. -/
def TakeEffectAll (owed : PendingOperations) (s : TabletCommitter × TaskHeap) : List CommitterCall → Prop
  | [] => True
  | call :: calls =>
    (∀ commitCall version, call = .commit commitCall → (step s call).1 = some version →
      TakesEffect owed s commitCall version (step s call).2.2)
    ∧ TakeEffectAll (owedAfter owed s call) (step s call).2 calls

/-- The loop over the segments keeps what it has, and takes each segment up to the last pushed one. -/
lemma subset_foldlM_addSegment {maxSegmentId : ℤ} {baseSegments : List ℤ} (l : List TabletSegment) :
    ∀ {segments result : List ℤ}, l.foldlM (addSegment maxSegmentId baseSegments) segments = some result →
    segments ⊆ result ∧ ∀ segment ∈ l, segment.segmentId ≤ maxSegmentId → segment.segmentId ∉ baseSegments →
      segment.segmentId ∈ result := by
  induction l with
  | nil =>
    intro segments result h
    cases h
    exact ⟨Subset.refl _, fun _ hmem => absurd hmem not_mem_nil⟩
  | cons segment l ih =>
    intro segments result h
    rw [foldlM_cons, Option.bind_eq_bind, Option.bind_eq_some_iff] at h
    obtain ⟨next, hadd, hrest⟩ := h
    obtain ⟨hsub, hall⟩ := ih hrest
    have hnext : segments ⊆ next ∧ (segment.segmentId ≤ maxSegmentId → segment.segmentId ∉ baseSegments →
        segment.segmentId ∈ next) := by
      rw [addSegment] at hadd
      split at hadd
      · cases hadd
        exact ⟨Subset.refl _, fun _ _ => by assumption⟩
      split at hadd
      · cases hadd
        exact ⟨Subset.refl _, fun hle _ => by omega⟩
      split at hadd
      · cases hadd
        exact ⟨Subset.refl _, fun _ hbase => absurd (by assumption) hbase⟩
      split at hadd
      · cases hadd
        exact ⟨subset_append_left _ _, fun _ _ => mem_append_right _ (mem_singleton_self _)⟩
      · cases hadd
    refine ⟨fun id hid => hsub (hnext.1 hid), fun other hmem hle hbase => ?_⟩
    rcases mem_cons.mp hmem with rfl | hmem
    · exact hsub (hnext.2 hle hbase)
    · exact hall other hmem hle hbase

lemma subset_importInto {pending : PendingOperations} {segments result : List ℤ}
    (h : importInto pending call segments = some result) : segments ⊆ result
    ∧ (pending.importVersions ≠ [] → (call.importer pending.importVersions).2 ⊆ result) := by
  rw [importInto] at h
  dsimp only at h
  split_ifs at h with hnone
  · cases h
    exact ⟨Subset.refl _, fun hne => absurd hnone hne⟩
  · cases h
    exact ⟨subset_append_left _ _, fun _ => subset_append_right _ _⟩

lemma map_uncommitted_commitVersion (call : CommitCall) (queue : IndexTaskQueue)
    (doneTasks : List (String × String)) (retries attempt : ℕ) (heap : TaskHeap) :
    (commitVersion call queue doneTasks retries attempt heap).2.map uncommitted = heap.map uncommitted := by
  have hmodify (versionId : ℤ) (heap : TaskHeap) (task : ℕ) :
      (heap.modify task (markCommitted doneTasks versionId)).map uncommitted = heap.map uncommitted := by
    have hmark (taskMeta : IndexTaskMeta) :
        uncommitted (markCommitted doneTasks versionId taskMeta) = uncommitted taskMeta := by
      rw [markCommitted]
      split <;> rfl
    refine ext_getElem? fun i => ?_
    simp only [getElem?_map, getElem?_modify]
    cases heap[i]? with
    | none => rfl
    | some taskMeta =>
      simp only [Option.map_eq_map, Option.map_some]
      split
      · rw [hmark]
      · rfl
  refine commitVersion_keeps (·.map uncommitted) (fun versionId heap => ?_) retries attempt heap
  rw [setCommittedVersionId]
  induction queue generalizing heap with
  | nil => rfl
  | cons task queue ih => exact (ih _).trans (hmodify versionId heap task)

/-- A `Commit` that succeeds puts what is pending into its version. -/
lemma takesEffect_commit {version : TabletVersion} (h : (s.1.commit s.2 call).1 = some version) :
    TakesEffect s.1.pending s call version (s.1.commit s.2 call).2.2 := by
  obtain ⟨-, -, -, segments, versionId, hprepare, rfl, hheap⟩ := prepared_of_commit h
  rw [prepareSegments, Option.bind_eq_some_iff] at hprepare
  obtain ⟨added, hadded, himport⟩ := hprepare
  obtain ⟨-, hall⟩ := subset_foldlM_addSegment _ hadded
  obtain ⟨hkept, himported⟩ := subset_importInto himport
  refine ⟨fun hmax segment hmem hle hbase => ?_, rfl, himported, rfl, ?_⟩
  · exact hkept (hall segment (by rwa [slice, if_neg hmax]) hle hbase)
  · rw [hheap, map_uncommitted_commitVersion]
    rfl

/-- What is pending after a call is what has been accepted, if a failing `Commit` keeps it. -/
lemma pending_step (call : CommitterCall) (hkeeps : ∀ commitCall, call = .commit commitCall → fails s call = true →
    Keeps s.1 commitCall ∧ KeepsTasks s.1 s.2 commitCall) :
    (step s call).2.1.pending = owedAfter s.1.pending s call := by
  cases call with
  | push segmentId =>
    rw [step, owedAfter, TabletCommitter.push]
    split
    · rfl
    · exact pending_enqueue _ _
  | sealTablet =>
    rw [step, owedAfter, TabletCommitter.sealTablet]
    split
    · rfl
    · exact pending_enqueue _ _
  | alterTable schemaId => exact pending_enqueue _ _
  | importVersions versions hasImporter => exact pending_enqueue _ _
  | handleIndexTask op => exact pending_enqueue _ _
  | commit call =>
    rw [owedAfter]
    cases hfails : fails s (.commit call) with
    | true =>
      obtain ⟨hpending, htasks⟩ := hkeeps call rfl hfails
      exact (step_failed hfails hpending htasks).2.1.pending.symm
    | false =>
      rw [fails, ← Option.not_isSome, Bool.not_eq_false'] at hfails
      obtain ⟨version, hversion⟩ := Option.isSome_iff_exists.mp hfails
      obtain ⟨hdump, hrefuse, hmount, segments, -, hprepare, -⟩ := prepared_of_commit hversion
      rw [step, (commit_committer s.1 s.2 call).1, hdump, hrefuse, hmount, hprepare]
      rfl

lemma takeEffectAll_of_keepsAll (calls : List CommitterCall) (hkeeps : KeepsAll s calls) :
    TakeEffectAll s.1.pending s calls := by
  induction calls generalizing s with
  | nil => trivial
  | cons call calls ih =>
    refine ⟨fun commitCall version hcall hversion => ?_, ?_⟩
    · subst hcall
      exact takesEffect_commit hversion
    · rw [← pending_step call hkeeps.1]
      exact ih hkeeps.2

/-- A version without segments and tasks. -/
def emptyVersion : TabletVersion := ⟨invalidVersionId, [], [0], false, []⟩

/-- A committer before its first operation. -/
def newCommitter : TabletCommitter := ⟨[], invalidSegmentId, emptyVersion, [0], false, false⟩

/-- A `Commit` of a tablet with one dumping segment, published with this status; an import of version `n` brings
segment `10 * n`. -/
def oneSegmentCall (status : CallStatus) : CommitCall where
  onDiskVersion := emptyVersion
  segments := [⟨3, .dumping, true⟩]
  mergedVersionInfo := none
  targetVersionId := invalidVersionId
  acceptsTarget := true
  commitRetryCount := 1
  mounts := true
  importer := fun versions => (.ok, versions.map (10 * ·))
  generateVersionId := fun attempt => attempt
  publish := fun _ => status
  syncs := true
  clock := fun _ => 200
  generateVersionId_ne := fun attempt h => by simp [invalidVersionId] at h

/-- A new task of type `bulkload`, in a state and with an end time. -/
def bulkload (state : TaskState) (endTime : ℤ) : IndexTaskMeta where
  taskType := "bulkload"
  taskTraceId := "1"
  taskName := ""
  state := state
  params := []
  eventTimeInSecs := invalidTimestamp
  beginTimeInSecs := 0
  endTimeInSecs := endTime
  committedVersionId := invalidVersionId
  comment := ""

lemma valid_cloneQueue (heap : TaskHeap) (call : CommitCall) :
    Valid (cloneHeap heap call, cloneQueue heap call) := by
  intro task hmem
  rw [cloneQueue, mem_range'_1] at hmem
  rw [cloneHeap, length_append]
  exact hmem.2

lemma valid_cloneHeap {queue : IndexTaskQueue} (h : Valid (heap, queue))
    (call : CommitCall) : Valid (cloneHeap heap call, queue) := by
  intro task hmem
  rw [cloneHeap, length_append]
  exact Nat.lt_add_right _ (h task hmem)

/-- The operations keep their order and their tasks. -/
lemma mem_timedTasks {ops : List TaskOperation} {op : TaskOperation × ℤ}
    (h : op ∈ timedTasks call ops) : op.1 ∈ ops := by
  obtain ⟨indexed, hmem, rfl⟩ := mem_map.mp h
  exact (mem_zipIdx hmem).2.2 ▸ getElem_mem _

/-- **A stopped task stays stopped** in a new version, whatever is done to other tasks, exactly when the
last public version does not list it as unfinished or the first join does not lapse. -/
theorem generateVersion_finished_iff (c : TabletCommitter) (heap : TaskHeap) (call : CommitCall)
    (honDisk : IndexTaskQueue.Valid (heap, call.onDiskVersion.indexTaskQueue))
    (hpublic : IndexTaskQueue.Valid (heap, c.lastPublicVersion.indexTaskQueue))
    (key : String × String) (hops : ∀ op ∈ c.pending.indexTasks, op.taskMeta.key ≠ key) (version : TabletVersion)
    (hgenerate : (generateVersionWithoutId c heap call).1 = some version) : (∀ taskMeta ∈ IndexTaskQueue.tasksNamed
        ((generateVersionWithoutId c heap call).2.2, version.indexTaskQueue) key, taskMeta.stopped = true) ↔
      (IndexTaskQueue.ListsUnfinished (cloneHeap heap call) c.lastPublicVersion.indexTaskQueue key →
        ¬ IndexTaskQueue.Lapses (cloneHeap heap call) (cloneQueue heap call)
          call.onDiskVersion.indexTaskQueue (call.clock 0) key) := by
  have hunfinished := exists_unfinished_generate_iff (cloneQueue heap call)
    (call.clock 0) (call.clock 1) key (valid_cloneQueue heap call) (valid_cloneHeap honDisk call)
    (valid_cloneHeap hpublic call) (timedTasks call c.pending.indexTasks)
    fun op hop => hops op.1 (mem_timedTasks hop)
  have htasks : ((generateVersionWithoutId c heap call).2.2, version.indexTaskQueue) = generateTasks c heap call := by
    rcases generateVersionWithoutId_cases c heap call with
      ⟨-, heq⟩ | ⟨-, -, heq⟩ | ⟨segments, -, -, heq⟩
    · rw [heq] at hgenerate
      cases hgenerate
    · rw [heq] at hgenerate
      cases hgenerate
    rw [heq] at hgenerate ⊢
    split at hgenerate
    · cases hgenerate
    · cases hgenerate
      rfl
  rw [htasks, generateTasks]
  constructor
  · intro hstopped hpublished hlapses
    obtain ⟨taskMeta, hmem, hfalse⟩ := hunfinished.mpr ⟨hlapses, hpublished⟩
    rw [hstopped taskMeta hmem] at hfalse
    cases hfalse
  · intro hlapses taskMeta hmem
    by_contra hfalse
    obtain ⟨hlapsed, hpublished⟩ := hunfinished.mp ⟨taskMeta, hmem, by simpa using hfalse⟩
    exact hlapses hpublished hlapsed

/-- A `Commit` with a merged target that has finished the task, on top of a version on disk with this
queue. -/
def mergedCall (onDiskQueue : IndexTaskQueue) : CommitCall :=
  { oneSegmentCall .ok with
    onDiskVersion := { emptyVersion with indexTaskQueue := onDiskQueue }
    mergedVersionInfo := some ⟨[], [3], [bulkload .done 100]⟩ }

/-- A committer whose last public version lists the first task of the heap. -/
def publicCommitter : TabletCommitter :=
  { newCommitter with lastPublicVersion := { emptyVersion with indexTaskQueue := [0] } }

/-- The task that the merged target has finished stays finished while the version on disk lists it. -/
theorem generateVersion_stays_done : ∃ version,
      (generateVersionWithoutId publicCommitter [bulkload .pending (-1)] (mergedCall [0])).1 = some version ∧
      ∀ taskMeta ∈ IndexTaskQueue.tasksNamed
        ((generateVersionWithoutId publicCommitter [bulkload .pending (-1)] (mergedCall [0])).2.2,
          version.indexTaskQueue) ("bulkload", "1"), taskMeta.stopped = true := by
  refine ⟨_, rfl, (generateVersion_finished_iff publicCommitter [bulkload .pending (-1)]
    (mergedCall [0]) (by unfold IndexTaskQueue.Valid; decide) (by unfold IndexTaskQueue.Valid; decide)
    ("bulkload", "1") (by decide) _ rfl).mpr fun _ => not_not.mpr ?_⟩
  exact ⟨by decide, 0, by decide, by decide⟩

/-- **A finished task comes back to life.**  The merged target has finished it, the version on disk no
longer lists it, the last public version still does: the new version lists it as pending. -/
theorem generateVersion_becomes_pending : (bulkload .done 100).stopped = true ∧ ∃ version,
      (generateVersionWithoutId publicCommitter [bulkload .pending (-1)] (mergedCall [])).1 = some version ∧
      bulkload .pending (-1) ∈ IndexTaskQueue.tasksNamed
        ((generateVersionWithoutId publicCommitter [bulkload .pending (-1)] (mergedCall [])).2.2,
          version.indexTaskQueue) ("bulkload", "1") :=
  ⟨by decide, _, rfl, by decide⟩

end TabletCommitter

end Havenask
