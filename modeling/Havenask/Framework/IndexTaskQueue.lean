import Mathlib

/-!
# The index task queue

`framework/IndexTaskQueue.cpp`, with the joins of `TabletCommitter::GenerateVersionWithoutId`.

A version carries a queue of index tasks, told apart by type and trace id.  The queue holds *shared
pointers*: `Join` copies them from one queue to another, and `Abort`, `Suspend` and `Done` write to the
task itself.  So the tasks lie in a heap here, a list that only grows, and a queue is a list of places
in it.

* **`join`** keeps the tasks of its argument, in their order.  Where the receiver has stopped a task of
  the same name, the receiver's takes its place, or the task is dropped when it was stopped too long ago.
* **`handle`** applies one operation: a task is added once, overwritten by a new object, or changed
  through its pointer.

A new version joins the queue of the merged target with that of the last version on disk, then with
that of the last public version.  What becomes of a task in one join is `mem_join_iff`; in both, a
stopped task comes back to life when the first join `Lapses` (`listsUnfinished_generated_iff`).
Operations on other tasks do not matter (`tasksNamed_handle`).
-/

namespace Havenask

open List

/-- The states of an index task. -/
inductive TaskState
  | pending | suspended | aborted | done | unknown
  deriving DecidableEq

/-- `IndexTaskMeta`; the parameters are the map's entries. -/
structure IndexTaskMeta where
  taskType : String
  taskTraceId : String
  taskName : String
  state : TaskState
  params : List (String × String)
  eventTimeInSecs : ℤ
  beginTimeInSecs : ℤ
  endTimeInSecs : ℤ
  committedVersionId : ℤ
  comment : String
  deriving DecidableEq

/-- `indexlib::INVALID_TIMESTAMP`. -/
def invalidTimestamp : ℤ := -1

/-- `INVALID_VERSIONID`. -/
def invalidVersionId : ℤ := -1

/-- `DEFAULT_DONE_TASK_TTL_IN_SECONDS`: five days. -/
def defaultDoneTaskTtlInSeconds : ℤ := 24 * 3600 * 5

/-- `PARAM_LAST_SEQUENCE_NUMBER`. -/
def paramLastSequenceNumber : String := "last_sequence_number"

namespace IndexTaskMeta

variable (taskMeta : IndexTaskMeta)

/-- The name of a task: what `Find` and the map of `Join` compare. -/
def key : String × String := (taskMeta.taskType, taskMeta.taskTraceId)

/-- `DONE` or `ABORTED`. -/
def stopped : Bool := taskMeta.state == .done || taskMeta.state == .aborted

def validateStateTransfer (srcState dstState : TaskState) : Bool :=
  if srcState = dstState then true
  else if srcState = .done then false
  else if srcState = .aborted then false
  else if srcState = .suspended then decide (dstState ≠ .done)
  else true

/-- `UpdateState` at a time: the task afterwards, unchanged if the transfer is forbidden. -/
def updateState (state : TaskState) (now : ℤ) : IndexTaskMeta :=
  if validateStateTransfer taskMeta.state state then
    if state = .done ∨ state = .aborted then
      { taskMeta with state := state, params := [], endTimeInSecs := now }
    else { taskMeta with state := state }
  else taskMeta

def updateParam (name value : String) : IndexTaskMeta :=
  { taskMeta with params := (taskMeta.params.filter fun param => param.1 != name) ++ [(name, value)] }

@[simp] lemma key_updateState (state : TaskState) (now : ℤ) :
    (taskMeta.updateState state now).key = taskMeta.key := by
  rw [updateState]
  split_ifs <;> rfl

end IndexTaskMeta

/-- What an operation asks of the queue. -/
inductive TaskAction
  | add | suspend | abort | overwrite | unknown
  deriving DecidableEq

/-- The task objects; a pointer is a place in the list. -/
abbrev TaskHeap := List IndexTaskMeta

/-- An `IndexTaskQueue`: the pointers of `_indexTasks`. -/
abbrev IndexTaskQueue := List ℕ

structure TaskOperation where
  taskMeta : IndexTaskMeta
  action : TaskAction
  deriving DecidableEq

namespace IndexTaskQueue

open IndexTaskMeta

/-! ## Operations -/

section
variable (heap : TaskHeap)

def named (key : String × String) (task : ℕ) : Bool :=
  (heap[task]?).any fun taskMeta => decide (taskMeta.key = key)

def stoppedNamed (key : String × String) (task : ℕ) : Bool :=
  (heap[task]?).any fun taskMeta => decide (taskMeta.key = key) && taskMeta.stopped

variable (queue : IndexTaskQueue)

/-- `Get`: the first task of a name. -/
def get (key : String × String) : Option ℕ := queue.find? (named heap key)

/-- The entry of the map `stoppedTasks`: a later task of the name replaces an earlier one. -/
def stoppedTask (key : String × String) : Option ℕ :=
  queue.reverse.find? (stoppedNamed heap key)

/-- The task stopped less than the time to live ago. -/
def fresh (now : ℤ) (task : ℕ) : Bool :=
  (heap[task]?).any fun taskMeta => decide (now - taskMeta.endTimeInSecs < defaultDoneTaskTtlInSeconds)

/-- What `Join` puts in the place of a task of the other queue. -/
def joinTask (now : ℤ) (task : ℕ) : Option ℕ :=
  match (heap[task]?).bind fun taskMeta => stoppedTask heap queue taskMeta.key with
  | some stopped => if fresh heap now stopped then some stopped else none
  | none => some task

/-- `Join`: the queue afterwards. -/
def join (queue other : IndexTaskQueue) (now : ℤ) : IndexTaskQueue :=
  other.filterMap (joinTask heap queue now)

/-- `Add`: a task that is there is left alone. -/
def add (taskMeta : IndexTaskMeta) (now : ℤ) : TaskHeap × IndexTaskQueue :=
  match get heap queue taskMeta.key with
  | some _ => (heap, queue)
  | none => (heap ++ [{ taskMeta with beginTimeInSecs := now }], queue ++ [heap.length])

/-- `Abort`, `Suspend` and `Done`: the task is changed through its pointer. -/
def setState (key : String × String) (state : TaskState)
    (now : ℤ) : TaskHeap :=
  match get heap queue key with
  | none => heap
  | some task => heap.modify task fun taskMeta => taskMeta.updateState state now

/-- The task that `Overwrite` puts in the place of an old one. -/
def overwritten (oldMeta newMeta : IndexTaskMeta) (now : ℤ) : IndexTaskMeta :=
  let numbered :=
    match newMeta.params.lookup paramLastSequenceNumber, oldMeta.params.lookup paramLastSequenceNumber with
    | none, some number => newMeta.updateParam paramLastSequenceNumber number
    | _, _ => newMeta
  { numbered with
    eventTimeInSecs :=
      if newMeta.eventTimeInSecs = invalidTimestamp then oldMeta.eventTimeInSecs
      else newMeta.eventTimeInSecs
    beginTimeInSecs := now }

/-- `Overwrite`: a new object takes the place of the first task of the name. -/
def overwrite (newMeta : IndexTaskMeta) (now : ℤ) :
    TaskHeap × IndexTaskQueue :=
  match (get heap queue newMeta.key).bind fun task => heap[task]? with
  | none => (heap, queue)
  | some oldMeta =>
    if validateStateTransfer oldMeta.state newMeta.state then
      (heap ++ [overwritten oldMeta newMeta now], queue.set (queue.findIdx (named heap newMeta.key)) heap.length)
    else (heap, queue)

/-- The task that `Handle` adds before it suspends it. -/
def suspendedMeta (s : TaskHeap × IndexTaskQueue) (taskMeta : IndexTaskMeta) (now : ℤ) : IndexTaskMeta :=
  if (get s.1 s.2 taskMeta.key).isSome then taskMeta.updateState .suspended now else taskMeta

/-- `Handle`, at a time. -/
def handle (s : TaskHeap × IndexTaskQueue) (timed : TaskOperation × ℤ) : TaskHeap × IndexTaskQueue :=
  let op := timed.1
  let now := timed.2
  match op.action with
  | .abort => (setState s.1 s.2 op.taskMeta.key .aborted now, s.2)
  | .overwrite => overwrite s.1 s.2 op.taskMeta now
  | .suspend =>
    let added := add s.1 s.2 (suspendedMeta s op.taskMeta now) now
    (setState added.1 added.2 op.taskMeta.key .suspended now, added.2)
  | .add => add s.1 s.2 op.taskMeta now
  | .unknown => s

/-- The two joins of `GenerateVersionWithoutId`, each at its own time. -/
def generatedQueue (merged onDisk published : IndexTaskQueue) (now now' : ℤ) : IndexTaskQueue :=
  join heap (join heap merged onDisk now) published now'

/-- The joins, then the pending operations, each with the time at which it is handled. -/
def generate (merged onDisk published : IndexTaskQueue) (now now' : ℤ)
    (ops : List (TaskOperation × ℤ)) : TaskHeap × IndexTaskQueue :=
  ops.foldl handle (heap, generatedQueue heap merged onDisk published now now')

end

/-! ## Names -/

variable {heap : TaskHeap} {queue other merged onDisk published : IndexTaskQueue}
  {key : String × String} {task : ℕ} {now now' : ℤ}

lemma named_iff : named heap key task = true ↔ ∃ taskMeta, heap[task]? = some taskMeta ∧ taskMeta.key = key := by
  cases h : heap[task]? <;> simp [named, h]

lemma stoppedNamed_iff : stoppedNamed heap key task = true ↔
      ∃ taskMeta, heap[task]? = some taskMeta ∧ taskMeta.key = key ∧ taskMeta.stopped = true := by
  cases h : heap[task]? <;> simp [stoppedNamed, h]

lemma named_of_stoppedNamed (h : stoppedNamed heap key task = true) : named heap key task = true := by
  obtain ⟨taskMeta, hmeta, hkey, -⟩ := stoppedNamed_iff.mp h
  exact named_iff.mpr ⟨taskMeta, hmeta, hkey⟩

lemma stoppedTask_eq_none :
    stoppedTask heap queue key = none ↔ ∀ task ∈ queue, ¬ stoppedNamed heap key task = true := by
  simp [stoppedTask]

lemma stoppedTask_some (h : stoppedTask heap queue key = some task) :
    task ∈ queue ∧ stoppedNamed heap key task = true :=
  ⟨mem_reverse.mp (mem_of_find?_eq_some h), find?_some h⟩

/-! ## What a join does to one name -/

/-- In a join, a task of a name is replaced by the receiver's stopped one, or dropped with it. -/
lemma joinTask_of_named (h : named heap key task = true) : joinTask heap queue now task =
      match stoppedTask heap queue key with
      | some stopped => if fresh heap now stopped then some stopped else none
      | none => some task := by
  obtain ⟨taskMeta, hmeta, rfl⟩ := named_iff.mp h
  rw [joinTask, hmeta, Option.bind_some]

lemma named_joinTask {task' : ℕ} (h : joinTask heap queue now task = some task') (hvalid : task < heap.length) :
    named heap key task' = named heap key task := by
  have hget : heap[task]? = some heap[task] := getElem?_eq_getElem hvalid
  rw [joinTask, hget, Option.bind_some] at h
  cases hstop : stoppedTask heap queue heap[task].key with
  | none =>
    rw [hstop] at h
    cases h
    rfl
  | some stopped =>
    rw [hstop] at h
    simp only at h
    split at h
    · cases h
      obtain ⟨taskMeta, hmeta, hkey, -⟩ := stoppedNamed_iff.mp (stoppedTask_some hstop).2
      rw [Bool.eq_iff_iff, named_iff, named_iff, hmeta, hget]
      simp [hkey]
    · cases h

/-- **The tasks of a name after a join.** -/
lemma mem_join_iff (hvalid : ∀ task ∈ other, task < heap.length) (hnamed : named heap key task = true) :
    task ∈ join heap queue other now ↔ match stoppedTask heap queue key with
      | some stopped =>
        task = stopped ∧ fresh heap now stopped = true ∧ ∃ task' ∈ other, named heap key task' = true
      | none => task ∈ other := by
  rw [join, mem_filterMap]
  constructor
  · rintro ⟨task', hmem, hjoin⟩
    have hnamed' := (named_joinTask hjoin (hvalid task' hmem)).symm.trans hnamed
    rw [joinTask_of_named hnamed'] at hjoin
    cases hstop : stoppedTask heap queue key with
    | none =>
      rw [hstop] at hjoin
      cases hjoin
      exact hmem
    | some stopped =>
      rw [hstop] at hjoin
      simp only at hjoin ⊢
      split at hjoin
      · rename_i hfresh
        cases hjoin
        exact ⟨rfl, hfresh, task', hmem, hnamed'⟩
      · cases hjoin
  · cases hstop : stoppedTask heap queue key with
    | none =>
      intro hmem
      refine ⟨task, hmem, ?_⟩
      rw [joinTask_of_named hnamed, hstop]
    | some stopped =>
      rintro ⟨rfl, hfresh, task', hmem, hnamed'⟩
      refine ⟨task', hmem, ?_⟩
      rw [joinTask_of_named hnamed', hstop]
      simp only [hfresh, if_true]

/-- No join takes a task from outside the two queues. -/
lemma mem_of_mem_join (h : task ∈ join heap queue other now) : task ∈ queue ∨ task ∈ other := by
  obtain ⟨task', hmem, hjoin⟩ := mem_filterMap.mp h
  rw [joinTask] at hjoin
  split at hjoin
  · rename_i stopped hstop
    split at hjoin
    · cases hjoin
      obtain ⟨taskMeta, -, hstop⟩ := Option.bind_eq_some_iff.mp hstop
      exact Or.inl (stoppedTask_some hstop).1
    · cases hjoin
  · cases hjoin
    exact Or.inr hmem

/-! ## A stopped task in the two joins -/

/-- The queue says that the task is not stopped. -/
def ListsUnfinished (heap : TaskHeap) (queue : IndexTaskQueue) (key : String × String) : Prop :=
  ∃ task ∈ queue, named heap key task = true ∧ ¬ stoppedNamed heap key task = true

def ListsStopped (heap : TaskHeap) (queue : IndexTaskQueue) (key : String × String) : Prop :=
  ∃ task ∈ queue, stoppedNamed heap key task = true

/-- The first join forgets that the task was stopped: the merged target stopped it too long ago or the
version on disk does not list it; or neither of the two stopped it. -/
def Lapses (heap : TaskHeap) (merged onDisk : IndexTaskQueue) (now : ℤ) (key : String × String) : Prop :=
  match stoppedTask heap merged key with
  | some stopped => ¬ (fresh heap now stopped = true ∧ ∃ task ∈ onDisk, named heap key task = true)
  | none => ¬ ListsStopped heap onDisk key

lemma listsStopped_join_iff (hvalid : ∀ task ∈ onDisk, task < heap.length) :
    ListsStopped heap (join heap merged onDisk now) key ↔ ¬ Lapses heap merged onDisk now key := by
  constructor
  · rintro ⟨task, hmem, hstopped⟩
    have hmem := (mem_join_iff hvalid (named_of_stoppedNamed hstopped)).mp hmem
    rw [Lapses]
    cases hstop : stoppedTask heap merged key with
    | none =>
      rw [hstop] at hmem
      exact not_not.mpr ⟨task, hmem, hstopped⟩
    | some stopped =>
      rw [hstop] at hmem
      exact not_not.mpr ⟨hmem.2.1, hmem.2.2⟩
  · intro hlapse
    rw [Lapses] at hlapse
    cases hstop : stoppedTask heap merged key with
    | none =>
      rw [hstop] at hlapse
      obtain ⟨task, hmem, hstopped⟩ := not_not.mp hlapse
      refine ⟨task, (mem_join_iff hvalid (named_of_stoppedNamed hstopped)).mpr ?_, hstopped⟩
      rw [hstop]
      exact hmem
    | some stopped =>
      rw [hstop] at hlapse
      obtain ⟨hfresh, hlisted⟩ := not_not.mp hlapse
      have hstopped := (stoppedTask_some hstop).2
      refine ⟨stopped, (mem_join_iff hvalid (named_of_stoppedNamed hstopped)).mpr ?_, hstopped⟩
      rw [hstop]
      exact ⟨rfl, hfresh, hlisted⟩

/-- **What the two joins say of a task**: it is unfinished exactly when the public version lists it so
and the first join has forgotten that it was stopped. -/
lemma listsUnfinished_generated_iff (merged : IndexTaskQueue) (now now' : ℤ)
    (key : String × String) (honDisk : ∀ task ∈ onDisk, task < heap.length)
    (hpublic : ∀ task ∈ published, task < heap.length) :
    ListsUnfinished heap (generatedQueue heap merged onDisk published now now') key ↔
      Lapses heap merged onDisk now key ∧ ListsUnfinished heap published key := by
  have hjoin : stoppedTask heap (join heap merged onDisk now) key = none ↔ Lapses heap merged onDisk now key := by
    rw [← not_iff_not, ← listsStopped_join_iff honDisk, stoppedTask_eq_none, ListsStopped]
    push Not
    rfl
  constructor
  · rintro ⟨task, hmem, hnamed, hstopped⟩
    have hmem := (mem_join_iff hpublic hnamed).mp hmem
    cases hstop : stoppedTask heap (join heap merged onDisk now) key with
    | none =>
      rw [hstop] at hmem
      exact ⟨hjoin.mp hstop, task, hmem, hnamed, hstopped⟩
    | some stopped =>
      rw [hstop] at hmem
      rw [hmem.1] at hstopped
      exact absurd (stoppedTask_some hstop).2 hstopped
  · rintro ⟨hlapse, task, hmem, hnamed, hstopped⟩
    refine ⟨task, (mem_join_iff hpublic hnamed).mpr ?_, hnamed, hstopped⟩
    rw [hjoin.mpr hlapse]
    exact hmem

/-! ## Operations on other tasks -/

def taskNamed (heap : TaskHeap) (key : String × String) (task : ℕ) : Option IndexTaskMeta :=
  (heap[task]?).filter fun taskMeta => decide (taskMeta.key = key)

def tasksNamed (s : TaskHeap × IndexTaskQueue) (key : String × String) : List IndexTaskMeta :=
  s.2.filterMap (taskNamed s.1 key)

/-- The pointers of the queue point into the heap. -/
def Valid (s : TaskHeap × IndexTaskQueue) : Prop := ∀ task ∈ s.2, task < s.1.length

variable {taskMeta : IndexTaskMeta} {key' : String × String} {s : TaskHeap × IndexTaskQueue}

lemma taskNamed_eq_some :
    taskNamed heap key task = some taskMeta ↔ heap[task]? = some taskMeta ∧ taskMeta.key = key := by
  simp [taskNamed, Option.filter_eq_some_iff]

lemma taskNamed_eq_none_of_named (h : named heap key' task = true)
    (hne : key' ≠ key) : taskNamed heap key task = none := by
  obtain ⟨taskMeta, hget, rfl⟩ := named_iff.mp h
  simp [taskNamed, hget, Option.filter, hne]

lemma taskNamed_append (h : task < heap.length) :
    taskNamed (heap ++ [taskMeta]) key task = taskNamed heap key task := by
  rw [taskNamed, taskNamed, getElem?_append_left h]

lemma taskNamed_append_length (h : taskMeta.key ≠ key) : taskNamed (heap ++ [taskMeta]) key heap.length = none := by
  simp [taskNamed, Option.filter, h]

lemma listsUnfinished_iff :
    ListsUnfinished heap queue key ↔ ∃ taskMeta ∈ tasksNamed (heap, queue) key, taskMeta.stopped = false := by
  constructor
  · rintro ⟨task, hmem, hnamed, hstopped⟩
    obtain ⟨taskMeta, hget, hkey⟩ := named_iff.mp hnamed
    refine ⟨taskMeta, mem_filterMap.mpr ⟨task, hmem, taskNamed_eq_some.mpr ⟨hget, hkey⟩⟩, ?_⟩
    by_contra h
    exact hstopped (stoppedNamed_iff.mpr ⟨taskMeta, hget, hkey, by simpa using h⟩)
  · rintro ⟨taskMeta, hmem, hstopped⟩
    obtain ⟨task, hmem, htask⟩ := mem_filterMap.mp hmem
    obtain ⟨hget, hkey⟩ := taskNamed_eq_some.mp htask
    refine ⟨task, hmem, named_iff.mpr ⟨taskMeta, hget, hkey⟩, fun h => ?_⟩
    obtain ⟨taskMeta', hget', -, hstopped'⟩ := stoppedNamed_iff.mp h
    rw [hget] at hget'
    cases hget'
    rw [hstopped] at hstopped'
    cases hstopped'

lemma named_of_get (h : get heap queue key = some task) : task ∈ queue ∧ named heap key task = true :=
  ⟨mem_of_find?_eq_some h, find?_some h⟩

/-- Where `Get` finds a task, the place that `Overwrite` looks for is in the queue and has the key. -/
lemma named_findIdx (h : get heap queue key = some task) :
    ∃ _ : queue.findIdx (named heap key) < queue.length, named heap key queue[queue.findIdx (named heap key)] = true :=
  ⟨findIdx_lt_length_of_exists ⟨task, named_of_get h⟩, findIdx_getElem⟩

lemma key_overwritten (oldMeta newMeta : IndexTaskMeta) (now : ℤ) :
    (overwritten oldMeta newMeta now).key = newMeta.key := by
  simp only [overwritten, key]
  split <;> rfl

@[simp] lemma length_setState (state : TaskState) : (setState heap queue key state now).length = heap.length := by
  rw [setState]
  split
  · rfl
  · exact length_modify ..

lemma taskNamed_setState (hne : key' ≠ key) (state : TaskState) (task : ℕ) :
    taskNamed (setState heap queue key' state now) key task = taskNamed heap key task := by
  rw [setState]
  cases hget : get heap queue key' with
  | none => rfl
  | some task' =>
    obtain ⟨taskMeta, htask, hkey⟩ := named_iff.mp (named_of_get hget).2
    rw [taskNamed, taskNamed, getElem?_modify]
    by_cases heq : task' = task
    · subst heq
      simp [htask, Option.filter, hkey, hne]
    · simp [heq]

lemma tasksNamed_setState (hne : key' ≠ key) (state : TaskState) :
    tasksNamed (setState heap queue key' state now, other) key = tasksNamed (heap, other) key :=
  filterMap_congr fun task _ => taskNamed_setState hne state task

section
variable (h : Valid (heap, queue))
include h

lemma valid_add (taskMeta : IndexTaskMeta) : Valid (add heap queue taskMeta now) := by
  rw [add]
  split
  · exact h
  intro task hmem
  simp only [length_append, length_singleton]
  rcases mem_append.mp hmem with hmem | hmem
  · exact Nat.lt_succ_of_lt (h task hmem)
  · rw [mem_singleton.mp hmem]
    exact Nat.lt_succ_self _

lemma tasksNamed_add (hne : taskMeta.key ≠ key) :
    tasksNamed (add heap queue taskMeta now) key = tasksNamed (heap, queue) key := by
  rw [add]
  split
  · rfl
  have hnew : ({ taskMeta with beginTimeInSecs := now } : IndexTaskMeta).key ≠ key := hne
  simp only [tasksNamed, filterMap_append, filterMap_cons, filterMap_nil, taskNamed_append_length hnew, append_nil]
  exact filterMap_congr fun task hmem => taskNamed_append (h task hmem)

lemma valid_overwrite (newMeta : IndexTaskMeta) :
    Valid (overwrite heap queue newMeta now) := by
  rw [overwrite]
  split
  · exact h
  split
  · intro task hmem
    simp only [length_append, length_singleton]
    rcases mem_or_eq_of_mem_set hmem with hmem | rfl
    · exact Nat.lt_succ_of_lt (h task hmem)
    · exact Nat.lt_succ_self _
  · exact h

omit h in
/-- Replacing an entry that the map drops by another that it drops changes nothing. -/
lemma filterMap_set_of_none {α β : Type} (f : α → Option β) (l : List α) (i : ℕ) (a : α)
    (hi : i < l.length) (hold : f l[i] = none) (hnew : f a = none) : (l.set i a).filterMap f = l.filterMap f := by
  induction l generalizing i with
  | nil => rfl
  | cons b l ih =>
    cases i with
    | zero =>
      rw [getElem_cons_zero] at hold
      simp [hold, hnew]
    | succ i =>
      rw [getElem_cons_succ] at hold
      simp only [set_cons_succ, filterMap_cons]
      rw [ih i (by simpa using hi) hold]

lemma tasksNamed_overwrite {newMeta : IndexTaskMeta} (hne : newMeta.key ≠ key) :
    tasksNamed (overwrite heap queue newMeta now) key = tasksNamed (heap, queue) key := by
  rw [overwrite]
  split
  · rfl
  rename_i oldMeta hold
  split
  · obtain ⟨task, hget, -⟩ := Option.bind_eq_some_iff.mp hold
    obtain ⟨hidx, hnamed⟩ := named_findIdx hget
    have hnew : (overwritten oldMeta newMeta now).key ≠ key := by rwa [key_overwritten]
    dsimp only [tasksNamed]
    rw [filterMap_set_of_none _ _ _ _ hidx _ (taskNamed_append_length hnew)]
    · exact filterMap_congr fun task hmem => taskNamed_append (h task hmem)
    · rw [taskNamed_append (h _ (getElem_mem hidx))]
      exact taskNamed_eq_none_of_named hnamed hne
  · rfl

end

lemma key_suspendedMeta (s : TaskHeap × IndexTaskQueue) (taskMeta : IndexTaskMeta) (now : ℤ) :
    (suspendedMeta s taskMeta now).key = taskMeta.key := by
  rw [suspendedMeta]
  split
  · exact key_updateState _ _ _
  · rfl

lemma valid_handle (h : Valid s) (op : TaskOperation × ℤ) : Valid (handle s op) := by
  rw [handle]
  cases op.1.action with
  | add => exact valid_add h _
  | overwrite => exact valid_overwrite h _
  | unknown => exact h
  | abort =>
    intro task hmem
    rw [length_setState]
    exact h task hmem
  | suspend =>
    intro task hmem
    rw [length_setState]
    exact valid_add h (suspendedMeta s op.1.taskMeta op.2) task hmem

/-- **An operation leaves the tasks of other names alone.** -/
lemma tasksNamed_handle (h : Valid s) {op : TaskOperation × ℤ}
    (hne : op.1.taskMeta.key ≠ key) : tasksNamed (handle s op) key = tasksNamed s key := by
  rw [handle]
  cases op.1.action with
  | add => exact tasksNamed_add h hne
  | overwrite => exact tasksNamed_overwrite h hne
  | unknown => rfl
  | abort => exact tasksNamed_setState hne _
  | suspend =>
    have hkey := key_suspendedMeta s op.1.taskMeta op.2
    exact (tasksNamed_setState hne _).trans (tasksNamed_add h (hkey ▸ hne))

lemma tasksNamed_foldl_handle (h : Valid s)
    (ops : List (TaskOperation × ℤ)) (hne : ∀ op ∈ ops, op.1.taskMeta.key ≠ key) :
    tasksNamed (ops.foldl handle s) key = tasksNamed s key := by
  induction ops generalizing s with
  | nil => rfl
  | cons op ops ih =>
    rw [foldl_cons, ih (valid_handle h op) fun op hop => hne op (mem_cons_of_mem _ hop),
      tasksNamed_handle h (hne op mem_cons_self)]

lemma valid_generatedQueue (now now' : ℤ) (hmerged : Valid (heap, merged))
    (honDisk : Valid (heap, onDisk)) (hpublished : Valid (heap, published)) :
    Valid (heap, generatedQueue heap merged onDisk published now now') := by
  intro task hmem
  rcases mem_of_mem_join hmem with hmem | hmem
  · rcases mem_of_mem_join hmem with hmem | hmem
    · exact hmerged task hmem
    · exact honDisk task hmem
  · exact hpublished task hmem

/-- **What a new version says of a task** that no pending operation names: it is unfinished exactly when
the last public version lists it so and the first join lapses. -/
lemma exists_unfinished_generate_iff (merged : IndexTaskQueue) (now now' : ℤ) (key : String × String)
    (hmerged : Valid (heap, merged)) (honDisk : Valid (heap, onDisk))
    (hpublished : Valid (heap, published)) (ops : List (TaskOperation × ℤ))
    (hops : ∀ op ∈ ops, op.1.taskMeta.key ≠ key) :
    (∃ taskMeta ∈ tasksNamed (generate heap merged onDisk published now now' ops) key, taskMeta.stopped = false) ↔
      Lapses heap merged onDisk now key ∧ ListsUnfinished heap published key := by
  have hvalid := valid_generatedQueue now now' hmerged honDisk hpublished
  rw [generate, tasksNamed_foldl_handle hvalid ops hops, ← listsUnfinished_iff,
    listsUnfinished_generated_iff merged now now' key honDisk hpublished]

end IndexTaskQueue

end Havenask
