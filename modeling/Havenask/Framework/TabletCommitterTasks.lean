import Havenask.Framework.TabletCommitter

/-!
# What a commit does to the tasks of other versions

`Join` copies pointers, so the tasks of a new version are, in part, the very objects of the version on
disk and of the last public version.  Two things then write through them: `Handle`, when it aborts or
suspends a task, and `Commit` itself, when it gives the tasks that are newly done their committed version
id.

* **`Listed`** says where a shared task stands: in a queue that names it once.  An operation changes the
  task as `react` says, or puts a new object in its place, and then the queue lists it no more
  (`listed_handle`, `unlisted_handle`).
* **`disturbs`** says when the operations of a commit change a task: no change can be undone by a later
  operation, since `rank` grows (`observed_follow`, `rank_lt_follow`).
* `setCommittedVersionId` changes the newly done tasks that are still listed
  (`getElem?_setCommittedVersionId`).

Together: a commit leaves the tasks of other versions alone exactly when it is `Quiet`.
-/

namespace Havenask

namespace IndexTaskQueue

open IndexTaskMeta List Option

variable {heap : TaskHeap} {queue : IndexTaskQueue} {s : TaskHeap × IndexTaskQueue}
  {key : String × String} {task : ℕ} {taskMeta taskMeta' : IndexTaskMeta}

/-! ## Queues that name a task once -/

/-- The name of the task at a pointer. -/
def keyAt (heap : TaskHeap) (task : ℕ) : Option (String × String) := (heap[task]?).map IndexTaskMeta.key

/-- The queue names each of its tasks once. -/
def Distinct (s : TaskHeap × IndexTaskQueue) : Prop := (s.2.map (keyAt s.1)).Nodup

lemma named_iff_keyAt : named heap key task = true ↔ keyAt heap task = some key := by
  rw [named_iff, keyAt, map_eq_some_iff]

/-- `Get` finds the task itself where each is named once. -/
lemma get_eq_of_distinct (h : Distinct (heap, queue)) (hmem : task ∈ queue)
    (hkey : keyAt heap task = some key) : get heap queue key = some task := by
  have hsome : (get heap queue key).isSome := by
    rw [get, find?_isSome]
    exact ⟨task, hmem, named_iff_keyAt.mpr hkey⟩
  obtain ⟨task', hget⟩ := isSome_iff_exists.mp hsome
  obtain ⟨hmem', hnamed⟩ := named_of_get hget
  rw [hget, inj_on_of_nodup_map h hmem' hmem ((named_iff_keyAt.mp hnamed).trans hkey.symm)]

lemma keyAt_append (h : task < heap.length) : keyAt (heap ++ [taskMeta]) task = keyAt heap task := by
  rw [keyAt, keyAt, getElem?_append_left h]

lemma keyAt_append_length : keyAt (heap ++ [taskMeta]) heap.length = some taskMeta.key := by
  simp [keyAt]

lemma keyAt_setState (state : TaskState) (now : ℤ) (task : ℕ) :
    keyAt (setState heap queue key state now) task = keyAt heap task := by
  rw [setState]
  split
  · rfl
  rw [keyAt, keyAt, getElem?_modify]
  cases heap[task]? with
  | none => rfl
  | some taskMeta => simp only [map_some]; split <;> simp

lemma map_keyAt_append (h : Valid (heap, queue)) : queue.map (keyAt (heap ++ [taskMeta])) = queue.map (keyAt heap) :=
  map_congr_left fun _ hmem => keyAt_append (h _ hmem)

lemma distinct_setState (h : Distinct (heap, queue)) (other : IndexTaskQueue) (state : TaskState)
    (now : ℤ) : Distinct (setState heap other key state now, queue) := by
  have heq : queue.map (keyAt (setState heap other key state now)) = queue.map (keyAt heap) :=
    map_congr_left fun task _ => keyAt_setState state now task
  rw [Distinct, heq]
  exact h

lemma distinct_add (hvalid : Valid (heap, queue)) (h : Distinct (heap, queue))
    (taskMeta : IndexTaskMeta) (now : ℤ) : Distinct (add heap queue taskMeta now) := by
  rw [add]
  cases hget : get heap queue taskMeta.key with
  | some _ => exact h
  | none =>
    rw [Distinct, map_append, map_keyAt_append hvalid, map_singleton, keyAt_append_length, nodup_append]
    refine ⟨h, nodup_singleton _, ?_⟩
    rintro _ hold _ hnew rfl
    obtain ⟨task, hmem, hkey⟩ := mem_map.mp hold
    rw [get, find?_eq_none] at hget
    exact hget task hmem (named_iff_keyAt.mpr (hkey.trans (mem_singleton.mp hnew)))

variable {newMeta : IndexTaskMeta}

/-- `Overwrite` puts the new object at the place of the only task of its name. -/
lemma overwrite_of_distinct (h : Distinct (heap, queue)) (hmem : task ∈ queue)
    (hget : heap[task]? = some taskMeta) (hkey : newMeta.key = taskMeta.key) (now : ℤ) :
    overwrite heap queue newMeta now = if validateStateTransfer taskMeta.state newMeta.state then
        (heap ++ [overwritten taskMeta newMeta now],
          queue.set (queue.findIdx (named heap newMeta.key)) heap.length) else (heap, queue) := by
  have hkeyAt : keyAt heap task = some newMeta.key := by rw [keyAt, hget, hkey, map_some]
  rw [overwrite, get_eq_of_distinct h hmem hkeyAt, bind_some, hget]

lemma distinct_overwrite (hvalid : Valid (heap, queue)) (h : Distinct (heap, queue))
    (newMeta : IndexTaskMeta) (now : ℤ) : Distinct (overwrite heap queue newMeta now) := by
  rw [overwrite]
  split
  · exact h
  rename_i oldMeta hold
  split
  · obtain ⟨task, hget, -⟩ := bind_eq_some_iff.mp hold
    obtain ⟨hidx, hnamed⟩ := named_findIdx hget
    have heq : (queue.set (queue.findIdx (named heap newMeta.key)) heap.length).map
        (keyAt (heap ++ [overwritten oldMeta newMeta now])) = queue.map (keyAt heap) := by
      have hold : some newMeta.key =
          (queue.map (keyAt heap)).get ⟨queue.findIdx (named heap newMeta.key),
            by rw [length_map]; exact hidx⟩ := by
        rw [get_eq_getElem, getElem_map, named_iff_keyAt.mp hnamed]
      rw [map_set, map_keyAt_append hvalid, keyAt_append_length, key_overwritten, hold]
      exact set_getElem_self _
    rw [Distinct, heq]
    exact h
  · exact h

lemma distinct_handle (hvalid : Valid s) (h : Distinct s) (op : TaskOperation × ℤ) : Distinct (handle s op) := by
  rw [handle]
  cases op.1.action with
  | add => exact distinct_add hvalid h _ _
  | overwrite => exact distinct_overwrite hvalid h _ _
  | unknown => exact h
  | abort => exact distinct_setState h _ _ _
  | suspend => exact distinct_setState (distinct_add hvalid h _ _) _ _ _

/-! ## A task under one operation -/

/-- The queue lists the task, which it alone has this name. -/
structure Listed (s : TaskHeap × IndexTaskQueue) (task : ℕ) (taskMeta : IndexTaskMeta) : Prop where
  valid : Valid s
  distinct : Distinct s
  getElem : s.1[task]? = some taskMeta
  mem : task ∈ s.2

/-- The queue does not list the task. -/
structure Unlisted (s : TaskHeap × IndexTaskQueue) (task : ℕ) (taskMeta : IndexTaskMeta) : Prop where
  valid : Valid s
  getElem : s.1[task]? = some taskMeta
  notMem : task ∉ s.2

section
variable (taskMeta : IndexTaskMeta)

/-- The operation is an `Overwrite` that puts another object in the place of the task. -/
def replaces (op : TaskOperation) : Bool :=
  decide (op.taskMeta.key = taskMeta.key) && decide (op.action = .overwrite) &&
    validateStateTransfer taskMeta.state op.taskMeta.state

/-- What an operation that does not replace the task makes of it. -/
def react (op : TaskOperation × ℤ) : IndexTaskMeta :=
  if op.1.taskMeta.key = taskMeta.key then
    match op.1.action with
    | .abort => taskMeta.updateState .aborted op.2
    | .suspend => taskMeta.updateState .suspended op.2
    | _ => taskMeta
  else taskMeta

lemma key_react (op : TaskOperation × ℤ) : (react taskMeta op).key = taskMeta.key := by
  rw [react]
  split
  · split <;> simp
  · rfl

end

section
variable (h : heap[task]? = some taskMeta)
include h

lemma lt_of_getElem : task < heap.length := (List.getElem?_eq_some_iff.mp h).1

lemma getElem?_add (newMeta : IndexTaskMeta) (now : ℤ) :
    (add heap queue newMeta now).1[task]? = some taskMeta := by
  rw [add]
  split
  · exact h
  · rw [getElem?_append_left (lt_of_getElem h)]
    exact h

omit h in
lemma mem_add (newMeta : IndexTaskMeta) (now : ℤ) (h : task < heap.length) :
    task ∈ (add heap queue newMeta now).2 ↔ task ∈ queue := by
  rw [add]
  split
  · rfl
  · simp only [mem_append, mem_singleton, or_iff_left (Nat.ne_of_lt h)]

lemma getElem?_overwrite (newMeta : IndexTaskMeta) (now : ℤ) :
    (overwrite heap queue newMeta now).1[task]? = some taskMeta := by
  rw [overwrite]
  split
  · exact h
  split
  · rw [getElem?_append_left (lt_of_getElem h)]
    exact h
  · exact h

omit h in
lemma mem_of_mem_overwrite (h : task < heap.length) {now : ℤ}
    (hmem : task ∈ (overwrite heap queue newMeta now).2) : task ∈ queue := by
  rw [overwrite] at hmem
  split at hmem
  · exact hmem
  split at hmem
  · rcases mem_or_eq_of_mem_set hmem with hmem | heq
    · exact hmem
    · exact absurd heq (Nat.ne_of_lt h)
  · exact hmem

omit h in
lemma mem_overwrite_of_ne {now : ℤ} (hmem : task ∈ queue)
    (hne : named heap newMeta.key task = false) : task ∈ (overwrite heap queue newMeta now).2 := by
  rw [overwrite]
  split
  · exact hmem
  rename_i oldMeta hold
  split
  · obtain ⟨task', hget, -⟩ := bind_eq_some_iff.mp hold
    obtain ⟨hidx, hnamed⟩ := named_findIdx hget
    obtain ⟨i, hi, rfl⟩ := getElem_of_mem hmem
    have hplace : queue.findIdx (named heap newMeta.key) ≠ i := by
      rintro rfl
      rw [hnamed] at hne
      cases hne
    rw [← getElem_set_of_ne hplace heap.length (by simpa using hi)]
    exact getElem_mem _
  · exact hmem

/-- `Abort` and `Suspend` write to the task that `Get` finds, and to no other. -/
lemma getElem?_setState (state : TaskState) (now : ℤ) :
    (setState heap queue key state now)[task]? =
      some (if get heap queue key = some task then taskMeta.updateState state now else taskMeta) := by
  rw [setState]
  cases hget : get heap queue key with
  | none => simpa using h
  | some task' =>
    simp only [some.injEq]
    rw [getElem?_modify, h]
    rfl

end

/-- An operation neither lists nor changes a task that the queue does not list. -/
lemma unlisted_handle (h : Unlisted s task taskMeta) (op : TaskOperation × ℤ) :
    Unlisted (handle s op) task taskMeta := by
  have hlt := lt_of_getElem h.getElem
  have hset : ∀ (heap : TaskHeap) (queue : IndexTaskQueue) (state : TaskState),
      heap[task]? = some taskMeta → task ∉ queue →
        (setState heap queue op.1.taskMeta.key state op.2)[task]? = some taskMeta := by
    intro heap queue state hget hmem
    rw [getElem?_setState hget, if_neg fun hfound => hmem (named_of_get hfound).1]
  refine ⟨valid_handle h.valid op, ?_, ?_⟩
  · rw [handle]
    cases op.1.action with
    | add => exact getElem?_add h.getElem _ _
    | overwrite => exact getElem?_overwrite h.getElem _ _
    | unknown => exact h.getElem
    | abort => exact hset _ _ _ h.getElem h.notMem
    | suspend =>
      exact hset _ _ _ (getElem?_add h.getElem _ _) fun hmem => h.notMem ((mem_add _ _ hlt).mp hmem)
  · rw [handle]
    cases op.1.action with
    | add => exact fun hmem => h.notMem ((mem_add _ _ hlt).mp hmem)
    | overwrite => exact fun hmem => h.notMem (mem_of_mem_overwrite hlt hmem)
    | unknown => exact h.notMem
    | abort => exact h.notMem
    | suspend => exact fun hmem => h.notMem ((mem_add _ _ hlt).mp hmem)

section
variable (h : Listed s task taskMeta)
include h

lemma Listed.get_iff : get s.1 s.2 key = some task ↔ key = taskMeta.key := by
  constructor
  · intro hget
    obtain ⟨taskMeta', hget', hkey⟩ := named_iff.mp (named_of_get hget).2
    rw [h.getElem] at hget'
    cases hget'
    exact hkey.symm
  · rintro rfl
    exact get_eq_of_distinct h.distinct h.mem (by rw [keyAt, h.getElem, map_some])

lemma Listed.findIdx :
    ∃ hlt : s.2.findIdx (named s.1 taskMeta.key) < s.2.length, s.2[s.2.findIdx (named s.1 taskMeta.key)] = task := by
  have hget := h.get_iff.mpr (rfl : taskMeta.key = taskMeta.key)
  obtain ⟨hidx, hnamed⟩ := named_findIdx hget
  refine ⟨hidx, ?_⟩
  refine inj_on_of_nodup_map h.distinct (getElem_mem hidx) h.mem ?_
  rw [named_iff_keyAt.mp hnamed, keyAt, h.getElem, map_some]

/-- A listed task stays listed unless it is replaced, and is then what `react` says. -/
lemma listed_handle (op : TaskOperation × ℤ)
    (hkeep : replaces taskMeta op.1 = false) : Listed (handle s op) task (react taskMeta op) := by
  have hlt := lt_of_getElem h.getElem
  have hset : ∀ s' : TaskHeap × IndexTaskQueue, Listed s' task taskMeta → ∀ state,
      (setState s'.1 s'.2 op.1.taskMeta.key state op.2)[task]? =
        some (if op.1.taskMeta.key = taskMeta.key then taskMeta.updateState state op.2
          else taskMeta) := by
    intro s' hlisted state
    rw [getElem?_setState hlisted.getElem]
    simp only [hlisted.get_iff]
  have hadd : ∀ newMeta, Listed (add s.1 s.2 newMeta op.2) task taskMeta := fun newMeta =>
    ⟨valid_add h.valid _, distinct_add h.valid h.distinct _ _, getElem?_add h.getElem _ _,
      (mem_add _ _ hlt).mpr h.mem⟩
  refine ⟨valid_handle h.valid op, distinct_handle h.valid h.distinct op, ?_, ?_⟩
  · rw [handle, react]
    cases op.1.action with
    | add => simpa using (hadd _).getElem
    | overwrite => simpa using getElem?_overwrite h.getElem _ _
    | unknown => simpa using h.getElem
    | abort => exact hset s h _
    | suspend => exact hset _ (hadd _) _
  rw [handle]
  cases haction : op.1.action with
  | add => exact (hadd _).mem
  | unknown => exact h.mem
  | abort => exact h.mem
  | suspend => exact (hadd _).mem
  | overwrite =>
    by_cases hkey : op.1.taskMeta.key = taskMeta.key
    · rw [overwrite_of_distinct h.distinct h.mem h.getElem hkey, if_neg]
      · exact h.mem
      · simpa [replaces, hkey, haction] using hkeep
    refine mem_overwrite_of_ne h.mem ?_
    rw [Bool.eq_false_iff, ne_eq, named_iff_keyAt, keyAt, h.getElem, map_some]
    exact fun heq => hkey (some.inj heq).symm

/-- A task that is replaced is listed no more, and left as it is. -/
lemma unlisted_of_replaces (op : TaskOperation × ℤ)
    (hreplaces : replaces taskMeta op.1 = true) : Unlisted (handle s op) task taskMeta := by
  simp only [replaces, Bool.and_eq_true, decide_eq_true_eq] at hreplaces
  obtain ⟨⟨hkey, haction⟩, htransfer⟩ := hreplaces
  have hlt := lt_of_getElem h.getElem
  refine ⟨valid_handle h.valid op, ?_, ?_⟩
  · rw [handle, haction]
    exact getElem?_overwrite h.getElem _ _
  rw [handle, haction]
  rw [overwrite_of_distinct h.distinct h.mem h.getElem hkey, if_pos htransfer, hkey]
  obtain ⟨hidx, hplace⟩ := h.findIdx
  intro hmem
  obtain ⟨i, hi, hget⟩ := getElem_of_mem hmem
  rw [getElem_set] at hget
  split at hget
  · exact absurd hget.symm (Nat.ne_of_lt hlt)
  rename_i hne
  have hnodup : s.2.Nodup := Nodup.of_map _ h.distinct
  refine hne ((Nodup.getElem_inj_iff hnodup).mp (hplace.trans hget.symm))

/-! ## A task under the operations of a commit -/

/-- The task after the operations, and whether the queue still lists it. -/
def follow (taskMeta : IndexTaskMeta) : List (TaskOperation × ℤ) → IndexTaskMeta × Bool
  | [] => (taskMeta, true)
  | op :: ops => if replaces taskMeta op.1 then (taskMeta, false) else follow (react taskMeta op) ops

omit h in
lemma unlisted_foldl (h : Unlisted s task taskMeta) (ops : List (TaskOperation × ℤ)) :
    Unlisted (ops.foldl handle s) task taskMeta := by
  induction ops generalizing s with
  | nil => exact h
  | cons op ops ih => exact ih (unlisted_handle h op)

/-- The run lemma: a listed task goes where `follow` says. -/
lemma listed_foldl (ops : List (TaskOperation × ℤ)) :
    ((follow taskMeta ops).2 = true → Listed (ops.foldl handle s) task (follow taskMeta ops).1) ∧
      ((follow taskMeta ops).2 = false → Unlisted (ops.foldl handle s) task (follow taskMeta ops).1) := by
  induction ops generalizing s taskMeta with
  | nil => exact ⟨fun _ => h, nofun⟩
  | cons op ops ih =>
    rw [follow, foldl_cons]
    cases hreplaces : replaces taskMeta op.1 with
    | true =>
      exact ⟨nofun, fun _ => unlisted_foldl (unlisted_of_replaces h op hreplaces) ops⟩
    | false => exact ih (listed_handle h op hreplaces)

end

section
variable (taskMeta : IndexTaskMeta)

/-- What a version shows of a task: its state, its parameters and its committed version id. -/
def observed : TaskState × List (String × String) × ℤ :=
  (taskMeta.state, taskMeta.params, taskMeta.committedVersionId)

/-- The operation changes the task: it aborts one that is not done, unless there is nothing left to
clear, or suspends one that is pending. -/
def touches (op : TaskOperation) : Bool :=
  decide (op.taskMeta.key = taskMeta.key) &&
    match op.action with
    | .abort => decide (taskMeta.state ≠ .done) &&
        (decide (taskMeta.state ≠ .aborted) || decide (taskMeta.params ≠ []))
    | .suspend => decide (taskMeta.state = .pending) || decide (taskMeta.state = .unknown)
    | _ => false

/-- Some operation changes the task before one replaces it. -/
def disturbs (taskMeta : IndexTaskMeta) : List (TaskOperation × ℤ) → Bool
  | [] => false
  | op :: ops => touches taskMeta op.1 || (!replaces taskMeta op.1 && disturbs taskMeta ops)

/-- How far a task has come: no operation brings it back. -/
def rank : ℕ :=
  match taskMeta.state with
  | .pending => 0
  | .unknown => 0
  | .suspended => 1
  | .done => 2
  | .aborted => if taskMeta.params = [] then 3 else 2

/-- An operation changes nothing that is observed, or brings the task on. -/
lemma react_cases (op : TaskOperation × ℤ) :
    (touches taskMeta op.1 = false ∧ observed (react taskMeta op) = observed taskMeta) ∨
      (touches taskMeta op.1 = true ∧ rank taskMeta < rank (react taskMeta op)) := by
  by_cases hkey : op.1.taskMeta.key = taskMeta.key
  · cases haction : op.1.action <;> cases hstate : taskMeta.state <;>
      simp [touches, react, observed, rank, hkey, haction, hstate, updateState, validateStateTransfer]
    · by_cases hparams : taskMeta.params = [] <;> simp [hparams]
  · exact Or.inl ⟨by simp [touches, hkey], by simp [react, hkey]⟩

lemma rank_le_react (op : TaskOperation × ℤ) :
    rank taskMeta ≤ rank (react taskMeta op) := by
  rcases react_cases taskMeta op with ⟨-, hsame⟩ | ⟨-, hlt⟩
  · simp only [observed, Prod.mk.injEq] at hsame
    simp only [rank, hsame.1, hsame.2.1]
    exact le_rfl
  · exact hlt.le

lemma rank_le_follow (ops : List (TaskOperation × ℤ)) :
    rank taskMeta ≤ rank (follow taskMeta ops).1 := by
  induction ops generalizing taskMeta with
  | nil => exact le_rfl
  | cons op ops ih =>
    rw [follow]
    split
    · exact le_rfl
    · exact (rank_le_react taskMeta op).trans (ih _)

end

lemma rank_congr (h : observed taskMeta = observed taskMeta') : rank taskMeta = rank taskMeta' := by
  simp only [observed, Prod.mk.injEq] at h
  simp only [rank, h.1, h.2.1]

section
variable (hkey : taskMeta.key = taskMeta'.key) (h : observed taskMeta = observed taskMeta')
include hkey h

lemma replaces_congr (op : TaskOperation) : replaces taskMeta op = replaces taskMeta' op := by
  simp only [observed, Prod.mk.injEq] at h
  simp only [replaces, hkey, h.1]

lemma touches_congr (op : TaskOperation) : touches taskMeta op = touches taskMeta' op := by
  simp only [observed, Prod.mk.injEq] at h
  simp only [touches, hkey, h.1, h.2.1]

lemma disturbs_congr (ops : List (TaskOperation × ℤ)) : disturbs taskMeta ops = disturbs taskMeta' ops := by
  induction ops with
  | nil => rfl
  | cons op ops ih => rw [disturbs, disturbs, touches_congr hkey h, replaces_congr hkey h, ih]

end

lemma touches_eq_false_of_replaces {op : TaskOperation} (h : replaces taskMeta op = true) :
    touches taskMeta op = false := by
  simp only [replaces, Bool.and_eq_true, decide_eq_true_eq] at h
  simp [touches, h.1.2]

/-- Operations of which none disturbs the task leave it as it was, and listed unless one replaces it. -/
lemma observed_follow (taskMeta : IndexTaskMeta) (ops : List (TaskOperation × ℤ))
    (h : disturbs taskMeta ops = false) : observed (follow taskMeta ops).1 = observed taskMeta
    ∧ (follow taskMeta ops).2 = !(ops.any fun op => replaces taskMeta op.1) := by
  induction ops generalizing taskMeta with
  | nil => exact ⟨rfl, rfl⟩
  | cons op ops ih =>
    rw [disturbs, Bool.or_eq_false_iff] at h
    rw [follow, any_cons]
    cases hreplaces : replaces taskMeta op.1 with
    | true => exact ⟨rfl, rfl⟩
    | false =>
      rcases react_cases taskMeta op with ⟨-, hsame⟩ | ⟨htouches, -⟩
      · have hkey := key_react taskMeta op
        rw [hreplaces, Bool.not_false, Bool.true_and, ← disturbs_congr hkey hsame] at h
        obtain ⟨hobserved, hlive⟩ := ih _ h.2
        simp only [Bool.false_eq_true, if_false, Bool.false_or]
        rw [hlive]
        simp only [replaces_congr hkey hsame]
        exact ⟨hobserved.trans hsame, trivial⟩
      · rw [h.1] at htouches
        cases htouches

/-- A task that is disturbed has come on, and no later operation brings it back. -/
lemma rank_lt_follow (ops : List (TaskOperation × ℤ)) (h : disturbs taskMeta ops = true) :
    rank taskMeta < rank (follow taskMeta ops).1 := by
  induction ops generalizing taskMeta with
  | nil => cases h
  | cons op ops ih =>
    rw [disturbs] at h
    rw [follow]
    cases hreplaces : replaces taskMeta op.1 with
    | true => simp [touches_eq_false_of_replaces hreplaces, hreplaces] at h
    | false =>
      rw [if_neg Bool.false_ne_true]
      rcases react_cases taskMeta op with ⟨htouches, hsame⟩ | ⟨-, hlt⟩
      · rw [htouches, hreplaces, Bool.false_or, Bool.not_false, Bool.true_and,
          ← disturbs_congr (key_react taskMeta op) hsame] at h
        exact (rank_congr hsame).symm.trans_lt (ih h)
      · exact hlt.trans_le (rank_le_follow _ ops)

/-! ## The joined queue -/

lemma keyAt_joinTask {now : ℤ} {task' : ℕ} (hvalid : task < heap.length)
    (h : joinTask heap queue now task = some task') : keyAt heap task' = keyAt heap task := by
  have hkey : keyAt heap task = some heap[task].key := by
    rw [keyAt, getElem?_eq_getElem hvalid, map_some]
  rw [hkey, ← named_iff_keyAt, named_joinTask h hvalid, named_iff_keyAt, hkey]

/-- A join names a task once if the other queue does. -/
lemma distinct_join {other : IndexTaskQueue} (hvalid : Valid (heap, other))
    (h : Distinct (heap, other)) (queue : IndexTaskQueue) (now : ℤ) : Distinct (heap, join heap queue other now) := by
  refine Nodup.sublist (?_ : Sublist _ (other.map (keyAt heap))) h
  dsimp only [join]
  clear h
  induction other with
  | nil => exact Sublist.refl _
  | cons task other ih =>
    have hrest := ih fun task' hmem => hvalid task' (mem_cons_of_mem _ hmem)
    rw [filterMap_cons]
    cases hjoin : joinTask heap queue now task with
    | none => exact hrest.cons _
    | some task' =>
      rw [map_cons, map_cons, keyAt_joinTask (hvalid task mem_cons_self) hjoin]
      exact hrest.cons_cons _

end IndexTaskQueue

namespace TabletCommitter

open IndexTaskQueue

variable {c : TabletCommitter} {heap : TaskHeap} {call : CommitCall} {queue : IndexTaskQueue}
  {doneTasks : List (String × String)} {versionId : ℤ} {task : ℕ} {taskMeta : IndexTaskMeta}

/-! ## The committed version ids -/

lemma markCommitted_markCommitted (versionId versionId' : ℤ) (taskMeta : IndexTaskMeta) :
    markCommitted doneTasks versionId' (markCommitted doneTasks versionId taskMeta) =
      markCommitted doneTasks versionId' taskMeta := by
  by_cases h : taskMeta.key ∈ doneTasks
  · have h' : ({ taskMeta with committedVersionId := versionId } : IndexTaskMeta).key ∈ doneTasks := h
    simp only [markCommitted, if_pos h, if_pos h']
  · simp only [markCommitted, if_neg h]

lemma getElem?_setCommittedVersionId (doneTasks : List (String × String)) (versionId : ℤ)
    (heap : TaskHeap) (queue : IndexTaskQueue) (task : ℕ) :
    (setCommittedVersionId doneTasks versionId heap queue)[task]? =
      if task ∈ queue then (heap[task]?).map (markCommitted doneTasks versionId) else heap[task]? := by
  rw [setCommittedVersionId]
  induction queue generalizing heap with
  | nil => simp
  | cons task' queue ih =>
    rw [List.foldl_cons, ih, List.getElem?_modify]
    by_cases heq : task' = task
    · subst heq
      simp only [List.mem_cons_self, if_true, Option.map_eq_map]
      split
      · rw [Option.map_map]
        congr 1
        funext taskMeta
        exact markCommitted_markCommitted _ _ _
      · rfl
    · have hne : task ≠ task' := fun h => heq h.symm
      simp [heq, hne]

/-- A later attempt replaces the version ids of an earlier one. -/
lemma setCommittedVersionId_twice (versionId versionId' : ℤ) :
    setCommittedVersionId doneTasks versionId' (setCommittedVersionId doneTasks versionId heap queue) queue =
      setCommittedVersionId doneTasks versionId' heap queue := by
  apply List.ext_getElem?
  intro task
  simp only [getElem?_setCommittedVersionId]
  split
  · rw [Option.map_map]
    congr 1
    funext taskMeta
    exact markCommitted_markCommitted _ _ _
  · rfl

lemma attemptVersionId_ne (call : CommitCall) (attempt : ℕ) : attemptVersionId call attempt ≠ invalidVersionId := by
  rw [attemptVersionId]
  split
  · exact call.generateVersionId_ne attempt
  · assumption

/-- The attempts to write a version amount to one: some valid version id is set. -/
lemma commitVersion_snd (call : CommitCall) (queue : IndexTaskQueue)
    (doneTasks : List (String × String)) (retries attempt : ℕ) (heap : TaskHeap) :
    ∃ versionId, versionId ≠ invalidVersionId ∧ (commitVersion call queue doneTasks (retries + 1) attempt heap).2 =
        setCommittedVersionId doneTasks versionId heap queue := by
  induction retries generalizing attempt heap with
  | zero =>
    refine ⟨attemptVersionId call attempt, attemptVersionId_ne call attempt, ?_⟩
    rw [commitVersion]
    cases call.publish attempt with
    | ok => rfl
    | error => rfl
    | exist =>
      dsimp only
      split <;> rfl
  | succ retries ih =>
    rw [commitVersion]
    cases call.publish attempt with
    | ok => exact ⟨_, attemptVersionId_ne call attempt, rfl⟩
    | error => exact ⟨_, attemptVersionId_ne call attempt, rfl⟩
    | exist =>
      dsimp only
      split
      · exact ⟨_, attemptVersionId_ne call attempt, rfl⟩
      obtain ⟨versionId, hvalid, heq⟩ := ih (attempt + 1)
        (setCommittedVersionId doneTasks (attemptVersionId call attempt) heap queue)
      exact ⟨versionId, hvalid, heq.trans (setCommittedVersionId_twice _ _)⟩

/-- A listed task is newly done exactly when it is done and has no committed version id. -/
lemma key_mem_newDoneTasks_iff {s : TaskHeap × IndexTaskQueue} (h : Listed s task taskMeta) :
    taskMeta.key ∈ newDoneTasks s.1 s.2 ↔
      taskMeta.state = .done ∧ taskMeta.committedVersionId = invalidVersionId := by
  rw [newDoneTasks, List.mem_map]
  simp only [List.mem_filter, List.mem_filterMap, Bool.and_eq_true, decide_eq_true_eq]
  constructor
  · rintro ⟨taskMeta', ⟨⟨task', hmem, hget⟩, hdone⟩, hkey⟩
    have hsame : task' = task := by
      refine List.inj_on_of_nodup_map h.distinct hmem h.mem ?_
      rw [keyAt, keyAt, hget, h.getElem, Option.map_some, Option.map_some, hkey]
    rw [hsame, h.getElem] at hget
    cases hget
    exact hdone
  · intro hdone
    exact ⟨taskMeta, ⟨⟨task, h.mem, h.getElem⟩, hdone⟩, rfl⟩

/-! ## A commit and the tasks of other versions -/

section
variable (c : TabletCommitter)

/-- The queue that the joins give the new version. -/
def joinedQueue (heap : TaskHeap) (call : CommitCall) : IndexTaskQueue :=
  generatedQueue (cloneHeap heap call) (cloneQueue heap call) call.onDiskVersion.indexTaskQueue
    c.lastPublicVersion.indexTaskQueue (call.clock 0) (call.clock 1)

/-- The pending operations on index tasks, as they are handled. -/
def taskOperations (call : CommitCall) : List (TaskOperation × ℤ) :=
  timedTasks call c.pending.indexTasks

/-- The version can be generated: its segments can be prepared, and are not missing. -/
def Prepares (call : CommitCall) : Prop :=
  ∃ segments, prepareSegments c.pending call = some segments ∧
    ¬ (slice call c.pending.maxSegmentId ≠ [] ∧ segments = [])

/-- The `Commit` fails before it looks at the tasks. -/
def failsEarly (call : CommitCall) : Bool :=
  c.dumpError || refusesTarget call || failsToMount call

/-- The `Commit` fails before it looks at the tasks; or no pending operation disturbs a task that the new
version shares, and if it gets to be written, each of them that is done has its committed version id or
is replaced. -/
def Quiet (heap : TaskHeap) (call : CommitCall) : Prop :=
  failsEarly c call = true ∨
    ∀ task ∈ call.onDiskVersion.indexTaskQueue ++ c.lastPublicVersion.indexTaskQueue,
      task ∈ joinedQueue c heap call → ∀ taskMeta, heap[task]? = some taskMeta →
        disturbs taskMeta (taskOperations c call) = false ∧
          (Prepares c call → taskMeta.state = .done →
            taskMeta.committedVersionId = invalidVersionId →
              ((taskOperations c call).any fun op => replaces taskMeta op.1) = true)

/-- **The tasks after a `Commit`**: as the operations leave them, or, once the version can be generated,
with the version ids set. -/
lemma commit_heap_cases (heap : TaskHeap) (call : CommitCall) (h : failsEarly c call = false) :
    (¬ Prepares c call ∧ (commit c heap call).2.2 = (generateTasks c heap call).1) ∨
      (Prepares c call ∧ ∃ versionId, versionId ≠ invalidVersionId ∧ (commit c heap call).2.2 = setCommittedVersionId
            (newDoneTasks (generateTasks c heap call).1 (generateTasks c heap call).2) versionId
            (generateTasks c heap call).1 (generateTasks c heap call).2) := by
  simp only [failsEarly, Bool.or_eq_false_iff] at h
  obtain ⟨⟨hdump, hrefuses⟩, hmount⟩ := h
  rw [commit]
  simp only [hdump, hrefuses, Bool.false_eq_true, if_false]
  rcases generateVersionWithoutId_cases c heap call with
    ⟨hmount', -⟩ | ⟨-, hprepare, heq⟩ | ⟨segments, -, hprepare, heq⟩
  · rw [hmount] at hmount'
    cases hmount'
  · refine Or.inl ⟨?_, by rw [heq]⟩
    rintro ⟨segments, hsegments, -⟩
    rw [hprepare] at hsegments
    cases hsegments
  rw [heq]
  by_cases hempty : slice call c.pending.maxSegmentId ≠ [] ∧ segments = []
  · refine Or.inl ⟨?_, by rw [if_pos hempty]⟩
    rintro ⟨segments', hsegments, hsome⟩
    rw [hprepare] at hsegments
    cases hsegments
    exact hsome hempty
  refine Or.inr ⟨⟨segments, hprepare, hempty⟩, ?_⟩
  obtain ⟨retries, hretries⟩ : ∃ retries, attempts call = retries + 1 :=
    Nat.exists_eq_succ_of_ne_zero (by rw [attempts]; omega)
  obtain ⟨versionId, hvalid, hwritten⟩ := commitVersion_snd call (generateTasks c heap call).2
    (newDoneTasks (generateTasks c heap call).1 (generateTasks c heap call).2) retries 0
    (generateTasks c heap call).1
  refine ⟨versionId, hvalid, ?_⟩
  rw [if_neg hempty]
  dsimp only
  rw [hretries, ← hwritten]
  split
  · rfl
  · split <;> rfl

end

lemma getElem?_cloneHeap (h : heap[task]? = some taskMeta) (call : CommitCall) :
    (cloneHeap heap call)[task]? = some taskMeta := by
  rw [cloneHeap, List.getElem?_append_left (lt_of_getElem h)]
  exact h

lemma distinct_cloneHeap (hvalid : Valid (heap, queue)) (h : Distinct (heap, queue))
    (call : CommitCall) : Distinct (cloneHeap heap call, queue) := by
  have heq : queue.map (keyAt (cloneHeap heap call)) = queue.map (keyAt heap) := by
    refine List.map_congr_left fun task hmem => ?_
    rw [keyAt, keyAt, cloneHeap, List.getElem?_append_left (hvalid task hmem)]
  rw [Distinct, heq]
  exact h

/-- What is observed of a task does not tell more than its rank and its committed version id. -/
lemma rank_markCommitted (doneTasks : List (String × String)) (versionId : ℤ)
    (taskMeta : IndexTaskMeta) : rank (markCommitted doneTasks versionId taskMeta) = rank taskMeta := by
  rw [markCommitted]
  split <;> rfl

/-- Setting the committed version id is seen exactly on newly done tasks. -/
lemma observed_markCommitted_iff (hvalid : versionId ≠ invalidVersionId) {s : TaskHeap × IndexTaskQueue}
    (h : Listed s task taskMeta) :
    observed (markCommitted (newDoneTasks s.1 s.2) versionId taskMeta) = observed taskMeta ↔
      ¬ (taskMeta.state = .done ∧ taskMeta.committedVersionId = invalidVersionId) := by
  rw [← key_mem_newDoneTasks_iff h, markCommitted]
  by_cases hmem : taskMeta.key ∈ newDoneTasks s.1 s.2
  · have hdone := (key_mem_newDoneTasks_iff h).mp hmem
    rw [if_pos hmem]
    simp only [observed, hdone.2, Prod.mk.injEq, true_and, hvalid, hmem, not_true_eq_false]
  · rw [if_neg hmem]
    exact iff_of_true rfl hmem

section
variable (hpublic : Valid (heap, c.lastPublicVersion.indexTaskQueue))
  (honDisk : Valid (heap, call.onDiskVersion.indexTaskQueue))
  (hdistinct : Distinct (heap, c.lastPublicVersion.indexTaskQueue))
include hpublic honDisk hdistinct

lemma listed_joinedQueue (hmem : task ∈ joinedQueue c heap call) (hget : heap[task]? = some taskMeta) :
    Listed (cloneHeap heap call, joinedQueue c heap call) task taskMeta :=
  ⟨valid_generatedQueue _ _ (valid_cloneQueue heap call) (valid_cloneHeap honDisk call)
      (valid_cloneHeap hpublic call),
    distinct_join (valid_cloneHeap hpublic call) (distinct_cloneHeap hpublic hdistinct call) _ _,
    getElem?_cloneHeap hget call, hmem⟩

/-- **One task in a `Commit`** that gets to look at it. -/
lemma observed_commit_iff (hearly : failsEarly c call = false) (hget : heap[task]? = some taskMeta) :
    ((commit c heap call).2.2[task]?).map observed = some (observed taskMeta) ↔ (task ∈ joinedQueue c heap call →
        disturbs taskMeta (taskOperations c call) = false ∧ (Prepares c call → taskMeta.state = .done →
            taskMeta.committedVersionId = invalidVersionId →
              ((taskOperations c call).any fun op => replaces taskMeta op.1) = true)) := by
  have htasks : generateTasks c heap call =
      (taskOperations c call).foldl handle (cloneHeap heap call, joinedQueue c heap call) := rfl
  have hunlisted : ∀ taskMeta', Unlisted (generateTasks c heap call) task taskMeta' →
      (commit c heap call).2.2[task]? = some taskMeta' := by
    intro taskMeta' h
    rcases commit_heap_cases c heap call hearly with ⟨-, heap'⟩ | ⟨-, versionId, -, heap'⟩
    · rw [heap', h.getElem]
    · rw [heap', getElem?_setCommittedVersionId, if_neg h.notMem, h.getElem]
  by_cases hmem : task ∈ joinedQueue c heap call
  · have hlisted := listed_joinedQueue hpublic honDisk hdistinct hmem hget
    obtain ⟨hkept, hdropped⟩ := listed_foldl hlisted (taskOperations c call)
    rw [← htasks] at hkept hdropped
    cases hdisturbs : disturbs taskMeta (taskOperations c call) with
    | true =>
      -- the task has come on: its rank says so, whatever version id it gets
      have hlt := rank_lt_follow (taskOperations c call) hdisturbs
      have hrank : ∀ taskMeta', rank taskMeta' = rank (follow taskMeta (taskOperations c call)).1 →
          observed taskMeta' ≠ observed taskMeta := fun taskMeta' heq hobserved =>
        absurd (heq ▸ rank_congr hobserved) (Nat.ne_of_gt hlt)
      simp only [hmem, true_implies, Bool.true_eq_false, false_and, iff_false]
      cases hlive : (follow taskMeta (taskOperations c call)).2 with
      | false =>
        rw [hunlisted _ (hdropped hlive), Option.map_some]
        exact fun h => hrank _ rfl (Option.some.inj h)
      | true =>
        have h := hkept hlive
        rcases commit_heap_cases c heap call hearly with ⟨-, heap'⟩ | ⟨-, versionId, -, heap'⟩
        · rw [heap', h.getElem, Option.map_some]
          exact fun h => hrank _ rfl (Option.some.inj h)
        · rw [heap', getElem?_setCommittedVersionId, if_pos h.mem, h.getElem, Option.map_some, Option.map_some]
          exact fun h => hrank _ (rank_markCommitted _ _ _) (Option.some.inj h)
    | false =>
      obtain ⟨hobserved, hlive⟩ := observed_follow taskMeta (taskOperations c call) hdisturbs
      simp only [hmem, true_implies, true_and]
      cases hany : (taskOperations c call).any fun op => replaces taskMeta op.1 with
      | true =>
        rw [hany, Bool.not_true] at hlive
        rw [hunlisted _ (hdropped hlive), Option.map_some, hobserved]
        simp
      | false =>
        rw [hany, Bool.not_false] at hlive
        have h := hkept hlive
        rcases commit_heap_cases c heap call hearly with
          ⟨hprepares, heap'⟩ | ⟨hprepares, versionId, hvalid, heap'⟩
        · rw [heap', h.getElem, Option.map_some, hobserved]
          simp [hprepares]
        rw [heap', getElem?_setCommittedVersionId, if_pos h.mem, h.getElem, Option.map_some,
          Option.map_some, Option.some.injEq, ← hobserved, observed_markCommitted_iff hvalid h]
        simp only [observed, Prod.mk.injEq] at hobserved
        rw [hobserved.1, hobserved.2.2]
        simp [hprepares]
  · have hnot : Unlisted (generateTasks c heap call) task taskMeta := by
      rw [htasks]
      refine unlisted_foldl ⟨?_, getElem?_cloneHeap hget call, hmem⟩ _
      exact valid_generatedQueue _ _ (valid_cloneQueue heap call) (valid_cloneHeap honDisk call)
        (valid_cloneHeap hpublic call)
    rw [hunlisted _ hnot]
    simp [hmem]

end

/-- **A commit leaves the tasks of other versions alone** exactly when it is quiet.  The queue of the last
public version names each task once, as `Add` sees to. -/
theorem commit_observed_iff_quiet (c : TabletCommitter) (heap : TaskHeap) (call : CommitCall)
    (hpublic : Valid (heap, c.lastPublicVersion.indexTaskQueue))
    (honDisk : Valid (heap, call.onDiskVersion.indexTaskQueue))
    (hdistinct : Distinct (heap, c.lastPublicVersion.indexTaskQueue)) :
    (∀ task ∈ call.onDiskVersion.indexTaskQueue ++ c.lastPublicVersion.indexTaskQueue,
        ((commit c heap call).2.2[task]?).map observed = (heap[task]?).map observed) ↔ Quiet c heap call := by
  cases hearly : failsEarly c call with
  | true =>
    refine iff_of_true (fun task _ => ?_) (Or.inl hearly)
    have hheap : (commit c heap call).2.2 = heap := by
      simp only [failsEarly, Bool.or_eq_true] at hearly
      rw [commit]
      split
      · rfl
      split
      · rfl
      rename_i hdump hrefuses
      have hmount : failsToMount call = true := by
        rcases hearly with (hdump' | hrefuses') | hmount
        · exact absurd hdump' hdump
        · exact absurd hrefuses' hrefuses
        · exact hmount
      simp [generateVersionWithoutId, hmount]
    rw [hheap]
  | false =>
    simp only [Quiet, hearly, Bool.false_eq_true, false_or]
    refine forall₂_congr fun task hmem => ?_
    have hlt : task < heap.length := by
      rcases List.mem_append.mp hmem with hmem | hmem
      · exact honDisk task hmem
      · exact hpublic task hmem
    have hget : heap[task]? = some heap[task] := List.getElem?_eq_getElem hlt
    rw [hget, Option.map_some, observed_commit_iff hpublic honDisk hdistinct hearly hget]
    simp

/-- A `Commit` that adds another task leaves a public task alone. -/
theorem commit_add_quiet : ((commit (publicCommitter.handleIndexTask
        ⟨{ bulkload .pending (-1) with taskTraceId := "2" }, .add⟩) [bulkload .pending (-1)]
        (oneSegmentCall .error)).2.2[0]?).map observed = some (.pending, [], invalidVersionId) := by
  refine (commit_observed_iff_quiet (publicCommitter.handleIndexTask
    ⟨{ bulkload .pending (-1) with taskTraceId := "2" }, .add⟩) [bulkload .pending (-1)]
    (oneSegmentCall .error) (by unfold Valid; decide) (by unfold Valid; decide)
    (by unfold Distinct; decide)).mpr (Or.inr ?_) 0 (by decide)
  intro task hmem _ taskMeta hget
  obtain rfl : task = 0 := by simpa [oneSegmentCall, emptyVersion, publicCommitter,
    TabletCommitter.handleIndexTask, enqueue] using hmem
  cases hget
  exact ⟨by decide, fun _ hdone => (by cases hdone)⟩

/-- **A failed commit aborts a public task**: the publication fails, and the task of the last public
version has been aborted through the pointer that the new version shares with it. -/
theorem commit_abort_writes_public : (commit (publicCommitter.handleIndexTask ⟨bulkload .pending (-1), .abort⟩)
        [bulkload .pending (-1)] (oneSegmentCall .error)).1 = none ∧
      ((commit (publicCommitter.handleIndexTask ⟨bulkload .pending (-1), .abort⟩)
        [bulkload .pending (-1)] (oneSegmentCall .error)).2.2[0]?).map observed =
          some (.aborted, [], invalidVersionId) :=
  ⟨by decide, by decide⟩

end TabletCommitter

end Havenask
