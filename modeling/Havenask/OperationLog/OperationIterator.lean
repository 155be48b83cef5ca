import Havenask.Framework.Locator

/-!
# Iterating over operation logs

`indexlib/index/operation_log/OperationIterator.cpp`, `InMemSegmentOperationIterator.cpp`,
`NormalSegmentOperationIterator.cpp` and `OperationLogReplayer.cpp`.  A redo reads the logs of the segments
from a cursor on and returns the operations that a locator does not cover.  A sealed segment and a block are
passed over where their largest offset is below that of the locator.

* **`drain`**: what an `OperationIterator` returns, each operation with the cursor after it.
* **`innerDoOperation`**: the loop of the replayer over it.
* **`drain_spec`**: the operations that are read, segment by segment.
-/

namespace Havenask.OperationLog

open List

/-- A segment and a position in its log. -/
structure OperationCursor where
  segId : ℤ
  pos : ℤ
deriving DecidableEq

def OperationCursor.Before (cursor other : OperationCursor) : Prop :=
  cursor.segId < other.segId ∨ cursor.segId = other.segId ∧ cursor.pos < other.pos

instance (cursor other : OperationCursor) : Decidable (cursor.Before other) := inferInstanceAs (Decidable (_ ∨ _))

/-- What is left to read of a block, and its `GetMaxOffset`. -/
structure OperationBlock (Op : Type*) where
  maxOffset : Offset
  operations : List Op

/-- The log of a segment.  `blocks` is `none` on disk without a meta file; only the last block may be empty. -/
structure OperationLogIndexer (Op : Type*) where
  segmentId : ℤ
  onDisk : Bool
  isSealed : Bool
  blocks : Option (List (List Op))
  full : ∀ block ∈ (blocks.getD []).dropLast, block ≠ []

structure SegmentOperationIterator (Op : Type*) where
  operationCount : ℕ
  lastCursor : OperationCursor
  /-- From the block of the read position on. -/
  opBlocks : List (OperationBlock Op)

/-- The iterator of the current segment, and the segments after it. -/
structure OperationIterator (Op : Type*) where
  currentSegIter : Option (SegmentOperationIterator Op)
  indexers : List (OperationLogIndexer Op)

variable {Op : Type*}

namespace OperationLogIndexer

def operations (indexer : OperationLogIndexer Op) : List Op := (indexer.blocks.getD []).flatten

end OperationLogIndexer

def SegmentOperationIterator.hasNext (iter : SegmentOperationIterator Op) : Bool :=
  iter.lastCursor.pos < iter.operationCount - 1

section
variable (docInfo : Op → DocInfo) (locator : Locator)

def blockOffset : List Op → Offset
  | [] => Progress.invalidOffset
  | op :: ops => ops.foldl (fun offset op => max offset (docInfo op).getProgressOffset) (docInfo op).getProgressOffset

def metaOffset (blocks : List (List Op)) : Offset :=
  blocks.foldl (fun offset block => max offset (blockOffset docInfo block)) Progress.invalidOffset

/-- The locator does not cover the document of an operation. -/
def slower (op : Op) : Bool := locator.isFasterThanDoc (docInfo op) = .slower

/-! ## One segment -/

def seekNextValidOpBlock (operationCount : ℕ) :
    List (OperationBlock Op) → OperationCursor → SegmentOperationIterator Op
  | [], cursor => ⟨operationCount, cursor, []⟩
  | [block], cursor =>
    if block.maxOffset < locator.minOffset then
      ⟨operationCount, { cursor with pos := operationCount - 1 }, [block]⟩
    else ⟨operationCount, cursor, [block]⟩
  | block :: next :: rest, cursor =>
    if block.maxOffset < locator.minOffset then
      seekNextValidOpBlock operationCount (next :: rest)
        { cursor with pos := cursor.pos + block.operations.length }
    else ⟨operationCount, cursor, block :: next :: rest⟩

/-- The operation at the read position, and `ToNextReadPosition`. -/
def toNextReadPosition (iter : SegmentOperationIterator Op) : Option (Op × SegmentOperationIterator Op) :=
  match iter.opBlocks with
  | [] | ⟨_, []⟩ :: _ => none
  | ⟨maxOffset, op :: ops⟩ :: rest =>
    let cursor := { iter.lastCursor with pos := iter.lastCursor.pos + 1 }
    some (op, match ops with
      | [] => seekNextValidOpBlock locator iter.operationCount rest cursor
      | _ => ⟨iter.operationCount, cursor, ⟨maxOffset, ops⟩ :: rest⟩)

def seekNextValidOperation : ℕ → SegmentOperationIterator Op → Option (SegmentOperationIterator Op)
  | 0, iter => some iter
  | fuel + 1, iter =>
    if iter.hasNext then
      match toNextReadPosition locator iter with
      | none => none
      | some (op, next) =>
        match locator.isFasterThanDoc (docInfo op) with
        | .invalid => none
        | .slower => some iter
        | _ => seekNextValidOperation fuel next
    else some iter

/-- The block of the first position to be read, and those after it. -/
def seekBegin : ℕ → List (List Op) → List (OperationBlock Op)
  | _, [] => []
  | beginPos, block :: rest =>
    if beginPos < block.length ∨ beginPos = 0 then
      ⟨blockOffset docInfo block, block.drop beginPos⟩ :: rest.map fun block => ⟨blockOffset docInfo block, block⟩
    else seekBegin (beginPos - block.length) rest

/-- `CreateSegmentOperationIterator`: the outer `none` is an error, which only a log on disk returns where the
position is behind its end; there is no iterator for such a log in memory. -/
def createSegmentOperationIterator (indexer : OperationLogIndexer Op) (beginPos : ℕ) :
    Option (Option (SegmentOperationIterator Op)) :=
  match indexer.blocks with
  | none => some none
  | some blocks =>
    let count := blocks.flatten.length
    if beginPos < count then
      (seekNextValidOperation docInfo locator count (seekNextValidOpBlock locator count
        (seekBegin docInfo beginPos blocks) ⟨indexer.segmentId, beginPos - 1⟩)).map some
    else if indexer.onDisk then none else some none

def SegmentOperationIterator.next (iter : SegmentOperationIterator Op) :
    Option (Op × SegmentOperationIterator Op) := do
  let (op, iter) ← toNextReadPosition locator iter
  let iter ← seekNextValidOperation docInfo locator iter.operationCount iter
  some (op, iter)

/-! ## All segments -/

/-- The loop of `Init`: the segments that are kept, and the position to start from in the first of them. -/
def initIndexers (skipCursor : OperationCursor) :
    List (OperationLogIndexer Op) → ℕ → List (OperationLogIndexer Op) × ℕ
  | [], pos => ([], pos)
  | indexer :: rest, pos =>
    if indexer.segmentId < skipCursor.segId ∨ indexer.blocks = none then initIndexers skipCursor rest pos
    else if indexer.isSealed ∧ metaOffset docInfo (indexer.blocks.getD []) < locator.minOffset then
      initIndexers skipCursor rest pos
    else if indexer.segmentId = skipCursor.segId ∧ skipCursor.pos + 1 ≥ indexer.operations.length then
      initIndexers skipCursor rest 0
    else
      let (kept, pos) := initIndexers skipCursor rest pos
      (indexer :: kept, pos)

/-- `LoadSegIterator` for the first segment and, while there is nothing to read, for the next ones.  A load that
fails ends with its error or, in the loop of `HasNext`, is tried again without end. -/
def loadSegIterator : List (OperationLogIndexer Op) → ℕ → Option (OperationIterator Op)
  | [], _ => some ⟨none, []⟩
  | indexer :: rest, pos =>
    match createSegmentOperationIterator docInfo locator indexer pos with
    | none => none
    | some none => loadSegIterator rest 0
    | some (some iter) => if iter.hasNext then some ⟨some iter, rest⟩ else loadSegIterator rest 0

def OperationIterator.hasNext (iter : OperationIterator Op) : Option (OperationIterator Op) :=
  match iter.currentSegIter with
  | some segIter => if segIter.hasNext then some iter else loadSegIterator docInfo locator iter.indexers 0
  | none => loadSegIterator docInfo locator iter.indexers 0

/-- What `HasNext` and `Next` return until the end. -/
def drain : ℕ → OperationIterator Op → Option (List (Op × OperationCursor))
  | 0, _ => none
  | fuel + 1, iter => do
      let iter ← iter.hasNext docInfo locator
      match iter.currentSegIter with
      | none => some []
      | some segIter =>
        let (op, segIter) ← segIter.next docInfo locator
        let rest ← drain fuel ⟨some segIter, iter.indexers⟩
        some ((op, segIter.lastCursor) :: rest)

/-- `InnerDoOperation`: the operations that are handed to the redo strategy, and the cursor of the last one. -/
def innerDoOperation (cursorEnd : OperationCursor) :
    ℕ → OperationIterator Op → OperationCursor → Option (List Op × OperationCursor)
  | 0, _, _ => none
  | fuel + 1, iter, lastCursor => do
      let iter ← iter.hasNext docInfo locator
      match iter.currentSegIter with
      | none => some ([], lastCursor)
      | some segIter =>
        let (op, segIter) ← segIter.next docInfo locator
        if segIter.lastCursor.Before cursorEnd then
          let (ops, last) ← innerDoOperation cursorEnd fuel ⟨some segIter, iter.indexers⟩ segIter.lastCursor
          some (op :: ops, last)
        else some ([], lastCursor)

variable (indexers : List (OperationLogIndexer Op))

def init (skipCursor : OperationCursor) : Option (OperationIterator Op) :=
  let (kept, pos) := initIndexers docInfo locator skipCursor indexers (skipCursor.pos + 1).toNat
  loadSegIterator docInfo locator kept pos

/-- A bound on the rounds of a redo. -/
def rounds : ℕ := (indexers.map (·.operations.length)).sum + 1

def redo (skipCursor cursorEnd : OperationCursor) :
    Option (List Op × OperationCursor) := do
  let iter ← init docInfo locator indexers skipCursor
  innerDoOperation docInfo locator cursorEnd (rounds indexers) iter skipCursor

def redoOperationsFromOneSegment (segmentId : ℤ) :
    Option (List Op × OperationCursor) :=
  redo docInfo locator indexers ⟨segmentId, -1⟩ ⟨segmentId + 1, 0⟩

def redoOperationsFromCursor (skipCursor : OperationCursor) :
    Option (List Op × OperationCursor) :=
  redo docInfo locator indexers skipCursor (match indexers.getLast? with
    | none => skipCursor
    | some indexer => ⟨indexer.segmentId + 1, 0⟩)

end

/-! ## What is read of a segment -/

section
variable {docInfo : Op → DocInfo} {locator : Locator}

/-- The operations that are read of blocks. -/
def visible (docInfo : Op → DocInfo) (locator : Locator) (blocks : List (OperationBlock Op)) : List Op :=
  blocks.flatMap fun block =>
    if block.maxOffset < locator.minOffset then [] else block.operations.filter (slower docInfo locator)

lemma visible_cons (docInfo : Op → DocInfo) (locator : Locator) (block : OperationBlock Op)
    (blocks : List (OperationBlock Op)) : visible docInfo locator (block :: blocks)
    = (if block.maxOffset < locator.minOffset then [] else block.operations.filter (slower docInfo locator))
      ++ visible docInfo locator blocks :=
  flatMap_cons

def Full (blocks : List (OperationBlock Op)) : Prop := ∀ block ∈ blocks.dropLast, block.operations ≠ []

/-- The read position is in the blocks, at an operation of a block that is not passed over. -/
structure Ok (locator : Locator) (iter : SegmentOperationIterator Op) : Prop where
  neg_one_le : -1 ≤ iter.lastCursor.pos
  pos_lt : iter.lastCursor.pos < iter.operationCount
  count : iter.hasNext = true →
    iter.lastCursor.pos + 1 + (iter.opBlocks.flatMap (·.operations)).length = iter.operationCount
  head : iter.hasNext = true → ∃ block rest, iter.opBlocks = block :: rest ∧ block.operations ≠ []
    ∧ ¬ block.maxOffset < locator.minOffset ∧ Full rest

def left (docInfo : Op → DocInfo) (locator : Locator) (iter : SegmentOperationIterator Op) : List Op :=
  if iter.hasNext then visible docInfo locator iter.opBlocks else []

lemma Full.tail {block : OperationBlock Op} {rest : List (OperationBlock Op)} (h : Full (block :: rest)) :
    Full rest := by
  cases rest with
  | nil => simp [Full]
  | cons next rest => exact fun b hb => h b (mem_cons_of_mem _ hb)

lemma Full.cons {block : OperationBlock Op} {rest : List (OperationBlock Op)} (h : Full rest)
    (hne : block.operations ≠ []) : Full (block :: rest) := by
  cases rest with
  | nil => simp [Full]
  | cons next rest =>
    intro b hb
    rcases mem_cons.mp hb with rfl | hb
    · exact hne
    · exact h b hb

variable {blocks : List (OperationBlock Op)} {iter : SegmentOperationIterator Op}

/-- A read position in blocks whose first one is not passed over. -/
lemma ok_mk (docInfo : Op → DocInfo) (locator : Locator) {count : ℕ}
    (cursor : OperationCursor) (hfull : Full blocks) (hpos : -1 ≤ cursor.pos)
    (hcount : cursor.pos + 1 + (blocks.flatMap (·.operations)).length = count)
    (hfirst : ∀ block ∈ blocks.head?, ¬ block.maxOffset < locator.minOffset) :
    Ok locator ⟨count, cursor, blocks⟩ ∧ left docInfo locator ⟨count, cursor, blocks⟩ = visible docInfo locator blocks := by
  refine ⟨⟨hpos, by dsimp only; omega, fun _ => hcount, fun hnext => ?_⟩, ?_⟩
  · have hsome : 0 < (blocks.flatMap (·.operations)).length := by
      have : cursor.pos < count - 1 := by simpa [SegmentOperationIterator.hasNext] using hnext
      omega
    cases blocks with
    | nil => simp at hsome
    | cons block rest =>
      refine ⟨block, rest, rfl, fun hnil => ?_, hfirst block rfl, hfull.tail⟩
      cases rest with
      | nil => simp [hnil] at hsome
      | cons next rest => exact hfull block mem_cons_self hnil
  rw [left]
  split
  · rfl
  rename_i hnext
  have hnil : blocks.flatMap (·.operations) = [] := by
    have : ¬ cursor.pos < count - 1 := by simpa [SegmentOperationIterator.hasNext] using hnext
    rw [← length_eq_zero_iff]
    omega
  rw [flatMap_eq_nil_iff] at hnil
  refine (flatMap_eq_nil_iff.mpr fun block hblock => ?_).symm
  simp [hnil block hblock]

lemma ok_seekNextValidOpBlock (docInfo : Op → DocInfo) (locator : Locator) (count : ℕ) (cursor : OperationCursor)
    (hfull : Full blocks) (hpos : -1 ≤ cursor.pos)
    (hcount : cursor.pos + 1 + (blocks.flatMap (·.operations)).length = count) :
    (Ok locator (seekNextValidOpBlock locator count blocks cursor)
    ∧ left docInfo locator (seekNextValidOpBlock locator count blocks cursor) = visible docInfo locator blocks)
    ∧ cursor.pos ≤ (seekNextValidOpBlock locator count blocks cursor).lastCursor.pos
    ∧ (seekNextValidOpBlock locator count blocks cursor).lastCursor.segId = cursor.segId
    ∧ (seekNextValidOpBlock locator count blocks cursor).operationCount = count := by
  fun_induction seekNextValidOpBlock locator count blocks cursor with
  | case1 cursor => exact ⟨ok_mk docInfo locator cursor hfull hpos hcount (by simp), le_rfl, rfl, rfl⟩
  | case2 block cursor hskip =>
    have hend : (⟨count, { cursor with pos := count - 1 }, [block]⟩ : SegmentOperationIterator Op).hasNext = false := by
      simp [SegmentOperationIterator.hasNext]
    refine ⟨⟨⟨by dsimp only; omega, by dsimp only; omega, by simp [hend], by simp [hend]⟩, ?_⟩, ?_, rfl, rfl⟩
    · simp [left, hend, visible, hskip]
    · dsimp only
      omega
  | case3 block cursor hskip => exact ⟨ok_mk docInfo locator cursor hfull hpos hcount (by simpa using hskip), le_rfl, rfl, rfl⟩
  | case4 block next rest cursor hskip ih =>
    rw [flatMap_cons, length_append] at hcount
    obtain ⟨⟨hok, hleft⟩, hle, hseg, hsame⟩ := ih hfull.tail (by dsimp only; omega) (by dsimp only; omega)
    refine ⟨⟨hok, hleft.trans ?_⟩, by dsimp only at hle; omega, hseg, hsame⟩
    rw [visible_cons docInfo locator block, if_pos hskip, nil_append]
  | case5 block next rest cursor hskip => exact ⟨ok_mk docInfo locator cursor hfull hpos hcount (by simpa using hskip), le_rfl, rfl, rfl⟩

lemma ok_toNextReadPosition (docInfo : Op → DocInfo) (h : Ok locator iter) (hnext : iter.hasNext = true) :
    ∃ op next, toNextReadPosition locator iter = some (op, next) ∧ Ok locator next
    ∧ left docInfo locator iter = (if slower docInfo locator op then [op] else []) ++ left docInfo locator next
    ∧ iter.lastCursor.pos < next.lastCursor.pos ∧ next.lastCursor.segId = iter.lastCursor.segId
    ∧ next.operationCount = iter.operationCount := by
  obtain ⟨⟨maxOffset, ops⟩, rest, hblocks, hne, hkept, hfull⟩ := h.head hnext
  have hcount := h.count hnext
  have hneg := h.neg_one_le
  rw [hblocks, flatMap_cons, length_append] at hcount
  rw [toNextReadPosition, hblocks, left, if_pos hnext, hblocks, visible_cons, if_neg hkept]
  cases ops with
  | nil => exact absurd rfl hne
  | cons op ops =>
    rw [length_cons] at hcount
    refine ⟨op, _, rfl, ?_⟩
    rw [filter_cons]
    cases ops with
    | nil =>
      rw [length_nil] at hcount
      obtain ⟨⟨hok, hleft⟩, hle, hseg, hsame⟩ := ok_seekNextValidOpBlock docInfo locator iter.operationCount
        { iter.lastCursor with pos := iter.lastCursor.pos + 1 } hfull (by dsimp only; omega) (by dsimp only; omega)
      refine ⟨hok, ?_, by dsimp only at hle ⊢; omega, hseg, hsame⟩
      rw [hleft]
      split <;> rfl
    | cons op' ops =>
      obtain ⟨hok, hleft⟩ := ok_mk docInfo locator
        { iter.lastCursor with pos := iter.lastCursor.pos + 1 }
        (hfull.cons (show (⟨maxOffset, op' :: ops⟩ : OperationBlock Op).operations ≠ [] from cons_ne_nil _ _))
        (by dsimp only; omega) (show _ = (iter.operationCount : ℤ) by
          rw [flatMap_cons, length_append]
          dsimp only
          omega) (by simpa using hkept)
      refine ⟨hok, ?_, by dsimp only; omega, rfl, rfl⟩
      rw [hleft, visible_cons, if_neg hkept]
      split <;> rfl

/-- With enough fuel, operations that are covered are passed over and nothing else. -/
lemma ok_seekNextValidOperation (hvalid : ∀ op, locator.isFasterThanDoc (docInfo op) ≠ .invalid) (fuel : ℕ)
    (h : Ok locator iter) (hfuel : iter.operationCount ≤ iter.lastCursor.pos + 1 + fuel) :
    ∃ next, seekNextValidOperation docInfo locator fuel iter = some next ∧ Ok locator next
    ∧ left docInfo locator next = left docInfo locator iter
    ∧ (next.hasNext = true → ∃ op next', toNextReadPosition locator next = some (op, next')
      ∧ slower docInfo locator op = true)
    ∧ iter.lastCursor.pos ≤ next.lastCursor.pos ∧ next.lastCursor.segId = iter.lastCursor.segId
    ∧ next.operationCount = iter.operationCount := by
  induction fuel generalizing iter with
  | zero =>
    refine ⟨iter, rfl, h, rfl, fun hnext => ?_, le_rfl, rfl, rfl⟩
    have : iter.lastCursor.pos < iter.operationCount - 1 := by
      simpa [SegmentOperationIterator.hasNext] using hnext
    omega
  | succ fuel ih =>
    rw [seekNextValidOperation]
    split_ifs with hnext
    · obtain ⟨op, next, hread, hok, hleft, hlt, hseg, hsame⟩ := ok_toNextReadPosition docInfo h hnext
      rw [hread]
      dsimp only
      split
      · rename_i hinvalid
        exact absurd hinvalid (hvalid op)
      · rename_i hslower
        exact ⟨iter, rfl, h, rfl, fun _ => ⟨op, next, hread, by simpa [slower] using hslower⟩, le_rfl, rfl, rfl⟩
      rename_i hnot hslower
      obtain ⟨last, heq, hok', hleft', hfirst, hle, hseg', hsame'⟩ := ih hok (by omega)
      refine ⟨last, heq, hok', ?_, hfirst, by omega, hseg'.trans hseg, hsame'.trans hsame⟩
      rw [hleft', hleft, if_neg (by simpa [slower] using hslower), nil_append]
    · exact ⟨iter, rfl, h, rfl, fun h => absurd h hnext, le_rfl, rfl, rfl⟩

/-- An iterator at an operation that is to be returned, or at its end. -/
def Ready (docInfo : Op → DocInfo) (locator : Locator) (iter : SegmentOperationIterator Op) : Prop :=
  Ok locator iter ∧ (iter.hasNext = true → ∃ op next, toNextReadPosition locator iter = some (op, next)
    ∧ slower docInfo locator op = true)

lemma Ready.next (hvalid : ∀ op, locator.isFasterThanDoc (docInfo op) ≠ .invalid) (h : Ready docInfo locator iter)
    (hnext : iter.hasNext = true) :
    ∃ op next, iter.next docInfo locator = some (op, next) ∧ Ready docInfo locator next
    ∧ left docInfo locator iter = op :: left docInfo locator next
    ∧ 0 ≤ next.lastCursor.pos ∧ next.lastCursor.segId = iter.lastCursor.segId
    ∧ next.operationCount = iter.operationCount := by
  obtain ⟨op, next, hread, hok, hleft, hlt, hseg, hsame⟩ := ok_toNextReadPosition docInfo h.1 hnext
  obtain ⟨op', next', hread', hslower⟩ := h.2 hnext
  obtain ⟨rfl, rfl⟩ : op = op' ∧ next = next' := by simpa using hread.symm.trans hread'
  have hneg := h.1.neg_one_le
  obtain ⟨last, heq, hok', hleft', hfirst, hle, hseg', hsame'⟩ :=
    ok_seekNextValidOperation hvalid next.operationCount hok (by omega)
  refine ⟨op, last, ?_, ⟨hok', hfirst⟩, ?_, by omega, hseg'.trans hseg, hsame'.trans hsame⟩
  · rw [SegmentOperationIterator.next, hread]
    simp [heq]
  · rw [hleft, if_pos hslower, hleft']
    rfl

end

/-! ## The segments one after the other -/

section
variable {docInfo : Op → DocInfo} {locator : Locator}

lemma flatMap_seekBegin (docInfo : Op → DocInfo) (beginPos : ℕ) (blocks : List (List Op)) :
    (seekBegin docInfo beginPos blocks).flatMap (·.operations) = blocks.flatten.drop beginPos := by
  fun_induction seekBegin docInfo beginPos blocks with
  | case1 => simp
  | case2 beginPos block rest hin =>
    have : beginPos - block.length = 0 := by omega
    simp [flatMap_map, drop_append, this, ← flatMap_id, flatMap_id']
  | case3 beginPos block rest hin ih =>
    rw [ih, flatten_cons, drop_append, drop_eq_nil_iff.mpr (show block.length ≤ beginPos by omega), nil_append]

lemma full_seekBegin (docInfo : Op → DocInfo) {beginPos : ℕ} {blocks : List (List Op)}
    (hfull : ∀ block ∈ blocks.dropLast, block ≠ []) : Full (seekBegin docInfo beginPos blocks) := by
  fun_induction seekBegin docInfo beginPos blocks with
  | case1 => simp [Full]
  | case2 beginPos block rest hin =>
    have hrest : Full (rest.map fun block => (⟨blockOffset docInfo block, block⟩ : OperationBlock Op)) := by
      intro b hb
      rw [← map_dropLast, mem_map] at hb
      obtain ⟨block', hblock', rfl⟩ := hb
      cases rest with
      | nil => cases hblock'
      | cons next rest => exact hfull block' (mem_cons_of_mem _ hblock')
    cases rest with
    | nil => simp [Full]
    | cons next rest =>
      refine hrest.cons ?_
      have := hfull block mem_cons_self
      rw [ne_eq, drop_eq_nil_iff]
      have := length_pos_iff.mpr this
      omega
  | case3 beginPos block rest hin ih =>
    cases rest with
    | nil => simp [seekBegin, Full]
    | cons next rest => exact ih fun b hb => hfull b (mem_cons_of_mem _ hb)

/-- A log that can be read from a position on. -/
def Readable (indexer : OperationLogIndexer Op) (beginPos : ℕ) : Prop :=
  indexer.onDisk = true → indexer.blocks ≠ none → beginPos < indexer.operations.length

/-- What is read of a segment from a position on. -/
def visibleFrom (docInfo : Op → DocInfo) (locator : Locator) (indexer : OperationLogIndexer Op) (beginPos : ℕ) :
    List Op :=
  visible docInfo locator (seekBegin docInfo beginPos (indexer.blocks.getD []))

lemma visible_sublist (docInfo : Op → DocInfo) (locator : Locator) (blocks : List (OperationBlock Op)) :
    (visible docInfo locator blocks).Sublist ((blocks.flatMap (·.operations)).filter (slower docInfo locator)) := by
  induction blocks with
  | nil => exact Sublist.refl _
  | cons block blocks ih =>
    rw [visible_cons, flatMap_cons, filter_append]
    refine Sublist.append ?_ ih
    split
    · exact nil_sublist _
    · exact Sublist.refl _

lemma visibleFrom_sublist (docInfo : Op → DocInfo) (locator : Locator) (indexer : OperationLogIndexer Op) (beginPos : ℕ) :
    (visibleFrom docInfo locator indexer beginPos).Sublist
      ((indexer.operations.drop beginPos).filter (slower docInfo locator)) := by
  have h := visible_sublist docInfo locator (seekBegin docInfo beginPos (indexer.blocks.getD []))
  rwa [flatMap_seekBegin] at h

/-- The segments can be read, the first one from a position on. -/
def Loadable : List (OperationLogIndexer Op) → ℕ → Prop
  | [], _ => True
  | indexer :: rest, pos => Readable indexer pos ∧ Loadable rest 0

/-- What is read of the segments, each operation with its segment. -/
def contents (docInfo : Op → DocInfo) (locator : Locator) : List (OperationLogIndexer Op) → ℕ → List (ℤ × Op)
  | [], _ => []
  | indexer :: rest, pos =>
    (visibleFrom docInfo locator indexer pos).map (indexer.segmentId, ·) ++ contents docInfo locator rest 0

/-- What an iterator still returns. -/
def entries (docInfo : Op → DocInfo) (locator : Locator) (iter : OperationIterator Op) : List (ℤ × Op) :=
  (iter.currentSegIter.toList.flatMap fun segIter =>
    (left docInfo locator segIter).map (segIter.lastCursor.segId, ·)) ++ contents docInfo locator iter.indexers 0

/-- The iterator is one over the segments `all`. -/
structure Sound (docInfo : Op → DocInfo) (locator : Locator) (all : List (OperationLogIndexer Op))
    (iter : OperationIterator Op) : Prop where
  subset : iter.indexers ⊆ all
  current : ∀ segIter ∈ iter.currentSegIter, Ready docInfo locator segIter ∧ ∃ indexer ∈ all,
    segIter.lastCursor.segId = indexer.segmentId ∧ segIter.operationCount = indexer.operations.length

variable {all : List (OperationLogIndexer Op)} {iter : OperationIterator Op}

section
variable (hvalid : ∀ op, locator.isFasterThanDoc (docInfo op) ≠ .invalid)
include hvalid

/-- Creating the iterator of a segment fails exactly where its log is not readable. -/
lemma create_spec (indexer : OperationLogIndexer Op) (pos : ℕ) :
    match createSegmentOperationIterator docInfo locator indexer pos with
    | none => ¬ Readable indexer pos
    | some none => Readable indexer pos ∧ visibleFrom docInfo locator indexer pos = []
    | some (some iter) => Readable indexer pos ∧ visibleFrom docInfo locator indexer pos = left docInfo locator iter
      ∧ Ready docInfo locator iter ∧ iter.lastCursor.segId = indexer.segmentId
      ∧ iter.operationCount = indexer.operations.length := by
  have hnil : indexer.operations.length ≤ pos → visibleFrom docInfo locator indexer pos = [] := fun hle => by
    have h := visibleFrom_sublist docInfo locator indexer pos
    rw [drop_eq_nil_of_le hle] at h
    exact sublist_nil.mp h
  obtain ⟨segmentId, onDisk, isSealed, blocks, hfull⟩ := indexer
  cases blocks with
  | none => exact ⟨fun _ h => absurd rfl h, rfl⟩
  | some blocks =>
    rw [createSegmentOperationIterator]
    dsimp only
    by_cases hlt : pos < blocks.flatten.length
    · have hblocks : Full (seekBegin docInfo pos blocks) := full_seekBegin docInfo hfull
      obtain ⟨⟨hok, hleft⟩, hle, hseg, hsame⟩ := ok_seekNextValidOpBlock docInfo locator blocks.flatten.length
        ⟨segmentId, pos - 1⟩ hblocks (by dsimp only; omega) (by
          rw [flatMap_seekBegin, length_drop]
          dsimp only
          omega)
      obtain ⟨next, heq, hok', hleft', hfirst, -, hseg', hsame'⟩ :=
        ok_seekNextValidOperation hvalid blocks.flatten.length hok (by dsimp only at hle; omega)
      rw [if_pos hlt, heq]
      exact ⟨fun _ _ => hlt, (hleft'.trans hleft).symm, ⟨hok', hfirst⟩, hseg'.trans hseg, hsame'.trans hsame⟩
    · rw [if_neg hlt]
      cases onDisk with
      | true => exact fun h => hlt (h rfl (by simp))
      | false => exact ⟨nofun, hnil (by simpa [OperationLogIndexer.operations] using hlt)⟩

/-- What a load or `HasNext` gives: an iterator with the same operations, at one of them or at the end. -/
def Loads (docInfo : Op → DocInfo) (locator : Locator) (all : List (OperationLogIndexer Op)) (loadable : Prop)
    (contents : List (ℤ × Op)) : Option (OperationIterator Op) → Prop
  | none => ¬ loadable
  | some iter => Sound docInfo locator all iter ∧ (Loadable iter.indexers 0 ↔ loadable)
      ∧ entries docInfo locator iter = contents ∧ (∀ segIter ∈ iter.currentSegIter, segIter.hasNext = true)
      ∧ (iter.currentSegIter = none → iter.indexers = [])

lemma load_spec {indexers : List (OperationLogIndexer Op)} (pos : ℕ) (hsub : indexers ⊆ all) :
    Loads docInfo locator all (Loadable indexers pos) (contents docInfo locator indexers pos)
      (loadSegIterator docInfo locator indexers pos) := by
  induction indexers generalizing pos with
  | nil => exact ⟨⟨nil_subset _, by simp⟩, Iff.rfl, rfl, by simp, fun _ => rfl⟩
  | cons indexer rest ih =>
    have hcreate := create_spec hvalid indexer pos
    have hrest := ih 0 (fun i hi => hsub (mem_cons_of_mem _ hi))
    rw [loadSegIterator, Loadable, contents]
    generalize createSegmentOperationIterator docInfo locator indexer pos = result at hcreate ⊢
    rcases result with - | - | iter
    · exact fun h => hcreate h.1
    · obtain ⟨hread, hnil⟩ := hcreate
      simpa only [hnil, and_iff_right hread, map_nil, nil_append] using hrest
    obtain ⟨hread, heq, hready, hseg, hcount⟩ := hcreate
    dsimp only
    split_ifs with hnext
    · refine ⟨⟨fun i hi => hsub (mem_cons_of_mem _ hi), ?_⟩, (and_iff_right hread).symm, ?_, ?_, ?_⟩
      · rintro segIter ⟨⟩
        exact ⟨hready, indexer, hsub mem_cons_self, hseg, hcount⟩
      · simp [entries, heq, hseg]
      · rintro segIter ⟨⟩
        exact hnext
      · exact nofun
    · have hnil : left docInfo locator iter = [] := if_neg hnext
      simpa only [heq, hnil, and_iff_right hread, map_nil, nil_append] using hrest

lemma hasNext_spec (h : Sound docInfo locator all iter) :
    Loads docInfo locator all (Loadable iter.indexers 0) (entries docInfo locator iter)
      (iter.hasNext docInfo locator) := by
  have hload := load_spec hvalid 0 h.subset
  obtain ⟨current, indexers⟩ := iter
  cases current with
  | none => exact hload
  | some segIter =>
    rw [OperationIterator.hasNext]
    dsimp only
    split_ifs with hnext
    · exact ⟨h, Iff.rfl, rfl, by rintro segIter ⟨⟩; exact hnext, nofun⟩
    · have hnil : left docInfo locator segIter = [] := if_neg hnext
      simpa only [entries, hnil, Option.toList_some, flatMap_singleton, map_nil, nil_append] using hload

def InLog (all : List (OperationLogIndexer Op)) (cursor : OperationCursor) : Prop :=
  ∃ indexer ∈ all, cursor.segId = indexer.segmentId ∧ 0 ≤ cursor.pos ∧ cursor.pos < indexer.operations.length

/-- The iterator returns its entries, or fails where a segment cannot be read. -/
lemma drain_spec (fuel : ℕ) (h : Sound docInfo locator all iter) (hfuel : (entries docInfo locator iter).length < fuel) :
    match drain docInfo locator fuel iter with
    | none => ¬ Loadable iter.indexers 0
    | some returned => Loadable iter.indexers 0 ∧ (∀ entry ∈ returned, InLog all entry.2)
      ∧ returned.map (fun entry => (entry.2.segId, entry.1)) = entries docInfo locator iter := by
  induction fuel generalizing iter with
  | zero => omega
  | succ fuel ih =>
    have hnext := hasNext_spec hvalid h
    rw [drain]
    generalize iter.hasNext docInfo locator = result at hnext ⊢
    cases result with
    | none => exact hnext
    | some iter' =>
      obtain ⟨hsound, hloadable, hentries, hcurrent, hlast⟩ := hnext
      obtain ⟨current, indexers⟩ := iter'
      cases current with
      | none =>
        obtain rfl : indexers = [] := hlast rfl
        exact ⟨hloadable.mp trivial, by simp, hentries⟩
      | some segIter =>
        obtain ⟨hready, indexer, hmem, hseg, hcount⟩ := hsound.current segIter rfl
        obtain ⟨op, next, hop, hready', hleft, hpos, hseg', hcount'⟩ := hready.next hvalid (hcurrent segIter rfl)
        have hentries' : entries docInfo locator iter = (next.lastCursor.segId, op)
            :: entries docInfo locator ⟨some next, indexers⟩ := by
          rw [← hentries]
          simp [entries, hleft, hseg']
        rw [hentries', length_cons] at hfuel
        have hrest := ih (show Sound docInfo locator all ⟨some next, indexers⟩ from ⟨hsound.subset, by
          rintro segIter ⟨⟩
          exact ⟨hready', indexer, hmem, hseg'.trans hseg, hcount'.trans hcount⟩⟩) (by omega)
        simp only [Option.bind_eq_bind, Option.bind_some, hop]
        generalize drain docInfo locator fuel ⟨some next, indexers⟩ = rest at hrest ⊢
        cases rest with
        | none => exact fun h => hrest (hloadable.mpr h)
        | some rest =>
          obtain ⟨hload, hlog, hmap⟩ := hrest
          refine ⟨hloadable.mp hload, ?_, ?_⟩
          · intro entry hentry
            rcases mem_cons.mp hentry with rfl | hentry
            · exact ⟨indexer, hmem, hseg'.trans hseg, hpos, by
                have := hready'.1.pos_lt
                dsimp only
                omega⟩
            · exact hlog entry hentry
          · rw [map_cons, hmap, hentries']

end

/-- The replayer stops before its end cursor. -/
lemma innerDoOperation_eq (cursorEnd : OperationCursor) (fuel : ℕ)
    {returned : List (Op × OperationCursor)} (lastCursor : OperationCursor)
    (h : drain docInfo locator fuel iter = some returned) :
    innerDoOperation docInfo locator cursorEnd fuel iter lastCursor
    = some ((returned.takeWhile (·.2.Before cursorEnd)).map Prod.fst,
      ((returned.takeWhile (·.2.Before cursorEnd)).getLast?.map Prod.snd).getD lastCursor) := by
  induction fuel generalizing iter returned lastCursor with
  | zero => cases h
  | succ fuel ih =>
    rw [drain] at h
    rw [innerDoOperation]
    cases hnext : iter.hasNext docInfo locator with
    | none => simp [hnext] at h
    | some iter' =>
      obtain ⟨current, indexers⟩ := iter'
      simp only [hnext, Option.bind_eq_bind, Option.bind_some] at h ⊢
      cases current with
      | none =>
        cases h
        rfl
      | some segIter =>
        cases hop : segIter.next docInfo locator with
        | none => simp [hop] at h
        | some result =>
          obtain ⟨op, next⟩ := result
          simp only [hop, Option.bind_some] at h ⊢
          cases hrest : drain docInfo locator fuel ⟨some next, indexers⟩ with
          | none => simp [hrest] at h
          | some rest =>
            simp only [hrest, Option.bind_some, Option.some.injEq] at h
            subst h
            rw [takeWhile_cons]
            by_cases hbefore : next.lastCursor.Before cursorEnd
            · rw [if_pos hbefore, ih next.lastCursor hrest]
              generalize rest.takeWhile (·.2.Before cursorEnd) = taken
              cases hlast : taken.getLast? <;> simp [hbefore, getLast?_cons, hlast]
            · simp [hbefore]

end

end Havenask.OperationLog
