import Havenask.Lib.BlockList

/-!
# A queue in blocks

`swift/util/MessageQueue.h`: a queue of objects in blocks of one size from a pool.  Objects go in behind
the last one and out at the front, and whole blocks can be stolen from the front.

The queue is well-formed when its counters fit the blocks (`WellFormed`).  What it holds is `contents`,
the objects between the two ends; each operation is described by what it does to them.
-/

namespace Havenask.Swift

open List

structure MessageQueue (T : Type*) where
  countInBlock : ℕ
  objectBlocks : List (List T)
  remainCount : ℕ
  begin : ℕ
  size : ℕ

namespace MessageQueue

variable {T : Type*}

def empty (countInBlock : ℕ) : MessageQueue T := ⟨countInBlock, [], 0, 0, 0⟩

/-- The loop of `reserve`; the pool gives a number of blocks at most. -/
def reserveLoop [Inhabited T] : ℕ → ℤ → MessageQueue T → Bool × MessageQueue T
  | granted, needCount, queue =>
    if needCount ≤ 0 then (true, queue)
    else
      match granted with
      | 0 => (false, queue)
      | granted + 1 =>
        reserveLoop granted (needCount - queue.countInBlock)
          { queue with
            objectBlocks := queue.objectBlocks ++ [List.replicate queue.countInBlock default]
            remainCount := queue.remainCount + queue.countInBlock }

def reserve [Inhabited T] (granted count : ℕ) (queue : MessageQueue T) : Bool × MessageQueue T :=
  if count ≤ queue.remainCount then (true, queue)
  else reserveLoop granted (count - queue.remainCount) queue

section
variable (queue : MessageQueue T)

def pushBack (object : T) : MessageQueue T :=
  let place := queue.begin + queue.size
  { queue with
    objectBlocks := queue.objectBlocks.modify (place / queue.countInBlock)
      (·.set (place % queue.countInBlock) object)
    size := queue.size + 1
    remainCount := queue.remainCount - 1 }

/-- The operator `[]`. -/
def get [Inhabited T] (queue : MessageQueue T) (index : ℕ) : T :=
  (queue.objectBlocks[(queue.begin + index) / queue.countInBlock]?.bind
    (·[(queue.begin + index) % queue.countInBlock]?)).getD default

def front [Inhabited T] (queue : MessageQueue T) : T := (queue.objectBlocks[0]?.bind (·[queue.begin]?)).getD default

def popFront : MessageQueue T :=
  if queue.countInBlock ≤ queue.begin + 1 then
    { queue with begin := 0, size := queue.size - 1, objectBlocks := queue.objectBlocks.drop 1 }
  else { queue with begin := queue.begin + 1, size := queue.size - 1 }

/-- What `stealBlock` gives: the blocks, where the objects start in the first one, and how many there
are. -/
structure Stolen (T : Type*) where
  objectVec : List (List T)
  startOffset : ℕ
  msgCount : ℕ

def stealBlock (count : ℕ) : Stolen T × MessageQueue T :=
  let blockOffset := (queue.begin + count) / queue.countInBlock
  let objectVec := queue.objectBlocks.take blockOffset
  if 0 < objectVec.length then
    let msgCount := min (objectVec.length * queue.countInBlock - queue.begin) queue.size
    (⟨objectVec, queue.begin, msgCount⟩,
      { queue with
        objectBlocks := queue.objectBlocks.drop blockOffset
        size := queue.size - msgCount
        begin := 0 })
  else (⟨[], queue.begin, 0⟩, queue)

/-! ## Contents -/

def contents : List T := (queue.objectBlocks.flatten.drop queue.begin).take queue.size

end

/-- The counters of a queue fit its blocks. -/
structure WellFormed (queue : MessageQueue T) : Prop where
  pos : 0 < queue.countInBlock
  uniform : BlockList.Uniform queue.countInBlock queue.objectBlocks
  begin_lt : queue.begin < queue.countInBlock
  total : queue.begin + queue.size + queue.remainCount = queue.objectBlocks.length * queue.countInBlock

lemma wellFormed_empty {countInBlock : ℕ} (h : 0 < countInBlock) : (empty countInBlock : MessageQueue T).WellFormed :=
  ⟨h, forall_mem_nil _, h, by simp [empty]⟩

@[simp] lemma contents_empty (countInBlock : ℕ) : (empty countInBlock : MessageQueue T).contents = [] := by
  simp [contents, empty]

namespace WellFormed

variable {queue : MessageQueue T}

section
variable (h : queue.WellFormed)
include h

lemma length_flatten :
    queue.objectBlocks.flatten.length = queue.begin + queue.size + queue.remainCount := by
  rw [BlockList.length_flatten h.uniform, h.total]

lemma length_contents : queue.contents.length = queue.size := by
  rw [contents, length_take, length_drop, h.length_flatten]
  omega

/-! ## Operations -/

lemma get_eq [Inhabited T] {i : ℕ} (hi : i < queue.size) :
    queue.get i = (queue.contents[i]?).getD default := by
  rw [get, ← BlockList.getElem?_flatten h.pos h.uniform, contents, getElem?_take_of_lt hi, getElem?_drop]

lemma front_eq [Inhabited T] (hsize : 0 < queue.size) :
    queue.front = (queue.contents.head?).getD default := by
  have hget := h.get_eq hsize
  rw [get, Nat.add_zero, Nat.div_eq_of_lt h.begin_lt, Nat.mod_eq_of_lt h.begin_lt] at hget
  rw [front, hget, head?_eq_getElem?]

omit h in
lemma reserveLoop [Inhabited T] (granted : ℕ) : ∀ {queue : MessageQueue T} (needCount : ℤ), queue.WellFormed →
    (MessageQueue.reserveLoop granted needCount queue).2.WellFormed
    ∧ (MessageQueue.reserveLoop granted needCount queue).2.contents = queue.contents
    ∧ ((MessageQueue.reserveLoop granted needCount queue).1 = true →
      queue.remainCount + needCount ≤ (MessageQueue.reserveLoop granted needCount queue).2.remainCount) := by
  induction granted with
  | zero =>
    intro queue needCount h
    rw [MessageQueue.reserveLoop]
    split
    · exact ⟨h, rfl, fun _ => by dsimp only; omega⟩
    · exact ⟨h, rfl, fun hfalse => absurd hfalse (by simp)⟩
  | succ granted ih =>
    intro queue needCount h
    rw [MessageQueue.reserveLoop]
    split
    · exact ⟨h, rfl, fun _ => by dsimp only; omega⟩
    have hlength := h.length_flatten
    have htotal := h.total
    have hnext : WellFormed { queue with
        objectBlocks := queue.objectBlocks ++ [replicate queue.countInBlock default]
        remainCount := queue.remainCount + queue.countInBlock } := by
      refine ⟨h.pos, h.uniform.append ?_, h.begin_lt, ?_⟩
      · intro block hmem
        rw [mem_singleton.mp hmem, length_replicate]
      dsimp only
      rw [length_append, length_singleton, Nat.succ_mul]
      omega
    have hcontents : contents { queue with
        objectBlocks := queue.objectBlocks ++ [replicate queue.countInBlock default]
        remainCount := queue.remainCount + queue.countInBlock } = queue.contents := by
      rw [contents, contents]
      dsimp only
      rw [flatten_append, drop_append_of_le_length (by omega), take_append_of_le_length (by rw [length_drop]; omega)]
    obtain ⟨hwf, hsame, hremain⟩ := ih (needCount - queue.countInBlock) hnext
    refine ⟨hwf, hsame.trans hcontents, fun htrue => ?_⟩
    have := hremain htrue
    push_cast at this
    omega

lemma reserve [Inhabited T] (granted count : ℕ) : (queue.reserve granted count).2.WellFormed
    ∧ (queue.reserve granted count).2.contents = queue.contents
    ∧ ((queue.reserve granted count).1 = true → count ≤ (queue.reserve granted count).2.remainCount) := by
  rw [MessageQueue.reserve]
  split
  · rename_i hcount
    exact ⟨h, rfl, fun _ => hcount⟩
  · obtain ⟨hwf, hsame, hremain⟩ := h.reserveLoop granted (count - queue.remainCount)
    exact ⟨hwf, hsame, fun htrue => by have := hremain htrue; omega⟩

lemma pushBack (hremain : 0 < queue.remainCount) (object : T) :
    (queue.pushBack object).WellFormed
    ∧ (queue.pushBack object).contents = queue.contents ++ [object] := by
  have hlength := h.length_flatten
  have htotal := h.total
  refine ⟨⟨h.pos, h.uniform.modify_set _ _ _, h.begin_lt, ?_⟩, ?_⟩
  · simp only [MessageQueue.pushBack, length_modify]
    omega
  simp only [MessageQueue.pushBack, contents]
  have hplace : queue.size < (queue.objectBlocks.flatten.drop queue.begin).length := by
    rw [length_drop]
    omega
  rw [BlockList.flatten_modify_set h.pos h.uniform, drop_set, if_neg (by omega),
    Nat.add_sub_cancel_left, set_eq_take_append_cons_drop, if_pos hplace,
    take_append, take_take, length_take_of_le hplace.le]
  simp

lemma popFront (hsize : 0 < queue.size) :
    queue.popFront.WellFormed ∧ queue.popFront.contents = queue.contents.drop 1 := by
  have htotal := h.total
  rw [MessageQueue.popFront]
  split
  · rename_i hlast
    have hbegin := le_antisymm h.begin_lt hlast
    refine ⟨⟨h.pos, h.uniform.drop 1, h.pos, ?_⟩, ?_⟩
    · dsimp only
      rw [length_drop, Nat.sub_mul, ← htotal]
      omega
    · rw [contents, contents]
      rw [BlockList.flatten_drop h.uniform, Nat.one_mul, drop_zero, ← hbegin, drop_take, drop_drop]
  · refine ⟨⟨h.pos, h.uniform, by dsimp only; omega, by dsimp only; omega⟩, ?_⟩
    rw [contents, contents, drop_take, drop_drop]

lemma stealBlock {count : ℕ} (hcount : count ≤ queue.size) :
    (queue.stealBlock count).2.WellFormed
    ∧ (queue.stealBlock count).1.msgCount ≤ count
    ∧ (queue.stealBlock count).2.contents = queue.contents.drop (queue.stealBlock count).1.msgCount
    ∧ (queue.stealBlock count).1.objectVec.flatten.drop (queue.stealBlock count).1.startOffset
      = queue.contents.take (queue.stealBlock count).1.msgCount
    ∧ BlockList.Uniform queue.countInBlock (queue.stealBlock count).1.objectVec
    ∧ (queue.stealBlock count).1.startOffset ≤ queue.countInBlock := by
  have htotal := h.total
  have hpos := h.pos
  have hbegin := h.begin_lt
  have hdiv : (queue.begin + count) / queue.countInBlock * queue.countInBlock ≤ queue.begin + count :=
    Nat.div_mul_le_self _ _
  have hblocks : (queue.begin + count) / queue.countInBlock ≤ queue.objectBlocks.length := by
    apply Nat.le_of_mul_le_mul_right _ hpos
    omega
  rw [MessageQueue.stealBlock]
  simp only [length_take, min_eq_left hblocks]
  generalize (queue.begin + count) / queue.countInBlock = k at hdiv hblocks
  split
  · rename_i hk
    have hfull : queue.countInBlock ≤ k * queue.countInBlock := Nat.le_mul_of_pos_left _ hk
    have hmsg : min (k * queue.countInBlock - queue.begin) queue.size
        = k * queue.countInBlock - queue.begin := min_eq_left (by omega)
    dsimp only
    rw [hmsg]
    refine ⟨⟨hpos, h.uniform.drop k, hpos, ?_⟩, by omega, ?_, ?_,
      fun block hmem => h.uniform block (mem_of_mem_take hmem), hbegin.le⟩
    · dsimp only
      rw [length_drop, Nat.sub_mul, ← htotal]
      omega
    · rw [contents, contents]
      rw [drop_zero, BlockList.flatten_drop h.uniform, drop_take, drop_drop]
      congr 2
      omega
    · rw [contents, BlockList.flatten_take h.uniform, drop_take, take_take]
      congr 1
      omega
  · exact ⟨h, Nat.zero_le _, rfl, by simp, forall_mem_nil _, hbegin.le⟩

end

end WellFormed

end MessageQueue

end Havenask.Swift
