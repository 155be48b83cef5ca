import Havenask.Swift.MessageQueue

/-!
# The message buffer of a broker

`swift/broker/storage/MessageDeque.cpp`: the messages that a broker holds in memory, in a queue of blocks,
with an index that says how many of them are committed and with counters of their sizes.  Messages come in
behind the last one.  They leave at the front, one by one (`recycle`) or in whole blocks
(`MessageGroup::tryRecycleFast`).

* **`Accounted`**: the held messages are the last ones that were pushed, the index counts the committed
  ones and the counters are sums over them.
* **`excess`**: what the data size counts beyond the held messages.  `tryRecycleFast` takes the lock twice, to
  steal blocks and to correct the data size; in between the stolen messages are still counted.
* **`Accounted.drop`**: every way to recycle gives up some committed messages at the front, and not all.
* **`accounted_of_reachable`**: the invariant holds in each state, provided that only messages which have
  been pushed are committed.
-/

namespace Havenask.Swift

open List

structure MemoryMessage where
  msgId : ℤ
  timestamp : ℤ
  len : ℕ
  payload : UInt16
  maskPayload : UInt8
  merged : Bool
  msgCount : ℕ
deriving DecidableEq, Inhabited

/-- `MEMORY_MESSAGE_META_SIZE`, the size of a `MemoryMessage`. -/
def memoryMessageMetaSize : ℕ := 40

structure MessageDeque where
  committedIndex : ℤ
  lastCommittedId : ℤ
  dataSize : ℤ
  metaSize : ℤ
  leftToBeCommittedDataSize : ℤ
  lastAcceptedMsgTimeStamp : ℤ
  msgQueue : MessageQueue MemoryMessage

namespace MessageDeque

/-- `clear`. -/
def empty (countInBlock : ℕ) : MessageDeque := ⟨0, -1, 0, 0, 0, 0, .empty countInBlock⟩

def reserve (granted count : ℕ) (deque : MessageDeque) : Bool × MessageDeque :=
  let (success, msgQueue) := deque.msgQueue.reserve granted count
  (success, { deque with msgQueue := msgQueue })

section
variable (deque : MessageDeque)

def pushBack (msg : MemoryMessage) : MessageDeque :=
  { deque with
    dataSize := deque.dataSize + msg.len
    metaSize := deque.metaSize + memoryMessageMetaSize
    leftToBeCommittedDataSize := deque.leftToBeCommittedDataSize + msg.len
    lastAcceptedMsgTimeStamp := msg.timestamp
    msgQueue := deque.msgQueue.pushBack msg }

def popFront : MessageDeque :=
  if deque.msgQueue.size = 0 then deque
  else
    { deque with
      dataSize := deque.dataSize - deque.msgQueue.front.len
      metaSize := deque.metaSize - memoryMessageMetaSize
      msgQueue := deque.msgQueue.popFront
      committedIndex := deque.committedIndex - 1 }

/-- The loop of `setCommittedMsgId`: the index that it reaches, and the size of what it passes. -/
def commitLoop (queue : MessageQueue MemoryMessage) (msgId : ℤ) : ℕ → ℤ → ℤ → ℤ × ℤ
  | 0, committedIndex, commitSize => (committedIndex, commitSize)
  | fuel + 1, committedIndex, commitSize =>
    if committedIndex < queue.size then
      let msg := queue.get committedIndex.toNat
      if msgId < msg.msgId then (committedIndex, commitSize)
      else commitLoop queue msgId fuel (committedIndex + 1) (commitSize + msg.len)
    else (committedIndex, commitSize)

def setCommittedMsgId (msgId : ℤ) : MessageDeque :=
  let (committedIndex, commitSize) := commitLoop deque.msgQueue msgId
    (deque.msgQueue.size - deque.committedIndex).toNat deque.committedIndex 0
  { deque with
    lastCommittedId := msgId
    committedIndex := committedIndex
    leftToBeCommittedDataSize := deque.leftToBeCommittedDataSize - commitSize }

def getLastReceivedMsgId : ℤ :=
  if deque.msgQueue.size = 0 then -1 else (deque.msgQueue.get (deque.msgQueue.size - 1)).msgId

/-- The size of a view: all messages, or those that are committed. -/
def viewSize (readNotCommittedMsg : Bool) : ℕ :=
  if readNotCommittedMsg then deque.msgQueue.size else deque.committedIndex.toNat

end

/-! ## Recycling -/

/-- The loop of `recycle`; the predicate may look at what has been recycled so far. -/
def recycleLoop (p : ℕ → MemoryMessage → Bool) : ℕ → ℕ → MessageDeque → MessageDeque
  | 0, _, deque => deque
  | fuel + 1, actualRecycleSize, deque =>
    if 1 < deque.msgQueue.size then
      let msg := deque.msgQueue.front
      if deque.lastCommittedId - 1 < msg.msgId then deque
      else if p actualRecycleSize msg then
        recycleLoop p fuel (actualRecycleSize + (msg.len + memoryMessageMetaSize)) deque.popFront
      else deque
    else deque

/-- `recycle`.  Each turn of the loop takes a message, so that there are no turns beyond them. -/
def recycle (p : ℕ → MemoryMessage → Bool) (deque : MessageDeque) : MessageDeque :=
  recycleLoop p deque.msgQueue.size 0 deque

def recycleByTimestamp (timestamp : ℤ) (deque : MessageDeque) : MessageDeque :=
  deque.recycle fun _ msg => decide (msg.timestamp < timestamp)

def recycleBySize (targetSize : ℤ) (deque : MessageDeque) : MessageDeque :=
  deque.recycle fun actualRecycleSize msg =>
    decide ((actualRecycleSize + (msg.len + memoryMessageMetaSize) : ℕ) ≤ targetSize)

def stealBlock (count : ℕ) (deque : MessageDeque) : MessageQueue.Stolen MemoryMessage × MessageDeque :=
  let (stolen, msgQueue) := deque.msgQueue.stealBlock count
  (stolen,
    { deque with
      msgQueue := msgQueue
      committedIndex := deque.committedIndex - stolen.msgCount
      metaSize := deque.metaSize - memoryMessageMetaSize * stolen.msgCount })

def updateStealDataLen (dataLen : ℕ) (deque : MessageDeque) : MessageDeque :=
  { deque with dataSize := deque.dataSize - dataLen }

/-- The loop of `tryRecycleFast` over the stolen blocks: the size of their messages. -/
def stolenSize : ℕ → List (List MemoryMessage) → ℕ
  | _, [] => 0
  | startOffset, block :: blocks =>
    ((block.drop startOffset).map MemoryMessage.len).sum + stolenSize 0 blocks

/-- `MessageGroup::tryRecycleFast` under its first lock: blocks are taken off the queue, and their data is still
counted.  `percent` is the product with the percentage, as an integer. -/
def tryRecycleFast (readNotCommittedMsg : Bool) (percent : ℤ → ℤ) (deque : MessageDeque) :
    MessageQueue.Stolen MemoryMessage × MessageDeque :=
  let msgCount := deque.viewSize readNotCommittedMsg
  let recycleBlock := percent deque.msgQueue.objectBlocks.length
  if recycleBlock < 0 then (⟨[], 0, 0⟩, deque)
  else
    let recycleMsgCount := percent msgCount
    if msgCount ≤ recycleMsgCount ∨ recycleMsgCount ≤ 0 then (⟨[], 0, 0⟩, deque)
    else if deque.lastCommittedId < (deque.msgQueue.get (recycleMsgCount - 1).toNat).msgId then (⟨[], 0, 0⟩, deque)
    else deque.stealBlock recycleMsgCount.toNat

/-- What `tryRecycleFast` has to take off the data size under its second lock, which it does not take when it has
no block. -/
def toBeUpdated (stolen : MessageQueue.Stolen MemoryMessage) : List ℕ :=
  if stolen.objectVec.length = 0 then [] else [stolenSize stolen.startOffset stolen.objectVec]

/-! ## The window -/

def messages (deque : MessageDeque) : List MemoryMessage := deque.msgQueue.contents

def lastId (pushed : List MemoryMessage) : ℤ := ((pushed.getLast?).map MemoryMessage.msgId).getD (-1)

def uncommitted (deque : MessageDeque) : List MemoryMessage :=
  deque.messages.filter fun msg => decide (deque.lastCommittedId < msg.msgId)

def dataLen (msgs : List MemoryMessage) : ℤ := ((msgs.map MemoryMessage.len).sum : ℕ)

/-- What the data size counts beyond the messages that are held. -/
def excess (deque : MessageDeque) : ℤ := deque.dataSize - dataLen deque.messages

/-- The buffer after some messages were pushed; the data size is left to `excess`. -/
structure Accounted (pushed : List MemoryMessage) (deque : MessageDeque) : Prop where
  wellFormed : deque.msgQueue.WellFormed
  increasing : pushed.Pairwise fun msg msg' => msg.msgId < msg'.msgId
  nonneg : ∀ msg ∈ pushed, 0 ≤ msg.msgId
  lastCommittedId_le : deque.lastCommittedId ≤ lastId pushed
  suffix : ∃ recycled, pushed = recycled ++ deque.messages
    ∧ ∀ msg ∈ recycled, msg.msgId ≤ deque.lastCommittedId
  ne_nil : pushed ≠ [] → deque.messages ≠ []
  committedIndex_eq : deque.committedIndex
    = deque.messages.countP fun msg => decide (msg.msgId ≤ deque.lastCommittedId)
  metaSize_eq : deque.metaSize = memoryMessageMetaSize * deque.messages.length
  left_eq : deque.leftToBeCommittedDataSize = dataLen deque.uncommitted

/-! ## Messages in increasing order -/

section
variable {msgs : List MemoryMessage}

/-- The messages up to an id are the first ones. -/
lemma filter_le_eq_take (h : msgs.Pairwise fun msg msg' => msg.msgId < msg'.msgId) (id : ℤ) :
    msgs.filter (fun msg => decide (msg.msgId ≤ id)) = msgs.take (msgs.countP fun msg => decide (msg.msgId ≤ id))
    ∧ msgs.filter (fun msg => decide (id < msg.msgId))
      = msgs.drop (msgs.countP fun msg => decide (msg.msgId ≤ id)) := by
  induction h with
  | nil => exact ⟨rfl, rfl⟩
  | @cons msg msgs hlt _ ih =>
    by_cases hid : msg.msgId ≤ id
    · simp only [filter_cons, countP_cons, hid, not_lt.mpr hid, decide_true, decide_false,
        if_true, ih, Bool.false_eq_true, if_false, take_succ_cons, drop_succ_cons, and_self]
    have hnone : msgs.countP (fun msg => decide (msg.msgId ≤ id)) = 0 := by
      rw [countP_eq_zero]
      intro msg' hmem
      have := hlt msg' hmem
      simp only [decide_eq_true_eq]
      omega
    have hid' : id < msg.msgId := not_le.mp hid
    simp only [hnone, take_zero, drop_zero] at ih
    simp only [filter_cons, countP_cons, hid, hid', decide_true, decide_false,
      if_true, ih, Bool.false_eq_true, if_false, hnone, Nat.add_zero, take_zero, drop_zero,
      and_self]

end

@[simp] lemma dataLen_append (msgs msgs' : List MemoryMessage) :
    dataLen (msgs ++ msgs') = dataLen msgs + dataLen msgs' := by
  simp [dataLen]

lemma dataLen_take_add_drop (msgs : List MemoryMessage) (n : ℕ) :
    dataLen (msgs.take n) + dataLen (msgs.drop n) = dataLen msgs := by
  rw [← dataLen_append, take_append_drop]

/-! ## Pushing -/

/-- A message may be pushed: its id is the next one, and its timestamp is larger. -/
def Follows (pushed : List MemoryMessage) (msg : MemoryMessage) : Prop :=
  match pushed.getLast? with
  | none => 0 ≤ msg.msgId
  | some last => msg.msgId = last.msgId + 1 ∧ last.timestamp < msg.timestamp

instance (pushed : List MemoryMessage) (msg : MemoryMessage) : Decidable (Follows pushed msg) := by
  unfold Follows
  cases pushed.getLast? with
  | none => exact inferInstanceAs (Decidable (0 ≤ msg.msgId))
  | some last =>
    exact inferInstanceAs (Decidable (msg.msgId = last.msgId + 1 ∧ last.timestamp < msg.timestamp))

section
variable {pushed : List MemoryMessage} {deque : MessageDeque} {msg : MemoryMessage}

lemma le_lastId (h : pushed.Pairwise fun msg msg' => msg.msgId < msg'.msgId) :
    ∀ msg ∈ pushed, msg.msgId ≤ lastId pushed := by
  intro msg hmem
  rcases eq_nil_or_concat pushed with rfl | ⟨init, last, rfl⟩
  · exact absurd hmem not_mem_nil
  rw [concat_eq_append] at h hmem ⊢
  rw [lastId, getLast?_concat]
  rcases mem_append.mp hmem with hmem | hmem
  · exact ((pairwise_append.mp h).2.2 msg hmem last (mem_singleton_self _)).le
  · rw [mem_singleton.mp hmem]
    exact le_rfl

lemma Follows.lastId_lt (h : Follows pushed msg) : lastId pushed < msg.msgId := by
  rw [Follows] at h
  rw [lastId]
  split at h
  · rename_i hlast
    rw [hlast]
    change (-1 : ℤ) < _
    omega
  rename_i last hlast
  rw [hlast]
  change last.msgId < _
  omega

lemma Follows.nonneg (h : Follows pushed msg) (hnonneg : ∀ msg ∈ pushed, 0 ≤ msg.msgId) : 0 ≤ msg.msgId := by
  rw [Follows] at h
  split at h
  · exact h
  rename_i last hlast
  have := hnonneg last (mem_of_getLast? hlast)
  omega

section
variable (h : Accounted pushed deque)
include h

lemma Accounted.lt_of_follows (hfollows : Follows pushed msg) :
    deque.lastCommittedId < msg.msgId := h.lastCommittedId_le.trans_lt hfollows.lastId_lt

lemma Accounted.sorted : deque.messages.Pairwise fun msg msg' => msg.msgId < msg'.msgId := by
  obtain ⟨recycled, heq, -⟩ := h.suffix
  have hpair := h.increasing
  rw [heq] at hpair
  exact (pairwise_append.mp hpair).2.1

lemma Accounted.size_eq : deque.msgQueue.size = deque.messages.length := h.wellFormed.length_contents.symm

/-- Room in the queue changes nothing else. -/
lemma Accounted.reserve (granted count : ℕ) : Accounted pushed (deque.reserve granted count).2
    ∧ ((deque.reserve granted count).1 = true → count ≤ (deque.reserve granted count).2.msgQueue.remainCount)
    ∧ (deque.reserve granted count).2.excess = deque.excess := by
  obtain ⟨hwf, hcontents, hremain⟩ := h.wellFormed.reserve granted count
  have hmessages : (deque.reserve granted count).2.messages = deque.messages := hcontents
  have huncommitted : (deque.reserve granted count).2.uncommitted = deque.uncommitted := by
    rw [uncommitted, uncommitted, hmessages]
    rfl
  refine ⟨⟨hwf, h.increasing, h.nonneg, h.lastCommittedId_le, ?_, ?_, ?_, ?_, ?_⟩, hremain, ?_⟩
  · rw [hmessages]
    exact h.suffix
  · rw [hmessages]
    exact h.ne_nil
  · rw [hmessages]
    exact h.committedIndex_eq
  · rw [hmessages]
    exact h.metaSize_eq
  · rw [huncommitted]
    exact h.left_eq
  · rw [excess, hmessages]
    rfl

lemma Accounted.pushBack (hremain : 0 < deque.msgQueue.remainCount)
    (hfollows : Follows pushed msg) :
    Accounted (pushed ++ [msg]) (deque.pushBack msg) ∧ (deque.pushBack msg).excess = deque.excess := by
  obtain ⟨hwf, hcontents⟩ := h.wellFormed.pushBack hremain msg
  have hmessages : (deque.pushBack msg).messages = deque.messages ++ [msg] := hcontents
  have hlt := h.lt_of_follows hfollows
  have hcommitted : (deque.pushBack msg).lastCommittedId = deque.lastCommittedId := rfl
  have hlast : lastId (pushed ++ [msg]) = msg.msgId := by rw [lastId, getLast?_concat]; rfl
  obtain ⟨recycled, heq, hrecycled⟩ := h.suffix
  refine ⟨⟨hwf, ?_, ?_, ?_, ⟨recycled, ?_, hrecycled⟩, ?_, ?_, ?_, ?_⟩, ?_⟩
  · refine pairwise_append.mpr ⟨h.increasing, pairwise_singleton _ _, ?_⟩
    intro msg' hmem msg'' hmem'
    rw [mem_singleton.mp hmem']
    exact (le_lastId h.increasing msg' hmem).trans_lt hfollows.lastId_lt
  · intro msg' hmem
    rcases mem_append.mp hmem with hmem | hmem
    · exact h.nonneg msg' hmem
    · rw [mem_singleton.mp hmem]
      exact hfollows.nonneg h.nonneg
  · rw [hlast]
    exact hlt.le
  · rw [hmessages, heq, append_assoc]
  · simp [hmessages]
  · rw [hmessages, countP_append]
    have hnone : [msg].countP (fun msg => decide (msg.msgId ≤ deque.lastCommittedId)) = 0 := by
      simp [not_le.mpr hlt]
    rw [hcommitted, hnone]
    exact h.committedIndex_eq
  · rw [hmessages, length_append]
    have := h.metaSize_eq
    simp only [MessageDeque.pushBack, length_singleton]
    push_cast
    linarith
  · rw [uncommitted, hmessages, filter_append, dataLen_append]
    have hself : [msg].filter (fun msg => decide (deque.lastCommittedId < msg.msgId)) = [msg] := by
      simp [hlt]
    rw [hcommitted, hself]
    change deque.leftToBeCommittedDataSize + msg.len = dataLen deque.uncommitted + dataLen [msg]
    rw [h.left_eq]
    simp [dataLen]
  · rw [excess, hmessages, dataLen_append, excess]
    simp [MessageDeque.pushBack, dataLen]

end

/-! ## Committing -/

lemma commitLoop_eq {queue : MessageQueue MemoryMessage} (hwf : queue.WellFormed)
    (hsorted : queue.contents.Pairwise fun msg msg' => msg.msgId < msg'.msgId) (id : ℤ) (fuel : ℕ) :
    ∀ {k : ℕ} (commitSize : ℤ),
    k ≤ queue.contents.countP (fun msg => decide (msg.msgId ≤ id)) → queue.size ≤ k + fuel →
    commitLoop queue id fuel k commitSize
      = (((queue.contents.countP (fun msg => decide (msg.msgId ≤ id)) : ℕ) : ℤ), commitSize
        + (dataLen (queue.contents.drop k) - dataLen (queue.contents.drop
            (queue.contents.countP (fun msg => decide (msg.msgId ≤ id)))))) := by
  have hcount : queue.contents.countP (fun msg => decide (msg.msgId ≤ id)) ≤ queue.size := by
    rw [← hwf.length_contents]
    exact countP_le_length
  obtain ⟨htake, hdrop⟩ := filter_le_eq_take hsorted id
  generalize queue.contents.countP (fun msg => decide (msg.msgId ≤ id)) = n at hcount htake hdrop
  induction fuel with
  | zero =>
    intro k commitSize hk hfuel
    obtain rfl : k = n := by omega
    simp [commitLoop]
  | succ fuel ih =>
    intro k commitSize hk hfuel
    rw [commitLoop]
    by_cases hsize : (k : ℤ) < queue.size
    · have hlt : k < queue.contents.length := by rw [hwf.length_contents]; omega
      have hget : queue.get k = queue.contents[k] := by
        rw [hwf.get_eq (by omega), getElem?_eq_getElem hlt]
        rfl
      rw [if_pos hsize]
      simp only [Int.toNat_natCast, hget]
      by_cases hkn : k < n
      · -- a message in front of the end of the loop is committed
        have hmem : queue.contents[k] ∈ queue.contents.take n := mem_take_iff_getElem.mpr ⟨k, by omega, rfl⟩
        rw [← htake, mem_filter, decide_eq_true_eq] at hmem
        rw [if_neg (not_lt.mpr hmem.2)]
        have hnext := ih (commitSize + (queue.contents[k]).len) (k := k + 1) hkn (by omega)
        push_cast at hnext
        rw [hnext, drop_eq_getElem_cons hlt]
        simp only [Prod.mk.injEq, true_and, dataLen, map_cons, sum_cons]
        push_cast
        ring
      · obtain rfl : k = n := by omega
        have hmem : queue.contents[k] ∈ queue.contents.drop k := by
          rw [drop_eq_getElem_cons hlt]
          exact mem_cons_self
        rw [← hdrop, mem_filter, decide_eq_true_eq] at hmem
        rw [if_pos hmem.2]
        simp
    · obtain rfl : k = n := by omega
      rw [if_neg hsize]
      simp

section
variable (h : Accounted pushed deque)
include h

lemma Accounted.setCommittedMsgId {id : ℤ}
    (hle : deque.lastCommittedId ≤ id) (hlast : id ≤ lastId pushed) :
    Accounted pushed (deque.setCommittedMsgId id) := by
  have hcount : deque.messages.countP (fun msg => decide (msg.msgId ≤ deque.lastCommittedId))
      ≤ deque.messages.countP (fun msg => decide (msg.msgId ≤ id)) := by
    apply countP_mono_left
    intro msg _ hmsg
    rw [decide_eq_true_eq] at hmsg ⊢
    exact hmsg.trans hle
  have hloop := commitLoop_eq h.wellFormed h.sorted id
    (deque.msgQueue.size - deque.committedIndex).toNat 0 hcount (by
      have hindex := h.committedIndex_eq
      omega)
  rw [← h.committedIndex_eq, ← messages] at hloop
  have hmessages : (deque.setCommittedMsgId id).messages = deque.messages := rfl
  obtain ⟨recycled, heq, hrecycled⟩ := h.suffix
  refine ⟨h.wellFormed, h.increasing, h.nonneg, hlast,
    ⟨recycled, heq, fun msg hmem => (hrecycled msg hmem).trans hle⟩, h.ne_nil, ?_,
    h.metaSize_eq, ?_⟩
  · rw [hmessages]
    simp only [MessageDeque.setCommittedMsgId, hloop]
  rw [uncommitted, hmessages]
  have hold := h.left_eq
  rw [uncommitted, (filter_le_eq_take h.sorted _).2] at hold
  simp only [MessageDeque.setCommittedMsgId, hloop]
  rw [(filter_le_eq_take h.sorted _).2, hold]
  ring

/-! ## Recycling -/

/-- What recycling does: it gives up some messages at the front, all of them committed, and not the last
one. -/
structure Recycles (deque deque' : MessageDeque) (n : ℕ) : Prop where
  messages_eq : deque'.messages = deque.messages.drop n
  committed : ∀ msg ∈ deque.messages.take n, msg.msgId ≤ deque.lastCommittedId
  lt_length : deque.messages ≠ [] → n < deque.messages.length
  lastCommittedId_eq : deque'.lastCommittedId = deque.lastCommittedId

omit h in
lemma Recycles.refl (deque : MessageDeque) : Recycles deque deque 0 := ⟨by simp, by simp, length_pos_iff.mpr, rfl⟩

omit h in
lemma Recycles.trans {deque deque' deque'' : MessageDeque} {n n' : ℕ} (h : Recycles deque deque' n)
    (h' : Recycles deque' deque'' n') : Recycles deque deque'' (n + n') := by
  have hlength : deque.messages ≠ [] → n' < deque.messages.length - n := by
    intro hne
    have hlt := h.lt_length hne
    have hlt' := h'.lt_length (by
      rw [h.messages_eq]
      exact ne_nil_of_length_pos (by rw [length_drop]; omega))
    rwa [h.messages_eq, length_drop] at hlt'
  refine ⟨?_, ?_, ?_, h'.lastCommittedId_eq.trans h.lastCommittedId_eq⟩
  · rw [h'.messages_eq, h.messages_eq, drop_drop]
  · intro msg hmem
    rw [take_add] at hmem
    rcases mem_append.mp hmem with hmem | hmem
    · exact h.committed msg hmem
    · rw [← h.lastCommittedId_eq]
      exact h'.committed msg (by rwa [h.messages_eq])
  · intro hne
    have := hlength hne
    omega

/-- The index and the counters after some messages have been given up. -/
lemma Accounted.drop {deque' : MessageDeque} {n : ℕ}
    (hwf : deque'.msgQueue.WellFormed) (hrecycles : Recycles deque deque' n)
    (hindex : deque'.committedIndex = deque.committedIndex - n)
    (hmeta : deque'.metaSize = deque.metaSize - memoryMessageMetaSize * n)
    (hleft : deque'.leftToBeCommittedDataSize = deque.leftToBeCommittedDataSize) (hn : n ≤ deque.messages.length) :
    Accounted pushed deque' := by
  obtain ⟨recycled, heq, hrecycled⟩ := h.suffix
  have hmessages := hrecycles.messages_eq
  have hcommitted := hrecycles.lastCommittedId_eq
  have hcount : deque.messages.countP (fun msg => decide (msg.msgId ≤ deque.lastCommittedId))
      = n + (deque.messages.drop n).countP (fun msg => decide (msg.msgId ≤ deque.lastCommittedId)) := by
    have hall : (deque.messages.take n).countP (fun msg => decide (msg.msgId ≤ deque.lastCommittedId))
        = n := by
      rw [countP_eq_length.mpr, length_take_of_le hn]
      intro msg hmem
      exact decide_eq_true (hrecycles.committed msg hmem)
    conv_lhs => rw [← take_append_drop n deque.messages, countP_append, hall]
  have huncommitted : deque'.uncommitted = deque.uncommitted := by
    have hnone : (deque.messages.take n).filter (fun msg => decide (deque.lastCommittedId < msg.msgId))
        = [] := by
      rw [filter_eq_nil_iff]
      intro msg hmem
      simpa using hrecycles.committed msg hmem
    rw [uncommitted, uncommitted, hmessages, hcommitted]
    conv_rhs => rw [← take_append_drop n deque.messages, filter_append, hnone]
    rfl
  refine ⟨hwf, h.increasing, h.nonneg, hcommitted ▸ h.lastCommittedId_le,
    ⟨recycled ++ deque.messages.take n, ?_, ?_⟩, ?_, ?_, ?_, ?_⟩
  · rw [hmessages, append_assoc, take_append_drop, heq]
  · intro msg hmem
    rw [hcommitted]
    rcases mem_append.mp hmem with hmem | hmem
    · exact hrecycled msg hmem
    · exact hrecycles.committed msg hmem
  · intro hne
    have hlt := hrecycles.lt_length (h.ne_nil hne)
    rw [hmessages]
    exact ne_nil_of_length_pos (by rw [length_drop]; omega)
  · rw [hmessages, hcommitted, hindex, h.committedIndex_eq, hcount]
    push_cast
    ring
  · rw [hmessages, hmeta, h.metaSize_eq, length_drop, Nat.cast_sub hn]
    ring
  · rw [huncommitted, hleft, h.left_eq]

/-- One turn of the loop of `recycle`. -/
lemma Accounted.popFront (hsize : 1 < deque.msgQueue.size)
    (hfront : deque.msgQueue.front.msgId ≤ deque.lastCommittedId) :
    Accounted pushed deque.popFront ∧ Recycles deque deque.popFront 1 ∧ deque.popFront.excess = deque.excess := by
  have hlength := h.size_eq
  obtain ⟨hwf, hcontents⟩ := h.wellFormed.popFront (Nat.zero_lt_of_lt hsize)
  obtain ⟨msg, msgs, hmessages⟩ : ∃ msg msgs, deque.messages = msg :: msgs := exists_cons_of_length_pos (by omega)
  have hmsg : deque.msgQueue.front = msg := by
    rw [h.wellFormed.front_eq (by omega), ← messages, hmessages]
    rfl
  have hpop : deque.popFront = { deque with
      dataSize := deque.dataSize - deque.msgQueue.front.len
      metaSize := deque.metaSize - memoryMessageMetaSize
      msgQueue := deque.msgQueue.popFront
      committedIndex := deque.committedIndex - 1 } := by
    rw [MessageDeque.popFront, if_neg (by omega)]
  have hrecycles : Recycles deque deque.popFront 1 := by
    refine ⟨?_, ?_, fun _ => by omega, by rw [hpop]⟩
    · rw [hpop]
      exact hcontents
    intro msg' hmem
    rw [hmessages, take_succ_cons, take_zero, mem_singleton] at hmem
    rw [hmem, ← hmsg]
    exact hfront
  refine ⟨h.drop (by rw [hpop]; exact hwf) hrecycles (by rw [hpop]; rfl) (by rw [hpop]; simp)
    (by rw [hpop]) (by omega), hrecycles, ?_⟩
  have hsize : deque.popFront.dataSize = deque.dataSize - msg.len := by rw [hpop, hmsg]
  rw [excess, excess, hrecycles.messages_eq, hsize, hmessages]
  simp only [drop_succ_cons, drop_zero, dataLen, map_cons, sum_cons]
  push_cast
  ring

omit h in
lemma Accounted.recycleLoop (p : ℕ → MemoryMessage → Bool) (fuel : ℕ) :
    ∀ {deque : MessageDeque} (actualRecycleSize : ℕ), Accounted pushed deque →
    Accounted pushed (MessageDeque.recycleLoop p fuel actualRecycleSize deque)
      ∧ (∃ n, Recycles deque (MessageDeque.recycleLoop p fuel actualRecycleSize deque) n)
      ∧ (MessageDeque.recycleLoop p fuel actualRecycleSize deque).excess = deque.excess := by
  induction fuel with
  | zero => exact fun _ h => ⟨h, ⟨0, Recycles.refl _⟩, rfl⟩
  | succ fuel ih =>
    intro deque actualRecycleSize h
    rw [MessageDeque.recycleLoop]
    split
    · rename_i hsize
      dsimp only
      split
      · exact ⟨h, ⟨0, Recycles.refl _⟩, rfl⟩
      rename_i hfront
      split
      · obtain ⟨hpop, hone, hexcess⟩ := h.popFront hsize (by omega)
        obtain ⟨hloop, ⟨n, hrecycles⟩, hexcess'⟩ := ih
          (actualRecycleSize + (deque.msgQueue.front.len + memoryMessageMetaSize)) hpop
        exact ⟨hloop, ⟨1 + n, hone.trans hrecycles⟩, hexcess'.trans hexcess⟩
      · exact ⟨h, ⟨0, Recycles.refl _⟩, rfl⟩
    · exact ⟨h, ⟨0, Recycles.refl _⟩, rfl⟩

omit h in
lemma stolenSize_eq {c : ℕ} {blocks : List (List MemoryMessage)} (h : BlockList.Uniform c blocks) :
    ∀ {startOffset : ℕ}, startOffset ≤ c →
      (stolenSize startOffset blocks : ℤ) = dataLen (blocks.flatten.drop startOffset) := by
  induction blocks with
  | nil => intro startOffset _; simp [stolenSize, dataLen]
  | cons block blocks ih =>
    intro startOffset hstart
    have hlength : block.length = c := h block mem_cons_self
    rw [stolenSize, flatten_cons, drop_append_of_le_length (by omega), dataLen_append]
    rw [Nat.cast_add, ih h.tail (Nat.zero_le _), drop_zero]
    rfl

/-- Blocks of committed messages are given up, and the data size is too large by what they hold. -/
lemma Accounted.stealBlock {count : ℕ} (hlt : count < deque.messages.length)
    (hcommitted : ∀ msg ∈ deque.messages.take count, msg.msgId ≤ deque.lastCommittedId) :
    Accounted pushed (deque.stealBlock count).2 ∧ (∃ n, Recycles deque (deque.stealBlock count).2 n)
    ∧ (deque.stealBlock count).2.excess = deque.excess + (toBeUpdated (deque.stealBlock count).1).sum := by
  obtain ⟨hwf, hle, hcontents, hstolen, huniform, hstart⟩ := h.wellFormed.stealBlock
    (show count ≤ _ by rw [h.size_eq]; omega)
  rw [← messages] at hcontents hstolen
  rw [MessageDeque.stealBlock]
  rcases hsteal : deque.msgQueue.stealBlock count with ⟨stolen, msgQueue⟩
  rw [hsteal] at hwf hle hcontents hstolen huniform hstart
  dsimp only at hwf hle hcontents hstolen huniform hstart ⊢
  have hlen : (stolenSize stolen.startOffset stolen.objectVec : ℤ)
      = dataLen (deque.messages.take stolen.msgCount) := by
    rw [stolenSize_eq huniform hstart, hstolen]
  have hrecycles : Recycles deque { deque with
      msgQueue := msgQueue
      committedIndex := deque.committedIndex - stolen.msgCount
      metaSize := deque.metaSize - memoryMessageMetaSize * stolen.msgCount } stolen.msgCount :=
    ⟨hcontents, fun msg hmem => hcommitted msg ((take_subset_take_left _ hle) hmem), fun _ => by omega, rfl⟩
  refine ⟨h.drop hwf hrecycles rfl rfl rfl (by omega), ⟨_, hrecycles⟩, ?_⟩
  have hsum : (toBeUpdated stolen).sum = stolenSize stolen.startOffset stolen.objectVec := by
    rw [toBeUpdated]
    split
    · rename_i hnone
      rw [eq_nil_of_length_eq_zero hnone]
      rfl
    · exact sum_singleton
  have := dataLen_take_add_drop deque.messages stolen.msgCount
  rw [hsum, hlen, excess, excess, hrecycles.messages_eq]
  dsimp only
  linarith

lemma Accounted.tryRecycleFast (readNotCommittedMsg : Bool) (percent : ℤ → ℤ) :
    Accounted pushed (deque.tryRecycleFast readNotCommittedMsg percent).2
    ∧ (∃ n, Recycles deque (deque.tryRecycleFast readNotCommittedMsg percent).2 n)
    ∧ (deque.tryRecycleFast readNotCommittedMsg percent).2.excess
      = deque.excess + (toBeUpdated (deque.tryRecycleFast readNotCommittedMsg percent).1).sum := by
  have hview : deque.viewSize readNotCommittedMsg ≤ deque.messages.length := by
    rw [viewSize]
    split
    · exact h.size_eq.le
    · rw [h.committedIndex_eq, Int.toNat_natCast]
      exact countP_le_length
  have hnothing : deque.excess = deque.excess + (toBeUpdated ⟨[], 0, 0⟩).sum := by simp [toBeUpdated]
  rw [MessageDeque.tryRecycleFast]
  dsimp only
  split
  · exact ⟨h, ⟨0, Recycles.refl _⟩, hnothing⟩
  split
  · exact ⟨h, ⟨0, Recycles.refl _⟩, hnothing⟩
  rename_i hcount
  rw [not_or, not_le, not_le] at hcount
  obtain ⟨count, hcounteq⟩ := Int.eq_ofNat_of_zero_le hcount.2.le
  rw [hcounteq] at hcount ⊢
  split
  · exact ⟨h, ⟨0, Recycles.refl _⟩, hnothing⟩
  rename_i hlast
  have hlt : count < deque.messages.length := by omega
  have hget : deque.msgQueue.get ((count : ℤ) - 1).toNat
      = deque.messages.get ⟨count - 1, by omega⟩ := by
    have htoNat : ((count : ℤ) - 1).toNat = count - 1 := by omega
    rw [htoNat, h.wellFormed.get_eq (by rw [h.size_eq]; omega), ← messages, getElem?_eq_getElem (by omega)]
    rfl
  refine h.stealBlock hlt ?_
  -- the messages up to the one that was looked at are committed
  intro msg hmem
  rw [hget, not_lt] at hlast
  obtain ⟨i, hi, rfl⟩ := mem_take_iff_getElem.mp hmem
  rcases Nat.lt_or_ge i (count - 1) with hlt' | hge
  · exact (pairwise_iff_getElem.mp h.sorted i (count - 1) _ _ hlt').le.trans hlast
  · obtain rfl : i = count - 1 := by omega
    exact hlast

omit h in
lemma excess_updateStealDataLen (dataLen : ℕ) (deque : MessageDeque) :
    (deque.updateStealDataLen dataLen).excess = deque.excess - dataLen := by
  rw [excess, excess]
  change deque.dataSize - dataLen - _ = _
  ring_nf
  rfl

/-- The second part of `tryRecycleFast` touches the data size only. -/
lemma Accounted.updateStealDataLen (dataLen : ℕ) : Accounted pushed (deque.updateStealDataLen dataLen) :=
  ⟨h.wellFormed, h.increasing, h.nonneg, h.lastCommittedId_le, h.suffix, h.ne_nil, h.committedIndex_eq,
    h.metaSize_eq, h.left_eq⟩

/-! ## Runs -/

/-- What can happen to the buffer under one lock.  The pool grants some blocks when a message is added. -/
inductive Operation
  | add (granted : ℕ) (msg : MemoryMessage)
  | setCommittedMsgId (msgId : ℤ)
  | recycle (p : ℕ → MemoryMessage → Bool)

/-- A message is added if there is room for it. -/
def add (granted : ℕ) (msg : MemoryMessage) (deque : MessageDeque) : Bool × MessageDeque :=
  let (success, deque) := deque.reserve granted 1
  if success then (true, deque.pushBack msg) else (false, deque)

def apply (deque : MessageDeque) : Operation → MessageDeque
  | .add granted msg => (deque.add granted msg).2
  | .setCommittedMsgId msgId => deque.setCommittedMsgId msgId
  | .recycle p => deque.recycle p

/-- The messages that were pushed, after an operation. -/
def pushedAfter (pushed : List MemoryMessage) (deque : MessageDeque) : Operation → List MemoryMessage
  | .add granted msg => if (deque.add granted msg).1 then pushed ++ [msg] else pushed
  | _ => pushed

/-- Added messages have consecutive ids and increasing timestamps, the committed id does not go back, and
it is one that may be committed. -/
def Allowed (mayCommit : List MemoryMessage → ℤ → Prop) (pushed : List MemoryMessage)
    (deque : MessageDeque) : Operation → Prop
  | .add _ msg => Follows pushed msg
  | .setCommittedMsgId msgId => deque.lastCommittedId ≤ msgId ∧ mayCommit pushed msgId
  | _ => True

/-- The states that are reached from an empty buffer, with the messages that were pushed and the data sizes that
calls of `tryRecycleFast` have stolen and not taken off yet.  Several calls may be between their two locks, with
other operations in between. -/
inductive Reachable (countInBlock : ℕ) (mayCommit : List MemoryMessage → ℤ → Prop) :
    List MemoryMessage → List ℕ → MessageDeque → Prop
  | empty : Reachable countInBlock mayCommit [] [] (MessageDeque.empty countInBlock)
  | apply {pushed : List MemoryMessage} {stolen : List ℕ} {deque : MessageDeque} (operation : Operation) :
      Reachable countInBlock mayCommit pushed stolen deque → Allowed mayCommit pushed deque operation →
      Reachable countInBlock mayCommit (pushedAfter pushed deque operation) stolen (deque.apply operation)
  | tryRecycleFast {pushed : List MemoryMessage} {stolen : List ℕ} {deque : MessageDeque}
      (readNotCommittedMsg : Bool) (percent : ℤ → ℤ) : Reachable countInBlock mayCommit pushed stolen deque →
      Reachable countInBlock mayCommit pushed
        (stolen ++ toBeUpdated (deque.tryRecycleFast readNotCommittedMsg percent).1)
        (deque.tryRecycleFast readNotCommittedMsg percent).2
  | updateStealDataLen {pushed : List MemoryMessage} {stolen : List ℕ} {deque : MessageDeque} {dataLen : ℕ} :
      Reachable countInBlock mayCommit pushed stolen deque → dataLen ∈ stolen →
      Reachable countInBlock mayCommit pushed (stolen.erase dataLen) (deque.updateStealDataLen dataLen)

omit h in
lemma accounted_empty {countInBlock : ℕ} (hpos : 0 < countInBlock) : Accounted [] (MessageDeque.empty countInBlock) :=
  ⟨MessageQueue.wellFormed_empty hpos, Pairwise.nil, by simp, by simp [MessageDeque.empty, lastId],
    ⟨[], by simp [messages, MessageDeque.empty], by simp⟩, by simp, by simp [messages, MessageDeque.empty],
    by simp [messages, MessageDeque.empty], by simp [uncommitted, messages, MessageDeque.empty, dataLen]⟩

lemma Accounted.add (granted : ℕ) (hfollows : Follows pushed msg) :
    Accounted (if (deque.add granted msg).1 then pushed ++ [msg] else pushed) (deque.add granted msg).2
    ∧ (deque.add granted msg).2.excess = deque.excess := by
  obtain ⟨hreserve, hremain, hexcess⟩ := h.reserve granted 1
  rw [MessageDeque.add]
  rcases hresult : deque.reserve granted 1 with ⟨success, deque'⟩
  rw [hresult] at hreserve hremain hexcess
  cases success with
  | false => exact ⟨hreserve, hexcess⟩
  | true =>
    obtain ⟨hpush, hexcess'⟩ := hreserve.pushBack (hremain rfl) hfollows
    exact ⟨hpush, hexcess'.trans hexcess⟩

/-- No operation but `add` brings messages in, and none but the recycling ones takes any out. -/
lemma Accounted.apply {operation : Operation}
    (hallowed : Allowed (fun pushed msgId => msgId ≤ lastId pushed) pushed deque operation) :
    Accounted (pushedAfter pushed deque operation) (deque.apply operation)
    ∧ (deque.apply operation).excess = deque.excess := by
  cases operation with
  | add granted msg => exact h.add granted hallowed
  | setCommittedMsgId msgId => exact ⟨h.setCommittedMsgId hallowed.1 hallowed.2, rfl⟩
  | recycle p => exact ⟨(h.recycleLoop p _ 0).1, (h.recycleLoop p _ 0).2.2⟩

end

/-- By induction on the run: each operation keeps what is accounted for, and the excess is what the calls of
`tryRecycleFast` between their locks still owe. -/
lemma accounted_of_reachable {countInBlock : ℕ} (hpos : 0 < countInBlock) {stolen : List ℕ}
    (h : Reachable countInBlock (fun pushed msgId => msgId ≤ lastId pushed) pushed stolen deque) :
    Accounted pushed deque ∧ deque.excess = stolen.sum := by
  induction h with
  | empty => exact ⟨accounted_empty hpos, by simp [excess, messages, MessageDeque.empty, dataLen]⟩
  | apply operation _ hallowed ih =>
    obtain ⟨happly, hexcess⟩ := ih.1.apply hallowed
    exact ⟨happly, hexcess.trans ih.2⟩
  | tryRecycleFast readNotCommittedMsg percent _ ih =>
    obtain ⟨hsteal, -, hexcess⟩ := ih.1.tryRecycleFast readNotCommittedMsg percent
    refine ⟨hsteal, ?_⟩
    rw [hexcess, ih.2, sum_append, Nat.cast_add]
  | updateStealDataLen _ hmem ih =>
    refine ⟨ih.1.updateStealDataLen _, ?_⟩
    rw [excess_updateStealDataLen, ih.2, ← sum_erase hmem, Nat.cast_add]
    ring

/-- In every state that is reached with commits of pushed messages only, the buffer holds the last pushed
messages, all others were committed, the index counts the committed messages and the counters are the sums;
the data size has the messages on top that a `tryRecycleFast` between its two locks has stolen.
A recycling operation gives up messages that are committed, and leaves one. -/
theorem reachable_accounting (countInBlock : ℕ) (hpos : 0 < countInBlock) (pushed : List MemoryMessage)
    (stolen : List ℕ) (deque : MessageDeque)
    (h : Reachable countInBlock (fun pushed msgId => msgId ≤ lastId pushed) pushed stolen deque) :
    deque.messages <:+ pushed
      ∧ deque.committedIndex = deque.messages.countP (fun msg => decide (msg.msgId ≤ deque.lastCommittedId))
      ∧ deque.dataSize = dataLen deque.messages + stolen.sum
      ∧ deque.metaSize = memoryMessageMetaSize * deque.messages.length
      ∧ deque.leftToBeCommittedDataSize = dataLen deque.uncommitted
      ∧ (∀ p, ∃ n, Recycles deque (deque.recycle p) n)
      ∧ (∀ readNotCommittedMsg percent, ∃ n,
        Recycles deque (deque.tryRecycleFast readNotCommittedMsg percent).2 n) := by
  obtain ⟨haccounted, hexcess⟩ := accounted_of_reachable hpos h
  obtain ⟨recycled, heq, -⟩ := haccounted.suffix
  exact ⟨⟨recycled, heq.symm⟩, haccounted.committedIndex_eq, sub_eq_iff_eq_add'.mp hexcess,
    haccounted.metaSize_eq, haccounted.left_eq, fun p => (haccounted.recycleLoop p _ 0).2.1,
    fun readNotCommittedMsg percent => (haccounted.tryRecycleFast readNotCommittedMsg percent).2.1⟩

/-- A message with an id and a size, as the timestamp has it. -/
def plainMessage (id : ℤ) (len : ℕ) : MemoryMessage := ⟨id, id, len, 0, 0, false, 1⟩

/-- Three messages, the first two committed. -/
def committedPair : MessageDeque :=
  (((((MessageDeque.empty 2).apply (.add 1 (plainMessage 0 10))).apply (.add 1 (plainMessage 1 20))).apply
    (.add 1 (plainMessage 2 40))).apply (.setCommittedMsgId 1))

lemma reachable_committedPair : Reachable 2 (fun pushed msgId => msgId ≤ lastId pushed)
    [plainMessage 0 10, plainMessage 1 20, plainMessage 2 40] [] committedPair := by
  have hfirst : Follows [] (plainMessage 0 10) := by decide
  have hsecond : Follows [plainMessage 0 10] (plainMessage 1 20) := by decide
  have hthird : Follows [plainMessage 0 10, plainMessage 1 20] (plainMessage 2 40) := by decide
  have hcommit : (-1 : ℤ) ≤ 1 ∧ 1 ≤ lastId [plainMessage 0 10, plainMessage 1 20, plainMessage 2 40] := by decide
  have hpair : Reachable 2 (fun pushed msgId => msgId ≤ lastId pushed) [plainMessage 0 10, plainMessage 1 20] [] _ :=
    .apply (.add 1 _) (.apply (.add 1 _) .empty hfirst) hsecond
  exact .apply (.setCommittedMsgId 1) (.apply (.add 1 _) hpair hthird) hcommit

/-- The committed messages after the first lock of `tryRecycleFast`, with two of three messages to recycle. -/
def stolenPair : MessageDeque := (committedPair.tryRecycleFast true fun n => n - 1).2

/-- Their 30 bytes are gone from the buffer and still counted; under the second lock the count is corrected. -/
theorem stolenPair_accounting : stolenPair.dataSize = dataLen stolenPair.messages + 30
      ∧ stolenPair.messages <:+ [plainMessage 0 10, plainMessage 1 20, plainMessage 2 40]
      ∧ (stolenPair.updateStealDataLen 30).dataSize = dataLen (stolenPair.updateStealDataLen 30).messages := by
  have hreach : Reachable 2 (fun pushed msgId => msgId ≤ lastId pushed)
      [plainMessage 0 10, plainMessage 1 20, plainMessage 2 40] [30] stolenPair := by
    have hstolen : toBeUpdated (committedPair.tryRecycleFast true fun n => n - 1).1 = [30] := by decide
    have hsteal := Reachable.tryRecycleFast true (fun n => n - 1) reachable_committedPair
    rwa [hstolen] at hsteal
  obtain ⟨hsuffix, -, hsize, -⟩ := reachable_accounting 2 (by decide) _ _ _ hreach
  obtain ⟨-, -, hsize', -⟩ := reachable_accounting 2 (by decide) _ _ _ (.updateStealDataLen hreach (mem_singleton_self 30))
  exact ⟨hsize, hsuffix, hsize'.trans (by simp)⟩

/-- An id is committed before its messages are there: they are not counted when they come.  And a
`tryRecycleFast` is seen between its two locks: the data size is 70, and 40 bytes are held. -/
theorem accounting_fails :
    (∃ pushed deque, Reachable 2 (fun _ _ => True) pushed [] deque
      ∧ deque.committedIndex = 0
      ∧ deque.messages.countP (fun msg => decide (msg.msgId ≤ deque.lastCommittedId)) = 1)
    ∧ ∃ pushed stolen deque, Reachable 2 (fun pushed msgId => msgId ≤ lastId pushed) pushed stolen deque
      ∧ deque.dataSize = 70 ∧ dataLen deque.messages = 40 := by
  have hcommit : (-1 : ℤ) ≤ 5 ∧ True := by decide
  have hfirst : Follows [] (plainMessage 0 10) := by decide
  exact ⟨⟨_, _, .apply (.add 1 (plainMessage 0 10)) (.apply (.setCommittedMsgId 5) .empty hcommit) hfirst,
    by decide, by decide⟩, _, _, _, .tryRecycleFast true (fun n => n - 1) reachable_committedPair, by decide, by decide⟩

end

end MessageDeque

end Havenask.Swift
