import Havenask.Swift.MergedFilter
import Havenask.Swift.MessageDeque

/-!
# Reading and writing the message buffer

`swift/broker/storage/MessageGroup.cpp`: `addMessage` gives ids and timestamps to the messages of a request,
or takes those of the source in replication mode; `getMessage` answers with a page of messages and says
where to read on, by id and by timestamp.

* **`GroupInv`**: the held messages have consecutive ids and increasing timestamps, besides what
  `MessageDeque.Accounted` says.
* **`getMessage_page`**: a page is what the filter selects from a stretch of the view, and the next id is
  the end of that stretch.
-/

namespace Havenask.Swift

open List MessageDeque

open MessageDeque (Accounted Follows Recycles lastId)

/-- `TimestampAllocator`: the clock, kept from going back. -/
structure TimestampAllocator where
  lastCurTime : ℤ

namespace TimestampAllocator

def getCurrentTimestamp (allocator : TimestampAllocator) (clock : ℤ) : ℤ × TimestampAllocator :=
  (max clock allocator.lastCurTime, ⟨max clock allocator.lastCurTime⟩)

def getNextMsgTimestamp (allocator : TimestampAllocator) (clock lastMsgTimestamp : ℤ) : ℤ × TimestampAllocator :=
  let (current, allocator) := allocator.getCurrentTimestamp clock
  (max current (lastMsgTimestamp + 1), allocator)

end TimestampAllocator

structure MessageGroup where
  partition : UInt16 × UInt16
  readNotCommittedMsg : Bool
  timestampAllocator : TimestampAllocator
  msgDeque : MessageDeque

namespace MessageGroup

section
variable (group : MessageGroup)

def messages : List MemoryMessage := group.msgDeque.messages

/-! ## Adding messages -/

/-- A message of a request: what the pool grants, whether it can be stored, and what the clock says. -/
structure Incoming where
  msg : MemoryMessage
  granted : ℕ
  encodes : Bool
  clock : ℤ
  clock' : ℤ

/-- `MessageDeque::getLastReceivedMsgTimestamp`. -/
def getLastReceivedMsgTimestamp (clock : ℤ) : ℤ × MessageGroup :=
  if group.msgDeque.msgQueue.size = 0 then
    let (current, allocator) := group.timestampAllocator.getCurrentTimestamp clock
    (current, { group with timestampAllocator := allocator })
  else ((group.msgDeque.msgQueue.get (group.msgDeque.msgQueue.size - 1)).timestamp, group)

def checkReplicationRequest : List Incoming → ℤ → ℤ → Bool
  | [], _, _ => true
  | incoming :: rest, lastMsgId, lastMsgTime =>
    if lastMsgId ≠ -1 ∧ (incoming.msg.msgId ≠ lastMsgId + 1 ∨ incoming.msg.timestamp ≤ lastMsgTime) then false
    else checkReplicationRequest rest incoming.msg.msgId incoming.msg.timestamp

/-- The id and the timestamp of a message in a normal request. -/
def stamp (incoming : Incoming) : MemoryMessage × MessageGroup :=
  let (lastTimestamp, group) := group.getLastReceivedMsgTimestamp incoming.clock
  let (timestamp, allocator) := group.timestampAllocator.getNextMsgTimestamp incoming.clock' lastTimestamp
  ({ incoming.msg with msgId := group.msgDeque.getLastReceivedMsgId + 1, timestamp := timestamp },
    { group with timestampAllocator := allocator })

/-- The loop of `addMessage`: the messages that are accepted. -/
def addLoop (replicationMode : Bool) : List Incoming → MessageGroup → List MemoryMessage × MessageGroup
  | [], group => ([], group)
  | incoming :: rest, group =>
    let (reserved, msgDeque) := group.msgDeque.reserve incoming.granted 1
    let group := { group with msgDeque := msgDeque }
    if reserved && incoming.encodes then
      let (msg, group) := if replicationMode then (incoming.msg, group) else group.stamp incoming
      let (msgs, group) := addLoop replicationMode rest
        { group with msgDeque := group.msgDeque.pushBack msg }
      (msg :: msgs, group)
    else ([], group)

def addMessage (replicationMode : Bool) (clock : ℤ) (request : List Incoming) :
    List MemoryMessage × MessageGroup :=
  if replicationMode then
    let (lastTimestamp, group) := group.getLastReceivedMsgTimestamp clock
    if checkReplicationRequest request group.msgDeque.getLastReceivedMsgId lastTimestamp then
      addLoop true request group
    else ([], group)
  else addLoop false request group

/-! ## Reading messages -/

structure ConsumptionRequest where
  startId : ℤ
  count : ℤ
  maxTotalSize : ℤ
  filter : MessageFilter
  readCommittedMsg : Option Bool

/-- The errors of the broker that `getMessage` can give. -/
inductive ErrorCode
  | none
  | noData
  | noDataInMem
deriving DecidableEq

structure MessageResponse where
  errorCode : ErrorCode
  msgs : List MemoryMessage
  nextMsgId : ℤ
  nextTimestamp : ℤ
  maxMsgId : Option ℤ
  maxTimestamp : Option ℤ
deriving DecidableEq

/-- The loops of `getMessage` over the view from the start on: what goes into the page, and what is left
from the message on that did not fit. -/
def pageLoop (selects : MemoryMessage → Bool) (count maxTotalSize : ℤ) :
    ℤ → ℤ → List MemoryMessage → List MemoryMessage × List MemoryMessage
  | _, _, [] => ([], [])
  | readCount, totalSize, msg :: msgs =>
    if selects msg then
      if count ≤ readCount then ([], msg :: msgs)
      else
        let totalSize := totalSize + msg.len
        if maxTotalSize < totalSize ∧ readCount ≠ 0 then ([], msg :: msgs)
        else
          let (taken, rest) := pageLoop selects count maxTotalSize (readCount + msg.msgCount) totalSize msgs
          (msg :: taken, rest)
    else pageLoop selects count maxTotalSize readCount totalSize msgs

/-- Whether a request selects a message: it is looked at only where that is needed. -/
def selects (filter : MessageFilter) (msg : MemoryMessage) : Bool :=
  !needFilter group.partition filter || filter.filter msg.merged msg.payload msg.maskPayload

def view (size : ℕ) : List MemoryMessage := (List.range size).map group.msgDeque.msgQueue.get

/-- `View::getNextMsgTimestampAfterLast`, for a view that is not empty. -/
def nextTimestampAfterLast (clock : ℤ) (size : ℕ) (last : MemoryMessage) : ℤ × MessageGroup :=
  if group.msgDeque.msgQueue.size ≤ size then
    let (timestamp, allocator) := group.timestampAllocator.getNextMsgTimestamp clock last.timestamp
    (timestamp, { group with timestampAllocator := allocator })
  else (last.timestamp + 1, group)

/-- `View::getLastMsgTimestamp`, for a view that is empty. -/
def timestampOfEmptyView (clock : ℤ) : ℤ × MessageGroup :=
  if group.msgDeque.msgQueue.size = 0 then
    let (current, allocator) := group.timestampAllocator.getCurrentTimestamp clock
    (current, { group with timestampAllocator := allocator })
  else ((group.msgDeque.msgQueue.get 0).timestamp - 1, group)

def viewSize (readCommittedMsg : Option Bool) : ℕ :=
  group.msgDeque.viewSize ((readCommittedMsg.map not).getD group.readNotCommittedMsg)

def getMessage (request : ConsumptionRequest) (memMode : Bool) (clock : ℤ) :
    MessageResponse × MessageGroup :=
  let size := group.viewSize request.readCommittedMsg
  if size = 0 then
    let (timestamp, group) := group.timestampOfEmptyView clock
    (⟨.noData, [], 0, timestamp, none, none⟩, group)
  else
    let last := group.msgDeque.msgQueue.get (size - 1)
    let oldest := group.msgDeque.msgQueue.get 0
    if request.startId < oldest.msgId ∧ memMode = false then
      (⟨.noDataInMem, [], oldest.msgId, oldest.timestamp, some last.msgId, some last.timestamp⟩, group)
    else
      let beginPos := (request.startId - oldest.msgId).toNat
      let (msgs, rest) := pageLoop (group.selects request.filter) request.count request.maxTotalSize 0 0
        ((group.view size).drop beginPos)
      match rest.find? (group.selects request.filter) with
      | some msg => (⟨.none, msgs, msg.msgId, msg.timestamp, some last.msgId, some last.timestamp⟩, group)
      | none =>
        let (timestamp, group) := group.nextTimestampAfterLast clock size last
        (⟨.none, msgs, last.msgId + 1, timestamp, some last.msgId, some last.timestamp⟩, group)

end

/-! ## The invariant -/

/-- A message comes right after another one. -/
def Next (msg msg' : MemoryMessage) : Prop := msg'.msgId = msg.msgId + 1 ∧ msg.timestamp < msg'.timestamp

/-- The deque accounts for the pushed messages, which follow one another. -/
structure GroupInv (pushed : List MemoryMessage) (group : MessageGroup) : Prop where
  accounted : Accounted pushed group.msgDeque
  chain : pushed.IsChain Next

section
variable {pushed : List MemoryMessage} {group : MessageGroup}

section
variable (h : GroupInv pushed group)
include h

lemma GroupInv.size_eq : group.msgDeque.msgQueue.size = group.messages.length := h.accounted.size_eq

lemma GroupInv.messages_eq_nil (hsize : group.msgDeque.msgQueue.size = 0) : pushed = [] := by
  by_contra hne
  have := h.accounted.ne_nil hne
  rw [h.size_eq] at hsize
  exact this (eq_nil_of_length_eq_zero hsize)

lemma GroupInv.getLast?_eq : pushed.getLast? = group.messages.getLast? := by
  obtain ⟨recycled, heq, -⟩ := h.accounted.suffix
  by_cases hne : pushed = []
  · rw [hne] at heq ⊢
    rw [messages, (append_eq_nil_iff.mp heq.symm).2]
  · rw [heq, getLast?_append_of_ne_nil _ (h.accounted.ne_nil hne)]
    rfl

lemma GroupInv.chain_messages : group.messages.IsChain Next := by
  obtain ⟨recycled, heq, -⟩ := h.accounted.suffix
  have hchain := h.chain
  rw [heq] at hchain
  exact hchain.right_of_append

lemma GroupInv.get_last (hsize : group.msgDeque.msgQueue.size ≠ 0) :
    pushed.getLast? = some (group.msgDeque.msgQueue.get (group.msgDeque.msgQueue.size - 1)) := by
  rw [h.getLast?_eq, h.accounted.wellFormed.get_eq (by omega), getLast?_eq_getElem?, h.size_eq]
  change group.messages[_]? = some ((group.messages[_]?).getD default)
  rw [getElem?_eq_getElem (by have := h.size_eq; omega)]
  rfl

lemma GroupInv.pushBack {msg : MemoryMessage}
    (hremain : 0 < group.msgDeque.msgQueue.remainCount) (hfollows : Follows pushed msg) :
    GroupInv (pushed ++ [msg]) { group with msgDeque := group.msgDeque.pushBack msg } := by
  refine ⟨(h.accounted.pushBack hremain hfollows).1, ?_⟩
  rw [isChain_append]
  refine ⟨h.chain, isChain_singleton _, ?_⟩
  intro last hlast msg' hmsg'
  rw [Follows, Option.mem_def.mp hlast] at hfollows
  obtain rfl : msg = msg' := by simpa using hmsg'
  exact hfollows

end

/-! ## What adding does -/

/-- A group after some messages were accepted. -/
structure Adds (pushed : List MemoryMessage) (group group' : MessageGroup) (msgs : List MemoryMessage) : Prop where
  inv : GroupInv (pushed ++ msgs) group'
  messages_eq : group'.messages = group.messages ++ msgs
  partition_eq : group'.partition = group.partition
  readNotCommittedMsg_eq : group'.readNotCommittedMsg = group.readNotCommittedMsg
  committedIndex_eq : group'.msgDeque.committedIndex = group.msgDeque.committedIndex
  lastCommittedId_eq : group'.msgDeque.lastCommittedId = group.msgDeque.lastCommittedId
  lastCurTime_le : group.timestampAllocator.lastCurTime ≤ group'.timestampAllocator.lastCurTime

lemma Adds.trans {group' group'' : MessageGroup} {msgs msgs' : List MemoryMessage}
    (h : Adds pushed group group' msgs) (h' : Adds (pushed ++ msgs) group' group'' msgs') :
    Adds pushed group group'' (msgs ++ msgs') :=
  ⟨by rw [← append_assoc]; exact h'.inv,
    by rw [h'.messages_eq, h.messages_eq, append_assoc],
    h'.partition_eq.trans h.partition_eq, h'.readNotCommittedMsg_eq.trans h.readNotCommittedMsg_eq,
    h'.committedIndex_eq.trans h.committedIndex_eq, h'.lastCommittedId_eq.trans h.lastCommittedId_eq,
    h.lastCurTime_le.trans h'.lastCurTime_le⟩

section
variable (h : GroupInv pushed group)
include h

/-- A step that adds nothing and changes the clock at most. -/
lemma GroupInv.adds_nil {allocator : TimestampAllocator}
    (hle : group.timestampAllocator.lastCurTime ≤ allocator.lastCurTime) :
    Adds pushed group { group with timestampAllocator := allocator } [] :=
  ⟨by rw [append_nil]; exact ⟨h.accounted, h.chain⟩, by rw [append_nil]; rfl, rfl, rfl, rfl, rfl, hle⟩

lemma GroupInv.reserve (granted count : ℕ) :
    Adds pushed group { group with msgDeque := (group.msgDeque.reserve granted count).2 } [] := by
  obtain ⟨haccounted, -⟩ := h.accounted.reserve granted count
  obtain ⟨-, hcontents, -⟩ := h.accounted.wellFormed.reserve granted count
  refine ⟨?_, ?_, rfl, rfl, rfl, rfl, le_rfl⟩
  · rw [append_nil]
    exact ⟨haccounted, h.chain⟩
  · rw [append_nil]
    exact hcontents

lemma GroupInv.adds_pushBack {msg : MemoryMessage}
    (hremain : 0 < group.msgDeque.msgQueue.remainCount) (hfollows : Follows pushed msg) :
    Adds pushed group { group with msgDeque := group.msgDeque.pushBack msg } [msg] :=
  ⟨h.pushBack hremain hfollows, (h.accounted.wellFormed.pushBack hremain msg).2, rfl, rfl, rfl, rfl, le_rfl⟩

lemma getLastReceivedMsgTimestamp_spec (clock : ℤ) : Adds pushed group (group.getLastReceivedMsgTimestamp clock).2 []
    ∧ (group.getLastReceivedMsgTimestamp clock).2.msgDeque = group.msgDeque
    ∧ ∀ last, pushed.getLast? = some last → (group.getLastReceivedMsgTimestamp clock).1 = last.timestamp := by
  rw [getLastReceivedMsgTimestamp]
  split_ifs with hsize
  · refine ⟨h.adds_nil (le_max_right _ _), rfl, ?_⟩
    rw [h.messages_eq_nil hsize]
    exact fun last hlast => absurd hlast (by simp)
  refine ⟨h.adds_nil le_rfl, rfl, ?_⟩
  intro last hlast
  rw [h.get_last hsize, Option.some_inj] at hlast
  rw [hlast]

/-- A normal message follows the last one, and does not come before the clock. -/
lemma stamp_spec (incoming : Incoming) :
    Adds pushed group (group.stamp incoming).2 [] ∧ (group.stamp incoming).2.msgDeque = group.msgDeque
    ∧ Follows pushed (group.stamp incoming).1
    ∧ group.timestampAllocator.lastCurTime ≤ (group.stamp incoming).1.timestamp := by
  obtain ⟨hadds, hdeque, hlast⟩ := getLastReceivedMsgTimestamp_spec h incoming.clock
  rw [stamp]
  rcases hresult : group.getLastReceivedMsgTimestamp incoming.clock with ⟨lastTimestamp, group'⟩
  rw [hresult] at hadds hdeque hlast
  have hinv := hadds.inv
  have hcur := hadds.lastCurTime_le
  have hclock : group'.timestampAllocator.lastCurTime
      ≤ max incoming.clock' group'.timestampAllocator.lastCurTime := le_max_right _ _
  refine ⟨hadds.trans (hinv.adds_nil hclock), hdeque, ?_, ?_⟩
  · rw [Follows]
    cases hpushed : pushed.getLast? with
    | none =>
      have hid : group'.msgDeque.getLastReceivedMsgId = -1 := by
        rw [hdeque, getLastReceivedMsgId, if_pos]
        by_contra hsize
        rw [h.get_last hsize] at hpushed
        cases hpushed
      simp [hid]
    | some last =>
      have hsize : group.msgDeque.msgQueue.size ≠ 0 := by
        intro hsize
        rw [h.messages_eq_nil hsize] at hpushed
        cases hpushed
      have hid : group'.msgDeque.getLastReceivedMsgId = last.msgId := by
        have hget := h.get_last hsize
        rw [hpushed, Option.some_inj] at hget
        rw [hdeque, getLastReceivedMsgId, if_neg hsize, hget]
      refine ⟨by dsimp only; rw [hid], ?_⟩
      rw [← hlast last hpushed]
      exact (Int.lt_succ _).trans_le (le_max_right _ _)
  · exact (hcur.trans hclock).trans (le_max_left _ _)

end

lemma addLoop_normal (request : List Incoming) : ∀ {pushed : List MemoryMessage} {group : MessageGroup},
    GroupInv pushed group → Adds pushed group (addLoop false request group).2 (addLoop false request group).1
      ∧ ∀ msg ∈ (addLoop false request group).1, group.timestampAllocator.lastCurTime ≤ msg.timestamp := by
  induction request with
  | nil =>
    intro pushed group h
    exact ⟨h.adds_nil le_rfl, forall_mem_nil _⟩
  | cons incoming rest ih =>
    intro pushed group h
    rw [addLoop]
    have hreserve := h.reserve incoming.granted 1
    have hroom := (h.accounted.reserve incoming.granted 1).2.1
    rcases hresult : group.msgDeque.reserve incoming.granted 1 with ⟨reserved, msgDeque⟩
    rw [hresult] at hreserve hroom
    dsimp only at hreserve hroom ⊢
    split
    · rename_i haccept
      rw [Bool.and_eq_true] at haccept
      have hinv := hreserve.inv
      obtain ⟨hstamp, hdeque, hfollows, hclock⟩ := stamp_spec hinv incoming
      rw [if_neg (by simp)]
      rcases hstamped : stamp { group with msgDeque := msgDeque } incoming with ⟨msg, group'⟩
      rw [hstamped] at hstamp hdeque hfollows hclock
      have hpush := (hstamp.inv).adds_pushBack (by rw [hdeque]; exact hroom haccept.1) (by simpa using hfollows)
      have hone := (hreserve.trans hstamp).trans (by simpa using hpush)
      obtain ⟨hrest, hclocks⟩ := ih hone.inv
      rcases hloop : addLoop false rest { group' with msgDeque := group'.msgDeque.pushBack msg } with
        ⟨msgs, group''⟩
      rw [hloop] at hrest hclocks
      refine ⟨hone.trans hrest, ?_⟩
      intro msg' hmem
      rcases mem_cons.mp hmem with rfl | hmem
      · exact hclock
      · exact hone.lastCurTime_le.trans (hclocks msg' hmem)
    · exact ⟨hreserve, forall_mem_nil _⟩

/-- Accepted messages in replication mode, after the check. -/
lemma addLoop_replication (request : List Incoming) : ∀ {pushed : List MemoryMessage}
    {group : MessageGroup} {lastMsgId lastMsgTime : ℤ}, GroupInv pushed group →
    (∀ incoming ∈ request, 0 ≤ incoming.msg.msgId) →
    (∀ last, pushed.getLast? = some last → lastMsgId = last.msgId ∧ lastMsgTime = last.timestamp) →
    checkReplicationRequest request lastMsgId lastMsgTime = true →
    Adds pushed group (addLoop true request group).2 (addLoop true request group).1
      ∧ ∀ msg ∈ (addLoop true request group).1, ∃ incoming ∈ request, incoming.msg = msg := by
  induction request with
  | nil =>
    intro pushed group lastMsgId lastMsgTime h _ _ _
    exact ⟨h.adds_nil le_rfl, forall_mem_nil _⟩
  | cons incoming rest ih =>
    intro pushed group lastMsgId lastMsgTime h hnonneg hlast hcheck
    rw [addLoop]
    have hreserve := h.reserve incoming.granted 1
    have hroom := (h.accounted.reserve incoming.granted 1).2.1
    rcases hresult : group.msgDeque.reserve incoming.granted 1 with ⟨reserved, msgDeque⟩
    rw [hresult] at hreserve hroom
    dsimp only at hreserve hroom ⊢
    rw [checkReplicationRequest] at hcheck
    split at hcheck
    · cases hcheck
    rename_i hfits
    split
    · rename_i haccept
      rw [Bool.and_eq_true] at haccept
      have hfollows : Follows (pushed ++ []) incoming.msg := by
        rw [append_nil, Follows]
        cases hpushed : pushed.getLast? with
        | none => exact hnonneg incoming mem_cons_self
        | some last =>
          obtain ⟨hid, htime⟩ := hlast last hpushed
          have hlastnonneg := h.accounted.nonneg last (mem_of_getLast? hpushed)
          omega
      rw [if_pos rfl]
      have hpush := hreserve.trans ((hreserve.inv).adds_pushBack (hroom haccept.1) hfollows)
      rw [nil_append] at hpush
      obtain ⟨hrest, hmem⟩ := ih hpush.inv (fun incoming hmem => hnonneg incoming
        (mem_cons_of_mem _ hmem)) (by
          intro last hlast'
          rw [getLast?_concat, Option.some_inj] at hlast'
          rw [hlast']
          exact ⟨rfl, rfl⟩) hcheck
      rcases hloop : addLoop true rest
        { group with msgDeque := pushBack msgDeque incoming.msg } with ⟨msgs, group''⟩
      rw [hloop] at hrest hmem
      refine ⟨hpush.trans hrest, ?_⟩
      intro msg' hmem'
      rcases mem_cons.mp hmem' with rfl | hmem'
      · exact ⟨incoming, mem_cons_self, rfl⟩
      · obtain ⟨incoming', hin, rfl⟩ := hmem msg' hmem'
        exact ⟨incoming', mem_cons_of_mem _ hin, rfl⟩
    · exact ⟨hreserve, forall_mem_nil _⟩

section
variable (h : GroupInv pushed group)
include h

/-- What `addMessage` accepts: in normal mode nothing before the clock, in replication mode messages of the
request. -/
lemma addMessage_spec (replicationMode : Bool) (clock : ℤ) (request : List Incoming)
    (hnonneg : replicationMode = true → ∀ incoming ∈ request, 0 ≤ incoming.msg.msgId) :
    Adds pushed group (group.addMessage replicationMode clock request).2
      (group.addMessage replicationMode clock request).1
    ∧ ∀ msg ∈ (group.addMessage replicationMode clock request).1,
      group.timestampAllocator.lastCurTime ≤ msg.timestamp
        ∨ replicationMode = true ∧ ∃ incoming ∈ request, incoming.msg = msg := by
  rw [addMessage]
  cases replicationMode with
  | false =>
    rw [if_neg (by simp)]
    obtain ⟨hadds, hclock⟩ := addLoop_normal request h
    exact ⟨hadds, fun msg hmem => .inl (hclock msg hmem)⟩
  | true =>
    rw [if_pos rfl]
    obtain ⟨hadds, hdeque, hlast⟩ := getLastReceivedMsgTimestamp_spec h clock
    rcases hresult : group.getLastReceivedMsgTimestamp clock with ⟨lastTimestamp, group'⟩
    rw [hresult] at hadds hdeque hlast
    dsimp only at hadds hdeque hlast ⊢
    split
    · rename_i hcheck
      obtain ⟨hloop, hmem⟩ := addLoop_replication request hadds.inv (hnonneg rfl) (by
        intro last hpushed
        rw [append_nil] at hpushed
        have hsize : group.msgDeque.msgQueue.size ≠ 0 := by
          intro hsize
          rw [h.messages_eq_nil hsize] at hpushed
          cases hpushed
        have hget := h.get_last hsize
        rw [hpushed, Option.some_inj] at hget
        rw [hdeque, getLastReceivedMsgId, if_neg hsize, hget]
        exact ⟨rfl, hget ▸ hlast last hpushed⟩) hcheck
      exact ⟨hadds.trans hloop, fun msg hin => .inr ⟨rfl, hmem msg hin⟩⟩
    · exact ⟨hadds, forall_mem_nil _⟩

/-! ## Runs -/

lemma getLastReceivedMsgId_eq : group.msgDeque.getLastReceivedMsgId = lastId pushed := by
  rw [getLastReceivedMsgId, lastId]
  split_ifs with hsize
  · rw [h.messages_eq_nil hsize]
    rfl
  · rw [h.get_last hsize]
    rfl

/-- The loop of `init` over the messages that were recovered from files. -/
def recover (msgs : List MemoryMessage) (deque : MessageDeque) : MessageDeque :=
  msgs.foldl MessageDeque.pushBack deque

/-- `init`: the group starts with messages from files, all of them committed. -/
def init (partition : UInt16 × UInt16) (readNotCommittedMsg : Bool) (startTime : ℤ)
    (countInBlock granted : ℕ) (recovered : List MemoryMessage) : Option MessageGroup :=
  match (MessageDeque.empty countInBlock).reserve granted recovered.length with
  | (false, _) => none
  | (true, deque) =>
    let deque := recover recovered deque
    some ⟨partition, readNotCommittedMsg, ⟨startTime⟩,
      match recovered.getLast? with
      | none => deque
      | some last => deque.setCommittedMsgId last.msgId⟩

/-- What happens to the group under one lock.  A call of `tryRecycleFast` is two events, and other events may come
between them; no event looks at the data size, so that any length may be taken off it. -/
inductive Event
  | addMessage (replicationMode : Bool) (clock : ℤ) (request : List Incoming)
  | setCommittedId (msgId : ℤ)
  | recycle (p : ℕ → MemoryMessage → Bool)
  | tryRecycleFast (percent : ℤ → ℤ)
  | updateStealDataLen (dataLen : ℕ)
  | getMessage (request : ConsumptionRequest) (memMode : Bool) (clock : ℤ)

def apply (group : MessageGroup) : Event → MessageGroup
  | .addMessage replicationMode clock request => (group.addMessage replicationMode clock request).2
  | .setCommittedId msgId => { group with msgDeque := group.msgDeque.setCommittedMsgId msgId }
  | .recycle p => { group with msgDeque := group.msgDeque.recycle p }
  | .tryRecycleFast percent =>
    { group with msgDeque := (group.msgDeque.tryRecycleFast group.readNotCommittedMsg percent).2 }
  | .updateStealDataLen dataLen => { group with msgDeque := group.msgDeque.updateStealDataLen dataLen }
  | .getMessage request memMode clock => (group.getMessage request memMode clock).2

/-- The messages that come in with an event. -/
def accepted (group : MessageGroup) : Event → List MemoryMessage
  | .addMessage replicationMode clock request => (group.addMessage replicationMode clock request).1
  | _ => []

/-- Messages of a source have ids from zero on, and only messages that have been received are
committed, in their order. -/
def Allowed (group : MessageGroup) : Event → Prop
  | .addMessage replicationMode _ request =>
    replicationMode = true → ∀ incoming ∈ request, 0 ≤ incoming.msg.msgId
  | .setCommittedId msgId =>
    group.msgDeque.lastCommittedId ≤ msgId ∧ msgId ≤ group.msgDeque.getLastReceivedMsgId
  | _ => True

/-- Events one after the other, with what comes in; `holds` is asked of each before it happens. -/
inductive Run (holds : MessageGroup → Event → Prop) : MessageGroup → List MemoryMessage → MessageGroup → Prop
  | nil {group : MessageGroup} : Run holds group [] group
  | snoc {group group' : MessageGroup} {added : List MemoryMessage} (event : Event) :
      Run holds group added group' → Allowed group' event → holds group' event →
      Run holds group (added ++ group'.accepted event) (group'.apply event)

/-- The groups that are reached, and all messages that were in them. -/
inductive Reachable : List MemoryMessage → MessageGroup → Prop
  | mk {partition : UInt16 × UInt16} {readNotCommittedMsg : Bool} {startTime : ℤ} {countInBlock granted : ℕ}
      {recovered added : List MemoryMessage} {initial group : MessageGroup} :
      0 < countInBlock → recovered.IsChain Next → (∀ msg ∈ recovered, 0 ≤ msg.msgId) →
      init partition readNotCommittedMsg startTime countInBlock granted recovered = some initial →
      Run (fun _ _ => True) initial added group → Reachable (recovered ++ added) group

omit h in
lemma getMessage_snd (group : MessageGroup) (request : ConsumptionRequest) (memMode : Bool) (clock : ℤ) :
    ∃ allocator, (group.getMessage request memMode clock).2 = { group with timestampAllocator := allocator }
      ∧ group.timestampAllocator.lastCurTime ≤ allocator.lastCurTime := by
  have hself : group = { group with timestampAllocator := group.timestampAllocator } := rfl
  rw [getMessage]
  dsimp only
  split
  · rw [timestampOfEmptyView]
    split
    · exact ⟨_, rfl, le_max_right _ _⟩
    · exact ⟨_, hself, le_rfl⟩
  split
  · exact ⟨_, hself, le_rfl⟩
  split
  · exact ⟨_, hself, le_rfl⟩
  rw [nextTimestampAfterLast]
  split
  · exact ⟨_, rfl, le_max_right _ _⟩
  · exact ⟨_, hself, le_rfl⟩

lemma GroupInv.apply {event : Event} (hallowed : group.Allowed event) :
    GroupInv (pushed ++ group.accepted event) (group.apply event) := by
  cases event with
  | addMessage replicationMode clock request =>
    exact (addMessage_spec h replicationMode clock request hallowed).1.inv
  | setCommittedId msgId =>
    change GroupInv (pushed ++ []) _
    rw [append_nil]
    exact ⟨h.accounted.setCommittedMsgId hallowed.1 (getLastReceivedMsgId_eq h ▸ hallowed.2), h.chain⟩
  | recycle p =>
    change GroupInv (pushed ++ []) _
    rw [append_nil]
    exact ⟨(h.accounted.recycleLoop p _ 0).1, h.chain⟩
  | tryRecycleFast percent =>
    change GroupInv (pushed ++ []) _
    rw [append_nil]
    exact ⟨(h.accounted.tryRecycleFast group.readNotCommittedMsg percent).1, h.chain⟩
  | updateStealDataLen dataLen =>
    change GroupInv (pushed ++ []) _
    rw [append_nil]
    exact ⟨h.accounted.updateStealDataLen dataLen, h.chain⟩
  | getMessage request memMode clock =>
    change GroupInv (pushed ++ []) (group.getMessage request memMode clock).2
    rw [append_nil]
    obtain ⟨allocator, heq, -⟩ := group.getMessage_snd request memMode clock
    rw [heq]
    exact ⟨h.accounted, h.chain⟩

lemma GroupInv.run {holds : MessageGroup → Event → Prop} {group' : MessageGroup}
    {added : List MemoryMessage} (hrun : Run holds group added group') :
    GroupInv (pushed ++ added) group' := by
  induction hrun with
  | nil =>
    rw [append_nil]
    exact h
  | snoc event _ hallowed _ ih =>
    rw [← append_assoc]
    exact ih.apply hallowed

end

/-- Messages in a row are pushed where there is room for them. -/
lemma accounted_recover (msgs : List MemoryMessage) : ∀ {pushed : List MemoryMessage}
    {deque : MessageDeque}, Accounted pushed deque → (pushed ++ msgs).IsChain Next →
    (∀ msg ∈ msgs, 0 ≤ msg.msgId) → msgs.length ≤ deque.msgQueue.remainCount →
    Accounted (pushed ++ msgs) (recover msgs deque)
      ∧ (recover msgs deque).lastCommittedId = deque.lastCommittedId := by
  induction msgs with
  | nil =>
    intro pushed deque h _ _ _
    rw [append_nil]
    exact ⟨h, rfl⟩
  | cons msg msgs ih =>
    intro pushed deque h hchain hnonneg hroom
    have hfollows : Follows pushed msg := by
      rw [Follows]
      cases hlast : pushed.getLast? with
      | none => exact hnonneg msg mem_cons_self
      | some last =>
        rw [isChain_append] at hchain
        exact hchain.2.2 last hlast msg rfl
    rw [length_cons] at hroom
    obtain ⟨hpush, -⟩ := h.pushBack (by omega) hfollows
    rw [append_cons] at hchain
    obtain ⟨haccounted, hcommitted⟩ := ih hpush hchain
      (fun msg' hmem => hnonneg msg' (mem_cons_of_mem _ hmem)) (by
        change msgs.length ≤ deque.msgQueue.remainCount - 1
        omega)
    rw [← append_cons] at haccounted
    exact ⟨haccounted, hcommitted⟩

lemma groupInv_init {partition : UInt16 × UInt16} {readNotCommittedMsg : Bool} {startTime : ℤ}
    {countInBlock granted : ℕ} {recovered : List MemoryMessage} (hpos : 0 < countInBlock)
    (hchain : recovered.IsChain Next) (hnonneg : ∀ msg ∈ recovered, 0 ≤ msg.msgId)
    (hinit : init partition readNotCommittedMsg startTime countInBlock granted recovered = some group) :
    GroupInv recovered group := by
  obtain ⟨hreserve, hroom, -⟩ := (accounted_empty hpos).reserve granted recovered.length
  have hcommitted : ((empty countInBlock).reserve granted recovered.length).2.lastCommittedId
      = -1 := rfl
  rw [init] at hinit
  rcases hresult : (empty countInBlock).reserve granted recovered.length with
    ⟨_ | _, deque⟩
  · rw [hresult] at hinit
    cases hinit
  rw [hresult] at hinit hreserve hroom hcommitted
  obtain ⟨haccounted, hsame⟩ := accounted_recover recovered hreserve hchain hnonneg (hroom rfl)
  rw [nil_append] at haccounted
  obtain rfl := Option.some.inj hinit
  refine ⟨?_, hchain⟩
  cases hlast : recovered.getLast? with
  | none => exact haccounted
  | some last =>
    have hid : lastId recovered = last.msgId := by rw [lastId, hlast]; rfl
    have := hnonneg last (mem_of_getLast? hlast)
    apply haccounted.setCommittedMsgId
    · rw [hsame, hcommitted]
      omega
    · rw [hid]

lemma groupInv_of_reachable (h : Reachable pushed group) : GroupInv pushed group := by
  obtain ⟨hpos, hchain, hnonneg, hinit, hrun⟩ := h
  exact (groupInv_init hpos hchain hnonneg hinit).run hrun

end

end MessageGroup

end Havenask.Swift
