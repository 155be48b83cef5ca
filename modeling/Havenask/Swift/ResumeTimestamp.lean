import Havenask.Swift.PagedReading

/-!
# Resuming by timestamp

A response says from which timestamp on a consumer may read that comes back later.  At the end of the
buffer there is no message to take it from, and the clock stands in.

* **`Floor`**: a timestamp below all messages that can still come in.
* **`floor_of_getMessage`**: the timestamp of a response is such a one, and it is not above what is held
  from the next id on.
* **`nextTimestamp_safe`**: so it is safe, as long as no replicated message is older than the clock.
-/

namespace Havenask.Swift.MessageGroup

open List

/-- Replicated messages are not older than what the clock has said. -/
def ReplicatesLate (group : MessageGroup) : Event → Prop
  | .addMessage true _ request =>
    ∀ incoming ∈ request, group.timestampAllocator.lastCurTime ≤ incoming.msg.timestamp
  | _ => True

/-- A timestamp that no message undercuts which comes in later: the clock or the last message is not below
it. -/
def Floor (timestamp : ℤ) (pushed : List MemoryMessage) (group : MessageGroup) : Prop :=
  timestamp ≤ group.timestampAllocator.lastCurTime
    ∨ ∃ last, pushed.getLast? = some last ∧ timestamp ≤ last.timestamp + 1

section
variable {pushed : List MemoryMessage} {group : MessageGroup} {timestamp : ℤ}

/-! ## Messages by id and by timestamp -/

variable {msgs : List MemoryMessage}

variable {msg : MemoryMessage}

section
variable (h : msgs.IsChain Next) (hmem : msg ∈ msgs)
include h hmem

lemma timestamp_lt_of_msgId_lt {msg' : MemoryMessage}
    (hmem' : msg' ∈ msgs) (hlt : msg.msgId < msg'.msgId) : msg.timestamp < msg'.timestamp := by
  obtain ⟨i, hi, rfl⟩ := getElem_of_mem hmem
  obtain ⟨j, hj, rfl⟩ := getElem_of_mem hmem'
  have hij : i < j := by
    rw [msgId_getElem h hi, msgId_getElem h hj] at hlt
    omega
  exact (pairwise_iff_getElem.mp (pairwise_of_chain h) i j hi hj hij).2

lemma timestamp_le_of_msgId_le {msg' : MemoryMessage}
    (hmem' : msg' ∈ msgs) (hle : msg.msgId ≤ msg'.msgId) : msg.timestamp ≤ msg'.timestamp := by
  rcases hle.lt_or_eq with hlt | heq
  · exact (timestamp_lt_of_msgId_lt h hmem hmem' hlt).le
  obtain ⟨i, hi, rfl⟩ := getElem_of_mem hmem
  obtain ⟨j, hj, rfl⟩ := getElem_of_mem hmem'
  rw [msgId_getElem h hi, msgId_getElem h hj] at heq
  obtain rfl : i = j := by omega
  exact le_rfl

lemma exists_getLast?_timestamp_le
    : ∃ last, msgs.getLast? = some last ∧ msg.timestamp ≤ last.timestamp := by
  rcases eq_nil_or_concat msgs with rfl | ⟨init, last, rfl⟩
  · exact absurd hmem not_mem_nil
  rw [concat_eq_append] at h hmem ⊢
  refine ⟨last, getLast?_concat, ?_⟩
  rcases mem_append.mp hmem with hinit | hlast
  · exact ((pairwise_append.mp (pairwise_of_chain h)).2.2 msg hinit last (mem_singleton_self _)).2.le
  · rw [mem_singleton.mp hlast]

end

lemma floor_of_mem (h : GroupInv pushed group) {group' : MessageGroup}
    (hmem : msg ∈ group.messages) (hle : timestamp ≤ msg.timestamp + 1) : Floor timestamp pushed group' := by
  obtain ⟨last, hlast, hle'⟩ := exists_getLast?_timestamp_le h.chain_messages hmem
  exact .inr ⟨last, h.getLast?_eq.trans hlast, by omega⟩

/-! ## The timestamp of a response -/

lemma floor_of_getMessage (h : GroupInv pushed group) (request : ConsumptionRequest) (memMode : Bool) (clock : ℤ) :
    Floor (group.getMessage request memMode clock).1.nextTimestamp pushed (group.getMessage request memMode clock).2
    ∧ ∀ msg ∈ group.messages, (group.getMessage request memMode clock).1.nextMsgId ≤ msg.msgId →
      (group.getMessage request memMode clock).1.nextTimestamp ≤ msg.timestamp := by
  have hchain := h.chain_messages
  have hle := viewSize_le h request.readCommittedMsg
  rcases getMessage_cases h request memMode clock with
    ⟨-, heq⟩ | ⟨first, last, hpos, hfirst, hlast, hcases⟩
  · rw [heq, timestampOfEmptyView]
    split_ifs with hsize
    · rw [h.size_eq] at hsize
      refine ⟨.inl le_rfl, fun msg hmem => ?_⟩
      rw [eq_nil_of_length_eq_zero hsize] at hmem
      exact absurd hmem not_mem_nil
    have hlength : 0 < group.messages.length := by
      rw [← h.size_eq]
      omega
    rw [get_eq h hlength]
    refine ⟨floor_of_mem h (get_mem _ ⟨0, hlength⟩) (by dsimp only; omega), fun msg hmem _ => ?_⟩
    have hid : (group.messages.get ⟨0, hlength⟩).msgId ≤ msg.msgId := by
      obtain ⟨i, hi, rfl⟩ := getElem_of_mem hmem
      rw [msgId_getElem hchain hi]
      simp
    have := timestamp_le_of_msgId_le hchain (get_mem _ _) hmem hid
    dsimp only
    omega
  have hmemfirst : first ∈ group.messages := mem_of_mem_head? hfirst
  have hmemlast : last ∈ group.messages := mem_of_mem_take (mem_of_getLast? hlast)
  rcases hcases with ⟨-, -, heq⟩ | ⟨pre, msg', rest, hsplit, -, heq⟩ | heq
  · rw [heq]
    exact ⟨floor_of_mem h hmemfirst (by dsimp only; omega),
      fun msg hmem hid => timestamp_le_of_msgId_le hchain hmemfirst hmem hid⟩
  · have hmemmsg : msg' ∈ group.messages := by
      apply mem_of_mem_take
      apply mem_of_mem_drop
      rw [hsplit]
      exact mem_append_right _ mem_cons_self
    rw [heq]
    exact ⟨floor_of_mem h hmemmsg (by dsimp only; omega),
      fun msg hmem hid => timestamp_le_of_msgId_le hchain hmemmsg hmem hid⟩
  rw [heq, nextTimestampAfterLast]
  split
  · -- the view is the whole buffer, and no message is behind its end
    rename_i hsize
    rw [h.size_eq] at hsize
    rw [take_of_length_le hsize] at hlast
    constructor
    · change Floor (max (max clock group.timestampAllocator.lastCurTime) (last.timestamp + 1)) pushed _
      rcases max_choice (max clock group.timestampAllocator.lastCurTime) (last.timestamp + 1) with
        hmax | hmax
      · rw [hmax]
        exact .inl le_rfl
      · rw [hmax]
        exact floor_of_mem h hmemlast le_rfl
    · intro msg hmem hid
      dsimp only at hid
      have hle' : msg.msgId ≤ last.msgId := by
        obtain ⟨i, hi, rfl⟩ := getElem_of_mem hmem
        rw [getLast?_eq_getElem?, getElem?_eq_getElem (by omega), Option.some_inj] at hlast
        have hidlast := msgId_getElem hchain (i := group.messages.length - 1) (by omega)
        rw [← hlast, hidlast, msgId_getElem hchain hi]
        omega
      omega
  · refine ⟨floor_of_mem h hmemlast le_rfl, fun msg hmem hid => ?_⟩
    exact timestamp_lt_of_msgId_lt hchain hmemlast hmem (by dsimp only at hid; omega)

/-! ## Later messages -/

lemma Floor.apply {event : Event} (hfloor : Floor timestamp pushed group) (h : GroupInv pushed group)
    (hallowed : group.Allowed event) (hlate : group.ReplicatesLate event) :
    Floor timestamp (pushed ++ group.accepted event) (group.apply event)
    ∧ ∀ msg ∈ group.accepted event, timestamp ≤ msg.timestamp := by
  cases event with
  | addMessage replicationMode clock request =>
    obtain ⟨hadds, hclock⟩ := addMessage_spec h replicationMode clock request hallowed
    have hchain := hadds.inv.chain
    have hnew : ∀ msg ∈ (group.addMessage replicationMode clock request).1, timestamp ≤ msg.timestamp := by
      intro msg hmem
      rcases hfloor with hcur | ⟨last, hlast, hle⟩
      · rcases hclock msg hmem with hle | ⟨rfl, incoming, hin, rfl⟩
        · exact hcur.trans hle
        · exact hcur.trans (hlate incoming hin)
      · have := ((pairwise_append.mp (pairwise_of_chain hchain)).2.2 last (mem_of_getLast? hlast) msg hmem).2
        omega
    refine ⟨?_, hnew⟩
    rcases hfloor with hcur | ⟨last, hlast, hle⟩
    · exact .inl (hcur.trans hadds.lastCurTime_le)
    · obtain ⟨last', hlast', hle'⟩ := exists_getLast?_timestamp_le hchain (mem_append_left _ (mem_of_getLast? hlast))
      exact .inr ⟨last', hlast', by omega⟩
  | setCommittedId msgId =>
    change Floor timestamp (pushed ++ []) _ ∧ _
    rw [append_nil]
    exact ⟨hfloor, forall_mem_nil _⟩
  | recycle p =>
    change Floor timestamp (pushed ++ []) _ ∧ _
    rw [append_nil]
    exact ⟨hfloor, forall_mem_nil _⟩
  | tryRecycleFast percent =>
    change Floor timestamp (pushed ++ []) _ ∧ _
    rw [append_nil]
    exact ⟨hfloor, forall_mem_nil _⟩
  | updateStealDataLen dataLen =>
    change Floor timestamp (pushed ++ []) _ ∧ _
    rw [append_nil]
    exact ⟨hfloor, forall_mem_nil _⟩
  | getMessage request memMode clock =>
    obtain ⟨allocator, heq, hle⟩ := group.getMessage_snd request memMode clock
    change Floor timestamp (pushed ++ []) (group.getMessage request memMode clock).2 ∧ _
    rw [append_nil, heq]
    refine ⟨?_, forall_mem_nil _⟩
    rcases hfloor with hcur | hlast
    · exact .inl (hcur.trans hle)
    · exact .inr hlast

lemma Floor.run {group' : MessageGroup} {added : List MemoryMessage} (hfloor : Floor timestamp pushed group)
    (h : GroupInv pushed group) (hrun : Run ReplicatesLate group added group') :
    Floor timestamp (pushed ++ added) group' ∧ ∀ msg ∈ added, timestamp ≤ msg.timestamp := by
  induction hrun with
  | nil =>
    rw [append_nil]
    exact ⟨hfloor, forall_mem_nil _⟩
  | snoc event hrun hallowed hlate ih =>
    obtain ⟨hfloor', hadded⟩ := ih
    obtain ⟨hfloor'', haccepted⟩ := hfloor'.apply (h.run hrun) hallowed hlate
    rw [← append_assoc]
    refine ⟨hfloor'', fun msg hmem => ?_⟩
    rcases mem_append.mp hmem with hmem | hmem
    · exact hadded msg hmem
    · exact haccepted msg hmem

end

/-- Whatever happens after a response, its timestamp is not above any message from its next id on, held at
the time or added later, if no replicated message is older than the clock of the broker. -/
theorem nextTimestamp_safe (pushed added : List MemoryMessage) (group group' : MessageGroup)
    (request : ConsumptionRequest) (memMode : Bool) (clock : ℤ) (hreach : Reachable pushed group)
    (hrun : Run ReplicatesLate (group.getMessage request memMode clock).2 added group') :
    ∀ msg ∈ group.messages ++ added, (group.getMessage request memMode clock).1.nextMsgId ≤ msg.msgId →
      (group.getMessage request memMode clock).1.nextTimestamp ≤ msg.timestamp := by
  have hinv := groupInv_of_reachable hreach
  obtain ⟨hfloor, hheld⟩ := floor_of_getMessage hinv request memMode clock
  have hinv' : GroupInv pushed (group.getMessage request memMode clock).2 := by
    obtain ⟨allocator, heq, -⟩ := group.getMessage_snd request memMode clock
    rw [heq]
    exact ⟨hinv.accounted, hinv.chain⟩
  intro msg hmem hid
  rcases mem_append.mp hmem with hmem | hmem
  · exact hheld msg hmem hid
  · exact (hfloor.run hinv' hrun).2 msg hmem

/-- A message of a source. -/
def replicated (timestamp : ℤ) : Incoming := ⟨⟨2, timestamp, 10, 0, 0, false, 1⟩, 0, true, 0, 0⟩

/-- The clock says 100 when a consumer has read all; then a message of the source with timestamp 100
comes. -/
theorem nextTimestamp_safe_late : (twoMessages.getMessage ⟨2, 1, 100, wholeFilter, none⟩ true 100).1.nextTimestamp
      ≤ (replicated 100).msg.timestamp := by
  have hids : true = true → ∀ incoming ∈ [replicated 100], 0 ≤ incoming.msg.msgId := by decide
  have hlate : ∀ incoming ∈ [replicated 100], (100 : ℤ) ≤ incoming.msg.timestamp := by decide
  have hsafe := nextTimestamp_safe _ [(replicated 100).msg] twoMessages _ ⟨2, 1, 100, wholeFilter, none⟩
    true 100 reachable_twoMessages (.snoc (.addMessage true 100 [replicated 100]) .nil hids hlate)
  exact hsafe _ (mem_append_right _ (mem_singleton_self _)) (by decide)

/-- The clock says 100 when a consumer has read all, and the response tells it to come back with 100.  Then a
message of the source with timestamp 50 is accepted, with the id that the consumer waits for. -/
theorem nextTimestamp_misses_replicated :
    Reachable [MessageDeque.plainMessage 0 10, MessageDeque.plainMessage 1 10] twoMessages
      ∧ (twoMessages.getMessage ⟨2, 1, 100, wholeFilter, none⟩ true 100).1.nextMsgId = 2
      ∧ (twoMessages.getMessage ⟨2, 1, 100, wholeFilter, none⟩ true 100).1.nextTimestamp = 100
      ∧ ((twoMessages.getMessage ⟨2, 1, 100, wholeFilter, none⟩ true 100).2.addMessage true 100
        [replicated 50]).1 = [(replicated 50).msg] :=
  ⟨reachable_twoMessages, by decide, by decide, by decide⟩

end Havenask.Swift.MessageGroup
