import Havenask.Swift.MessageGroup

/-!
# Paged reading

A consumer reads page after page, each from where the last one ended, while messages come in and are
committed.

* **`getMessage_cases`**: what a call can answer.
* **`paged_delivery`**: the pages together are exactly the messages that match between the first start and
  the last end, if the first start is not beyond what can be read.
-/

namespace Havenask.Swift.MessageGroup

open List MessageDeque Option

/-! ## Messages in a row -/

section
variable {msgs : List MemoryMessage}

lemma msgId_getElem (h : msgs.IsChain Next) {i : ℕ} (hi : i < msgs.length) :
    (msgs[i]).msgId = (msgs[0]).msgId + i := by
  induction i with
  | zero => simp
  | succ i ih =>
    have hnext := isChain_iff_getElem.mp h i hi
    rw [hnext.1, ih (by omega)]
    push_cast
    ring

lemma pairwise_of_chain (h : msgs.IsChain Next) :
    msgs.Pairwise fun msg msg' => msg.msgId < msg'.msgId ∧ msg.timestamp < msg'.timestamp := by
  have htrans : IsTrans MemoryMessage fun msg msg' => msg.msgId < msg'.msgId ∧ msg.timestamp < msg'.timestamp :=
    ⟨fun _ _ _ h h' => ⟨h.1.trans h'.1, h.2.trans h'.2⟩⟩
  apply isChain_iff_pairwise.mp
  apply h.imp
  intro msg msg' hnext
  exact ⟨by rw [hnext.1]; exact Int.lt_succ _, hnext.2⟩

/-- The messages below an id are the front of the row. -/
lemma filter_below (h : msgs.IsChain Next) (p : MemoryMessage → Bool) {first : MemoryMessage}
    (hfirst : msgs.head? = some first) {c : ℕ} (hc : c ≤ msgs.length) (next : ℤ)
    (hnext : (next - first.msgId).toNat = c) :
    msgs.filter (fun msg => p msg && decide (msg.msgId < next)) = (msgs.take c).filter p := by
  have hid : ∀ i (hi : i < msgs.length), (msgs[i]).msgId = first.msgId + i := by
    intro i hi
    rw [msgId_getElem h hi]
    rw [head?_eq_getElem?, getElem?_eq_getElem (by omega), some_inj] at hfirst
    rw [hfirst]
  have hinside : (msgs.take c).filter (fun msg => p msg && decide (msg.msgId < next))
      = (msgs.take c).filter p := by
    apply filter_congr
    intro msg hmem
    obtain ⟨i, hi, rfl⟩ := getElem_of_mem hmem
    rw [length_take] at hi
    rw [getElem_take, hid _ (by omega)]
    have hlt : first.msgId + (i : ℤ) < next := by omega
    rw [decide_eq_true hlt, Bool.and_true]
  have hbehind : (msgs.drop c).filter (fun msg => p msg && decide (msg.msgId < next)) = [] := by
    rw [filter_eq_nil_iff]
    intro msg hmem
    obtain ⟨i, hi, rfl⟩ := getElem_of_mem hmem
    rw [length_drop] at hi
    rw [getElem_drop, hid _ (by omega)]
    have hge : ¬ first.msgId + ((c + i : ℕ) : ℤ) < next := by push_cast; omega
    rw [decide_eq_false hge, Bool.and_false]
    exact Bool.false_ne_true
  conv_lhs => rw [← take_append_drop c msgs, filter_append, hinside, hbehind, append_nil]

end

/-! ## A page -/

/-- A page is what is selected from the front; it ends before a message that is selected, and then it is
not empty if anything was asked for. -/
lemma pageLoop_spec (selects : MemoryMessage → Bool) (count maxTotalSize : ℤ)
    (msgs : List MemoryMessage) : ∀ (readCount totalSize : ℤ), ∃ pre rest, msgs = pre ++ rest
    ∧ pageLoop selects count maxTotalSize readCount totalSize msgs = (pre.filter selects, rest)
    ∧ (rest = [] ∨ ∃ msg rest', rest = msg :: rest' ∧ selects msg = true
      ∧ (1 ≤ count → pre.filter selects ≠ [] ∨ readCount ≠ 0)) := by
  induction msgs with
  | nil => exact fun _ _ => ⟨[], [], rfl, rfl, .inl rfl⟩
  | cons msg msgs ih =>
    intro readCount totalSize
    rw [pageLoop]
    split
    · rename_i hselects
      split
      · exact ⟨[], msg :: msgs, rfl, rfl, .inr ⟨msg, msgs, rfl, hselects, fun _ => .inr (by omega)⟩⟩
      dsimp only
      split
      · rename_i hfull
        exact ⟨[], msg :: msgs, rfl, rfl, .inr ⟨msg, msgs, rfl, hselects, fun _ => .inr hfull.2⟩⟩
      obtain ⟨pre, rest, rfl, hloop, hrest⟩ := ih (readCount + msg.msgCount) (totalSize + msg.len)
      have hfilter : (msg :: pre).filter selects = msg :: pre.filter selects := filter_cons_of_pos hselects
      refine ⟨msg :: pre, rest, rfl, ?_, ?_⟩
      · rw [hloop, hfilter]
      rcases hrest with hnil | ⟨msg', rest', heq, hselects', -⟩
      · exact .inl hnil
      refine .inr ⟨msg', rest', heq, hselects', fun _ => .inl ?_⟩
      rw [hfilter]
      exact cons_ne_nil _ _
    · rename_i hselects
      obtain ⟨pre, rest, rfl, hloop, hrest⟩ := ih readCount totalSize
      have hfilter : (msg :: pre).filter selects = pre.filter selects := filter_cons_of_neg hselects
      refine ⟨msg :: pre, rest, rfl, ?_, ?_⟩
      · rw [hloop, hfilter]
      · rw [hfilter]
        exact hrest

section
variable {pushed : List MemoryMessage} {group : MessageGroup}

section
variable (h : GroupInv pushed group)
include h

lemma viewSize_le (readCommittedMsg : Option Bool) : group.viewSize readCommittedMsg ≤ group.messages.length := by
  rw [viewSize, MessageDeque.viewSize]
  split
  · exact h.size_eq.le
  · rw [h.accounted.committedIndex_eq, Int.toNat_natCast]
    exact countP_le_length

/-- Without recycling a view only grows: new messages come behind it. -/
lemma GroupInv.viewSize_le_of_adds {group' : MessageGroup}
    {msgs : List MemoryMessage} (hadds : Adds pushed group group' msgs) (readCommittedMsg : Option Bool) :
    group.viewSize readCommittedMsg ≤ group'.viewSize readCommittedMsg := by
  have hlength := congrArg length hadds.messages_eq
  rw [length_append, ← hadds.inv.size_eq, ← h.size_eq] at hlength
  rw [viewSize, viewSize, MessageDeque.viewSize, MessageDeque.viewSize, hadds.readNotCommittedMsg_eq]
  split
  · omega
  · rw [hadds.committedIndex_eq]

lemma GroupInv.viewSize_le_setCommittedId {msgId : ℤ}
    (hallowed : group.Allowed (.setCommittedId msgId)) (readCommittedMsg : Option Bool) :
    group.viewSize readCommittedMsg ≤ (group.apply (.setCommittedId msgId)).viewSize readCommittedMsg := by
  have hindex := h.accounted.committedIndex_eq
  have hindex' := (h.apply hallowed).accounted.committedIndex_eq
  have hmono : group.msgDeque.committedIndex
      ≤ (group.apply (.setCommittedId msgId)).msgDeque.committedIndex := by
    rw [hindex, hindex']
    apply Int.ofNat_le.mpr
    apply countP_mono_left
    intro msg _ hmsg
    rw [decide_eq_true_eq] at hmsg ⊢
    exact hmsg.trans hallowed.1
  rw [viewSize, viewSize, MessageDeque.viewSize, MessageDeque.viewSize]
  change (if (readCommittedMsg.map not).getD group.readNotCommittedMsg = true then _ else _)
    ≤ if (readCommittedMsg.map not).getD group.readNotCommittedMsg = true then
      group.msgDeque.msgQueue.size else _
  split
  · exact le_rfl
  · exact Int.toNat_le_toNat hmono

lemma get_eq {i : ℕ} (hi : i < group.messages.length) :
    group.msgDeque.msgQueue.get i = group.messages.get ⟨i, hi⟩ := by
  rw [h.accounted.wellFormed.get_eq (by rw [h.size_eq]; exact hi)]
  change (group.messages[i]?).getD default = _
  rw [getElem?_eq_getElem hi]
  rfl

lemma view_eq {size : ℕ} (hsize : size ≤ group.messages.length) : group.view size = group.messages.take size := by
  apply ext_getElem
  · rw [view, length_map, length_range, length_take_of_le hsize]
  intro i hi hi'
  rw [length_take] at hi'
  rw [getElem_take]
  simp only [view, getElem_map, getElem_range]
  exact get_eq h (by omega)

/-- What a call answers, told by the held messages: there is nothing to read; the start is before the oldest
message and files have to be read; the page ends before a message; the page ends with the view. -/
lemma getMessage_cases (request : ConsumptionRequest) (memMode : Bool) (clock : ℤ) :
    (group.viewSize request.readCommittedMsg = 0
      ∧ group.getMessage request memMode clock
        = (⟨.noData, [], 0, (group.timestampOfEmptyView clock).1, none, none⟩,
          (group.timestampOfEmptyView clock).2))
    ∨ ∃ first last, 0 < group.viewSize request.readCommittedMsg ∧ group.messages.head? = some first
      ∧ (group.messages.take (group.viewSize request.readCommittedMsg)).getLast? = some last
      ∧ (request.startId < first.msgId ∧ memMode = false
          ∧ group.getMessage request memMode clock
            = (⟨.noDataInMem, [], first.msgId, first.timestamp, some last.msgId, some last.timestamp⟩, group)
        ∨ (∃ pre msg rest, (group.messages.take (group.viewSize request.readCommittedMsg)).drop
              (request.startId - first.msgId).toNat = pre ++ msg :: rest
            ∧ (1 ≤ request.count → pre ≠ [])
            ∧ group.getMessage request memMode clock
              = (⟨.none, pre.filter (group.selects request.filter), msg.msgId, msg.timestamp,
                some last.msgId, some last.timestamp⟩, group))
        ∨ group.getMessage request memMode clock
          = (⟨.none, ((group.messages.take (group.viewSize request.readCommittedMsg)).drop
                (request.startId - first.msgId).toNat).filter (group.selects request.filter), last.msgId + 1,
              (group.nextTimestampAfterLast clock (group.viewSize request.readCommittedMsg) last).1,
              some last.msgId, some last.timestamp⟩,
            (group.nextTimestampAfterLast clock (group.viewSize request.readCommittedMsg) last).2)) := by
  have hle := viewSize_le h request.readCommittedMsg
  by_cases hzero : group.viewSize request.readCommittedMsg = 0
  · refine .inl ⟨hzero, ?_⟩
    rw [getMessage, hzero]
    rfl
  have hpos : 0 < group.messages.length := by omega
  have hfirst : group.msgDeque.msgQueue.get 0 = group.messages.get ⟨0, hpos⟩ := get_eq h hpos
  have hlast : group.msgDeque.msgQueue.get (group.viewSize request.readCommittedMsg - 1)
      = group.messages.get ⟨group.viewSize request.readCommittedMsg - 1, by omega⟩ := get_eq h (by omega)
  refine .inr ⟨group.messages.get ⟨0, hpos⟩,
    group.messages.get ⟨group.viewSize request.readCommittedMsg - 1, by omega⟩,
    Nat.pos_of_ne_zero hzero, ?_, ?_, ?_⟩
  · rw [head?_eq_getElem?, getElem?_eq_getElem hpos]
    rfl
  · rw [getLast?_eq_getElem?, length_take_of_le hle, getElem?_take_of_lt (by omega), getElem?_eq_getElem (by omega)]
    rfl
  rw [getMessage]
  simp only [hzero, if_false, hfirst, hlast, view_eq h hle]
  by_cases hstart : request.startId < (group.messages.get ⟨0, hpos⟩).msgId ∧ memMode = false
  · exact .inl ⟨hstart.1, hstart.2, by rw [if_pos hstart]⟩
  rw [if_neg hstart]
  obtain ⟨pre, rest, hsplit, hloop, hrest⟩ := pageLoop_spec (group.selects request.filter)
    request.count request.maxTotalSize
    ((group.messages.take (group.viewSize request.readCommittedMsg)).drop
      (request.startId - (group.messages.get ⟨0, hpos⟩).msgId).toNat) 0 0
  rw [hloop]
  rcases hrest with rfl | ⟨msg, rest', rfl, hselects, htaken⟩
  · rw [append_nil] at hsplit
    rw [hsplit]
    exact .inr (.inr rfl)
  refine .inr (.inl ⟨pre, msg, rest', hsplit, ?_, ?_⟩)
  · rintro hcount rfl
    exact (htaken hcount).elim (fun hne => hne rfl) (fun hne => hne rfl)
  · rw [find?_cons_of_pos hselects]

end

/-! ## Page after page -/

/-- A consumer that reads from a start, with one filter and one kind of view, while messages come in and are
committed: where it reads on, and what it has got. -/
inductive PagedRun (filter : MessageFilter) (readCommittedMsg : Option Bool) (start : ℤ) :
    MessageGroup → MessageGroup → ℤ → List MemoryMessage → Prop
  | start {group : MessageGroup} : PagedRun filter readCommittedMsg start group group start []
  | addMessage {group group' : MessageGroup} {next : ℤ} {delivered : List MemoryMessage}
      (replicationMode : Bool) (clock : ℤ) (request : List Incoming) :
      PagedRun filter readCommittedMsg start group group' next delivered →
      group'.Allowed (.addMessage replicationMode clock request) →
      PagedRun filter readCommittedMsg start group (group'.addMessage replicationMode clock request).2
        next delivered
  | setCommittedId {group group' : MessageGroup} {next : ℤ} {delivered : List MemoryMessage} (msgId : ℤ) :
      PagedRun filter readCommittedMsg start group group' next delivered →
      group'.Allowed (.setCommittedId msgId) →
      PagedRun filter readCommittedMsg start group
        { group' with msgDeque := group'.msgDeque.setCommittedMsgId msgId } next delivered
  | getMessage {group group' : MessageGroup} {next : ℤ} {delivered : List MemoryMessage}
      (count maxTotalSize : ℤ) (memMode : Bool) (clock : ℤ) :
      PagedRun filter readCommittedMsg start group group' next delivered → 1 ≤ count →
      PagedRun filter readCommittedMsg start group
        (group'.getMessage ⟨next, count, maxTotalSize, filter, readCommittedMsg⟩ memMode clock).2
        (group'.getMessage ⟨next, count, maxTotalSize, filter, readCommittedMsg⟩ memMode clock).1.nextMsgId
        (delivered
          ++ (group'.getMessage ⟨next, count, maxTotalSize, filter, readCommittedMsg⟩ memMode clock).1.msgs)

/-- The consumer has what is selected from the front of the row, and it is not ahead of the view. -/
structure Paged (filter : MessageFilter) (readCommittedMsg : Option Bool) (start : ℤ)
    (first : MemoryMessage) (group : MessageGroup) (next : ℤ) (delivered : List MemoryMessage) : Prop where
  inv : ∃ pushed, GroupInv pushed group
  head?_eq : group.messages.head? = some first
  next_le : next ≤ first.msgId + group.viewSize readCommittedMsg
  start_le : start ≤ next ∨ start ≤ first.msgId
  delivered_eq : delivered = (group.messages.take (next - first.msgId).toNat).filter fun msg =>
    group.selects filter msg && decide (start ≤ msg.msgId)

variable {filter : MessageFilter} {readCommittedMsg : Option Bool} {start next : ℤ}
  {first : MemoryMessage} {delivered : List MemoryMessage}

section
variable (h : Paged filter readCommittedMsg start first group next delivered)
include h

lemma Paged.le_length : (next - first.msgId).toNat ≤ group.messages.length := by
  obtain ⟨pushed, hinv⟩ := h.inv
  have hsize := viewSize_le hinv readCommittedMsg
  have hnext := h.next_le
  omega

lemma Paged.addMessage {replicationMode : Bool} {clock : ℤ} {request : List Incoming}
    (hallowed : group.Allowed (.addMessage replicationMode clock request)) :
    Paged filter readCommittedMsg start first (group.addMessage replicationMode clock request).2 next delivered := by
  obtain ⟨pushed, hinv⟩ := h.inv
  obtain ⟨hadds, -⟩ := addMessage_spec hinv replicationMode clock request hallowed
  have hsize := hinv.viewSize_le_of_adds hadds readCommittedMsg
  refine ⟨⟨_, hadds.inv⟩, ?_, h.next_le.trans (by omega), h.start_le, ?_⟩
  · rw [hadds.messages_eq, head?_append, h.head?_eq]
    rfl
  have hselects : (group.addMessage replicationMode clock request).2.selects filter
      = group.selects filter := by
    funext msg
    rw [selects, selects, hadds.partition_eq]
  rw [hadds.messages_eq, take_append_of_le_length h.le_length, hselects]
  exact h.delivered_eq

lemma Paged.setCommittedId {msgId : ℤ} (hallowed : group.Allowed (.setCommittedId msgId)) :
    Paged filter readCommittedMsg start first
      { group with msgDeque := group.msgDeque.setCommittedMsgId msgId } next delivered := by
  obtain ⟨pushed, hinv⟩ := h.inv
  have hinv' := hinv.apply hallowed
  have hsize := hinv.viewSize_le_setCommittedId hallowed readCommittedMsg
  exact ⟨⟨_, hinv'⟩, h.head?_eq, h.next_le.trans (by
    change _ ≤ first.msgId + ((group.apply (.setCommittedId msgId)).viewSize readCommittedMsg : ℤ)
    omega), h.start_le, h.delivered_eq⟩

end

/-- The front of the row grows by a stretch that lies behind the start. -/
lemma take_add_filter {msgs : List MemoryMessage} {start : ℤ} (h : msgs.IsChain Next)
    (hfirst : msgs.head? = some first) {a n : ℕ} (hlength : a + n ≤ msgs.length)
    (hstart : start ≤ first.msgId + a) (p : MemoryMessage → Bool) :
    (msgs.take (a + n)).filter (fun msg => p msg && decide (start ≤ msg.msgId))
    = (msgs.take a).filter (fun msg => p msg && decide (start ≤ msg.msgId)) ++ ((msgs.drop a).take n).filter p := by
  rw [take_add, filter_append]
  congr 1
  apply filter_congr
  intro msg hmem
  obtain ⟨i, hi, rfl⟩ := getElem_of_mem hmem
  rw [length_take, length_drop] at hi
  rw [head?_eq_getElem?, getElem?_eq_getElem (by omega), some_inj] at hfirst
  rw [getElem_take, getElem_drop]
  have hid := msgId_getElem h (i := a + i) (by omega)
  rw [hfirst] at hid
  have hle : start ≤ (msgs[a + i]).msgId := by
    rw [hid]
    omega
  rw [decide_eq_true hle, Bool.and_true]

section
variable (h : Paged filter readCommittedMsg start first group next delivered) (count maxTotalSize : ℤ)
  (memMode : Bool) (clock : ℤ) (hcount : 1 ≤ count)
include h count maxTotalSize memMode clock hcount

/-- A call reads a stretch of the row, from where the consumer is to where it reads on. -/
lemma Paged.getMessage_stretch : ∃ (n : ℕ) (next' : ℤ), (next' - first.msgId).toNat = (next - first.msgId).toNat + n
    ∧ next' ≤ first.msgId + group.viewSize readCommittedMsg
    ∧ (next ≤ next' ∨ next ≤ first.msgId)
    ∧ (next < first.msgId + group.viewSize readCommittedMsg → next < next'
      ∨ group.viewSize readCommittedMsg = 0)
    ∧ (group.getMessage ⟨next, count, maxTotalSize, filter, readCommittedMsg⟩ memMode clock).1.nextMsgId = next'
    ∧ (group.getMessage ⟨next, count, maxTotalSize, filter, readCommittedMsg⟩ memMode clock).1.msgs
      = ((group.messages.drop (next - first.msgId).toNat).take n).filter (group.selects filter) := by
  obtain ⟨pushed, hinv⟩ := h.inv
  have hnext := h.next_le
  have hsize := viewSize_le hinv readCommittedMsg
  have hnonneg : 0 ≤ first.msgId := by
    obtain ⟨recycled, heq, -⟩ := hinv.accounted.suffix
    apply hinv.accounted.nonneg
    rw [heq]
    exact mem_append_right _ (mem_of_mem_head? h.head?_eq)
  have hid : ∀ i (hi : i < group.messages.length), (group.messages[i]).msgId = first.msgId + i := by
    intro i hi
    have hhead := h.head?_eq
    rw [head?_eq_getElem?, getElem?_eq_getElem (by omega), some_inj] at hhead
    rw [msgId_getElem hinv.chain_messages hi, hhead]
  rcases getMessage_cases hinv ⟨next, count, maxTotalSize, filter, readCommittedMsg⟩ memMode clock with
    ⟨hzero, heq⟩ | ⟨first', last, hpos, hfirst', hlast, hcases⟩
  · dsimp only at hzero
    rw [heq]
    refine ⟨0, 0, by omega, by omega, .inr (by omega), fun _ => .inr hzero, rfl, by simp⟩
  obtain rfl : first = first' := by
    rw [h.head?_eq, some_inj] at hfirst'
    exact hfirst'
  dsimp only at hpos hlast hcases
  have hlastid : last.msgId = first.msgId + (group.viewSize readCommittedMsg - 1 : ℕ) := by
    rw [getLast?_eq_getElem?, length_take_of_le hsize, getElem?_take_of_lt (by omega),
      getElem?_eq_getElem (by omega), some_inj] at hlast
    rw [← hlast, hid _ (by omega)]
  rcases hcases with ⟨hbefore, -, heq⟩ | ⟨pre, msg, rest, hsplit, hpre, heq⟩ | heq
  · rw [heq]
    exact ⟨0, first.msgId, by omega, by omega, .inr hbefore.le, fun _ => .inl hbefore, rfl, by simp⟩
  · -- the page ends at a message of the view
    have hlength := congrArg length hsplit
    rw [length_drop, length_take_of_le hsize, length_append, length_cons] at hlength
    have hmsg : msg = group.messages.get ⟨(next - first.msgId).toNat + pre.length, by omega⟩ := by
      have hget := congrArg (·[pre.length]?) hsplit
      simp only [getElem?_drop, getElem?_append_right le_rfl, Nat.sub_self, getElem?_cons_zero] at hget
      rw [getElem?_take_of_lt (by omega), getElem?_eq_getElem (by omega), some_inj] at hget
      exact hget.symm
    have hmsgid : msg.msgId = first.msgId + ((next - first.msgId).toNat + pre.length : ℕ) := by
      rw [hmsg]
      exact hid _ (by omega)
    have hprelength : 0 < pre.length := length_pos_iff.mpr (hpre hcount)
    rw [heq]
    refine ⟨pre.length, msg.msgId, by omega, by omega, .inl (by omega), fun _ => .inl (by omega), rfl, ?_⟩
    have htake : (group.messages.drop (next - first.msgId).toNat).take pre.length = pre := by
      have hfront := congrArg (·.take pre.length) hsplit
      simp only [take_left] at hfront
      rw [drop_take, take_take, min_eq_left (by omega)] at hfront
      exact hfront
    rw [htake]
  · rw [heq]
    refine ⟨group.viewSize readCommittedMsg - (next - first.msgId).toNat, last.msgId + 1, by omega,
      by omega, .inl (by omega), fun _ => .inl (by omega), rfl, ?_⟩
    rw [drop_take]

lemma Paged.getMessage : Paged filter readCommittedMsg start first
      (group.getMessage ⟨next, count, maxTotalSize, filter, readCommittedMsg⟩ memMode clock).2
      (group.getMessage ⟨next, count, maxTotalSize, filter, readCommittedMsg⟩ memMode clock).1.nextMsgId (delivered ++
        (group.getMessage ⟨next, count, maxTotalSize, filter, readCommittedMsg⟩ memMode clock).1.msgs) := by
  obtain ⟨pushed, hinv⟩ := h.inv
  have hsize := viewSize_le hinv readCommittedMsg
  obtain ⟨n, next', hn, hnext', hor, -, heq, hmsgs⟩ := h.getMessage_stretch count maxTotalSize memMode clock hcount
  obtain ⟨allocator, hgroup, -⟩ := group.getMessage_snd
    ⟨next, count, maxTotalSize, filter, readCommittedMsg⟩ memMode clock
  rw [heq, hmsgs, hgroup]
  have hstart := h.start_le
  refine ⟨⟨pushed, hinv.accounted, hinv.chain⟩, h.head?_eq, hnext', by omega, ?_⟩
  have hstretch := take_add_filter hinv.chain_messages h.head?_eq (n := n)
    (a := (next - first.msgId).toNat) (by omega)
    (show start ≤ first.msgId + ((next - first.msgId).toNat : ℕ) by omega) (group.selects filter)
  rw [hn, h.delivered_eq]
  exact hstretch.symm

end

lemma Paged.run {group' : MessageGroup} (hfirst : group.messages.head? = some first)
    (hinv : GroupInv pushed group) (hstart : start ≤ first.msgId + group.viewSize readCommittedMsg)
    (hrun : PagedRun filter readCommittedMsg start group group' next delivered) :
    Paged filter readCommittedMsg start first group' next delivered := by
  induction hrun with
  | start =>
    refine ⟨⟨_, hinv⟩, hfirst, hstart, .inl le_rfl, ?_⟩
    have hnone := filter_below hinv.chain_messages (fun msg => group.selects filter msg
      && decide (start ≤ msg.msgId)) hfirst (by
        have := viewSize_le hinv readCommittedMsg
        omega) start rfl
    rw [← hnone, eq_comm, filter_eq_nil_iff]
    intro msg _ hmsg
    simp only [Bool.and_eq_true, decide_eq_true_eq] at hmsg
    omega
  | addMessage replicationMode clock request _ hallowed ih => exact ih.addMessage hallowed
  | setCommittedId msgId _ hallowed ih => exact ih.setCommittedId hallowed
  | getMessage count maxTotalSize memMode clock _ hcount ih =>
    exact ih.getMessage count maxTotalSize memMode clock hcount

/-- For a message of the partition it makes no difference whether the filter is looked at. -/
lemma selects_eq (hmerged : filter.rangeTo ≤ filter.mergedTo) {msg : MemoryMessage}
    (hpartition : group.partition.1 ≤ msg.payload ∧ msg.payload ≤ group.partition.2) :
    group.selects filter msg = filter.filter msg.merged msg.payload msg.maskPayload := by
  rw [selects]
  cases hneed : needFilter group.partition filter with
  | true => rfl
  | false =>
    rw [needFilter] at hneed
    simp only [Bool.or_eq_false_iff, decide_eq_false_iff_not, UInt16.not_lt, not_not] at hneed
    obtain ⟨⟨⟨⟨hfrom, hto⟩, -⟩, hmask⟩, hresult⟩ := hneed
    have hlow := UInt16.le_trans hfrom hpartition.1
    have hhigh := UInt16.le_trans hpartition.2 hto
    have hhigher := UInt16.le_trans hhigh hmerged
    simp [MessageFilter.filter, MessageFilter.rangeFilter, MessageFilter.rangeFilterForMerge,
      MessageFilter.maskFilter, hmask, hresult, hlow, hhigh, hhigher]

/-- A consumer that starts at most one behind the last message it can see gets, page after page, exactly the
messages that match from its start on, up to where it reads on; and it gets on as long as there is
something to see. -/
theorem paged_delivery (filter : MessageFilter) (readCommittedMsg : Option Bool) (start next : ℤ)
    (pushed delivered : List MemoryMessage) (group group' : MessageGroup) (first : MemoryMessage)
    (hreach : Reachable pushed group) (hfirst : group.messages.head? = some first)
    (hstart : start ≤ first.msgId + group.viewSize readCommittedMsg) (hmerged : filter.rangeTo ≤ filter.mergedTo)
    (hrun : PagedRun filter readCommittedMsg start group group' next delivered)
    (hpartition : ∀ msg ∈ group'.messages, group'.partition.1 ≤ msg.payload ∧ msg.payload ≤ group'.partition.2) :
    delivered = group'.messages.filter (fun msg =>
        filter.filter msg.merged msg.payload msg.maskPayload && decide (start ≤ msg.msgId)
          && decide (msg.msgId < next))
      ∧ ∀ (count maxTotalSize : ℤ) (memMode : Bool) (clock : ℤ), 1 ≤ count →
        (∃ msg ∈ group'.messages.take (group'.viewSize readCommittedMsg), next ≤ msg.msgId) →
        next < (group'.getMessage ⟨next, count, maxTotalSize, filter, readCommittedMsg⟩ memMode
          clock).1.nextMsgId := by
  have hpaged := Paged.run hfirst (groupInv_of_reachable hreach) hstart hrun
  obtain ⟨pushed', hinv⟩ := hpaged.inv
  constructor
  · have hbelow := filter_below hinv.chain_messages (fun msg => group'.selects filter msg
      && decide (start ≤ msg.msgId)) hpaged.head?_eq hpaged.le_length next rfl
    rw [hpaged.delivered_eq, ← hbelow]
    apply filter_congr
    intro msg hmem
    rw [selects_eq hmerged (hpartition msg hmem)]
  · rintro count maxTotalSize memMode clock hcount ⟨msg, hmem, hle⟩
    obtain ⟨n, next', -, -, -, hadvance, heq, -⟩ := hpaged.getMessage_stretch count maxTotalSize memMode clock hcount
    obtain ⟨i, hi, rfl⟩ := getElem_of_mem hmem
    rw [length_take] at hi
    have hhead := hpaged.head?_eq
    rw [head?_eq_getElem?, getElem?_eq_getElem (by omega), some_inj] at hhead
    rw [getElem_take, msgId_getElem hinv.chain_messages (by omega), hhead] at hle
    rw [heq]
    exact (hadvance (by omega)).resolve_right (by omega)

/-- A group that starts with two messages. -/
def twoMessages : MessageGroup :=
  ⟨(0, 65535), true, ⟨0⟩, MessageDeque.setCommittedMsgId (recover
    [plainMessage 0 10, plainMessage 1 10]
    ((MessageDeque.empty 4).reserve 1 2).2) 1⟩

lemma reachable_twoMessages :
    Reachable [plainMessage 0 10, plainMessage 1 10] twoMessages := by
  have hchain : IsChain Next [plainMessage 0 10, plainMessage 1 10] :=
    isChain_pair.mpr ⟨by decide, by decide⟩
  have hinit : init (0, 65535) true 0 4 1
      [plainMessage 0 10, plainMessage 1 10] = some twoMessages := rfl
  exact .mk (by decide) hchain (by decide) hinit .nil

/-- A request for all hash ids. -/
def wholeFilter : MessageFilter := ⟨0, 65535, 65535, 0, 0⟩

/-- The first page of one message. -/
theorem twoMessages_page : (twoMessages.getMessage ⟨0, 1, 100, wholeFilter, none⟩ true 5).1.msgs
      = twoMessages.messages.filter (fun msg =>
        wholeFilter.filter msg.merged msg.payload msg.maskPayload && decide (0 ≤ msg.msgId)
          && decide (msg.msgId < 1)) :=
  (paged_delivery wholeFilter none 0 1 [plainMessage 0 10, plainMessage 1 10] _
    twoMessages _ (plainMessage 0 10) reachable_twoMessages rfl (by decide) (by decide)
    (.getMessage 1 100 true 5 .start (by decide)) (by decide)).1

/-- A group of the partition, with one message, gives it to a consumer whose filter does not match it. -/
def GivesUnmatched (partition : UInt16 × UInt16) (filter : MessageFilter) (msg : MemoryMessage) : Prop :=
  ∃ group, init partition true 0 4 1 [msg] = some group
    ∧ (group.getMessage ⟨0, 1, 100, filter, none⟩ true 5).1.msgs = [msg]
    ∧ filter.filter msg.merged msg.payload msg.maskPayload = false

/-- A consumer asks for messages from 10 on when the last one is 1: it is sent back, and then gets the
message 2 that comes next.  One that has read a message not committed yet and goes on with committed ones is
sent back to it.  A filter for all of the partition is not looked at: a message with a hash id of another
partition gets through, and so does a merged one behind `mergedTo`. -/
theorem paged_delivery_rewinds :
    Reachable [plainMessage 0 10, plainMessage 1 10] twoMessages
      ∧ (∃ group next delivered, PagedRun wholeFilter none 10 twoMessages group next delivered
        ∧ next = 3 ∧ delivered.map MemoryMessage.msgId = [2])
      ∧ (∃ group next delivered, PagedRun wholeFilter (some false) 0 twoMessages group next delivered
        ∧ next = 3 ∧ delivered.map MemoryMessage.msgId = [0, 1, 2]
        ∧ (group.getMessage ⟨3, 1, 100, wholeFilter, some true⟩ true 5).1.nextMsgId = 2)
      ∧ GivesUnmatched (5, 10) ⟨5, 10, 10, 0, 0⟩ (plainMessage 0 10)
      ∧ GivesUnmatched (0, 65535) ⟨0, 65535, 6, 0, 0⟩ { plainMessage 0 10 with payload := 7, merged := true } := by
  have hadd : ∀ readCommittedMsg start {next delivered group},
      PagedRun wholeFilter readCommittedMsg start twoMessages group next delivered →
      PagedRun wholeFilter readCommittedMsg start twoMessages
        (group.addMessage false 5 [⟨plainMessage 0 10, 0, true, 5, 5⟩]).2 next delivered :=
    fun _ _ _ _ _ hrun => .addMessage _ _ _ hrun fun h => absurd h (by decide)
  refine ⟨reachable_twoMessages, ⟨_, _, _, .getMessage 1 100 true 5 (hadd none 10
      (.getMessage 1 100 true 5 .start (by decide))) (by decide), by decide, by decide⟩,
    ⟨_, _, _, .getMessage 3 100 true 5 (hadd (some false) 0 .start) (by decide), by decide, by decide, by decide⟩,
    ⟨_, rfl, by decide, by decide⟩, ⟨_, rfl, by decide, by decide⟩⟩

end

end Havenask.Swift.MessageGroup
