import Havenask.Swift.ResumeTimestamp

/-!
# Commit ids of a partition

`swift/broker/storage/CommitManager.cpp`: consumers of a partition report with their reads up to which
timestamp they have consumed their range of payloads. The manager turns each report into a message id,
moves ranges that have no message in between up to the farthest one, and answers with the smallest id.

* **`findMessageId_spec`**: no message up to the id that is found for a timestamp is later than it.
* **`Consumed`**: what an entry promises, that each message of its range up to its id was reported.
* **`getCommitId_consumed`**: the id that is answered acknowledges consumed messages only.
-/

namespace Havenask.Swift

open List MessageGroup MessageDeque

open MessageGroup (GroupInv Next)

/-- The range of payloads of a consumer, with both ends. -/
abbrev PayloadRange := UInt16 × UInt16

def PayloadRange.Has (range : PayloadRange) (payload : UInt16) : Prop := range.1 ≤ payload ∧ payload ≤ range.2

instance (range : PayloadRange) (payload : UInt16) : Decidable (range.Has payload) :=
  inferInstanceAs (Decidable (_ ∧ _))

namespace MessageGroup

variable (group : MessageGroup)

/-- The messages that `createView(_readNotCommittedMsg)` shows. -/
def ownView : List MemoryMessage := group.view (group.viewSize none)

/-- `findMessageId`; the lower bound by timestamp is the first message that is not earlier. -/
def findMessageId (msgTime : ℤ) : ℤ :=
  match group.ownView.getLast? with
  | none => -1
  | some last =>
    match group.ownView.find? fun msg => msgTime ≤ msg.timestamp with
    | none => last.msgId
    | some msg => if msg.timestamp = msgTime then msg.msgId else msg.msgId - 1

def hasMsgInRange (range : PayloadRange) (begId endId : ℤ) : Bool :=
  match group.ownView.head? with
  | none => false
  | some oldest =>
    let begPos := (begId - oldest.msgId).toNat
    let endPos := endId - oldest.msgId
    ((group.ownView.drop begPos).take (endPos + 1 - begPos).toNat).any fun msg => range.Has msg.payload

end MessageGroup

structure CommitInfo where
  commitTimestamp : ℤ
  lastAccessTimestamp : ℤ
  commitMsgId : ℤ
deriving DecidableEq

/-- `_rangeInfo`, a map that is ordered by range. -/
abbrev RangeInfo := List (PayloadRange × CommitInfo)

/-- `info = _rangeInfo[range]` and a change of `info`; a new entry starts with `initial`. -/
def RangeInfo.alter (range : PayloadRange) (initial : CommitInfo) (f : CommitInfo → CommitInfo) :
    RangeInfo → RangeInfo
  | [] => [(range, f initial)]
  | (key, info) :: rest =>
    if key = range then (key, f info) :: rest
    else if range.1 < key.1 ∨ range.1 = key.1 ∧ range.2 < key.2 then
      (range, f initial) :: (key, info) :: rest
    else (key, info) :: RangeInfo.alter range initial f rest

/-- The part of a `ConsumptionRequest` that the manager reads. -/
structure CommitRequest where
  filter : Option (UInt32 × UInt32)
  committedCheckpoint : Option ℤ

structure CommitManager where
  partitionRange : PayloadRange
  rangeInfo : RangeInfo
  startTime : ℤ

namespace CommitManager

def init (partitionRange : PayloadRange) (startTime : ℤ) : CommitManager := ⟨partitionRange, [], startTime⟩

section
variable (manager : CommitManager)

def getCoverRange (lo hi : UInt16) : PayloadRange :=
  (if manager.partitionRange.1 < lo then lo else manager.partitionRange.1,
    if manager.partitionRange.2 < hi then manager.partitionRange.2 else hi)

def requestRange (request : CommitRequest) : PayloadRange :=
  match request.filter with
  | none => manager.partitionRange
  | some (lo, hi) => manager.getCoverRange lo.toUInt16 hi.toUInt16

def farther (best : ℤ × ℤ) (entry : PayloadRange × CommitInfo) : ℤ × ℤ :=
  if best.1 < entry.2.commitMsgId then (entry.2.commitMsgId, entry.2.commitTimestamp) else best

/-- The largest message id of the entries, with the timestamp that goes with it. -/
def farthest (rangeInfo : RangeInfo) : ℤ × ℤ := rangeInfo.foldl farther (-1, -1)

variable (group : MessageGroup)

def alignCommitId : CommitManager :=
  let (maxMsgId, maxTimestamp) := farthest manager.rangeInfo
  { manager with
    rangeInfo := manager.rangeInfo.map fun (range, info) =>
      if group.hasMsgInRange range info.commitMsgId maxMsgId then (range, info)
      else (range, { info with commitTimestamp := maxTimestamp, commitMsgId := maxMsgId }) }

/-- Whether a request moves the commit timestamp of its range on. -/
def advances (request : CommitRequest) (info : CommitInfo) : Bool :=
  match request.committedCheckpoint with
  | none => false
  | some checkpoint => info.commitTimestamp < checkpoint

def updateInfo (request : CommitRequest) (needUpdateMsgId : Bool) (clock : ℤ)
    (info : CommitInfo) : CommitInfo :=
  let info := { info with lastAccessTimestamp := clock }
  match request.committedCheckpoint with
  | none => info
  | some checkpoint =>
    if info.commitTimestamp < checkpoint then
      { info with
        commitTimestamp := checkpoint
        commitMsgId := if needUpdateMsgId then group.findMessageId checkpoint else info.commitMsgId }
    else info

def updateCommit (request : CommitRequest)
    (needUpdateMsgId : Bool) (clock : ℤ) : CommitManager :=
  let range := manager.requestRange request
  let initial : CommitInfo := ⟨-1, clock, -1⟩
  let info := (manager.rangeInfo.lookup range).getD initial
  let updated : CommitManager :=
    { manager with
      rangeInfo := manager.rangeInfo.alter range initial (updateInfo group request needUpdateMsgId clock) }
  if advances request info && range ≠ manager.partitionRange && needUpdateMsgId then
    updated.alignCommitId group
  else updated

/-- The loop of `getCommitIdAndAccessTime`: the entries that follow one another from `start` on, where they
end, and whether the map is cleared because two of them overlap. -/
def coverLoop : RangeInfo → ℕ → List CommitInfo × ℕ × Bool
  | [], start => ([], start, false)
  | (range, info) :: rest, start =>
    if range.1.toNat = start then
      let (infoVec, stop, clears) := coverLoop rest (range.2.toNat + 1)
      (info :: infoVec, stop, clears)
    else ([], start, range.1.toNat < start)

def takeMin (best : ℤ × ℤ × ℤ) (info : CommitInfo) : ℤ × ℤ × ℤ :=
  (min best.1 info.commitMsgId, min best.2.1 info.lastAccessTimestamp, min best.2.2 info.commitTimestamp)

/-- The committed id, the access time and the committed time that are answered. -/
def getCommitIdAndAccessTime : (ℤ × ℤ × ℤ) × CommitManager :=
  let (infoVec, stop, clears) := coverLoop manager.rangeInfo manager.partitionRange.1.toNat
  let (committedId, accessTime, committedTime) :=
    match infoVec with
    | [] => (-1, -1, -1)
    | info :: rest =>
      if stop = manager.partitionRange.2.toNat + 1 then
        rest.foldl takeMin (info.commitMsgId, info.lastAccessTimestamp, info.commitTimestamp)
      else (-1, -1, -1)
  ((committedId, if accessTime = -1 then manager.startTime else accessTime, committedTime),
    if clears then { manager with rangeInfo := [] } else manager)

/-! ## Runs -/

/-- What a request reports: that its range is consumed up to a timestamp. -/
def reports (request : CommitRequest) : List (PayloadRange × ℤ) :=
  match request.committedCheckpoint with
  | none => []
  | some checkpoint => [(manager.requestRange request, checkpoint)]

end

/-- Messages are added, committed and read, but none is recycled. -/
def KeepsMessages : MessageGroup.Event → Prop
  | .recycle _ => False
  | .tryRecycleFast _ => False
  | _ => True

/-- A message group and its commit manager, from the start of the partition on, with all messages that came
in and all that was reported. -/
inductive Run : List MemoryMessage → List (PayloadRange × ℤ) → MessageGroup → CommitManager → Prop
  | init {partition : UInt16 × UInt16} {readNotCommittedMsg : Bool} {startTime : ℤ} {countInBlock granted : ℕ}
      {recovered : List MemoryMessage} {group : MessageGroup} :
      0 < countInBlock → recovered.IsChain Next → (∀ msg ∈ recovered, 0 ≤ msg.msgId) →
      MessageGroup.init partition readNotCommittedMsg startTime countInBlock granted recovered = some group →
      Run recovered [] group (.init partition startTime)
  | group {pushed : List MemoryMessage} {reported : List (PayloadRange × ℤ)} {group : MessageGroup}
      {manager : CommitManager} (event : MessageGroup.Event) :
      Run pushed reported group manager → group.Allowed event → KeepsMessages event →
      Run (pushed ++ group.accepted event) reported (group.apply event) manager
  | updateCommit {pushed : List MemoryMessage} {reported : List (PayloadRange × ℤ)} {group : MessageGroup}
      {manager : CommitManager} (request : CommitRequest) (needUpdateMsgId : Bool) (clock : ℤ) :
      Run pushed reported group manager →
      Run pushed (reported ++ manager.reports request) group
        (manager.updateCommit group request needUpdateMsgId clock)
  | getCommitIdAndAccessTime {pushed : List MemoryMessage} {reported : List (PayloadRange × ℤ)}
      {group : MessageGroup} {manager : CommitManager} :
      Run pushed reported group manager → Run pushed reported group manager.getCommitIdAndAccessTime.2

end CommitManager

/-! ## Looking messages up -/

variable {msg : MemoryMessage}

namespace MessageGroup

variable {pushed : List MemoryMessage} {group : MessageGroup}

section
variable (h : GroupInv pushed group)
include h

lemma ownView_eq : group.ownView = group.messages.take (group.viewSize none) := view_eq h (viewSize_le h none)

lemma chain_ownView : group.ownView.IsChain Next := by
  rw [ownView_eq h]
  exact h.chain_messages.take _

lemma mem_ownView_of_le {msg' : MemoryMessage} (hmem : msg ∈ group.messages)
    (hmem' : msg' ∈ group.ownView) (hle : msg.msgId ≤ msg'.msgId) : msg ∈ group.ownView := by
  rw [ownView_eq h] at hmem' ⊢
  obtain ⟨i, hi, rfl⟩ := getElem_of_mem hmem
  obtain ⟨j, hj, rfl⟩ := getElem_of_mem hmem'
  rw [length_take] at hj
  have hj' : j < group.messages.length := by omega
  rw [getElem_take, msgId_getElem h.chain_messages hi, msgId_getElem h.chain_messages hj'] at hle
  rw [mem_take_iff_getElem]
  exact ⟨i, by omega, rfl⟩

/-- Each message up to the id that is found for a timestamp is shown, and is not later than it. -/
lemma findMessageId_spec (hheld : group.messages = pushed) (msgTime : ℤ) (hmem : msg ∈ pushed) (hle : msg.msgId ≤ group.findMessageId msgTime) :
    msg ∈ group.ownView ∧ msg.timestamp ≤ msgTime := by
  have hnonneg := h.accounted.nonneg msg hmem
  rw [findMessageId] at hle
  cases hlast : group.ownView.getLast? with
  | none =>
    rw [hlast] at hle
    dsimp only at hle
    omega
  | some last =>
    rw [hlast] at hle
    cases hfind : group.ownView.find? fun msg => msgTime ≤ msg.timestamp with
    | none =>
      rw [hfind] at hle
      have hview := mem_ownView_of_le h (hheld ▸ hmem) (mem_of_getLast? hlast) hle
      have hearly := find?_eq_none.mp hfind msg hview
      rw [decide_eq_true_eq, not_le] at hearly
      exact ⟨hview, hearly.le⟩
    | some found =>
      rw [hfind] at hle
      dsimp only at hle
      have hfound := mem_of_find?_eq_some hfind
      split at hle
      · rename_i heq
        have hview := mem_ownView_of_le h (hheld ▸ hmem) hfound hle
        exact ⟨hview, heq ▸ timestamp_le_of_msgId_le (chain_ownView h) hview hfound hle⟩
      -- the message comes before the one that is found, so it was passed by the search
      have hview := mem_ownView_of_le h (hheld ▸ hmem) hfound (by omega)
      obtain ⟨-, before, after, heq, hbefore⟩ := find?_eq_some_iff_append.mp hfind
      have hsorted := pairwise_of_chain (chain_ownView h)
      refine ⟨hview, ?_⟩
      rw [heq] at hview hsorted
      rcases mem_append.mp hview with hin | hin
      · have := hbefore msg hin
        simp only [Bool.not_eq_true', decide_eq_false_iff_not, not_le] at this
        exact this.le
      rcases mem_cons.mp hin with rfl | hin
      · omega
      · have := rel_of_pairwise_cons (pairwise_append.mp hsorted).2.1 hin
        omega

lemma neg_one_le_lastId : -1 ≤ lastId pushed := by
  rw [lastId]
  cases hlast : pushed.getLast? with
  | none => exact le_rfl
  | some last => exact (by omega : (-1 : ℤ) ≤ 0).trans (h.accounted.nonneg last (mem_of_getLast? hlast))

lemma findMessageId_le (msgTime : ℤ) : group.findMessageId msgTime ≤ lastId pushed := by
  have hview : ∀ msg ∈ group.ownView, msg.msgId ≤ lastId pushed := by
    intro msg hmem
    rw [ownView_eq h] at hmem
    obtain ⟨recycled, heq, -⟩ := h.accounted.suffix
    have hin : msg ∈ pushed := by
      rw [heq]
      exact mem_append_right _ (mem_of_mem_take hmem)
    exact le_lastId h.accounted.increasing msg hin
  rw [findMessageId]
  split
  · exact neg_one_le_lastId h
  rename_i last hlast
  split
  · exact hview last (mem_of_getLast? hlast)
  rename_i msg hfind
  have := hview msg (mem_of_find?_eq_some hfind)
  split <;> omega

/-- Where a range has no message between two ids, none that is shown is in it. -/
lemma not_has_of_hasMsgInRange {range : PayloadRange} {begId endId : ℤ}
    (hnone : group.hasMsgInRange range begId endId = false)
    (hmem : msg ∈ group.ownView) (hbeg : begId ≤ msg.msgId) (hend : msg.msgId ≤ endId) : ¬ range.Has msg.payload := by
  obtain ⟨i, hi, rfl⟩ := getElem_of_mem hmem
  have hid := msgId_getElem (chain_ownView h) hi
  have hhead : group.ownView.head? = some group.ownView[0] := by
    rw [head?_eq_getElem?, getElem?_eq_getElem (by omega)]
  rw [hasMsgInRange, hhead] at hnone
  rw [any_eq_false] at hnone
  have hpos := hnone group.ownView[i] (by
    rw [mem_take_iff_getElem]
    refine ⟨i - (begId - group.ownView[0].msgId).toNat, ?_, ?_⟩
    · rw [length_drop]
      omega
    rw [getElem_drop]
    congr 1
    omega)
  simpa using hpos

end

end MessageGroup

namespace CommitManager

variable {pushed : List MemoryMessage} {reported reported' : List (PayloadRange × ℤ)} {group : MessageGroup}
  {manager : CommitManager} {range : PayloadRange} {msgId : ℤ}

/-! ## What an entry promises -/

/-- Each message of a range up to an id has been reported as consumed. -/
def Consumed (pushed : List MemoryMessage) (reported : List (PayloadRange × ℤ)) (range : PayloadRange)
    (msgId : ℤ) : Prop :=
  ∀ msg ∈ pushed, range.Has msg.payload → msg.msgId ≤ msgId →
    ∃ checkpoint, (range, checkpoint) ∈ reported ∧ msg.timestamp ≤ checkpoint

lemma Consumed.mono (h : Consumed pushed reported range msgId) (hsub : reported ⊆ reported') :
    Consumed pushed reported' range msgId := by
  intro msg hmem hhas hle
  obtain ⟨checkpoint, hreported, htime⟩ := h msg hmem hhas hle
  exact ⟨checkpoint, hsub hreported, htime⟩

/-- An entry of the manager is consumed up to its id, and everything up to its id is shown. -/
structure Sound (pushed : List MemoryMessage) (reported : List (PayloadRange × ℤ)) (group : MessageGroup)
    (range : PayloadRange) (msgId : ℤ) : Prop where
  consumed : Consumed pushed reported range msgId
  shown : ∀ msg ∈ pushed, msg.msgId ≤ msgId → msg ∈ group.ownView
  le_lastId : msgId ≤ MessageDeque.lastId pushed

lemma Sound.mono (h : Sound pushed reported group range msgId) (hsub : reported ⊆ reported') :
    Sound pushed reported' group range msgId :=
  ⟨h.consumed.mono hsub, h.shown, h.le_lastId⟩

/-- No range is ahead of what was reported for it, and every message is held. -/
structure ManagerInv (pushed : List MemoryMessage) (reported : List (PayloadRange × ℤ)) (group : MessageGroup)
    (manager : CommitManager) : Prop where
  inv : GroupInv pushed group
  held : group.messages = pushed
  sound : ∀ entry ∈ manager.rangeInfo, Sound pushed reported group entry.1 entry.2.commitMsgId

/-- Where nothing has been committed there is nothing to keep. -/
lemma sound_neg_one (h : GroupInv pushed group) : Sound pushed reported group range (-1) := by
  refine ⟨?_, ?_, neg_one_le_lastId h⟩
  · intro msg hmem _ hle
    have := h.accounted.nonneg msg hmem
    omega
  intro msg hmem hle
  have := h.accounted.nonneg msg hmem
  omega

/-! ## One report -/

lemma mem_alter {initial : CommitInfo} {f : CommitInfo → CommitInfo} {rangeInfo : RangeInfo}
    {entry : PayloadRange × CommitInfo} (hmem : entry ∈ rangeInfo.alter range initial f) :
    entry ∈ rangeInfo ∨ entry = (range, f initial)
    ∨ ∃ info, (range, info) ∈ rangeInfo ∧ entry = (range, f info) := by
  induction rangeInfo with
  | nil => exact .inr (.inl (mem_singleton.mp hmem))
  | cons first rest ih =>
    obtain ⟨key, info⟩ := first
    rw [RangeInfo.alter] at hmem
    split at hmem
    · rename_i hkey
      rcases mem_cons.mp hmem with rfl | hrest
      · exact .inr (.inr ⟨info, by rw [hkey]; exact mem_cons_self, by rw [hkey]⟩)
      · exact .inl (mem_cons_of_mem _ hrest)
    split at hmem
    · rcases mem_cons.mp hmem with rfl | hrest
      · exact .inr (.inl rfl)
      · exact .inl hrest
    rcases mem_cons.mp hmem with rfl | hrest
    · exact .inl mem_cons_self
    rcases ih hrest with hin | hnew | ⟨info', hin, heq⟩
    · exact .inl (mem_cons_of_mem _ hin)
    · exact .inr (.inl hnew)
    · exact .inr (.inr ⟨info', mem_cons_of_mem _ hin, heq⟩)

section
variable (h : ManagerInv pushed reported group manager)
include h

/-- A report gives its range an id that it accounts for. -/
lemma sound_updateInfo (request : CommitRequest)
    (needUpdateMsgId : Bool) (clock : ℤ) {info : CommitInfo}
    (hsound : Sound pushed reported group (manager.requestRange request) info.commitMsgId) :
    Sound pushed (reported ++ manager.reports request) group (manager.requestRange request)
      (updateInfo group request needUpdateMsgId clock info).commitMsgId := by
  have hkeep := hsound.mono (subset_append_left reported (manager.reports request))
  rw [updateInfo]
  cases hcheckpoint : request.committedCheckpoint with
  | none => exact hkeep
  | some checkpoint =>
    dsimp only
    split
    · cases needUpdateMsgId with
      | false => exact hkeep
      | true =>
        refine ⟨?_, ?_, findMessageId_le h.inv checkpoint⟩
        · intro msg hmem _ hle
          have hreport : (manager.requestRange request, checkpoint) ∈ manager.reports request := by
            rw [reports, hcheckpoint]
            exact mem_singleton_self _
          exact ⟨checkpoint, mem_append_right _ hreport, (findMessageId_spec h.inv h.held checkpoint hmem hle).2⟩
        · intro msg hmem hle
          exact (findMessageId_spec h.inv h.held checkpoint hmem hle).1
    · exact hkeep

/-! ## Alignment -/

omit h in
/-- The farthest id is one of the entries', or there is none beyond the start. -/
lemma foldl_farther_cases (rangeInfo : RangeInfo) : ∀ best : ℤ × ℤ, (rangeInfo.foldl farther best).1 = best.1
    ∨ ∃ entry ∈ rangeInfo, entry.2.commitMsgId = (rangeInfo.foldl farther best).1 := by
  induction rangeInfo with
  | nil => exact fun best => .inl rfl
  | cons entry rest ih =>
    intro best
    rw [foldl_cons]
    rcases ih (farther best entry) with hsame | ⟨entry', hmem, heq⟩
    · rw [hsame, farther]
      split
      · exact .inr ⟨entry, mem_cons_self, rfl⟩
      · exact .inl rfl
    · exact .inr ⟨entry', mem_cons_of_mem _ hmem, heq⟩

lemma ManagerInv.alignCommitId :
    ManagerInv pushed reported group (manager.alignCommitId group) := by
  refine ⟨h.inv, h.held, ?_⟩
  obtain ⟨range', hfar⟩ : ∃ range, Sound pushed reported group range (farthest manager.rangeInfo).1 := by
    rw [farthest]
    rcases foldl_farther_cases manager.rangeInfo (-1, -1) with heq | ⟨entry, hmem, heq⟩
    · exact ⟨(0, 0), heq ▸ sound_neg_one h.inv⟩
    · exact ⟨entry.1, heq ▸ h.sound entry hmem⟩
  intro entry hmem
  obtain ⟨⟨range, info⟩, hin, heq⟩ := mem_map.mp hmem
  have hold := h.sound (range, info) hin
  dsimp only at heq
  split at heq
  · exact heq ▸ hold
  rename_i hnone
  rw [Bool.not_eq_true] at hnone
  subst heq
  refine ⟨?_, hfar.shown, hfar.le_lastId⟩
  intro msg hpushed hhas hmsg
  -- a message behind the old id would have been seen by the scan
  by_cases hbefore : msg.msgId ≤ info.commitMsgId
  · exact hold.consumed msg hpushed hhas hbefore
  · exact absurd hhas (not_has_of_hasMsgInRange h.inv hnone (hfar.shown msg hpushed hmsg) (by omega) hmsg)

lemma ManagerInv.updateCommit (request : CommitRequest)
    (needUpdateMsgId : Bool) (clock : ℤ) : ManagerInv pushed (reported ++ manager.reports request) group
      (manager.updateCommit group request needUpdateMsgId clock) := by
  rw [CommitManager.updateCommit]
  generalize hupdated : ({ manager with rangeInfo := _ } : CommitManager) = updated
  have hinv : ManagerInv pushed (reported ++ manager.reports request) group updated := by
    subst hupdated
    refine ⟨h.inv, h.held, ?_⟩
    intro entry hmem
    rcases mem_alter hmem with hin | rfl | ⟨info, hin, rfl⟩
    · exact (h.sound entry hin).mono (subset_append_left _ _)
    · exact sound_updateInfo h request needUpdateMsgId clock (sound_neg_one h.inv)
    · exact sound_updateInfo h request needUpdateMsgId clock (h.sound _ hin)
  split
  · exact hinv.alignCommitId
  · exact hinv

/-! ## Events of the group -/

omit h in
/-- A message that comes in has an id behind the others. -/
lemma lastId_lt_of_mem {added : List MemoryMessage} (h : (pushed ++ added).IsChain Next)
    (hnonneg : ∀ msg ∈ pushed ++ added, 0 ≤ msg.msgId) (hmem : msg ∈ added) : lastId pushed < msg.msgId := by
  rw [lastId]
  cases hlast : pushed.getLast? with
  | none => exact (by omega : (-1 : ℤ) < 0).trans_le (hnonneg msg (mem_append_right _ hmem))
  | some last =>
    exact ((pairwise_append.mp (pairwise_of_chain h)).2.2 last (mem_of_getLast? hlast) msg hmem).1

omit h in
/-- Without recycling all messages are still held after an event, and the view shows what it showed. -/
lemma keeps_apply {event : Event} (h : GroupInv pushed group) (hheld : group.messages = pushed)
    (hallowed : group.Allowed event) (hkeeps : KeepsMessages event) :
    (group.apply event).messages = pushed ++ group.accepted event
    ∧ group.viewSize none ≤ (group.apply event).viewSize none := by
  cases event with
  | addMessage replicationMode clock request =>
    obtain ⟨hadds, -⟩ := addMessage_spec h replicationMode clock request hallowed
    exact ⟨hheld ▸ hadds.messages_eq, h.viewSize_le_of_adds hadds none⟩
  | setCommittedId msgId =>
    change group.messages = pushed ++ [] ∧ _
    rw [append_nil]
    exact ⟨hheld, h.viewSize_le_setCommittedId hallowed none⟩
  | recycle p => exact hkeeps.elim
  | tryRecycleFast percent => exact hkeeps.elim
  | updateStealDataLen dataLen =>
    change group.messages = pushed ++ [] ∧ _
    rw [append_nil]
    exact ⟨hheld, le_rfl⟩
  | getMessage request memMode clock =>
    obtain ⟨allocator, heq, -⟩ := group.getMessage_snd request memMode clock
    change (group.getMessage request memMode clock).2.messages = pushed ++ []
      ∧ _ ≤ (group.getMessage request memMode clock).2.viewSize none
    rw [append_nil, heq]
    exact ⟨hheld, le_rfl⟩

lemma ManagerInv.group_apply {event : Event}
    (hallowed : group.Allowed event) (hkeeps : KeepsMessages event) :
    ManagerInv (pushed ++ group.accepted event) reported (group.apply event) manager := by
  obtain ⟨hheld, hsize⟩ := keeps_apply h.inv h.held hallowed hkeeps
  have hinv := h.inv.apply hallowed
  have hview : group.ownView ⊆ (group.apply event).ownView := by
    rw [ownView_eq h.inv, ownView_eq hinv, hheld, h.held]
    intro msg hmem
    rw [mem_take_iff_getElem] at hmem ⊢
    obtain ⟨i, hi, rfl⟩ := hmem
    refine ⟨i, by rw [length_append]; omega, ?_⟩
    rw [getElem_append_left]
  refine ⟨hinv, hheld, ?_⟩
  intro entry hmem
  have hold := h.sound entry hmem
  -- what came in lies behind the id of the entry
  have hnew : ∀ msg ∈ pushed ++ group.accepted event, msg.msgId ≤ entry.2.commitMsgId → msg ∈ pushed := by
    intro msg hin hle
    rcases mem_append.mp hin with hin | hin
    · exact hin
    have := lastId_lt_of_mem hinv.chain hinv.accounted.nonneg hin
    have := hold.le_lastId
    omega
  refine ⟨?_, ?_, ?_⟩
  · intro msg hin hhas hle
    exact hold.consumed msg (hnew msg hin hle) hhas hle
  · intro msg hin hle
    exact hview (hold.shown msg (hnew msg hin hle) hle)
  refine hold.le_lastId.trans ?_
  cases hlast : pushed.getLast? with
  | none =>
    rw [lastId, hlast]
    exact neg_one_le_lastId hinv
  | some last =>
    rw [lastId, hlast]
    exact le_lastId hinv.accounted.increasing last (mem_append_left _ (mem_of_getLast? hlast))

end

lemma messages_recover (msgs : List MemoryMessage) : ∀ (deque : MessageDeque), deque.msgQueue.WellFormed →
    msgs.length ≤ deque.msgQueue.remainCount → (recover msgs deque).messages = deque.messages ++ msgs := by
  induction msgs with
  | nil => exact fun _ _ _ => (append_nil _).symm
  | cons msg msgs ih =>
    intro deque hwf hroom
    rw [length_cons] at hroom
    obtain ⟨hwf', hcontents⟩ := hwf.pushBack (by omega) msg
    have hrest := ih (deque.pushBack msg) hwf' (by
      change msgs.length ≤ deque.msgQueue.remainCount - 1
      omega)
    change (recover msgs (deque.pushBack msg)).messages = _
    rw [hrest, append_cons]
    congr 1

lemma messages_init {partition : UInt16 × UInt16} {readNotCommittedMsg : Bool} {startTime : ℤ}
    {countInBlock granted : ℕ} {recovered : List MemoryMessage} (hpos : 0 < countInBlock)
    (hinit : MessageGroup.init partition readNotCommittedMsg startTime countInBlock granted recovered
    = some group) : group.messages = recovered := by
  obtain ⟨hwf, hcontents, hroom⟩ := (MessageQueue.wellFormed_empty (T := MemoryMessage) hpos).reserve granted
    recovered.length
  have hempty : ((empty countInBlock).reserve granted recovered.length).2.messages = [] :=
    hcontents.trans (MessageQueue.contents_empty countInBlock)
  have hrecover := messages_recover recovered
    ((empty countInBlock).reserve granted recovered.length).2 hwf
  rw [MessageGroup.init] at hinit
  have hroom' : ((empty countInBlock).reserve granted recovered.length).1 = true →
      recovered.length
        ≤ ((empty countInBlock).reserve granted recovered.length).2.msgQueue.remainCount := hroom
  rcases hresult : (empty countInBlock).reserve granted recovered.length with ⟨_ | _, deque⟩
  · rw [hresult] at hinit
    cases hinit
  rw [hresult] at hinit hempty hrecover hroom'
  obtain rfl := Option.some.inj hinit
  have hmessages : (recover recovered deque).messages = recovered := by
    rw [hrecover (hroom' rfl), hempty, nil_append]
  cases recovered.getLast? <;> exact hmessages

lemma managerInv_of_run (h : Run pushed reported group manager) : ManagerInv pushed reported group manager := by
  induction h with
  | init hpos hchain hnonneg hinit =>
    have hinv := groupInv_init hpos hchain hnonneg hinit
    exact ⟨hinv, messages_init hpos hinit, fun entry hmem => absurd hmem not_mem_nil⟩
  | group event _ hallowed hkeeps ih => exact ih.group_apply hallowed hkeeps
  | updateCommit request needUpdateMsgId clock _ ih => exact ih.updateCommit request needUpdateMsgId clock
  | getCommitIdAndAccessTime _ ih =>
    refine ⟨ih.inv, ih.held, ?_⟩
    rw [CommitManager.getCommitIdAndAccessTime]
    dsimp only
    split
    · exact fun entry hmem => absurd hmem not_mem_nil
    · exact ih.sound

/-! ## The id that is answered -/

/-- Entries in a row cover the payloads from where the first starts to where the last ends. -/
lemma coverLoop_covers (rangeInfo : RangeInfo) : ∀ (start : ℕ) {payload : UInt16}, start ≤ payload.toNat →
    payload.toNat < (coverLoop rangeInfo start).2.1 →
      ∃ entry ∈ rangeInfo, entry.1.Has payload ∧ entry.2 ∈ (coverLoop rangeInfo start).1 := by
  induction rangeInfo with
  | nil =>
    intro start payload hstart hstop
    exact absurd hstop (not_lt.mpr hstart)
  | cons entry rest ih =>
    intro start payload hstart hstop
    obtain ⟨range, info⟩ := entry
    rw [coverLoop] at hstop ⊢
    split at hstop
    · rename_i hfrom
      rw [if_pos hfrom]
      by_cases hle : payload.toNat ≤ range.2.toNat
      · refine ⟨(range, info), mem_cons_self, ⟨?_, ?_⟩, mem_cons_self⟩
        · exact UInt16.le_iff_toNat_le.mpr (by dsimp only; omega)
        · exact UInt16.le_iff_toNat_le.mpr hle
      · obtain ⟨entry, hmem, hhas, hinfo⟩ := ih (range.2.toNat + 1) (by omega) hstop
        exact ⟨entry, mem_cons_of_mem _ hmem, hhas, mem_cons_of_mem _ hinfo⟩
    · dsimp only at hstop
      omega

lemma foldl_takeMin_le (infoVec : List CommitInfo) : ∀ best : ℤ × ℤ × ℤ, (infoVec.foldl takeMin best).1 ≤ best.1
    ∧ ∀ info ∈ infoVec, (infoVec.foldl takeMin best).1 ≤ info.commitMsgId := by
  induction infoVec with
  | nil => exact fun best => ⟨le_rfl, fun info hmem => absurd hmem not_mem_nil⟩
  | cons info rest ih =>
    intro best
    obtain ⟨hbest, hrest⟩ := ih (takeMin best info)
    refine ⟨hbest.trans (min_le_left _ _), ?_⟩
    intro info' hmem
    rcases mem_cons.mp hmem with rfl | hmem
    · exact hbest.trans (min_le_right _ _)
    · exact hrest info' hmem

/-- An id that is answered is not beyond that of any range, or no message has it. -/
lemma committedId_le (manager : CommitManager) : manager.getCommitIdAndAccessTime.1.1 = -1
    ∨ (coverLoop manager.rangeInfo manager.partitionRange.1.toNat).2.1 = manager.partitionRange.2.toNat + 1
      ∧ ∀ info ∈ (coverLoop manager.rangeInfo manager.partitionRange.1.toNat).1,
        manager.getCommitIdAndAccessTime.1.1 ≤ info.commitMsgId := by
  rw [CommitManager.getCommitIdAndAccessTime]
  rcases coverLoop manager.rangeInfo manager.partitionRange.1.toNat with ⟨infoVec, stop, clears⟩
  cases infoVec with
  | nil => exact .inl rfl
  | cons info rest =>
    dsimp only
    split
    · rename_i hstop
      refine .inr ⟨hstop, ?_⟩
      obtain ⟨hfirst, hrest⟩ := foldl_takeMin_le rest (info.commitMsgId, info.lastAccessTimestamp,
        info.commitTimestamp)
      intro info' hmem
      rcases mem_cons.mp hmem with rfl | hmem
      · exact hfirst
      · exact hrest info' hmem
    · exact .inl rfl

/-- Whatever consumers report, and whatever their ranges are: a message of the partition up to the id that
is answered lies in a range that was reported as consumed up to the message's time. -/
theorem getCommitId_consumed (pushed : List MemoryMessage) (reported : List (PayloadRange × ℤ))
    (group : MessageGroup) (manager : CommitManager) (h : Run pushed reported group manager)
    (msg : MemoryMessage) (hmem : msg ∈ pushed) (hpartition : manager.partitionRange.Has msg.payload)
    (hle : msg.msgId ≤ manager.getCommitIdAndAccessTime.1.1) :
    ∃ range checkpoint, (range, checkpoint) ∈ reported ∧ range.Has msg.payload
      ∧ msg.timestamp ≤ checkpoint := by
  have hinv := managerInv_of_run h
  rcases committedId_le manager with hnone | ⟨hstop, hmin⟩
  · have := hinv.inv.accounted.nonneg msg hmem
    omega
  have hlo := UInt16.le_iff_toNat_le.mp hpartition.1
  have hhi := UInt16.le_iff_toNat_le.mp hpartition.2
  obtain ⟨entry, hin, hhas, hinfo⟩ := coverLoop_covers manager.rangeInfo manager.partitionRange.1.toNat hlo (by omega)
  obtain ⟨checkpoint, hreported, htime⟩ := (hinv.sound entry hin).consumed msg hmem hhas (hle.trans (hmin _ hinfo))
  exact ⟨entry.1, checkpoint, hreported, hhas, htime⟩

/-- A consumer of the lower payloads has consumed both messages, one of the upper payloads has reported the
first timestamp only. -/
def twoConsumers : CommitManager :=
  ((init (0, 65535) 0).updateCommit MessageGroup.twoMessages ⟨some (0, 99), some 1⟩ true 5).updateCommit
    MessageGroup.twoMessages ⟨some (100, 65535), some 0⟩ true 6

lemma run_twoConsumers : Run [plainMessage 0 10, plainMessage 1 10]
    [((0, 99), 1), ((100, 65535), 0)] twoMessages twoConsumers := by
  have hchain : IsChain Next [plainMessage 0 10, plainMessage 1 10] :=
    isChain_pair.mpr ⟨by decide, by decide⟩
  have hinit : MessageGroup.init (0, 65535) true 0 4 1
      [plainMessage 0 10, plainMessage 1 10] = some twoMessages := rfl
  exact .updateCommit ⟨some (100, 65535), some 0⟩ true 6 (.updateCommit ⟨some (0, 99), some 1⟩ true 5
    (.init (by decide) hchain (by decide) hinit))

/-- The range of the second consumer has no message, so the id of the first one is answered. -/
theorem twoConsumers_consumed : twoConsumers.getCommitIdAndAccessTime.1.1 = 1
    ∧ ∃ (range : PayloadRange) (checkpoint : ℤ), (range, checkpoint) ∈ [((0, 99), 1), ((100, 65535), 0)]
        ∧ range.Has (MessageDeque.plainMessage 1 10).payload
        ∧ (MessageDeque.plainMessage 1 10).timestamp ≤ checkpoint :=
  ⟨by decide, getCommitId_consumed _ _ _ _ run_twoConsumers (plainMessage 1 10) (by decide) (by decide) (by decide)⟩

/-- A partition of the upper payloads holds a message of another one, as a writer that sends hash ids as
partition ids can bring it in.  The range that has reported nothing is moved forward, since it has no message,
and the message is answered as committed although no range has its payload. -/
theorem strayPayload_acknowledged :
    let stray : MemoryMessage := ⟨0, 5, 10, 1, 0, false, 1⟩
    ∃ group manager, Run [stray] [((32768, 49151), 7)] group manager
      ∧ manager.getCommitIdAndAccessTime.1.1 = 0
      ∧ ∀ report ∈ ([((32768, 49151), 7)] : List (PayloadRange × ℤ)), ¬ report.1.Has stray.payload := by
  intro stray
  let group : MessageGroup :=
    ⟨(32768, 65535), true, ⟨0⟩, (recover [stray] ((MessageDeque.empty 4).reserve 1 1).2).setCommittedMsgId 0⟩
  have hinit : MessageGroup.init (32768, 65535) true 0 4 1 [stray] = some group := rfl
  have hstart : Run [stray] [] group (.init (32768, 65535) 0) :=
    .init (by decide) (isChain_singleton _) (by decide) hinit
  exact ⟨group, _, .updateCommit ⟨some (32768, 49151), some 7⟩ true 6
    (.updateCommit ⟨some (49152, 65535), none⟩ true 5 hstart), by decide, by decide⟩

end CommitManager

end Havenask.Swift
