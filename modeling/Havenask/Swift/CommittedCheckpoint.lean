import Havenask.Swift.WriteBufferRun

/-!
# The committed checkpoint of a writer

`SingleSwiftWriter::getCommittedCheckpointId` reports one less than the first checkpoint that
`MessageWriteBuffer::latestCheckPointId` finds in the buffer: at the front of the queue for sending, else the
smallest one in merge, else at the front of the write queue.  That is right as long as messages keep their order,
which they do when all that is merged at a time goes into one vector.

* **`Lined.step`**: conversions of messages of one merge range keep the order.
* **`InOrder.apply`**: so all that is in the buffer stays in the order of the checkpoints.
* **`committedCheckpointId_safe`**: what is at most the reported checkpoint has been accepted.
-/

namespace Havenask.Swift

open List MessageWriteBuffer MsgMap

open Relation (ReflTransGen)

/-! ## The keys of the merge map -/

namespace MsgMap

/-- The keys grow. -/
def Sorted (msgMap : MsgMap) : Prop := msgMap.Pairwise fun entry entry' => entry.1.toNat < entry'.1.toNat

variable {hashId : UInt16} {vec : List QueuedMessage}

lemma mem_setAt {msgMap : MsgMap} {entry : UInt16 × List QueuedMessage}
    (hmem : entry ∈ setAt hashId vec msgMap) : entry = (hashId, vec) ∨ entry ∈ msgMap := by
  obtain ⟨before, after, hset, -, hbefore, hafter⟩ := setAt_split hashId msgMap
  rw [hset] at hmem
  rcases mem_append.mp hmem with hmem | hmem
  · exact .inr (hbefore entry hmem)
  rcases mem_cons.mp hmem with rfl | hmem
  · exact .inl rfl
  · exact .inr (hafter entry hmem)

lemma Sorted.setAt {msgMap : MsgMap} (h : msgMap.Sorted) (hashId : UInt16) (vec : List QueuedMessage) :
    (msgMap.setAt hashId vec).Sorted := by
  induction msgMap with
  | nil => exact pairwise_singleton _ _
  | cons entry rest ih =>
    obtain ⟨key, old⟩ := entry
    obtain ⟨hhead, hrest⟩ := pairwise_cons.mp h
    rw [MsgMap.setAt]
    split
    · rename_i hkey
      subst hkey
      exact pairwise_cons.mpr ⟨hhead, hrest⟩
    rename_i hkey
    split
    · rename_i hlt
      refine pairwise_cons.mpr ⟨?_, h⟩
      intro other hmem
      rcases mem_cons.mp hmem with rfl | hmem
      · exact hlt
      · exact Nat.lt_trans hlt (hhead other hmem)
    rename_i hlt
    refine pairwise_cons.mpr ⟨?_, ih hrest⟩
    intro other hmem
    rcases mem_setAt hmem with rfl | hmem
    · have hne : key.toNat ≠ hashId.toNat := fun heq => hkey (UInt16.toNat_inj.mp heq)
      dsimp only at hlt ⊢
      omega
    · exact hhead other hmem

lemma Sorted.replace {before after : MsgMap}
    (h : Sorted (before ++ (hashId, vec) :: after)) (vec' : List QueuedMessage) :
    Sorted (before ++ (hashId, vec') :: after) := by
  simp only [Sorted, pairwise_append, pairwise_cons, forall_mem_cons] at h ⊢
  exact h

/-- With all other vectors empty, the contents are one vector. -/
lemma contents_around {before after : MsgMap} (hsorted : Sorted (before ++ (hashId, vec) :: after))
    (honly : ∀ entry ∈ before ++ (hashId, vec) :: after, entry.1 ≠ hashId → entry.2 = []) :
    before.contents = [] ∧ after.contents = [] := by
  obtain ⟨-, hafter, hbefore⟩ := pairwise_append.mp hsorted
  constructor
  · refine contents_eq_nil fun entry hmem => honly entry (mem_append_left _ hmem) fun heq => ?_
    have hlt := hbefore entry hmem _ mem_cons_self
    rw [heq] at hlt
    exact lt_irrefl _ hlt
  · refine contents_eq_nil fun entry hmem => honly entry (mem_append_right _ (mem_cons_of_mem _ hmem)) fun heq => ?_
    have hlt := (pairwise_cons.mp hafter).1 entry hmem
    rw [heq] at hlt
    exact lt_irrefl _ hlt

/-- With all other vectors empty, the contents are those of one key, also after it is set. -/
lemma contents_setAt_of_only {msgMap : MsgMap} (hsorted : msgMap.Sorted)
    (honly : ∀ entry ∈ msgMap, entry.1 ≠ hashId → entry.2 = []) : msgMap.contents = msgMap.msgsAt hashId
    ∧ ∀ vec, (msgMap.setAt hashId vec).contents = vec
      ∧ ∀ entry ∈ msgMap.setAt hashId vec, entry.1 ≠ hashId → entry.2 = [] := by
  have honly' : ∀ vec, ∀ entry ∈ msgMap.setAt hashId vec, entry.1 ≠ hashId → entry.2 = [] := by
    intro vec entry hmem hne
    rcases mem_setAt hmem with rfl | hmem
    · exact absurd rfl hne
    · exact honly entry hmem hne
  obtain ⟨before, after, hset, hcontents, -⟩ := setAt_split hashId msgMap
  have hsorted' := hsorted.setAt hashId []
  have hnil := honly' []
  rw [hset] at hsorted' hnil
  obtain ⟨hbefore, hafter⟩ := contents_around hsorted' hnil
  rw [hbefore, hafter, nil_append, append_nil] at hcontents
  refine ⟨hcontents, fun vec => ⟨?_, honly' vec⟩⟩
  rw [hset, contents_append, contents_cons, hbefore, hafter, nil_append, append_nil]

end MsgMap

/-! ## Conversions in order -/

/-- A queued message goes by the checkpoint of its first member. -/
def QueuedMessage.Fronted (queued : QueuedMessage) : Prop :=
  queued.members.head?.map MessageInfo.checkpointId = some queued.msg.checkpointId

lemma QueuedMessage.Fronted.exists_cons {queued : QueuedMessage} (h : queued.Fronted) :
    ∃ first rest, queued.members = first :: rest ∧ first.checkpointId = queued.msg.checkpointId := by
  obtain ⟨first, hhead, hid⟩ := Option.map_eq_some_iff.mp h
  obtain ⟨rest, hmembers⟩ := head?_eq_some_iff.mp hhead
  exact ⟨first, rest, hmembers, hid⟩

/-- Messages are not merged and none waits in the map, or those to be merged have one merge range, and those in the
map too. -/
def MergeConfig.OneRange (config : MergeConfig) (waiting : List QueuedMessage) (msgMap : MsgMap) : Prop :=
  (config.merging = none ∧ msgMap.contents = [])
    ∨ ∃ rangeUtil hashId, config.merging = some rangeUtil
      ∧ (∀ queued ∈ waiting, rangeUtil.getMergeHashId queued.msg.uint16Payload = hashId)
      ∧ ∀ entry ∈ msgMap, entry.1 ≠ hashId → entry.2 = []

/-- What steps keep of a pipeline whose messages have one merge range. -/
structure Lined (config : MergeConfig) (pipeline : Pipeline) : Prop where
  oneRange : config.OneRange pipeline.toMergeQueue pipeline.msgMap
  map_sorted : pipeline.msgMap.Sorted
  send_fronted : ∀ queued ∈ pipeline.sendQueue, queued.Fronted
  map_fronted : ∀ queued ∈ pipeline.msgMap.contents, queued.Fronted
  queue_fronted : ∀ queued ∈ pipeline.toMergeQueue, queued.Fronted

section
variable {zlib : ZlibCompressor} {config : MergeConfig} {pipeline pipeline' : Pipeline}

lemma compressMessage_header (threshold : ℕ) (msg : MessageInfo) :
    (compressMessage zlib threshold msg).checkpointId = msg.checkpointId
    ∧ (compressMessage zlib threshold msg).uint16Payload = msg.uint16Payload := by
  rw [compressMessage.eq_def]
  split
  · exact ⟨rfl, rfl⟩
  split
  · split
    · exact ⟨rfl, rfl⟩
    · exact ⟨rfl, rfl⟩
  split
  · split
    · exact ⟨rfl, rfl⟩
    · split
      · exact ⟨rfl, rfl⟩
      · exact ⟨rfl, rfl⟩
  · exact ⟨rfl, rfl⟩

lemma compressQueued_header (flag : Bool) (queued : QueuedMessage) :
    (compressQueued zlib config flag queued).msg.checkpointId = queued.msg.checkpointId
    ∧ (compressQueued zlib config flag queued).msg.uint16Payload = queued.msg.uint16Payload := by
  rw [compressQueued]
  split
  · exact compressMessage_header _ _
  · exact ⟨rfl, rfl⟩

lemma QueuedMessage.Fronted.compressQueued {queued : QueuedMessage} (h : queued.Fronted) (flag : Bool) :
    (compressQueued zlib config flag queued).Fronted := by
  rw [QueuedMessage.Fronted, members_compressQueued, (compressQueued_header flag queued).1]
  exact h

lemma fronted_compressSingle {vec : List QueuedMessage} (h : ∀ queued ∈ vec, queued.Fronted) (flag : Bool) :
    ∀ queued ∈ compressSingle zlib config flag vec, queued.Fronted := by
  rw [compressSingle.eq_def]
  split
  · exact forall_mem_singleton.mpr ((h _ mem_cons_self).compressQueued flag)
  · exact h

lemma fronted_packVec (hashId : UInt16) {vec : List QueuedMessage} (hne : vec ≠ [])
    (h : ∀ queued ∈ vec, queued.Fronted) : (packVec zlib config hashId vec).Fronted := by
  cases vec with
  | nil => exact absurd rfl hne
  | cons queued rest =>
    have hfirst := h queued mem_cons_self
    cases rest with
    | nil => exact hfirst
    | cons next rest =>
      obtain ⟨first, others, hmembers, hid⟩ := hfirst.exists_cons
      rw [QueuedMessage.Fronted]
      change ((queued :: next :: rest).flatMap QueuedMessage.members).head?.map _
        = some (compressMessage zlib _ _).checkpointId
      rw [(compressMessage_header _ _).1, flatMap_cons, hmembers, cons_append, head?_cons, Option.map_some, hid]
      rfl

/-- The messages stay in line, none comes or goes, and nothing waits where nothing waited. -/
structure KeepsLine (config : MergeConfig) (pipeline pipeline' : Pipeline) : Prop where
  lined : Lined config pipeline'
  members : pipeline'.members = pipeline.members
  idle : pipeline.msgMap.contents = [] ∧ pipeline.toMergeQueue = [] →
    pipeline'.msgMap.contents = [] ∧ pipeline'.toMergeQueue = []

section
variable (h : Lined config pipeline)
include h

lemma Lined.compressFront {queued : QueuedMessage} {rest : List QueuedMessage} (flag : Bool)
    (hqueue : pipeline.toMergeQueue = queued :: rest) :
    KeepsLine config pipeline { pipeline with toMergeQueue := compressQueued zlib config flag queued :: rest } := by
  obtain ⟨hrange, hsorted, hsend, hmap_fronted, hqueue_fronted⟩ := h
  rw [hqueue] at hrange hqueue_fronted
  obtain ⟨hfirst, hrest⟩ := forall_mem_cons.mp hqueue_fronted
  refine ⟨⟨?_, hsorted, hsend, hmap_fronted, ?_⟩, ?_, ?_⟩
  · rcases hrange with hoff | ⟨rangeUtil, hashId, hmerging, hhash, honly⟩
    · exact .inl hoff
    · refine .inr ⟨rangeUtil, hashId, hmerging, forall_mem_cons.mpr ⟨?_, ?_⟩, honly⟩
      · rw [(compressQueued_header flag queued).2]
        exact hhash queued mem_cons_self
      · exact (forall_mem_cons.mp hhash).2
  · exact forall_mem_cons.mpr ⟨hfirst.compressQueued flag, hrest⟩
  · simp only [Pipeline.members, hqueue, flatMap_cons, members_compressQueued]
  · rw [hqueue]
    exact fun hnil => absurd hnil.2 (cons_ne_nil _ _)

/-- Without merging nothing is in the map, so that the front of the queue comes next. -/
lemma Lined.sendFront {queued : QueuedMessage} {rest : List QueuedMessage} (hmerging : config.merging = none)
    (hqueue : pipeline.toMergeQueue = queued :: rest) : KeepsLine config pipeline
      { pipeline with toMergeQueue := rest, sendQueue := pipeline.sendQueue ++ [queued] } := by
  obtain ⟨hrange, hsorted, hsend, hmap_fronted, hqueue_fronted⟩ := h
  rw [hqueue] at hqueue_fronted
  obtain ⟨hfirst, hrest⟩ := forall_mem_cons.mp hqueue_fronted
  have hcontents : pipeline.msgMap.contents = [] := by
    rcases hrange with ⟨-, hcontents⟩ | ⟨rangeUtil, hashId, hmerging', -⟩
    · exact hcontents
    · rw [hmerging] at hmerging'
      cases hmerging'
  refine ⟨⟨.inl ⟨hmerging, hcontents⟩, hsorted, ?_, hmap_fronted, hrest⟩, ?_, ?_⟩
  · exact forall_mem_append.mpr ⟨hsend, forall_mem_singleton.mpr hfirst⟩
  · simp only [Pipeline.members, hqueue, hcontents, flatMap_append, flatMap_cons, flatMap_nil,
      append_nil, append_assoc]
  · rw [hqueue]
    exact fun hnil => absurd hnil.2 (cons_ne_nil _ _)

/-- The one vector of the map gets the front of the queue at its end. -/
lemma Lined.push {rangeUtil : RangeUtil} {queued : QueuedMessage} {rest : List QueuedMessage}
    (hmerging : config.merging = some rangeUtil) (hqueue : pipeline.toMergeQueue = queued :: rest) :
    KeepsLine config pipeline
      { pipeline with
        toMergeQueue := rest
        msgMap := pipeline.msgMap.setAt (rangeUtil.getMergeHashId queued.msg.uint16Payload)
          (pipeline.msgMap.msgsAt (rangeUtil.getMergeHashId queued.msg.uint16Payload) ++ [queued]) } := by
  obtain ⟨hrange, hsorted, hsend, hmap_fronted, hqueue_fronted⟩ := h
  rw [hqueue] at hrange hqueue_fronted
  obtain ⟨hfirst, hrest⟩ := forall_mem_cons.mp hqueue_fronted
  rcases hrange with ⟨hoff, -⟩ | ⟨rangeUtil', hashId, hmerging', hhash, honly⟩
  · rw [hmerging] at hoff
    cases hoff
  obtain rfl := Option.some.inj (hmerging.symm.trans hmerging')
  rw [hhash queued mem_cons_self]
  obtain ⟨hcontents, hset⟩ := contents_setAt_of_only hsorted honly
  refine ⟨⟨.inr ⟨rangeUtil, hashId, hmerging, (forall_mem_cons.mp hhash).2, (hset _).2⟩,
    hsorted.setAt hashId _, hsend, ?_, hrest⟩, ?_, ?_⟩
  · rw [(hset _).1]
    rw [hcontents] at hmap_fronted
    exact forall_mem_append.mpr ⟨hmap_fronted, forall_mem_singleton.mpr hfirst⟩
  · simp only [Pipeline.members, hqueue, hcontents, (hset _).1, flatMap_append, flatMap_cons,
      flatMap_nil, append_nil, append_assoc]
  · rw [hqueue]
    exact fun hnil => absurd hnil.2 (cons_ne_nil _ _)

variable {before after : MsgMap} {hashId : UInt16} {vec : List QueuedMessage}

lemma Lined.compressAt (flag : Bool) (hmap : pipeline.msgMap = before ++ (hashId, vec) :: after) :
    KeepsLine config pipeline
      { pipeline with msgMap := before ++ (hashId, compressSingle zlib config flag vec) :: after } := by
  obtain ⟨hrange, hsorted, hsend, hmap_fronted, hqueue_fronted⟩ := h
  rw [hmap] at hrange hsorted hmap_fronted
  rw [contents_append, contents_cons] at hmap_fronted
  obtain ⟨hbefore, hmap_fronted⟩ := forall_mem_append.mp hmap_fronted
  obtain ⟨hvec, hafter⟩ := forall_mem_append.mp hmap_fronted
  have hempty : contents (before ++ (hashId, vec) :: after) = [] →
      contents (before ++ (hashId, compressSingle zlib config flag vec) :: after) = [] := by
    rw [contents_append, contents_cons, contents_append, contents_cons]
    simp only [append_eq_nil_iff]
    exact fun hcontents => ⟨hcontents.1, by rw [hcontents.2.1]; rfl, hcontents.2.2⟩
  refine ⟨⟨?_, hsorted.replace _, hsend, ?_, hqueue_fronted⟩, ?_, ?_⟩
  · rcases hrange with ⟨hoff, hcontents⟩ | ⟨rangeUtil, hashId', hmerging, hhash, honly⟩
    · exact .inl ⟨hoff, hempty hcontents⟩
    · refine .inr ⟨rangeUtil, hashId', hmerging, hhash, forall_mem_replace honly fun hne => ?_⟩
      have hnil : vec = [] := honly _ (mem_append_right _ mem_cons_self) hne
      rw [hnil]
      rfl
  · rw [contents_append, contents_cons]
    exact forall_mem_append.mpr ⟨hbefore, forall_mem_append.mpr ⟨fronted_compressSingle hvec flag, hafter⟩⟩
  · simp only [Pipeline.members, hmap, contents_append, contents_cons, flatMap_append,
      members_compressSingle]
  · rw [hmap]
    exact fun hnil => ⟨hempty hnil.1, hnil.2⟩

/-- A vector that is sent is the one in the map that has messages. -/
lemma Lined.flush (hmap : pipeline.msgMap = before ++ (hashId, vec) :: after) (hne : vec ≠ []) :
    KeepsLine config pipeline
      { pipeline with
        msgMap := before ++ (hashId, []) :: after
        sendQueue := pipeline.sendQueue ++ [packVec zlib config hashId vec] } := by
  obtain ⟨hrange, hsorted, hsend, hmap_fronted, hqueue_fronted⟩ := h
  rw [hmap] at hrange hsorted hmap_fronted
  have hentry : (hashId, vec) ∈ before ++ (hashId, vec) :: after := mem_append_right _ mem_cons_self
  rcases hrange with ⟨-, hcontents⟩ | ⟨rangeUtil, hashId', hmerging, hhash, honly⟩
  · rw [contents_append, contents_cons] at hcontents
    simp only [append_eq_nil_iff] at hcontents
    exact absurd hcontents.2.1 hne
  obtain rfl : hashId = hashId' := by
    by_contra hdiff
    exact hne (honly _ hentry hdiff)
  obtain ⟨hbefore, hafter⟩ := contents_around hsorted honly
  have hcontents : ∀ vec', contents (before ++ (hashId, vec') :: after) = vec' := by
    intro vec'
    rw [contents_append, contents_cons, hbefore, hafter, nil_append, append_nil]
  rw [hcontents] at hmap_fronted
  refine ⟨⟨.inr ⟨rangeUtil, hashId, hmerging, hhash, forall_mem_replace honly fun _ => rfl⟩,
    hsorted.replace _, ?_, ?_, hqueue_fronted⟩, ?_, fun hnil => ?_⟩
  · exact forall_mem_append.mpr ⟨hsend, forall_mem_singleton.mpr (fronted_packVec hashId hne hmap_fronted)⟩
  · rw [hcontents]
    exact forall_mem_nil _
  · simp only [Pipeline.members, hmap, hcontents, flatMap_append, flatMap_cons, flatMap_nil,
      append_nil, members_packVec hashId hne]
  · rw [hmap, hcontents] at hnil
    exact absurd hnil.1 hne

lemma Lined.clearMap (hempty : ∀ entry ∈ pipeline.msgMap, entry.2 = []) :
    KeepsLine config pipeline { pipeline with msgMap := [] } := by
  obtain ⟨hrange, -, hsend, -, hqueue_fronted⟩ := h
  refine ⟨⟨?_, Pairwise.nil, hsend, forall_mem_nil _, hqueue_fronted⟩, ?_, fun hnil => ⟨rfl, hnil.2⟩⟩
  · rcases hrange with ⟨hoff, -⟩ | ⟨rangeUtil, hashId, hmerging, hhash, -⟩
    · exact .inl ⟨hoff, rfl⟩
    · exact .inr ⟨rangeUtil, hashId, hmerging, hhash, forall_mem_nil _⟩
  · rw [Pipeline.members, Pipeline.members, contents_eq_nil hempty]
    rfl

/-- Each step keeps messages of one merge range in their order. -/
lemma Lined.step (hstep : Step zlib config pipeline pipeline') : KeepsLine config pipeline pipeline' := by
  cases hstep with
  | compressFront flag queued rest hqueue => exact h.compressFront flag hqueue
  | sendFront queued rest hmerging hqueue => exact h.sendFront hmerging hqueue
  | push rangeUtil queued rest hmerging hqueue _ => exact h.push hmerging hqueue
  | compressAt flag before after hashId vec hmap => exact h.compressAt flag hmap
  | flush before after hashId vec hmap hne => exact h.flush hmap hne
  | setSizes sizeMap => exact ⟨⟨h.1, h.2, h.3, h.4, h.5⟩, rfl, id⟩
  | clearMap hempty => exact h.clearMap hempty

lemma Lined.steps (hsteps : ReflTransGen (Step zlib config) pipeline pipeline') :
    KeepsLine config pipeline pipeline' := by
  induction hsteps with
  | refl => exact ⟨h, rfl, id⟩
  | tail _ hstep ih =>
    obtain ⟨hlined, hmembers, hidle⟩ := ih.lined.step hstep
    exact ⟨hlined, hmembers.trans ih.members, fun hnil => hidle (ih.idle hnil)⟩

end

end

/-! ## The order in the buffer -/

/-- The messages that are not yet in the queue for sending. -/
def MessageWriteBuffer.waiting (buffer : MessageWriteBuffer) : List MessageInfo :=
  buffer.pipeline.msgMap.contents.flatMap QueuedMessage.members
    ++ buffer.pipeline.toMergeQueue.flatMap QueuedMessage.members
    ++ buffer.writeQueue.flatMap QueuedMessage.members

lemma MessageWriteBuffer.members_eq (buffer : MessageWriteBuffer) :
    buffer.members = buffer.pipeline.sendQueue.flatMap QueuedMessage.members ++ buffer.waiting := by
  simp only [members, waiting, Pipeline.members, append_assoc]

/-- The messages in the buffer stand in the order of their checkpoints, and the smallest checkpoint in merge is
at most those that wait. -/
structure InOrder (traced : Traced) : Prop where
  increasing : traced.buffer.members.Pairwise fun msg msg' => msg.checkpointId < msg'.checkpointId
  map_sorted : traced.buffer.pipeline.msgMap.Sorted
  send_fronted : ∀ queued ∈ traced.buffer.pipeline.sendQueue, queued.Fronted
  map_fronted : ∀ queued ∈ traced.buffer.pipeline.msgMap.contents, queued.Fronted
  queue_fronted : ∀ queued ∈ traced.buffer.pipeline.toMergeQueue, queued.Fronted
  write_fronted : ∀ queued ∈ traced.buffer.writeQueue, queued.Fronted
  merge_nil : traced.buffer.minCheckpointIdInMerge = -1 →
    traced.buffer.pipeline.msgMap.contents = [] ∧ traced.buffer.pipeline.toMergeQueue = []
  min_le : traced.buffer.minCheckpointIdInMerge ≠ -1 →
    ∀ msg ∈ traced.buffer.waiting, traced.buffer.minCheckpointIdInMerge ≤ msg.checkpointId
  min_added : traced.buffer.minCheckpointIdInMerge ≠ -1 →
    ∃ msg ∈ traced.added, msg.checkpointId = traced.buffer.minCheckpointIdInMerge
  valid : ∀ msg ∈ traced.added, msg.checkpointId ≠ -1

/-- Checkpoints grow and none is -1, which stands for none; where messages are converted, those that wait have one
merge range.  Nothing is stolen. -/
def BufferEvent.KeepsOrder (traced : Traced) : BufferEvent → Prop
  | .add _ msg => msg.checkpointId ≠ -1 ∧ ∀ earlier ∈ traced.added, earlier.checkpointId < msg.checkpointId
  | .convert _ => traced.buffer.config.OneRange
      (traced.buffer.pipeline.toMergeQueue ++ traced.buffer.writeQueue) traced.buffer.pipeline.msgMap
  | .steal _ _ => False
  | _ => True

lemma MergeConfig.OneRange.mono {config : MergeConfig} {waiting waiting' : List QueuedMessage} {msgMap : MsgMap}
    (h : config.OneRange waiting msgMap) (hsub : ∀ queued ∈ waiting', queued ∈ waiting) :
    config.OneRange waiting' msgMap := by
  rcases h with hoff | ⟨rangeUtil, hashId, hmerging, hhash, honly⟩
  · exact .inl hoff
  · exact .inr ⟨rangeUtil, hashId, hmerging, fun queued hmem => hhash queued (hsub queued hmem), honly⟩

namespace InOrder

variable {zlib : ZlibCompressor} {safeMode : Bool} {traced : Traced}

lemma init (config : MergeConfig) : InOrder (Traced.init config) where
  increasing := Pairwise.nil
  map_sorted := Pairwise.nil
  send_fronted _ hmem := absurd hmem not_mem_nil
  map_fronted _ hmem := absurd hmem not_mem_nil
  queue_fronted _ hmem := absurd hmem not_mem_nil
  write_fronted _ hmem := absurd hmem not_mem_nil
  merge_nil _ := ⟨rfl, rfl⟩
  min_le hne := absurd rfl hne
  min_added hne := absurd rfl hne
  valid _ hmem := absurd hmem not_mem_nil

lemma add (haccounts : Accounts safeMode traced) (h : InOrder traced) (limiterAllows : Bool) {msg : MessageInfo}
    (hvalid : msg.checkpointId ≠ -1) (hlater : ∀ earlier ∈ traced.added, earlier.checkpointId < msg.checkpointId) :
    InOrder (traced.apply zlib (.add limiterAllows msg)) := by
  rw [Traced.apply]
  rcases traced.buffer.addWriteMessage_cases limiterAllows msg with hrefused | ⟨-, -, hadded⟩
  · rw [hrefused]
    exact h
  rw [hadded]
  have hmembers : ∀ earlier ∈ traced.buffer.members, earlier.checkpointId < msg.checkpointId :=
    fun earlier hmem => hlater earlier (haccounts.perm.subset (mem_append_right _ hmem))
  refine ⟨?_, h.map_sorted, h.send_fronted, h.map_fronted, h.queue_fronted, ?_, h.merge_nil, ?_, ?_, ?_⟩
  · have happend : { traced.buffer with writeQueue := traced.buffer.writeQueue ++ [QueuedMessage.mk msg [msg]] }.members
        = traced.buffer.members ++ [msg] := by
      simp [members, append_assoc]
    rw [happend, pairwise_append]
    exact ⟨h.increasing, pairwise_singleton _ _, fun earlier hmem => forall_mem_singleton.mpr (hmembers earlier hmem)⟩
  · exact forall_mem_append.mpr ⟨h.write_fronted, forall_mem_singleton.mpr rfl⟩
  · intro hne other hmem
    have happend : { traced.buffer with writeQueue := traced.buffer.writeQueue ++ [QueuedMessage.mk msg [msg]] }.waiting
        = traced.buffer.waiting ++ [msg] := by
      simp [waiting, append_assoc]
    rw [happend] at hmem
    rcases mem_append.mp hmem with hmem | hmem
    · exact h.min_le hne other hmem
    obtain ⟨earlier, hearlier, hmin⟩ := h.min_added hne
    rw [mem_singleton.mp hmem, ← hmin]
    exact (hlater earlier hearlier).le
  · intro hne
    obtain ⟨earlier, hearlier, hmin⟩ := h.min_added hne
    exact ⟨earlier, mem_append_left _ hearlier, hmin⟩
  · exact forall_mem_append.mpr ⟨h.valid, forall_mem_singleton.mpr hvalid⟩

section
variable (h : InOrder traced)
include h

/-- A conversion of messages of one merge range keeps the order; messages only leave what waits. -/
lemma doConvertMessage (hcount : 0 < traced.buffer.config.mergeCount) (env : ConvertEnv)
    (canAdd : Bool) (hrange : traced.buffer.config.OneRange traced.buffer.pipeline.toMergeQueue
      traced.buffer.pipeline.msgMap) : InOrder { traced with
      buffer := { (traced.buffer.doConvertMessage zlib env).2 with canAdd := canAdd } } := by
  have hlined : Lined traced.buffer.config traced.buffer.pipeline :=
    ⟨hrange, h.map_sorted, h.send_fronted, h.map_fronted, h.queue_fronted⟩
  obtain ⟨hsteps, hsuccess⟩ := doConvert_steps zlib env hcount traced.buffer.pipeline
  obtain ⟨hlined', hmembers, hnil⟩ := hlined.steps hsteps
  obtain ⟨sent, hsent⟩ := sent_of_steps hsteps
  have hbuffer : { (traced.buffer.doConvertMessage zlib env).2 with canAdd := canAdd }.members
      = traced.buffer.members := by
    simp only [MessageWriteBuffer.members, MessageWriteBuffer.doConvertMessage, hmembers]
  have hwaiting : traced.buffer.waiting = sent.flatMap QueuedMessage.members
      ++ { (traced.buffer.doConvertMessage zlib env).2 with canAdd := canAdd }.waiting := by
    have heq := hbuffer
    rw [MessageWriteBuffer.members_eq, MessageWriteBuffer.members_eq] at heq
    simp only [MessageWriteBuffer.doConvertMessage, ← hsent, flatMap_append, append_assoc] at heq
    exact (append_cancel_left heq).symm
  refine ⟨?_, hlined'.map_sorted, hlined'.send_fronted, hlined'.map_fronted, hlined'.queue_fronted,
    h.write_fronted, ?_, ?_, ?_, h.valid⟩
  · dsimp only
    rw [hbuffer]
    exact h.increasing
  · intro hmin
    by_cases hdone : (doConvert zlib traced.buffer.config env traced.buffer.pipeline).1 = true
    · obtain ⟨hqueue, hmap⟩ := hsuccess hdone
      refine ⟨?_, hqueue⟩
      rcases hmap with hmap | ⟨hmerging, hmap⟩
      · simp only [MessageWriteBuffer.doConvertMessage, hmap]
        rfl
      simp only [MessageWriteBuffer.doConvertMessage, hmap]
      rcases hrange with ⟨-, hcontents⟩ | ⟨rangeUtil, hashId, hmerging', -⟩
      · exact hcontents
      · rw [hmerging] at hmerging'
        cases hmerging'
    · simp only [MessageWriteBuffer.doConvertMessage, if_neg hdone] at hmin
      exact hnil (h.merge_nil hmin)
  · intro hmin msg hmem
    simp only [MessageWriteBuffer.doConvertMessage] at hmin ⊢
    split at hmin
    · exact absurd rfl hmin
    rename_i hdone
    rw [if_neg hdone]
    refine h.min_le hmin msg ?_
    rw [hwaiting]
    exact mem_append_right _ hmem
  · intro hmin
    simp only [MessageWriteBuffer.doConvertMessage] at hmin ⊢
    split at hmin
    · exact absurd rfl hmin
    rename_i hdone
    rw [if_neg hdone]
    exact h.min_added hmin

omit h in
lemma convert (haccounts : Accounts safeMode traced) (h : InOrder traced) (env : ConvertEnv)
    (hrange : traced.buffer.config.OneRange (traced.buffer.pipeline.toMergeQueue ++ traced.buffer.writeQueue)
      traced.buffer.pipeline.msgMap) : InOrder (traced.apply zlib (.convert env)) := by
  rw [Traced.apply, convertMessage.eq_def]
  split
  · rename_i hfinished
    split
    · exact h
    rename_i first rest hwrite
    obtain ⟨hqueue, hmap⟩ := (Bool.and_eq_true _ _).mp hfinished
    rw [List.isEmpty_iff] at hqueue hmap
    have hsame : { traced.buffer.swapQueues with minCheckpointIdInMerge := first.msg.checkpointId }.members
        = traced.buffer.members := by
      simp [members, swapQueues, Pipeline.members, hqueue, hmap]
    have hwaiting : { traced.buffer.swapQueues with minCheckpointIdInMerge := first.msg.checkpointId }.waiting
        = traced.buffer.writeQueue.flatMap QueuedMessage.members := by
      simp [waiting, swapQueues, hqueue, hmap, contents]
    -- The first message of the write queue has the smallest checkpoint of those that are taken over.
    obtain ⟨msg, others, hmembers, hid⟩ := (h.write_fronted first (by rw [hwrite]; simp)).exists_cons
    have hothers : traced.buffer.writeQueue.flatMap QueuedMessage.members
        = msg :: (others ++ rest.flatMap QueuedMessage.members) := by
      rw [hwrite, flatMap_cons, hmembers, cons_append]
    have hmem : msg ∈ traced.added := by
      refine haccounts.perm.subset (mem_append_right _ (mem_append_right _ ?_))
      rw [hothers]
      exact mem_cons_self
    have hswapped : InOrder { traced with
        buffer := { traced.buffer.swapQueues with minCheckpointIdInMerge := first.msg.checkpointId } } := by
      refine ⟨?_, h.map_sorted, h.send_fronted, h.map_fronted, h.write_fronted, ?_, ?_, ?_, ?_, h.valid⟩
      · dsimp only
        rw [hsame]
        exact h.increasing
      · exact h.queue_fronted
      · intro hmin
        exact absurd (hid.trans hmin) (h.valid msg hmem)
      · intro _ other hother
        rw [hwaiting, hothers] at hother
        have hincreasing := h.increasing
        rw [members, hothers] at hincreasing
        rcases mem_cons.mp hother with rfl | hother
        · exact hid.symm.le
        · rw [← hid]
          exact ((pairwise_cons.mp (pairwise_append.mp hincreasing).2.1).1 other hother).le
      · exact fun _ => ⟨msg, hmem, hid⟩
    exact hswapped.doConvertMessage haccounts.mergeCount_pos env _
      (hrange.mono fun queued hqueued => mem_append_right _ hqueued)
  · exact h.doConvertMessage haccounts.mergeCount_pos env _
      (hrange.mono fun queued hqueued => mem_append_left _ hqueued)

/-- Messages leave only at the front of the queue for sending. -/
lemma dropped (count : ℕ) {traced' : Traced} (hadded : traced'.added = traced.added)
    (hpipeline : traced'.buffer.pipeline
    = { traced.buffer.pipeline with sendQueue := traced.buffer.pipeline.sendQueue.drop count })
    (hwrite : traced'.buffer.writeQueue = traced.buffer.writeQueue)
    (hmin : traced'.buffer.minCheckpointIdInMerge = traced.buffer.minCheckpointIdInMerge) : InOrder traced' := by
  have hwaiting : traced'.buffer.waiting = traced.buffer.waiting := by
    rw [waiting, hpipeline, hwrite]
    rfl
  refine ⟨?_, ?_, ?_, ?_, ?_, ?_, ?_, ?_, ?_, ?_⟩
  · refine h.increasing.sublist ?_
    rw [members_eq, members_eq, hwaiting, hpipeline]
    exact ((drop_sublist _ _).flatMap _).append_right _
  · rw [hpipeline]
    exact h.map_sorted
  · rw [hpipeline]
    exact fun queued hmem => h.send_fronted queued (mem_of_mem_drop hmem)
  · rw [hpipeline]
    exact h.map_fronted
  · rw [hpipeline]
    exact h.queue_fronted
  · rw [hwrite]
    exact h.write_fronted
  · rw [hmin, hpipeline]
    exact h.merge_nil
  · rw [hmin, hwaiting]
    exact h.min_le
  · rw [hmin, hadded]
    exact h.min_added
  · rw [hadded]
    exact h.valid

lemma respond (acceptedMsgCount : ℕ) :
    InOrder (traced.apply zlib (.respond acceptedMsgCount)) := by
  rw [Traced.apply, updateBuffer]
  split
  · exact h.dropped 0 rfl rfl rfl rfl
  split
  · exact h.dropped 0 rfl rfl rfl rfl
  · exact h.dropped acceptedMsgCount rfl rfl rfl rfl

lemma respondSafe (acceptedMsgCount : ℕ) (committedId acceptedMsgBeginId : ℤ) :
    InOrder (traced.apply zlib (.respondSafe acceptedMsgCount committedId acceptedMsgBeginId)) := by
  rw [Traced.apply, updateBufferSafe]
  split
  · exact h.dropped 0 rfl rfl rfl rfl
  dsimp only
  split
  · exact h.dropped 0 rfl rfl rfl rfl
  · exact h.dropped _ rfl rfl rfl rfl

end

/-- Every event that meets the condition keeps the order. -/
lemma apply (haccounts : Accounts safeMode traced) (h : InOrder traced) {event : BufferEvent}
    (hkeeps : event.KeepsOrder traced) : InOrder (traced.apply zlib event) := by
  cases event with
  | add limiterAllows msg => exact h.add haccounts limiterAllows hkeeps.1 hkeeps.2
  | convert env => exact h.convert haccounts env hkeeps
  | respond acceptedMsgCount => exact h.respond acceptedMsgCount
  | respondSafe acceptedMsgCount committedId acceptedMsgBeginId =>
    exact h.respondSafe acceptedMsgCount committedId acceptedMsgBeginId
  | resetCursor => exact h.dropped 0 rfl rfl rfl rfl
  | configure config => exact h.dropped 0 rfl rfl rfl rfl
  | setSealed => exact h.dropped 0 rfl rfl rfl rfl
  | steal env env' => exact absurd hkeeps not_false

end InOrder

/-! ## The writer -/

/-- A writer with its buffer, and the checkpoint that it reports when the buffer is empty. -/
structure SingleSwiftWriter where
  traced : Traced
  checkpointId : ℤ

namespace SingleSwiftWriter

def init (config : MergeConfig) : SingleSwiftWriter := ⟨Traced.init config, -2 ^ 63⟩

/-- The checkpoint that `handleSendMessageResponse` gets, -1 for none. -/
def responseCheckpointId (buffer : MessageWriteBuffer) : BufferEvent → ℤ
  | .respond acceptedMsgCount => (buffer.updateBuffer acceptedMsgCount).1
  | .respondSafe acceptedMsgCount committedId acceptedMsgBeginId =>
    (buffer.updateBufferSafe acceptedMsgCount committedId acceptedMsgBeginId).1
  | _ => -1

def apply (zlib : ZlibCompressor) (writer : SingleSwiftWriter) (event : BufferEvent) : SingleSwiftWriter where
  traced := writer.traced.apply zlib event
  checkpointId :=
    let checkpointId := responseCheckpointId writer.traced.buffer event
    if checkpointId ≠ -1 then checkpointId else writer.checkpointId

/-- `getCommittedCheckpointId`: what is reported. -/
def getCommittedCheckpointId (writer : SingleSwiftWriter) : ℤ × SingleSwiftWriter :=
  match writer.traced.buffer.latestCheckPointId with
  | some checkpoint => (checkpoint - 1, { writer with checkpointId := checkpoint - 1 })
  | none => (writer.checkpointId, writer)

/-- The states of the runs whose events are all allowed; a report can come at any time. -/
inductive Runs (zlib : ZlibCompressor) (config : MergeConfig) (allowed : Traced → BufferEvent → Prop) :
    SingleSwiftWriter → Prop
  | init : Runs zlib config allowed (SingleSwiftWriter.init config)
  | step {writer : SingleSwiftWriter} (event : BufferEvent) : Runs zlib config allowed writer →
      allowed writer.traced event → Runs zlib config allowed (writer.apply zlib event)
  | report {writer : SingleSwiftWriter} : Runs zlib config allowed writer →
      Runs zlib config allowed writer.getCommittedCheckpointId.2

lemma traced_getCommittedCheckpointId (writer : SingleSwiftWriter) :
    writer.getCommittedCheckpointId.2.traced = writer.traced := by
  rw [getCommittedCheckpointId]
  split <;> rfl

lemma Runs.inOrder {zlib : ZlibCompressor} {config : MergeConfig} {safeMode : Bool}
    (hcount : 0 < config.mergeCount) {writer : SingleSwiftWriter}
    (h : Runs zlib config (fun traced event => event.Possible zlib safeMode traced ∧ event.KeepsOrder traced)
      writer) : Accounts safeMode writer.traced ∧ InOrder writer.traced := by
  induction h with
  | init => exact ⟨.init hcount, .init config⟩
  | step event _ hallowed ih => exact ⟨ih.1.apply hallowed.1, ih.2.apply ih.1 hallowed.2⟩
  | report _ ih =>
    rw [traced_getCommittedCheckpointId]
    exact ih

end SingleSwiftWriter

/-- The first member of a queue whose messages are in order has the smallest checkpoint. -/
lemma checkpointId_le_of_fronted {front : QueuedMessage} {rest : List MessageInfo} (hfronted : front.Fronted)
    (hincreasing : (front.members ++ rest).Pairwise fun msg msg' => msg.checkpointId < msg'.checkpointId) :
    ∀ msg ∈ front.members ++ rest, front.msg.checkpointId ≤ msg.checkpointId := by
  obtain ⟨first, others, hmembers, hid⟩ := hfronted.exists_cons
  rw [hmembers, cons_append] at hincreasing ⊢
  intro msg hmem
  rw [← hid]
  rcases mem_cons.mp hmem with rfl | hmem
  · exact le_rfl
  · exact ((pairwise_cons.mp hincreasing).1 msg hmem).le

/-- Nothing in the buffer has a checkpoint in front of the one that is found first. -/
lemma InOrder.latestCheckPointId_le {traced : Traced} (h : InOrder traced) {msg : MessageInfo}
    (hmem : msg ∈ traced.buffer.members) :
    ∃ checkpoint, traced.buffer.latestCheckPointId = some checkpoint ∧ checkpoint ≤ msg.checkpointId := by
  rw [latestCheckPointId]
  have hincreasing := h.increasing
  rw [members_eq] at hincreasing hmem
  cases hsend : traced.buffer.pipeline.sendQueue with
  | cons front rest =>
    rw [hsend, flatMap_cons, append_assoc] at hincreasing hmem
    exact ⟨_, rfl, checkpointId_le_of_fronted (h.send_fronted front (by rw [hsend]; simp)) hincreasing msg hmem⟩
  | nil =>
    rw [hsend, flatMap_nil, nil_append] at hincreasing hmem
    by_cases hmin : traced.buffer.minCheckpointIdInMerge = -1
    · rw [if_neg (not_not.mpr hmin)]
      obtain ⟨hcontents, hqueue⟩ := h.merge_nil hmin
      rw [waiting, hcontents, hqueue, flatMap_nil, nil_append, nil_append] at hincreasing hmem
      cases hwrite : traced.buffer.writeQueue with
      | nil =>
        rw [hwrite] at hmem
        exact absurd hmem not_mem_nil
      | cons front rest =>
        rw [hwrite, flatMap_cons] at hincreasing hmem
        exact ⟨_, rfl, checkpointId_le_of_fronted (h.write_fronted front (by rw [hwrite]; simp)) hincreasing msg hmem⟩
    · rw [if_pos hmin]
      exact ⟨_, rfl, h.min_le hmin msg hmem⟩

/-- In every run with growing checkpoints in which the messages that are converted together have one merge range:
what was added with a checkpoint up to the reported one has been accepted, in safe mode committed. -/
theorem committedCheckpointId_safe (zlib : ZlibCompressor) (safeMode : Bool) (config : MergeConfig)
    (hcount : 0 < config.mergeCount) (writer : SingleSwiftWriter) (hruns : SingleSwiftWriter.Runs zlib config
      (fun traced event => event.Possible zlib safeMode traced ∧ event.KeepsOrder traced) writer)
    (msg : MessageInfo) (hadded : msg ∈ writer.traced.added)
    (hle : msg.checkpointId ≤ writer.getCommittedCheckpointId.1) :
    msg ∈ writer.traced.confirmed.flatMap QueuedMessage.members := by
  obtain ⟨haccounts, horder⟩ := hruns.inOrder hcount
  rcases mem_append.mp (haccounts.perm.symm.subset hadded) with hconfirmed | hbuffer
  · exact hconfirmed
  obtain ⟨checkpoint, hlatest, hfirst⟩ := horder.latestCheckPointId_le hbuffer
  rw [SingleSwiftWriter.getCommittedCheckpointId, hlatest] at hle
  dsimp only at hle
  omega

/-- A writer that merges two messages of one range and has sent them. -/
def sentPair : SingleSwiftWriter :=
  ((((SingleSwiftWriter.init mergeTwo).apply noCompressor (.add true (plainMessage 0 1 [7]))).apply noCompressor
    (.add true (plainMessage 0 2 [8]))).apply noCompressor (.convert (poolEnv true))).apply noCompressor
      (.respond 1)

/-- The message of the committed checkpoint has been confirmed by the broker. -/
theorem committedCheckpointId_safe_sentPair : sentPair.getCommittedCheckpointId.1 = 1
    ∧ plainMessage 0 1 [7] ∈ sentPair.traced.confirmed.flatMap QueuedMessage.members := by
  refine ⟨by decide, committedCheckpointId_safe noCompressor false mergeTwo (by decide) sentPair ?_ _
    (by decide) (by decide)⟩
  refine .step _ (.step _ (.step _ (.step _ .init ⟨trivial, ?_⟩) ⟨trivial, ?_⟩) ⟨trivial, ?_⟩) ⟨⟨rfl, ?_⟩, trivial⟩
  · rw [BufferEvent.KeepsOrder]
    decide
  · rw [BufferEvent.KeepsOrder]
    decide
  · refine .inr ⟨RangeUtil.init 1 2, 32767, rfl, ?_, forall_mem_nil _⟩
    decide
  · decide

/-- Of three messages the last two fill the vector of their range and are sent in front of the first. -/
def overtaken : SingleSwiftWriter :=
  ((((SingleSwiftWriter.init mergeTwo).apply noCompressor (.add true (plainMessage 40000 1 [7]))).apply noCompressor
    (.add true (plainMessage 0 2 [8]))).apply noCompressor (.add true (plainMessage 0 3 [9]))).apply noCompressor
      (.convert (poolEnv true))

/-- Checkpoint 1 is reported, though the broker has accepted nothing. -/
theorem overtaken_reported : SingleSwiftWriter.Runs noCompressor mergeTwo
        (fun traced event => event.Possible noCompressor false traced ∧ ∀ limiterAllows msg,
          event = .add limiterAllows msg → ∀ earlier ∈ traced.added, earlier.checkpointId < msg.checkpointId)
        overtaken
      ∧ overtaken.getCommittedCheckpointId.1 = 1
      ∧ plainMessage 40000 1 [7] ∈ overtaken.traced.added
      ∧ overtaken.traced.confirmed = [] := by
  refine ⟨.step _ (.step _ (.step _ (.step _ .init ⟨trivial, ?_⟩) ⟨trivial, ?_⟩) ⟨trivial, ?_⟩) ⟨trivial, ?_⟩,
    by decide, by decide, rfl⟩
  · rintro _ _ ⟨⟩
    decide
  · rintro _ _ ⟨⟩
    decide
  · rintro _ _ ⟨⟩
    decide
  · rintro _ _ ⟨⟩

end Havenask.Swift
