import Havenask.Swift.MessageWriteBuffer

/-!
# Runs of a write buffer

A write buffer together with what is known of it outside: the messages that were added, those that the broker
has accepted for good, and those that it has accepted and not yet committed.  An event is a call of the buffer.

* **`commitLoop_spec`**: the ranges of ids that wait for a commit stand for the accepted messages one by one.
* **`Accounts.apply`**: each message that was added is in exactly one place, in every state of a run.
-/

namespace Havenask.Swift

open List MsgMap MessageWriteBuffer Prod

open Relation (ReflTransGen)

/-! ## Conversions only move messages -/

lemma MsgMap.contents_append (msgMap msgMap' : MsgMap) :
    contents (msgMap ++ msgMap') = msgMap.contents ++ msgMap'.contents := flatMap_append

lemma MsgMap.contents_cons (entry : UInt16 × List QueuedMessage) (msgMap : MsgMap) :
    contents (entry :: msgMap) = entry.2 ++ msgMap.contents := flatMap_cons

lemma MsgMap.contents_eq_nil {msgMap : MsgMap} (h : ∀ entry ∈ msgMap, entry.2 = []) : msgMap.contents = [] := by
  rw [contents, flatMap_eq_nil_iff]
  exact h

lemma forall_mem_replace {before after : MsgMap} {entry entry' : UInt16 × List QueuedMessage}
    {holds : UInt16 × List QueuedMessage → Prop} (h : ∀ other ∈ before ++ entry :: after, holds other)
    (hnew : holds entry') : ∀ other ∈ before ++ entry' :: after, holds other := by
  intro other hmem
  rcases mem_append.mp hmem with hmem | hmem
  · exact h other (mem_append_left _ hmem)
  rcases mem_cons.mp hmem with rfl | hmem
  · exact hnew
  · exact h other (mem_append_right _ (mem_cons_of_mem _ hmem))

section
variable {zlib : ZlibCompressor} {config : MergeConfig} {pipeline pipeline' : Pipeline}

lemma members_compressQueued (flag : Bool) (queued : QueuedMessage) :
    (compressQueued zlib config flag queued).members = queued.members := by
  rw [compressQueued]
  split <;> rfl

lemma members_compressSingle (flag : Bool) (vec : List QueuedMessage) :
    (compressSingle zlib config flag vec).flatMap QueuedMessage.members = vec.flatMap QueuedMessage.members := by
  rw [compressSingle.eq_def]
  split
  · rw [flatMap_singleton, flatMap_singleton, members_compressQueued]
  · rfl

lemma members_packVec (hashId : UInt16) {vec : List QueuedMessage} (hne : vec ≠ []) :
    (packVec zlib config hashId vec).members = vec.flatMap QueuedMessage.members := by
  cases vec with
  | nil => exact absurd rfl hne
  | cons queued rest =>
    cases rest with
    | nil => simp [packVec]
    | cons next rest => rfl

lemma Step.perm (hstep : Step zlib config pipeline pipeline') : pipeline'.members.Perm pipeline.members := by
  rw [perm_iff_count]
  intro msg
  cases hstep with
  | compressFront flag queued rest hqueue =>
    simp only [Pipeline.members, hqueue, flatMap_cons, members_compressQueued]
  | sendFront queued rest _ hqueue =>
    simp only [Pipeline.members, hqueue, flatMap_append, flatMap_cons, flatMap_nil, append_nil, count_append]
    omega
  | push rangeUtil queued rest _ hqueue _ =>
    obtain ⟨before, after, hset, hcontents, -⟩ := setAt_split
      (rangeUtil.getMergeHashId queued.msg.uint16Payload) pipeline.msgMap
    simp only [Pipeline.members, hqueue, hset, hcontents, contents_append, contents_cons,
      flatMap_append, flatMap_cons, flatMap_nil, append_nil, count_append]
    omega
  | compressAt flag before after hashId vec hmap =>
    simp only [Pipeline.members, hmap, contents_append, contents_cons, flatMap_append,
      members_compressSingle]
  | flush before after hashId vec hmap hne =>
    simp only [Pipeline.members, hmap, contents_append, contents_cons, flatMap_append,
      flatMap_cons, flatMap_nil, append_nil, nil_append, count_append,
      members_packVec hashId hne]
    omega
  | setSizes sizeMap => rfl
  | clearMap hempty =>
    simp only [Pipeline.members, contents_eq_nil hempty]
    rfl

lemma Step.sent (hstep : Step zlib config pipeline pipeline') : pipeline.sendQueue <+: pipeline'.sendQueue := by
  cases hstep with
  | sendFront => exact prefix_append _ _
  | flush => exact prefix_append _ _
  | _ => exact prefix_refl _

lemma perm_of_steps (hsteps : ReflTransGen (Step zlib config) pipeline pipeline') :
    pipeline'.members.Perm pipeline.members := by
  induction hsteps with
  | refl => exact Perm.refl _
  | tail _ hstep ih => exact hstep.perm.trans ih

lemma sent_of_steps (hsteps : ReflTransGen (Step zlib config) pipeline pipeline') :
    pipeline.sendQueue <+: pipeline'.sendQueue := by
  induction hsteps with
  | refl => exact prefix_refl _
  | tail _ hstep ih => exact ih.trans hstep.sent

end

/-- The messages in the buffer as they were added. -/
def MessageWriteBuffer.members (buffer : MessageWriteBuffer) : List MessageInfo :=
  buffer.pipeline.members ++ buffer.writeQueue.flatMap QueuedMessage.members

/-- What conversions keep of a buffer. -/
structure Continues (buffer buffer' : MessageWriteBuffer) : Prop where
  perm : buffer'.members.Perm buffer.members
  sent : buffer.pipeline.sendQueue <+: buffer'.pipeline.sendQueue
  unsendCursor_eq : buffer'.unsendCursor = buffer.unsendCursor
  uncommittedMsgs_eq : buffer'.uncommittedMsgs = buffer.uncommittedMsgs
  ignoreUpdate_eq : buffer'.ignoreUpdate = buffer.ignoreUpdate
  config_eq : buffer'.config = buffer.config

namespace Continues

variable {buffer buffer' buffer'' : MessageWriteBuffer}

lemma refl (buffer : MessageWriteBuffer) : Continues buffer buffer :=
  ⟨Perm.refl _, prefix_refl _, rfl, rfl, rfl, rfl⟩

lemma trans (h : Continues buffer buffer') (h' : Continues buffer' buffer'') : Continues buffer buffer'' :=
  ⟨h'.perm.trans h.perm, h.sent.trans h'.sent, h'.unsendCursor_eq.trans h.unsendCursor_eq,
    h'.uncommittedMsgs_eq.trans h.uncommittedMsgs_eq, h'.ignoreUpdate_eq.trans h.ignoreUpdate_eq,
    h'.config_eq.trans h.config_eq⟩

end Continues

namespace MessageWriteBuffer

variable (zlib : ZlibCompressor) (env env' : ConvertEnv) {buffer : MessageWriteBuffer}

lemma addWriteMessage_cases (buffer : MessageWriteBuffer) (limiterAllows : Bool) (msg : MessageInfo) :
    buffer.addWriteMessage limiterAllows msg = (false, buffer)
    ∨ (msg.compress = false ∧ msg.isMerged = false ∧ buffer.addWriteMessage limiterAllows msg
      = (true, { buffer with writeQueue := buffer.writeQueue ++ [⟨msg, [msg]⟩] })) := by
  rw [addWriteMessage]
  split
  · exact .inl rfl
  split
  · exact .inl rfl
  rename_i hraw
  obtain ⟨hcompress, hmerged⟩ := Bool.or_eq_false_iff.mp (Bool.eq_false_of_not_eq_true hraw)
  split
  · exact .inl rfl
  split
  · exact .inl rfl
  · exact .inr ⟨hcompress, hmerged, rfl⟩

lemma continues_swapQueues (buffer : MessageWriteBuffer) : Continues buffer buffer.swapQueues := by
  refine ⟨?_, prefix_refl _, rfl, rfl, rfl, rfl⟩
  rw [perm_iff_count]
  intro msg
  simp only [members, swapQueues, Pipeline.members, count_append]
  omega

section
variable (hcount : 0 < buffer.config.mergeCount)
include hcount

lemma continues_doConvertMessage :
    Continues buffer (buffer.doConvertMessage zlib env).2 := by
  obtain ⟨hsteps, -⟩ := doConvert_steps zlib env hcount buffer.pipeline
  exact ⟨(perm_of_steps hsteps).append_right _, sent_of_steps hsteps, rfl, rfl, rfl, rfl⟩

lemma continues_convertMessage :
    Continues buffer (buffer.convertMessage zlib env) := by
  rw [convertMessage.eq_def]
  split
  · split
    · exact .refl buffer
    · rename_i first rest _
      have hswap := continues_swapQueues buffer
      have hconvert := continues_doConvertMessage zlib env
        (show 0 < { buffer.swapQueues with minCheckpointIdInMerge := first.msg.checkpointId }.config.mergeCount
          from hcount)
      exact ⟨hconvert.perm.trans hswap.perm, hswap.sent.trans hconvert.sent, rfl, rfl, rfl, rfl⟩
  · have hconvert := continues_doConvertMessage zlib env hcount
    exact ⟨hconvert.perm, hconvert.sent, rfl, rfl, rfl, rfl⟩

/-- After the two conversions nothing waits, in the map only if messages are merged. -/
lemma convertAll_spec : Continues buffer (buffer.convertAll zlib env env').2
    ∧ ((buffer.convertAll zlib env env').1 = true → (buffer.convertAll zlib env env').2.writeQueue = []
        ∧ (buffer.convertAll zlib env env').2.pipeline.toMergeQueue = []
        ∧ ((buffer.convertAll zlib env env').2.pipeline.msgMap = []
          ∨ (buffer.config.merging = none
            ∧ (buffer.convertAll zlib env env').2.pipeline.msgMap = buffer.pipeline.msgMap))) := by
  have hfirst := continues_doConvertMessage zlib env hcount
  obtain ⟨-, hempty⟩ := doConvert_steps zlib env hcount buffer.pipeline
  rw [convertAll]
  dsimp only
  split
  · rename_i hwrite
    obtain ⟨hsuccess, -⟩ := (Bool.and_eq_true _ _).mp hwrite
    obtain ⟨hqueue, hmap⟩ := hempty hsuccess
    have hcount' := hcount
    obtain ⟨-, hempty'⟩ := doConvert_steps zlib env' hcount' (buffer.doConvertMessage zlib env).2.swapQueues.pipeline
    refine ⟨(hfirst.trans (continues_swapQueues _)).trans (continues_doConvertMessage zlib env' hcount'),
      fun hsuccess' => ?_⟩
    obtain ⟨hqueue', hmap'⟩ := hempty' hsuccess'
    refine ⟨hqueue, hqueue', ?_⟩
    rcases hmap' with hmap' | ⟨hmerging, hmap'⟩
    · exact .inl hmap'
    rcases hmap with hmap | ⟨-, hmap⟩
    · exact .inl (hmap'.trans hmap)
    · exact .inr ⟨hmerging, hmap'.trans hmap⟩
  · rename_i hwrite
    refine ⟨hfirst, fun hsuccess => ?_⟩
    obtain ⟨hqueue, hmap⟩ := hempty hsuccess
    refine ⟨?_, hqueue, hmap⟩
    have hnil : (buffer.doConvertMessage zlib env).2.writeQueue.isEmpty = true := by
      by_contra hne
      exact hwrite (by rw [show (buffer.doConvertMessage zlib env).1 = true from hsuccess]; simpa using hne)
    exact isEmpty_iff.mp hnil

end

lemma stealUnsendMessage_cases (buffer : MessageWriteBuffer) :
    ((buffer.writeQueue.isEmpty && buffer.pipeline.toMergeQueue.isEmpty && buffer.pipeline.sendQueue.isEmpty) = true
      ∧ buffer.stealUnsendMessage zlib env env' = (true, [], buffer))
    ∨ buffer.stealUnsendMessage zlib env env' = (false, [], (buffer.convertAll zlib env env').2)
    ∨ ((buffer.convertAll zlib env env').1 = true
      ∧ ∃ msgs, (buffer.convertAll zlib env env').2.getUnSendMsgs zlib = some msgs
        ∧ buffer.stealUnsendMessage zlib env env' = (true, msgs, (buffer.convertAll zlib env env').2.clear)) := by
  rw [stealUnsendMessage.eq_def]
  dsimp only
  split
  · rename_i hqueues
    exact .inl ⟨hqueues, rfl⟩
  split
  · rename_i hsuccess
    split
    · exact .inr (.inl rfl)
    · rename_i msgs hunsent
      exact .inr (.inr ⟨hsuccess, msgs, hunsent, rfl⟩)
  · exact .inr (.inl rfl)

/-- Where nothing is stolen, the buffer goes on with what it has. -/
lemma stealUnsendMessage_failed {buffer : MessageWriteBuffer}
    (hfailed : (buffer.stealUnsendMessage zlib env env').1 = false) :
    (buffer.stealUnsendMessage zlib env env').2.2 = (buffer.convertAll zlib env env').2 := by
  rcases stealUnsendMessage_cases zlib env env' buffer with ⟨-, hsteal⟩ | hsteal | ⟨-, msgs, -, hsteal⟩
  · rw [hsteal] at hfailed
    cases hfailed
  · rw [hsteal]
  · rw [hsteal] at hfailed
    cases hfailed

end MessageWriteBuffer

/-! ## Ids that wait for a commit -/

/-- The ids of messages that are accepted together. -/
def idsFrom (first : ℤ) : ℕ → List ℤ
  | 0 => []
  | n + 1 => first :: idsFrom (first + 1) n

def rangeIds (range : ℤ × ℤ) : List ℤ := idsFrom range.1 (range.2 - range.1 + 1).toNat

lemma length_idsFrom (n : ℕ) : ∀ first : ℤ, (idsFrom first n).length = n := by
  induction n with
  | zero => exact fun _ => rfl
  | succ n ih => exact fun first => by rw [idsFrom, length_cons, ih]

lemma mem_idsFrom {id : ℤ} (n : ℕ) : ∀ {first : ℤ}, id ∈ idsFrom first n → first ≤ id ∧ id < first + n := by
  induction n with
  | zero => exact fun hmem => absurd hmem not_mem_nil
  | succ n ih =>
    intro first hmem
    rcases mem_cons.mp hmem with rfl | hmem
    · omega
    · have h := ih hmem
      omega

lemma idsFrom_add (n n' : ℕ) : ∀ first : ℤ, idsFrom first (n + n') = idsFrom first n ++ idsFrom (first + n) n' := by
  induction n with
  | zero =>
    intro first
    rw [Nat.zero_add, Nat.cast_zero, add_zero]
    rfl
  | succ n ih =>
    intro first
    rw [Nat.succ_add, idsFrom, ih, idsFrom, cons_append,
      show first + 1 + (n : ℤ) = first + ((n + 1 : ℕ) : ℤ) by push_cast; ring]

lemma rangeIds_accepted (first : ℤ) {n : ℕ} (hn : 0 < n) : rangeIds (first, first + n - 1) = idsFrom first n := by
  rw [rangeIds]
  congr 1
  dsimp only
  omega

/-- Nothing is committed of a range behind the committed id. -/
lemma stop_rangeIds {committedId first last : ℤ} (hle : first ≤ last) (hlt : committedId < first) (ids : List ℤ) :
    (rangeIds (first, last) ++ ids).takeWhile (fun id => decide (id ≤ committedId)) = []
    ∧ (rangeIds (first, last) ++ ids).dropWhile (fun id => decide (id ≤ committedId))
      = rangeIds (first, last) ++ ids := by
  have hcons : rangeIds (first, last) = first :: idsFrom (first + 1) (last - first).toNat := by
    rw [rangeIds]
    dsimp only
    rw [show (last - first + 1).toNat = (last - first).toNat + 1 by omega, idsFrom]
  have hfirst : decide (first ≤ committedId) = false := decide_eq_false (by omega)
  rw [hcons, cons_append, takeWhile_cons, dropWhile_cons, hfirst]
  exact ⟨rfl, rfl⟩

lemma commitLoop_spec (committedId : ℤ) (ranges : List (ℤ × ℤ)) (hranges : ∀ range ∈ ranges, range.1 ≤ range.2) :
    (commitLoop committedId ranges).1
      = ((ranges.flatMap rangeIds).takeWhile fun id => decide (id ≤ committedId)).length
    ∧ (commitLoop committedId ranges).2.flatMap rangeIds
      = (ranges.flatMap rangeIds).dropWhile (fun id => decide (id ≤ committedId))
    ∧ ∀ range ∈ (commitLoop committedId ranges).2, range.1 ≤ range.2 := by
  induction ranges with
  | nil => exact ⟨rfl, rfl, forall_mem_nil _⟩
  | cons range rest ih =>
    obtain ⟨first, last⟩ := range
    have hle : first ≤ last := hranges _ mem_cons_self
    have hrest := fun range hmem => hranges range (mem_cons_of_mem _ hmem)
    obtain ⟨hcount, hids, hrest'⟩ := ih hrest
    have hbound : ∀ id ∈ rangeIds (first, last), first ≤ id ∧ id ≤ last := by
      intro id hmem
      have h := mem_idsFrom _ hmem
      dsimp only at h
      omega
    rw [commitLoop, flatMap_cons]
    split
    · rename_i hall
      have hpos : ∀ id ∈ rangeIds (first, last), decide (id ≤ committedId) = true := by
        intro id hmem
        have h := hbound id hmem
        exact decide_eq_true (by omega)
      rw [takeWhile_append_of_pos hpos, dropWhile_append_of_pos hpos]
      refine ⟨?_, hids, hrest'⟩
      dsimp only
      rw [hcount, length_append, Nat.cast_add, rangeIds, length_idsFrom]
      dsimp only
      omega
    rename_i hall
    split
    · rename_i hnone
      obtain ⟨htake, hdrop⟩ := stop_rangeIds hle hnone (rest.flatMap rangeIds)
      rw [htake, hdrop]
      exact ⟨rfl, rfl, hranges⟩
    rename_i hnone
    -- The range is cut behind the committed id.
    have hcut : rangeIds (first, last)
        = rangeIds (first, committedId) ++ rangeIds (committedId + 1, last) := by
      rw [rangeIds, rangeIds, rangeIds]
      dsimp only
      rw [show (last - first + 1).toNat = (committedId - first + 1).toNat
        + (last - (committedId + 1) + 1).toNat by omega, idsFrom_add,
        show first + ((committedId - first + 1).toNat : ℤ) = committedId + 1 by omega]
    have hpos : ∀ id ∈ rangeIds (first, committedId), decide (id ≤ committedId) = true := by
      intro id hmem
      have h := mem_idsFrom _ hmem
      dsimp only at h
      exact decide_eq_true (by omega)
    obtain ⟨htake, hdrop⟩ := stop_rangeIds (show committedId + 1 ≤ last by omega)
      (Int.lt_succ committedId) (rest.flatMap rangeIds)
    rw [hcut, append_assoc, takeWhile_append_of_pos hpos, dropWhile_append_of_pos hpos, htake, hdrop]
    refine ⟨?_, rfl, ?_⟩
    · rw [append_nil, rangeIds, length_idsFrom]
      dsimp only
      omega
    intro range hmem
    rcases mem_cons.mp hmem with rfl | hmem
    · dsimp only
      omega
    · exact hrest range hmem

/-! ## Runs -/

/-- A buffer and what is known of it outside. -/
structure Traced where
  buffer : MessageWriteBuffer
  added : List MessageInfo
  /-- Accepted for good: in safe mode these are committed. -/
  confirmed : List QueuedMessage
  /-- Accepted and not committed, with their ids. -/
  pending : List (ℤ × QueuedMessage)

/-- The calls of a buffer.  A response says how many of the messages that were sent are accepted, in safe mode
also the id of the first of them and the last id that is committed. -/
inductive BufferEvent
  | add (limiterAllows : Bool) (msg : MessageInfo)
  | convert (env : ConvertEnv)
  | respond (acceptedMsgCount : ℕ)
  | respondSafe (acceptedMsgCount : ℕ) (committedId acceptedMsgBeginId : ℤ)
  | resetCursor
  | configure (config : MergeConfig)
  | setSealed
  | steal (env env' : ConvertEnv)

/-- What has not been accepted of what is to be sent; requests are filled from its front. -/
def MessageWriteBuffer.unsent (buffer : MessageWriteBuffer) : List QueuedMessage :=
  buffer.pipeline.sendQueue.drop buffer.unsendCursor

def MessageWriteBuffer.init (config : MergeConfig) : MessageWriteBuffer where
  writeQueue := []
  pipeline := ⟨[], [], fun _ => 0, []⟩
  uncommittedMsgs := []
  unsendCursor := 0
  canAdd := true
  isSealed := false
  minCheckpointIdInMerge := -1
  ignoreUpdate := false
  config := config

namespace Traced

def init (config : MergeConfig) : Traced := ⟨.init config, [], [], []⟩

/-- The messages that are accepted now, with the ids that they get. -/
def accept (acceptedMsgCount : ℕ) (acceptedMsgBeginId : ℤ) (traced : Traced) : List (ℤ × QueuedMessage) :=
  traced.pending ++ (idsFrom acceptedMsgBeginId acceptedMsgCount).zip
    (traced.buffer.unsent.take acceptedMsgCount)

def apply (zlib : ZlibCompressor) (traced : Traced) : BufferEvent → Traced
  | .add limiterAllows msg =>
    let (success, buffer) := traced.buffer.addWriteMessage limiterAllows msg
    { traced with
      buffer := buffer
      added := if success then traced.added ++ [msg] else traced.added }
  | .convert env => { traced with buffer := traced.buffer.convertMessage zlib env }
  | .respond acceptedMsgCount =>
    { traced with
      buffer := (traced.buffer.updateBuffer acceptedMsgCount).2
      confirmed := traced.confirmed ++ traced.buffer.unsent.take acceptedMsgCount }
  | .respondSafe acceptedMsgCount committedId acceptedMsgBeginId =>
    let accepted := traced.accept acceptedMsgCount acceptedMsgBeginId
    { traced with
      buffer := (traced.buffer.updateBufferSafe acceptedMsgCount committedId acceptedMsgBeginId).2
      confirmed := traced.confirmed
        ++ (accepted.takeWhile fun entry => decide (entry.1 ≤ committedId)).map Prod.snd
      pending := accepted.dropWhile fun entry => decide (entry.1 ≤ committedId) }
  | .resetCursor => { traced with buffer := traced.buffer.resetUnsendCursor, pending := [] }
  | .configure config => { traced with buffer := { traced.buffer with config := config } }
  | .setSealed => { traced with buffer := { traced.buffer with isSealed := true } }
  | .steal env env' => { traced with buffer := (traced.buffer.stealUnsendMessage zlib env env').2.2 }

end Traced

/-- What can happen: a broker accepts what it was sent, and says in safe mode what is committed; a buffer whose
messages were stolen is not used any more.  (Where `mergeCount` is 0 the source reads the first message of an
empty vector.) -/
def BufferEvent.Possible (zlib : ZlibCompressor) (safeMode : Bool) (traced : Traced) : BufferEvent → Prop
  | .respond acceptedMsgCount => safeMode = false ∧ acceptedMsgCount ≤ traced.buffer.unsent.length
  | .respondSafe acceptedMsgCount _ _ => safeMode = true ∧ acceptedMsgCount ≤ traced.buffer.unsent.length
  | .configure config => 0 < config.mergeCount
  | .steal env env' => (traced.buffer.stealUnsendMessage zlib env env').1 = false
  | _ => True

/-- The states of the runs whose events are all allowed. -/
inductive Reachable (zlib : ZlibCompressor) (config : MergeConfig) (allowed : Traced → BufferEvent → Prop) :
    Traced → Prop
  | init : Reachable zlib config allowed (Traced.init config)
  | step {traced : Traced} (event : BufferEvent) : Reachable zlib config allowed traced →
      allowed traced event → Reachable zlib config allowed (traced.apply zlib event)

/-- Each message that was added is accepted for good or in the buffer, and the messages in front of the cursor
are those that wait for a commit. -/
structure Accounts (safeMode : Bool) (traced : Traced) : Prop where
  perm : (traced.confirmed.flatMap QueuedMessage.members ++ traced.buffer.members).Perm traced.added
  pending_eq : traced.pending.map Prod.snd
    = traced.buffer.pipeline.sendQueue.take traced.buffer.unsendCursor
  length_pending : traced.pending.length = traced.buffer.unsendCursor
  ids_eq : traced.pending.map Prod.fst = traced.buffer.uncommittedMsgs.flatMap rangeIds
  ranges : ∀ range ∈ traced.buffer.uncommittedMsgs, range.1 ≤ range.2
  ignoreUpdate_eq : traced.buffer.ignoreUpdate = false
  mergeCount_pos : 0 < traced.buffer.config.mergeCount
  pending_nil : safeMode = false → traced.pending = []

namespace Accounts

variable {zlib : ZlibCompressor} {safeMode : Bool} {traced : Traced}

lemma init {config : MergeConfig} (hcount : 0 < config.mergeCount) : Accounts safeMode (Traced.init config) :=
  ⟨Perm.refl _, rfl, rfl, rfl, forall_mem_nil _, rfl, hcount, fun _ => rfl⟩

section
variable (h : Accounts safeMode traced)
include h

lemma unsendCursor_le :
    traced.buffer.unsendCursor ≤ traced.buffer.pipeline.sendQueue.length := by
  have hlength := congrArg length h.pending_eq
  rw [length_map, h.length_pending, length_take] at hlength
  omega

lemma continues {buffer : MessageWriteBuffer}
    (hcontinues : Continues traced.buffer buffer) : Accounts safeMode { traced with buffer := buffer } := by
  refine ⟨(hcontinues.perm.append_left _).trans h.perm, ?_, ?_, ?_, ?_, ?_, ?_, h.pending_nil⟩
  · obtain ⟨behind, hsent⟩ := hcontinues.sent
    dsimp only
    rw [h.pending_eq, hcontinues.unsendCursor_eq, ← hsent, take_append_of_le_length h.unsendCursor_le]
  · exact h.length_pending.trans hcontinues.unsendCursor_eq.symm
  · dsimp only
    rw [h.ids_eq, hcontinues.uncommittedMsgs_eq]
  · dsimp only
    rw [hcontinues.uncommittedMsgs_eq]
    exact h.ranges
  · exact hcontinues.ignoreUpdate_eq.trans h.ignoreUpdate_eq
  · dsimp only
    rw [hcontinues.config_eq]
    exact h.mergeCount_pos

lemma add (limiterAllows : Bool) (msg : MessageInfo) :
    Accounts safeMode (traced.apply zlib (.add limiterAllows msg)) := by
  rw [Traced.apply]
  rcases traced.buffer.addWriteMessage_cases limiterAllows msg with hrefused | ⟨-, -, hadded⟩
  · rw [hrefused]
    exact h
  rw [hadded]
  refine { h with perm := ?_ }
  have hperm := h.perm.append_right [msg]
  simpa [members, append_assoc] using hperm

/-- Messages leave at the front of the queue for sending. -/
lemma perm_pop (count : ℕ) :
    ((traced.confirmed ++ traced.buffer.pipeline.sendQueue.take count).flatMap QueuedMessage.members
      ++ (traced.buffer.popWriteMessage count).2.members).Perm traced.added := by
  refine Perm.trans ?_ h.perm
  rw [perm_iff_count]
  intro msg
  have hsplit : traced.buffer.pipeline.sendQueue.flatMap QueuedMessage.members
      = (traced.buffer.pipeline.sendQueue.take count).flatMap QueuedMessage.members
        ++ (traced.buffer.pipeline.sendQueue.drop count).flatMap QueuedMessage.members := by
    rw [← flatMap_append, take_append_drop]
  simp only [members, Pipeline.members, popWriteMessage, hsplit,
    flatMap_append, count_append]
  omega

end

variable {acceptedMsgCount : ℕ}

lemma respond (h : Accounts false traced) (hcount : acceptedMsgCount ≤ traced.buffer.unsent.length) :
    Accounts false (traced.apply zlib (.respond acceptedMsgCount)) := by
  have hpending := h.pending_nil rfl
  have hcursor : traced.buffer.unsendCursor = 0 := by
    rw [← h.length_pending, hpending]
    rfl
  rw [Traced.apply, updateBuffer, h.ignoreUpdate_eq]
  rw [unsent, hcursor, drop_zero] at hcount ⊢
  split
  · rename_i hzero
    rw [hzero, take_zero, append_nil]
    exact h
  rw [if_neg (by simp)]
  refine ⟨h.perm_pop acceptedMsgCount, ?_, ?_, h.ids_eq, h.ranges, h.ignoreUpdate_eq, h.mergeCount_pos, h.pending_nil⟩
  · simp only [popWriteMessage, updateSendBuffer, hpending, hcursor,
      length_take, Nat.zero_add, Nat.min_eq_left hcount, Nat.sub_self]
    rfl
  simp only [popWriteMessage, updateSendBuffer, hpending, hcursor,
    length_take, Nat.zero_add, Nat.min_eq_left hcount, Nat.sub_self]
  rfl

/-- The messages that wait for a commit after a response are those in front of the cursor. -/
lemma map_snd_accept (h : Accounts safeMode traced) (acceptedMsgBeginId : ℤ) (acceptedMsgCount : ℕ) :
    (traced.accept acceptedMsgCount acceptedMsgBeginId).map snd
    = traced.buffer.pipeline.sendQueue.take (traced.buffer.unsendCursor + acceptedMsgCount) := by
  rw [Traced.accept, map_append, h.pending_eq, map_snd_zip, take_add, unsent]
  rw [length_idsFrom, length_take]
  exact Nat.min_le_left _ _

/-- The ranges that wait for a commit after a response. -/
lemma map_fst_accept (h : Accounts safeMode traced) (acceptedMsgBeginId : ℤ)
    (hcount : acceptedMsgCount ≤ traced.buffer.unsent.length) :
    (traced.accept acceptedMsgCount acceptedMsgBeginId).map fst
    = (traced.buffer.uncommittedMsgs ++ if acceptedMsgCount > 0 then
        [(acceptedMsgBeginId, acceptedMsgBeginId + acceptedMsgCount - 1)] else []).flatMap rangeIds := by
  rw [Traced.accept, map_append, h.ids_eq, map_fst_zip, flatMap_append]
  · congr 1
    split
    · rename_i hpos
      rw [flatMap_singleton, rangeIds_accepted _ hpos]
    rename_i hzero
    rw [Nat.eq_zero_of_not_pos hzero]
    rfl
  · rw [length_idsFrom, length_take, Nat.min_eq_left hcount]

/-- The entries that are taken off a list of accepted ones are at the front of the queue. -/
lemma split_accepted {taken left : List (ℤ × QueuedMessage)} {queue : List QueuedMessage} {count : ℕ}
    (h : (taken ++ left).map snd = queue.take count) : taken.map snd = queue.take taken.length
    ∧ left.map snd = (queue.drop taken.length).take (count - taken.length) := by
  have hle : taken.length ≤ count := by
    have hlength := congrArg length h
    rw [length_map, length_append, length_take] at hlength
    omega
  rw [map_append] at h
  have htaken : (taken.map snd).length = taken.length := length_map _
  constructor
  · calc taken.map snd
        = (taken.map snd ++ left.map snd).take taken.length := (take_left' htaken).symm
      _ = queue.take taken.length := by rw [h, take_take, Nat.min_eq_left hle]
  · calc left.map snd
        = (taken.map snd ++ left.map snd).drop taken.length := (drop_left' htaken).symm
      _ = (queue.drop taken.length).take (count - taken.length) := by rw [h, drop_take]

lemma respondSafe (h : Accounts true traced) (committedId acceptedMsgBeginId : ℤ)
    (hcount : acceptedMsgCount ≤ traced.buffer.unsent.length) :
    Accounts true (traced.apply zlib (.respondSafe acceptedMsgCount committedId acceptedMsgBeginId)) := by
  have hsnd := h.map_snd_accept acceptedMsgBeginId acceptedMsgCount
  have hfst := h.map_fst_accept acceptedMsgBeginId hcount
  have hroom : traced.buffer.unsendCursor + acceptedMsgCount ≤ traced.buffer.pipeline.sendQueue.length := by
    have hle := h.unsendCursor_le
    rw [unsent, length_drop] at hcount
    omega
  rw [Traced.apply, updateBufferSafe, updateCommitBuffer,
    updateSendBuffer, h.ignoreUpdate_eq, if_neg (by simp)]
  dsimp only
  generalize hranges : traced.buffer.uncommittedMsgs ++ (if acceptedMsgCount > 0 then
    [(acceptedMsgBeginId, acceptedMsgBeginId + acceptedMsgCount - 1)] else []) = ranges at hfst ⊢
  generalize traced.accept acceptedMsgCount acceptedMsgBeginId = accepted at hsnd hfst ⊢
  have hordered : ∀ range ∈ ranges, range.1 ≤ range.2 := by
    intro range hmem
    rw [← hranges] at hmem
    rcases mem_append.mp hmem with hmem | hmem
    · exact h.ranges range hmem
    split at hmem
    · rw [mem_singleton.mp hmem]
      dsimp only
      omega
    · exact absurd hmem not_mem_nil
  obtain ⟨hcommitted, hids, hordered'⟩ := commitLoop_spec committedId ranges hordered
  rw [← hfst, takeWhile_map, length_map] at hcommitted
  rw [← hfst, dropWhile_map] at hids
  have hsplit : accepted.takeWhile (fun entry => decide (entry.1 ≤ committedId))
      ++ accepted.dropWhile (fun entry => decide (entry.1 ≤ committedId)) = accepted :=
    takeWhile_append_dropWhile
  change _ = ((accepted.takeWhile fun entry => decide (entry.1 ≤ committedId)).length : ℤ) at hcommitted
  change _ = (accepted.dropWhile fun entry => decide (entry.1 ≤ committedId)).map fst at hids
  generalize accepted.takeWhile (fun entry => decide (entry.1 ≤ committedId)) = taken at hcommitted hsplit ⊢
  generalize accepted.dropWhile (fun entry => decide (entry.1 ≤ committedId)) = left at hids hsplit ⊢
  subst hsplit
  obtain ⟨htaken, hleft⟩ := split_accepted hsnd
  have hlength : taken.length + left.length = traced.buffer.unsendCursor + acceptedMsgCount := by
    rw [← length_append, ← length_map snd, hsnd, length_take, Nat.min_eq_left hroom]
  split
  · rename_i hnone
    have hzero : taken.length = 0 := by omega
    rw [length_eq_zero_iff] at hzero
    subst hzero
    rw [map_nil, append_nil]
    exact ⟨h.perm, hsnd, by simpa using hlength, hids.symm, hordered', rfl, h.mergeCount_pos,
      fun hfalse => absurd hfalse (by simp)⟩
  rw [hcommitted, Int.toNat_natCast, htaken]
  have hpopped : (traced.buffer.pipeline.sendQueue.take taken.length).length = taken.length := by
    rw [length_take]
    omega
  refine ⟨h.perm_pop taken.length, ?_, ?_, hids.symm, hordered', rfl, h.mergeCount_pos,
    fun hfalse => absurd hfalse (by simp)⟩
  · simp only [popWriteMessage, hpopped]
    exact hleft
  · simp only [popWriteMessage, hpopped]
    omega

lemma apply (h : Accounts safeMode traced) {event : BufferEvent} (hpossible : event.Possible zlib safeMode traced) :
    Accounts safeMode (traced.apply zlib event) := by
  cases event with
  | add limiterAllows msg => exact h.add limiterAllows msg
  | convert env => exact h.continues (continues_convertMessage zlib env h.mergeCount_pos)
  | respond acceptedMsgCount =>
    obtain ⟨rfl, hcount⟩ := hpossible
    exact h.respond hcount
  | respondSafe acceptedMsgCount committedId acceptedMsgBeginId =>
    obtain ⟨rfl, hcount⟩ := hpossible
    exact h.respondSafe committedId acceptedMsgBeginId hcount
  | resetCursor =>
    exact ⟨h.perm, rfl, rfl, rfl, forall_mem_nil _, h.ignoreUpdate_eq, h.mergeCount_pos, fun _ => rfl⟩
  | configure config =>
    exact { h with mergeCount_pos := hpossible }
  | setSealed =>
    exact { h with }
  | steal env env' =>
    rw [Traced.apply, stealUnsendMessage_failed zlib env env' hpossible]
    exact h.continues (convertAll_spec zlib env env' h.mergeCount_pos).1

end Accounts

lemma Reachable.accounts {zlib : ZlibCompressor} {config : MergeConfig} {safeMode : Bool}
    {allowed : Traced → BufferEvent → Prop}
    (hallowed : ∀ traced event, allowed traced event → event.Possible zlib safeMode traced)
    (hcount : 0 < config.mergeCount) {traced : Traced} (h : Reachable zlib config allowed traced) :
    Accounts safeMode traced := by
  induction h with
  | init => exact .init hcount
  | step event _ hevent ih => exact ih.apply (hallowed _ event hevent)

/-! ## Small runs -/

/-- Two merge ranges, and up to two messages in one. -/
def mergeTwo : MergeConfig := ⟨true, 2, 100, 100, some (RangeUtil.init 1 2)⟩

def plainMessage (hashId : UInt16) (checkpointId : ℤ) (data : Bytes) : MessageInfo :=
  ⟨false, false, 0, hashId, checkpointId, data⟩

/-- A pool that always has a block, or never. -/
def poolEnv (granted : Bool) : ConvertEnv := ⟨fun _ => granted, fun _ => false⟩

end Havenask.Swift
