import Havenask.Swift.WriteBufferRun

/-!
# Stealing the messages that are not sent

`MessageWriteBuffer::stealUnsendMessage` converts all that waits and then takes the queue for sending apart
again.  A merged message has a 16-bit count of its messages and 30 bits for the end of each, so what is merged
must be few and small enough.

* **`packed_packVec`**: what is sent for a vector of messages gives them back, compressed or not.
* **`Sound.step`**: conversions keep it so that everything can be taken apart.
* **`steal_complete`**: what is stolen is what the broker has not accepted.
-/

namespace Havenask.Swift

open List MessageInfo MessageWriteBuffer QueuedMessage Pipeline MsgMap

open Relation (ReflTransGen)

def MessageInfo.raw (msg : MessageInfo) : UInt8 × UInt16 × Bytes := (msg.uint8Payload, msg.uint16Payload, msg.data)

def ZlibCompressor.NonEmpty (zlib : ZlibCompressor) : Prop :=
  ∀ data compressed, zlib.compress data = some compressed → compressed ≠ []

/-! ## What a queued message stands for -/

/-- A message that is not merged, compressed or not. -/
structure Plain (zlib : ZlibCompressor) (queued : QueuedMessage) (original : MessageInfo) : Prop where
  members_eq : queued.members = [original]
  isMerged_eq : queued.msg.isMerged = false
  uint8Payload_eq : queued.msg.uint8Payload = original.uint8Payload
  uint16Payload_eq : queued.msg.uint16Payload = original.uint16Payload
  checkpointId_eq : queued.msg.checkpointId = original.checkpointId
  data_eq : (queued.msg.compress = false ∧ queued.msg.data = original.data)
    ∨ (queued.msg.compress = true ∧ zlib.decompress queued.msg.data = some original.data)

/-- What `getUnSendMsgs` makes of a queued message are its members. -/
def Packed (zlib : ZlibCompressor) (queued : QueuedMessage) : Prop :=
  ∃ msgs, MessageWriteBuffer.unsentMessages zlib queued.msg = some msgs
    ∧ msgs.map MessageInfo.raw = queued.members.map MessageInfo.raw

section
variable {zlib : ZlibCompressor} {config : MergeConfig} {queued : QueuedMessage} {original : MessageInfo}

lemma Plain.compressQueued (config : MergeConfig) (h : Plain zlib queued original) (flag : Bool) :
    Plain zlib (compressQueued zlib config flag queued) original
    ∧ (Swift.compressQueued zlib config flag queued).msg.data.length ≤ queued.msg.data.length := by
  rw [Swift.compressQueued]
  split
  · rw [compressMessage, h.isMerged_eq]
    simp only [Bool.false_eq_true, if_false]
    rcases h.data_eq with ⟨hplain, hdata⟩ | ⟨hcompressed, -⟩
    · rw [hplain]
      simp only [Bool.false_eq_true, if_false]
      split
      · split
        · exact ⟨h, le_rfl⟩
        · rename_i compressed hcompress
          split
          · rename_i hlt
            refine ⟨⟨h.members_eq, rfl, h.uint8Payload_eq, h.uint16Payload_eq, h.checkpointId_eq,
              .inr ⟨rfl, ?_⟩⟩, hlt.le⟩
            rw [← hdata]
            exact zlib.decompress_compress hcompress
          · exact ⟨h, le_rfl⟩
      · exact ⟨h, le_rfl⟩
    · rw [hcompressed]
      exact ⟨h, le_rfl⟩
  · exact ⟨h, le_rfl⟩

lemma Plain.content_eq (h : Plain zlib queued original) : queued.msg.content zlib = original.raw := by
  rw [content, raw, plainData, h.uint8Payload_eq, h.uint16Payload_eq]
  rcases h.data_eq with ⟨hplain, hdata⟩ | ⟨hcompressed, hdata⟩
  · rw [hplain, if_neg (by simp), hdata]
  · rw [hcompressed, if_pos rfl, hdata]
    rfl

lemma Plain.packed (h : Plain zlib queued original) : Packed zlib queued := by
  rw [Packed, h.members_eq]
  rcases h.data_eq with ⟨hplain, hdata⟩ | ⟨hcompressed, hdata⟩
  · simp only [unsentMessages, hplain, h.isMerged_eq, Bool.false_eq_true, if_false]
    refine ⟨_, rfl, ?_⟩
    simp only [map_singleton, raw, h.uint8Payload_eq, h.uint16Payload_eq, hdata]
  simp only [unsentMessages, hcompressed, if_true, decompressMessageInfo, h.isMerged_eq,
    Bool.false_eq_true, if_false, hdata]
  refine ⟨_, rfl, ?_⟩
  simp only [map_singleton, raw, h.uint8Payload_eq, h.uint16Payload_eq]

lemma unpackMessageInfo_mergeMessage {hashId : UInt16} {msgs : List MessageInfo} (hne : msgs ≠ [])
    (hcount : msgs.length < 2 ^ 16) (hsize : (msgs.flatMap data).length < 2 ^ 30)
    {msg : MessageInfo} (hdata : msg.data = (mergeMessage hashId msgs).data) :
    ∃ infos, unpackMessageInfo zlib msg = some infos
    ∧ infos.map raw = msgs.map (content zlib) := by
  obtain ⟨messages, hunpack, hcontents⟩ := unpackMessage_mergeMessage zlib (-1) (-1) hashId hne hcount hsize
  rw [unpackMessageInfo, hdata, hunpack]
  refine ⟨_, rfl, ?_⟩
  rw [map_map, ← hcontents]
  rfl

lemma unsentMessages_mergeMessage (hzlib : zlib.NonEmpty) (threshold : ℕ) (hashId : UInt16)
    {msgs : List MessageInfo} (hne : msgs ≠ []) (hcount : msgs.length < 2 ^ 16)
    (hsize : (msgs.flatMap data).length < 2 ^ 30) : ∃ infos, unsentMessages zlib
      (compressMessage zlib threshold (mergeMessage hashId msgs)) = some infos
    ∧ infos.map raw = msgs.map (content zlib) := by
  have hplain : ∃ infos, unsentMessages zlib (mergeMessage hashId msgs) = some infos
      ∧ infos.map raw = msgs.map (content zlib) :=
    unpackMessageInfo_mergeMessage hne hcount hsize rfl
  rw [compressMessage, show (mergeMessage hashId msgs).compress = false from rfl,
    show (mergeMessage hashId msgs).isMerged = true from rfl, if_neg (by simp), if_pos rfl]
  cases hcompressed : compressMergedMessage zlib threshold (mergeMessage hashId msgs).data with
  | none => exact hplain
  | some data =>
    rw [compressMergedMessage] at hcompressed
    split at hcompressed
    · cases hcompressed
    rename_i hlong
    split at hcompressed
    · cases hcompressed
    split at hcompressed
    · cases hcompressed
    rename_i compressed hcompress
    dsimp only at hcompressed
    split at hcompressed
    · obtain rfl := Option.some.inj hcompressed
      have hlength : ((mergeMessage hashId msgs).data.take 2).length = 2 := by
        rw [length_take]
        omega
      have hpos := length_pos_iff.mpr (hzlib _ _ hcompress)
      have hdecompress : decompressMergedMessage zlib ((mergeMessage hashId msgs).data.take 2 ++ compressed)
          = some (mergeMessage hashId msgs).data := by
        rw [decompressMergedMessage, if_neg (by rw [length_append]; omega),
          drop_left' hlength, take_left' hlength, zlib.decompress_compress hcompress,
          Option.map_some, take_append_drop]
      rw [unsentMessages, if_pos rfl, decompressMessageInfo]
      simp only [if_true, hdecompress]
      exact unpackMessageInfo_mergeMessage hne hcount hsize rfl
    · cases hcompressed

/-- The length of the data that is queued. -/
def dataSize (queue : List QueuedMessage) : ℕ := (queue.map fun queued => queued.msg.data.length).sum

lemma dataSize_append (queue queue' : List QueuedMessage) :
    dataSize (queue ++ queue') = dataSize queue + dataSize queue' := by
  simp [dataSize]

lemma dataSize_nil : dataSize [] = 0 := rfl

lemma dataSize_cons (queued : QueuedMessage) (queue : List QueuedMessage) :
    dataSize (queued :: queue) = queued.msg.data.length + dataSize queue := by
  simp [dataSize]

lemma length_flatMap_data (vec : List QueuedMessage) : ((vec.map msg).flatMap data).length = dataSize vec := by
  rw [length_flatMap, map_map]
  rfl

variable {vec : List QueuedMessage}

lemma raw_members_of_plain (hplain : ∀ queued ∈ vec, ∃ original, Plain zlib queued original) :
    (vec.map msg).map (content zlib)
    = (vec.flatMap QueuedMessage.members).map MessageInfo.raw := by
  induction vec with
  | nil => rfl
  | cons queued vec ih =>
    obtain ⟨original, h⟩ := hplain queued mem_cons_self
    rw [map_cons, map_cons, flatMap_cons, map_append, h.members_eq, h.content_eq,
      ih fun queued' hmem => hplain queued' (mem_cons_of_mem _ hmem)]
    rfl

/-- What is sent for a vector gives its members back. -/
lemma packed_packVec (hzlib : zlib.NonEmpty) (hashId : UInt16) (hne : vec ≠ [])
    (hplain : ∀ queued ∈ vec, ∃ original, Plain zlib queued original) (hcount : vec.length < 2 ^ 16)
    (hsize : dataSize vec < 2 ^ 30) : Packed zlib (packVec zlib config hashId vec) := by
  have hmerged : Packed zlib ⟨compressMessage zlib config.compressThresholdInBytes
      (mergeMessage hashId (vec.map QueuedMessage.msg)), vec.flatMap QueuedMessage.members⟩ := by
    have hne' : vec.map msg ≠ [] := by simpa using hne
    have hcount' : (vec.map msg).length < 2 ^ 16 := by simpa using hcount
    obtain ⟨infos, hinfos, hraw⟩ := unsentMessages_mergeMessage hzlib config.compressThresholdInBytes hashId
      hne' hcount' (by rw [length_flatMap_data]; exact hsize)
    exact ⟨infos, hinfos, hraw.trans (raw_members_of_plain hplain)⟩
  cases vec with
  | nil => exact absurd rfl hne
  | cons queued rest =>
    cases rest with
    | nil =>
      obtain ⟨original, h⟩ := hplain queued mem_cons_self
      exact h.packed
    | cons next rest => exact hmerged

/-- Compressing the only message of a vector keeps what it stands for. -/
lemma compressSingle_plain (config : MergeConfig) (flag : Bool)
    (hplain : ∀ queued ∈ vec, ∃ original, Plain zlib queued original) :
    (∀ queued ∈ compressSingle zlib config flag vec, ∃ original, Plain zlib queued original)
    ∧ (compressSingle zlib config flag vec).length = vec.length
    ∧ dataSize (compressSingle zlib config flag vec) ≤ dataSize vec := by
  cases vec with
  | nil => exact ⟨hplain, rfl, le_rfl⟩
  | cons queued rest =>
    cases rest with
    | cons next rest => exact ⟨hplain, rfl, le_rfl⟩
    | nil =>
      obtain ⟨original, h⟩ := hplain queued mem_cons_self
      obtain ⟨h', hle⟩ := h.compressQueued config flag
      refine ⟨?_, rfl, ?_⟩
      · intro queued' hmem
        rw [mem_singleton.mp hmem]
        exact ⟨original, h'⟩
      · rw [compressSingle, dataSize_cons, dataSize_cons]
        omega

end

/-! ## Conversions -/

/-- What waits is plain and few enough to be merged, what is to be sent can be taken apart. -/
structure Sound (zlib : ZlibCompressor) (pipeline : Pipeline) : Prop where
  queue_plain : ∀ queued ∈ pipeline.toMergeQueue, ∃ original, Plain zlib queued original
  map_plain : ∀ entry ∈ pipeline.msgMap, ∀ queued ∈ entry.2, ∃ original, Plain zlib queued original
  map_count : ∀ entry ∈ pipeline.msgMap, entry.2.length < 2 ^ 16
  send_packed : ∀ queued ∈ pipeline.sendQueue, Packed zlib queued

/-- The length of the data that waits to be converted. -/
def Pipeline.waitingSize (pipeline : Pipeline) : ℕ :=
  dataSize pipeline.msgMap.contents + dataSize pipeline.toMergeQueue

section
variable {zlib : ZlibCompressor} {config : MergeConfig} {pipeline pipeline' : Pipeline}

section
variable (hzlib : zlib.NonEmpty) (hcount : config.mergeCount < 2 ^ 16) (h : Sound zlib pipeline)
  (hsize : pipeline.waitingSize < 2 ^ 30)
include hzlib hcount h hsize

/-- Each step of a conversion keeps the messages sound, and their data does not grow. -/
lemma Sound.step (hstep : Step zlib config pipeline pipeline') :
    Sound zlib pipeline' ∧ pipeline'.waitingSize ≤ pipeline.waitingSize := by
  obtain ⟨hqueue_plain, hmap_plain, hmap_count, hsend_packed⟩ := h
  cases hstep with
  | compressFront flag queued rest hqueue =>
    rw [hqueue] at hqueue_plain
    obtain ⟨original, hplain⟩ := hqueue_plain queued mem_cons_self
    obtain ⟨hplain', hle⟩ := hplain.compressQueued config flag
    refine ⟨⟨?_, hmap_plain, hmap_count, hsend_packed⟩, ?_⟩
    · exact forall_mem_cons.mpr ⟨⟨original, hplain'⟩, (forall_mem_cons.mp hqueue_plain).2⟩
    rw [waitingSize, waitingSize, hqueue]
    simp only [dataSize_cons]
    omega
  | sendFront queued rest _ hqueue =>
    rw [hqueue] at hqueue_plain
    obtain ⟨original, hplain⟩ := hqueue_plain queued mem_cons_self
    refine ⟨⟨(forall_mem_cons.mp hqueue_plain).2, hmap_plain, hmap_count, ?_⟩, ?_⟩
    · exact forall_mem_append.mpr ⟨hsend_packed, forall_mem_singleton.mpr hplain.packed⟩
    rw [waitingSize, waitingSize, hqueue]
    simp only [dataSize_cons]
    omega
  | push rangeUtil queued rest _ hqueue hroom =>
    rw [hqueue] at hqueue_plain
    obtain ⟨before, after, hset, hcontents, hbefore, hafter⟩ := setAt_split
      (rangeUtil.getMergeHashId queued.msg.uint16Payload) pipeline.msgMap
    generalize pipeline.msgMap.msgsAt (rangeUtil.getMergeHashId queued.msg.uint16Payload) = vec at hroom hcontents ⊢
    rw [hset]
    have hvec_plain : ∀ queued' ∈ vec, ∃ original, Plain zlib queued' original := by
      intro queued' hmem
      have hin : queued' ∈ pipeline.msgMap.contents := by
        rw [hcontents]
        exact mem_append_left _ (mem_append_right _ hmem)
      obtain ⟨entry, hentry, hmem⟩ := mem_flatMap.mp hin
      exact hmap_plain entry hentry queued' hmem
    refine ⟨⟨(forall_mem_cons.mp hqueue_plain).2, ?_, ?_, hsend_packed⟩, ?_⟩
    · refine forall_mem_append.mpr ⟨fun entry hmem => hmap_plain entry (hbefore entry hmem),
        forall_mem_cons.mpr ⟨?_, fun entry hmem => hmap_plain entry (hafter entry hmem)⟩⟩
      exact forall_mem_append.mpr ⟨hvec_plain, forall_mem_singleton.mpr (hqueue_plain queued mem_cons_self)⟩
    · refine forall_mem_append.mpr ⟨fun entry hmem => hmap_count entry (hbefore entry hmem),
        forall_mem_cons.mpr ⟨?_, fun entry hmem => hmap_count entry (hafter entry hmem)⟩⟩
      dsimp only
      rw [length_append, length_singleton]
      omega
    · rw [waitingSize, waitingSize, hqueue, hcontents]
      simp only [contents_append, contents_cons, dataSize_append, dataSize_cons, dataSize_nil]
      omega
  | compressAt flag before after hashId vec hmap =>
    rw [hmap] at hmap_plain hmap_count
    have hentry : (hashId, vec) ∈ before ++ (hashId, vec) :: after := mem_append_right _ mem_cons_self
    obtain ⟨hplain, hlength, hle⟩ := compressSingle_plain config flag (hmap_plain _ hentry)
    refine ⟨⟨hqueue_plain, forall_mem_replace hmap_plain hplain, forall_mem_replace hmap_count ?_, hsend_packed⟩, ?_⟩
    · exact hlength.trans_lt (hmap_count _ hentry)
    rw [waitingSize, waitingSize, hmap]
    simp only [contents_append, contents_cons, dataSize_append]
    dsimp only at hle
    omega
  | flush before after hashId vec hmap hne =>
    rw [waitingSize, hmap, contents_append, contents_cons, dataSize_append, dataSize_append] at hsize
    dsimp only at hsize
    rw [hmap] at hmap_plain hmap_count
    have hentry : (hashId, vec) ∈ before ++ (hashId, vec) :: after := mem_append_right _ mem_cons_self
    have hpacked : Packed zlib (packVec zlib config hashId vec) :=
      packed_packVec hzlib hashId hne (hmap_plain _ hentry) (hmap_count _ hentry) (by omega)
    refine ⟨⟨hqueue_plain, forall_mem_replace hmap_plain ?_, forall_mem_replace hmap_count ?_, ?_⟩, ?_⟩
    · exact forall_mem_nil _
    · exact Nat.two_pow_pos 16
    · exact forall_mem_append.mpr ⟨hsend_packed, forall_mem_singleton.mpr hpacked⟩
    rw [waitingSize, waitingSize, hmap]
    simp only [contents_append, contents_cons, dataSize_append, nil_append]
    omega
  | setSizes sizeMap => exact ⟨⟨hqueue_plain, hmap_plain, hmap_count, hsend_packed⟩, le_rfl⟩
  | clearMap hempty =>
    refine ⟨⟨hqueue_plain, forall_mem_nil _, forall_mem_nil _, hsend_packed⟩, ?_⟩
    rw [waitingSize, waitingSize, contents_eq_nil hempty]
    exact le_rfl

lemma Sound.steps (hsteps : ReflTransGen (Step zlib config) pipeline pipeline') :
    Sound zlib pipeline' ∧ pipeline'.waitingSize ≤ pipeline.waitingSize := by
  induction hsteps with
  | refl => exact ⟨h, le_rfl⟩
  | tail _ hstep ih =>
    obtain ⟨hsound, hle⟩ := ih.1.step hzlib hcount (ih.2.trans_lt hsize) hstep
    exact ⟨hsound, hle.trans ih.2⟩

end

end

/-- A buffer whose messages can all be converted and taken apart again. -/
structure Ready (zlib : ZlibCompressor) (buffer : MessageWriteBuffer) : Prop where
  sound : Sound zlib buffer.pipeline
  write_plain : ∀ queued ∈ buffer.writeQueue, ∃ original, Plain zlib queued original
  size : buffer.pipeline.waitingSize + dataSize buffer.writeQueue < 2 ^ 30
  mergeCount_pos : 0 < buffer.config.mergeCount
  mergeCount_lt : buffer.config.mergeCount < 2 ^ 16

namespace Ready

variable {zlib : ZlibCompressor} {buffer : MessageWriteBuffer}

lemma init {config : MergeConfig} (hpos : 0 < config.mergeCount) (hlt : config.mergeCount < 2 ^ 16) :
    Ready zlib (.init config) :=
  ⟨⟨forall_mem_nil _, forall_mem_nil _, forall_mem_nil _, forall_mem_nil _⟩,
    forall_mem_nil _, Nat.two_pow_pos 30, hpos, hlt⟩

lemma swapQueues (h : Ready zlib buffer) : Ready zlib buffer.swapQueues := by
  refine ⟨⟨h.write_plain, h.sound.map_plain, h.sound.map_count, h.sound.send_packed⟩, h.sound.queue_plain, ?_,
    h.mergeCount_pos, h.mergeCount_lt⟩
  have hsize := h.size
  rw [waitingSize] at hsize ⊢
  simp only [MessageWriteBuffer.swapQueues]
  omega

section
variable (hzlib : zlib.NonEmpty) (h : Ready zlib buffer)
include hzlib h

lemma doConvertMessage (env : ConvertEnv) :
    Ready zlib (buffer.doConvertMessage zlib env).2 := by
  obtain ⟨hsteps, -⟩ := doConvert_steps zlib env h.mergeCount_pos buffer.pipeline
  have hsize := h.size
  obtain ⟨hsound, hle⟩ := h.sound.steps hzlib h.mergeCount_lt (by omega) hsteps
  refine ⟨hsound, h.write_plain, ?_, h.mergeCount_pos, h.mergeCount_lt⟩
  simp only [MessageWriteBuffer.doConvertMessage]
  omega

lemma convertMessage (env : ConvertEnv) :
    Ready zlib (buffer.convertMessage zlib env) := by
  rw [convertMessage.eq_def]
  split
  · split
    · exact h
    · rename_i first rest _
      have hswap : Ready zlib { buffer.swapQueues with minCheckpointIdInMerge := first.msg.checkpointId } :=
        { h.swapQueues with }
      have hconvert := hswap.doConvertMessage hzlib env
      exact { hconvert with }
  · have hconvert := h.doConvertMessage hzlib env
    exact { hconvert with }

lemma convertAll (env env' : ConvertEnv) :
    Ready zlib (buffer.convertAll zlib env env').2 := by
  have hfirst := h.doConvertMessage hzlib env
  rw [MessageWriteBuffer.convertAll]
  dsimp only
  split
  · exact hfirst.swapQueues.doConvertMessage hzlib env'
  · exact hfirst

end

lemma popWriteMessage (h : Ready zlib buffer) (count : ℕ) : Ready zlib (buffer.popWriteMessage count).2 :=
  ⟨⟨h.sound.queue_plain, h.sound.map_plain, h.sound.map_count,
    fun queued hmem => h.sound.send_packed queued (mem_of_mem_drop hmem)⟩, h.write_plain, h.size,
    h.mergeCount_pos, h.mergeCount_lt⟩

lemma updateBuffer (h : Ready zlib buffer) (acceptedMsgCount : ℕ) :
    Ready zlib (buffer.updateBuffer acceptedMsgCount).2 := by
  have hupdated : Ready zlib (buffer.updateSendBuffer acceptedMsgCount) :=
    { h with }
  rw [MessageWriteBuffer.updateBuffer]
  split
  · exact h
  split
  · exact h
  · exact hupdated.popWriteMessage acceptedMsgCount

lemma updateBufferSafe (h : Ready zlib buffer) (acceptedMsgCount : ℕ) (committedId acceptedMsgBeginId : ℤ) :
    Ready zlib (buffer.updateBufferSafe acceptedMsgCount committedId acceptedMsgBeginId).2 := by
  have hupdated : Ready zlib (updateCommitBuffer committedId acceptedMsgBeginId
      acceptedMsgCount (buffer.updateSendBuffer acceptedMsgCount)).2 :=
    { h with }
  rw [MessageWriteBuffer.updateBufferSafe]
  split
  · exact h
  dsimp only
  split
  · exact hupdated
  · exact hupdated.popWriteMessage _

end Ready

/-- The data that waits in the buffer can be merged into one message, also with what is added, and so can as many
messages as are merged. -/
def BufferEvent.Fits (traced : Traced) : BufferEvent → Prop
  | .add _ msg => traced.buffer.pipeline.waitingSize + dataSize traced.buffer.writeQueue + msg.data.length < 2 ^ 30
  | .configure config => config.mergeCount < 2 ^ 16
  | _ => True

variable {zlib : ZlibCompressor}

lemma Ready.apply (hzlib : zlib.NonEmpty) {safeMode : Bool} {traced : Traced}
    (h : Ready zlib traced.buffer) {event : BufferEvent} (hpossible : event.Possible zlib safeMode traced)
    (hfits : event.Fits traced) : Ready zlib (traced.apply zlib event).buffer := by
  cases event with
  | add limiterAllows msg =>
    rw [Traced.apply]
    rcases traced.buffer.addWriteMessage_cases limiterAllows msg with hrefused | ⟨hcompress, hmerged, hadded⟩
    · rw [hrefused]
      exact h
    rw [hadded]
    refine ⟨h.sound, ?_, ?_, h.mergeCount_pos, h.mergeCount_lt⟩
    · refine forall_mem_append.mpr ⟨h.write_plain, forall_mem_singleton.mpr ?_⟩
      exact ⟨msg, rfl, hmerged, rfl, rfl, rfl, .inl ⟨hcompress, rfl⟩⟩
    dsimp only
    rw [dataSize_append, dataSize_cons, dataSize_nil]
    rw [BufferEvent.Fits] at hfits
    dsimp only
    omega
  | convert env => exact h.convertMessage hzlib env
  | respond acceptedMsgCount => exact h.updateBuffer acceptedMsgCount
  | respondSafe acceptedMsgCount committedId acceptedMsgBeginId =>
    exact h.updateBufferSafe acceptedMsgCount committedId acceptedMsgBeginId
  | resetCursor => exact { h with }
  | configure config => exact ⟨h.sound, h.write_plain, h.size, hpossible, hfits⟩
  | setSealed => exact { h with }
  | steal env env' =>
    rw [Traced.apply, stealUnsendMessage_failed zlib env env' hpossible]
    exact h.convertAll hzlib env env'

lemma Reachable.ready (hzlib : zlib.NonEmpty) {safeMode : Bool} {config : MergeConfig}
    (hpos : 0 < config.mergeCount) (hlt : config.mergeCount < 2 ^ 16) {traced : Traced}
    (h : Reachable zlib config (fun traced event => event.Possible zlib safeMode traced ∧ event.Fits traced)
      traced) : Ready zlib traced.buffer := by
  induction h with
  | init => exact .init hpos hlt
  | step event _ hallowed ih => exact ih.apply hzlib hallowed.1 hallowed.2

/-! ## Stealing -/

/-- Queued messages that can be taken apart give their members. -/
lemma mapM_unsentMessages {queue : List QueuedMessage} (hpacked : ∀ queued ∈ queue, Packed zlib queued) :
    ∃ msgs, queue.mapM (fun queued => unsentMessages zlib queued.msg) = some msgs
    ∧ msgs.flatten.map MessageInfo.raw = (queue.flatMap QueuedMessage.members).map MessageInfo.raw := by
  induction queue with
  | nil => exact ⟨[], rfl, rfl⟩
  | cons queued queue ih =>
    obtain ⟨hfirst, hrest⟩ := forall_mem_cons.mp hpacked
    obtain ⟨first, hunsent, hraw⟩ := hfirst
    obtain ⟨rest, hunsent', hraw'⟩ := ih hrest
    refine ⟨first :: rest, ?_, ?_⟩
    · rw [mapM_cons, hunsent, hunsent']
      rfl
    · rw [flatten_cons, map_append, hraw, hraw', flatMap_cons, map_append]

/-- No message is left behind in the merge map: it has none, or the conversion goes over it. -/
def MessageWriteBuffer.MapReached (buffer : MessageWriteBuffer) : Prop :=
  buffer.pipeline.msgMap.contents = []
    ∨ (buffer.config.merging ≠ none
      ∧ (buffer.writeQueue ≠ [] ∨ buffer.pipeline.toMergeQueue ≠ [] ∨ buffer.pipeline.sendQueue ≠ []))

section
variable {zlib : ZlibCompressor} {safeMode : Bool} {traced : Traced}

/-- Where all queues are empty, everything has been accepted. -/
lemma steal_empty (hmap : traced.buffer.MapReached) (hqueues : (traced.buffer.writeQueue.isEmpty
    && traced.buffer.pipeline.toMergeQueue.isEmpty && traced.buffer.pipeline.sendQueue.isEmpty) = true) :
    traced.buffer.writeQueue = [] ∧ traced.buffer.pipeline.toMergeQueue = []
    ∧ traced.buffer.pipeline.msgMap.contents = [] ∧ traced.buffer.pipeline.sendQueue = [] := by
  simp only [Bool.and_eq_true, List.isEmpty_iff] at hqueues
  obtain ⟨⟨hwrite, hmerge⟩, hsend⟩ := hqueues
  refine ⟨hwrite, hmerge, ?_, hsend⟩
  rcases hmap with hmap | ⟨-, hwrite' | hmerge' | hsend'⟩
  · exact hmap
  · exact absurd hwrite hwrite'
  · exact absurd hmerge hmerge'
  · exact absurd hsend hsend'

/-- After the conversions, what is not accepted is what is left of the queue for sending. -/
lemma perm_unsent (h : Accounts safeMode traced) (hwrite : traced.buffer.writeQueue = [])
    (hmerge : traced.buffer.pipeline.toMergeQueue = []) (hmap : traced.buffer.pipeline.msgMap.contents = []) :
    ((traced.confirmed ++ traced.pending.map Prod.snd).flatMap QueuedMessage.members
      ++ traced.buffer.unsent.flatMap QueuedMessage.members).Perm traced.added := by
  have hperm := h.perm
  rw [MessageWriteBuffer.members, Pipeline.members, hwrite, hmerge, hmap, flatMap_nil, append_nil,
    append_nil, append_nil] at hperm
  rw [h.pending_eq, flatMap_append, append_assoc, unsent, ← flatMap_append, take_append_drop]
  exact hperm

end

/-- In every run in which the data that waits for conversion stays below 2 ^ 30 bytes and at most 65535 messages are
merged into one: if no message is left behind in the merge map, then what is stolen is each message that was added
and is not accepted, once, as it was added, and the buffer is empty. -/
theorem steal_complete (zlib : ZlibCompressor) (hzlib : zlib.NonEmpty) (safeMode : Bool) (config : MergeConfig)
    (hpos : 0 < config.mergeCount) (hlt : config.mergeCount < 2 ^ 16) (traced : Traced)
    (hreachable : Reachable zlib config
      (fun traced event => event.Possible zlib safeMode traced ∧ event.Fits traced) traced)
    (env env' : ConvertEnv) (hmap : traced.buffer.MapReached) (msgs : List MessageInfo) (buffer : MessageWriteBuffer)
    (hsteal : traced.buffer.stealUnsendMessage zlib env env' = (true, msgs, buffer)) :
    (((traced.confirmed ++ traced.pending.map Prod.snd).flatMap QueuedMessage.members).map MessageInfo.raw
        ++ msgs.map MessageInfo.raw).Perm (traced.added.map MessageInfo.raw)
      ∧ buffer.writeQueue = [] ∧ buffer.pipeline.toMergeQueue = [] ∧ buffer.pipeline.msgMap.contents = []
      ∧ buffer.pipeline.sendQueue = [] := by
  have haccounts : Accounts safeMode traced := hreachable.accounts (fun _ _ hallowed => hallowed.1) hpos
  have hready := hreachable.ready hzlib hpos hlt
  rcases stealUnsendMessage_cases zlib env env' traced.buffer
    with ⟨hqueues, heq⟩ | heq | ⟨hsuccess, msgs', hunsent, heq⟩
  · -- Nothing is queued, and nothing is in the map.
    rw [heq] at hsteal
    cases hsteal
    obtain ⟨hwrite, hmerge, hcontents, hsend⟩ := steal_empty hmap hqueues
    refine ⟨?_, hwrite, hmerge, hcontents, hsend⟩
    have hperm := perm_unsent haccounts hwrite hmerge hcontents
    rw [MessageWriteBuffer.unsent, hsend, drop_nil, flatMap_nil, append_nil] at hperm
    rw [map_nil, append_nil]
    exact hperm.map _
  · rw [heq] at hsteal
    cases hsteal
  rw [heq] at hsteal
  cases hsteal
  refine ⟨?_, rfl, rfl, rfl, rfl⟩
  obtain ⟨hcontinues, hconverted⟩ := convertAll_spec zlib env env' haccounts.mergeCount_pos
  obtain ⟨hwrite, hmerge, hmap'⟩ := hconverted hsuccess
  have hcontents : (traced.buffer.convertAll zlib env env').2.pipeline.msgMap.contents = [] := by
    rcases hmap' with hnil | ⟨hmerging, hsame⟩
    · rw [hnil]
      rfl
    rcases hmap with hnil | ⟨hmerging', -⟩
    · rw [hsame]
      exact hnil
    · exact absurd hmerging hmerging'
  have hperm := perm_unsent (haccounts.continues hcontinues) hwrite hmerge hcontents
  -- The rest of the queue for sending is taken apart.
  have hpacked : ∀ queued ∈ (traced.buffer.convertAll zlib env env').2.unsent, Packed zlib queued :=
    fun queued hmem => (hready.convertAll hzlib env env').sound.send_packed queued (mem_of_mem_drop hmem)
  obtain ⟨vecs, hvecs, hraw⟩ := mapM_unsentMessages hpacked
  rw [getUnSendMsgs] at hunsent
  rw [MessageWriteBuffer.unsent] at hvecs
  rw [hvecs, Option.map_some] at hunsent
  obtain rfl := Option.some.inj hunsent
  rw [hraw, ← map_append]
  exact hperm.map _

/-- Two messages are merged into one and wait to be sent. -/
def mergedPair : Traced :=
  (((Traced.init mergeTwo).apply noCompressor (.add true (plainMessage 0 1 [7]))).apply noCompressor
    (.add true (plainMessage 0 2 [8, 9]))).apply noCompressor (.convert (poolEnv true))

/-- Two messages merged into one that was not sent come back as two. -/
theorem steal_complete_mergedPair : mergedPair.buffer.pipeline.sendQueue.length = 1
      ∧ ((mergedPair.buffer.stealUnsendMessage noCompressor (poolEnv true) (poolEnv true)).2.1.map
        MessageInfo.raw).Perm [(0, 0, [7]), (0, 0, [8, 9])] := by
  refine ⟨by decide, ?_⟩
  have hsteal : mergedPair.buffer.stealUnsendMessage noCompressor (poolEnv true) (poolEnv true)
      = (true, (mergedPair.buffer.stealUnsendMessage noCompressor (poolEnv true) (poolEnv true)).2.1,
        (mergedPair.buffer.stealUnsendMessage noCompressor (poolEnv true) (poolEnv true)).2.2) :=
    Prod.ext (by decide) rfl
  exact (steal_complete noCompressor (fun _ _ h => by cases h) false mergeTwo (by decide) (by decide)
    mergedPair (.step _ (.step _ (.step _ .init ⟨trivial, by rw [BufferEvent.Fits]; decide⟩)
      ⟨trivial, by rw [BufferEvent.Fits]; decide⟩)
      ⟨trivial, trivial⟩) (poolEnv true) (poolEnv true) (.inl (by rfl)) _ _ hsteal).1

/-- A message that could not be sent after it was put into the merge map. -/
def stranded : Traced :=
  ((Traced.init mergeTwo).apply noCompressor (.add true (plainMessage 0 1 [7]))).apply noCompressor
    (.convert (poolEnv false))

/-- All three queues are empty, so nothing is stolen, though a message waits in the merge map. -/
theorem stranded_not_stolen : Reachable noCompressor mergeTwo
        (fun traced event => event.Possible noCompressor false traced ∧ event.Fits traced) stranded
      ∧ (stranded.buffer.stealUnsendMessage noCompressor (poolEnv true) (poolEnv true)).1 = true
      ∧ (stranded.buffer.stealUnsendMessage noCompressor (poolEnv true) (poolEnv true)).2.1 = []
      ∧ stranded.added = [plainMessage 0 1 [7]] ∧ stranded.confirmed = [] ∧ stranded.pending = []
      ∧ (stranded.buffer.stealUnsendMessage noCompressor (poolEnv true)
        (poolEnv true)).2.2.pipeline.msgMap.contents.length = 1 := by
  refine ⟨.step _ (.step _ .init ⟨trivial, ?_⟩) ⟨trivial, trivial⟩, by decide, by decide, by decide, rfl, rfl,
    by decide⟩
  rw [BufferEvent.Fits]
  decide

end Havenask.Swift
