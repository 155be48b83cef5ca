import Havenask.Swift.SwiftReader

/-!
# The progress of a reader

`SwiftReaderImpl::getReaderProgress` gives for each partition a timestamp and an offset in a merged message.  They
come from the reader of the partition; if there is a message of the partition in the message buffer, its timestamp
is taken instead, but its offset only if it is part of a merged message.

* **`pairwise_delivered`**: messages with growing timestamps, taken apart, are in order.
* **`InTurn.apply`**: what is not yet returned to the caller stays in order, and the last message of a partition's
  reader is in front of what the reader still has.
* **`getReaderProgress_safe_iff`**: the progress is at most each message that is not yet returned, except where a
  plain message in the message buffer gets the offset of a later merged message.
-/

namespace Havenask.Swift

open List Function MessageReadBuffer SwiftSinglePartitionReader SwiftReaderImpl

/-- In the order of a partition; messages with one timestamp are parts of one merged message. -/
def Message.Before (msg msg' : Message) : Prop :=
  msg.timestamp < msg'.timestamp
    ∨ (msg.timestamp = msg'.timestamp ∧ offsetInMergeMsgBase ≤ msg.offsetInRawMsg
      ∧ msg.offsetInRawMsg < msg'.offsetInRawMsg)

/-- A reader that starts at a progress gets the message: the timestamp is smaller, or it is the same and the offset
is not behind that of the message in its merged message. -/
def Message.NotBefore (msg : Message) (progress : ℤ × ℕ) : Prop :=
  progress.1 < msg.timestamp
    ∨ (progress.1 = msg.timestamp ∧ progress.2 ≤ msg.offsetInRawMsg - offsetInMergeMsgBase)

/-! ## Messages that are taken apart -/

section
variable {zlib : ZlibCompressor} {metaFilter : Option MessageFilter}

lemma innerMessage_header (zlib : ZlibCompressor) (msgId timestamp : ℤ) (i : ℕ) (entry : MergedMessageMeta)
    (data : Bytes) : (innerMessage zlib msgId timestamp i entry data).timestamp = timestamp
    ∧ (innerMessage zlib msgId timestamp i entry data).offsetInRawMsg = offsetInMergeMsgBase + i := by
  rw [innerMessage.eq_def]
  split
  · split
    · exact ⟨rfl, rfl⟩
    · exact ⟨rfl, rfl⟩
  · exact ⟨rfl, rfl⟩

/-- The parts of a merged message have its timestamp and growing offsets. -/
lemma unpackLoop_before {msgId timestamp : ℤ} {dataPart : Bytes} {metas : List MergedMessageMeta}
    {messages : List Message} (h : unpackLoop zlib msgId timestamp metaFilter dataPart metas = some messages) :
    (∀ msg ∈ messages, msg.timestamp = timestamp) ∧ messages.Pairwise Message.Before := by
  rw [unpackLoop_eq_some zlib msgId timestamp h, forall_mem_map, pairwise_map]
  refine ⟨fun record _ => (innerMessage_header ..).1, (takenRecords_spec metas 0 0).2.2.imp ?_⟩
  intro record record' hlt
  obtain ⟨htime, hoffset⟩ := innerMessage_header zlib msgId timestamp record.index record.entry
    ((dataPart.drop record.dataBeginPos).take record.length)
  obtain ⟨htime', hoffset'⟩ := innerMessage_header zlib msgId timestamp record'.index record'.entry
    ((dataPart.drop record'.dataBeginPos).take record'.length)
  exact .inr ⟨htime.trans htime'.symm, hoffset.trans_ge (Nat.le_add_right _ _),
    by rw [MergedRecord.message, MergedRecord.message, hoffset, hoffset']; omega⟩

/-- What a message of a partition turns into. -/
def deliveredOf (zlib : ZlibCompressor) (metaFilter : Option MessageFilter) (msg : Message) : List Message :=
  MessageReadBuffer.delivered zlib metaFilter (MessageReadBuffer.decompressMessage zlib msg)

lemma decompressMessage_header (zlib : ZlibCompressor) (msg : Message) :
    (decompressMessage zlib msg).timestamp = msg.timestamp := by
  rw [decompressMessage.eq_def]
  split
  · split <;> rfl
  · rfl

lemma deliveredOf_spec (msg : Message) : (∀ msg' ∈ deliveredOf zlib metaFilter msg, msg'.timestamp = msg.timestamp)
    ∧ (deliveredOf zlib metaFilter msg).Pairwise Message.Before := by
  rw [deliveredOf, ← decompressMessage_header zlib msg]
  generalize decompressMessage zlib msg = msg
  rw [delivered]
  split
  · rcases hunpack : unpackMessage zlib false msg.data msg.msgId msg.timestamp metaFilter with _ | ⟨messages, count⟩
    · exact ⟨forall_mem_nil _, Pairwise.nil⟩
    · obtain ⟨raw, rest, metas, dataPart, -, -, -, -, hloop⟩ := unpackMessage_eq_some zlib _ _ hunpack
      exact unpackLoop_before hloop
  · exact ⟨forall_mem_singleton.mpr rfl, pairwise_singleton _ _⟩

/-- Messages with growing timestamps, taken apart, are in order. -/
lemma pairwise_delivered {msgs : List Message} (h : msgs.Pairwise fun msg msg' => msg.timestamp < msg'.timestamp) :
    (msgs.flatMap (deliveredOf zlib metaFilter)).Pairwise Message.Before := by
  rw [pairwise_flatMap]
  refine ⟨fun msg _ => (deliveredOf_spec msg).2, h.imp fun hlt part hpart part' hpart' => .inl ?_⟩
  rw [(deliveredOf_spec _).1 part hpart, (deliveredOf_spec _).1 part' hpart']
  exact hlt

end

/-! ## Runs -/

/-- A reader, and for each partition the messages that have not been fetched from the broker. -/
structure TracedReader where
  impl : SwiftReaderImpl
  future : ℕ → List Message

/-- What happens to a reader: an answer of a broker, a limit, a call of `read`. -/
inductive ReaderEvent
  | respond (index : ℕ) (msgs : List Message) (totalMsgCount : ℕ) (nextTimestamp : Option ℤ)
  | setTimestampLimit (timestampLimit : ℤ)
  | read (exceedLimit : ℕ → Bool)
  | readBatch (exceedLimit : ℕ → Bool)

namespace TracedReader

variable (zlib : ZlibCompressor) (config : ReaderConfig)

section
variable (traced : TracedReader)

def apply : ReaderEvent → TracedReader
  | .respond index msgs totalMsgCount nextTimestamp =>
    { impl := { traced.impl with
        readers := traced.impl.readers.modify index fun reader =>
          reader.handleGetMessageResponse zlib msgs totalMsgCount nextTimestamp }
      future := Function.update traced.future index ((traced.future index).drop msgs.length) }
  | .setTimestampLimit timestampLimit =>
    { traced with impl := { traced.impl with
        readers := traced.impl.readers.map fun reader => { reader with timestampLimit := timestampLimit } } }
  | .read exceedLimit => { traced with impl := (traced.impl.read zlib config exceedLimit).2.2 }
  | .readBatch exceedLimit => { traced with impl := (traced.impl.readBatch zlib config exceedLimit).2.2 }

/-- What a partition's reader will still get. -/
def coming (index : ℕ) : List Message :=
  (traced.future index).flatMap (deliveredOf zlib config.metaFilter)

/-- The messages of a partition in the message buffer. -/
def prefetched (index : ℕ) : List Message :=
  if traced.impl.bufferReadIndex = index then traced.impl.messageBuffer else []

/-- The messages of a partition that have not been returned to the caller. -/
def unread (index : ℕ) : List Message :=
  traced.prefetched index
    ++ (traced.impl.readers[index]?.map fun reader => reader.pending zlib config).getD []
    ++ traced.coming zlib config index

end

/-- A reader before its first response: it starts where its timestamps say or in front of that, and the timestamps
of a partition grow. -/
structure Started (traced : TracedReader) : Prop where
  messageBuffer_nil : traced.impl.messageBuffer = []
  fresh : ∀ (index : ℕ) (reader : SwiftSinglePartitionReader), traced.impl.readers[index]? = some reader →
    reader.buffer = .empty ∧ reader.lastMsgTimestamp = -1 ∧ reader.lastMsgOffsetInMerge = 0
      ∧ ∀ msg ∈ traced.coming zlib config index,
        reader.nextTimestamp ≤ msg.timestamp ∧ reader.seekTimestamp ≤ msg.timestamp
  valid : ∀ index, ∀ msg ∈ traced.future index, 0 ≤ msg.timestamp
  growing : ∀ index, (traced.future index).Pairwise fun msg msg' => msg.timestamp < msg'.timestamp

end TracedReader

/-- Responses bring the next messages of a partition, with a count that does not fall short of them, and the next
timestamp is not behind what is left. -/
def ReaderEvent.Possible (zlib : ZlibCompressor) (config : ReaderConfig) (traced : TracedReader) : ReaderEvent → Prop
  | .respond index msgs totalMsgCount nextTimestamp =>
    msgs <+: traced.future index ∧ MessageReadBuffer.Honest zlib config.metaFilter msgs totalMsgCount
      ∧ ∀ timestamp ∈ nextTimestamp, ∀ msg ∈ (traced.future index).drop msgs.length, timestamp ≤ msg.timestamp
  | _ => True

/-- The states of a run, in which brokers answer honestly. -/
inductive TracedReader.Reachable (zlib : ZlibCompressor) (config : ReaderConfig) : TracedReader → Prop
  | start {traced : TracedReader} : traced.Started zlib config → Reachable zlib config traced
  | step {traced : TracedReader} (event : ReaderEvent) : Reachable zlib config traced →
      event.Possible zlib config traced → Reachable zlib config (traced.apply zlib config event)

/-- What holds for the reader of a partition. -/
structure InTurn (zlib : ZlibCompressor) (config : ReaderConfig) (prefetched : List Message)
    (reader : SwiftSinglePartitionReader) (future : List Message) : Prop where
  counted : reader.buffer.Counted zlib config.metaFilter
  ordered : (prefetched ++ reader.pending zlib config).Pairwise Message.Before
  valid : ∀ msg ∈ prefetched ++ reader.pending zlib config, 0 ≤ msg.timestamp
  future_valid : ∀ msg ∈ future, 0 ≤ msg.timestamp
  later : ∀ msg ∈ prefetched ++ reader.pending zlib config, ∀ msg' ∈ future, msg.timestamp < msg'.timestamp
  growing : future.Pairwise fun msg msg' => msg.timestamp < msg'.timestamp
  last_future : ∀ msg ∈ future, reader.lastMsgTimestamp < msg.timestamp
  last_pending : ∀ msg ∈ reader.pending zlib config, reader.lastMsgTimestamp < msg.timestamp
    ∨ (reader.lastMsgTimestamp = msg.timestamp ∧ offsetInMergeMsgBase ≤ reader.lastMsgOffsetInMerge
      ∧ reader.lastMsgOffsetInMerge < msg.offsetInRawMsg)
  prefetched_le : ∀ msg ∈ prefetched, msg.timestamp ≤ reader.lastMsgTimestamp
  next_le : ∀ msg ∈ future.flatMap (deliveredOf zlib config.metaFilter), reader.nextTimestamp ≤ msg.timestamp
  seek_le : ∀ msg ∈ future.flatMap (deliveredOf zlib config.metaFilter), reader.seekTimestamp ≤ msg.timestamp

namespace InTurn

variable {zlib : ZlibCompressor} {config : ReaderConfig} {prefetched : List Message}
  {reader reader' : SwiftSinglePartitionReader} {future msgs : List Message}

/-- The messages that a reader gives away go to the message buffer, or to the caller. -/
lemma take (h : InTurn zlib config [] reader future) (htakes : Takes zlib config reader msgs reader') :
    InTurn zlib config msgs reader' future := by
  have hordered := h.ordered
  have hvalid := h.valid
  have hlater := h.later
  rw [nil_append, htakes.pending_eq] at hordered hvalid hlater
  have hlast : ∀ msg ∈ msgs, msg.timestamp ≤ reader'.lastMsgTimestamp := by
    intro msg hmem
    rcases htakes.last_eq with ⟨rfl, -, -⟩ | ⟨init, last, rfl, htime, -⟩
    · exact absurd hmem not_mem_nil
    rw [htime]
    rcases mem_append.mp hmem with hmem | hmem
    · rcases (pairwise_append.mp (pairwise_append.mp hordered).1).2.2 msg hmem last mem_cons_self with hlt | ⟨heq, -⟩
      · exact hlt.le
      · exact heq.le
    · rw [mem_singleton.mp hmem]
  refine ⟨htakes.counted, hordered, hvalid, h.future_valid, hlater, h.growing, ?_, ?_, hlast, ?_, ?_⟩
  · intro msg hmem
    rcases htakes.last_eq with ⟨-, htime, -⟩ | ⟨init, last, rfl, htime, -⟩
    · rw [htime]
      exact h.last_future msg hmem
    · rw [htime]
      exact hlater last (by simp) msg hmem
  · intro msg hmem
    rcases htakes.last_eq with ⟨rfl, htime, hoffset⟩ | ⟨init, last, rfl, htime, hoffset⟩
    · rw [htime, hoffset]
      refine h.last_pending msg ?_
      rw [htakes.pending_eq]
      exact hmem
    · rw [htime, hoffset]
      exact (pairwise_append.mp hordered).2.2 last (by simp) msg hmem
  · rw [htakes.nextTimestamp_eq]
    exact h.next_le
  · rw [htakes.seekTimestamp_eq]
    exact h.seek_le

/-- Messages that leave the message buffer at its front. -/
lemma suffix (h : InTurn zlib config (msgs ++ prefetched) reader future) :
    InTurn zlib config prefetched reader future := by
  have hsub : ∀ msg ∈ prefetched ++ reader.pending zlib config,
      msg ∈ msgs ++ prefetched ++ reader.pending zlib config := by
    intro msg hmem
    rw [append_assoc]
    exact mem_append_right _ hmem
  have hordered := h.ordered
  rw [append_assoc] at hordered
  exact ⟨h.counted, (pairwise_append.mp hordered).2.1, fun msg hmem => h.valid msg (hsub msg hmem),
    h.future_valid, fun msg hmem => h.later msg (hsub msg hmem), h.growing, h.last_future, h.last_pending,
    fun msg hmem => h.prefetched_le msg (mem_append_right _ hmem), h.next_le, h.seek_le⟩

lemma drained (h : InTurn zlib config prefetched reader future) : InTurn zlib config [] reader future := by
  rw [← append_nil prefetched] at h
  exact h.suffix

lemma respond {future' : List Message} {totalMsgCount : ℕ} {nextTimestamp : Option ℤ}
    (h : InTurn zlib config prefetched reader (msgs ++ future'))
    (hhonest : Honest zlib config.metaFilter msgs totalMsgCount)
    (hnext : ∀ timestamp ∈ nextTimestamp, ∀ msg ∈ future', timestamp ≤ msg.timestamp) :
    InTurn zlib config prefetched (reader.handleGetMessageResponse zlib msgs totalMsgCount nextTimestamp)
      future' := by
  have hpending : (reader.handleGetMessageResponse zlib msgs totalMsgCount nextTimestamp).pending zlib config
      = reader.pending zlib config ++ msgs.flatMap (deliveredOf zlib config.metaFilter) :=
    pending_addResponse hhonest
  have hdelivered : ∀ msg ∈ msgs.flatMap (deliveredOf zlib config.metaFilter),
      ∃ raw ∈ msgs, msg.timestamp = raw.timestamp := by
    intro msg hmem
    obtain ⟨raw, hraw, hmem⟩ := mem_flatMap.mp hmem
    exact ⟨raw, hraw, (deliveredOf_spec raw).1 msg hmem⟩
  obtain ⟨hgrowing, hgrowing', hcross⟩ := pairwise_append.mp h.growing
  refine ⟨counted_addResponse h.counted hhonest, ?_, ?_, ?_, ?_, hgrowing', ?_, ?_,
    h.prefetched_le, ?_, ?_⟩
  · rw [hpending, ← append_assoc, pairwise_append]
    refine ⟨h.ordered, pairwise_delivered hgrowing, fun msg hmem msg' hmem' => .inl ?_⟩
    obtain ⟨raw, hraw, htime⟩ := hdelivered msg' hmem'
    rw [htime]
    exact h.later msg hmem raw (mem_append_left _ hraw)
  · rw [hpending, ← append_assoc]
    refine forall_mem_append.mpr ⟨h.valid, fun msg hmem => ?_⟩
    obtain ⟨raw, hraw, htime⟩ := hdelivered msg hmem
    rw [htime]
    exact h.future_valid raw (mem_append_left _ hraw)
  · exact fun msg hmem => h.future_valid msg (mem_append_right _ hmem)
  · rw [hpending, ← append_assoc]
    refine forall_mem_append.mpr ⟨fun msg hmem msg' hmem' => h.later msg hmem msg'
      (mem_append_right _ hmem'), fun msg hmem msg' hmem' => ?_⟩
    obtain ⟨raw, hraw, htime⟩ := hdelivered msg hmem
    rw [htime]
    exact hcross raw hraw msg' hmem'
  · exact fun msg hmem => h.last_future msg (mem_append_right _ hmem)
  · rw [hpending]
    refine forall_mem_append.mpr ⟨h.last_pending, fun msg hmem => .inl ?_⟩
    obtain ⟨raw, hraw, htime⟩ := hdelivered msg hmem
    rw [htime]
    exact h.last_future raw (mem_append_left _ hraw)
  · intro msg hmem
    obtain ⟨raw, hraw, hpart⟩ := mem_flatMap.mp hmem
    cases nextTimestamp with
    | none =>
      refine h.next_le msg ?_
      rw [flatMap_append]
      exact mem_append_right _ hmem
    | some timestamp =>
      rw [(deliveredOf_spec raw).1 msg hpart]
      exact hnext timestamp rfl raw hraw
  · intro msg hmem
    refine h.seek_le msg ?_
    rw [flatMap_append]
    exact mem_append_right _ hmem

lemma withLimit (h : InTurn zlib config prefetched reader future) (timestampLimit : ℤ) :
    InTurn zlib config prefetched { reader with timestampLimit := timestampLimit } future :=
  { h with }

end InTurn

/-! ## All readers -/

namespace TracedReader

variable {zlib : ZlibCompressor} {config : ReaderConfig} {traced : TracedReader}

def AllInTurn (zlib : ZlibCompressor) (config : ReaderConfig) (traced : TracedReader) : Prop :=
  ∀ (index : ℕ) (reader : SwiftSinglePartitionReader), traced.impl.readers[index]? = some reader →
    InTurn zlib config (traced.prefetched index) reader (traced.future index)

lemma Started.allInTurn (h : traced.Started zlib config) : traced.AllInTurn zlib config := by
  intro index reader hreader
  obtain ⟨hbuffer, hlast, hoffset, hstart⟩ := h.fresh index reader hreader
  have hprefetched : traced.prefetched index = [] := by
    rw [prefetched, h.messageBuffer_nil, ite_self]
  have hpending : reader.pending zlib config = [] := by
    rw [SwiftSinglePartitionReader.pending, hbuffer]
    rfl
  rw [hprefetched]
  refine ⟨?_, ?_, ?_, h.valid index, ?_, h.growing index, ?_, ?_, ?_, fun msg hmem => (hstart msg hmem).1,
    fun msg hmem => (hstart msg hmem).2⟩
  · rw [hbuffer]
    exact counted_empty
  · rw [hpending]
    exact Pairwise.nil
  · rw [hpending]
    exact forall_mem_nil _
  · rw [hpending]
    exact forall_mem_nil _
  · intro msg hmem
    have hvalid := h.valid index msg hmem
    omega
  · rw [hpending]
    exact forall_mem_nil _
  · exact forall_mem_nil _

section
variable (h : traced.AllInTurn zlib config)
include h

lemma AllInTurn.counted : ∀ reader ∈ traced.impl.readers, reader.buffer.Counted zlib config.metaFilter := by
  intro reader hmem
  obtain ⟨index, hreader⟩ := getElem?_of_mem hmem
  exact (h index reader hreader).counted

/-- A batch is read when the message buffer is empty. -/
lemma AllInTurn.tryRead (hempty : traced.impl.messageBuffer = []) (exceedLimit : ℕ → Bool) (isBufferRead : Bool) :
    ∃ index, ((traced.impl.tryRead zlib config exceedLimit isBufferRead).2.bufferReadIndex
      = if isBufferRead then index else traced.impl.bufferReadIndex)
    ∧ ∀ (i : ℕ) (reader : SwiftSinglePartitionReader),
      (traced.impl.tryRead zlib config exceedLimit isBufferRead).2.readers[i]? = some reader → InTurn zlib config
        (if i = index then (traced.impl.tryRead zlib config exceedLimit isBufferRead).1 else []) reader
        (traced.future i) := by
  obtain ⟨index, htake, hindex, -⟩ := tryRead_take exceedLimit isBufferRead h.counted
  refine ⟨index, hindex, fun i reader' hreader' => ?_⟩
  obtain ⟨reader, hreader, htakes⟩ := htake i reader' hreader'
  have hturn := h i reader hreader
  rw [prefetched, hempty, ite_self] at hturn
  exact hturn.take htakes

/-- With a message buffer that has lost messages at its front. -/
lemma AllInTurn.dropBuffer {msgs rest : List Message} (hbuffer : traced.impl.messageBuffer = msgs ++ rest) :
    AllInTurn zlib config { traced with impl := { traced.impl with messageBuffer := rest } } := by
  intro index reader hreader
  have hturn := h index reader hreader
  rw [prefetched, hbuffer] at hturn
  rw [prefetched]
  split_ifs at hturn with hindex
  · rw [if_pos hindex]
    exact hturn.suffix
  · rw [if_neg hindex]
    exact hturn

lemma AllInTurn.prefetch (exceedLimit : ℕ → Bool) :
    AllInTurn zlib config { traced with impl := traced.impl.prefetch zlib config exceedLimit } := by
  rw [SwiftReaderImpl.prefetch]
  split
  · rename_i hempty
    obtain ⟨index, hindex, hturn⟩ := h.tryRead (isEmpty_iff.mp hempty) exceedLimit true
    intro i reader hreader
    have hreader' := hturn i reader hreader
    rw [prefetched]
    rw [hindex, if_pos rfl]
    split
    · rename_i heq
      rw [if_pos heq.symm] at hreader'
      exact hreader'
    rename_i hne
    rw [if_neg (Ne.symm hne)] at hreader'
    exact hreader'
  · exact h

lemma AllInTurn.read (exceedLimit : ℕ → Bool) :
    AllInTurn zlib config (traced.apply zlib config (.read exceedLimit)) := by
  have hprefetch := h.prefetch exceedLimit
  rw [apply, SwiftReaderImpl.read.eq_def]
  dsimp only
  split
  · exact hprefetch
  · rename_i msg rest hbuffer
    exact hprefetch.dropBuffer (show _ = [msg] ++ rest from hbuffer)

lemma AllInTurn.readBatch (exceedLimit : ℕ → Bool) :
    AllInTurn zlib config (traced.apply zlib config (.readBatch exceedLimit)) := by
  rw [apply, SwiftReaderImpl.readBatch]
  split
  · rename_i hempty
    have hnil := isEmpty_iff.mp hempty
    obtain ⟨index, hindex, hturn⟩ := h.tryRead hnil exceedLimit false
    intro i reader hreader
    have hprefetched : prefetched { traced with impl := (traced.impl.tryRead zlib config exceedLimit false).2 } i
        = [] := by
      rw [prefetched]
      change (if _ then traced.impl.messageBuffer else []) = []
      rw [hnil, ite_self]
    rw [hprefetched]
    exact (hturn i reader hreader).drained
  · exact h.dropBuffer (append_nil _).symm

lemma AllInTurn.respond {index : ℕ} {msgs : List Message} {totalMsgCount : ℕ}
    {nextTimestamp : Option ℤ} (hnextMsgs : msgs <+: traced.future index)
    (hhonest : Honest zlib config.metaFilter msgs totalMsgCount)
    (hnext : ∀ timestamp ∈ nextTimestamp, ∀ msg ∈ (traced.future index).drop msgs.length, timestamp ≤ msg.timestamp) :
    AllInTurn zlib config (traced.apply zlib config (.respond index msgs totalMsgCount nextTimestamp)) := by
  intro i reader' hreader'
  rw [apply] at hreader' ⊢
  dsimp only at hreader' ⊢
  rw [getElem?_modify] at hreader'
  obtain ⟨reader, hreader, rfl⟩ := Option.map_eq_some_iff.mp hreader'
  have hturn := h i reader hreader
  by_cases heq : index = i
  · subst heq
    obtain ⟨rest, hrest⟩ := hnextMsgs
    rw [if_pos rfl, update_self]
    rw [← hrest, drop_left] at hnext ⊢
    rw [← hrest] at hturn
    exact hturn.respond hhonest hnext
  · rw [if_neg heq, update_of_ne (Ne.symm heq)]
    exact hturn

lemma AllInTurn.apply {event : ReaderEvent} (hpossible : event.Possible zlib config traced) :
    AllInTurn zlib config (traced.apply zlib config event) := by
  cases event with
  | respond index msgs totalMsgCount nextTimestamp => exact h.respond hpossible.1 hpossible.2.1 hpossible.2.2
  | setTimestampLimit timestampLimit =>
    intro index reader' hreader'
    rw [TracedReader.apply] at hreader'
    rw [getElem?_map] at hreader'
    obtain ⟨reader, hreader, rfl⟩ := Option.map_eq_some_iff.mp hreader'
    exact (h index reader hreader).withLimit timestampLimit
  | read exceedLimit => exact h.read exceedLimit
  | readBatch exceedLimit => exact h.readBatch exceedLimit

end

lemma Reachable.allInTurn (h : Reachable zlib config traced) : traced.AllInTurn zlib config := by
  induction h with
  | start hstart => exact hstart.allInTurn
  | step event _ hpossible ih => exact ih.apply hpossible

end TracedReader

/-! ## Progress -/

/-- The reader stands in a merged message: the last message that it gave away and the first one that it has are
parts of it. -/
def SwiftSinglePartitionReader.InMerged (zlib : ZlibCompressor) (config : ReaderConfig)
    (reader : SwiftSinglePartitionReader) : Prop :=
  offsetInMergeMsgBase ≤ reader.lastMsgOffsetInMerge
    ∧ ∃ msg, (reader.pending zlib config).head? = some msg ∧ msg.timestamp = reader.lastMsgTimestamp

variable {msg : Message}

section
variable {zlib : ZlibCompressor} {config : ReaderConfig} {prefetched : List Message}
  {reader : SwiftSinglePartitionReader} {future : List Message}

lemma Message.Before.notBefore {msg' : Message} {progress : ℤ × ℕ} (h : msg.Before msg')
    (hprogress : msg.NotBefore progress) : msg'.NotBefore progress := by
  rcases hprogress with hlt | ⟨heq, hle⟩
  · rcases h with hlt' | ⟨heq', -⟩
    · exact .inl (hlt.trans hlt')
    · exact .inl (hlt.trans_eq heq')
  rcases h with hlt' | ⟨heq', -, hoffset⟩
  · exact .inl (heq.trans_lt hlt')
  · exact .inr ⟨heq.trans heq', by omega⟩

/-- In a row of messages the first one decides. -/
lemma forall_notBefore_iff {msgs : List Message} {progress : ℤ × ℕ} (h : (msg :: msgs).Pairwise Message.Before) :
    (∀ msg' ∈ msg :: msgs, msg'.NotBefore progress) ↔ msg.NotBefore progress := by
  refine ⟨fun hall => hall msg mem_cons_self, fun hfirst => forall_mem_cons.mpr ⟨hfirst, fun msg' hmem => ?_⟩⟩
  exact ((pairwise_cons.mp h).1 msg' hmem).notBefore hfirst

section
variable (h : InTurn zlib config prefetched reader future)
include h

/-- The checkpoint of a partition is at most what the partition's reader has and will get. -/
lemma InTurn.checkpoint_notBefore :
    ∀ msg ∈ reader.pending zlib config ++ future.flatMap (deliveredOf zlib config.metaFilter),
      msg.NotBefore (reader.getCheckpointTimestamp zlib config).1 := by
  have hfuture : ∀ msg ∈ future.flatMap (deliveredOf zlib config.metaFilter),
      ∃ raw ∈ future, msg.timestamp = raw.timestamp := by
    intro msg hmem
    obtain ⟨raw, hraw, hpart⟩ := mem_flatMap.mp hmem
    exact ⟨raw, hraw, (deliveredOf_spec raw).1 msg hpart⟩
  rcases getCheckpointTimestamp_spec h.counted
    (fun msg hmem => h.valid msg (mem_append_right _ hmem)) with ⟨hnil, hoffset, htime⟩ |
    ⟨first, rest, hcons, hcheckpoint⟩
  · rw [hnil, nil_append]
    intro msg hmem
    obtain ⟨raw, hraw, hmsg⟩ := hfuture msg hmem
    have hlast := h.last_future raw hraw
    have hnext := h.next_le msg hmem
    have hseek := h.seek_le msg hmem
    have hle : (reader.getCheckpointTimestamp zlib config).1.1 ≤ msg.timestamp := by
      rw [htime]
      split <;> omega
    rcases hle.lt_or_eq with hlt | heq
    · exact .inl hlt
    · exact .inr ⟨heq, by rw [hoffset]; exact Nat.zero_le _⟩
  rw [hcheckpoint, hcons]
  refine forall_mem_append.mpr ⟨(forall_notBefore_iff ?_).mpr (.inr ⟨rfl, ?_⟩), fun msg hmem => ?_⟩
  · rw [← hcons]
    exact (pairwise_append.mp h.ordered).2.1
  · dsimp only
    split
    · rename_i hmerged
      rcases h.last_pending first (by rw [hcons]; exact mem_cons_self) with hlt | ⟨-, -, hoffset⟩
      · omega
      · omega
    · exact Nat.zero_le _
  obtain ⟨raw, hraw, hmsg⟩ := hfuture msg hmem
  refine .inl ?_
  rw [hmsg]
  exact h.later first (mem_append_right _ (by rw [hcons]; exact mem_cons_self)) raw hraw

/-- A message in the message buffer is not behind the checkpoint. -/
lemma InTurn.timestamp_le_checkpoint
    (hmem : msg ∈ prefetched) : msg.timestamp ≤ (reader.getCheckpointTimestamp zlib config).1.1 := by
  rcases getCheckpointTimestamp_spec h.counted
    (fun msg hmem => h.valid msg (mem_append_right _ hmem)) with ⟨-, -, htime⟩ | ⟨first, rest, hcons, hcheckpoint⟩
  · have hlast := h.prefetched_le msg hmem
    rw [htime]
    split <;> omega
  rw [hcheckpoint]
  rcases (pairwise_append.mp h.ordered).2.2 msg hmem first (by rw [hcons]; exact mem_cons_self) with hlt | ⟨heq, -⟩
  · exact hlt.le
  · exact heq.le

lemma InTurn.checkpoint_offset_iff :
    (reader.getCheckpointTimestamp zlib config).1.2 ≠ 0 ↔ reader.InMerged zlib config := by
  rw [InMerged]
  rcases getCheckpointTimestamp_spec h.counted
    (fun msg hmem => h.valid msg (mem_append_right _ hmem)) with ⟨hnil, hoffset, -⟩ | ⟨first, rest, hcons, hcheckpoint⟩
  · rw [hoffset, hnil]
    constructor
    · exact fun hne => absurd rfl hne
    · rintro ⟨-, msg, hhead, -⟩
      cases hhead
  rw [hcheckpoint, hcons]
  constructor
  · intro hne
    split at hne
    · rename_i hmerged
      exact ⟨hmerged.2, first, rfl, hmerged.1.symm⟩
    · exact absurd rfl hne
  · rintro ⟨hbase, msg, hhead, htime⟩
    obtain rfl := Option.some.inj hhead
    rw [if_pos ⟨htime.symm, hbase⟩]
    exact Nat.succ_ne_zero _

end

end

/-- Without a message in the message buffer the progress is the checkpoint. -/
lemma partProgress_of_nil {zlib : ZlibCompressor} {config : ReaderConfig} {traced : TracedReader} {index : ℕ}
    (reader : SwiftSinglePartitionReader) (hnil : traced.prefetched index = []) :
    traced.impl.partProgress zlib config index reader = (reader.getCheckpointTimestamp zlib config).1 := by
  rw [TracedReader.prefetched] at hnil
  rw [partProgress]
  dsimp only
  split
  · rename_i hindex
    rw [if_pos hindex] at hnil
    rw [hnil]
  · rfl

/-- Otherwise it has the timestamp of that message, and its offset if it is part of a merged message. -/
lemma partProgress_of_cons {zlib : ZlibCompressor} {config : ReaderConfig} {traced : TracedReader} {index : ℕ}
    {reader : SwiftSinglePartitionReader} {rest : List Message} (hcons : traced.prefetched index = msg :: rest)
    (hle : msg.timestamp ≤ (reader.getCheckpointTimestamp zlib config).1.1) :
    traced.impl.partProgress zlib config index reader = (msg.timestamp,
      if msg.offsetInRawMsg ≥ offsetInMergeMsgBase then msg.offsetInRawMsg - offsetInMergeMsgBase
      else (reader.getCheckpointTimestamp zlib config).1.2) := by
  rw [TracedReader.prefetched] at hcons
  split at hcons
  · rename_i hindex
    rw [partProgress]
    dsimp only
    rw [if_pos hindex, hcons]
    dsimp only
    rw [if_pos hle]
  · cases hcons

/-- In every state of a run: the progress of a partition is at most each of its messages that has not been returned,
exactly where it is not that the first message of the message buffer is a plain one of this partition while the
partition's reader stands in a merged message. -/
theorem getReaderProgress_safe_iff (zlib : ZlibCompressor) (config : ReaderConfig) (traced : TracedReader)
    (hreachable : TracedReader.Reachable zlib config traced) (index : ℕ) (progress : ℤ × ℕ)
    (hprogress : (traced.impl.getReaderProgress zlib config)[index]? = some progress) :
    (∀ msg ∈ traced.unread zlib config index, msg.NotBefore progress)
      ↔ ¬ ((∃ msg, (traced.prefetched index).head? = some msg ∧ msg.offsetInRawMsg < offsetInMergeMsgBase)
        ∧ ∃ reader, traced.impl.readers[index]? = some reader ∧ reader.InMerged zlib config) := by
  rw [getReaderProgress, getElem?_mapIdx] at hprogress
  obtain ⟨reader, hreader, rfl⟩ := Option.map_eq_some_iff.mp hprogress
  have hturn := hreachable.allInTurn index reader hreader
  have hcheckpoint := hturn.checkpoint_notBefore
  have hunread : traced.unread zlib config index = traced.prefetched index
      ++ (reader.pending zlib config ++ traced.coming zlib config index) := by
    rw [TracedReader.unread, hreader, append_assoc]
    rfl
  have hall : (traced.prefetched index ++ (reader.pending zlib config
      ++ traced.coming zlib config index)).Pairwise Message.Before := by
    rw [← append_assoc, pairwise_append]
    refine ⟨hturn.ordered, pairwise_delivered hturn.growing, fun msg hmem msg' hmem' => .inl ?_⟩
    obtain ⟨raw, hraw, hpart⟩ := mem_flatMap.mp hmem'
    rw [(deliveredOf_spec raw).1 msg' hpart]
    exact hturn.later msg hmem raw hraw
  rw [hunread]
  cases hprefetched : traced.prefetched index with
  | nil =>
    rw [partProgress_of_nil reader hprefetched, nil_append]
    refine ⟨fun _ => ?_, fun _ => hcheckpoint⟩
    rintro ⟨⟨msg, hhead, -⟩, -⟩
    cases hhead
  | cons first rest =>
    rw [hprefetched] at hturn hall
    rw [partProgress_of_cons hprefetched (hturn.timestamp_le_checkpoint mem_cons_self)]
    -- All others are behind the first message of the message buffer.
    rw [cons_append] at hall ⊢
    rw [forall_notBefore_iff hall, Message.NotBefore]
    refine Iff.trans (b := ¬ (first.offsetInRawMsg < offsetInMergeMsgBase
      ∧ (reader.getCheckpointTimestamp zlib config).1.2 ≠ 0)) (by dsimp only; split <;> omega) ?_
    rw [hturn.checkpoint_offset_iff]
    refine not_congr ⟨fun h => ⟨⟨first, rfl, h.1⟩, reader, hreader, h.2⟩, ?_⟩
    rintro ⟨⟨msg, hhead, hplain⟩, reader', hreader', hmerged⟩
    obtain rfl := Option.some.inj hhead
    obtain rfl := Option.some.inj (hreader.symm.trans hreader')
    exact ⟨hplain, hmerged⟩

/-! ## One partition -/

def plainAt (timestamp : ℤ) : Message := ⟨0, timestamp, [7], 0, 0, false, false, 0⟩

/-- Two messages merged into one. -/
def mergedAt (timestamp : ℤ) : Message :=
  ⟨0, timestamp, (mergeMessage 0 [⟨false, false, 0, 0, 1, [7]⟩, ⟨false, false, 0, 0, 2, [8]⟩]).data, 0, 0, false,
    true, 0⟩

def batchesOf (batchReadCount : ℕ) : ReaderConfig := ⟨batchReadCount, false, 0, none⟩

def onePartition (msgs : List Message) : TracedReader where
  impl := ⟨[⟨.empty, -1, 0, -1, -1, SwiftReaderImpl.maxTimestamp⟩], [], 2 ^ 32 - 1, -1⟩
  future _ := msgs

lemma started_onePartition (config : ReaderConfig) {msgs : List Message} (hvalid : ∀ msg ∈ msgs, 0 ≤ msg.timestamp)
    (hgrowing : msgs.Pairwise fun msg msg' => msg.timestamp < msg'.timestamp) :
    (onePartition msgs).Started noCompressor config := by
  refine ⟨rfl, fun index reader hreader => ?_, fun _ => hvalid, fun _ => hgrowing⟩
  obtain rfl : reader = ⟨.empty, -1, 0, -1, -1, maxTimestamp⟩ := mem_singleton.mp (mem_of_getElem? hreader)
  refine ⟨rfl, rfl, rfl, fun msg hmem => ?_⟩
  obtain ⟨raw, hraw, hpart⟩ := mem_flatMap.mp hmem
  have htime := (deliveredOf_spec raw).1 msg hpart
  have hpos := hvalid raw hraw
  constructor <;> dsimp only <;> omega

/-- A reader that has returned the first part of a merged message. -/
def halfRead : TracedReader :=
  ((onePartition [mergedAt 20]).apply noCompressor (batchesOf 1) (.respond 0 [mergedAt 20] 2 none)).apply
    noCompressor (batchesOf 1) (.read fun _ => false)

/-- The second part is still to come, and the progress is in front of it. -/
theorem getReaderProgress_safe_halfRead : halfRead.impl.getReaderProgress noCompressor (batchesOf 1) = [(20, 1)]
      ∧ ∀ msg ∈ halfRead.unread noCompressor (batchesOf 1) 0, msg.NotBefore (20, 1) := by
  refine ⟨by decide, (getReaderProgress_safe_iff noCompressor (batchesOf 1) halfRead ?_ 0 (20, 1) (by decide)).mpr ?_⟩
  · refine .step _ (.step _ (.start (started_onePartition _ (by decide) (by decide))) ⟨?_, ?_, ?_⟩) trivial
    · exact prefix_refl _
    · unfold Honest
      decide
    · exact fun _ hmem => absurd hmem (by simp)
  · rintro ⟨⟨msg, hhead, -⟩, -⟩
    cases hhead

/-- Two plain messages and the first part of a merged one go to the message buffer; the first is returned. -/
def plainInFront : TracedReader :=
  ((onePartition [plainAt 10, plainAt 20, mergedAt 30]).apply noCompressor (batchesOf 3)
    (.respond 0 [plainAt 10, plainAt 20, mergedAt 30] 4 none)).apply noCompressor (batchesOf 3)
    (.read fun _ => false)

/-- The progress has the timestamp of the plain message that comes next, and the offset in the merged one. -/
theorem plainInFront_skipped : TracedReader.Reachable noCompressor (batchesOf 3) plainInFront
      ∧ plainInFront.impl.getReaderProgress noCompressor (batchesOf 3) = [(20, 1)]
      ∧ plainAt 20 ∈ plainInFront.unread noCompressor (batchesOf 3) 0
      ∧ ¬ (plainAt 20).NotBefore (20, 1) := by
  refine ⟨?_, by decide, by decide, ?_⟩
  · refine .step _ (.step _ (.start (started_onePartition _ (by decide) (by decide))) ⟨?_, ?_, ?_⟩) trivial
    · exact prefix_refl _
    · unfold Honest
      decide
    · exact fun _ hmem => absurd hmem (by simp)
  · rw [Message.NotBefore]
    decide

end Havenask.Swift
