import Havenask.Swift.MessageReadBuffer

/-!
# The reader of a topic

`swift/client/SwiftSinglePartitionReader.cpp` reads one partition: it hands out the messages of its buffer in
batches and remembers the last one.  `swift/client/SwiftReaderImpl.cpp` takes each batch from the partition whose
first message is oldest; `read` of a single message keeps the rest of the batch in a buffer of its own.

A read that finds nothing waits for responses and tries once more; here this is one read, then responses, then
another read.

* **`Takes`**: all that matters of a call to the reader of a partition, the messages that it gives away.
* **`tryRead_take`**: what a read takes from each of the partitions.
-/

namespace Havenask.Swift

open List MessageReadBuffer

/-- What the readers take from their configuration. -/
structure ReaderConfig where
  batchReadCount : ℕ
  checkpointReflushMode : Bool
  checkpointRefreshTimestampOffset : ℕ
  metaFilter : Option MessageFilter

structure SwiftSinglePartitionReader where
  buffer : MessageReadBuffer
  lastMsgTimestamp : ℤ
  lastMsgOffsetInMerge : ℕ
  nextTimestamp : ℤ
  seekTimestamp : ℤ
  timestampLimit : ℤ

namespace SwiftSinglePartitionReader

variable (zlib : ZlibCompressor) (config : ReaderConfig)

variable (reader : SwiftSinglePartitionReader)

def getFirstMsgTimestamp : ℤ × SwiftSinglePartitionReader :=
  let (timestamp, buffer) := MessageReadBuffer.getFirstMsgTimestamp zlib config.metaFilter reader.buffer
  (timestamp, { reader with buffer := buffer })

def tryReadLoop : ℕ → SwiftSinglePartitionReader → List Message × SwiftSinglePartitionReader
  | 0, reader => ([], reader)
  | n + 1, reader =>
    let (first, reader) := reader.getFirstMsgTimestamp zlib config
    if first > reader.timestampLimit then ([], reader)
    else
      match MessageReadBuffer.read zlib config.metaFilter reader.buffer with
      | (some msg, buffer) =>
        let (msgs, reader) := tryReadLoop n
          { reader with
            buffer := buffer
            lastMsgTimestamp := msg.timestamp
            lastMsgOffsetInMerge := msg.offsetInRawMsg }
        (msg :: msgs, reader)
      | (none, buffer) =>
        if buffer.unReadMsgCount ≤ 0 then ([], { reader with buffer := buffer })
        else tryReadLoop n { reader with buffer := buffer }

def tryRead : List Message × SwiftSinglePartitionReader :=
  tryReadLoop zlib config config.batchReadCount reader

/-- `getCheckpointTimestamp`: a timestamp and an offset in a merged message. -/
def getCheckpointTimestamp : (ℤ × ℕ) × SwiftSinglePartitionReader :=
  let (first, reader) := reader.getFirstMsgTimestamp zlib config
  if first = -1 then
    let checkpoint :=
      if config.checkpointReflushMode then
        max (max (reader.lastMsgTimestamp + 1)
          (reader.nextTimestamp - config.checkpointRefreshTimestampOffset)) reader.seekTimestamp
      else max (reader.lastMsgTimestamp + 1) reader.seekTimestamp
    ((checkpoint, 0), reader)
  else if reader.lastMsgTimestamp = first ∧ offsetInMergeMsgBase ≤ reader.lastMsgOffsetInMerge then
    ((first, reader.lastMsgOffsetInMerge - offsetInMergeMsgBase + 1), reader)
  else ((first, 0), reader)

/-- The part of `handleGetMessageResponse` that fills the buffer. -/
def handleGetMessageResponse (msgs : List Message) (totalMsgCount : ℕ)
    (nextTimestamp : Option ℤ) : SwiftSinglePartitionReader :=
  { reader with
    buffer := reader.buffer.addResponse zlib msgs totalMsgCount
    nextTimestamp := nextTimestamp.getD reader.nextTimestamp }

end SwiftSinglePartitionReader

/-- The reader of all partitions.  Of the message buffer there is what is behind the cursor. -/
structure SwiftReaderImpl where
  readers : List SwiftSinglePartitionReader
  messageBuffer : List Message
  bufferReadIndex : ℕ
  checkpointTimestamp : ℤ

namespace SwiftReaderImpl

def maxTimestamp : ℤ := 2 ^ 63 - 1

section
variable (zlib : ZlibCompressor) (config : ReaderConfig) (exceedLimit : ℕ → Bool)

/-- The first loop of `tryRead`, from the `i`-th reader on: the smallest first timestamp so far, and its reader. -/
def chooseReader : ℕ → ℤ × ℕ → List SwiftSinglePartitionReader → (ℤ × ℕ) × List SwiftSinglePartitionReader
  | _, best, [] => (best, [])
  | i, best, reader :: readers =>
    if exceedLimit i then
      let (best, readers) := chooseReader (i + 1) best readers
      (best, reader :: readers)
    else
      let (first, reader) := reader.getFirstMsgTimestamp zlib config
      let best := if first ≠ -1 ∧ first < best.1 then (first, i) else best
      let (best, readers) := chooseReader (i + 1) best readers
      (best, reader :: readers)

def readFrom (index : ℕ) (readers : List SwiftSinglePartitionReader) :
    List Message × List SwiftSinglePartitionReader :=
  match readers[index]? with
  | none => ([], readers)
  | some reader =>
    let (msgs, reader) := reader.tryRead zlib config
    (msgs, readers.set index reader)

def getMinCheckpointTimestamp : List SwiftSinglePartitionReader → ℤ × List SwiftSinglePartitionReader
  | [] => (maxTimestamp, [])
  | reader :: readers =>
    let ((checkpoint, _), reader) := reader.getCheckpointTimestamp zlib config
    let (rest, readers) := getMinCheckpointTimestamp readers
    (min checkpoint rest, reader :: readers)

/-- `tryRead`: the messages, and whether the batch goes to the message buffer. -/
def tryRead (isBufferRead : Bool) (impl : SwiftReaderImpl) : List Message × SwiftReaderImpl :=
  let ((first, index), readers) := chooseReader zlib config exceedLimit 0 (maxTimestamp, 0) impl.readers
  let (msgs, readers) := if first ≠ maxTimestamp then readFrom zlib config index readers else ([], readers)
  let (checkpoint, readers) := getMinCheckpointTimestamp zlib config readers
  (msgs, { impl with
    readers := readers
    bufferReadIndex := if isBufferRead then index else impl.bufferReadIndex
    checkpointTimestamp := if readers.isEmpty then -1 else checkpoint })

variable (impl : SwiftReaderImpl)

/-- The first half of `read`, which fills the message buffer if it is empty. -/
def prefetch : SwiftReaderImpl :=
  if impl.messageBuffer.isEmpty then
    let (msgs, impl) := impl.tryRead zlib config exceedLimit true
    { impl with messageBuffer := msgs }
  else impl

/-- `read` of a single message, with the timestamp that it returns. -/
def read : ℤ × Option Message × SwiftReaderImpl :=
  let impl := impl.prefetch zlib config exceedLimit
  match impl.messageBuffer with
  | [] => (impl.checkpointTimestamp, none, impl)
  | msg :: rest =>
    let timestamp := match rest with
      | [] => impl.checkpointTimestamp
      | next :: _ => min impl.checkpointTimestamp next.timestamp
    (timestamp, some msg, { impl with messageBuffer := rest })

def readBatch : ℤ × List Message × SwiftReaderImpl :=
  if impl.messageBuffer.isEmpty then
    let (msgs, impl) := impl.tryRead zlib config exceedLimit false
    (impl.checkpointTimestamp, msgs, impl)
  else (impl.checkpointTimestamp, impl.messageBuffer, { impl with messageBuffer := [] })

/-- The progress of one partition: its checkpoint, unless there is a message in the message buffer. -/
def partProgress (index : ℕ) (reader : SwiftSinglePartitionReader) : ℤ × ℕ :=
  let (timestamp, offset) := (reader.getCheckpointTimestamp zlib config).1
  if impl.bufferReadIndex = index then
    match impl.messageBuffer with
    | [] => (timestamp, offset)
    | msg :: _ =>
      if timestamp ≥ msg.timestamp then
        (msg.timestamp, if msg.offsetInRawMsg ≥ offsetInMergeMsgBase then
          msg.offsetInRawMsg - offsetInMergeMsgBase else offset)
      else (timestamp, offset)
  else (timestamp, offset)

/-- `getReaderProgress`: timestamp and offset for each partition. -/
def getReaderProgress : List (ℤ × ℕ) :=
  impl.readers.mapIdx fun index reader => impl.partProgress zlib config index reader

end

end SwiftReaderImpl

/-! ## What a call takes from a partition -/

/-- The messages that a reader of a partition still has. -/
def SwiftSinglePartitionReader.pending (zlib : ZlibCompressor) (config : ReaderConfig)
    (reader : SwiftSinglePartitionReader) : List Message :=
  reader.buffer.pending zlib config.metaFilter

/-- The reader has given messages away and remembers the last one. -/
structure Takes (zlib : ZlibCompressor) (config : ReaderConfig) (reader : SwiftSinglePartitionReader)
    (msgs : List Message) (reader' : SwiftSinglePartitionReader) : Prop where
  pending_eq : reader.pending zlib config = msgs ++ reader'.pending zlib config
  counted : reader'.buffer.Counted zlib config.metaFilter
  last_eq : (msgs = [] ∧ reader'.lastMsgTimestamp = reader.lastMsgTimestamp
      ∧ reader'.lastMsgOffsetInMerge = reader.lastMsgOffsetInMerge)
    ∨ ∃ init msg, msgs = init ++ [msg] ∧ reader'.lastMsgTimestamp = msg.timestamp
      ∧ reader'.lastMsgOffsetInMerge = msg.offsetInRawMsg
  nextTimestamp_eq : reader'.nextTimestamp = reader.nextTimestamp
  seekTimestamp_eq : reader'.seekTimestamp = reader.seekTimestamp

section
variable {zlib : ZlibCompressor} {config : ReaderConfig} {reader reader' reader'' : SwiftSinglePartitionReader}
  {msgs msgs' : List Message}

lemma Takes.refl (hcounted : reader.buffer.Counted zlib config.metaFilter) : Takes zlib config reader [] reader :=
  ⟨rfl, hcounted, .inl ⟨rfl, rfl, rfl⟩, rfl, rfl⟩

lemma Takes.trans (h : Takes zlib config reader msgs reader') (h' : Takes zlib config reader' msgs' reader'') :
    Takes zlib config reader (msgs ++ msgs') reader'' := by
  refine ⟨?_, h'.counted, ?_, h'.nextTimestamp_eq.trans h.nextTimestamp_eq,
    h'.seekTimestamp_eq.trans h.seekTimestamp_eq⟩
  · rw [h.pending_eq, h'.pending_eq, append_assoc]
  rcases h'.last_eq with ⟨rfl, htime', hoffset'⟩ | ⟨init, msg, rfl, htime', hoffset'⟩
  · rw [append_nil, htime', hoffset']
    exact h.last_eq
  · exact .inr ⟨msgs ++ init, msg, (append_assoc _ _ _).symm, htime', hoffset'⟩

namespace SwiftSinglePartitionReader

/-- Looking at the first message takes nothing. -/
lemma getFirstMsgTimestamp_spec (hcounted : reader.buffer.Counted zlib config.metaFilter) :
    Takes zlib config reader [] (reader.getFirstMsgTimestamp zlib config).2
    ∧ (reader.pending zlib config = [] ∧ (reader.getFirstMsgTimestamp zlib config).1 = -1
      ∨ ∃ msg rest, reader.pending zlib config = msg :: rest
        ∧ (reader.getFirstMsgTimestamp zlib config).1 = msg.timestamp) := by
  obtain ⟨hpending, hcounted', htrue, hfalse⟩ := fillMessage_spec hcounted
  rw [getFirstMsgTimestamp, MessageReadBuffer.getFirstMsgTimestamp]
  rcases hfill : fillMessage zlib config.metaFilter reader.buffer with ⟨filled, buffer⟩
  rw [hfill] at hpending hcounted' htrue hfalse
  dsimp only at hpending hcounted' htrue hfalse ⊢
  have htakes : Takes zlib config reader [] { reader with buffer := buffer } :=
    ⟨hpending.symm, hcounted', .inl ⟨rfl, rfl, rfl⟩, rfl, rfl⟩
  cases filled with
  | false => exact ⟨htakes, .inl ⟨hfalse rfl, rfl⟩⟩
  | true =>
    rw [if_pos rfl]
    refine ⟨htakes, .inr ?_⟩
    cases hvec : buffer.unpackMsgVec with
    | nil => exact absurd hvec (htrue.mp rfl)
    | cons msg rest =>
      refine ⟨msg, rest ++ buffer.unread.flatMap (delivered zlib config.metaFilter), ?_, rfl⟩
      rw [pending, ← hpending, MessageReadBuffer.pending, hvec]
      rfl

lemma tryReadLoop_take (n : ℕ) : ∀ {reader : SwiftSinglePartitionReader},
    reader.buffer.Counted zlib config.metaFilter →
      Takes zlib config reader (tryReadLoop zlib config n reader).1 (tryReadLoop zlib config n reader).2 := by
  induction n with
  | zero => exact fun hcounted => .refl hcounted
  | succ n ih =>
    intro reader hcounted
    rw [tryReadLoop]
    obtain ⟨hfirst, -⟩ := getFirstMsgTimestamp_spec hcounted
    generalize reader.getFirstMsgTimestamp zlib config = result at hfirst ⊢
    obtain ⟨first, reader₁⟩ := result
    dsimp only at hfirst ⊢
    split
    · exact hfirst
    obtain ⟨hread, hcounted₂⟩ := read_spec hfirst.counted
    generalize hresult : read zlib config.metaFilter reader₁.buffer = result₂ at hread hcounted₂ ⊢
    obtain ⟨taken, buffer₂⟩ := result₂
    dsimp only at hread hcounted₂
    rcases hread with ⟨hnil, rfl, hnil₂⟩ | ⟨msg, rfl, hcons⟩
    · have hnone : Takes zlib config reader₁ [] { reader₁ with buffer := buffer₂ } :=
        ⟨hnil.trans hnil₂.symm, hcounted₂, .inl ⟨rfl, rfl, rfl⟩, rfl, rfl⟩
      dsimp only
      split
      · exact hfirst.trans hnone
      · exact hfirst.trans (hnone.trans (ih hcounted₂))
    have hone : Takes zlib config reader₁ [msg] { reader₁ with
        buffer := buffer₂
        lastMsgTimestamp := msg.timestamp
        lastMsgOffsetInMerge := msg.offsetInRawMsg } :=
      ⟨hcons, hcounted₂, .inr ⟨[], msg, rfl, rfl, rfl⟩, rfl, rfl⟩
    exact hfirst.trans (hone.trans (ih hcounted₂))

section
variable (hcounted : reader.buffer.Counted zlib config.metaFilter)
include hcounted

lemma tryRead_take : Takes zlib config reader (reader.tryRead zlib config).1 (reader.tryRead zlib config).2 :=
  tryReadLoop_take _ hcounted

lemma getCheckpointTimestamp_take : Takes zlib config reader [] (reader.getCheckpointTimestamp zlib config).2 := by
  have hsame : (reader.getCheckpointTimestamp zlib config).2 = (reader.getFirstMsgTimestamp zlib config).2 := by
    rw [getCheckpointTimestamp]
    dsimp only
    split
    · rfl
    · split <;> rfl
  rw [hsame]
  exact (getFirstMsgTimestamp_spec hcounted).1

/-- The checkpoint of a partition: the first message that it has, or the time behind the last one. -/
lemma getCheckpointTimestamp_spec (hvalid : ∀ msg ∈ reader.pending zlib config, 0 ≤ msg.timestamp) :
    reader.pending zlib config = [] ∧ (reader.getCheckpointTimestamp zlib config).1.2 = 0
      ∧ (reader.getCheckpointTimestamp zlib config).1.1
        = max (if config.checkpointReflushMode then max (reader.lastMsgTimestamp + 1)
          (reader.nextTimestamp - config.checkpointRefreshTimestampOffset)
          else reader.lastMsgTimestamp + 1) reader.seekTimestamp
    ∨ ∃ msg rest, reader.pending zlib config = msg :: rest
      ∧ (reader.getCheckpointTimestamp zlib config).1 = (msg.timestamp,
        if reader.lastMsgTimestamp = msg.timestamp ∧ offsetInMergeMsgBase ≤ reader.lastMsgOffsetInMerge then
          reader.lastMsgOffsetInMerge - offsetInMergeMsgBase + 1 else 0) := by
  obtain ⟨htakes, hfirst⟩ := getFirstMsgTimestamp_spec hcounted
  have hlast : (reader.getFirstMsgTimestamp zlib config).2.lastMsgTimestamp = reader.lastMsgTimestamp := rfl
  have hoffset : (reader.getFirstMsgTimestamp zlib config).2.lastMsgOffsetInMerge
      = reader.lastMsgOffsetInMerge := rfl
  rw [getCheckpointTimestamp]
  dsimp only
  rcases hfirst with ⟨hnil, hfirst⟩ | ⟨msg, rest, hcons, hfirst⟩
  · rw [if_pos hfirst]
    refine .inl ⟨hnil, rfl, ?_⟩
    dsimp only
    rw [htakes.nextTimestamp_eq, htakes.seekTimestamp_eq, hlast]
    split <;> rfl
  have hne : (reader.getFirstMsgTimestamp zlib config).1 ≠ -1 := by
    have hle := hvalid msg (by rw [hcons]; exact mem_cons_self)
    omega
  rw [if_neg hne, hfirst, hlast, hoffset]
  refine .inr ⟨msg, rest, hcons, ?_⟩
  split <;> rfl

end

end SwiftSinglePartitionReader

/-- A call has taken messages from the readers, by their numbers. -/
def ReadersTake (zlib : ZlibCompressor) (config : ReaderConfig) (readers : List SwiftSinglePartitionReader)
    (taken : ℕ → List Message) (readers' : List SwiftSinglePartitionReader) : Prop :=
  ∀ (i : ℕ) (reader' : SwiftSinglePartitionReader), readers'[i]? = some reader' →
    ∃ reader, readers[i]? = some reader ∧ Takes zlib config reader (taken i) reader'

variable {readers readers' : List SwiftSinglePartitionReader} {impl : SwiftReaderImpl}

lemma readersTake_of_forall₂ (h : Forall₂ (fun reader reader' => Takes zlib config reader [] reader')
    readers readers') : ReadersTake zlib config readers (fun _ => []) readers' := by
  intro i reader' hreader'
  obtain ⟨hlt', rfl⟩ := List.getElem?_eq_some_iff.mp hreader'
  have hlt : i < readers.length := by rw [h.length_eq]; exact hlt'
  exact ⟨readers[i], getElem?_eq_getElem hlt, h.get hlt hlt'⟩

lemma ReadersTake.counted {taken : ℕ → List Message} (h : ReadersTake zlib config readers taken readers') :
    ∀ reader' ∈ readers', reader'.buffer.Counted zlib config.metaFilter := by
  intro reader' hmem
  obtain ⟨i, hreader'⟩ := getElem?_of_mem hmem
  obtain ⟨reader, -, htakes⟩ := h i reader' hreader'
  exact htakes.counted

lemma ReadersTake.trans {taken taken' : ℕ → List Message} {readers'' : List SwiftSinglePartitionReader}
    (h : ReadersTake zlib config readers taken readers') (h' : ReadersTake zlib config readers' taken' readers'') :
    ReadersTake zlib config readers (fun i => taken i ++ taken' i) readers'' := by
  intro i reader'' hreader''
  obtain ⟨reader', hreader', htakes'⟩ := h' i reader'' hreader''
  obtain ⟨reader, hreader, htakes⟩ := h i reader' hreader'
  exact ⟨reader, hreader, htakes.trans htakes'⟩

namespace SwiftReaderImpl

lemma chooseReader_take (exceedLimit : ℕ → Bool) (readers : List SwiftSinglePartitionReader) :
    ∀ (i : ℕ) (best : ℤ × ℕ), (∀ reader ∈ readers, reader.buffer.Counted zlib config.metaFilter) →
      Forall₂ (fun reader reader' => Takes zlib config reader [] reader') readers
        (chooseReader zlib config exceedLimit i best readers).2 := by
  induction readers with
  | nil => exact fun _ _ _ => .nil
  | cons reader readers ih =>
    intro i best hcounted
    obtain ⟨hfirst, hrest⟩ := forall_mem_cons.mp hcounted
    rw [chooseReader]
    split
    · exact .cons (.refl hfirst) (ih _ _ hrest)
    · exact .cons (SwiftSinglePartitionReader.getFirstMsgTimestamp_spec hfirst).1 (ih _ _ hrest)

lemma getMinCheckpointTimestamp_take (readers : List SwiftSinglePartitionReader) :
    (∀ reader ∈ readers, reader.buffer.Counted zlib config.metaFilter) →
      Forall₂ (fun reader reader' => Takes zlib config reader [] reader') readers
        (getMinCheckpointTimestamp zlib config readers).2 := by
  induction readers with
  | nil => exact fun _ => .nil
  | cons reader readers ih =>
    intro hcounted
    obtain ⟨hfirst, hrest⟩ := forall_mem_cons.mp hcounted
    exact .cons (SwiftSinglePartitionReader.getCheckpointTimestamp_take hfirst) (ih hrest)

lemma readFrom_take (index : ℕ) (hcounted : ∀ reader ∈ readers, reader.buffer.Counted zlib config.metaFilter) :
    ReadersTake zlib config readers (fun i => if i = index then (readFrom zlib config index readers).1 else [])
      (readFrom zlib config index readers).2 := by
  intro i reader' hreader'
  rw [readFrom.eq_def] at hreader' ⊢
  split at hreader'
  · rename_i hnone
    refine ⟨reader', hreader', ?_⟩
    have hne : i ≠ index := fun heq => by
      rw [heq, hnone] at hreader'
      cases hreader'
    dsimp only
    rw [if_neg hne]
    exact .refl (hcounted reader' (mem_of_getElem? hreader'))
  rename_i reader hreader
  dsimp only at hreader' ⊢
  by_cases heq : i = index
  · subst heq
    rw [if_pos rfl]
    obtain ⟨hlt, -⟩ := List.getElem?_eq_some_iff.mp hreader
    rw [getElem?_set_self hlt] at hreader'
    obtain rfl := Option.some.inj hreader'
    exact ⟨reader, hreader, SwiftSinglePartitionReader.tryRead_take (hcounted reader (mem_of_getElem? hreader))⟩
  · rw [getElem?_set_ne (Ne.symm heq)] at hreader'
    rw [if_neg heq]
    exact ⟨reader', hreader', .refl (hcounted reader' (mem_of_getElem? hreader'))⟩

lemma tryRead_take (exceedLimit : ℕ → Bool) (isBufferRead : Bool)
    (hcounted : ∀ reader ∈ impl.readers, reader.buffer.Counted zlib config.metaFilter) :
    ∃ index, ReadersTake zlib config impl.readers
      (fun i => if i = index then (impl.tryRead zlib config exceedLimit isBufferRead).1 else [])
      (impl.tryRead zlib config exceedLimit isBufferRead).2.readers
    ∧ (impl.tryRead zlib config exceedLimit isBufferRead).2.bufferReadIndex
      = (if isBufferRead then index else impl.bufferReadIndex)
    ∧ (impl.tryRead zlib config exceedLimit isBufferRead).2.messageBuffer = impl.messageBuffer := by
  have hchoose := readersTake_of_forall₂ (chooseReader_take exceedLimit impl.readers 0 (maxTimestamp, 0) hcounted)
  rw [tryRead]
  generalize chooseReader zlib config exceedLimit 0 (maxTimestamp, 0) impl.readers = chosen at hchoose ⊢
  obtain ⟨⟨first, index⟩, readers₁⟩ := chosen
  dsimp only at hchoose ⊢
  refine ⟨index, ?_, rfl, rfl⟩
  have hread : ReadersTake zlib config readers₁
      (fun i => if i = index then
        (if first ≠ maxTimestamp then readFrom zlib config index readers₁ else ([], readers₁)).1 else [])
      (if first ≠ maxTimestamp then readFrom zlib config index readers₁ else ([], readers₁)).2 := by
    split
    · exact readFrom_take index hchoose.counted
    · simp only [ite_self]
      exact fun i reader' hreader' => ⟨reader', hreader', .refl (hchoose.counted reader' (mem_of_getElem? hreader'))⟩
  have hmin : ReadersTake zlib config _ (fun _ => []) _ :=
    readersTake_of_forall₂ (getMinCheckpointTimestamp_take _ hread.counted)
  simpa using (hchoose.trans hread).trans hmin

end SwiftReaderImpl

end

end Havenask.Swift
