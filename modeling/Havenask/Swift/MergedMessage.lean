import Havenask.Lib.LittleEndian

/-!
# Merged messages

`swift/util/MessageInfoUtil.cpp`, `MessageUtil.cpp` and `protocol/MessageCompressor.cpp`: a writer packs
messages of one merge range into one message.  Its data are the number of messages, a word for each with
its payloads and the end of its data, and the data of all.  A merged message may then be compressed, but
for the number in front.

* **`unpackMessage_filter`**: a filter takes from an unpacked message the messages that it would take one
  by one.
* **`unpackMessage_mergeMessage`**: what has been merged is unpacked again, if the number fits 16 bits and
  the data 30; **`unpack_merge_filter`**: with a filter, the messages that pass it, each with its old number.
-/

namespace Havenask.Swift

open List

open LittleEndian (ReadsBack)

abbrev Bytes := List UInt8

/-- `ZlibCompressor`: what has been compressed is decompressed again. -/
structure ZlibCompressor where
  compress : Bytes → Option Bytes
  decompress : Bytes → Option Bytes
  decompress_compress : ∀ {data compressed}, compress data = some compressed → decompress compressed = some data

/-- A compressor that always fails. -/
def noCompressor : ZlibCompressor := ⟨fun _ => none, fun _ => none, fun h => absurd h (by simp)⟩

/-- `MessageInfo`: a message in a writer. -/
structure MessageInfo where
  compress : Bool
  isMerged : Bool
  uint8Payload : UInt8
  uint16Payload : UInt16
  checkpointId : ℤ
  data : Bytes
deriving DecidableEq

/-- `protocol::Message`: a message in a reader. -/
structure Message where
  msgId : ℤ
  timestamp : ℤ
  data : Bytes
  uint16Payload : UInt16
  uint8MaskPayload : UInt8
  compress : Bool
  merged : Bool
  offsetInRawMsg : ℕ
deriving DecidableEq

/-- `OFFSET_IN_MERGE_MSG_BASE`. -/
def offsetInMergeMsgBase : ℕ := 2 ^ 24

/-! ## The words in front of the data -/

structure MergedMessageMeta where
  endPos : ℕ
  isCompress : Bool
  maskPayload : UInt8
  payload : UInt16

variable {entry : MergedMessageMeta}

namespace MergedMessageMeta

/-- The word: 30 bits for the end, one for the flag, 8 and 16 for the payloads. -/
def word (entry : MergedMessageMeta) : ℕ :=
  entry.endPos % 2 ^ 30 + (if entry.isCompress then 2 ^ 30 else 0) + entry.maskPayload.toNat * 2 ^ 32
    + entry.payload.toNat * 2 ^ 40

def ofWord (word : ℕ) : MergedMessageMeta where
  endPos := word % 2 ^ 30
  isCompress := decide (word / 2 ^ 30 % 2 = 1)
  maskPayload := UInt8.ofNat (word / 2 ^ 32)
  payload := UInt16.ofNat (word / 2 ^ 40)

def bytes (entry : MergedMessageMeta) : Bytes := LittleEndian.encode 8 entry.word

def read (data : Bytes) : Option (MergedMessageMeta × Bytes) :=
  (LittleEndian.read 8 data).map fun (word, rest) => (ofWord word, rest)

lemma word_lt (entry : MergedMessageMeta) : entry.word < 2 ^ 64 := by
  have hmask := entry.maskPayload.toNat_lt
  have hpayload := entry.payload.toNat_lt
  rw [word]
  split <;> omega

lemma ofWord_word (hend : entry.endPos < 2 ^ 30) : ofWord entry.word = entry := by
  obtain ⟨endPos, isCompress, maskPayload, payload⟩ := entry
  have hmask := maskPayload.toNat_lt
  have hpayload := payload.toNat_lt
  simp only [word, ofWord, mk.injEq]
  dsimp only at hend
  cases isCompress with
  | false =>
    simp only [Bool.false_eq_true, if_false, decide_eq_false_iff_not]
    refine ⟨by omega, by omega, ?_, ?_⟩
    · rw [← UInt8.toNat_inj, UInt8.toNat_ofNat']
      omega
    · rw [← UInt16.toNat_inj, UInt16.toNat_ofNat']
      omega
  | true =>
    simp only [if_true, decide_eq_true_eq]
    refine ⟨by omega, by omega, ?_, ?_⟩
    · rw [← UInt8.toNat_inj, UInt8.toNat_ofNat']
      omega
    · rw [← UInt16.toNat_inj, UInt16.toNat_ofNat']
      omega

lemma readsBack (hend : entry.endPos < 2 ^ 30) : ReadsBack read entry.bytes entry := by
  intro rest
  rw [read, bytes, LittleEndian.read_encode_append, Option.map_some,
    Nat.mod_eq_of_lt (entry.word_lt.trans_eq (by norm_num))]
  dsimp only
  rw [ofWord_word hend]

end MergedMessageMeta

/-! ## Merging -/

/-- The words of some messages, whose data start at a position. -/
def metasFrom : ℕ → List MessageInfo → List MergedMessageMeta
  | _, [] => []
  | begin, msg :: msgs =>
    ⟨begin + msg.data.length, msg.compress, msg.uint8Payload, msg.uint16Payload⟩
      :: metasFrom (begin + msg.data.length) msgs

/-- The disjunction of the mask payloads. -/
def orPayload (msgs : List MessageInfo) : UInt8 := msgs.foldl (fun payload msg => payload ||| msg.uint8Payload) 0

/-- `MessageInfoUtil::mergeMessage`. -/
def mergeMessage (hashId : UInt16) (msgs : List MessageInfo) : MessageInfo where
  compress := false
  isMerged := true
  uint8Payload := orPayload msgs
  uint16Payload := hashId
  checkpointId := (msgs.head?.map MessageInfo.checkpointId).getD 0
  data := LittleEndian.encode 2 msgs.length
    ++ (metasFrom 0 msgs).flatMap MergedMessageMeta.bytes ++ msgs.flatMap MessageInfo.data

section
variable (zlib : ZlibCompressor)

def compressMergedMessage (compressThreshold : ℕ) (data : Bytes) : Option Bytes :=
  if data.length ≤ 2 then none
  else if data.length ≤ compressThreshold then none
  else
    match zlib.compress (data.drop 2) with
    | none => none
    | some compressed =>
      let compressedData := data.take 2 ++ compressed
      if compressedData.length + 2 < data.length then some compressedData else none

/-- `MessageCompressor::decompressMergedMessage`. -/
def decompressMergedMessage (data : Bytes) : Option Bytes :=
  if data.length ≤ 2 then none
  else (zlib.decompress (data.drop 2)).map (data.take 2 ++ ·)

/-- `MessageInfoUtil::compressMessage`. -/
def compressMessage (threshold : ℕ) (msg : MessageInfo) : MessageInfo :=
  if msg.compress then msg
  else if msg.isMerged then
    match compressMergedMessage zlib threshold msg.data with
    | none => msg
    | some data => { msg with compress := true, data := data }
  else if threshold < msg.data.length then
    match zlib.compress msg.data with
    | none => msg
    | some data => if data.length < msg.data.length then { msg with compress := true, data := data } else msg
  else msg

/-- `MessageCompressor::decompressMessageInfo`. -/
def decompressMessageInfo (msg : MessageInfo) : MessageInfo :=
  let decompressed := if msg.isMerged then decompressMergedMessage zlib msg.data
    else zlib.decompress msg.data
  match decompressed with
  | none => msg
  | some data => { msg with compress := false, data := data }

/-! ## Filters -/

structure MessageFilter where
  rangeFrom : UInt16
  rangeTo : UInt16
  mergedTo : UInt16
  filterMask : UInt8
  maskResult : UInt8

namespace MessageFilter

def rangeFilter (filter : MessageFilter) (payload : UInt16) : Bool :=
  decide (filter.rangeFrom ≤ payload) && decide (payload ≤ filter.rangeTo)

def rangeFilterForMerge (filter : MessageFilter) (payload : UInt16) : Bool :=
  decide (filter.rangeFrom ≤ payload) && decide (payload ≤ filter.mergedTo)

def maskFilter (filter : MessageFilter) (maskPayload : UInt8) : Bool :=
  decide (maskPayload &&& filter.filterMask = filter.maskResult)

/-- `filter`, for all kinds of messages: what it looks at is the same. -/
def filter (filter : MessageFilter) (merged : Bool) (payload : UInt16) (maskPayload : UInt8) : Bool :=
  if merged then filter.rangeFilterForMerge payload && filter.maskFilter maskPayload
  else filter.rangeFilter payload && filter.maskFilter maskPayload

/-- `filter` for one of the messages in a merged one. -/
def filterMeta (filter : MessageFilter) (entry : MergedMessageMeta) : Bool :=
  filter.rangeFilter entry.payload && filter.maskFilter entry.maskPayload

end MessageFilter

/-! ## Unpacking -/

/-- One message of a merged one, with its number.  A message that cannot be decompressed stays as it
is. -/
def innerMessage (msgId timestamp : ℤ) (i : ℕ) (entry : MergedMessageMeta)
    (data : Bytes) : Message :=
  let message : Message := ⟨msgId, timestamp, data, entry.payload, entry.maskPayload, entry.isCompress, false,
    offsetInMergeMsgBase + i⟩
  if entry.isCompress then
    match zlib.decompress data with
    | none => message
    | some data => { message with data := data, compress := false }
  else message

/-- A record of a merged message: its number, where its data start, and its word. -/
structure MergedRecord where
  index : ℕ
  dataBeginPos : ℕ
  entry : MergedMessageMeta

/-- `metaVec[i].endPos - dataBeginPos`, in `uint64_t`. -/
def MergedRecord.length (record : MergedRecord) : ℕ :=
  (record.entry.endPos + 2 ^ 64 - record.dataBeginPos) % 2 ^ 64

/-- The loop of `MessageUtil::unpackMessage`, from the `i`-th word on: the records that the filter takes, and
whether the loop gets to the end.  A record that ends behind the data stops it. -/
def takenRecords (metaFilter : Option MessageFilter) (dataLen : ℕ) :
    ℕ → ℕ → List MergedMessageMeta → List MergedRecord × Bool
  | _, _, [] => ([], true)
  | i, dataBeginPos, entry :: entries =>
    if dataLen < entry.endPos then ([], false)
    else
      let rest := takenRecords metaFilter dataLen (i + 1) entry.endPos entries
      if metaFilter.all (·.filterMeta entry) then (⟨i, dataBeginPos, entry⟩ :: rest.1, rest.2) else rest

/-- The message of a record.  Where the record ends before it starts, its length is more than there are data:
`set_data` then throws, and the message here has the rest of the data. -/
def MergedRecord.message (msgId timestamp : ℤ) (dataPart : Bytes) (record : MergedRecord) : Message :=
  innerMessage zlib msgId timestamp record.index record.entry
    ((dataPart.drop record.dataBeginPos).take record.length)

/-- The messages of all records, if the loop gets to the end. -/
def unpackLoop (msgId timestamp : ℤ) (metaFilter : Option MessageFilter) (dataPart : Bytes)
    (metas : List MergedMessageMeta) : Option (List Message) :=
  match takenRecords metaFilter dataPart.length 0 0 metas with
  | (records, true) => some (records.map (MergedRecord.message zlib msgId timestamp dataPart))
  | (_, false) => none

/-- `MessageUtil::unpackMessage`: the messages that pass the filter, and how many there are in all. -/
def unpackMessage (compressed : Bool) (allData : Bytes) (msgId timestamp : ℤ)
    (metaFilter : Option MessageFilter) : Option (List Message × ℕ) :=
  match if compressed then decompressMergedMessage zlib allData else some allData with
  | none => none
  | some allData =>
    match LittleEndian.read 2 allData with
    | none => none
    | some (msgCount, rest) =>
      if msgCount = 0 then none
      else
        match LittleEndian.readList MergedMessageMeta.read msgCount rest with
        | none => none
        | some (metas, dataPart) =>
          (unpackLoop zlib msgId timestamp metaFilter dataPart metas).map (·, msgCount)

/-- `MessageUtil::unpackMessage` in a writer: the messages get the checkpoint of the merged one. -/
def unpackMessageInfo (msg : MessageInfo) : Option (List MessageInfo) :=
  (unpackMessage zlib false msg.data (-1) (-1) none).map fun (messages, _) =>
    messages.map fun message =>
      { msg with
        compress := message.compress
        isMerged := message.merged
        uint8Payload := message.uint8MaskPayload
        uint16Payload := message.uint16Payload
        data := message.data }

end

/-! ## Filtering while unpacking -/

/-- Whether a filter wants a message that has been unpacked. -/
def MessageFilter.wants (filter : MessageFilter) (message : Message) : Bool :=
  filter.rangeFilter message.uint16Payload && filter.maskFilter message.uint8MaskPayload

section
variable (zlib : ZlibCompressor) (msgId timestamp : ℤ)

@[simp] lemma wants_innerMessage (filter : MessageFilter) (i : ℕ) (entry : MergedMessageMeta) (data : Bytes) :
    filter.wants (innerMessage zlib msgId timestamp i entry data) = filter.filterMeta entry := by
  rw [innerMessage]
  split
  · split <;> rfl
  · rfl

@[simp] lemma merged_innerMessage (i : ℕ) (entry : MergedMessageMeta) (data : Bytes) :
    (innerMessage zlib msgId timestamp i entry data).merged = false := by
  rw [innerMessage]
  split
  · split <;> rfl
  · rfl

lemma takenRecords_filter (filter : MessageFilter) (dataLen : ℕ) (metas : List MergedMessageMeta) :
    ∀ i dataBeginPos, takenRecords (some filter) dataLen i dataBeginPos metas
    = ((takenRecords none dataLen i dataBeginPos metas).1.filter (filter.filterMeta ·.entry),
      (takenRecords none dataLen i dataBeginPos metas).2) := by
  induction metas with
  | nil => exact fun _ _ => rfl
  | cons entry entries ih =>
    intro i dataBeginPos
    rw [takenRecords, takenRecords]
    by_cases hend : dataLen < entry.endPos
    · rw [if_pos hend, if_pos hend]
      rfl
    rw [if_neg hend, if_neg hend]
    simp only [ih, Option.all_some, Option.all_none, if_true]
    cases hmeta : filter.filterMeta entry with
    | true => simp [hmeta]
    | false => simp [hmeta]

lemma unpackLoop_filter (filter : MessageFilter) (dataPart : Bytes) (metas : List MergedMessageMeta) :
    unpackLoop zlib msgId timestamp (some filter) dataPart metas
    = (unpackLoop zlib msgId timestamp none dataPart metas).map (List.filter filter.wants) := by
  rw [unpackLoop, unpackLoop, takenRecords_filter]
  obtain ⟨records, complete⟩ := takenRecords none dataPart.length 0 0 metas
  cases complete with
  | false => rfl
  | true =>
    dsimp only
    rw [Option.map_some, filter_map]
    congr 3
    funext record
    exact (wants_innerMessage ..).symm

lemma unpackMessage_filter (compressed : Bool) (allData : Bytes) (filter : MessageFilter) :
    unpackMessage zlib compressed allData msgId timestamp (some filter)
    = (unpackMessage zlib compressed allData msgId timestamp none).map
      fun (messages, count) => (messages.filter filter.wants, count) := by
  rw [unpackMessage, unpackMessage]
  cases (if compressed then decompressMergedMessage zlib allData else some allData) with
  | none => rfl
  | some allData =>
    dsimp only
    cases LittleEndian.read 2 allData with
    | none => rfl
    | some result =>
      dsimp only
      split
      · rfl
      cases LittleEndian.readList MergedMessageMeta.read result.1 result.2 with
      | none => rfl
      | some result' =>
        dsimp only
        rw [unpackLoop_filter, Option.map_map, Option.map_map]
        rfl

lemma decompress_innerMessage {i : ℕ} {data : Bytes}
    (h : (innerMessage zlib msgId timestamp i entry data).compress = true) :
    zlib.decompress (innerMessage zlib msgId timestamp i entry data).data = none := by
  rw [innerMessage] at h ⊢
  split_ifs at h with hcompress
  · rw [if_pos hcompress]
    split at h
    · assumption
    · cases h
  · exact absurd h hcompress

variable {metaFilter : Option MessageFilter}

/-- The records have growing numbers, and are no more than the words. -/
lemma takenRecords_spec {dataLen : ℕ} (metas : List MergedMessageMeta) : ∀ i dataBeginPos,
    (takenRecords metaFilter dataLen i dataBeginPos metas).1.length ≤ metas.length
    ∧ (∀ record ∈ (takenRecords metaFilter dataLen i dataBeginPos metas).1, i ≤ record.index)
    ∧ (takenRecords metaFilter dataLen i dataBeginPos metas).1.Pairwise (·.index < ·.index) := by
  induction metas with
  | nil => exact fun _ _ => ⟨le_rfl, forall_mem_nil _, Pairwise.nil⟩
  | cons entry entries ih =>
    intro i dataBeginPos
    obtain ⟨hlength, hindex, hgrow⟩ := ih (i + 1) entry.endPos
    rw [takenRecords]
    split
    · exact ⟨Nat.zero_le _, forall_mem_nil _, Pairwise.nil⟩
    dsimp only
    split
    · exact ⟨Nat.succ_le_succ hlength, forall_mem_cons.mpr ⟨le_rfl, fun record hmem => Nat.le_of_succ_le
        (hindex record hmem)⟩, pairwise_cons.mpr ⟨hindex, hgrow⟩⟩
    · exact ⟨hlength.trans (Nat.le_succ _), fun record hmem => Nat.le_of_succ_le (hindex record hmem), hgrow⟩

lemma unpackLoop_eq_some {dataPart : Bytes} {metas : List MergedMessageMeta} {messages : List Message}
    (h : unpackLoop zlib msgId timestamp metaFilter dataPart metas = some messages) :
    messages = (takenRecords metaFilter dataPart.length 0 0 metas).1.map
      (MergedRecord.message zlib msgId timestamp dataPart) := by
  rw [unpackLoop] at h
  split at h
  · rename_i records htaken
    rw [htaken]
    exact (Option.some.inj h).symm
  · cases h

/-- The messages that come out of a merged one are no more than its entries, plain, and decompressed where that
works. -/
lemma unpackLoop_plain {dataPart : Bytes} {metas : List MergedMessageMeta} {messages : List Message}
    (h : unpackLoop zlib msgId timestamp metaFilter dataPart metas = some messages) :
    messages.length ≤ metas.length ∧ ∀ message ∈ messages, message.merged = false
      ∧ (message.compress = true → zlib.decompress message.data = none) := by
  rw [unpackLoop_eq_some zlib msgId timestamp h, length_map, forall_mem_map]
  exact ⟨(takenRecords_spec metas 0 0).1, fun record _ =>
    ⟨merged_innerMessage .., decompress_innerMessage zlib msgId timestamp⟩⟩

lemma unpackMessage_eq_some {compressed : Bool} {allData : Bytes} {messages : List Message} {count : ℕ}
    (h : unpackMessage zlib compressed allData msgId timestamp metaFilter = some (messages, count)) :
    ∃ raw rest metas dataPart, (if compressed then decompressMergedMessage zlib allData else some allData) = some raw
      ∧ LittleEndian.read 2 raw = some (count, rest) ∧ 0 < count
      ∧ LittleEndian.readList MergedMessageMeta.read count rest = some (metas, dataPart)
      ∧ unpackLoop zlib msgId timestamp metaFilter dataPart metas = some messages := by
  rw [unpackMessage] at h
  split at h
  · cases h
  rename_i raw hraw
  split at h
  · cases h
  rename_i msgCount rest hread
  split at h
  · cases h
  rename_i hzero
  split at h
  · cases h
  rename_i metas dataPart hmetas
  obtain ⟨messages', hloop, heq⟩ := Option.map_eq_some_iff.mp h
  obtain ⟨rfl, rfl⟩ := Prod.mk.inj heq
  exact ⟨raw, rest, metas, dataPart, hraw, hread, Nat.pos_of_ne_zero hzero, hmetas, hloop⟩

lemma unpackMessage_length_le {compressed : Bool} {allData : Bytes} {messages : List Message} {count : ℕ}
    (h : unpackMessage zlib compressed allData msgId timestamp metaFilter = some (messages, count)) :
    messages.length ≤ count := by
  obtain ⟨raw, rest, metas, dataPart, -, -, -, hmetas, hloop⟩ := unpackMessage_eq_some zlib msgId timestamp h
  rw [← LittleEndian.length_readList hmetas]
  exact (unpackLoop_plain zlib msgId timestamp hloop).1

end

/-! ## Unpacking what has been merged -/

/-- The data of a message, decompressed where that works. -/
def MessageInfo.plainData (zlib : ZlibCompressor) (msg : MessageInfo) : Bytes :=
  if msg.compress then (zlib.decompress msg.data).getD msg.data else msg.data

/-- What a reader or another writer sees of a message. -/
def MessageInfo.content (zlib : ZlibCompressor) (msg : MessageInfo) : UInt8 × UInt16 × Bytes :=
  (msg.uint8Payload, msg.uint16Payload, msg.plainData zlib)

section
variable (zlib : ZlibCompressor) (msgId timestamp : ℤ)

variable (msgs : List MessageInfo)

lemma length_metasFrom : ∀ start, (metasFrom start msgs).length = msgs.length := by
  induction msgs with
  | nil => exact fun _ => rfl
  | cons msg msgs ih =>
    intro start
    rw [metasFrom, length_cons, ih, length_cons]

lemma endPos_metasFrom_le : ∀ start, ∀ entry ∈ metasFrom start msgs,
    entry.endPos ≤ start + (msgs.flatMap MessageInfo.data).length := by
  induction msgs with
  | nil => exact fun _ _ hmem => absurd hmem not_mem_nil
  | cons msg msgs ih =>
    intro start entry hmem
    rw [flatMap_cons, length_append]
    rcases mem_cons.mp hmem with rfl | hmem
    · dsimp only
      omega
    · have hle := ih _ entry hmem
      omega

/-- The message that comes out for one that went in. -/
def unpacked (entry : MessageInfo × ℕ) : Message :=
  innerMessage zlib msgId timestamp entry.2 ⟨0, entry.1.compress, entry.1.uint8Payload, entry.1.uint16Payload⟩
    entry.1.data

lemma content_unpacked (entry : MessageInfo × ℕ) :
    ((unpacked zlib msgId timestamp entry).uint8MaskPayload, (unpacked zlib msgId timestamp entry).uint16Payload,
      (unpacked zlib msgId timestamp entry).data) = entry.1.content zlib := by
  rw [unpacked, innerMessage, MessageInfo.content, MessageInfo.plainData]
  split
  · cases zlib.decompress entry.1.data with
    | none => rfl
    | some data => rfl
  · rfl

/-- The loop takes the data apart where the words say. -/
lemma takenRecords_metasFrom : ∀ (i : ℕ) (before : Bytes), (msgs.flatMap MessageInfo.data).length < 2 ^ 64 →
    ∃ records, takenRecords none (before ++ msgs.flatMap MessageInfo.data).length i before.length
        (metasFrom before.length msgs) = (records, true)
      ∧ records.map (MergedRecord.message zlib msgId timestamp (before ++ msgs.flatMap MessageInfo.data))
        = (msgs.zipIdx i).map (unpacked zlib msgId timestamp) := by
  induction msgs with
  | nil => exact fun i before _ => ⟨[], rfl, rfl⟩
  | cons msg msgs ih =>
    intro i before hsize
    rw [flatMap_cons, length_append] at hsize
    obtain ⟨records, htaken, hmessages⟩ := ih (i + 1) (before ++ msg.data) (by omega)
    rw [append_assoc, @length_append _ before msg.data] at htaken
    rw [append_assoc] at hmessages
    rw [metasFrom, takenRecords, flatMap_cons, if_neg, htaken]
    · refine ⟨_, rfl, ?_⟩
      have hlength : (before.length + msg.data.length + 2 ^ 64 - before.length) % 2 ^ 64 = msg.data.length := by omega
      rw [map_cons, hmessages, MergedRecord.message, MergedRecord.length, hlength, drop_left, take_left]
      rfl
    rw [length_append, length_append]
    dsimp only
    omega

section
variable {msgs} (hashId : UInt16) (hne : msgs ≠ []) (hcount : msgs.length < 2 ^ 16)
  (hsize : (msgs.flatMap MessageInfo.data).length < 2 ^ 30)
include hne hcount hsize

lemma unpackMessage_mergeMessage_eq : unpackMessage zlib false (mergeMessage hashId msgs).data msgId timestamp none
    = some (msgs.zipIdx.map (unpacked zlib msgId timestamp), msgs.length) := by
  obtain ⟨records, htaken, hmessages⟩ := takenRecords_metasFrom zlib msgId timestamp msgs 0 [] (by omega)
  rw [nil_append, length_nil] at htaken
  rw [nil_append] at hmessages
  have hmetas : ReadsBack (LittleEndian.readList MergedMessageMeta.read (metasFrom 0 msgs).length)
      ((metasFrom 0 msgs).flatMap MergedMessageMeta.bytes) (metasFrom 0 msgs) :=
    LittleEndian.readsBack_readList MergedMessageMeta.bytes fun entry hmem =>
      MergedMessageMeta.readsBack (by have hle := endPos_metasFrom_le msgs 0 entry hmem; omega)
  rw [length_metasFrom] at hmetas
  have hpos : msgs.length ≠ 0 := fun h => hne (length_eq_zero_iff.mp h)
  rw [unpackMessage, mergeMessage]
  simp only [Bool.false_eq_true, if_false]
  rw [append_assoc, LittleEndian.read_encode_append]
  dsimp only
  rw [Nat.mod_eq_of_lt (by omega), if_neg hpos, hmetas]
  dsimp only
  rw [unpackLoop, htaken]
  dsimp only
  rw [hmessages]
  rfl

lemma unpackMessage_mergeMessage :
    ∃ messages, unpackMessage zlib false (mergeMessage hashId msgs).data msgId timestamp none
      = some (messages, msgs.length)
    ∧ messages.map (fun message => (message.uint8MaskPayload, message.uint16Payload, message.data))
      = msgs.map (MessageInfo.content zlib) := by
  refine ⟨_, unpackMessage_mergeMessage_eq zlib msgId timestamp hashId hne hcount hsize, ?_⟩
  rw [map_map]
  conv_rhs => rw [← zipIdx_map_fst 0 msgs, map_map]
  exact map_congr_left fun entry _ => content_unpacked zlib msgId timestamp entry

/-- **Merged messages come out again** where a filter takes them, with their payloads and data and the number that
they had. -/
theorem unpack_merge_filter (hplain : ∀ msg ∈ msgs, msg.compress = false) (metaFilter : Option MessageFilter) :
    unpackMessage zlib false (mergeMessage hashId msgs).data msgId timestamp metaFilter
      = some ((msgs.zipIdx.filter fun (msg, _) => metaFilter.all fun filter =>
          filter.rangeFilter msg.uint16Payload && filter.maskFilter msg.uint8Payload).map fun (msg, i) =>
          ⟨msgId, timestamp, msg.data, msg.uint16Payload, msg.uint8Payload, false, false, offsetInMergeMsgBase + i⟩,
        msgs.length) := by
  have hunpacked : ∀ entry ∈ msgs.zipIdx, unpacked zlib msgId timestamp entry = ⟨msgId, timestamp, entry.1.data,
      entry.1.uint16Payload, entry.1.uint8Payload, false, false, offsetInMergeMsgBase + entry.2⟩ := by
    intro entry hmem
    simp [unpacked, innerMessage, hplain entry.1 (fst_mem_of_mem_zipIdx hmem)]
  have hall := unpackMessage_mergeMessage_eq zlib msgId timestamp hashId hne hcount hsize
  rw [map_congr_left hunpacked] at hall
  cases metaFilter with
  | none => simpa using hall
  | some filter =>
    rw [unpackMessage_filter, hall, Option.map_some]
    dsimp only
    rw [filter_map]
    rfl

end

/-- A filter on the mask payload keeps the second of two messages, with its number. -/
theorem unpack_merge_filter_second :
    unpackMessage noCompressor false (mergeMessage 0 [⟨false, false, 1, 0, 5, [7]⟩, ⟨false, false, 2, 0, 6, [8, 9]⟩]).data
        3 4 (some ⟨0, 65535, 65535, 2, 2⟩)
      = some ([⟨3, 4, [8, 9], 0, 2, false, false, offsetInMergeMsgBase + 1⟩], 2) :=
  unpack_merge_filter noCompressor 3 4 0 (by simp) (by decide) (by decide) (by simp) _

end

end Havenask.Swift
