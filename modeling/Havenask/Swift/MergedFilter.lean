import Havenask.Swift.MessageReadBuffer
import Havenask.Swift.RangeUtil

/-!
# Filters and merged messages

A consumer asks for a range of hash ids and for messages whose mask payload has given bits.  The broker
sees merged messages only from outside: by the end of their merge range and by the disjunction of the mask
payloads (`MessageFilter.h`).  It sends a merged message on, or unpacks it for a client that cannot
(`BrokerPartition.cpp`).

* **`filter_mergeMessage_iff`**: the range never drops a message that is wanted, the mask does as soon as
  one message has a bit which the filter wants to be zero.
* **`unpackMergedMessage_iff`**: unpacking at the broker gives what unpacking at the client gives, unless
  the broker looks at no message because the ranges fit, and the filter has a mask.
-/

namespace Havenask.Swift

open List MessageFilter RangeUtil MessageReadBuffer Message

/-- `BrokerPartition::adjustRequestFilter`. -/
def adjustRequestFilter (rangeUtil : RangeUtil) (filter : MessageFilter) : MessageFilter :=
  { filter with mergedTo := rangeUtil.getMergeHashId filter.rangeTo }

/-! ## Bits of the mask -/

lemma uint8_eq_iff (x y : UInt8) : x = y ↔ ∀ i < 8, x.toBitVec.getLsbD i = y.toBitVec.getLsbD i := by
  rw [← UInt8.toBitVec_inj]
  exact ⟨fun h i _ => by rw [h], BitVec.eq_of_getLsbD_eq⟩

/-- A bit of the disjunction is a bit of one of the messages. -/
lemma getLsbD_orPayload (msgs : List MessageInfo) (i : ℕ) : (orPayload msgs).toBitVec.getLsbD i
    = msgs.any fun msg => msg.uint8Payload.toBitVec.getLsbD i := by
  have hfold : ∀ (payload : UInt8), (msgs.foldl (fun payload msg => payload ||| msg.uint8Payload)
      payload).toBitVec.getLsbD i
        = (payload.toBitVec.getLsbD i || msgs.any fun msg => msg.uint8Payload.toBitVec.getLsbD i) := by
    induction msgs with
    | nil => simp
    | cons msg msgs ih =>
      intro payload
      rw [foldl_cons, ih, UInt8.toBitVec_or, BitVec.getLsbD_or, any_cons, Bool.or_assoc]
  rw [orPayload, hfold]
  simp

/-- With one message that has the bits of the filter, the disjunction has them exactly if no message has a
bit that the filter wants to be zero. -/
lemma orPayload_and_eq_iff {msgs : List MessageInfo} {msg : MessageInfo} {mask result : UInt8}
    (hmem : msg ∈ msgs) (hmsg : msg.uint8Payload &&& mask = result) : orPayload msgs &&& mask = result
    ↔ ∀ msg ∈ msgs, msg.uint8Payload &&& mask &&& ~~~result = 0 := by
  simp only [uint8_eq_iff, UInt8.toBitVec_and, UInt8.toBitVec_not, BitVec.getLsbD_and,
    BitVec.getLsbD_not, getLsbD_orPayload] at hmsg ⊢
  constructor
  · intro h msg' hmem' i hi
    have hbit := h i hi
    rw [← hbit, decide_eq_true hi]
    cases hpayload : msg'.uint8Payload.toBitVec.getLsbD i with
    | false => simp
    | true =>
      have hany : (msgs.any fun msg => msg.uint8Payload.toBitVec.getLsbD i) = true :=
        any_eq_true.mpr ⟨msg', hmem', hpayload⟩
      rw [hany]
      cases mask.toBitVec.getLsbD i <;> simp
  · intro h i hi
    rw [← hmsg i hi]
    cases hmask : mask.toBitVec.getLsbD i with
    | false => simp
    | true =>
      simp only [Bool.and_true]
      rw [Bool.eq_iff_iff, any_eq_true]
      constructor
      · rintro ⟨msg', hmem', hpayload⟩
        have hzero := h msg' hmem' i hi
        rw [← hmsg i hi, hpayload, hmask, decide_eq_true hi] at hzero
        simpa using hzero
      · exact fun hpayload => ⟨msg, hmem, hpayload⟩

/-! ## The filter of the broker -/

section
variable (partitionCount rangeCount : ℕ)

/-- The broker lets a merged message with a wanted message through exactly if no message in it has a bit
that the filter wants to be zero. -/
theorem filter_mergeMessage_iff (request : MessageFilter) (hashId : UInt16) (msgs : List MessageInfo)
    (hmerge : ∀ msg ∈ msgs, (RangeUtil.init partitionCount rangeCount).getMergeHashId msg.uint16Payload = hashId)
    (hwanted : ∃ msg ∈ msgs, request.rangeFrom ≤ msg.uint16Payload
      ∧ msg.uint16Payload ≤ request.rangeTo
      ∧ msg.uint8Payload &&& request.filterMask = request.maskResult) :
    (adjustRequestFilter (RangeUtil.init partitionCount rangeCount) request).filter
        (mergeMessage hashId msgs).isMerged (mergeMessage hashId msgs).uint16Payload
        (mergeMessage hashId msgs).uint8Payload = true
      ↔ ∀ msg ∈ msgs, msg.uint8Payload &&& request.filterMask &&& ~~~request.maskResult = 0 := by
  obtain ⟨msg, hmem, hfrom, hto, hmask⟩ := hwanted
  have hhash := hmerge msg hmem
  have hrange : (adjustRequestFilter (RangeUtil.init partitionCount rangeCount) request).rangeFilterForMerge
      hashId = true := by
    rw [MessageFilter.rangeFilterForMerge, Bool.and_eq_true, decide_eq_true_eq, decide_eq_true_eq, ← hhash]
    exact ⟨UInt16.le_trans hfrom (RangeUtil.le_getMergeHashId _ _ _), RangeUtil.getMergeHashId_mono _ _ hto⟩
  rw [← orPayload_and_eq_iff hmem hmask, MessageFilter.filter,
    if_pos (show (mergeMessage hashId msgs).isMerged = true from rfl)]
  change (MessageFilter.rangeFilterForMerge _ hashId && MessageFilter.maskFilter _ (orPayload msgs)) = true ↔ _
  rw [hrange, Bool.true_and, MessageFilter.maskFilter, decide_eq_true_eq]
  rfl

/-- A message of one partition and one merge range, with a mask payload. -/
def maskedMessage (mask : UInt8) : MessageInfo := ⟨false, false, mask, 0, 0, []⟩

lemma getMergeHashId_whole (hashId : UInt16) : (init 1 1).getMergeHashId hashId = 65535 := by
  have hle := Nat.le_of_lt_succ hashId.toNat_lt
  have hranges : (init 1 1).mergeRanges = [(0, 65535)] := by decide
  rw [getMergeHashId, hranges]
  simp [hle]

/-- The filter asks for messages without the lowest bit; the second message has it, and the first one is
dropped with it. -/
theorem filter_mergeMessage_drops :
    (∀ msg ∈ [maskedMessage 0, maskedMessage 1], (RangeUtil.init 1 1).getMergeHashId msg.uint16Payload = 65535)
      ∧ (MessageFilter.filter (adjustRequestFilter (RangeUtil.init 1 1) ⟨0, 65535, 0, 1, 0⟩) false
        (maskedMessage 0).uint16Payload (maskedMessage 0).uint8Payload = true)
      ∧ (adjustRequestFilter (RangeUtil.init 1 1) ⟨0, 65535, 0, 1, 0⟩).filter
        (mergeMessage 65535 [maskedMessage 0, maskedMessage 1]).isMerged
        (mergeMessage 65535 [maskedMessage 0, maskedMessage 1]).uint16Payload
        (mergeMessage 65535 [maskedMessage 0, maskedMessage 1]).uint8Payload = false := by
  refine ⟨fun msg _ => getMergeHashId_whole _, ?_, ?_⟩
  · rw [adjustRequestFilter, getMergeHashId_whole]
    decide
  · rw [adjustRequestFilter, getMergeHashId_whole]
    decide

/-- Two messages without the lowest bit pass together. -/
theorem filter_mergeMessage_passes : (adjustRequestFilter (RangeUtil.init 1 1) ⟨0, 65535, 0, 1, 0⟩).filter
      (mergeMessage 65535 [maskedMessage 0, maskedMessage 2]).isMerged
      (mergeMessage 65535 [maskedMessage 0, maskedMessage 2]).uint16Payload
      (mergeMessage 65535 [maskedMessage 0, maskedMessage 2]).uint8Payload = true :=
  (filter_mergeMessage_iff 1 1 ⟨0, 65535, 0, 1, 0⟩ 65535 [maskedMessage 0, maskedMessage 2]
    (fun _ _ => getMergeHashId_whole _) ⟨maskedMessage 0, by decide, by decide, by decide, by decide⟩).mpr
    (by decide)

end

/-! ## Unpacking at the broker -/

/-- `MessageFormat`: one format has no field for the offset in a merged message. -/
inductive MessageFormat
  | fb
  | pb
deriving DecidableEq

/-- A message that the broker puts into its response. -/
def MessageFormat.convert (format : MessageFormat) (msg : Message) : Message :=
  match format with
  | .fb => { msg with offsetInRawMsg := 0 }
  | .pb => msg

/-- When `unpackMergedMessage` builds a filter: if it thinks that messages out of the range may come. -/
def buildsMetaFilter (partition : UInt16 × UInt16) (filter : MessageFilter) : Bool :=
  (decide (filter.rangeTo < filter.mergedTo) && decide (filter.rangeTo < partition.2))
    || decide (partition.1 < filter.rangeFrom)

/-- `BrokerPartition::unpackMergedMessage`: what a message of the response becomes. -/
def unpackAtBroker (zlib : ZlibCompressor) (partition : UInt16 × UInt16) (filter : MessageFilter)
    (format : MessageFormat) (msg : Message) : List Message :=
  let metaFilter := if buildsMetaFilter partition filter then some filter else none
  if msg.merged then
    match unpackMessage zlib msg.compress msg.data msg.msgId msg.timestamp metaFilter with
    | none => [format.convert msg]
    | some (messages, _) => messages.map format.convert
  else [format.convert msg]

/-- `MessageUtil::needFilter`: whether the broker looks at the messages at all. -/
def needFilter (partition : UInt16 × UInt16) (filter : MessageFilter) : Bool :=
  decide (partition.1 < filter.rangeFrom) || decide (filter.rangeTo < partition.2)
    || decide (partition.2 = 0) || decide (filter.filterMask ≠ 0) || decide (filter.maskResult ≠ 0)

/-- What a client reads that gets a response: it reads as long as there is something. -/
def readResponse (zlib : ZlibCompressor) (filter : MessageFilter) (msgs : List Message)
    (totalMsgCount : ℕ) : List Message :=
  MessageReadBuffer.readAll zlib (some filter) totalMsgCount
    (MessageReadBuffer.empty.addResponse zlib msgs totalMsgCount)

/-- A merged message for a client that supports none, from the broker to what is read. -/
def readUnpacked (zlib : ZlibCompressor) (partition : UInt16 × UInt16) (filter : MessageFilter)
    (format : MessageFormat) (msg : Message) : List Message :=
  let msgs := unpackAtBroker zlib partition filter format msg
  readResponse zlib filter msgs msgs.length

/-- A message without its place in a merged one. -/
def Message.content (msg : Message) : Message := { msg with offsetInRawMsg := 0 }

section
variable {zlib : ZlibCompressor} {partition : UInt16 × UInt16} {filter : MessageFilter}

lemma readResponse_plain {msgs : List Message} (hplain : ∀ msg ∈ msgs, msg.merged = false
    ∧ (msg.compress = true → zlib.decompress msg.data = none)) :
    readResponse zlib filter msgs msgs.length = msgs := by
  have hdecompress : ∀ msg ∈ msgs, decompressMessage zlib msg = msg := by
    intro msg hmem
    obtain ⟨hmerged, hcompress⟩ := hplain msg hmem
    rw [decompressMessage]
    split
    · rename_i h
      rw [hmerged, if_neg (by simp), hcompress h]
    · rfl
  have hhonest : Honest zlib (some filter) msgs msgs.length := by
    rw [Honest, map_congr_left (g := fun _ => 1), map_const', sum_replicate]
    · simp
    intro msg hmem
    rw [hdecompress msg hmem, msgCount, (hplain msg hmem).1]
    rfl
  have hpending : pending zlib (some filter)
      (empty.addResponse zlib msgs msgs.length) = msgs := by
    rw [pending_addResponse hhonest]
    change [] ++ _ = msgs
    rw [nil_append, flatMap_congr (g := fun msg => [msg]), flatMap_singleton']
    intro msg hmem
    rw [hdecompress msg hmem, delivered, (hplain msg hmem).1]
    rfl
  rw [readResponse, readAll_eq_pending _ (counted_addResponse counted_empty hhonest)]
  · exact hpending
  · rw [hpending]

variable {msg : Message}

lemma plain_unpacked {metaFilter : Option MessageFilter} {messages : List Message}
    {count : ℕ} {format : MessageFormat}
    (hunpack : unpackMessage zlib msg.compress msg.data msg.msgId msg.timestamp metaFilter = some (messages, count)) :
    ∀ message ∈ messages.map format.convert, message.merged = false
    ∧ (message.compress = true → zlib.decompress message.data = none) := by
  obtain ⟨-, -, metas, dataPart, -, -, -, -, hloop⟩ := unpackMessage_eq_some _ _ _ hunpack
  intro message hmem
  obtain ⟨message', hmem', rfl⟩ := mem_map.mp hmem
  cases format with
  | fb => exact (unpackLoop_plain zlib _ _ hloop).2 message' hmem'
  | pb => exact (unpackLoop_plain zlib _ _ hloop).2 message' hmem'

lemma map_content_convert (format : MessageFormat) (msgs : List Message) :
    (msgs.map format.convert).map content = msgs.map content := by
  rw [map_map]
  apply map_congr_left
  intro msg _
  cases format with
  | fb => rfl
  | pb => rfl

/-- The client gets all messages that the broker has unpacked, filtered if the broker has built a
filter. -/
lemma readUnpacked_eq {inner : List Message} {count : ℕ} (format : MessageFormat)
    (hmerged : msg.merged = true) (hunpack : unpackMessage zlib msg.compress msg.data msg.msgId msg.timestamp none
    = some (inner, count)) : readUnpacked zlib partition filter format msg
    = (if buildsMetaFilter partition filter then inner.filter filter.wants else inner).map format.convert := by
  rw [readUnpacked]
  by_cases hbuilds : buildsMetaFilter partition filter = true
  · have hfiltered := unpackMessage_filter zlib msg.msgId msg.timestamp msg.compress msg.data filter
    rw [hunpack, Option.map_some] at hfiltered
    have hbroker : unpackAtBroker zlib partition filter format msg
        = (inner.filter filter.wants).map format.convert := by
      rw [unpackAtBroker, if_pos hbuilds, if_pos hmerged, hfiltered]
    rw [hbroker, if_pos hbuilds]
    exact readResponse_plain (plain_unpacked hfiltered)
  · have hbroker : unpackAtBroker zlib partition filter format msg = inner.map format.convert := by
      rw [unpackAtBroker, if_neg hbuilds, if_pos hmerged, hunpack]
    rw [hbroker, if_neg hbuilds]
    exact readResponse_plain (plain_unpacked hunpack)

lemma readResponse_merged {inner : List Message} {count : ℕ} (hmerged : msg.merged = true)
    (hunpack : unpackMessage zlib msg.compress msg.data msg.msgId msg.timestamp none = some (inner, count)) :
    readResponse zlib filter [msg] count = inner.filter filter.wants := by
  obtain ⟨raw, -, -, -, hraw, -, hpos, -⟩ := unpackMessage_eq_some _ _ _ hunpack
  -- what the client has decompressed is unpacked without a compressor
  have hdecompress : decompressMessage zlib msg
      = { msg with data := raw, compress := false } := by
    rw [decompressMessage]
    cases hcompress : msg.compress with
    | true =>
      rw [hcompress, if_pos rfl] at hraw
      rw [if_pos rfl, if_pos hmerged, hraw]
    | false =>
      rw [hcompress, if_neg (by simp), Option.some_inj] at hraw
      rw [if_neg (by simp), ← hraw, ← hcompress]
  have hplain : unpackMessage zlib false raw msg.msgId msg.timestamp none = some (inner, count) := by
    rw [← hunpack, unpackMessage, unpackMessage, hraw]
    rfl
  have hfiltered := unpackMessage_filter zlib msg.msgId msg.timestamp false raw filter
  rw [hplain, Option.map_some] at hfiltered
  have hhonest : Honest zlib (some filter) [msg] count := by
    simp [Honest, hdecompress, msgCount, hmerged, hfiltered]
  have hpending : pending zlib (some filter)
      (empty.addResponse zlib [msg] count) = inner.filter filter.wants := by
    rw [pending_addResponse hhonest]
    change [] ++ _ = _
    simp [hdecompress, delivered, hmerged, hfiltered]
  rw [readResponse, readAll_eq_pending _ (counted_addResponse counted_empty hhonest)]
  · exact hpending
  · rw [hpending]
    exact unpackMessage_length_le _ _ _ hfiltered

/-- Where the broker builds no filter, the range of the request covers the messages that come. -/
lemma rangeFilter_of_not_builds {partitionCount rangeCount : ℕ} {request : MessageFilter} {hashId payload : UInt16}
    (hbuilds : buildsMetaFilter partition (adjustRequestFilter (init partitionCount rangeCount) request) = false)
    (hpartition : partition.1 ≤ payload ∧ payload ≤ partition.2)
    (hhash : (init partitionCount rangeCount).getMergeHashId payload = hashId)
    (hpasses : partition.2 ≤ request.rangeTo
    ∨ hashId ≤ (init partitionCount rangeCount).getMergeHashId request.rangeTo) :
    request.rangeFilter payload = true := by
  rw [buildsMetaFilter, Bool.or_eq_false_iff, Bool.and_eq_false_iff] at hbuilds
  simp only [decide_eq_false_iff_not, UInt16.not_lt] at hbuilds
  obtain ⟨hto, hfrom⟩ := hbuilds
  rw [rangeFilter, Bool.and_eq_true, decide_eq_true_eq, decide_eq_true_eq]
  refine ⟨UInt16.le_trans hfrom hpartition.1, ?_⟩
  obtain hto | hto := hto
  · obtain hpasses | hpasses := hpasses
    · exact UInt16.le_trans hpartition.2 hpasses
    · have hpayload := le_getMergeHashId partitionCount rangeCount payload
      rw [hhash] at hpayload
      exact UInt16.le_trans hpayload (UInt16.le_trans hpasses hto)
  · exact UInt16.le_trans hpartition.2 hto

/-- A merged message in the response of a broker: unpacked at the broker, in each format, or at the
client, it gives exactly the messages that the request wants, if and only if the broker builds a filter or
the mask takes all of them. -/
theorem unpackMergedMessage_iff (zlib : ZlibCompressor) (partitionCount rangeCount : ℕ)
    (partition : UInt16 × UInt16) (request : MessageFilter) (msg : Message) (inner : List Message)
    (count : ℕ) (hmerged : msg.merged = true)
    (hunpack : unpackMessage zlib msg.compress msg.data msg.msgId msg.timestamp none = some (inner, count))
    (hinner : ∀ message ∈ inner, (partition.1 ≤ message.uint16Payload
        ∧ message.uint16Payload ≤ partition.2)
      ∧ (RangeUtil.init partitionCount rangeCount).getMergeHashId message.uint16Payload = msg.uint16Payload)
    (hresponse : needFilter partition request = true →
      (adjustRequestFilter (RangeUtil.init partitionCount rangeCount) request).filter msg.merged
        msg.uint16Payload msg.uint8MaskPayload = true) : ((∀ format, (readUnpacked zlib partition
        (adjustRequestFilter (RangeUtil.init partitionCount rangeCount) request) format msg).map
          Message.content = (inner.filter request.wants).map Message.content)
      ∧ readResponse zlib (adjustRequestFilter (RangeUtil.init partitionCount rangeCount) request)
        [msg] count = inner.filter request.wants)
      ↔ buildsMetaFilter partition (adjustRequestFilter (RangeUtil.init partitionCount rangeCount) request) = true
        ∨ ∀ message ∈ inner, request.maskFilter message.uint8MaskPayload = true := by
  have hwants : (adjustRequestFilter (RangeUtil.init partitionCount rangeCount) request).wants
      = request.wants := rfl
  simp only [readUnpacked_eq _ hmerged hunpack, readResponse_merged hmerged hunpack, hwants,
    map_content_convert, and_true]
  by_cases hbuilds : buildsMetaFilter partition
      (adjustRequestFilter (RangeUtil.init partitionCount rangeCount) request) = true
  · simp [hbuilds]
  rw [if_neg hbuilds, or_iff_right hbuilds]
  have hpasses : partition.2 ≤ request.rangeTo ∨ msg.uint16Payload
      ≤ (RangeUtil.init partitionCount rangeCount).getMergeHashId request.rangeTo := by
    by_cases hneed : needFilter partition request = true
    · have hfilter := hresponse hneed
      rw [hmerged, MessageFilter.filter, if_pos rfl, Bool.and_eq_true,
        MessageFilter.rangeFilterForMerge, Bool.and_eq_true, decide_eq_true_eq,
        decide_eq_true_eq] at hfilter
      exact .inr hfilter.1.2
    · simp only [needFilter, Bool.or_eq_true, decide_eq_true_eq, not_or, UInt16.not_lt] at hneed
      exact .inl hneed.1.1.1.2
  have hrange : ∀ message ∈ inner, request.rangeFilter message.uint16Payload = true := fun message hmem =>
    rangeFilter_of_not_builds (Bool.eq_false_of_not_eq_true hbuilds) (hinner message hmem).1
      (hinner message hmem).2 hpasses
  constructor
  · intro heq
    have hlength := congrArg length (heq .pb)
    rw [length_map, length_map, eq_comm, length_filter_eq_length_iff] at hlength
    intro message hmem
    exact (Bool.and_eq_true _ _ ▸ hlength message hmem).2
  · intro hmask _
    rw [filter_eq_self.mpr]
    intro message hmem
    rw [MessageFilter.wants, hrange message hmem, hmask message hmem]
    rfl

/-- Two merged messages, the second one with a bit in its mask payload. -/
def maskedPair (mask : UInt8) : Message :=
  ⟨7, 100, (mergeMessage 65535 [maskedMessage 1, maskedMessage mask]).data, 65535, 1 ||| mask, false, true, 0⟩

/-- A request for all hash ids and messages with the lowest bit: the broker lets the merged message
through, and then unpacks both messages for its client. -/
theorem unpackMergedMessage_unfiltered : (adjustRequestFilter (RangeUtil.init 1 1) ⟨0, 65535, 0, 1, 1⟩).filter true
        (maskedPair 0).uint16Payload (maskedPair 0).uint8MaskPayload = true
      ∧ (readUnpacked noCompressor (0, 65535)
          (adjustRequestFilter (RangeUtil.init 1 1) ⟨0, 65535, 0, 1, 1⟩) .pb (maskedPair 0)).map
        Message.uint8MaskPayload = [1, 0]
      ∧ (readResponse noCompressor (adjustRequestFilter (RangeUtil.init 1 1) ⟨0, 65535, 0, 1, 1⟩)
        [maskedPair 0] 2).map Message.uint8MaskPayload = [1] := by
  rw [adjustRequestFilter, getMergeHashId_whole]
  decide

/-- Both messages, when the second one has the lowest bit, too. -/
def unpackedPair : List Message :=
  [⟨7, 100, [], 0, 1, false, false, 2 ^ 24⟩, ⟨7, 100, [], 0, 1, false, false, 2 ^ 24 + 1⟩]

/-- With the bit in both messages the broker need not filter. -/
theorem unpackMergedMessage_both : (∀ format, (readUnpacked noCompressor (0, 65535)
        (adjustRequestFilter (RangeUtil.init 1 1) ⟨0, 65535, 0, 1, 1⟩) format (maskedPair 1)).map Message.content
        = (unpackedPair.filter (MessageFilter.wants ⟨0, 65535, 0, 1, 1⟩)).map Message.content)
      ∧ readResponse noCompressor (adjustRequestFilter (RangeUtil.init 1 1) ⟨0, 65535, 0, 1, 1⟩)
        [maskedPair 1] 2 = unpackedPair.filter (MessageFilter.wants ⟨0, 65535, 0, 1, 1⟩) :=
  (unpackMergedMessage_iff noCompressor 1 1 (0, 65535) ⟨0, 65535, 0, 1, 1⟩ (maskedPair 1) unpackedPair 2
    rfl (by decide)
    (fun message hmem => ⟨(by decide : ∀ message ∈ unpackedPair, (0 : UInt16) ≤ message.uint16Payload
      ∧ message.uint16Payload ≤ 65535) message hmem, getMergeHashId_whole _⟩)
    (fun _ => by rw [adjustRequestFilter, getMergeHashId_whole]; decide)).mpr (.inr (by decide))

end

end Havenask.Swift
