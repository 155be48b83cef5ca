import Havenask.Lib.LittleEndian

/-!
# Dictionary values

`inverted_index/format/ShortListOptimizeUtil.h`, `DictInlineEncoder.h`, `DictInlineDecoder.h` and
`DictInlineFormatter.cpp`.  The value of a term in the dictionary is a word of 64 bits.  Its upper four bits are the
compress modes of the posting list at an offset, or they say that the word is the posting list itself: documents with
consecutive docids, or one document, whose numbers are written with seven bits to a byte.

* **`create`**, **`read`**: the word of a posting list, and what is made of it.
* **`read_create`**: a word is taken for what it was made from, and gives that back.
-/

namespace Havenask.DictValue

open LittleEndian Option

/-- How a posting list is stored. -/
inductive CompressMode
  | pforDelta | reference | dictInline | shortList
  deriving DecidableEq

def CompressMode.code : CompressMode → ℕ
  | .pforDelta => 0
  | .reference => 1
  | .dictInline => 2
  | .shortList => 3

/-! ## The mode bits -/

def getDictInlineValue (dictValue : ℕ) : ℕ := dictValue &&& (2 ^ 60 - 1)

def getCompressMode (dictValue : ℕ) : ℕ := dictValue >>> 60

def getPosCompressMode (compressMode : ℕ) : ℕ := compressMode &&& 3

def getDocCompressMode (compressMode : ℕ) : ℕ := compressMode >>> 2

/-- `GetCompressMode` of a posting list, by its numbers of documents and of positions. -/
def compressModeOf (df ttf : ℤ) (longListCompressMode : CompressMode) : ℕ :=
  (if df ≤ 5 then CompressMode.shortList else longListCompressMode).code <<< 2
    ||| (if ttf ≤ 5 then CompressMode.shortList else .pforDelta).code

/-- A mode in the upper bits of a word. -/
def modeBits (mode : ℕ) : ℕ := (mode <<< 60) % 2 ^ 64

/-- `CreateDictInlineValue`; the state is 3 for a single document, 2 and 1 for a list of documents. -/
def createDictInlineValue (compressValue : ℕ) (isDocList dfFirst : Bool) : ℕ :=
  compressValue ||| modeBits
    (CompressMode.dictInline.code <<< 2 ||| if isDocList then if dfFirst then 2 else 1 else 3)

def createDictValue (compressMode offset : ℕ) : ℕ := offset ||| modeBits compressMode

/-- `IsDictInlineCompressMode`, with `isDocList` and `dfFirst`. -/
def isDictInlineCompressMode (dictValue : ℕ) : Option (Bool × Bool) :=
  let mode := getCompressMode dictValue
  if getDocCompressMode mode ≠ CompressMode.dictInline.code then none
  else if getPosCompressMode mode = 3 then some (false, true)
  else some (true, decide (getPosCompressMode mode = 2))

def getOffset (dictValue : ℕ) : Option ℕ :=
  if (isDictInlineCompressMode dictValue).isSome then none else some (dictValue &&& (2 ^ 60 - 1))

/-! ## Lists of documents -/

/-- A number as an `int32_t`. -/
def toInt32 (n : ℕ) : ℤ := (n : ℤ).bmod (2 ^ 32)

/-- Two `int32_t` in one `uint64_t`. -/
def pack (v1 v2 : ℤ) : ℕ := (v1 % 2 ^ 64).toNat ||| ((v2 % 2 ^ 64).toNat <<< 32) % 2 ^ 64

/-- `THRESHOLD`. -/
def threshold : ℤ := 2 ^ 28 - 1

def encodeContinuousDocId (startDocid df : ℤ) (enableDictInlineLongDF : Bool) : Option (Bool × ℕ) :=
  if threshold < df then
    if enableDictInlineLongDF = false ∨ threshold < startDocid then none else some (false, pack df startDocid)
  else some (true, pack startDocid df)

/-- `DecodeContinuousDocId`: the start and the number of documents. -/
def decodeContinuousDocId (dfFirst : Bool) (inlinePostingValue : ℕ) : ℤ × ℤ :=
  let value := getDictInlineValue inlinePostingValue
  let df := toInt32 (value >>> 32)
  let startDocid := toInt32 (((value <<< 32) % 2 ^ 64) >>> 32)
  if dfFirst then (startDocid, df) else (df, startDocid)

/-! ## Single documents -/

/-- `EncodeVInt32`, after some turns of its loop: a `uint32_t` takes four at most. -/
def encodeVInt32Loop : ℕ → ℕ → List UInt8
  | 0, ui => [UInt8.ofNat ui]
  | turns + 1, ui =>
      if ui < 128 then [UInt8.ofNat ui] else UInt8.ofNat (ui % 128 + 128) :: encodeVInt32Loop turns (ui / 128)

def encodeVInt32 (value : UInt32) : List UInt8 := encodeVInt32Loop 4 value.toNat

/-- `DecodeVInt32` on the bytes that are left, from some shift on. -/
def decodeVInt32Loop : ℕ → ℕ → List UInt8 → Option (ℕ × List UInt8)
  | _, _, [] => none
  | shift, i, b :: rest =>
      let i := (i ||| (b.toNat % 128) <<< shift) % 2 ^ 32
      if 128 ≤ b.toNat then decodeVInt32Loop (shift + 7) i rest else some (i, rest)

def decodeVInt32 (bytes : List UInt8) : Option (UInt32 × List UInt8) :=
  (decodeVInt32Loop 0 0 bytes).map fun (i, rest) => (UInt32.ofNat i, rest)

/-- `DictInlineEncoder::Encode`: seven bytes at most, in the low bytes of a word. -/
def encode (data : List UInt32) : Option ℕ :=
  if 7 < (data.map fun value => (encodeVInt32 value).length).sum then none
  else some (LittleEndian.decode (data.flatMap encodeVInt32))

/-- `DictInlineDecoder::Decode`; `none` where it throws. -/
def decode (compressValue count : ℕ) : Option (List UInt32) :=
  (LittleEndian.readList decodeVInt32 count ((LittleEndian.encode 8 compressValue).take 7)).map Prod.fst

structure PostingFormatOption where
  hasTermPayload : Bool
  hasDocPayload : Bool
  hasTfList : Bool
  hasFieldMap : Bool

structure DictInlineFormatter where
  termPayload : UInt32
  docId : Int32
  docPayload : UInt16
  termFreq : Int32
  fieldMap : UInt8
  deriving DecidableEq

section
variable (option : PostingFormatOption)

def PostingFormatOption.dictInlineItemCount : ℕ :=
  1 + option.hasTermPayload.toNat + option.hasDocPayload.toNat + option.hasTfList.toNat + option.hasFieldMap.toNat

variable (doc : DictInlineFormatter)

def DictInlineFormatter.toVector : List UInt32 :=
  (if option.hasTermPayload then [doc.termPayload] else []) ++ [doc.docId.toUInt32]
    ++ (if option.hasDocPayload then [doc.docPayload.toUInt32] else [])
    ++ (if option.hasTfList then [doc.termFreq.toUInt32] else [])
    ++ if option.hasFieldMap then [doc.fieldMap.toUInt32] else []

/-- `CheckAndGetValue` for a field that there may not be. -/
def takeIf {α : Type*} (has : Bool) (default : α) (convert : UInt32 → α) : List UInt32 → Option (α × List UInt32)
  | vec =>
      if has then
        match vec with
        | [] => none
        | value :: rest => some (convert value, rest)
      else some (default, vec)

/-- `FromVector`, with the fields as the constructor sets them before. -/
def DictInlineFormatter.fromVector (vec : List UInt32) :
    Option DictInlineFormatter := do
  let (termPayload, vec) ← takeIf option.hasTermPayload 0 id vec
  let (docId, vec) ← takeIf true 0 UInt32.toInt32 vec
  let (docPayload, vec) ← takeIf option.hasDocPayload 0 UInt32.toUInt16 vec
  let (termFreq, vec) ← takeIf option.hasTfList (-1) UInt32.toInt32 vec
  let (fieldMap, vec) ← takeIf option.hasFieldMap 0 UInt32.toUInt8 vec
  if vec = [] then some ⟨termPayload, docId, docPayload, termFreq, fieldMap⟩ else none

def DictInlineFormatter.init (dictValue : ℕ) : Option DictInlineFormatter :=
  (decode dictValue option.dictInlineItemCount).bind (fromVector option)

def DictInlineFormatter.getDictInlineValue : Option ℕ :=
  encode (doc.toVector option)

/-! ## Values -/

inductive Input
  | posting (compressMode offset : ℕ)
  | docList (startDocid df : ℤ) (enableDictInlineLongDF : Bool)
  | singleDoc (doc : DictInlineFormatter)

def create : Input → Option ℕ
  | .posting compressMode offset => some (createDictValue compressMode offset)
  | .docList startDocid df enableDictInlineLongDF =>
      (encodeContinuousDocId startDocid df enableDictInlineLongDF).map fun (dfFirst, value) =>
        createDictInlineValue value true dfFirst
  | .singleDoc doc => (doc.getDictInlineValue option).map (createDictInlineValue · false true)

inductive Stored
  | posting (compressMode offset : ℕ)
  | docList (startDocid df : ℤ)
  | singleDoc (doc : DictInlineFormatter)
  deriving DecidableEq

def read (dictValue : ℕ) : Option Stored :=
  match isDictInlineCompressMode dictValue with
  | none => (getOffset dictValue).map (.posting (getCompressMode dictValue))
  | some (true, dfFirst) =>
      let (startDocid, df) := decodeContinuousDocId dfFirst (getDictInlineValue dictValue)
      some (.docList startDocid df)
  | some (false, _) => (DictInlineFormatter.init option (getDictInlineValue dictValue)).map .singleDoc

/-- The fields that the format has, and the others as the constructor sets them. -/
def DictInlineFormatter.kept : DictInlineFormatter :=
  ⟨if option.hasTermPayload then doc.termPayload else 0, doc.docId,
    if option.hasDocPayload then doc.docPayload else 0, if option.hasTfList then doc.termFreq else -1,
    if option.hasFieldMap then doc.fieldMap else 0⟩

def Input.stored : Input → Stored
  | .posting compressMode offset => .posting compressMode offset
  | .docList startDocid df _ => .docList startDocid df
  | .singleDoc doc => .singleDoc (doc.kept option)

end

/-- The offset has room below the mode bits, the mode is that of a posting list whose documents are not inline, and
docids and their number are not negative. -/
def Input.Valid : Input → Prop
  | .posting compressMode offset => offset < 2 ^ 60
      ∧ ∃ df ttf longListCompressMode, longListCompressMode ≠ CompressMode.dictInline
        ∧ compressMode = compressModeOf df ttf longListCompressMode
  | .docList startDocid df _ => (0 ≤ startDocid ∧ startDocid < 2 ^ 31) ∧ 0 ≤ df ∧ df < 2 ^ 31
  | .singleDoc _ => True

/-- Whether the value is a posting list itself, and then whether it is a list of documents. -/
def Input.isDocList : Input → Option Bool
  | .posting _ _ => none
  | .docList _ _ _ => some true
  | .singleDoc _ => some false

/-! ## Lemmas -/

variable {value : ℕ}

lemma split_modeBits {mode : ℕ} (hvalue : value < 2 ^ 60) (hmode : mode < 16) :
    getCompressMode (value ||| modeBits mode) = mode ∧ getDictInlineValue (value ||| modeBits mode) = value := by
  have hsum : value ||| modeBits mode = 2 ^ 60 * mode + value := by
    rw [modeBits, Nat.shiftLeft_eq, Nat.mod_eq_of_lt (by omega), Nat.or_comm, Nat.mul_comm,
      Nat.two_pow_add_eq_or_of_lt hvalue]
  rw [getCompressMode, getDictInlineValue, hsum, Nat.shiftRight_eq_div_pow, Nat.and_two_pow_sub_one_eq_mod]
  omega

lemma toInt32_eq {n : ℕ} (h : n < 2 ^ 31) : toInt32 n = n := by
  unfold toInt32
  apply Int.bmod_eq_of_le_mul_two
  · push_cast
    omega
  · push_cast
    omega

/-- Two numbers packed into less than 60 bits. -/
lemma pack_spec {v1 v2 : ℤ} (h1 : 0 ≤ v1 ∧ v1 < 2 ^ 31) (h2 : 0 ≤ v2 ∧ v2 < 2 ^ 28) :
    pack v1 v2 < 2 ^ 60 ∧ ∀ dfFirst, decodeContinuousDocId dfFirst (pack v1 v2)
    = if dfFirst then (v1, v2) else (v2, v1) := by
  obtain ⟨a, rfl⟩ := Int.eq_ofNat_of_zero_le h1.1
  obtain ⟨b, rfl⟩ := Int.eq_ofNat_of_zero_le h2.1
  have hsum : pack a b = 2 ^ 32 * b + a := by
    rw [pack, Int.emod_eq_of_lt (by omega) (by omega), Int.emod_eq_of_lt (by omega) (by omega), Int.toNat_natCast,
      Int.toNat_natCast, Nat.shiftLeft_eq, Nat.mod_eq_of_lt (by omega), Nat.or_comm, Nat.mul_comm,
      Nat.two_pow_add_eq_or_of_lt (by omega)]
  refine ⟨by omega, fun dfFirst => ?_⟩
  have hlow : getDictInlineValue (2 ^ 32 * b + a) = 2 ^ 32 * b + a := by
    rw [getDictInlineValue, Nat.and_two_pow_sub_one_eq_mod]
    omega
  have hb : (2 ^ 32 * b + a) >>> 32 = b := by
    rw [Nat.shiftRight_eq_div_pow]
    omega
  have ha : (((2 ^ 32 * b + a) <<< 32) % 2 ^ 64) >>> 32 = a := by
    rw [Nat.shiftRight_eq_div_pow, Nat.shiftLeft_eq]
    omega
  simp only [decodeContinuousDocId, hsum, hlow, hb, ha]
  rw [toInt32_eq (by omega), toInt32_eq (by omega)]

lemma or_shiftLeft_eq {shift i : ℕ} (hi : i < 2 ^ shift) (n : ℕ) : i ||| n <<< shift = i + n * 2 ^ shift := by
  rw [Nat.shiftLeft_eq, Nat.or_comm, Nat.mul_comm, ← Nat.two_pow_add_eq_or_of_lt hi, Nat.add_comm]

lemma decodeVInt32Loop_last {shift i ui : ℕ} (hi : i < 2 ^ shift) (hui : i + ui * 2 ^ shift < 2 ^ 32) (hlt : ui < 128)
    (rest : List UInt8) : decodeVInt32Loop shift i ([UInt8.ofNat ui] ++ rest) = some (i + ui * 2 ^ shift, rest) := by
  have hbyte : (UInt8.ofNat ui).toNat = ui := by
    rw [UInt8.toNat_ofNat']
    omega
  rw [List.singleton_append, decodeVInt32Loop, hbyte, Nat.mod_eq_of_lt hlt, or_shiftLeft_eq hi, Nat.mod_eq_of_lt hui]
  exact if_neg (by omega)

/-- The loop reads back the bits that are left of a number, above those that were read. -/
lemma decodeVInt32Loop_encode (turns shift i ui : ℕ) (rest : List UInt8) (hi : i < 2 ^ shift)
    (hui : i + ui * 2 ^ shift < 2 ^ 32) (hturns : ui < 2 ^ (7 * (turns + 1))) :
    decodeVInt32Loop shift i (encodeVInt32Loop turns ui ++ rest) = some (i + ui * 2 ^ shift, rest) := by
  induction turns generalizing shift i ui with
  | zero => exact decodeVInt32Loop_last hi hui (by omega) rest
  | succ turns ih =>
    rw [encodeVInt32Loop]
    by_cases hlt : ui < 128
    · rw [if_pos hlt]
      exact decodeVInt32Loop_last hi hui hlt rest
    have hbyte : (UInt8.ofNat (ui % 128 + 128)).toNat = ui % 128 + 128 := by
      rw [UInt8.toNat_ofNat']
      omega
    have hsplit : ui * 2 ^ shift = ui % 128 * 2 ^ shift + ui / 128 * 2 ^ (shift + 7) := by
      conv_lhs => rw [← Nat.mod_add_div ui 128]
      ring
    have hpow : 2 ^ (shift + 7) = 128 * 2 ^ shift := by ring
    have hdigit : ui % 128 * 2 ^ shift ≤ 127 * 2 ^ shift := Nat.mul_le_mul_right _ (by omega)
    have hrest : ui / 128 < 2 ^ (7 * (turns + 1)) := by
      rw [Nat.div_lt_iff_lt_mul (by norm_num)]
      exact hturns.trans_eq (by ring)
    have hread : (i + ui % 128 * 2 ^ shift) % 2 ^ 32 = i + ui % 128 * 2 ^ shift := Nat.mod_eq_of_lt (by omega)
    rw [if_neg hlt, List.cons_append, decodeVInt32Loop, hbyte, Nat.add_mod_right, Nat.mod_mod, or_shiftLeft_eq hi,
      hread, if_pos (Nat.le_add_left _ _), hsplit, ← Nat.add_assoc]
    exact ih (shift + 7) (i + ui % 128 * 2 ^ shift) (ui / 128) (by omega) (by omega) hrest

lemma readsBack_decodeVInt32 (value : UInt32) : ReadsBack decodeVInt32 (encodeVInt32 value) value := by
  intro rest
  have hlt := value.toNat_lt
  rw [decodeVInt32, encodeVInt32, decodeVInt32Loop_encode 4 0 0 _ rest (by norm_num) (by omega) (by omega)]
  simp

/-- Seven bytes at most hold the numbers, and they are read back from the word. -/
lemma decode_encode {data : List UInt32} (hencode : encode data = some value) :
    value < 2 ^ 60 ∧ decode value data.length = some data := by
  have hsize : (data.flatMap encodeVInt32).length ≤ 7 ∧ LittleEndian.decode (data.flatMap encodeVInt32) = value := by
    rw [List.length_flatMap]
    simpa [encode] using hencode
  obtain ⟨hlength, rfl⟩ := hsize
  generalize hbytes : data.flatMap encodeVInt32 = bytes at hlength
  constructor
  · calc LittleEndian.decode bytes < 256 ^ bytes.length := decode_lt bytes
      _ ≤ 256 ^ 7 := Nat.pow_le_pow_right (by norm_num) hlength
      _ ≤ 2 ^ 60 := by norm_num
  have hword := encode_add bytes.length (8 - bytes.length) (LittleEndian.decode bytes)
  rw [encode_decode, Nat.add_sub_cancel' (by omega)] at hword
  have hread := readsBack_readList encodeVInt32 fun value (_ : value ∈ data) => readsBack_decodeVInt32 value
  rw [decode, hword, List.take_append, List.take_of_length_le hlength, ← hbytes, hread]
  rfl

variable (option : PostingFormatOption)

variable (doc : DictInlineFormatter)

lemma length_toVector :
    (doc.toVector option).length = option.dictInlineItemCount := by
  obtain ⟨hasTermPayload, hasDocPayload, hasTfList, hasFieldMap⟩ := option
  cases hasTermPayload <;> cases hasDocPayload <;> cases hasTfList <;> cases hasFieldMap <;> rfl

lemma fromVector_toVector :
    DictInlineFormatter.fromVector option (doc.toVector option) = some (doc.kept option) := by
  obtain ⟨hasTermPayload, hasDocPayload, hasTfList, hasFieldMap⟩ := option
  cases hasTermPayload <;> cases hasDocPayload <;> cases hasTfList <;> cases hasFieldMap <;>
    simp [DictInlineFormatter.fromVector, DictInlineFormatter.toVector, DictInlineFormatter.kept, takeIf]

/-- The modes of posting lists at an offset, and what their upper half says. -/
lemma compressModeOf_spec (df ttf : ℤ) {longListCompressMode : CompressMode}
    (hmode : longListCompressMode ≠ .dictInline) : compressModeOf df ttf longListCompressMode < 16
    ∧ getDocCompressMode (compressModeOf df ttf longListCompressMode) ≠ CompressMode.dictInline.code := by
  unfold compressModeOf
  cases longListCompressMode <;> split_ifs <;> first | contradiction | decide

/-- A value that is a posting list itself, taken apart again. -/
lemma createDictInlineValue_spec (hvalue : value < 2 ^ 60) (isDocList dfFirst : Bool)
    (hfirst : isDocList = false → dfFirst = true) :
    isDictInlineCompressMode (createDictInlineValue value isDocList dfFirst) = some (isDocList, dfFirst)
    ∧ getDictInlineValue (createDictInlineValue value isDocList dfFirst) = value := by
  have hlt : (CompressMode.dictInline.code <<< 2 ||| if isDocList then if dfFirst then 2 else 1 else 3) < 16 := by
    cases isDocList <;> cases dfFirst <;> decide
  obtain ⟨hmode, hlow⟩ := split_modeBits hvalue hlt
  refine ⟨?_, hlow⟩
  rw [createDictInlineValue, isDictInlineCompressMode, hmode]
  cases isDocList with
  | false =>
    rw [hfirst rfl]
    rfl
  | true => cases dfFirst <;> rfl

/-! ## Values are read back -/

lemma read_posting {compressMode offset : ℕ} (hvalid : (Input.posting compressMode offset).Valid) :
    isDictInlineCompressMode (createDictValue compressMode offset) = none
    ∧ read option (createDictValue compressMode offset) = some (.posting compressMode offset) := by
  obtain ⟨hoffset, df, ttf, longListCompressMode, hlong, rfl⟩ := hvalid
  obtain ⟨hlt, hdoc⟩ := compressModeOf_spec df ttf hlong
  obtain ⟨hmode, hlow⟩ := split_modeBits hoffset hlt
  have hkind : isDictInlineCompressMode (createDictValue (compressModeOf df ttf longListCompressMode) offset) = none := by
    rw [createDictValue, isDictInlineCompressMode, hmode]
    exact if_pos hdoc
  refine ⟨hkind, ?_⟩
  rw [getDictInlineValue] at hlow
  rw [read, hkind, getOffset, hkind, createDictValue, hmode, hlow]
  rfl

/-- The number that is packed above the other one is below the threshold. -/
lemma encodeContinuousDocId_spec {startDocid df : ℤ} {enableDictInlineLongDF dfFirst : Bool}
    (hvalid : (Input.docList startDocid df enableDictInlineLongDF).Valid)
    (hencode : encodeContinuousDocId startDocid df enableDictInlineLongDF = some (dfFirst, value)) :
    value < 2 ^ 60 ∧ decodeContinuousDocId dfFirst value = (startDocid, df) := by
  obtain ⟨hstart, hdf⟩ := hvalid
  unfold encodeContinuousDocId threshold at hencode
  split_ifs at hencode with hlong hrefuse
  · obtain ⟨rfl, rfl⟩ := Prod.mk.inj (some.inj hencode)
    obtain ⟨hlt, hread⟩ := pack_spec hdf ⟨hstart.1, by omega⟩
    exact ⟨hlt, by simp [hread]⟩
  obtain ⟨rfl, rfl⟩ := Prod.mk.inj (some.inj hencode)
  obtain ⟨hlt, hread⟩ := pack_spec hstart ⟨hdf.1, by omega⟩
  exact ⟨hlt, by simp [hread]⟩

lemma read_create_of_valid {option : PostingFormatOption} {input : Input} {dictValue : ℕ} (hvalid : input.Valid)
    (hcreate : create option input = some dictValue) :
    (isDictInlineCompressMode dictValue).map Prod.fst = input.isDocList
    ∧ read option dictValue = some (input.stored option) := by
  cases input with
  | posting compressMode offset =>
    obtain rfl := some.inj hcreate
    obtain ⟨hkind, hread⟩ := read_posting option hvalid
    exact ⟨by rw [hkind]; rfl, hread⟩
  | docList startDocid df enableDictInlineLongDF =>
    obtain ⟨⟨dfFirst, value⟩, hencode, rfl⟩ := map_eq_some_iff.mp hcreate
    obtain ⟨hlt, hread⟩ := encodeContinuousDocId_spec hvalid hencode
    obtain ⟨hkind, hlow⟩ := createDictInlineValue_spec hlt true dfFirst (by simp)
    exact ⟨by rw [hkind]; rfl, by simp only [read, hkind, hlow, hread, Input.stored]⟩
  | singleDoc doc =>
    obtain ⟨value, hencode, rfl⟩ := map_eq_some_iff.mp hcreate
    obtain ⟨hlt, hread⟩ := decode_encode hencode
    obtain ⟨hkind, hlow⟩ := createDictInlineValue_spec hlt false true (by simp)
    rw [length_toVector] at hread
    refine ⟨by rw [hkind]; rfl, ?_⟩
    simp only [read, hkind, hlow, DictInlineFormatter.init, hread, bind_some, fromVector_toVector,
      map_some, Input.stored]

/-- A dictionary value is taken for what it was made from, gives that back, and is the value of nothing else. -/
theorem read_create (option : PostingFormatOption) {input : Input} {dictValue : ℕ} (hvalid : input.Valid)
    (hcreate : create option input = some dictValue) :
    (isDictInlineCompressMode dictValue).map Prod.fst = input.isDocList
      ∧ read option dictValue = some (input.stored option)
      ∧ ∀ other : Input, other.Valid → create option other = some dictValue →
          other.stored option = input.stored option := by
  obtain ⟨hkind, hread⟩ := read_create_of_valid hvalid hcreate
  refine ⟨hkind, hread, fun other hother hsame => ?_⟩
  have hagain := (read_create_of_valid hother hsame).2
  exact Option.some.inj (hagain.symm.trans hread)

/-- A single document whose term frequency is kept beside its docid. -/
theorem read_create_singleDoc :
    create ⟨false, false, true, false⟩ (.singleDoc ⟨0, 300, 0, 2, 0⟩) = some (11 <<< 60 ||| 0x0202AC)
      ∧ read ⟨false, false, true, false⟩ (11 <<< 60 ||| 0x0202AC) = some (.singleDoc ⟨0, 300, 0, 2, 0⟩) := by
  have hcreate : create ⟨false, false, true, false⟩ (.singleDoc ⟨0, 300, 0, 2, 0⟩) = some (11 <<< 60 ||| 0x0202AC) := by
    decide
  have hvalid : (Input.singleDoc ⟨0, 300, 0, 2, 0⟩).Valid := trivial
  exact ⟨hcreate, (read_create _ hvalid hcreate).2.1⟩

/-- The mode of a long list whose documents are said to be inline, and docid -1. -/
theorem inline_mode_misread :
    create ⟨false, false, false, false⟩ (.posting (compressModeOf 6 6 .dictInline) 0) = some (8 <<< 60)
      ∧ isDictInlineCompressMode (8 <<< 60) = some (true, false)
      ∧ create ⟨false, false, false, false⟩ (.docList (-1) 1 false) = some (2 ^ 64 - 1)
      ∧ isDictInlineCompressMode (2 ^ 64 - 1) = none := by
  decide

end Havenask.DictValue
