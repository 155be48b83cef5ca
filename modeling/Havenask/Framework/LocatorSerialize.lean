import Havenask.Framework.Locator
import Havenask.Lib.LittleEndian

/-!
# Serialising locators

Two formats share one entry point.  Version 0 has one source and no sub-offsets; version 1 marks
itself with `MAGIC_NUMBER` in the four bytes after the source id, where version 0 keeps the low half
of the min offset.  `Serialize` writes into a buffer of `Size()` zero bytes.

`Deserialize` is a function of the object it is called on: `Reset` leaves `_isLegacyLocator` alone,
and the branch for an unknown version returns without a `Reset`.  The two format readers are
modelled by `Option`, because everything they write before failing is reset by their caller.  Only an
exception is not followed by a `Reset`: `_multiProgress.resize` takes the count of sources as the bytes
have it, and throws where there is no room for that many.

`deserialize_serialize` is the round trip.  What it asks for, `RoundTrips`, is what the readers ask
for: version 1 refuses a min offset below -1, version 0 counts at most 65535 ranges
and takes a min offset for a magic
number when its low half is one.
-/

namespace Havenask

open LittleEndian List

namespace Locator

def magicNumber : ℤ := -502344248

def locatorDefaultVersion : ℤ := 0

def locatorSuboffsetVersion : ℤ := 1

/-! ## Sizes -/

variable (self : Locator)

def calculateSerializeVersion : ℤ :=
  if 1 < self.multiProgress.length then locatorSuboffsetVersion
  else if 0 < (ofLex self.minOffset).2 then locatorSuboffsetVersion
  else if self.multiProgress.any fun progressVec =>
      progressVec.any fun progress => decide (0 < (ofLex progress.offset).2) then
    locatorSuboffsetVersion
  else locatorDefaultVersion

def progressSize (count : ℕ) : ℕ :=
  (if locatorDefaultVersion ≤ self.calculateSerializeVersion then (4 + 4 + 8) * count else 0)
    + if locatorSuboffsetVersion ≤ self.calculateSerializeVersion then 8 + 4 * count else 0

def userDataSize (len : ℕ) : ℕ := if len = 0 then 0 else 8 + len

def size : ℕ :=
  8 + 8 + 8 + userDataSize self.userData.length
    + (self.multiProgress.map fun progressVec => self.progressSize progressVec.length).sum
    + if self.calculateSerializeVersion = locatorSuboffsetVersion then 4 + 4 + 4 else 0

/-! ## Writing -/

def writeUserData (userData : List UInt8) : List UInt8 :=
  if userData.isEmpty then [] else encode 8 userData.length ++ userData

def writeProgressV0 (progress : Progress) : List UInt8 :=
  encodeInt 8 (ofLex progress.offset).1 ++ encode 4 progress.from ++ encode 4 progress.to

def writeProgressV1 (progress : Progress) : List UInt8 :=
  encodeInt 8 (ofLex progress.offset).1 ++ encode 4 (ofLex progress.offset).2
    ++ encode 4 progress.from ++ encode 4 progress.to

def writeProgressVecV1 (progressVec : ProgressVector) : List UInt8 :=
  encode 8 progressVec.length ++ progressVec.flatMap writeProgressV1

/-- The bytes `SerializeV0` writes, in order. -/
def writesV0 : List UInt8 :=
  encode 8 self.src ++ encodeInt 8 (ofLex self.minOffset).1
    ++ (match self.multiProgress with
      | [] => encode 8 0
      | progressVec :: _ => encode 8 progressVec.length ++ progressVec.flatMap writeProgressV0)
    ++ writeUserData self.userData

/-- The bytes `SerializeV1` writes, in order. -/
def writesV1 : List UInt8 :=
  encode 8 self.src ++ encodeInt 4 magicNumber ++ encodeInt 4 locatorSuboffsetVersion
    ++ encodeInt 8 (ofLex self.minOffset).1 ++ encode 4 (ofLex self.minOffset).2
    ++ encode 8 self.multiProgress.length ++ self.multiProgress.flatMap writeProgressVecV1
    ++ writeUserData self.userData

/-- Writes from the start of a buffer of zero bytes. -/
def intoBuffer (size : ℕ) (writes : List UInt8) : List UInt8 := writes ++ List.replicate (size - writes.length) 0

def serializeV0 : List UInt8 := intoBuffer self.size self.writesV0

def serializeV1 : List UInt8 := intoBuffer self.size self.writesV1

def serialize : List UInt8 :=
  if self.calculateSerializeVersion = 0 then self.serializeV0
  else if self.calculateSerializeVersion = 1 then self.serializeV1
  else []

/-! ## Reading -/

def reset : Locator :=
  { self with src := 0, minOffset := Progress.invalidOffset, multiProgress := [[]], userData := [] }

/-- One range of version 0, with the checks on it. -/
def readProgressV0 (minOffset : Offset) (data : List UInt8) : Option (Progress × List UInt8) := do
  let (first, data) ← readInt 8 data
  let («from», data) ← read 4 data
  let («to», data) ← read 4 data
  let singleProgress : Progress := ⟨«from», «to», toLex (first, 0)⟩
  if singleProgress.offset < minOffset ∨ 65535 < singleProgress.from ∨ 65535 < singleProgress.to then
    none
  else some (singleProgress, data)

def deserializeProgressV0 (minOffset : Offset) (data : List UInt8) : Option (ProgressVector × List UInt8) := do
  let (progressSize, data) ← read 8 data
  if 65535 < progressSize then none
  else readList (readProgressV0 minOffset) progressSize data

variable (data : List UInt8)

/-- The end of both formats: nothing, or user data up to the last byte. -/
def readUserData : Option Locator :=
  if data.isEmpty then some self
  else
    match read 8 data with
    | none => none
    | some (userDataLen, data) =>
      if userDataLen ≠ data.length then none
      else some { self with userData := self.userData ++ data }

/-- Version 0.  When the ranges do not parse, the bytes are the user data of an older format. -/
def deserializeV0 : Option Locator :=
  match readInt 8 data with
  | none => none
  | some (first, data) =>
    let minOffset : Offset := toLex (first, (ofLex self.minOffset).2)
    let legacy : Locator := { self with
      minOffset
      multiProgress := [[⟨0, 65535, minOffset⟩]]
      isLegacyLocator := true }
    if data.isEmpty then some legacy
    else
      match deserializeProgressV0 minOffset data with
      | none => some { legacy with userData := self.userData ++ data }
      | some (progressVec, data) =>
        readUserData { self with minOffset, multiProgress := [progressVec] } data

/-- One range of version 1, with the checks on it. -/
def readProgressV1 (minOffset : Offset) (data : List UInt8) : Option (Progress × List UInt8) := do
  let (first, data) ← readInt 8 data
  let (second, data) ← read 4 data
  let («from», data) ← read 4 data
  let («to», data) ← read 4 data
  let singleProgress : Progress := ⟨«from», «to», toLex (first, second)⟩
  if singleProgress.offset < minOffset ∨ first < -1 ∨ 65535 < singleProgress.from
      ∨ 65535 < singleProgress.to then
    none
  else some (singleProgress, data)

def readProgressVecV1 (minOffset : Offset) (data : List UInt8) : Option (ProgressVector × List UInt8) := do
  let (progressSize, data) ← read 8 data
  readList (readProgressV1 minOffset) progressSize data

/-- The header of version 1: the min offset and the number of sources. -/
def readHeaderV1 : Option ((Offset × ℕ) × List UInt8) := do
  let (first, data) ← readInt 8 data
  let (second, data) ← read 4 data
  let (multiProgressSize, data) ← read 8 data
  if first < -1 then none else some ((toLex (first, second), multiProgressSize), data)

/-- Version 1.  The resize to the number of sources throws beyond `maxSources`, the number of them that there is
room for (`std::length_error` above `max_size()`, `std::bad_alloc` before); the error is the object as the
exception leaves it. -/
def deserializeV1 (maxSources : ℕ) : Except Locator (Option Locator) :=
  match readHeaderV1 data with
  | none => .ok none
  | some ((minOffset, multiProgressSize), data) =>
    if maxSources < multiProgressSize then .error { self with minOffset }
    else
      match readList (readProgressVecV1 minOffset) multiProgressSize data with
      | none => .ok none
      | some (multiProgress, data) => .ok (readUserData { self with minOffset, multiProgress } data)

/-- The end of `Deserialize`: a format reader that fails is followed by a `Reset`, one that throws is not. -/
def afterReader : Except Locator (Option Locator) → Option Bool × Locator
  | .error left => (none, left)
  | .ok none => (some false, self.reset)
  | .ok (some result) => (some true, result)

/-- What is returned, or nothing for an exception, and the object afterwards. -/
def deserialize (maxSources : ℕ) : Option Bool × Locator :=
  match read 8 data with
  | none => (some false, self.reset)
  | some (src, data) =>
    let self := { self.reset with src }
    match readInt 4 data with
    | none => (some false, self.reset)
    | some (maybeMagicNumber, rest) =>
      if maybeMagicNumber ≠ magicNumber then self.afterReader (.ok (deserializeV0 self data))
      else
        -- a failed read of the version leaves the 0 it was initialised with
        let (locatorType, rest) := (readInt 4 rest).getD (0, rest)
        if locatorType = locatorSuboffsetVersion then self.afterReader (deserializeV1 self rest maxSources)
        else (some false, self)

/-! ## What can be serialised -/

/-- A range as a partition of the hash ids has it, not behind the min offset. -/
@[mk_iff]
structure SerializableProgress (minOffset : Offset) (p : Progress) : Prop where
  from_le : p.from ≤ 65535
  to_le : p.to ≤ 65535
  fits : p.offset.Fits
  first : -1 ≤ (ofLex p.offset).1
  min_le : minOffset ≤ p.offset

/-- The locators that are meant to round-trip: values that fit their types, at least one source, and
at most as many ranges as there are hash ids. -/
@[mk_iff]
structure Serializable (L : Locator) : Prop where
  src_lt : L.src < 2 ^ 64
  min_fits : L.minOffset.Fits
  sources_pos : L.multiProgress ≠ []
  sources_lt : L.multiProgress.length < 2 ^ 64
  ranges : ∀ v ∈ L.multiProgress, v.length ≤ 65536
  progress : ∀ v ∈ L.multiProgress, ∀ p ∈ v, SerializableProgress L.minOffset p
  userData_lt : L.userData.length < 2 ^ 64

instance (minOffset : Offset) (p : Progress) : Decidable (SerializableProgress minOffset p) :=
  decidable_of_iff' _ (serializableProgress_iff minOffset p)

instance (L : Locator) : Decidable L.Serializable := decidable_of_iff' _ (serializable_iff L)

/-- What the reader of each version accepts of them. -/
@[mk_iff]
structure RoundTrips (L : Locator) : Prop where
  min_v1 : L.calculateSerializeVersion = locatorSuboffsetVersion → -1 ≤ (ofLex L.minOffset).1
  ranges_v0 : L.calculateSerializeVersion = locatorDefaultVersion → ∀ v ∈ L.multiProgress, v.length ≤ 65535
  min_v0 : L.calculateSerializeVersion = locatorDefaultVersion → (ofLex L.minOffset).1.bmod (2 ^ 32) ≠ magicNumber

instance (L : Locator) : Decidable L.RoundTrips := decidable_of_iff' _ (roundTrips_iff L)

lemma version_cases (L : Locator) : L.calculateSerializeVersion = locatorDefaultVersion
    ∨ L.calculateSerializeVersion = locatorSuboffsetVersion := by
  unfold calculateSerializeVersion
  split_ifs <;> simp

/-- Version 0 has at most one source and no sub-offset. -/
lemma version_eq_default_iff (L : Locator) : L.calculateSerializeVersion = locatorDefaultVersion
    ↔ L.multiProgress.length ≤ 1 ∧ (ofLex L.minOffset).2 = 0
    ∧ ∀ v ∈ L.multiProgress, ∀ p ∈ v, (ofLex p.offset).2 = 0 := by
  unfold calculateSerializeVersion
  have hne : locatorSuboffsetVersion ≠ locatorDefaultVersion := by decide
  split_ifs with h₁ h₂ h₃
  · simp only [hne, false_iff]
    omega
  · simp only [hne, false_iff]
    omega
  · simp only [hne, false_iff]
    simp only [any_eq_true, decide_eq_true_eq] at h₃
    obtain ⟨v, hv, p, hp, hpos⟩ := h₃
    rintro ⟨-, -, hall⟩
    exact absurd (hall v hv p hp) (by omega)
  · simp only [any_eq_true, decide_eq_true_eq, not_exists, not_and] at h₃
    simp only [true_iff]
    exact ⟨by omega, by omega, fun v hv p hp => by have := h₃ v hv p hp; omega⟩

/-! ## Lengths -/

lemma length_writeUserData (userData : List UInt8) :
    (writeUserData userData).length = userDataSize userData.length := by
  cases userData with
  | nil => rfl
  | cons b bs => simp [writeUserData, userDataSize]

lemma length_flatMap_writeProgressV0 (v : ProgressVector) : (v.flatMap writeProgressV0).length = 16 * v.length := by
  induction v with
  | nil => rfl
  | cons p v ih =>
    simp only [flatMap_cons, length_append, ih, writeProgressV0, length_encodeInt, length_encode, length_cons]
    ring

lemma length_flatMap_writeProgressV1 (v : ProgressVector) : (v.flatMap writeProgressV1).length = 20 * v.length := by
  induction v with
  | nil => rfl
  | cons p v ih =>
    simp only [flatMap_cons, length_append, ih, writeProgressV1, length_encodeInt, length_encode, length_cons]
    ring

variable {L : Locator} {minOffset : Offset}

lemma progressSize_v0 (hv : L.calculateSerializeVersion = locatorDefaultVersion)
    (count : ℕ) : L.progressSize count = 16 * count := by
  rw [progressSize, hv, if_pos le_rfl, if_neg (by decide)]
  ring

section
variable (hv : L.calculateSerializeVersion = locatorSuboffsetVersion)
include hv

lemma progressSize_v1
    (count : ℕ) : L.progressSize count = 8 + 20 * count := by
  rw [progressSize, hv, if_pos (by decide), if_pos le_rfl]
  ring

omit hv in
lemma length_writesV0 (hv : L.calculateSerializeVersion = locatorDefaultVersion) : L.writesV0.length = L.size := by
  obtain ⟨hlen, -, -⟩ := (version_eq_default_iff L).mp hv
  have hne : locatorDefaultVersion ≠ locatorSuboffsetVersion := by decide
  rw [writesV0, size, hv, if_neg hne]
  simp only [length_append, length_encode, length_encodeInt, length_writeUserData, progressSize_v0 hv]
  match hm : L.multiProgress with
  | [] =>
    simp only [length_encode, map_nil, sum_nil]
    omega
  | [v] =>
    simp only [length_append, length_encode, length_flatMap_writeProgressV0, map_cons, map_nil, sum_cons, sum_nil]
    omega
  | v :: w :: vs =>
    rw [hm] at hlen
    simp at hlen

omit hv in
lemma length_flatMap_writeProgressVecV1 (vs : MultiProgress) :
    (vs.flatMap writeProgressVecV1).length = (vs.map fun v => 8 + 20 * v.length).sum := by
  induction vs with
  | nil => rfl
  | cons v vs ih =>
    simp only [flatMap_cons, length_append, ih, writeProgressVecV1, length_encode,
      length_flatMap_writeProgressV1, map_cons, sum_cons]

lemma length_writesV1 : L.writesV1.length = L.size := by
  rw [writesV1, size, hv, if_pos rfl]
  simp only [length_append, length_encode, length_encodeInt, length_writeUserData,
    length_flatMap_writeProgressVecV1, progressSize_v1 hv]
  omega

omit hv in
lemma intoBuffer_eq {size : ℕ} {writes : List UInt8} (h : writes.length = size) :
    intoBuffer size writes = writes := by
  simp [intoBuffer, h]

omit hv in
lemma serialize_v0 (hv : L.calculateSerializeVersion = locatorDefaultVersion) : L.serialize = L.writesV0 := by
  have hv' : L.calculateSerializeVersion = 0 := hv
  rw [serialize, if_pos hv', serializeV0, intoBuffer_eq (length_writesV0 hv)]

lemma serialize_v1 : L.serialize = L.writesV1 := by
  have hv' : L.calculateSerializeVersion = 1 := hv
  rw [serialize, hv', if_neg one_ne_zero, if_pos rfl, serializeV1, intoBuffer_eq (length_writesV1 hv)]

end

lemma length_serialize (L : Locator) : L.serialize.length = L.size := by
  rcases L.version_cases with hv | hv
  · rw [serialize_v0 hv, length_writesV0 hv]
  · rw [serialize_v1 hv, length_writesV1 hv]

/-! ## Reading back -/

lemma readsBack_first {o : Offset} (ho : o.Fits) : ReadsBack (readInt 8) (encodeInt 8 (ofLex o).1) (ofLex o).1 := by
  obtain ⟨hlo, hhi, -⟩ := ho
  apply readsBack_readInt
  · norm_num
    linarith
  · norm_num
    linarith

lemma readsBack_second {o : Offset} (ho : o.Fits) : ReadsBack (read 4) (encode 4 (ofLex o).2) (ofLex o).2 :=
  readsBack_read (by simpa using ho.2.2)

lemma readsBack_hashId {h : ℕ} (hh : h ≤ 65535) : ReadsBack (read 4) (encode 4 h) h :=
  readsBack_read (by norm_num; omega)

lemma readsBack_count {n : ℕ} (hn : n < 2 ^ 64) : ReadsBack (read 8) (encode 8 n) n :=
  readsBack_read (by simpa using hn)

lemma readsBack_progressV0 {p : Progress} (hp : SerializableProgress minOffset p) (hsecond : (ofLex p.offset).2 = 0) :
    ReadsBack (readProgressV0 minOffset) (writeProgressV0 p) p := by
  intro rest
  have hoff : toLex ((ofLex p.offset).1, 0) = p.offset := by rw [← hsecond]; rfl
  have hok : ¬ (p.offset < minOffset ∨ 65535 < p.from ∨ 65535 < p.to) := by
    rintro (h | h | h)
    · exact absurd h (not_lt.mpr hp.min_le)
    · exact absurd h (not_lt.mpr hp.from_le)
    · exact absurd h (not_lt.mpr hp.to_le)
  simp only [readProgressV0, writeProgressV0, append_assoc, readsBack_first hp.fits _,
    readsBack_hashId hp.from_le _, readsBack_hashId hp.to_le _, Option.bind_eq_bind,
    Option.bind_some, hoff, if_neg hok]

lemma readsBack_progressV1 {p : Progress} (hp : SerializableProgress minOffset p) :
    ReadsBack (readProgressV1 minOffset) (writeProgressV1 p) p := by
  intro rest
  have hoff : toLex ((ofLex p.offset).1, (ofLex p.offset).2) = p.offset := rfl
  have hok : ¬ (p.offset < minOffset ∨ (ofLex p.offset).1 < -1 ∨ 65535 < p.from ∨ 65535 < p.to) := by
    rintro (h | h | h | h)
    · exact absurd h (not_lt.mpr hp.min_le)
    · exact absurd h (not_lt.mpr hp.first)
    · exact absurd h (not_lt.mpr hp.from_le)
    · exact absurd h (not_lt.mpr hp.to_le)
  simp only [readProgressV1, writeProgressV1, append_assoc, readsBack_first hp.fits _,
    readsBack_second hp.fits _, readsBack_hashId hp.from_le _, readsBack_hashId hp.to_le _,
    Option.bind_eq_bind, Option.bind_some, hoff, if_neg hok]

lemma readsBack_progressVecV1 {v : ProgressVector} (hlen : v.length ≤ 65536)
    (hv : ∀ p ∈ v, SerializableProgress minOffset p) :
    ReadsBack (readProgressVecV1 minOffset) (writeProgressVecV1 v) v := by
  intro rest
  have hcount := readsBack_count (n := v.length) (by omega)
  have hlist := readsBack_readList writeProgressV1 fun p hp => readsBack_progressV1 (hv p hp)
  simp only [readProgressVecV1, writeProgressVecV1, append_assoc, hcount _,
    Option.bind_eq_bind, Option.bind_some, hlist _]

lemma readUserData_writeUserData {self : Locator} (hempty : self.userData = [])
    {userData : List UInt8} (hlen : userData.length < 2 ^ 64) :
    readUserData self (writeUserData userData) = some { self with userData } := by
  cases hu : userData with
  | nil =>
    simp only [readUserData, writeUserData, isEmpty_nil, if_true]
    rw [← hempty]
  | cons b bs =>
    have hne : ((encode 8 (b :: bs).length ++ (b :: bs)).isEmpty) = false := by
      rw [isEmpty_eq_false_iff]
      simp
    rw [hu] at hlen
    simp only [readUserData, writeUserData, isEmpty_cons, Bool.false_eq_true, if_false, hne,
      readsBack_count hlen _, ne_eq, not_true_eq_false, hempty, nil_append]

/-! ## The round trip -/

section
variable {L : Locator} (prior : Locator) (maxSources : ℕ)

/-- How the bytes of version 0 are read: past the source id, where version 1 has its magic number,
come the low half of the min offset and then the ranges. -/
lemma deserialize_v0 (hL : L.Serializable) (hv : L.calculateSerializeVersion = locatorDefaultVersion)
    (hmagic : (ofLex L.minOffset).1.bmod (2 ^ 32) ≠ magicNumber) {v : ProgressVector} (hm : L.multiProgress = [v]) :
    prior.deserialize L.serialize maxSources = match deserializeProgressV0 L.minOffset
        (encode 8 v.length ++ (v.flatMap writeProgressV0 ++ writeUserData L.userData)) with
      | none => (some true, ⟨L.src, L.minOffset, [[⟨0, 65535, L.minOffset⟩]],
          encode 8 v.length ++ (v.flatMap writeProgressV0 ++ writeUserData L.userData), true⟩)
      | some (v, data) =>
        prior.afterReader (.ok (readUserData ⟨L.src, L.minOffset, [v], [], prior.isLegacyLocator⟩ data)) := by
  obtain ⟨-, hsecond, -⟩ := (version_eq_default_iff L).mp hv
  have hmin : toLex ((ofLex L.minOffset).1, (ofLex Progress.invalidOffset).2) = L.minOffset := by
    show toLex ((ofLex L.minOffset).1, 0) = L.minOffset
    rw [← hsecond]
    rfl
  have hne : (encode 8 v.length ++ (v.flatMap writeProgressV0 ++ writeUserData L.userData)).isEmpty
      = false := by
    rw [isEmpty_eq_false_iff, ← length_pos_iff]
    simp only [length_append, length_encode]
    omega
  obtain ⟨low, hlow⟩ := readInt_encodeInt_low 4 4 (ofLex L.minOffset).1
    (encode 8 v.length ++ (v.flatMap writeProgressV0 ++ writeUserData L.userData))
  rw [serialize_v0 hv, writesV0, hm]
  simp only [append_assoc, deserialize, readsBack_count hL.src_lt _, hlow, ne_eq, hmagic,
    not_false_eq_true, if_true, deserializeV0, readsBack_first hL.min_fits _, reset, hmin, hne,
    Bool.false_eq_true, if_false, nil_append]
  cases deserializeProgressV0 L.minOffset
      (encode 8 v.length ++ (v.flatMap writeProgressV0 ++ writeUserData L.userData)) with
  | none => rfl
  | some read =>
    dsimp only
    cases readUserData ⟨L.src, L.minOffset, [read.1], [], prior.isLegacyLocator⟩ read.2 with
    | none => rfl
    | some result => rfl

lemma deserialize_serialize_v0 (hL : L.Serializable) (hok : L.RoundTrips)
    (hv : L.calculateSerializeVersion = locatorDefaultVersion) : prior.deserialize L.serialize maxSources
    = (some true, { L with isLegacyLocator := prior.isLegacyLocator }) := by
  obtain ⟨hlen, -, hzero⟩ := (version_eq_default_iff L).mp hv
  obtain ⟨v, hm⟩ : ∃ v, L.multiProgress = [v] := by
    have := length_pos_iff.mpr hL.sources_pos
    exact length_eq_one_iff.mp (by omega)
  have hmem : v ∈ L.multiProgress := by simp [hm]
  have hranges := hok.ranges_v0 hv v hmem
  have hcount := readsBack_count (n := v.length) (by omega)
  have hlist := readsBack_readList writeProgressV0
    fun p hp => readsBack_progressV0 (hL.progress v hmem p hp) (hzero v hmem p hp)
  rw [deserialize_v0 prior maxSources hL hv (hok.min_v0 hv) hm]
  simp only [deserializeProgressV0, hcount _, Option.bind_eq_bind, Option.bind_some,
    if_neg (not_lt.mpr hranges), hlist _]
  rw [readUserData_writeUserData rfl hL.userData_lt, ← hm]
  rfl

lemma deserialize_serialize_v1 (hL : L.Serializable) (hok : L.RoundTrips)
    (hroom : L.multiProgress.length ≤ maxSources)
    (hv : L.calculateSerializeVersion = locatorSuboffsetVersion) : prior.deserialize L.serialize maxSources
    = (some true, { L with isLegacyLocator := prior.isLegacyLocator }) := by
  have hmin : toLex ((ofLex L.minOffset).1, (ofLex L.minOffset).2) = L.minOffset := rfl
  have hmagic : ReadsBack (readInt 4) (encodeInt 4 magicNumber) magicNumber :=
    readsBack_readInt (by decide) (by decide)
  have hversion : ReadsBack (readInt 4) (encodeInt 4 locatorSuboffsetVersion)
      locatorSuboffsetVersion := readsBack_readInt (by decide) (by decide)
  have hlist := readsBack_readList writeProgressVecV1
    fun v hmem => readsBack_progressVecV1 (hL.ranges v hmem) (hL.progress v hmem)
  rw [serialize_v1 hv, writesV1]
  simp only [append_assoc, deserialize, readsBack_count hL.src_lt _, hmagic _, ne_eq,
    not_true_eq_false, if_false, hversion _, Option.getD_some, if_true, deserializeV1, readHeaderV1,
    readsBack_first hL.min_fits _, readsBack_second hL.min_fits _, readsBack_count hL.sources_lt _,
    Option.bind_eq_bind, Option.bind_some, if_neg (not_lt.mpr (hok.min_v1 hv)), hmin,
    if_neg (not_lt.mpr hroom), hlist _]
  rw [readUserData_writeUserData rfl hL.userData_lt]
  rfl

end

/-- **Serialisation round-trips**, into whatever object reads it and has room for the sources, and
fills exactly `Size()` bytes. -/
theorem deserialize_serialize (L prior : Locator) (maxSources : ℕ) (hL : L.Serializable) (hok : L.RoundTrips)
    (hroom : L.multiProgress.length ≤ maxSources) :
    prior.deserialize L.serialize maxSources = (some true, { L with isLegacyLocator := prior.isLegacyLocator })
      ∧ L.serialize.length = L.size := by
  refine ⟨?_, L.length_serialize⟩
  rcases L.version_cases with hv | hv
  · exact deserialize_serialize_v0 prior maxSources hL hok hv
  · exact deserialize_serialize_v1 prior maxSources hL hok hroom hv

/-- A version 1 locator, with a sub-offset and three bytes of user data. -/
theorem deserialize_serialize_subOffset :
    let L : Locator := ⟨7, toLex (5, 1), [[⟨0, 65535, toLex (5, 1)⟩]], [1, 2, 3], false⟩
    (default : Locator).deserialize L.serialize 1 = (some true, L) ∧ L.serialize.length = 75 := by
  intro L
  obtain ⟨hread, hlen⟩ := deserialize_serialize L default 1 (by decide) (by decide) (by decide)
  exact ⟨hread, hlen.trans (by decide)⟩

/-- Version 1 refuses a min offset below -1; version 0 takes a min offset whose low half is the
magic number for the start of a version 1 locator, and finds no version it knows. -/
theorem deserialize_serialize_refused :
    let L₁ : Locator := ⟨7, toLex (-2, 1), [[⟨0, 65535, toLex (5, 0)⟩]], [], false⟩
    let L₀ : Locator := ⟨7, toLex (-502344248, 0), [[⟨0, 65535, toLex (5, 0)⟩]], [], false⟩
    (L₁.Serializable ∧ ((default : Locator).deserialize L₁.serialize 1).1 = some false)
      ∧ L₀.Serializable ∧ ((default : Locator).deserialize L₀.serialize 1).1 = some false := by
  intro L₁ L₀
  exact ⟨⟨by decide, by decide +kernel⟩, by decide, by decide +kernel⟩

end Locator

end Havenask
