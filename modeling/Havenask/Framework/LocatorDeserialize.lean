import Havenask.Framework.LocatorSerialize

/-!
# What `Deserialize` keeps of the object it is called on

`Deserialize` is meant to overwrite the locator it is called on.  It calls `Reset` first and again
on every refusal but one, and `Reset` sets every field but `_isLegacyLocator`.  So the legacy flag
of the earlier state survives, or-ed into the flag that the bytes ask for
(`deserialize_eq`), and bytes with a magic number and an unknown version leave their source id
behind.  Bytes that announce more sources than there is room for end in an exception.

`formatOf` sorts byte strings by what the readers make of them, without an object to read into.
`deserialize_overwrites_iff` then says for which bytes and which two earlier states the call returns with
the same result, and the default locator on a refusal.
-/

namespace Havenask

open LittleEndian

namespace Locator

/-- What a byte string is for `Deserialize`. -/
inductive ByteFormat
  /-- no source id, no room for a magic number, or a broken body -/
  | malformed
  /-- a min offset, and nothing or user data of the oldest format after it -/
  | legacy
  /-- ranges, then nothing or user data up to the last byte -/
  | ranges
  /-- a magic number with a version this code does not know -/
  | unknownVersion (src : ℕ)
  /-- a header of version 1 with more sources than there is room for -/
  | oversized
  deriving DecidableEq

/-- Nothing, or a length and as many bytes. -/
def userDataFits (data : List UInt8) : Bool :=
  data.isEmpty || match read 8 data with
    | none => false
    | some (userDataLen, data) => decide (userDataLen = data.length)

def bodyFormatV0 (data : List UInt8) : ByteFormat :=
  match readInt 8 data with
  | none => .malformed
  | some (first, data) =>
    if data.isEmpty then .legacy
    else
      match deserializeProgressV0 (toLex (first, 0)) data with
      | none => .legacy
      | some (_, data) => if userDataFits data then .ranges else .malformed

section
variable (maxSources : ℕ)

def bodyFormatV1 (data : List UInt8) : ByteFormat :=
  match readHeaderV1 data with
  | none => .malformed
  | some ((minOffset, multiProgressSize), data) =>
    if maxSources < multiProgressSize then .oversized
    else
      match readList (readProgressVecV1 minOffset) multiProgressSize data with
      | none => .malformed
      | some (_, data) => if userDataFits data then .ranges else .malformed

/-- What the bytes are to a process that has room for `maxSources` sources. -/
def formatOf (data : List UInt8) : ByteFormat :=
  match read 8 data with
  | none => .malformed
  | some (src, data) =>
    match readInt 4 data with
    | none => .malformed
    | some (maybeMagicNumber, rest) =>
      if maybeMagicNumber ≠ magicNumber then bodyFormatV0 data
      else
        let (locatorType, rest) := (readInt 4 rest).getD (0, rest)
        if locatorType = locatorSuboffsetVersion then bodyFormatV1 maxSources rest
        else .unknownVersion src

end

/-! ## The earlier state is kept in the legacy flag only -/

/-- The flag of an earlier state, or-ed into a locator. -/
def withLegacyOf (self prior : Locator) : Locator :=
  { self with isLegacyLocator := self.isLegacyLocator || prior.isLegacyLocator }

variable (self prior : Locator) (maxSources : ℕ)

lemma readUserData_withLegacyOf (data : List UInt8) : readUserData (self.withLegacyOf prior) data
    = (readUserData self data).map (·.withLegacyOf prior) := by
  unfold readUserData
  by_cases hempty : data.isEmpty = true
  · rw [if_pos hempty, if_pos hempty]
    rfl
  rw [if_neg hempty, if_neg hempty]
  cases read 8 data with
  | none => rfl
  | some r =>
    obtain ⟨userDataLen, rest⟩ := r
    dsimp only
    by_cases hlen : userDataLen ≠ rest.length
    · rw [if_pos hlen, if_pos hlen]
      rfl
    · rw [if_neg hlen, if_neg hlen]
      rfl

lemma deserializeV0_withLegacyOf (data : List UInt8) : deserializeV0 (self.withLegacyOf prior) data
    = (deserializeV0 self data).map (·.withLegacyOf prior) := by
  unfold deserializeV0
  cases readInt 8 data with
  | none => rfl
  | some r =>
    obtain ⟨first, data⟩ := r
    dsimp only
    by_cases hempty : data.isEmpty = true
    · rw [if_pos hempty, if_pos hempty]
      rfl
    rw [if_neg hempty, if_neg hempty]
    have hmin : (self.withLegacyOf prior).minOffset = self.minOffset := rfl
    rw [hmin]
    cases deserializeProgressV0 (toLex (first, (ofLex self.minOffset).2)) data with
    | none => rfl
    | some s =>
      exact readUserData_withLegacyOf { self with
        minOffset := toLex (first, (ofLex self.minOffset).2)
        multiProgress := [s.1] } prior s.2

/-- The flag of an earlier state, or-ed into whatever a reader leaves. -/
def readerWithLegacyOf : Except Locator (Option Locator) → Except Locator (Option Locator)
  | .error left => .error (left.withLegacyOf prior)
  | .ok result => .ok (result.map (·.withLegacyOf prior))

lemma deserializeV1_withLegacyOf (data : List UInt8) : deserializeV1 (self.withLegacyOf prior) data maxSources
    = readerWithLegacyOf prior (deserializeV1 self data maxSources) := by
  unfold deserializeV1
  cases readHeaderV1 data with
  | none => rfl
  | some header =>
    dsimp only
    split
    · rfl
    cases readList (readProgressVecV1 header.1.1) header.1.2 header.2 with
    | none => rfl
    | some ranges =>
      refine congrArg Except.ok ?_
      exact readUserData_withLegacyOf { self with minOffset := header.1.1, multiProgress := ranges.1 } prior ranges.2

lemma reset_eq (self : Locator) : self.reset = (default : Locator).withLegacyOf self := by
  simp [reset, withLegacyOf, default]

lemma afterReader_withLegacyOf (src : ℕ) (result : Except Locator (Option Locator)) :
    ({ (default : Locator) with src }.withLegacyOf prior).afterReader (readerWithLegacyOf prior result)
    = (({ (default : Locator) with src }.afterReader result).1,
      ({ (default : Locator) with src }.afterReader result).2.withLegacyOf prior) := by
  rcases result with left | (- | result)
  · rfl
  · simp [readerWithLegacyOf, afterReader, reset, withLegacyOf, default]
  · rfl

/-! ## A new object, by the format of the bytes -/

/-- What a new object answers and becomes, as far as the format of the bytes fixes it. -/
def Yields : ByteFormat → Option Bool × Locator → Prop
  | .malformed, r => r = (some false, default)
  | .legacy, r => r.1 = some true ∧ r.2.isLegacyLocator = true
  | .ranges, r => r.1 = some true ∧ r.2.isLegacyLocator = false
  | .unknownVersion src, r => r = (some false, { (default : Locator) with src })
  | .oversized, r => r.1 = none

lemma readUserData_of_fits (self : Locator) {data : List UInt8} (h : userDataFits data = true) :
    ∃ L, readUserData self data = some L ∧ L.isLegacyLocator = self.isLegacyLocator := by
  unfold readUserData
  unfold userDataFits at h
  by_cases hempty : data.isEmpty = true
  · exact ⟨self, if_pos hempty, rfl⟩
  rw [if_neg hempty]
  cases hread : read 8 data with
  | none => simp [hempty, hread] at h
  | some r =>
    have hlen : r.1 = r.2.length := by simpa [hempty, hread] using h
    exact ⟨_, if_neg (not_not.mpr hlen), rfl⟩

lemma readUserData_of_not_fits {self : Locator} {data : List UInt8}
    (h : ¬ userDataFits data = true) : readUserData self data = none := by
  unfold readUserData
  unfold userDataFits at h
  by_cases hempty : data.isEmpty = true
  · simp [hempty] at h
  rw [if_neg hempty]
  cases hread : read 8 data with
  | none => rfl
  | some r =>
    have hlen : r.1 ≠ r.2.length := by simpa [hempty, hread] using h
    exact if_pos hlen

section
variable (src : ℕ)

lemma yields_readUserData {self : Locator} (hself : self.isLegacyLocator = false) (data : List UInt8) :
    Yields (if userDataFits data then .ranges else .malformed)
      (({ (default : Locator) with src } : Locator).afterReader (.ok (readUserData self data))) := by
  by_cases hfits : userDataFits data = true
  · obtain ⟨L, hL, hflag⟩ := readUserData_of_fits self hfits
    rw [if_pos hfits, hL]
    exact ⟨rfl, hflag.trans hself⟩
  · rw [if_neg hfits, readUserData_of_not_fits hfits]
    exact rfl

lemma yields_deserializeV0 (data : List UInt8) : Yields (bodyFormatV0 data)
    (({ (default : Locator) with src } : Locator).afterReader (.ok (deserializeV0 { (default : Locator) with src } data))) := by
  unfold bodyFormatV0 deserializeV0
  cases readInt 8 data with
  | none => exact rfl
  | some r =>
    obtain ⟨first, data⟩ := r
    dsimp only
    by_cases hempty : data.isEmpty = true
    · rw [if_pos hempty, if_pos hempty]
      exact ⟨rfl, rfl⟩
    rw [if_neg hempty, if_neg hempty]
    have hzero : (ofLex ({ (default : Locator) with src } : Locator).minOffset).2 = 0 := rfl
    rw [hzero]
    cases deserializeProgressV0 (toLex (first, 0)) data with
    | none => exact ⟨rfl, rfl⟩
    | some s => exact yields_readUserData src rfl s.2

lemma yields_deserializeV1 (data : List UInt8) : Yields (bodyFormatV1 maxSources data)
    (({ (default : Locator) with src } : Locator).afterReader
      (deserializeV1 { (default : Locator) with src } data maxSources)) := by
  unfold bodyFormatV1 deserializeV1
  cases readHeaderV1 data with
  | none => exact rfl
  | some header =>
    dsimp only
    split
    · exact rfl
    cases readList (readProgressVecV1 header.1.1) header.1.2 header.2 with
    | none => exact rfl
    | some ranges => exact yields_readUserData src rfl ranges.2

end

/-- A new object is as the format says; any object becomes a new one, with the flag it had before. -/
lemma deserialize_eq (data : List UInt8) :
    Yields (formatOf maxSources data) ((default : Locator).deserialize data maxSources)
    ∧ ∀ self : Locator, self.deserialize data maxSources = (((default : Locator).deserialize data maxSources).1,
      ((default : Locator).deserialize data maxSources).2.withLegacyOf self) := by
  have hreset : (default : Locator).reset = default := rfl
  have hself (src : ℕ) (self : Locator) : { (default : Locator).withLegacyOf self with src }
      = ({ (default : Locator) with src } : Locator).withLegacyOf self := rfl
  unfold formatOf deserialize
  rw [hreset]
  simp only [reset_eq]
  cases read 8 data with
  | none => exact ⟨rfl, fun _ => rfl⟩
  | some r =>
    obtain ⟨src, data⟩ := r
    dsimp only
    cases readInt 4 data with
    | none => exact ⟨rfl, fun _ => rfl⟩
    | some m =>
      obtain ⟨maybeMagicNumber, rest⟩ := m
      by_cases hmagic : maybeMagicNumber ≠ magicNumber
      · simp only [if_pos hmagic, hself, deserializeV0_withLegacyOf]
        exact ⟨yields_deserializeV0 src data,
          fun self => afterReader_withLegacyOf self src (.ok (deserializeV0 { (default : Locator) with src } data))⟩
      simp only [if_neg hmagic]
      by_cases hversion : ((readInt 4 rest).getD (0, rest)).1 = locatorSuboffsetVersion
      · simp only [if_pos hversion, hself, deserializeV1_withLegacyOf]
        exact ⟨yields_deserializeV1 maxSources src _, fun self => afterReader_withLegacyOf self src _⟩
      · simp only [if_neg hversion]
        exact ⟨rfl, fun _ => rfl⟩

/-! ## When the earlier state does not matter -/

/-- The call returns, and with `false` the object is the default one. -/
def Settles (result : Option Bool × Locator) : Prop := result.1 = some true ∨ result = (some false, default)

/-- `Deserialize` returns for both objects and leaves them in one state, the default one where it refuses. -/
def Overwrites (data : List UInt8) (p q : Locator) : Prop :=
  (p.deserialize data maxSources).2 = (q.deserialize data maxSources).2
    ∧ Settles (p.deserialize data maxSources) ∧ Settles (q.deserialize data maxSources)

instance decidableOverwrites (data : List UInt8) (p q : Locator) : Decidable (Overwrites maxSources data p q) :=
  inferInstanceAs (Decidable (_ ∧ (_ ∨ _) ∧ (_ ∨ _)))

lemma withLegacyOf_eq_iff (L p q : Locator) : L.withLegacyOf p = L.withLegacyOf q
    ↔ L.isLegacyLocator = true ∨ p.isLegacyLocator = q.isLegacyLocator := by
  cases hL : L.isLegacyLocator <;> simp [withLegacyOf, hL]

lemma settles_withLegacyOf (src : ℕ) (p : Locator) :
    Settles (some false, ({ (default : Locator) with src } : Locator).withLegacyOf p)
    ↔ src = 0 ∧ p.isLegacyLocator = false := by
  simp [Settles, withLegacyOf, default]

/-- Bytes of the oldest format set the flag themselves.  Otherwise the two objects must have had
the same one; and where the bytes are refused it must be clear, and there must be no source id left
from a header of an unknown version.  With too many sources the call does not return. -/
theorem deserialize_overwrites_iff (maxSources : ℕ) (data : List UInt8) (p q : Locator) :
    Overwrites maxSources data p q ↔ formatOf maxSources data = .legacy
      ∨ p.isLegacyLocator = q.isLegacyLocator
        ∧ (formatOf maxSources data = .ranges
          ∨ p.isLegacyLocator = false
            ∧ (formatOf maxSources data = .malformed ∨ formatOf maxSources data = .unknownVersion 0)) := by
  obtain ⟨hyields, hself⟩ := deserialize_eq maxSources data
  rw [Overwrites, hself p, hself q]
  generalize (default : Locator).deserialize data maxSources = r at hyields ⊢
  obtain ⟨ok, L⟩ := r
  rw [withLegacyOf_eq_iff]
  cases hf : formatOf maxSources data with
  | malformed =>
    rw [hf] at hyields
    obtain ⟨rfl, rfl⟩ := Prod.mk.inj hyields
    have hflag : (default : Locator).isLegacyLocator = false := rfl
    have hnew (x : Locator) : Settles (some false, (default : Locator).withLegacyOf x)
        ↔ x.isLegacyLocator = false := (settles_withLegacyOf 0 x).trans (by simp)
    rw [hnew, hnew, hflag]
    grind
  | legacy =>
    rw [hf] at hyields
    obtain ⟨rfl, hflag⟩ := hyields
    dsimp only at hflag
    simp [Settles, hflag]
  | ranges =>
    rw [hf] at hyields
    obtain ⟨rfl, hflag⟩ := hyields
    dsimp only at hflag
    simp [Settles, hflag]
  | unknownVersion src =>
    rw [hf] at hyields
    obtain ⟨rfl, rfl⟩ := Prod.mk.inj hyields
    have hflag : ({ (default : Locator) with src } : Locator).isLegacyLocator = false := rfl
    rw [settles_withLegacyOf, settles_withLegacyOf, hflag]
    grind
  | oversized =>
    rw [hf] at hyields
    have hnone : ok = none := hyields
    simp [Settles, hnone]

/-- An object that has read a locator of the oldest format reads one of the current format, and
stays a legacy locator.  A header of an unknown version leaves its source id in a new object, and one with
2^64 - 1 sources is left by an exception with the source id and the min offset written. -/
theorem deserialize_keeps_legacy_flag :
    let current : Locator := ⟨7, toLex (5, 0), [[⟨0, 65535, toLex (5, 0)⟩]], [], false⟩
    let used : Locator := ((default : Locator).deserialize (encode 8 7 ++ encodeInt 8 5) 1).2
    let header (version : ℤ) : List UInt8 := encode 8 7 ++ encodeInt 4 magicNumber ++ encodeInt 4 version
    let unknown : List UInt8 := header 2
    let oversized : List UInt8 := header 1 ++ encodeInt 8 0 ++ encode 4 0 ++ encode 8 (2 ^ 64 - 1)
    ((used.deserialize current.serialize 1).1 = some true
        ∧ (used.deserialize current.serialize 1).2.isLegacyLocator = true
        ∧ ¬ Overwrites 1 current.serialize used default)
      ∧ (((default : Locator).deserialize unknown 1).1 = some false
        ∧ ((default : Locator).deserialize unknown 1).2.src = 7
        ∧ ¬ Overwrites 1 unknown default default)
      ∧ (default : Locator).deserialize oversized 1 = (none, { (default : Locator) with src := 7, minOffset := toLex (0, 0) })
      ∧ ¬ Overwrites 1 oversized default default := by
  decide +kernel

end Locator

end Havenask
