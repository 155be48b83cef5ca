import Havenask.Lib.SlotArray

/-!
# Buckets

`index/common/hash_table/`: the buckets of the closed hash tables and what the two tables share.
A bucket is empty, live or deleted, and how it says so is the choice of its class:

* **`SpecialValueBucket`** marks it in the value.  `TimestampValue` keeps the mark in two patterns
  of its timestamp word, `SpecialValue` (and `OffsetValue`, the same thing) in two reserved values.
* **`SpecialKeyBucket`** marks it in the key, with two reserved keys; a deleted bucket keeps its
  own key in the place of its value.  The two reserved keys are legal user keys all the same, so a
  table of such buckets has two more buckets for them, of the class with other reserved keys.

`Bucket` is the interface the tables are templates over, `LawfulBucket` what they rely on, and
`ClosedHashTableTraits` says which keys are diverted.  All of it is sequential: the order of the
writes inside a bucket, which the source chooses for concurrent readers, is not modelled.
-/

namespace Havenask

/-- `util::Status` as a lookup returns it, with the value of an `OK`. -/
inductive Status (V : Type)
  | notFound
  | deleted
  | ok (value : V)
  deriving DecidableEq

def Status.isDeleted {V : Type} : Status V → Bool
  | .deleted => true
  | _ => false

/-- The members of a bucket class, over `w`-bit keys. -/
class Bucket (B : Type) (w : outParam ℕ) (V : outParam Type) where
  new : B
  key : B → BitVec w
  value : B → V
  isEmpty : B → Bool
  isEqual : B → BitVec w → Bool
  isDeleted : B → Bool
  deletedOrValue : B → Bool × V
  set : B → BitVec w → V → B
  /-- `Set(const Bucket& other)`. -/
  setBucket : B → B → B
  setDelete : B → BitVec w → V → B
  setEmpty : B → B
  /-- `_VT()`. -/
  defaultValue : V

/-- Which keys a table of these buckets diverts to its two special buckets, of class `S`. -/
class ClosedHashTableTraits (B : Type) (S : outParam Type) (w : outParam ℕ) where
  isEmptyKey : BitVec w → Bool
  isDeleteKey : BitVec w → Bool

namespace Bucket

variable {B V : Type} {w : ℕ} [Bucket B w V]

/-- What a lookup reports of the bucket it finds. -/
def status (b : B) : Status V :=
  if isEmpty b then .notFound else if isDeleted b then .deleted else .ok (value b)

/-- The buckets a table counts as occupied. -/
def occupied (b : B) : Bool := !isEmpty b

variable {b : B}

lemma occupied_eq_true : occupied b = true ↔ isEmpty b = false := by simp [occupied]

lemma occupied_eq_false : occupied b = false ↔ isEmpty b = true := by simp [occupied]

lemma status_of_isEmpty (h : isEmpty b = true) : status b = .notFound := if_pos h

lemma status_of_isDeleted (hempty : isEmpty b = false) (hdeleted : isDeleted b = true) : status b = .deleted := by
  rw [status, hempty, hdeleted]
  rfl

lemma status_of_live (hempty : isEmpty b = false) (hdeleted : isDeleted b = false) : status b = .ok (value b) := by
  rw [status, hempty, hdeleted]
  rfl

lemma status_ne_notFound (h : isEmpty b = false) : status b ≠ .notFound := by
  rw [status, h, if_neg Bool.false_ne_true]
  split_ifs <;> simp

lemma isDeleted_status (h : isEmpty b = false) : (status b).isDeleted = isDeleted b := by
  rw [status, h, if_neg Bool.false_ne_true]
  cases isDeleted b <;> rfl

end Bucket

open Bucket

/-- What the tables rely on.  `Wf` is what the members of the class keep true of a bucket. -/
class LawfulBucket (B : Type) {w : outParam ℕ} {V : outParam Type} [Bucket B w V] where
  ValidKey : BitVec w → Prop
  ValidValue : V → Prop
  Wf : B → Prop
  wf_new : Wf (new : B)
  isEmpty_new : isEmpty (new : B) = true
  isDeleted_of_isEmpty : ∀ {b : B}, Wf b → isEmpty b = true → isDeleted b = false
  isEqual_iff : ∀ {b : B} {k}, Wf b → isEmpty b = false → ValidKey k → (isEqual b k = true ↔ key b = k)
  isEqual_of_not_valid : ∀ {b : B} {k}, Wf b → isEmpty b = false → ¬ ValidKey k → isEqual b k = false
  validKey_key : ∀ {b : B}, Wf b → isEmpty b = false → ValidKey (key b)
  set_spec : ∀ (b : B) {k v}, ValidKey k → ValidValue v →
    Wf (Bucket.set b k v) ∧ isEmpty (Bucket.set b k v) = false
      ∧ isDeleted (Bucket.set b k v) = false ∧ key (Bucket.set b k v) = k
      ∧ value (Bucket.set b k v) = v
  setDelete_spec : ∀ (b : B) {k} (v), ValidKey k →
    Wf (setDelete b k v) ∧ isEmpty (setDelete b k v) = false ∧ isDeleted (setDelete b k v) = true
      ∧ key (setDelete b k v) = k
  setEmpty_spec : ∀ b : B, Wf (setEmpty b) ∧ isEmpty (setEmpty b) = true
  setBucket_spec : ∀ (b : B) {o : B}, Wf o → isEmpty o = false → Wf (setBucket b o) ∧ key (setBucket b o) = key o
  /-- What stood in the bucket before does not matter. -/
  setBucket_congr : ∀ b b' o : B, setBucket b o = setBucket b' o
  deletedOrValue_eq : ∀ b : B, deletedOrValue b = (isDeleted b, value b)

/-! ## Marks in the value -/

/-- The members a value class has for `SpecialValueBucket`. -/
class SpecialValueType (V : Type) where
  new : V
  isEmpty : V → Bool
  isDeleted : V → Bool
  setValue : V → V → V
  setDelete : V → V → V
  setEmpty : V → V

/-- What `SpecialValueBucket` relies on; `Valid` are the values a caller may insert. -/
class LawfulSpecialValue (V : Type) [SpecialValueType V] where
  Valid : V → Prop
  isEmpty_new : SpecialValueType.isEmpty (SpecialValueType.new : V) = true
  isDeleted_of_isEmpty : ∀ {v : V}, SpecialValueType.isEmpty v = true → SpecialValueType.isDeleted v = false
  not_isEmpty : ∀ {v : V}, Valid v → SpecialValueType.isEmpty v = false
  not_isDeleted : ∀ {v : V}, Valid v → SpecialValueType.isDeleted v = false
  setValue_eq : ∀ (x : V) {v : V}, Valid v → SpecialValueType.setValue x v = v
  setValue_congr : ∀ x x' v : V, SpecialValueType.setValue x v = SpecialValueType.setValue x' v
  setDelete_spec : ∀ x v : V, SpecialValueType.isEmpty (SpecialValueType.setDelete x v) = false
    ∧ SpecialValueType.isDeleted (SpecialValueType.setDelete x v) = true
  isEmpty_setEmpty : ∀ x : V, SpecialValueType.isEmpty (SpecialValueType.setEmpty x) = true

structure SpecialValueBucket (w : ℕ) (V : Type) where
  key : BitVec w
  value : V
  deriving DecidableEq

namespace SpecialValueBucket

variable {w : ℕ} {V : Type} [SpecialValueType V]

instance : Bucket (SpecialValueBucket w V) w V where
  new := ⟨0, SpecialValueType.new⟩
  key := SpecialValueBucket.key
  value := SpecialValueBucket.value
  isEmpty b := SpecialValueType.isEmpty b.value
  isEqual b k := decide (b.key = k)
  isDeleted b := SpecialValueType.isDeleted b.value
  deletedOrValue b := (SpecialValueType.isDeleted b.value, b.value)
  set b k v := ⟨k, SpecialValueType.setValue b.value v⟩
  setBucket b other := ⟨other.key, SpecialValueType.setValue b.value other.value⟩
  setDelete b k v := ⟨k, SpecialValueType.setDelete b.value v⟩
  setEmpty b := { b with value := SpecialValueType.setEmpty b.value }
  defaultValue := SpecialValueType.new

/-- No key is reserved, and the special buckets are not there. -/
instance : ClosedHashTableTraits (SpecialValueBucket w V) (SpecialValueBucket w V) w where
  isEmptyKey _ := false
  isDeleteKey _ := false

instance [LawfulSpecialValue V] : LawfulBucket (SpecialValueBucket w V) where
  ValidKey _ := True
  ValidValue := LawfulSpecialValue.Valid
  Wf _ := True
  wf_new := trivial
  isEmpty_new := LawfulSpecialValue.isEmpty_new
  isDeleted_of_isEmpty _ h := LawfulSpecialValue.isDeleted_of_isEmpty h
  isEqual_iff _ _ _ := decide_eq_true_iff
  isEqual_of_not_valid _ _ h := absurd trivial h
  validKey_key _ _ := trivial
  set_spec b k v _ hv := by
    have heq : SpecialValueType.setValue b.value v = v := LawfulSpecialValue.setValue_eq _ hv
    refine ⟨trivial, ?_, ?_, rfl, heq⟩
    · show SpecialValueType.isEmpty (SpecialValueType.setValue b.value v) = false
      rw [heq]
      exact LawfulSpecialValue.not_isEmpty hv
    show SpecialValueType.isDeleted (SpecialValueType.setValue b.value v) = false
    rw [heq]
    exact LawfulSpecialValue.not_isDeleted hv
  setDelete_spec b k v _ := by
    obtain ⟨hempty, hdeleted⟩ := LawfulSpecialValue.setDelete_spec b.value v
    exact ⟨trivial, hempty, hdeleted, rfl⟩
  setEmpty_spec b := ⟨trivial, LawfulSpecialValue.isEmpty_setEmpty b.value⟩
  setBucket_spec _ _ _ _ := ⟨trivial, rfl⟩
  setBucket_congr b b' o :=
    congrArg (SpecialValueBucket.mk o.key) (LawfulSpecialValue.setValue_congr b.value b'.value _)
  deletedOrValue_eq _ := rfl

end SpecialValueBucket

/-- A value with a timestamp: `0x7FFFFFFF` is empty, and the top bit is the delete mark. -/
structure TimestampValue (R : Type) where
  timestampWord : BitVec 32
  value : R
  deriving DecidableEq

namespace TimestampValue

variable {R : Type}

def empty : BitVec 32 := 0x7FFFFFFF#32

def deleteMask : BitVec 32 := 0x80000000#32

def timestampMask : BitVec 32 := 0x7FFFFFFF#32

/-- `TimestampValue(uint32_t timestamp, const _RealVT& value)`. -/
def mk' (timestamp : BitVec 32) (value : R) : TimestampValue R := ⟨timestamp &&& timestampMask, value⟩

/-- `Timestamp()`, without the mark. -/
def timestamp (self : TimestampValue R) : BitVec 32 := self.timestampWord &&& timestampMask

def isEmpty (self : TimestampValue R) : Bool := decide (self.timestampWord = empty)

def isDeleted (self : TimestampValue R) : Bool := decide (self.timestampWord &&& deleteMask ≠ 0#32)

def setDelete (self value : TimestampValue R) : TimestampValue R :=
  { self with timestampWord := value.timestamp ||| deleteMask }

/-- The mark set first is for readers that meet the value half written; the timestamp that is
stored last has no mark, whatever `value` had. -/
def setValue (self value : TimestampValue R) : TimestampValue R :=
  let self := if !self.isEmpty && !self.isDeleted then self.setDelete value else self
  { self with value := value.value, timestampWord := value.timestamp }

instance [Inhabited R] : SpecialValueType (TimestampValue R) where
  new := ⟨empty, default⟩
  isEmpty := isEmpty
  isDeleted := isDeleted
  setValue := setValue
  setDelete := setDelete
  setEmpty _ := ⟨empty, default⟩

lemma setValue_eq_mk (self value : TimestampValue R) : self.setValue value = ⟨value.timestamp, value.value⟩ := by
  unfold setValue
  split_ifs <;> rfl

lemma mark_or (x : BitVec 32) : (x ||| deleteMask) &&& deleteMask = deleteMask := by
  unfold deleteMask
  ext i hi
  simp
  grind

lemma timestamp_eq_of_not_isDeleted {v : TimestampValue R} (h : v.isDeleted = false) :
    v.timestamp = v.timestampWord := by
  have hmark : v.timestampWord &&& deleteMask = 0#32 := by simpa [isDeleted] using h
  have hsplit : v.timestampWord = v.timestampWord &&& (timestampMask ||| deleteMask) := by
    have hones : timestampMask ||| deleteMask = BitVec.allOnes 32 := by decide
    rw [hones, BitVec.and_allOnes]
  rw [BitVec.and_or_distrib_left, hmark] at hsplit
  rw [timestamp]
  exact (hsplit.trans BitVec.or_zero).symm

lemma isDeleted_setDelete (x v : TimestampValue R) : (x.setDelete v).isDeleted = true := by
  have hne : deleteMask ≠ 0#32 := by decide
  simp [isDeleted, setDelete, mark_or, hne]

lemma not_isDeleted_of_isEmpty {v : TimestampValue R} (h : v.isEmpty = true) : v.isDeleted = false := by
  have hword : v.timestampWord = empty := by simpa [isEmpty] using h
  simp only [isDeleted, hword]
  decide

/-- The values a caller may insert: what the constructors assert, neither empty nor deleted. -/
instance [Inhabited R] : LawfulSpecialValue (TimestampValue R) where
  Valid v := v.isEmpty = false ∧ v.isDeleted = false
  isEmpty_new := by simp [SpecialValueType.isEmpty, SpecialValueType.new, isEmpty]
  isDeleted_of_isEmpty h := not_isDeleted_of_isEmpty h
  not_isEmpty h := h.1
  not_isDeleted h := h.2
  setValue_eq x v h := by
    show x.setValue v = v
    rw [setValue_eq_mk, timestamp_eq_of_not_isDeleted h.2]
  setValue_congr x x' v := (setValue_eq_mk x v).trans (setValue_eq_mk x' v).symm
  setDelete_spec x v := by
    have hdeleted := isDeleted_setDelete x v
    refine ⟨?_, hdeleted⟩
    show (x.setDelete v).isEmpty = false
    cases hempty : (x.setDelete v).isEmpty with
    | false => rfl
    | true =>
      rw [not_isDeleted_of_isEmpty hempty] at hdeleted
      cases hdeleted
  isEmpty_setEmpty _ := by simp [SpecialValueType.isEmpty, SpecialValueType.setEmpty, isEmpty]

end TimestampValue

/-- A value with two reserved values, for empty and deleted. -/
structure SpecialValue (R : Type) (emptyValue deleteValue : R) where
  value : R
  deriving DecidableEq

namespace SpecialValue

variable {R : Type} [DecidableEq R] {emptyValue deleteValue : R}

instance : SpecialValueType (SpecialValue R emptyValue deleteValue) where
  new := ⟨emptyValue⟩
  isEmpty v := decide (v.value = emptyValue)
  isDeleted v := decide (v.value = deleteValue)
  setValue _ v := v
  setDelete _ _ := ⟨deleteValue⟩
  setEmpty _ := ⟨emptyValue⟩

instance [hne : Fact (emptyValue ≠ deleteValue)] : LawfulSpecialValue (SpecialValue R emptyValue deleteValue) where
  Valid v := v.value ≠ emptyValue ∧ v.value ≠ deleteValue
  isEmpty_new := by simp [SpecialValueType.isEmpty, SpecialValueType.new]
  isDeleted_of_isEmpty h := by
    simp only [SpecialValueType.isEmpty, decide_eq_true_eq] at h
    simp [SpecialValueType.isDeleted, h, hne.out]
  not_isEmpty h := by simp [SpecialValueType.isEmpty, h.1]
  not_isDeleted h := by simp [SpecialValueType.isDeleted, h.2]
  setValue_eq _ _ _ := rfl
  setValue_congr _ _ _ := rfl
  setDelete_spec _ _ := by
    simp [SpecialValueType.isEmpty, SpecialValueType.isDeleted, SpecialValueType.setDelete, hne.out.symm]
  isEmpty_setEmpty _ := by simp [SpecialValueType.isEmpty, SpecialValueType.setEmpty]

end SpecialValue

/-! ## Marks in the key -/

/-- The bytes of one member of the bucket's `union`, read as the other. -/
class UnionView (w : ℕ) (V : Type) where
  valueOfKey : BitVec w → V
  keyOfValue : V → BitVec w

/-- A value as wide as the key shares all its bytes. -/
instance {w : ℕ} : UnionView w (BitVec w) := ⟨id, id⟩

/-- The `union` holds the value, or the key of a deleted bucket. -/
structure SpecialKeyBucket (w : ℕ) (V : Type) (emptyKey deleteKey : BitVec w) where
  rawKey : BitVec w
  content : V ⊕ BitVec w
  deriving DecidableEq

namespace SpecialKeyBucket

variable {w : ℕ} {V : Type} {emptyKey deleteKey : BitVec w} [UnionView w V] [Inhabited V]

def rawValue (b : SpecialKeyBucket w V emptyKey deleteKey) : V :=
  match b.content with
  | .inl v => v
  | .inr k => UnionView.valueOfKey k

def keyInValue (b : SpecialKeyBucket w V emptyKey deleteKey) : BitVec w :=
  match b.content with
  | .inl v => UnionView.keyOfValue v
  | .inr k => k

instance : Bucket (SpecialKeyBucket w V emptyKey deleteKey) w V where
  new := ⟨emptyKey, .inl default⟩
  key b := if b.rawKey = deleteKey then b.keyInValue else b.rawKey
  value := rawValue
  isEmpty b := decide (b.rawKey = emptyKey)
  isEqual b k := if b.rawKey = deleteKey then decide (b.keyInValue = k) else decide (b.rawKey = k)
  isDeleted b := decide (b.rawKey = deleteKey)
  deletedOrValue b := (decide (b.rawKey = deleteKey), b.rawValue)
  set _ k v := ⟨k, .inl v⟩
  setBucket _ other := other
  setDelete _ k _ := ⟨deleteKey, .inr k⟩
  setEmpty _ := ⟨emptyKey, .inl default⟩
  defaultValue := default

/-- A deleted bucket keeps a key, which is none of the reserved ones. -/
instance [hne : Fact (emptyKey ≠ deleteKey)] : LawfulBucket (SpecialKeyBucket w V emptyKey deleteKey) where
  ValidKey k := k ≠ emptyKey ∧ k ≠ deleteKey
  ValidValue _ := True
  Wf b := b.rawKey = deleteKey → ∃ k, b.content = .inr k ∧ k ≠ emptyKey ∧ k ≠ deleteKey
  wf_new h := absurd h hne.out
  isEmpty_new := by simp [isEmpty, new]
  isDeleted_of_isEmpty _ h := by
    simp only [isEmpty, decide_eq_true_eq] at h
    simp [isDeleted, h, hne.out]
  isEqual_iff {b k} _ _ _ := by
    simp only [isEqual, key]
    split_ifs <;> simp
  isEqual_of_not_valid {b k} hwf hempty hk := by
    have hempty' : b.rawKey ≠ emptyKey := by simpa [isEmpty] using hempty
    simp only [isEqual]
    split_ifs with hdel
    · obtain ⟨k', hcontent, hne₁, hne₂⟩ := hwf hdel
      simp only [keyInValue, hcontent, decide_eq_false_iff_not]
      rintro rfl
      exact hk ⟨hne₁, hne₂⟩
    · simp only [decide_eq_false_iff_not]
      rintro rfl
      exact hk ⟨hempty', hdel⟩
  validKey_key {b} hwf hempty := by
    have hempty' : b.rawKey ≠ emptyKey := by simpa [isEmpty] using hempty
    simp only [key]
    split_ifs with hdel
    · obtain ⟨k, hcontent, hk⟩ := hwf hdel
      simpa only [keyInValue, hcontent] using hk
    · exact ⟨hempty', hdel⟩
  set_spec b k v hk _ := by
    refine ⟨fun h => absurd h hk.2, ?_, ?_, ?_, rfl⟩
    · simp [isEmpty, Bucket.set, hk.1]
    · simp [isDeleted, Bucket.set, hk.2]
    · simp [key, Bucket.set, hk.2]
  setDelete_spec b k v hk := by
    refine ⟨fun _ => ⟨k, rfl, hk⟩, ?_, ?_, ?_⟩
    · simp [isEmpty, setDelete, hne.out.symm]
    · simp [isDeleted, setDelete]
    · simp [key, setDelete, keyInValue]
  setEmpty_spec b := ⟨fun h => absurd h hne.out, by simp [isEmpty, setEmpty]⟩
  setBucket_spec _ _ hwf _ := ⟨hwf, rfl⟩
  setBucket_congr _ _ _ := rfl
  deletedOrValue_eq _ := rfl

end SpecialKeyBucket

/-- The default reserved keys, cut to the key type. -/
def specialEmptyKey (w : ℕ) : BitVec w := BitVec.ofNat w 0xFFFFFFFFFFFFFEFF

def specialDeleteKey (w : ℕ) : BitVec w := BitVec.ofNat w 0xFFFFFFFFFFFFFDFF

/-- The bucket of a table over `uint32_t` or `uint64_t` keys. -/
abbrev KeyBucket (w : ℕ) (V : Type) := SpecialKeyBucket w V (specialEmptyKey w) (specialDeleteKey w)

/-- `SpecialBucket`, with 0 and 1 for its reserved keys. -/
abbrev SpecialBucket (w : ℕ) (V : Type) := SpecialKeyBucket w V 0 1

instance {w : ℕ} {V : Type} : ClosedHashTableTraits (KeyBucket w V) (SpecialBucket w V) w where
  isEmptyKey k := decide (k = specialEmptyKey w)
  isDeleteKey k := decide (k = specialDeleteKey w)

/-- A table can divert its reserved keys: they are the invalid keys of its buckets, they are told
apart, and the special buckets take them. -/
class LawfulTraits (B : Type) {S V : outParam Type} {w : outParam ℕ} [Bucket B w V] [Bucket S w V]
    [ClosedHashTableTraits B S w] [LawfulBucket B] [LawfulBucket S] : Prop where
  validKey_iff : ∀ k : BitVec w, LawfulBucket.ValidKey B k
    ↔ ClosedHashTableTraits.isEmptyKey B k = false
      ∧ ClosedHashTableTraits.isDeleteKey B k = false
  not_both : ∀ k : BitVec w, ClosedHashTableTraits.isEmptyKey B k = true →
    ClosedHashTableTraits.isDeleteKey B k = false
  emptyKey_unique : ∀ k k' : BitVec w, ClosedHashTableTraits.isEmptyKey B k = true →
    ClosedHashTableTraits.isEmptyKey B k' = true → k = k'
  deleteKey_unique : ∀ k k' : BitVec w, ClosedHashTableTraits.isDeleteKey B k = true →
    ClosedHashTableTraits.isDeleteKey B k' = true → k = k'
  validKey_special : ∀ k : BitVec w, ¬ LawfulBucket.ValidKey B k → LawfulBucket.ValidKey S k
  validValue_special : ∀ v : V, LawfulBucket.ValidValue B v → LawfulBucket.ValidValue S v

instance {w : ℕ} {V : Type} [SpecialValueType V] [LawfulSpecialValue V] : LawfulTraits (SpecialValueBucket w V) where
  validKey_iff _ := ⟨fun _ => ⟨rfl, rfl⟩, fun _ => trivial⟩
  not_both _ _ := rfl
  emptyKey_unique _ _ h := Bool.noConfusion h
  deleteKey_unique _ _ h := Bool.noConfusion h
  validKey_special _ h := absurd trivial h
  validValue_special _ h := h

section

/-- The key types `SpecialKeyBucket` is for, by its `static_assert`. -/
class KeyWidth (w : ℕ) : Prop where
  width : w = 32 ∨ w = 64

instance : KeyWidth 32 := ⟨Or.inl rfl⟩

instance : KeyWidth 64 := ⟨Or.inr rfl⟩

variable {w : ℕ} [hw : KeyWidth w]

/-- The reserved keys of the buckets and those of the special buckets are four different keys. -/
lemma reserved_ne : specialEmptyKey w ≠ specialDeleteKey w ∧ (0 : BitVec w) ≠ 1
    ∧ (specialEmptyKey w ≠ 0 ∧ specialEmptyKey w ≠ 1)
    ∧ specialDeleteKey w ≠ 0 ∧ specialDeleteKey w ≠ 1 := by
  rcases hw.width with rfl | rfl
  · decide
  · decide

instance factSpecialKeys : Fact (specialEmptyKey w ≠ specialDeleteKey w) := ⟨reserved_ne.1⟩

instance factZeroNeOne : Fact ((0 : BitVec w) ≠ 1) := ⟨reserved_ne.2.1⟩

instance {V : Type} [UnionView w V] [Inhabited V] : LawfulTraits (KeyBucket w V) where
  validKey_iff k := by
    simp [LawfulBucket.ValidKey, ClosedHashTableTraits.isEmptyKey, ClosedHashTableTraits.isDeleteKey]
  not_both k h := by
    simp only [ClosedHashTableTraits.isEmptyKey, decide_eq_true_eq] at h
    simp only [ClosedHashTableTraits.isDeleteKey, h, decide_eq_false_iff_not]
    exact reserved_ne.1
  emptyKey_unique k k' h h' := by
    simp only [ClosedHashTableTraits.isEmptyKey, decide_eq_true_eq] at h h'
    rw [h, h']
  deleteKey_unique k k' h h' := by
    simp only [ClosedHashTableTraits.isDeleteKey, decide_eq_true_eq] at h h'
    rw [h, h']
  validKey_special k hk := by
    obtain ⟨-, -, hempty, hdelete⟩ := reserved_ne (w := w)
    by_cases h : k = specialEmptyKey w
    · rw [h]
      exact hempty
    by_cases h' : k = specialDeleteKey w
    · rw [h']
      exact hdelete
    · exact absurd ⟨h, h'⟩ hk
  validValue_special _ _ := trivial

end

end Havenask
