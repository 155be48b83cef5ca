import Havenask.HashTable.Bucket
import Havenask.Lib.Binary64

/-!
# What a hash table is for

Both tables are maps with tombstones: a key is absent, deleted, or has a value, according to the
last write to it.  This file states that once, for the two tables to refine.

* `Write` is an `Insert` or a `Delete`, `Write.apply` the functor that the source hands to
  `InternalInsert`, and `lastOutcome` the map a sequence of writes leaves behind.
* `Represents` relates that map to a table's bag of occupied buckets and to its two special buckets.
* `Tally` says what the two counters count: the keys written, and those whose last write is a
  `Delete`.
* `IsMap` puts the two together, and has one lemma for each place a write can go to.

`capacityToBucketCount`, the arithmetic of `Shrink`, is also common to both.
-/

namespace Havenask

open SlotArray Bucket List Function Finset LawfulTraits Binary64

/-! ## Writes -/

/-- `Insert(key, value)`, or `Delete(key, value)` where the value may be missing. -/
inductive Write (w : ℕ) (V : Type)
  | insert (key : BitVec w) (value : V)
  | delete (key : BitVec w) (value : Option V)

namespace Write

variable {w : ℕ} {V : Type}

def key : Write w V → BitVec w
  | insert k _ => k
  | delete k _ => k

/-- What a lookup of the key is to report afterwards. -/
def outcome : Write w V → Status V
  | insert _ v => .ok v
  | delete _ _ => .deleted

/-- The effect on the count of deleted buckets, given whether the bucket was one. -/
def deleteCount (x : Write w V) (wasDeleted : Bool) (count : ℕ) : ℕ :=
  match x with
  | insert _ _ => if wasDeleted then count - 1 else count
  | delete _ _ => if wasDeleted then count else count + 1

variable {B : Type} [Bucket B w V]

/-- `InsertFunctor` and `DeleteFunctor`, on the bucket and the count of deleted buckets. -/
def apply (x : Write w V) (b : B) (count : ℕ) : B × ℕ :=
  match x with
  | insert k v => (Bucket.set b k v, x.deleteCount (isDeleted b) count)
  | delete k v =>
    (setDelete b k (v.getD (defaultValue B)), x.deleteCount (isDeleted b) count)

/-- The value of an `Insert` is one that the buckets can tell from their marks. -/
def Valid (B : Type) [Bucket B w V] [LawfulBucket B] : Write w V → Prop
  | insert _ v => LawfulBucket.ValidValue B v
  | delete _ _ => True

@[simp] lemma apply_snd (x : Write w V) (b : B) (count : ℕ) :
    (x.apply b count).2 = x.deleteCount (isDeleted b) count := by
  cases x <;> rfl

/-- The bucket after a write, under a key that the bucket can hold. -/
lemma apply_spec [LawfulBucket B] (x : Write w V) (b : B) (count : ℕ)
    (hkey : LawfulBucket.ValidKey B x.key) (hx : x.Valid B) :
    LawfulBucket.Wf (x.apply b count).1 ∧ isEmpty (x.apply b count).1 = false
    ∧ Bucket.key (x.apply b count).1 = x.key ∧ status (x.apply b count).1 = x.outcome := by
  cases x with
  | insert k v =>
    have hkey' : LawfulBucket.ValidKey B k := hkey
    obtain ⟨hwf, hempty, hdeleted, hk, hv⟩ := LawfulBucket.set_spec b hkey' hx
    refine ⟨hwf, hempty, hk, ?_⟩
    show status (set b k v) = .ok v
    rw [status_of_live hempty hdeleted, hv]
  | delete k v =>
    have hkey' : LawfulBucket.ValidKey B k := hkey
    obtain ⟨hwf, hempty, hdeleted, hk⟩ := LawfulBucket.setDelete_spec b (v.getD (defaultValue B)) hkey'
    exact ⟨hwf, hempty, hk, status_of_isDeleted hempty hdeleted⟩

lemma outcome_ne_notFound (x : Write w V) : x.outcome ≠ .notFound := by
  cases x <;> simp [outcome]

end Write

/-- The map that a sequence of writes leaves behind. -/
def lastOutcome {w : ℕ} {V : Type} (xs : List (Write w V)) : BitVec w → Status V :=
  xs.foldl (fun M x => Function.update M x.key x.outcome) fun _ => .notFound

def written {w : ℕ} {V : Type} (xs : List (Write w V)) : Finset (BitVec w) := (xs.map Write.key).toFinset

section
variable {w : ℕ} {V : Type}

variable (xs : List (Write w V))

@[simp] lemma lastOutcome_append (x : Write w V) :
    lastOutcome (xs ++ [x]) = update (lastOutcome xs) x.key x.outcome := by
  simp [lastOutcome]

@[simp] lemma written_append (x : Write w V) : written (xs ++ [x]) = insert x.key (written xs) := by
  ext k
  simp [written]

lemma mem_written_iff (k : BitVec w) : k ∈ written xs ↔ lastOutcome xs k ≠ .notFound := by
  induction xs using reverseRecOn with
  | nil => simp [written, lastOutcome]
  | append_singleton xs x ih =>
    rw [written_append, lastOutcome_append, mem_insert, ih]
    by_cases hk : k = x.key
    · simp [hk, x.outcome_ne_notFound]
    · simp [hk]

end

/-! ## Counters -/

/-- The counters of a table that stands for the map `M` after writes to the keys `W`. -/
structure Tally {w : ℕ} {V : Type} (M : BitVec w → Status V) (W : Finset (BitVec w))
    (keyCount deleteCount : ℕ) : Prop where
  mem_iff : ∀ k, k ∈ W ↔ M k ≠ .notFound
  keyCount_eq : keyCount = W.card
  deleteCount_eq : deleteCount = (W.filter fun k => (M k).isDeleted = true).card

namespace Tally

variable {w : ℕ} {V : Type} {M : BitVec w → Status V} {W : Finset (BitVec w)}
  {keyCount deleteCount : ℕ}

lemma empty : Tally (fun _ => .notFound : BitVec w → Status V) ∅ 0 0 := ⟨fun k => by simp, rfl, rfl⟩

lemma filter_update (j : BitVec w) (s : Status V) : ((insert j W).filter fun k => (update M j s k).isDeleted = true)
    = if s.isDeleted then insert j (W.filter fun k => (M k).isDeleted = true)
      else (W.filter fun k => (M k).isDeleted = true).erase j := by
  ext k
  split_ifs with hs
  · by_cases hk : k = j
    · simp [hk, hs]
    · simp [hk]
  by_cases hk : k = j
  · simp [hk, hs]
  · simp [hk]

lemma write (h : Tally M W keyCount deleteCount) (x : Write w V) {wasEmpty wasDeleted : Bool}
    (hempty : wasEmpty = true ↔ M x.key = .notFound) (hdeleted : wasDeleted = (M x.key).isDeleted) :
    Tally (update M x.key x.outcome) (insert x.key W)
      (if wasEmpty then keyCount + 1 else keyCount) (x.deleteCount wasDeleted deleteCount) := by
  have hmem : x.key ∈ W.filter (fun k => (M k).isDeleted = true) ↔ wasDeleted = true := by
    rw [Finset.mem_filter, hdeleted, h.mem_iff]
    refine ⟨fun hk => hk.2, fun hk => ⟨fun hnot => ?_, hk⟩⟩
    rw [hnot] at hk
    cases hk
  refine ⟨?_, ?_, ?_⟩
  · intro k
    by_cases hk : k = x.key
    · simp [hk, x.outcome_ne_notFound]
    · simp [hk, h.mem_iff k]
  · by_cases hnew : wasEmpty = true
    · have hnot : x.key ∉ W := fun hin => (h.mem_iff _).mp hin (hempty.mp hnew)
      rw [if_pos hnew, h.keyCount_eq, card_insert_of_notMem hnot]
    · have hin : x.key ∈ W := (h.mem_iff _).mpr fun heq => hnew (hempty.mpr heq)
      rw [if_neg hnew, h.keyCount_eq, insert_eq_of_mem hin]
  rw [filter_update, h.deleteCount_eq]
  cases x with
  | insert j v =>
    change j ∈ W.filter _ ↔ wasDeleted = true at hmem
    show (if wasDeleted = true then _ else _) = card (erase _ j)
    by_cases hd : wasDeleted = true
    · rw [if_pos hd, card_erase_of_mem (hmem.mpr hd)]
    · rw [if_neg hd, erase_eq_of_notMem fun hin => hd (hmem.mp hin)]
  | delete j v =>
    change j ∈ W.filter _ ↔ wasDeleted = true at hmem
    show (if wasDeleted = true then _ else _) = card (insert j _)
    by_cases hd : wasDeleted = true
    · rw [if_pos hd, insert_eq_of_mem (hmem.mpr hd)]
    · rw [if_neg hd, card_insert_of_notMem fun hin => hd (hmem.mp hin)]

end Tally

/-! ## The map a table stands for -/

section
variable {B S V : Type} {w : ℕ} [Bucket B w V] [Bucket S w V] [ClosedHashTableTraits B S w]
  [LawfulBucket B] [LawfulBucket S]

open ClosedHashTableTraits LawfulBucket

/-- The bag of occupied buckets and the two special buckets stand for the map `M`. -/
structure Represents (C : Multiset B) (emptyBucket deleteBucket : S) (M : BitVec w → Status V) : Prop where
  bag : Keyed key status .notFound (ValidKey B) C M
  emptyKey : ∀ k, isEmptyKey B k = true → M k = status emptyBucket
  deleteKey : ∀ k, isDeleteKey B k = true → M k = status deleteBucket
  validKey : ∀ b ∈ C, ValidKey B (key b)

namespace Represents

variable {C : Multiset B} {emptyBucket deleteBucket : S} {M : BitVec w → Status V}

/-- A fresh table stands for the empty map. -/
lemma new : Represents (0 : Multiset B) (new : S) (new : S) fun _ => .notFound :=
  ⟨Keyed.zero, fun _ _ => (status_of_isEmpty isEmpty_new).symm,
    fun _ _ => (status_of_isEmpty isEmpty_new).symm, by simp⟩

variable [LawfulTraits B]

variable {k : BitVec w}

lemma not_isEmptyKey (hk : ValidKey B k) : isEmptyKey B k = false := ((validKey_iff k).mp hk).1

lemma not_isDeleteKey (hk : ValidKey B k) : isDeleteKey B k = false := ((validKey_iff k).mp hk).2

lemma not_validKey_of_isEmptyKey (hk : isEmptyKey B k = true) : ¬ ValidKey B k := by
  intro hvalid
  rw [not_isEmptyKey hvalid] at hk
  cases hk

lemma not_validKey_of_isDeleteKey (hk : isDeleteKey B k = true) : ¬ ValidKey B k := by
  intro hvalid
  rw [not_isDeleteKey hvalid] at hk
  cases hk

section
variable (h : Represents C emptyBucket deleteBucket M)
include h

/-- A lookup asks the special buckets for their keys, and the bag for all others. -/
lemma lookup {s : Status V} (hs : ValidKey B k → s = M k) :
    (if !isEmptyKey B k && !isDeleteKey B k then s
      else if isEmptyKey B k then status emptyBucket else status deleteBucket) = M k := by
  cases hempty : isEmptyKey B k with
  | true =>
    simp only [Bool.not_true, Bool.false_and, Bool.false_eq_true, if_false, if_true]
    exact (h.emptyKey k hempty).symm
  | false =>
    cases hdelete : isDeleteKey B k with
    | true =>
      simp only [Bool.not_true, Bool.and_false, Bool.false_eq_true, if_false]
      exact (h.deleteKey k hdelete).symm
    | false =>
      simp only [Bool.not_false, Bool.and_self, if_true]
      exact hs ((validKey_iff k).mpr ⟨hempty, hdelete⟩)

/-- What the special buckets say is not changed by a write to a valid key. -/
lemma special_update (hk : ValidKey B k) (s : Status V) :
    (∀ j, isEmptyKey B j = true → update M k s j = status emptyBucket)
    ∧ ∀ j, isDeleteKey B j = true → update M k s j = status deleteBucket := by
  refine ⟨fun j hj => ?_, fun j hj => ?_⟩
  · have hne : j ≠ k := fun heq => not_validKey_of_isEmptyKey hj (heq ▸ hk)
    rw [update_of_ne hne, h.emptyKey j hj]
  · have hne : j ≠ k := fun heq => not_validKey_of_isDeleteKey hj (heq ▸ hk)
    rw [update_of_ne hne, h.deleteKey j hj]

lemma add {b : B} (hk : ValidKey B (key b)) (hb : key b ∉ C.map key) :
    Represents (C + {b}) emptyBucket deleteBucket (update M (key b) (status b)) := by
  obtain ⟨hempty, hdelete⟩ := h.special_update hk (status b)
  refine ⟨h.bag.add hb, hempty, hdelete, fun a ha => ?_⟩
  rcases Multiset.mem_add.mp ha with ha | ha
  · exact h.validKey a ha
  · exact (Multiset.mem_singleton.mp ha) ▸ hk

omit h in
/-- A bucket written over the bucket of its key. -/
lemma replace {a b : B} (h : Represents (C + {a}) emptyBucket deleteBucket M) (hkey : key b = key a) :
    Represents (C + {b}) emptyBucket deleteBucket (update M (key b) (status b)) := by
  have hk : ValidKey B (key b) := hkey ▸ h.validKey a (by simp)
  obtain ⟨hempty, hdelete⟩ := h.special_update hk (status b)
  refine ⟨h.bag.replace hkey, hempty, hdelete, fun c hc => ?_⟩
  rcases Multiset.mem_add.mp hc with hc | hc
  · exact h.validKey c (Multiset.mem_add.mpr (Or.inl hc))
  · exact (Multiset.mem_singleton.mp hc) ▸ hk

lemma write_emptyKey (hk : isEmptyKey B k = true) (b : S) :
    Represents C b deleteBucket (update M k (status b)) := by
  refine ⟨h.bag.update_of_not_dom h.validKey (not_validKey_of_isEmptyKey hk) _, ?_, ?_, h.validKey⟩
  · intro j hj
    rw [emptyKey_unique j k hj hk, update_self]
  intro j hj
  have hne : j ≠ k := by
    rintro rfl
    rw [not_both j hk] at hj
    cases hj
  rw [update_of_ne hne, h.deleteKey j hj]

lemma write_deleteKey (hk : isDeleteKey B k = true) (b : S) :
    Represents C emptyBucket b (update M k (status b)) := by
  refine ⟨h.bag.update_of_not_dom h.validKey (not_validKey_of_isDeleteKey hk) _, ?_, ?_, h.validKey⟩
  · intro j hj
    have hne : j ≠ k := by
      rintro rfl
      rw [not_both j hj] at hk
      cases hk
    rw [update_of_ne hne, h.emptyKey j hj]
  · intro j hj
    rw [deleteKey_unique j k hj hk, update_self]

end

end Represents

/-! ## The map a table is -/

/-- What a bucket says of its key, as the counters ask for it. -/
lemma marks_of_status {b : B} (hwf : Wf b) {s : Status V} (hs : s = status b) :
    (isEmpty b = true ↔ s = .notFound) ∧ isDeleted b = s.isDeleted := by
  subst hs
  cases hempty : isEmpty b with
  | true =>
    rw [status_of_isEmpty hempty, isDeleted_of_isEmpty hwf hempty]
    simp [Status.isDeleted]
  | false =>
    rw [isDeleted_status hempty]
    simp [status_ne_notFound hempty]

/-- A table that holds the bag `C` is the map `M`, after writes to the keys `W`. -/
structure IsMap (C : Multiset B) (emptyBucket deleteBucket : S) (keyCount deleteCount : ℕ)
    (M : BitVec w → Status V) (W : Finset (BitVec w)) : Prop where
  represents : Represents C emptyBucket deleteBucket M
  tally : Tally M W keyCount deleteCount
  wf_empty : Wf emptyBucket
  wf_delete : Wf deleteBucket

namespace IsMap

variable {m : ℕ → B} {n i : ℕ} {C : Multiset B} {emptyBucket deleteBucket : S}
  {keyCount deleteCount : ℕ} {M : BitVec w → Status V} {W : Finset (BitVec w)}

lemma new : IsMap (0 : Multiset B) (new : S) (new : S) 0 0 (fun _ => .notFound) ∅ :=
  ⟨Represents.new, Tally.empty, wf_new, wf_new⟩

variable [LawfulTraits B]

variable {x : Write w V}

lemma validSpecial (hx : x.Valid B) : x.Valid S := by
  cases x with
  | insert k v => exact validValue_special v hx
  | delete k v => trivial

/-- The counters after a write to a bucket that had the key, or none. -/
lemma tally_apply {B' : Type} [Bucket B' w V] [LawfulBucket B'] {b : B'} (h : Tally M W keyCount deleteCount)
    (hwf : Wf b) (hM : M x.key = status b) : Tally (update M x.key x.outcome) (insert x.key W)
      (if isEmpty b then keyCount + 1 else keyCount) (x.apply b deleteCount).2 := by
  obtain ⟨hnew, hdel⟩ := marks_of_status hwf hM
  rw [Write.apply_snd]
  exact h.write x hnew hdel

lemma write_emptyKey (h : IsMap C emptyBucket deleteBucket keyCount deleteCount M W)
    (hkey : isEmptyKey B x.key = true) (hx : x.Valid B) : IsMap C (x.apply emptyBucket deleteCount).1 deleteBucket
      (if isEmpty emptyBucket then keyCount + 1 else keyCount) (x.apply emptyBucket deleteCount).2
      (update M x.key x.outcome) (insert x.key W) := by
  have hkS := validKey_special x.key (Represents.not_validKey_of_isEmptyKey hkey)
  obtain ⟨hwf, -, -, hstatus⟩ := x.apply_spec emptyBucket deleteCount hkS (validSpecial hx)
  refine ⟨?_, tally_apply h.tally h.wf_empty (h.represents.emptyKey _ hkey), hwf, h.wf_delete⟩
  rw [← hstatus]
  exact h.represents.write_emptyKey hkey _

lemma write_deleteKey (h : IsMap C emptyBucket deleteBucket keyCount deleteCount M W)
    (hkey : isDeleteKey B x.key = true) (hx : x.Valid B) : IsMap C emptyBucket (x.apply deleteBucket deleteCount).1
      (if isEmpty deleteBucket then keyCount + 1 else keyCount) (x.apply deleteBucket deleteCount).2
      (update M x.key x.outcome) (insert x.key W) := by
  have hkS := validKey_special x.key (Represents.not_validKey_of_isDeleteKey hkey)
  obtain ⟨hwf, -, -, hstatus⟩ := x.apply_spec deleteBucket deleteCount hkS (validSpecial hx)
  refine ⟨?_, tally_apply h.tally h.wf_delete (h.represents.deleteKey _ hkey), h.wf_empty, hwf⟩
  rw [← hstatus]
  exact h.represents.write_deleteKey hkey _

section
variable (h : IsMap (contents occupied m n) emptyBucket deleteBucket keyCount deleteCount M W)
  (hk : ValidKey B x.key) (hx : x.Valid B) (hi : i < n) (hwf : Wf (m i))
include h hk hx hi hwf

lemma write_found (hocc : isEmpty (m i) = false) (hkey : key (m i) = x.key) :
    IsMap (contents occupied (update m i (x.apply (m i) deleteCount).1) n)
      emptyBucket deleteBucket (if isEmpty (m i) then keyCount + 1 else keyCount)
      (x.apply (m i) deleteCount).2 (update M x.key x.outcome) (insert x.key W) := by
  obtain ⟨-, hne, hkey', hstatus⟩ := x.apply_spec (m i) deleteCount hk hx
  have hM : M x.key = status (m i) := by
    rw [← hkey]
    exact h.represents.bag.entry_eq _ (mem_contents_of_lt hi (occupied_eq_true.mpr hocc))
  obtain ⟨C, hC, hC'⟩ := contents_replace hi (occupied_eq_true.mpr hocc) (occupied_eq_true.mpr hne)
  refine ⟨?_, tally_apply h.tally hwf hM, h.wf_empty, h.wf_delete⟩
  have hrep := h.represents
  rw [hC] at hrep
  rw [hC', ← hstatus, ← hkey']
  exact hrep.replace (hkey'.trans hkey.symm)

lemma write_free (hfree : isEmpty (m i) = true) (habsent : x.key ∉ (contents occupied m n).map key) :
    IsMap (contents occupied (update m i (x.apply (m i) deleteCount).1) n)
      emptyBucket deleteBucket (if isEmpty (m i) then keyCount + 1 else keyCount)
      (x.apply (m i) deleteCount).2 (update M x.key x.outcome) (insert x.key W) := by
  obtain ⟨-, hne, hkey', hstatus⟩ := x.apply_spec (m i) deleteCount hk hx
  have hM : M x.key = status (m i) := by
    rw [status_of_isEmpty hfree]
    exact h.represents.bag.eq_absent hk habsent
  refine ⟨?_, tally_apply h.tally hwf hM, h.wf_empty, h.wf_delete⟩
  rw [contents_fill hi (occupied_eq_false.mpr hfree) (occupied_eq_true.mpr hne), ← hstatus, ← hkey']
  refine h.represents.add (hkey' ▸ hk) ?_
  rw [hkey']
  exact habsent

end

end IsMap

end

/-! ## Capacity -/

/-- The number of buckets for a number of keys, computed in doubles. -/
def capacityToBucketCount (maxKeyCount occupancyPct : ℕ) : ℕ :=
  Binary64.divTrunc
    (Binary64.round (Binary64.round (Binary64.round
      (Binary64.round (max maxKeyCount 1) * 100) + occupancyPct) - 1)) occupancyPct

lemma capacityToBucketCount_pos (maxKeyCount : ℕ) {occupancyPct : ℕ} (hpos : 0 < occupancyPct)
    (hle : occupancyPct ≤ 100) : 0 < capacityToBucketCount maxKeyCount occupancyPct := by
  refine one_le_divTrunc hpos ?_
  set n := max maxKeyCount 1
  have hn1 : 1 ≤ n := le_max_right _ _
  by_cases hsmall : n < 2 ^ 40
  · rw [round_of_lt (a := n) (by omega), round_of_lt (a := n * 100) (by omega),
      round_of_lt (a := n * 100 + occupancyPct) (by omega),
      round_of_lt (by omega)]
    omega
  -- far from 1, rounding down by half four times does no harm
  have h₁ := le_two_mul_round n
  have h₂ := le_two_mul_round (round n * 100)
  have h₃ := le_two_mul_round (round (round n * 100) + occupancyPct)
  have h₄ := le_two_mul_round (round (round (round n * 100) + occupancyPct) - 1)
  omega

end Havenask
