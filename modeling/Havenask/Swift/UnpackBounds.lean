import Havenask.Swift.MergedMessage

/-!
# What unpacking a merged message reads

`MessageUtil::unpackMessage` computes the length of a record as the difference of two ends, in 64 bits without
a sign.  Here are the bytes that a call names: the number of messages, the table, and the data of each record that
the filter takes.

* **`unpackAccesses_inBounds_iff`**: the bytes lie in the message exactly if no record that is taken ends before
  the record in front of it; its data are then the bytes named.
-/

namespace Havenask.Swift

open List

/-- The words in front of the data, and the data. -/
def recordTable (allData : Bytes) : Option (List MergedMessageMeta × Bytes) :=
  match LittleEndian.read 2 allData with
  | none => none
  | some (msgCount, rest) => LittleEndian.readList MergedMessageMeta.read msgCount rest

section
variable (metaFilter : Option MessageFilter)

/-- The bytes that `unpackMessage` names, with a start and a length. -/
def unpackAccesses (allData : Bytes) : List (ℕ × ℕ) :=
  if allData.length < 2 then []
  else
    (0, 2) ::
      match recordTable allData with
      | none => []
      | some (metas, dataPart) =>
        (2, 8 * metas.length) :: (takenRecords metaFilter dataPart.length 0 0 metas).1.map fun record =>
          (2 + 8 * metas.length + record.dataBeginPos, record.length)

/-- No record that is taken ends before the one in front of it. -/
def EndsForward (allData : Bytes) : Prop :=
  ∀ metas dataPart, recordTable allData = some (metas, dataPart) →
    ∀ record ∈ (takenRecords metaFilter dataPart.length 0 0 metas).1, record.dataBeginPos ≤ record.entry.endPos

end

/-! ## The table -/

lemma readMetas_spec {n : ℕ} : ∀ {data metas dataPart},
    LittleEndian.readList MergedMessageMeta.read n data = some (metas, dataPart) →
    metas.length = n ∧ 8 * n + dataPart.length = data.length ∧ dataPart = data.drop (8 * n)
      ∧ ∀ entry ∈ metas, entry.endPos < 2 ^ 30 := by
  induction n with
  | zero =>
    intro data metas dataPart h
    cases h
    exact ⟨rfl, by simp, rfl, forall_mem_nil _⟩
  | succ n ih =>
    intro data metas dataPart h
    rw [LittleEndian.readList, MergedMessageMeta.read, LittleEndian.read] at h
    split at h
    · cases h
    rename_i entry rest hread
    split at hread
    · cases hread
    rename_i hlen
    cases hread
    obtain ⟨⟨entries, dataPart'⟩, htail, hcons⟩ := Option.map_eq_some_iff.mp h
    cases hcons
    obtain ⟨hcount, hlength, hdrop, hends⟩ := ih htail
    rw [length_drop] at hlength
    refine ⟨by rw [length_cons, hcount], by omega, ?_, ?_⟩
    · rw [hdrop, drop_drop, Nat.mul_succ, Nat.add_comm]
    · rw [forall_mem_cons]
      exact ⟨Nat.mod_lt _ (by norm_num), hends⟩

lemma recordTable_spec {allData dataPart : Bytes} {metas : List MergedMessageMeta}
    (h : recordTable allData = some (metas, dataPart)) :
    LittleEndian.read 2 allData = some (metas.length, allData.drop 2)
    ∧ 2 + 8 * metas.length + dataPart.length = allData.length
    ∧ dataPart = allData.drop (2 + 8 * metas.length) ∧ ∀ entry ∈ metas, entry.endPos < 2 ^ 30 := by
  rw [recordTable] at h
  split at h
  · cases h
  rename_i msgCount rest hread
  obtain ⟨hcount, hlength, hdrop, hends⟩ := readMetas_spec h
  subst hcount
  have hdata := hread
  rw [LittleEndian.read] at hdata
  split at hdata
  · cases hdata
  obtain ⟨-, rfl⟩ := Prod.mk.inj (Option.some.inj hdata)
  rw [length_drop] at hlength
  rw [drop_drop] at hdrop
  exact ⟨hread, by omega, hdrop, hends⟩

/-! ## The loop -/

section
variable {metaFilter : Option MessageFilter} {dataLen : ℕ}

lemma takenRecords_le {metas : List MergedMessageMeta} : ∀ {i dataBeginPos : ℕ}, dataBeginPos ≤ dataLen →
    dataBeginPos < 2 ^ 30 → (∀ entry ∈ metas, entry.endPos < 2 ^ 30) →
    ∀ record ∈ (takenRecords metaFilter dataLen i dataBeginPos metas).1,
      (record.dataBeginPos < 2 ^ 30 ∧ record.entry.endPos < 2 ^ 30)
        ∧ record.dataBeginPos ≤ dataLen ∧ record.entry.endPos ≤ dataLen := by
  induction metas with
  | nil => exact fun _ _ _ => forall_mem_nil _
  | cons entry entries ih =>
    intro i dataBeginPos hin hbegin hends
    rw [forall_mem_cons] at hends
    rw [takenRecords]
    split
    · exact forall_mem_nil _
    rename_i hbeyond
    have hrest := @ih (i + 1) _ (not_lt.mp hbeyond) hends.1 hends.2
    dsimp only
    split
    · exact forall_mem_cons.mpr ⟨⟨⟨hbegin, hends.1⟩, hin, not_lt.mp hbeyond⟩, hrest⟩
    · exact hrest

/-- A record that ends before the one in front of it reaches over the end of memory. -/
lemma record_inBounds_iff {base : ℕ} (hsize : base + dataLen < 2 ^ 64) {record : MergedRecord}
    (h : (record.dataBeginPos < 2 ^ 30 ∧ record.entry.endPos < 2 ^ 30)
      ∧ record.dataBeginPos ≤ dataLen ∧ record.entry.endPos ≤ dataLen) :
    base + record.dataBeginPos + record.length ≤ base + dataLen ↔ record.dataBeginPos ≤ record.entry.endPos := by
  rw [MergedRecord.length]
  omega

end

/-! ## The message -/

section
variable (zlib : ZlibCompressor) (metaFilter : Option MessageFilter) {allData : Bytes} (msgId timestamp : ℤ)

lemma unpackAccesses_iff (hsize : allData.length < 2 ^ 64) :
    (∀ access ∈ unpackAccesses metaFilter allData, access.1 + access.2 ≤ allData.length)
    ↔ EndsForward metaFilter allData := by
  rw [unpackAccesses, EndsForward]
  split
  · refine ⟨fun _ metas dataPart htable => ?_, fun _ => forall_mem_nil _⟩
    have hlength := (recordTable_spec htable).2.1
    omega
  rw [forall_mem_cons, and_iff_right (by dsimp only; omega)]
  cases htable : recordTable allData with
  | none => exact ⟨fun _ _ _ h => (by cases h), fun _ => forall_mem_nil _⟩
  | some table =>
    obtain ⟨metas, dataPart⟩ := table
    obtain ⟨-, hlength, -, hends⟩ := recordTable_spec htable
    have hbounds := @takenRecords_le metaFilter _ metas 0 0 (Nat.zero_le dataPart.length) (by norm_num) hends
    dsimp only
    rw [forall_mem_cons, and_iff_right (by dsimp only; omega), forall_mem_map, ← hlength]
    rw [← hlength] at hsize
    refine Iff.trans (forall₂_congr fun record hmem => record_inBounds_iff hsize (hbounds record hmem)) ?_
    exact ⟨fun h _ _ heq => by cases heq; exact h, fun h => h _ _ rfl⟩

/-- **Unpacking reads inside the message** exactly if no record that is taken ends before the one in front of it. -/
theorem unpackAccesses_inBounds_iff (hsize : allData.length < 2 ^ 64) :
    ((∀ access ∈ unpackAccesses metaFilter allData, access.1 + access.2 ≤ allData.length)
      ∧ ∀ messages count,
        unpackMessage zlib false allData msgId timestamp metaFilter = some (messages, count) →
        ∀ message ∈ messages, ∃ access ∈ unpackAccesses metaFilter allData, 2 + 8 * count ≤ access.1
          ∧ ∃ i entry, message
            = innerMessage zlib msgId timestamp i entry ((allData.drop access.1).take access.2))
      ↔ EndsForward metaFilter allData := by
  rw [unpackAccesses_iff metaFilter hsize, and_iff_left]
  intro messages count h
  obtain ⟨raw, rest, metas, dataPart, hraw, hread, -, hmetas, hloop⟩ := unpackMessage_eq_some zlib msgId timestamp h
  cases hraw
  have htable : recordTable allData = some (metas, dataPart) := by
    rw [recordTable, hread]
    exact hmetas
  obtain ⟨hread', hlength, hdrop, -⟩ := recordTable_spec htable
  rw [hread] at hread'
  cases hread'
  rw [unpackAccesses, if_neg (by omega), htable, unpackLoop_eq_some zlib msgId timestamp hloop, forall_mem_map]
  intro record hrecord
  refine ⟨_, mem_cons_of_mem _ (mem_cons_of_mem _ (mem_map_of_mem hrecord)), Nat.le_add_right _ _, record.index,
    record.entry, ?_⟩
  rw [MergedRecord.message, hdrop, drop_drop]

end

/-- Two records over two bytes of data, with their ends. -/
def twoRecords (first second : UInt8) : Bytes :=
  [2, 0] ++ [first, 0, 0, 0, 0, 0, 0, 0] ++ [second, 0, 0, 0, 0, 0, 0, 0] ++ [7, 8]

/-- Ends at 2 and at 1: the second record is given `2 ^ 64 - 1` bytes behind the message. -/
theorem twoRecords_outOfBounds :
    (twoRecords 2 1).length = 20 ∧ (20, 2 ^ 64 - 1) ∈ unpackAccesses none (twoRecords 2 1) := by
  decide

/-- Ends at 1 and at 2. -/
theorem twoRecords_inBounds : EndsForward none (twoRecords 1 2)
    ∧ ∀ access ∈ unpackAccesses none (twoRecords 1 2), access.1 + access.2 ≤ 20 := by
  have hforward : EndsForward none (twoRecords 1 2) := by
    intro metas dataPart h
    rw [show recordTable (twoRecords 1 2) = some ([⟨1, false, 0, 0⟩, ⟨2, false, 0, 0⟩], [7, 8]) by rfl] at h
    cases h
    simp [takenRecords]
  exact ⟨hforward, ((unpackAccesses_inBounds_iff noCompressor none 0 0 (by decide)).mpr hforward).1⟩

end Havenask.Swift
