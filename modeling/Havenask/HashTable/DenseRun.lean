import Havenask.HashTable.DenseShrink

/-!
# Runs of `DenseHashTable`

A mounted table under any sequence of `Insert`, `Delete` and `Shrink` calls that succeed: it is the
map of its writes, and its two counters count the keys (`run_isMap`).

The table has a second read path, `FindForReadWrite`.  `Find`, `Insert` and `Delete` divert the two
reserved keys to their special buckets; `FindForReadWrite` does not, and never finds them
(`findForReadWrite_eq_find_iff`).
-/

namespace Havenask

open Bucket LawfulBucket LinearProbing

namespace DenseHashTable

variable {B S V : Type} {w : ℕ} [Bucket B w V] [Bucket S w V] [ClosedHashTableTraits B S w]

/-! ## Every call keeps the invariant -/

lemma run_append (t : DenseHashTable B S) (cs : List (Call w V)) (c : Call w V) : t.run (cs ++ [c])
    = (t.run cs).bind fun t => if (t.call c).1 then some (t.call c).2 else none := by
  simp [run, List.foldlM_append]

lemma writes_append (cs cs' : List (Call w V)) : writes (cs ++ cs') = writes cs ++ writes cs' := List.filterMap_append

variable [LawfulBucket B] [LawfulBucket S] [LawfulTraits B]

lemma call_spec {t : DenseHashTable B S} {cs : List (Call w V)} {c : Call w V}
    (h : Inv t (lastOutcome (writes cs)) (written (writes cs))) (hc : c.Valid B) (hok : (t.call c).1 = true) :
    Inv (t.call c).2 (lastOutcome (writes (cs ++ [c]))) (written (writes (cs ++ [c]))) := by
  rw [writes_append]
  cases c with
  | write x =>
    have hwrites : writes [Call.write x] = [x] := rfl
    rw [hwrites, lastOutcome_append, written_append]
    exact internalInsert_spec h hc hok
  | shrink occupancyPct =>
    have hwrites : writes [(Call.shrink occupancyPct : Call w V)] = [] := rfl
    rw [hwrites, List.append_nil]
    exact ((shrink_spec h hc).1 hok).1

/-- **The invariant of every run.** -/
lemma run_inv {bucketCount occupancyPct : ℕ} (hcount : 0 < bucketCount)
    (hpos : 0 < occupancyPct) (hlt : occupancyPct < 100) (cs : List (Call w V)) :
    ∀ t : DenseHashTable B S, (∀ c ∈ cs, c.Valid B) →
      (mountForWrite bucketCount occupancyPct : DenseHashTable B S).run cs = some t →
      Inv t (lastOutcome (writes cs)) (written (writes cs)) := by
  induction cs using List.reverseRecOn with
  | nil =>
    intro t _ hrun
    obtain rfl : mountForWrite bucketCount occupancyPct = t := Option.some.inj hrun
    exact inv_mountForWrite hcount hpos hlt
  | append_singleton cs c ih =>
    intro t hvalid hrun
    rw [run_append, Option.bind_eq_some_iff] at hrun
    obtain ⟨t₀, hrun₀, hstep⟩ := hrun
    have hinv := ih t₀ (fun c' hc' => hvalid c' (List.mem_append_left _ hc')) hrun₀
    split_ifs at hstep with hok
    obtain rfl : (t₀.call c).2 = t := Option.some.inj hstep
    exact call_spec hinv (hvalid c (by simp)) hok

/-- **A dense table is a map, and `Shrink` preserves it.**  After calls that all succeed, lookups
report the last write to each key, the counters count the keys written and those deleted, and every
occupied bucket is on the probe sequence of its key before any free one.  A further `Shrink`
succeeds whenever its bucket count is larger than the number of keys, and that is then the bucket
count. -/
theorem run_isMap {bucketCount occupancyPct : ℕ} (hcount : 0 < bucketCount)
    (hpos : 0 < occupancyPct) (hlt : occupancyPct < 100) (cs : List (Call w V))
    (hvalid : ∀ c ∈ cs, c.Valid B) (t : DenseHashTable B S)
    (hrun : (mountForWrite bucketCount occupancyPct : DenseHashTable B S).run cs = some t) :
    (∀ k, t.find k = lastOutcome (writes cs) k)
      ∧ t.size = (written (writes cs)).card
      ∧ t.getDeleteCount = ((written (writes cs)).filter fun k => (lastOutcome (writes cs) k).isDeleted = true).card
      ∧ (∀ i < t.bucketCount, isEmpty (t.bucket i) = false →
          Reached (fun j => isEmpty (t.bucket j) = false) t.bucketCount (key (t.bucket i)).toNat i)
      ∧ ∀ pct < 100, (t.size < t.newBucketCount pct → (t.shrink pct).1 = true)
        ∧ ((t.shrink pct).1 = true → (t.shrink pct).2.bucketCount = min t.bucketCount (t.newBucketCount pct)) := by
  have h := run_inv hcount hpos hlt cs t hvalid hrun
  refine ⟨h.find_eq, h.isMap.tally.keyCount_eq, h.isMap.tally.deleteCount_eq, h.placed.reached, fun pct hpct => ?_⟩
  obtain ⟨hok, hlive⟩ := shrink_spec h hpct
  exact ⟨fun hroom => hlive hroom.le, fun hshrunk => (hok hshrunk).2⟩

/-- Two keys that collide, one of them deleted, and a reserved key, in a table shrunk to half. -/
def shrunkCalls : List (Call 64 (BitVec 64)) :=
  [.write (.insert 3 30), .write (.insert 11 110), .write (.insert (specialEmptyKey 64) 7),
    .write (.delete 3 none), .shrink 90]

/-- Half of the buckets answer as all of them did. -/
theorem run_isMap_shrunk : ∃ t : DenseHashTable (KeyBucket 64 (BitVec 64)) (SpecialBucket 64 (BitVec 64)),
      (mountForWrite 8 80).run shrunkCalls = some t ∧ t.bucketCount = 4 ∧ t.find 3 = .deleted
        ∧ t.find 11 = .ok 110 ∧ t.find (specialEmptyKey 64) = .ok 7 ∧ t.size = 3 := by
  obtain ⟨t, hrun, hcount⟩ : ∃ t ∈ (mountForWrite 8 80 : DenseHashTable (KeyBucket 64 (BitVec 64))
      (SpecialBucket 64 (BitVec 64))).run shrunkCalls, t.bucketCount = 4 := by decide +kernel
  have hvalid : ∀ c ∈ shrunkCalls, c.Valid (KeyBucket 64 (BitVec 64)) := by
    simp [shrunkCalls, Call.Valid, Write.Valid, ValidValue]
  refine ⟨t, hrun, hcount, ?_⟩
  obtain ⟨hfind, hsize, -⟩ := run_isMap (by decide) (by decide) (by decide) shrunkCalls hvalid t hrun
  rw [hfind, hfind, hfind, hsize]
  decide +kernel

/-! ## The second read path -/

lemma findForReadWrite_of_validKey (t : DenseHashTable B S) {k : BitVec w} (hk : ValidKey B k) :
    t.findForReadWrite k = t.find k := by
  obtain ⟨hempty, hdelete⟩ := (LawfulTraits.validKey_iff k).mp hk
  unfold find findForReadWrite
  rw [hempty, hdelete]
  simp only [Bool.not_false, Bool.and_self, if_true]
  cases t.internalFindBucket k with
  | none => rfl
  | some i =>
    simp only [status, deletedOrValue_eq]
    cases isEmpty (t.bucket i) with
    | true => rfl
    | false => cases isDeleted (t.bucket i) <;> rfl

omit [LawfulTraits B] in
/-- A reserved key is in no bucket of the array. -/
lemma Inv.findForReadWrite_of_not_validKey {t : DenseHashTable B S} {M : BitVec w → Status V}
    {W : Finset (BitVec w)} (h : Inv t M W) {k : BitVec w} (hk : ¬ ValidKey B k) :
    t.findForReadWrite k = .notFound := by
  unfold findForReadWrite
  cases hfind : t.internalFindBucket k with
  | none => rfl
  | some i =>
    obtain ⟨hi, hstop, -⟩ := findIn_eq_some hfind
    cases hempty : isEmpty (t.bucket i) with
    | true => simp [hempty]
    | false =>
      rw [stops, hempty, isEqual_of_not_valid (h.placed.wf i hi) hempty hk] at hstop
      cases hstop

section
variable {w : ℕ} {V : Type} [KeyWidth w] [UnionView w V] [Inhabited V]

/-- **The two read paths** of a table with special keys agree on a key exactly if it is not one of
the two reserved keys, or was never written. -/
theorem findForReadWrite_eq_find_iff {bucketCount occupancyPct : ℕ} (hcount : 0 < bucketCount)
    (hpos : 0 < occupancyPct) (hlt : occupancyPct < 100) (xs : List (Write w V))
    (t : DenseHashTable (KeyBucket w V) (SpecialBucket w V)) (hrun : (mountForWrite bucketCount occupancyPct :
      DenseHashTable (KeyBucket w V) (SpecialBucket w V)).run (xs.map .write) = some t) (k : BitVec w) :
    t.findForReadWrite k = t.find k
      ↔ (k ≠ specialEmptyKey w ∧ k ≠ specialDeleteKey w) ∨ k ∉ written xs := by
  have hwrites : writes (xs.map Call.write) = xs := by
    rw [writes, List.filterMap_map]
    exact List.filterMap_some
  have hvalid : ∀ c ∈ xs.map Call.write, c.Valid (KeyBucket w V) := by
    intro c hc
    obtain ⟨x, -, rfl⟩ := List.mem_map.mp hc
    cases x <;> trivial
  have h := run_inv hcount hpos hlt (xs.map .write) t hvalid hrun
  rw [hwrites] at h
  by_cases hk : k ≠ specialEmptyKey w ∧ k ≠ specialDeleteKey w
  · exact iff_of_true (findForReadWrite_of_validKey t hk) (Or.inl hk)
  · rw [h.findForReadWrite_of_not_validKey hk, h.find_eq, mem_written_iff, or_iff_right hk, not_not, eq_comm]

/-- Both read paths see the deletion of an ordinary key. -/
theorem findForReadWrite_agree_deleted :
    ∃ t : DenseHashTable (KeyBucket 64 (BitVec 64)) (SpecialBucket 64 (BitVec 64)), (mountForWrite 8 80).run
          ([Write.insert 3 30, .delete 3 none, .insert (specialEmptyKey 64) 7].map .write) = some t
        ∧ t.findForReadWrite 3 = t.find 3 ∧ t.find 3 = .deleted := by
  obtain ⟨t, hrun, hdeleted⟩ : ∃ t ∈ (mountForWrite 8 80 : DenseHashTable (KeyBucket 64 (BitVec 64))
      (SpecialBucket 64 (BitVec 64))).run ([Write.insert 3 30, .delete 3 none, .insert (specialEmptyKey 64) 7].map .write),
      t.find 3 = .deleted := by decide +kernel
  refine ⟨t, hrun, ?_, hdeleted⟩
  exact (findForReadWrite_eq_find_iff (by decide) (by decide) (by decide) _ t hrun 3).mpr (Or.inl (by decide))

/-- The key that marks empty buckets, inserted: one read path finds it, the other does not. -/
theorem findForReadWrite_misses_reserved :
    ∃ t : DenseHashTable (KeyBucket 64 (BitVec 64)) (SpecialBucket 64 (BitVec 64)),
      (mountForWrite 8 80).run ([Write.insert (specialEmptyKey 64) 7].map .write) = some t
        ∧ t.find (specialEmptyKey 64) = .ok 7
        ∧ t.findForReadWrite (specialEmptyKey 64) = .notFound := by
  simp only [← Option.mem_def]
  decide +kernel

end

end DenseHashTable

end Havenask
