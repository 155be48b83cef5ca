import Mathlib

/-!
# Ranges of hash ids

`swift/common/RangeUtil.cpp`: a topic is cut into partitions, ranges of the 16-bit hash ids, and each
partition into merge ranges.  Messages with hash ids in one merge range may be packed into one, which then
goes by the end of the range.

* **`consecutive_splitPartitions`**: the ranges of a split follow each other without gaps and fill the range that
  is split.
* **`getMergeHashId_mono`**: the end of the merge range grows with the hash id.
* **`routing_consistent`**: every hash id has one partition, and keeps it when it is replaced by the end of its
  merge range.
-/

namespace Havenask.Swift

open List UInt16

/-- A range of hash ids, both ends included. -/
abbrev HashRange := ℕ × ℕ

/-- The loop of `splitPartitions`: `n` ranges are left, the next one has the number `i`. -/
def splitLoop (c m rangeTo : ℕ) : ℕ → ℕ → ℕ → List HashRange
  | 0, _, _ => []
  | n + 1, i, start =>
    if start ≤ rangeTo then
      let stop := start + c + (if m ≤ i then 0 else 1) - 1
      (start, stop) :: splitLoop c m rangeTo n (i + 1) (stop + 1)
    else []

def splitPartitions (partitionCount defaultFrom defaultTo : ℕ) : List HashRange :=
  if partitionCount = 0 then []
  else
    let rangeCount := defaultTo - defaultFrom + 1
    splitLoop (rangeCount / partitionCount) (rangeCount % partitionCount) defaultTo partitionCount 0
      defaultFrom

structure RangeUtil where
  partitions : List HashRange
  mergeRanges : List HashRange

namespace RangeUtil

/-- The constructor: partitions of all hash ids, and `splitMergeRange`. -/
def init (partitionCount rangeCount : ℕ) : RangeUtil :=
  let partitions := splitPartitions partitionCount 0 65535
  ⟨partitions, partitions.flatMap fun range => splitPartitions rangeCount range.1 range.2⟩

/-- `getMergeHashId`: `upper_bound` gives the first range that ends at the hash id or behind it. -/
def getMergeHashId (rangeUtil : RangeUtil) (hashId : UInt16) : UInt16 :=
  match rangeUtil.mergeRanges.find? fun range => decide (hashId.toNat ≤ range.2) with
  | none => hashId
  | some range => UInt16.ofNat range.2

/-- `getPartitionId`, with the same `upper_bound`. -/
def getPartitionId (rangeUtil : RangeUtil) (hashId : UInt16) : ℤ :=
  match rangeUtil.partitions.findIdx? fun range => decide (hashId.toNat ≤ range.2) with
  | none => -1
  | some i => i

def getPartitionIds (rangeUtil : RangeUtil) (requiredRangeFrom requiredRangeTo : UInt16) : List ℕ :=
  if requiredRangeTo < requiredRangeFrom then []
  else (rangeUtil.partitions.zipIdx.filter fun (range, _) =>
    !(decide (requiredRangeTo.toNat < range.1) || decide (range.2 < requiredRangeFrom.toNat))).map Prod.snd

end RangeUtil

/-! ## Ranges without gaps -/

/-- The ranges follow each other without gaps, from a hash id to right before another. -/
inductive Consecutive : ℕ → List HashRange → ℕ → Prop
  | nil (stop : ℕ) : Consecutive stop [] stop
  | cons {start last stop : ℕ} {ranges : List HashRange} (hle : start ≤ last)
      (hrest : Consecutive (last + 1) ranges stop) : Consecutive start ((start, last) :: ranges) stop

def HashRange.Contains (range : HashRange) (hashId : ℕ) : Prop := range.1 ≤ hashId ∧ hashId ≤ range.2

variable {range : HashRange}

namespace Consecutive

variable {start stop mid k : ℕ} {ranges ranges' : List HashRange}

lemma append (h : Consecutive start ranges mid) (h' : Consecutive mid ranges' stop) :
    Consecutive start (ranges ++ ranges') stop := by
  induction h with
  | nil => exact h'
  | cons hle _ ih => exact .cons hle (ih h')

variable (h : Consecutive start ranges stop)
include h

lemma flatMap {f : HashRange → List HashRange}
    (hf : ∀ range ∈ ranges, Consecutive range.1 (f range) (range.2 + 1)) :
    Consecutive start (ranges.flatMap f) stop := by
  induction h with
  | nil => exact .nil _
  | cons hle hrest ih =>
    obtain ⟨hfirst, hothers⟩ := forall_mem_cons.mp hf
    exact hfirst.append (ih hothers)

lemma bounds :
    start ≤ stop ∧ ∀ range ∈ ranges, start ≤ range.1 ∧ range.1 ≤ range.2 ∧ range.2 < stop := by
  induction h with
  | nil => exact ⟨le_rfl, forall_mem_nil _⟩
  | cons hle hrest ih =>
    refine ⟨by omega, forall_mem_cons.mpr ⟨⟨le_rfl, hle, by omega⟩, fun range hmem => ?_⟩⟩
    have hbounds := ih.2 range hmem
    omega

lemma pairwise : ranges.Pairwise fun range range' => range.2 < range'.1 := by
  induction h with
  | nil => exact Pairwise.nil
  | cons hle hrest ih =>
    exact pairwise_cons.mpr ⟨fun range hmem => (hrest.bounds.2 range hmem).1, ih⟩

/-- The search by the ends of the ranges finds the range of a hash id. -/
lemma search (hle : start ≤ k) (hlt : k < stop) :
    ∃ i range, ranges[i]? = some range ∧ range.Contains k
    ∧ ranges.findIdx? (fun range => decide (k ≤ range.2)) = some i
    ∧ ranges.find? (fun range => decide (k ≤ range.2)) = some range := by
  induction h with
  | nil => omega
  | @cons start last stop ranges hfirst hrest ih =>
    by_cases hin : k ≤ last
    · exact ⟨0, (start, last), rfl, ⟨hle, hin⟩, by simp [findIdx?_cons, hin], by simp [hin]⟩
    · obtain ⟨i, range, hget, hcontains, hidx, hfind⟩ := ih (by omega) hlt
      exact ⟨i + 1, range, hget, hcontains, by simp [findIdx?_cons, hin, hidx], by simp [hin, hfind]⟩

lemma unique {i j : ℕ} {range' : HashRange}
    (hi : ranges[i]? = some range) (hj : ranges[j]? = some range') (hrange : range.Contains k)
    (hrange' : range'.Contains k) : i = j := by
  obtain ⟨hlt, rfl⟩ := List.getElem?_eq_some_iff.mp hi
  obtain ⟨hlt', rfl⟩ := List.getElem?_eq_some_iff.mp hj
  have hpair := pairwise_iff_getElem.mp h.pairwise
  obtain ⟨hfirst, hlast⟩ := hrange
  obtain ⟨hfirst', hlast'⟩ := hrange'
  rcases lt_trichotomy i j with hij | heq | hij
  · have := hpair i j hlt hlt' hij
    omega
  · exact heq
  · have := hpair j i hlt' hlt hij
    omega

lemma eq_of_contains {range' : HashRange} (hmem : range ∈ ranges)
    (hmem' : range' ∈ ranges) (hrange : range.Contains k) (hrange' : range'.Contains k) : range = range' := by
  obtain ⟨i, hi⟩ := mem_iff_getElem?.mp hmem
  obtain ⟨j, hj⟩ := mem_iff_getElem?.mp hmem'
  obtain rfl := h.unique hi hj hrange hrange'
  exact Option.some.inj (hi.symm.trans hj)

end Consecutive

/-! ## The ranges of a split -/

/-- The ranges that are left to split off fill what is left of the range. -/
lemma consecutive_splitLoop {c m rangeTo : ℕ} (n : ℕ) : ∀ {i start : ℕ}, start + n * c + (m - i) = rangeTo + 1 →
    m ≤ i + n → Consecutive start (splitLoop c m rangeTo n i start) (rangeTo + 1) := by
  induction n with
  | zero =>
    intro i start hall hm
    obtain rfl : start = rangeTo + 1 := by omega
    exact .nil _
  | succ n ih =>
    intro i start hall hm
    rw [splitLoop]
    rw [Nat.succ_mul] at hall
    split
    · have hstop : ∃ len, start + c + (if m ≤ i then 0 else 1) = start + len + 1
          ∧ start + (len + 1) + n * c + (m - (i + 1)) = rangeTo + 1 := by
        refine ⟨c + (if m ≤ i then 0 else 1) - 1, ?_⟩
        have hzero : c = 0 → n * c = 0 := fun h => by rw [h, Nat.mul_zero]
        split <;> omega
      obtain ⟨len, hlen, hrest⟩ := hstop
      rw [hlen]
      exact .cons (Nat.le_add_right _ _) (@ih (i + 1) (start + len + 1) hrest (by omega))
    · obtain rfl : start = rangeTo + 1 := by omega
      exact .nil _

section
variable {partitionCount defaultFrom defaultTo : ℕ}

lemma consecutive_splitPartitions (hpos : 0 < partitionCount) (hle : defaultFrom ≤ defaultTo) :
    Consecutive defaultFrom (splitPartitions partitionCount defaultFrom defaultTo) (defaultTo + 1) := by
  have hdiv := Nat.div_add_mod (defaultTo - defaultFrom + 1) partitionCount
  have hmod := Nat.mod_lt (defaultTo - defaultFrom + 1) hpos
  rw [splitPartitions, if_neg hpos.ne']
  exact consecutive_splitLoop _ (by omega) (by omega)

lemma mem_splitPartitions (hle : defaultFrom ≤ defaultTo)
    (hmem : range ∈ splitPartitions partitionCount defaultFrom defaultTo) :
    defaultFrom ≤ range.1 ∧ range.1 ≤ range.2 ∧ range.2 ≤ defaultTo := by
  rcases Nat.eq_zero_or_pos partitionCount with rfl | hpos
  · cases hmem
  · have hbounds := (consecutive_splitPartitions hpos hle).bounds.2 range hmem
    omega

end

/-! ## Merge ranges -/

namespace RangeUtil

section
variable {rangeUtil : RangeUtil} (hmerge : Consecutive 0 rangeUtil.mergeRanges 65536)
include hmerge

lemma getMergeHashId_spec (hashId : UInt16) : ∃ range ∈ rangeUtil.mergeRanges,
    range.Contains hashId.toNat ∧ (rangeUtil.getMergeHashId hashId).toNat = range.2 := by
  obtain ⟨i, range, hget, hcontains, -, hfind⟩ := hmerge.search (Nat.zero_le _) hashId.toNat_lt
  have hmem := mem_of_getElem? hget
  refine ⟨range, hmem, hcontains, ?_⟩
  simp only [getMergeHashId, hfind]
  exact toNat_ofNat_of_lt' (hmerge.bounds.2 range hmem).2.2

lemma getMergeHashId_idem (hashId : UInt16) :
    rangeUtil.getMergeHashId (rangeUtil.getMergeHashId hashId) = rangeUtil.getMergeHashId hashId := by
  obtain ⟨range, hmem, hcontains, hend⟩ := getMergeHashId_spec hmerge hashId
  obtain ⟨range', hmem', hcontains', hend'⟩ := getMergeHashId_spec hmerge (rangeUtil.getMergeHashId hashId)
  rw [hend] at hcontains'
  obtain rfl := hmerge.eq_of_contains hmem hmem' ⟨(hmerge.bounds.2 range hmem).2.1, le_rfl⟩ hcontains'
  rw [← UInt16.toNat_inj, hend', hend]

end

variable (partitionCount rangeCount : ℕ)

/-- Without partitions or merge ranges in them there is nothing to look up. -/
lemma mergeRanges_cases : (init partitionCount rangeCount).mergeRanges = []
    ∨ Consecutive 0 (init partitionCount rangeCount).mergeRanges 65536 := by
  rcases Nat.eq_zero_or_pos partitionCount with rfl | hpos
  · exact .inl rfl
  rcases Nat.eq_zero_or_pos rangeCount with rfl | hrange
  · exact .inl (by simp [init, splitPartitions])
  · have h := consecutive_splitPartitions hpos (Nat.zero_le 65535)
    exact .inr (h.flatMap fun range hmem => consecutive_splitPartitions hrange (h.bounds.2 range hmem).2.1)

lemma le_getMergeHashId (hashId : UInt16) : hashId ≤ (init partitionCount rangeCount).getMergeHashId hashId := by
  rcases mergeRanges_cases partitionCount rangeCount with hnil | hmerge
  · simp [getMergeHashId, hnil]
  obtain ⟨range, -, hcontains, hend⟩ := getMergeHashId_spec hmerge hashId
  rw [le_iff_toNat_le, hend]
  exact hcontains.2

lemma getMergeHashId_mono {hashId hashId' : UInt16} (hle : hashId ≤ hashId') :
    (init partitionCount rangeCount).getMergeHashId hashId
    ≤ (init partitionCount rangeCount).getMergeHashId hashId' := by
  rcases mergeRanges_cases partitionCount rangeCount with hnil | hmerge
  · simpa [getMergeHashId, hnil] using hle
  obtain ⟨range, hmem, ⟨hfirst, hlast⟩, hend⟩ := getMergeHashId_spec hmerge hashId
  obtain ⟨range', hmem', ⟨hfirst', hlast'⟩, hend'⟩ := getMergeHashId_spec hmerge hashId'
  rw [le_iff_toNat_le] at hle ⊢
  rw [hend, hend']
  by_contra hlt
  -- the range of the larger hash id would end inside the range of the other
  obtain rfl := hmerge.eq_of_contains hmem hmem' (k := range'.2) ⟨by omega, by omega⟩ ⟨by omega, le_rfl⟩
  exact hlt le_rfl

/-! ## Routing -/

section
variable {rangeUtil : RangeUtil} (h : Consecutive 0 rangeUtil.partitions 65536)
include h

lemma getPartitionId_eq_iff (hashId : UInt16) (i : ℕ) : rangeUtil.getPartitionId hashId = i
    ↔ ∃ range, rangeUtil.partitions[i]? = some range ∧ range.Contains hashId.toNat := by
  obtain ⟨j, range, hget, hcontains, hidx, -⟩ := h.search (Nat.zero_le _) hashId.toNat_lt
  simp only [getPartitionId, hidx, Nat.cast_inj]
  constructor
  · rintro rfl
    exact ⟨range, hget, hcontains⟩
  · rintro ⟨range', hget', hcontains'⟩
    exact h.unique hget hget' hcontains hcontains'

lemma mem_getPartitionIds_iff (rangeFrom rangeTo : UInt16) (i : ℕ) : i ∈ rangeUtil.getPartitionIds rangeFrom rangeTo
    ↔ ∃ hashId, rangeFrom ≤ hashId ∧ hashId ≤ rangeTo ∧ rangeUtil.getPartitionId hashId = i := by
  simp only [getPartitionId_eq_iff h, le_iff_toNat_le, getPartitionIds, lt_iff_toNat_lt]
  split
  · refine ⟨fun hmem => absurd hmem not_mem_nil, ?_⟩
    rintro ⟨hashId, hfrom, hto, -⟩
    omega
  simp only [mem_map, mem_filter, Prod.exists, exists_eq_right, mem_zipIdx_iff_getElem?,
    Bool.not_eq_true', Bool.or_eq_false_iff, decide_eq_false_iff_not, not_lt]
  constructor
  · rintro ⟨first, last, hget, hto, hfrom⟩
    obtain ⟨-, hle, hlt⟩ := h.bounds.2 _ (mem_of_getElem? hget)
    -- a hash id in both: the start of the partition, or of the range that is asked for
    refine ⟨ofNat (max rangeFrom.toNat first), ?_⟩
    rw [toNat_ofNat_of_lt' (max_lt rangeFrom.toNat_lt (hle.trans_lt hlt))]
    exact ⟨by omega, by omega, first, last, hget, le_max_right _ _, max_le hfrom hle⟩
  · rintro ⟨hashId, hfrom, hto, first, last, hget, hfirst, hlast⟩
    exact ⟨first, last, hget, hfirst.trans hto, hfrom.trans hlast⟩

end

variable {partitionCount rangeCount}

lemma getPartitionId_getMergeHashId (h : Consecutive 0 (init partitionCount rangeCount).partitions 65536)
    (hmerge : Consecutive 0 (init partitionCount rangeCount).mergeRanges 65536) (hashId : UInt16) :
    (init partitionCount rangeCount).getPartitionId ((init partitionCount rangeCount).getMergeHashId hashId)
    = (init partitionCount rangeCount).getPartitionId hashId := by
  obtain ⟨range, hmem, hcontains, hend⟩ := getMergeHashId_spec hmerge hashId
  obtain ⟨part, hpart, hin⟩ := mem_flatMap.mp hmem
  obtain ⟨i, hi⟩ := mem_iff_getElem?.mp hpart
  obtain ⟨hfirst, hle, hlast⟩ := mem_splitPartitions (h.bounds.2 part hpart).2.1 hin
  rw [(getPartitionId_eq_iff h hashId i).mpr ⟨part, hi, hfirst.trans hcontains.1, hcontains.2.trans hlast⟩,
    (getPartitionId_eq_iff h _ i).mpr ⟨part, hi, ?_⟩]
  rw [hend]
  exact ⟨hfirst.trans hle, hlast⟩

/-- The ranges of partitions and of merges cover all hash ids without gaps, a hash id has one partition, and the end
of its merge range is in it. -/
structure Routes (rangeUtil : RangeUtil) : Prop where
  partitions : Consecutive 0 rangeUtil.partitions 65536
  mergeRanges : Consecutive 0 rangeUtil.mergeRanges 65536
  partitionId : ∀ hashId, ∃ (i : ℕ) (range : HashRange), rangeUtil.getPartitionId hashId = i
    ∧ rangeUtil.partitions[i]? = some range ∧ range.Contains hashId.toNat
    ∧ ∀ j range', rangeUtil.partitions[j]? = some range' → range'.Contains hashId.toNat → j = i
  partitionIds : ∀ rangeFrom rangeTo i, i ∈ rangeUtil.getPartitionIds rangeFrom rangeTo
    ↔ ∃ hashId, rangeFrom ≤ hashId ∧ hashId ≤ rangeTo ∧ rangeUtil.getPartitionId hashId = i
  mono : ∀ hashId hashId', hashId ≤ hashId' → rangeUtil.getMergeHashId hashId ≤ rangeUtil.getMergeHashId hashId'
  le : ∀ hashId, hashId ≤ rangeUtil.getMergeHashId hashId
  idem : ∀ hashId,
    rangeUtil.getMergeHashId (rangeUtil.getMergeHashId hashId) = rangeUtil.getMergeHashId hashId
  within : ∀ hashId, rangeUtil.getPartitionId (rangeUtil.getMergeHashId hashId) = rangeUtil.getPartitionId hashId

/-- **Routing is consistent.** -/
theorem routing_consistent (hpos : 1 ≤ partitionCount) (hrange : 1 ≤ rangeCount) :
    Routes (init partitionCount rangeCount) := by
  have h : Consecutive 0 (init partitionCount rangeCount).partitions 65536 :=
    consecutive_splitPartitions hpos (by norm_num)
  have hmerge : Consecutive 0 (init partitionCount rangeCount).mergeRanges 65536 :=
    h.flatMap fun range hmem => consecutive_splitPartitions hrange (h.bounds.2 range hmem).2.1
  refine ⟨h, hmerge, fun hashId => ?_, mem_getPartitionIds_iff h, fun _ _ => getMergeHashId_mono _ _,
    le_getMergeHashId _ _, getMergeHashId_idem hmerge, getPartitionId_getMergeHashId h hmerge⟩
  obtain ⟨i, range, hget, hcontains, -⟩ := h.search (Nat.zero_le _) hashId.toNat_lt
  exact ⟨i, range, (getPartitionId_eq_iff h hashId i).mpr ⟨range, hget, hcontains⟩, hget, hcontains,
    fun j range' hget' hcontains' => h.unique hget' hget hcontains' hcontains⟩

/-- Three partitions of seven merge ranges each. -/
theorem routing_consistent_three : (1 ≤ 3 ∧ 1 ≤ 7) ∧ Routes (init 3 7) :=
  ⟨by decide, routing_consistent (by decide) (by decide)⟩

end RangeUtil

end Havenask.Swift
