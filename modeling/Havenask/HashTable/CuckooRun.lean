import Havenask.HashTable.CuckooRehash
import Havenask.HashTable.DenseRun

/-!
# Runs of `CuckooHashTable`

Writes, `Shrink` and `Stretch` in any order.

* **Layout.**  `FindBucketForRead` gives up at the first empty bucket.  That is right in every run
  whose kicks leave no bucket empty that they moved (`run_earlyExit`), and wrong in others: a kick of
  the tombstone of a `Delete` without a value clears it (`kick_clears_deleted`).
* **Map.**  If kicks move buckets as they are and no rehash gives up half-way, the table is the map
  of its writes (`run_inv`), as the dense table is (`find_eq_dense`).
* **`Shrink`** recovers from a failed `ReHash` by calling it again with the old bucket count, which
  restores the layout and not the buckets.  So it keeps the map if and only if that `ReHash` did not
  give up half-way (`shrink_preserves_iff`).
-/

namespace Havenask

open SlotArray Bucket ClosedHashTableTraits LawfulBucket Cuckoo Multiset

namespace CuckooHashTable

variable {B S V : Type} {w : ℕ} [Bucket B w V] {hash : BitVec w → ℕ → BitVec w} [LawfulBucket B]
  {t t' : CuckooHashTable B S}

/-! ## `Shrink` and `Stretch` -/

/-- What holds of a table throughout a run.  The 32-bit bucket counters of the evictions can count
all buckets that the table may ever have. -/
structure RunInv (hash : BitVec w → ℕ → BitVec w) (t : CuckooHashTable B S) : Prop where
  pct_pos : 0 < t.occupancyPct
  pct_le : t.occupancyPct ≤ 100
  room : (t.blockCount + t.stretchBlocks) * 4 < 2 ^ 32
  geometry : (∀ ev ∈ t.history, ev.Keeps) → Geometry hash t

variable {occupancyPct : ℕ}

lemma RunInv.targetPct (h : RunInv hash t) (hpct : occupancyPct ≤ 100) :
    0 < t.targetPct occupancyPct ∧ t.targetPct occupancyPct ≤ 100 := by
  unfold CuckooHashTable.targetPct
  split_ifs with hpos
  · exact ⟨hpos, hpct⟩
  · exact ⟨h.pct_pos, h.pct_le⟩

lemma RunInv.newBlockCount_pos (h : RunInv hash t) (hpct : occupancyPct ≤ 100) :
    0 < t.newBlockCount occupancyPct := by
  obtain ⟨hpos, hle⟩ := h.targetPct hpct
  have := capacityToBucketCount_pos t.size hpos hle
  unfold newBlockCount
  omega

omit [Bucket B w V] [LawfulBucket B] in
lemma max_bucketCount {n : ℕ} (h : n ≤ t.blockCount) : max t.bucketCount (n * 4) = t.bucketCount :=
  max_eq_left (Nat.mul_le_mul_right 4 h)

/-- How a `Shrink` that returns `true` ends. -/
inductive ShrinkCases (hash : BitVec w → ℕ → BitVec w) (t : CuckooHashTable B S)
    (occupancyPct : ℕ) : CuckooHashTable B S → Prop
  | kept : ShrinkCases hash t occupancyPct t
  | shrunk (t' : CuckooHashTable B S) (hlt : t.newBlockCount occupancyPct < t.blockCount)
      (h : Rehashed hash t (t.newBlockCount occupancyPct) (true, t')) :
      ShrinkCases hash t occupancyPct { t' with occupancyPct := t.targetPct occupancyPct }
  | recovered (t₁ t' : CuckooHashTable B S) (hlt : t.newBlockCount occupancyPct < t.blockCount)
      (h₁ : Rehashed hash t (t.newBlockCount occupancyPct) (false, t₁))
      (h₂ : Rehashed hash t₁ t.blockCount (true, t')) : ShrinkCases hash t occupancyPct t'

lemma shrink_cases (ht : RunInv hash t) (hpct : occupancyPct ≤ 100)
    (h : t.shrink hash occupancyPct = some (true, t')) : ShrinkCases hash t occupancyPct t' := by
  have hroom := ht.room
  unfold shrink at h
  split_ifs at h with hle
  · obtain rfl : t = t' := (Prod.mk.inj (Option.some.inj h)).2
    exact .kept
  have hlt := Nat.lt_of_not_le hle
  have hmax := max_bucketCount hlt.le
  have hspec : ∀ r, t.reHash hash (t.newBlockCount occupancyPct) = some r →
      Rehashed hash t (t.newBlockCount occupancyPct) r := fun r hr =>
    reHash_spec (ht.newBlockCount_pos hpct) (by omega)
      (fun hkeeps => by rw [hmax]; exact Clean.of_layout (ht.geometry hkeeps).layout) hr
  cases hre : t.reHash hash (t.newBlockCount occupancyPct) with
  | none =>
    rw [hre] at h
    cases h
  | some r =>
    have h₁ := hspec r hre
    rw [hre] at h
    obtain ⟨_ | _, t₁⟩ := r
    · have hcount : t₁.blockCount = t.blockCount := h₁.same.blockCount
      refine .recovered t₁ t' hlt h₁ (reHash_spec (by omega) (by omega) (fun hkeeps => ?_) h)
      rw [max_bucketCount hcount.ge, bucketCount_congr hcount, ← hmax]
      exact h₁.clean hkeeps rfl
    · obtain rfl := (Prod.mk.inj (Option.some.inj h)).2
      exact .shrunk t₁ hlt h₁

/-- The buckets are the same and in order, or a rehash has given up and done damage. -/
def Outcome (t t' : CuckooHashTable B S) : Prop :=
  (Moves t.history t'.history ∧ contents occupied t'.bucket t'.bucketCount
    = contents occupied t.bucket t.bucketCount)
  ∨ ((∃ ev ∈ t'.history, ¬ ev.IsMove) ∧ Damage (contents occupied t.bucket t.bucketCount)
    (contents occupied t'.bucket t'.bucketCount))

/-- What the map of a table is made of, apart from the buckets. -/
def counters (t : CuckooHashTable B S) : (ℕ × ℕ) × S × S :=
  ((t.keyCount, t.deleteCount), t.emptyBucket, t.deleteBucket)

omit [Bucket B w V] [LawfulBucket B] in
lemma Same.counters (h : Same t t') : t'.counters = t.counters := by
  unfold CuckooHashTable.counters
  rw [h.keyCount, h.deleteCount, h.emptyBucket, h.deleteBucket]

namespace ShrinkCases

variable {occupancyPct : ℕ}

section
variable (h : ShrinkCases hash t occupancyPct t')
include h

lemma suffix : t.history <:+ t'.history := by
  cases h with
  | kept => exact List.suffix_rfl
  | shrunk t' hlt h => exact h.suffix
  | recovered t₁ t' hlt h₁ h₂ => exact h₁.suffix.trans h₂.suffix

lemma counters : t'.counters = t.counters := by
  cases h with
  | kept => rfl
  | shrunk t' hlt h => exact h.same.counters
  | recovered t₁ t' hlt h₁ h₂ => exact h₂.same.counters.trans h₁.same.counters

/-- A `Shrink` keeps the invariant, also when it has to recover. -/
lemma runInv (ht : RunInv hash t) (hpct : occupancyPct ≤ 100) : RunInv hash t' := by
  cases h with
  | kept => exact ht
  | shrunk t' hlt h =>
    obtain ⟨hpos, hle⟩ := ht.targetPct hpct
    refine ⟨hpos, hle, ?_, fun hkeeps => ?_⟩
    · have hblocks : t'.blockCount = t.newBlockCount occupancyPct := h.same.blockCount
      have hstretch : t'.stretchBlocks = t.stretchBlocks := h.same.stretchBlocks
      have := ht.room
      show (t'.blockCount + t'.stretchBlocks) * 4 < 2 ^ 32
      omega
    · have hgeometry := h.geometry hkeeps rfl
      exact ⟨hgeometry.pos, hgeometry.nu, hgeometry.layout, ⟨hgeometry.callIds.lt, hgeometry.callIds.le⟩⟩
  | recovered t₁ t' hlt h₁ h₂ =>
    have hsame₁ : Same t t₁ := h₁.same
    have hpct' : t'.occupancyPct = t.occupancyPct := Eq.trans h₂.same.occupancyPct hsame₁.occupancyPct
    have hstretch : t'.stretchBlocks = t.stretchBlocks := Eq.trans h₂.same.stretchBlocks hsame₁.stretchBlocks
    have hblocks : t'.blockCount = t.blockCount := h₂.same.blockCount
    refine ⟨hpct' ▸ ht.pct_pos, hpct' ▸ ht.pct_le, ?_, fun hkeeps => h₂.geometry hkeeps rfl⟩
    rw [hblocks, hstretch]
    exact ht.room

/-- The recovery puts the buckets in order that are there. -/
lemma outcome (hcopies : ∀ ev ∈ t'.history, ev.Copies)
    (hnodup : ((contents occupied t.bucket t.bucketCount).map key).Nodup) : Outcome t t' := by
  cases h with
  | kept => exact Or.inl ⟨Moves.refl _, rfl⟩
  | shrunk t' hlt h =>
    have hcount : t'.bucketCount = t.newBlockCount occupancyPct * 4 := bucketCount_congr h.same.blockCount
    refine Or.inl ⟨h.moves rfl, ?_⟩
    have hbag := h.bag hcopies (Or.inr hnodup) rfl
    rw [max_bucketCount hlt.le] at hbag
    show contents occupied t'.bucket t'.bucketCount = _
    rw [hcount]
    exact hbag
  | recovered t₁ t' hlt h₁ h₂ =>
    have hblocks : t₁.blockCount = t.blockCount := h₁.same.blockCount
    have hcount₁ : t₁.bucketCount = t.bucketCount := bucketCount_congr hblocks
    have hcount : t'.bucketCount = t.bucketCount := bucketCount_congr h₂.same.blockCount
    have hbag : contents occupied t'.bucket t.bucketCount
        = contents occupied t₁.bucket t.bucketCount := by
      have hbag := h₂.bag hcopies (Or.inl hblocks.le) rfl
      rwa [max_bucketCount hblocks.ge, hcount₁] at hbag
    unfold Outcome
    rw [hcount, hbag]
    rcases h₁.damage (fun ev hev => hcopies ev (h₂.suffix.subset hev)) hlt.le hnodup rfl with
      ⟨hmoves, heq⟩ | ⟨⟨ev, hev, hmove⟩, hdamage⟩
    · exact Or.inl ⟨hmoves.trans (h₂.moves rfl), heq⟩
    · exact Or.inr ⟨⟨ev, h₂.suffix.subset hev, hmove⟩, hdamage⟩

end

end ShrinkCases

/-- What a call that rehashes does to a table. -/
structure Tidied (hash : BitVec w → ℕ → BitVec w) (t t' : CuckooHashTable B S) : Prop where
  suffix : t.history <:+ t'.history
  counters : t'.counters = t.counters
  runInv : RunInv hash t'
  outcome : (∀ ev ∈ t'.history, ev.Copies) → ((contents occupied t.bucket t.bucketCount).map key).Nodup → Outcome t t'

lemma shrink_tidied (ht : RunInv hash t) (hpct : occupancyPct ≤ 100)
    (h : t.shrink hash occupancyPct = some (true, t')) : Tidied hash t t' :=
  have hcases := shrink_cases ht hpct h
  ⟨hcases.suffix, hcases.counters, hcases.runInv ht hpct, hcases.outcome⟩

/-- The buckets before a stretch are in order, and the new ones are empty. -/
lemma clean_startStretch (h : Geometry hash t) :
    Clean t.startStretch.bucket ((t.stretchBlocks + t.blockCount) * 4) := by
  have hclean := Clean.of_layout h.layout
  have hnew : ∀ s < (t.stretchBlocks + t.blockCount) * 4, ¬ s < t.blockCount * 4 →
      t.startStretch.bucket s = new := fun s hs hge => if_pos ⟨Nat.le_of_not_lt hge, hs⟩
  have hold : ∀ s < t.blockCount * 4, t.startStretch.bucket s = t.bucket s := fun s hs =>
    if_neg fun hmem => absurd hs (Nat.not_lt.mpr hmem.1)
  constructor
  · intro s hs
    by_cases hlt : s < t.blockCount * 4
    · rw [hold s hlt]
      exact hclean.wf s hlt
    · rw [hnew s hs hlt]
      exact wf_new
  · intro s hs hempty
    by_cases hlt : s < t.blockCount * 4
    · rw [hold s hlt] at hempty ⊢
      exact hclean.fresh s hlt hempty
    · exact hnew s hs hlt

lemma contents_startStretch (t : CuckooHashTable B S) :
    contents occupied t.startStretch.bucket ((t.stretchBlocks + t.blockCount) * 4)
    = contents occupied t.bucket t.bucketCount := by
  have hle : t.blockCount * 4 ≤ (t.stretchBlocks + t.blockCount) * 4 := by omega
  rw [contents_eq_of_le hle, bucketCount]
  · exact contents_congr fun i hi => if_neg fun hmem => absurd hi (Nat.not_lt.mpr hmem.1)
  intro i hge hlt
  rw [show t.startStretch.bucket i = new from if_pos ⟨hge, hlt⟩]
  exact occupied_eq_false.mpr isEmpty_new

lemma stretch_tidied (ht : RunInv hash t) (h : t.stretch hash = some (true, t')) : Tidied hash t t' := by
  have hroom := ht.room
  unfold stretch at h
  split_ifs at h with hle
  · obtain rfl : t = t' := (Prod.mk.inj (Option.some.inj h)).2
    exact ⟨List.suffix_rfl, rfl, ht, fun _ _ => Or.inl ⟨Moves.refl _, rfl⟩⟩
  have hmax : max t.startStretch.bucketCount ((t.stretchBlocks + t.blockCount) * 4)
      = (t.stretchBlocks + t.blockCount) * 4 := by
    refine max_eq_right ?_
    show t.blockCount * 4 ≤ _
    omega
  have hre : Rehashed hash t.startStretch (t.stretchBlocks + t.blockCount) (true, t') :=
    reHash_spec (by omega) (by omega) (fun hkeeps => by rw [hmax]; exact clean_startStretch (ht.geometry hkeeps)) h
  have hblocks : t'.blockCount = t.stretchBlocks + t.blockCount := hre.same.blockCount
  have hstretch : t'.stretchBlocks = 0 := hre.same.stretchBlocks
  have hpct : t'.occupancyPct = t.occupancyPct := hre.same.occupancyPct
  refine ⟨hre.suffix, hre.same.counters, ⟨hpct ▸ ht.pct_pos, hpct ▸ ht.pct_le, by omega,
    fun hkeeps => hre.geometry hkeeps rfl⟩, fun hcopies _ => Or.inl ⟨hre.moves rfl, ?_⟩⟩
  have hbag := hre.bag hcopies (Or.inl ?_) rfl
  · rw [hmax, contents_startStretch] at hbag
    rw [bucketCount, hblocks]
    exact hbag
  · show t.blockCount ≤ _
    omega

/-! ## The early exit -/

/-- What `FindBucketForRead` relies on when it gives up at an empty bucket.  With arbitrary hash
functions a block may be the block of a key for several of them; what counts is the first. -/
structure EarlyExit (hash : BitVec w → ℕ → BitVec w) (t : CuckooHashTable B S) : Prop where
  initial : ∀ b c, 4 ∣ b → c < 3 → b + (c + 1) ∈ occupiedSlots t.bucket t.bucketCount →
    b + c ∈ occupiedSlots t.bucket t.bucketCount
  stored : ∀ s ∈ occupiedSlots t.bucket t.bucketCount, ∃ j < t.nuHashFunc,
    t.firstBucketId hash (key (t.bucket s)) j ≤ s
      ∧ s < t.firstBucketId hash (key (t.bucket s)) j + 4
  full : ∀ s ∈ occupiedSlots t.bucket t.bucketCount, ∀ j < t.nuHashFunc,
    t.firstBucketId hash (key (t.bucket s)) j ≤ s →
    s < t.firstBucketId hash (key (t.bucket s)) j + 4 →
    (∀ j' < j, t.firstBucketId hash (key (t.bucket s)) j'
      ≠ t.firstBucketId hash (key (t.bucket s)) j) →
    ∀ j' < j, ∀ c < 4, t.firstBucketId hash (key (t.bucket s)) j' + c
      ∈ occupiedSlots t.bucket t.bucketCount
  found : ∀ s ∈ occupiedSlots t.bucket t.bucketCount, ∃ i ∈ occupiedSlots t.bucket t.bucketCount,
    t.findBucketForRead hash (key (t.bucket s)) = some i ∧ key (t.bucket i) = key (t.bucket s)

lemma Geometry.earlyExit (h : Geometry hash t) : EarlyExit hash t := by
  have harranged := h.layout.arranged
  refine ⟨harranged.initial, fun s hs => ?_, fun s hs j _ hle hlt hfirst j' hj' => ?_, fun s hs => ?_⟩
  · obtain ⟨j, hj, hle, hlt, -⟩ := harranged.legal s hs (Set.notMem_empty s)
    exact ⟨j, hj, hle, hlt⟩
  · obtain ⟨j₀, hj₀, hle₀, hlt₀, hfull⟩ := harranged.legal s hs (Set.notMem_empty s)
    refine hfull j' (hj'.trans_le ?_)
    by_contra hnot
    -- the two blocks are one, since both have the bucket
    refine hfirst j₀ (Nat.lt_of_not_le hnot) ?_
    have hdvd := (h.blocks (key (t.bucket s)) j).1
    have hdvd₀ := (h.blocks (key (t.bucket s)) j₀).1
    omega
  · have hk := validKey_key (h.layout.wf s hs.1 (Set.notMem_empty s)) hs.2
    have hread := findBucketForRead_spec h hk
    cases hfind : t.findBucketForRead hash (key (t.bucket s)) with
    | none =>
      rw [hfind] at hread
      exact absurd rfl (hread s hs)
    | some i =>
      rw [hfind] at hread
      exact ⟨i, ⟨hread.1, hread.2.1⟩, rfl, hread.2.2⟩

/-! ## Runs -/

variable [Bucket S w V] [ClosedHashTableTraits B S w] [LawfulBucket S] [LawfulTraits B]

lemma internalInsert_runInv {x : Write w V} (ht : RunInv hash t) (hx : x.Valid B)
    (hok : (t.internalInsert hash x).1 = true) : RunInv hash (t.internalInsert hash x).2 := by
  have hsuffix := (moves_internalInsert hok).suffix
  have hgeometry : (∀ ev ∈ (t.internalInsert hash x).2.history, ev.Keeps) →
      Geometry hash (t.internalInsert hash x).2 := fun hkeeps =>
    internalInsert_geometry (ht.geometry fun ev hev => hkeeps ev (hsuffix.subset hev)) hx hok hkeeps
  have hcases := internalInsert_cases hok
  generalize (t.internalInsert hash x).2 = t'' at hcases hgeometry
  cases hcases with
  | emptyKey hkey => exact ⟨ht.pct_pos, ht.pct_le, ht.room, hgeometry⟩
  | deleteKey hkey => exact ⟨ht.pct_pos, ht.pct_le, ht.room, hgeometry⟩
  | bucket i t' hkey hfind =>
    have hframe := internalFindBucket_frame _ hfind
    have hsame : Same t t' := hframe.same
    refine ⟨?_, ?_, ?_, hgeometry⟩
    · exact ht.pct_pos.trans_eq hsame.occupancyPct.symm
    · exact hsame.occupancyPct.trans_le ht.pct_le
    show (t'.blockCount + t'.stretchBlocks) * 4 < 2 ^ 32
    rw [hsame.blockCount, hsame.stretchBlocks]
    exact ht.room

/-- A call that returns `true` keeps the invariant. -/
lemma call_runInv {c : Call w V} (ht : RunInv hash t) (hc : c.Valid B)
    (h : t.call hash c = some (true, t')) : RunInv hash t' := by
  cases c with
  | write x =>
    have hinsert := Option.some.inj h
    have hinv := internalInsert_runInv ht hc (by rw [hinsert])
    rwa [hinsert] at hinv
  | shrink occupancyPct => exact (shrink_tidied ht hc h).runInv
  | stretch => exact (stretch_tidied ht h).runInv

section
variable {blockCount stretchBlocks occupancyPct maxNuHashFunc : ℕ}

/-- **The invariant of every run.** -/
lemma run_runInv (hpos : 0 < blockCount) (hroom : (blockCount + stretchBlocks) * 4 < 2 ^ 32)
    (hpct : 0 < occupancyPct) (hle : occupancyPct ≤ 100) (cs : List (Call w V)) :
    ∀ t : CuckooHashTable B S, (∀ c ∈ cs, c.Valid B) →
      (mountForWrite blockCount stretchBlocks occupancyPct maxNuHashFunc :
        CuckooHashTable B S).run hash cs = some t → RunInv hash t := by
  induction cs using List.reverseRecOn with
  | nil =>
    intro t _ hrun
    obtain rfl : mountForWrite blockCount stretchBlocks occupancyPct maxNuHashFunc = t := Option.some.inj hrun
    exact ⟨hpct, hle, hroom, fun _ => (inv_mountForWrite hpos).geometry⟩
  | append_singleton cs c ih =>
    intro t hvalid hrun
    obtain ⟨t₀, hrun₀, hcall⟩ := run_append_eq_some hrun
    exact call_runInv (ih t₀ (fun c' hc' => hvalid c' (List.mem_append_left _ hc')) hrun₀) (hvalid c (by simp)) hcall

/-- **The early exit is right** in every state that is reached by calls that return `true`, if no
kick on the way moved a bucket that was empty afterwards and the search counter did not come
round. -/
theorem run_earlyExit (hash : BitVec w → ℕ → BitVec w) (hpos : 0 < blockCount)
    (hroom : (blockCount + stretchBlocks) * 4 < 2 ^ 32) (hpct : 0 < occupancyPct)
    (hle : occupancyPct ≤ 100) (cs : List (Call w V)) (hvalid : ∀ c ∈ cs, c.Valid B) (t : CuckooHashTable B S)
    (hrun : (mountForWrite blockCount stretchBlocks occupancyPct maxNuHashFunc :
      CuckooHashTable B S).run hash cs = some t) (hkeeps : ∀ ev ∈ t.history, ev.Keeps) : EarlyExit hash t :=
  ((run_runInv hpos hroom hpct hle cs t hvalid hrun).geometry hkeeps).earlyExit

end

/-! A table of two blocks, with space for two more: key 1 is deleted, kicked and rehashed twice. -/

def crowdedCalls : List (Call 64 Stamped) :=
  crowd.map .write ++ [.write (.delete 1 (some ⟨2, 0⟩)), .write (.insert 5 ⟨3, 15⟩), .stretch, .shrink 100]

/-- The bucket stays occupied where it is kicked to, so that the early exit is right. -/
theorem run_earlyExit_stretched :
    ∃ t : CuckooHashTable (SpecialValueBucket 64 Stamped) (SpecialValueBucket 64 Stamped),
      (mountForWrite 2 2 80 8).run crowdedHash crowdedCalls = some t ∧ t.history.length = 1
        ∧ EarlyExit crowdedHash t := by
  have hvalid : ∀ c ∈ crowdedCalls, c.Valid (SpecialValueBucket 64 Stamped) := by
    intro c hc
    simp only [crowdedCalls, crowd, List.cons_append, List.nil_append, List.map_cons, List.map_nil,
      List.mem_cons, List.not_mem_nil, or_false] at hc
    rcases hc with rfl | rfl | rfl | rfl | rfl | rfl | rfl | rfl
    all_goals first | exact ⟨rfl, rfl⟩ | exact Nat.le_refl 100 | exact trivial
  have heval : ∃ t ∈ (mountForWrite 2 2 80 8 : CuckooHashTable (SpecialValueBucket 64 Stamped)
      (SpecialValueBucket 64 Stamped)).run crowdedHash crowdedCalls,
      t.history.length = 1 ∧ ∀ ev ∈ t.history, ev.Keeps := by decide +kernel
  obtain ⟨t, hrun, hlength, hkeeps⟩ := heval
  exact ⟨t, hrun, hlength, run_earlyExit crowdedHash (by decide) (by decide) (by decide) (by decide)
    crowdedCalls hvalid t hrun hkeeps⟩

/-- Keys below 10 have the first block, others the second; key 1 may go to the second and key 11 to
the third. -/
def chainHash (key : BitVec 64) (hashFuncId : ℕ) : BitVec 64 :=
  if key = 1 then (if hashFuncId = 0 then 0 else 1)
  else if key = 11 then (if hashFuncId = 0 then 1 else 2)
  else if key.toNat < 10 then 0 else 1

def chain : List (Write 64 Stamped) :=
  [.insert 1 ⟨1, 11⟩, .insert 2 ⟨1, 12⟩, .insert 3 ⟨1, 13⟩, .insert 4 ⟨1, 14⟩,
    .insert 11 ⟨1, 11⟩, .insert 12 ⟨1, 12⟩, .insert 13 ⟨1, 13⟩, .insert 14 ⟨1, 14⟩,
    .delete 1 none, .insert 5 ⟨3, 15⟩]

/-- **A kick clears a deleted bucket.**  Key 5 kicks the tombstone of key 1 to the second block, whose
first bucket had been freed for it.  There it counts as empty, and the three keys behind it are not
found. -/
theorem kick_clears_deleted : ∃ t : CuckooHashTable (SpecialValueBucket 64 Stamped) (SpecialValueBucket 64 Stamped),
      (mountForWrite 3 0 80 8).run chainHash (chain.map .write) = some t
        ∧ isEmpty (t.bucket 4) = true ∧ isEmpty (t.bucket 5) = false ∧ key (t.bucket 5) = 12
        ∧ t.findBucketForRead chainHash 12 = none ∧ t.find chainHash 13 = .notFound := by
  simp only [← Option.mem_def]
  decide +kernel

/-! ## The map -/

variable {M : BitVec w → Status V} {W : Finset (BitVec w)}

omit [LawfulTraits B] in
/-- A rehash that does no damage keeps the map. -/
lemma Tidied.inv (h : Tidied hash t t') (hinv : Inv hash t M W)
    (hfaithful : ∀ ev ∈ t'.history, ev.Faithful) : Inv hash t' M W := by
  have hcopies : ∀ ev ∈ t'.history, ev.Copies := fun ev hev => (hfaithful ev hev).copies
  refine ⟨h.runInv.geometry fun ev hev => (hcopies ev hev).keeps, ?_⟩
  have hcontents : contents occupied t'.bucket t'.bucketCount
      = contents occupied t.bucket t.bucketCount := by
    rcases h.outcome hcopies hinv.isMap.represents.bag.nodup with
      ⟨-, heq⟩ | ⟨⟨ev, hev, hmove⟩, -⟩
    · exact heq
    · exact absurd (Event.faithful_iff.mp (hfaithful ev hev)).2 hmove
  obtain ⟨hcounts, hspecial⟩ := Prod.mk.inj h.counters
  obtain ⟨hkeyCount, hdeleteCount⟩ := Prod.mk.inj hcounts
  obtain ⟨hempty, hdelete⟩ := Prod.mk.inj hspecial
  rw [hcontents, hkeyCount, hdeleteCount, hempty, hdelete]
  exact hinv.isMap

omit [LawfulBucket B] [Bucket S w V] [ClosedHashTableTraits B S w] [LawfulBucket S]
  [LawfulTraits B] [Bucket B w V] in
lemma writes_append (cs cs' : List (Call w V)) : writes (cs ++ cs') = writes cs ++ writes cs' := List.filterMap_append

omit [LawfulBucket S] [LawfulTraits B] in
lemma call_suffix {c : Call w V} (ht : RunInv hash t) (hc : c.Valid B)
    (h : t.call hash c = some (true, t')) : t.history <:+ t'.history := by
  cases c with
  | write x =>
    have hinsert := Option.some.inj h
    have hok : (t.internalInsert hash x).1 = true := by rw [hinsert]
    have hmoves := moves_internalInsert hok
    rw [hinsert] at hmoves
    exact hmoves.suffix
  | shrink occupancyPct => exact (shrink_tidied ht hc h).suffix
  | stretch => exact (stretch_tidied ht h).suffix

/-- **A call is an update of the map**, or none. -/
lemma call_inv {cs : List (Call w V)} {c : Call w V} (ht : RunInv hash t)
    (hinv : Inv hash t (lastOutcome (writes cs)) (written (writes cs))) (hc : c.Valid B)
    (h : t.call hash c = some (true, t')) (hfaithful : ∀ ev ∈ t'.history, ev.Faithful) :
    Inv hash t' (lastOutcome (writes (cs ++ [c]))) (written (writes (cs ++ [c]))) := by
  rw [writes_append]
  cases c with
  | write x =>
    have hinsert := Option.some.inj h
    have hstep := internalInsert_inv hinv hc (by rw [hinsert])
      (by rw [hinsert]; exact fun ev hev => (hfaithful ev hev).copies)
    rw [hinsert] at hstep
    rw [show writes [Call.write x] = [x] from rfl, lastOutcome_append, written_append]
    exact hstep
  | shrink occupancyPct =>
    rw [show writes [(Call.shrink occupancyPct : Call w V)] = [] from rfl, List.append_nil]
    exact (shrink_tidied ht hc h).inv hinv hfaithful
  | stretch =>
    rw [show writes [(Call.stretch : Call w V)] = [] from rfl, List.append_nil]
    exact (stretch_tidied ht h).inv hinv hfaithful

section
variable {blockCount stretchBlocks occupancyPct maxNuHashFunc : ℕ}

/-- **The table is the map of its writes** in every run whose kicks move buckets as they are and
whose rehashes do not give up half-way. -/
theorem run_inv (hpos : 0 < blockCount) (hroom : (blockCount + stretchBlocks) * 4 < 2 ^ 32)
    (hpct : 0 < occupancyPct) (hle : occupancyPct ≤ 100) (cs : List (Call w V)) :
    ∀ t : CuckooHashTable B S, (∀ c ∈ cs, c.Valid B) →
      (mountForWrite blockCount stretchBlocks occupancyPct maxNuHashFunc : CuckooHashTable B S).run hash cs = some t →
      (∀ ev ∈ t.history, ev.Faithful) → Inv hash t (lastOutcome (writes cs)) (written (writes cs)) := by
  induction cs using List.reverseRecOn with
  | nil =>
    intro t _ hrun _
    obtain rfl : mountForWrite blockCount stretchBlocks occupancyPct maxNuHashFunc = t := Option.some.inj hrun
    exact inv_mountForWrite hpos
  | append_singleton cs c ih =>
    intro t hvalid hrun hfaithful
    obtain ⟨t₀, hrun₀, hcall⟩ := run_append_eq_some hrun
    have hvalid₀ : ∀ c' ∈ cs, c'.Valid B := fun c' hc' => hvalid c' (List.mem_append_left _ hc')
    have ht₀ := run_runInv hpos hroom hpct hle cs t₀ hvalid₀ hrun₀
    have hc : c.Valid B := hvalid c (by simp)
    have hsuffix := call_suffix ht₀ hc hcall
    exact call_inv ht₀ (ih t₀ hvalid₀ hrun₀ fun ev hev => hfaithful ev (hsuffix.subset hev)) hc hcall hfaithful

end

/-! ## `Shrink` -/

/-- The key is in a bucket. -/
def Stored (t : CuckooHashTable B S) (k : BitVec w) : Prop :=
  (∃ s ∈ occupiedSlots t.bucket t.bucketCount, key (t.bucket s) = k)
    ∨ (isEmptyKey B k = true ∧ isEmpty t.emptyBucket = false)
    ∨ (isDeleteKey B k = true ∧ isEmpty t.deleteBucket = false)

/-- Nothing is lost between the tables `t` and `t'`: lookups agree, no key of `t'` is in two buckets,
and its size is the number of its keys. -/
structure Preserved (hash : BitVec w → ℕ → BitVec w) (t t' : CuckooHashTable B S) : Prop where
  find : ∀ k, t'.find hash k = t.find hash k
  once : ∀ s ∈ occupiedSlots t'.bucket t'.bucketCount,
    ∀ s' ∈ occupiedSlots t'.bucket t'.bucketCount, key (t'.bucket s) = key (t'.bucket s') → s = s'
  regular : ∀ s ∈ occupiedSlots t'.bucket t'.bucketCount,
    isEmptyKey B (key (t'.bucket s)) = false ∧ isDeleteKey B (key (t'.bucket s)) = false
  size : t'.size = {k | t'.Stored k}.ncard

/-- The keys that are stored are those that the map knows. -/
lemma Inv.stored_iff (h : Inv hash t M W) (k : BitVec w) : t.Stored k ↔ k ∈ W := by
  have hrep := h.isMap.represents
  have hspecial : ∀ b : S, isEmpty b = false ↔ status b ≠ .notFound := by
    intro b
    refine ⟨status_ne_notFound, fun hne => ?_⟩
    by_contra hempty
    exact hne (status_of_isEmpty (by simpa using hempty))
  rw [h.isMap.tally.mem_iff, Stored, ← mem_keys_iff]
  by_cases hk : ValidKey B k
  · rw [Represents.not_isEmptyKey hk, Represents.not_isDeleteKey hk]
    simp only [Bool.false_eq_true, false_and, or_false]
    refine ⟨fun hmem => ?_, fun hne => hrep.bag.mem_of_ne k hk hne⟩
    obtain ⟨b, hb, rfl⟩ := mem_map.mp hmem
    rw [hrep.bag.entry_eq b hb]
    exact status_ne_notFound (occupied_eq_true.mp (mem_contents.mp hb).choose_spec.2.2)
  have habsent : k ∉ (contents occupied t.bucket t.bucketCount).map key := by
    intro hmem
    obtain ⟨b, hb, rfl⟩ := mem_map.mp hmem
    exact hk (hrep.validKey b hb)
  rw [or_iff_right habsent]
  cases hempty : isEmptyKey B k with
  | true =>
    rw [hrep.emptyKey k hempty, LawfulTraits.not_both k hempty]
    simp [hspecial]
  | false =>
    have hdelete : isDeleteKey B k = true := by
      by_contra hnot
      exact hk ((LawfulTraits.validKey_iff k).mpr ⟨hempty, by simpa using hnot⟩)
    rw [hrep.deleteKey k hdelete, hdelete]
    simp [hspecial]

lemma Inv.preserved (h : Inv hash t M W) (h' : Inv hash t' M W) : Preserved hash t t' := by
  refine ⟨fun k => (h'.find_eq k).trans (h.find_eq k).symm, fun s hs s' hs' hkey => ?_, fun s hs => ?_, ?_⟩
  · exact eq_of_key_eq h'.isMap.represents.bag.nodup hs.1 hs'.1 (occupied_eq_true.mpr hs.2)
      (occupied_eq_true.mpr hs'.2) hkey
  · have hwf := h'.geometry.layout.wf s hs.1 (Set.notMem_empty s)
    exact (LawfulTraits.validKey_iff _).mp (validKey_key hwf hs.2)
  · have hset : {k | t'.Stored k} = (W : Set (BitVec w)) := Set.ext fun k => h'.stored_iff k
    rw [hset, Set.ncard_coe_finset]
    exact h'.isMap.tally.keyCount_eq

/-- Damage shows: a key is not found any more, or is in two buckets. -/
lemma Damage.not_preserved (hinv : Inv hash t M W) (hgeometry : Geometry hash t')
    (hdamage : Damage (contents occupied t.bucket t.bucketCount)
      (contents occupied t'.bucket t'.bucketCount)) : ¬ Preserved hash t t' := by
  intro h
  have hrep := hinv.isMap.represents
  have hnodup := hrep.bag.nodup
  cases hdamage with
  | lost b hb heq =>
    rw [← heq, map_add, map_singleton, nodup_add] at hnodup
    have habsent := disjoint_singleton.mp hnodup.2.2
    have hmem : b ∈ contents occupied t.bucket t.bucketCount := by
      rw [← heq]
      exact mem_add.mpr (Or.inr (mem_singleton_self b))
    obtain ⟨hempty, hdelete⟩ := (LawfulTraits.validKey_iff _).mp (hrep.validKey b hmem)
    have hread := findBucketForRead_spec hgeometry (hrep.validKey b hmem)
    have hfind : t'.find hash (key b) = .notFound := by
      unfold find
      rw [hempty, hdelete]
      cases hres : t'.findBucketForRead hash (key b) with
      | none => rfl
      | some i =>
        rw [hres] at hread
        exact absurd (mem_keys_iff.mpr ⟨i, ⟨hread.1, hread.2.1⟩, hread.2.2⟩) habsent
    rw [h.find, hinv.find_eq, hrep.bag.entry_eq b hmem] at hfind
    exact status_ne_notFound hb hfind
  | left b hb hle =>
    have honce : ((contents occupied t'.bucket t'.bucketCount).map key).Nodup := by
      rw [contents_eq_map, map_map]
      refine Nodup.map_on (fun s hs s' hs' hkey => ?_) (Finset.nodup _)
      simp only [Finset.mem_val, Finset.mem_filter, Finset.mem_range] at hs hs'
      exact h.once s ⟨hs.1, occupied_eq_true.mp hs.2⟩ s' ⟨hs'.1, occupied_eq_true.mp hs'.2⟩ hkey
    have hsub := nodup_of_le (map_le_map hle) honce
    rw [map_add, map_singleton, nodup_add] at hsub
    exact disjoint_singleton.mp hsub.2.2 (mem_map_of_mem key hb)

/-- **`Shrink` loses nothing exactly if no `ReHash` gave up half-way**: neither `EvictionInsert` gave
up with a bucket in its hand, nor the second part after it had copied a bucket.  Kicks are to move
buckets as they are, and the search counter is not to come round. -/
theorem shrink_preserves_iff (hash : BitVec w → ℕ → BitVec w)
    {blockCount stretchBlocks occupancyPct maxNuHashFunc : ℕ} (hpos : 0 < blockCount)
    (hroom : (blockCount + stretchBlocks) * 4 < 2 ^ 32) (hocc : 0 < occupancyPct)
    (hle : occupancyPct ≤ 100) (xs : List (Write w V)) (hvalid : ∀ x ∈ xs, x.Valid B) (t : CuckooHashTable B S)
    (hrun : (mountForWrite blockCount stretchBlocks occupancyPct maxNuHashFunc :
      CuckooHashTable B S).run hash (xs.map .write) = some t) {pct : ℕ} (hpct : pct ≤ 100) (t' : CuckooHashTable B S)
    (hshrink : t.shrink hash pct = some (true, t')) (hcopies : ∀ ev ∈ t'.history, ev.Copies) :
    Preserved hash t t' ↔ ∀ ev ∈ t'.history, ev.IsMove := by
  have hvalid' : ∀ c ∈ xs.map Call.write, c.Valid B := by
    intro c hc
    obtain ⟨x, hx, rfl⟩ := List.mem_map.mp hc
    exact hvalid x hx
  have ht := run_runInv hpos hroom hocc hle _ t hvalid' hrun
  have htidied := shrink_tidied ht hpct hshrink
  obtain ⟨hnotes, hinv⟩ := run_writes_inv hpos xs t hvalid hrun
  replace hinv := hinv fun ev hev => hcopies ev (htidied.suffix.subset hev)
  constructor
  · intro hpreserved
    rcases htidied.outcome hcopies hinv.isMap.represents.bag.nodup with ⟨hmoves, -⟩ | ⟨-, hdamage⟩
    · exact hmoves.isMove hnotes
    · have hgeometry := htidied.runInv.geometry fun ev hev => (hcopies ev hev).keeps
      exact absurd hpreserved (hdamage.not_preserved hinv hgeometry)
  · intro hmove
    exact hinv.preserved (htidied.inv hinv fun ev hev =>
      Event.faithful_iff.mpr ⟨hcopies ev hev, hmove ev hev⟩)

/-! A table of five blocks with hash functions that all agree.  Keys from 10 on have the second block
of five, but the first of two. -/

def splitHash (key : BitVec 64) (_ : ℕ) : BitVec 64 := if key.toNat < 10 then 0 else 6

/-- The table after some writes. -/
def splitRun (xs : List (Write 64 (BitVec 64))) :
    Option (CuckooHashTable (KeyBucket 64 (BitVec 64)) (SpecialBucket 64 (BitVec 64))) :=
  (mountForWrite 5 0 80 8).run splitHash (xs.map .write)

def fourKeys : List (Write 64 (BitVec 64)) :=
  [.insert 1 11, .insert 2 12, .insert 11 13, .insert 12 14, .delete 2 none]

/-- Four keys, one of them deleted, fit one block: `Shrink` keeps all answers. -/
theorem shrink_preserves_four : ∃ t t', splitRun fourKeys = some t ∧ t.shrink splitHash 100 = some (true, t')
      ∧ t'.blockCount = 1 ∧ Preserved splitHash t t' := by
  have heval : ∃ t ∈ splitRun fourKeys, ∃ r ∈ t.shrink splitHash 100, r.1 = true ∧ r.2.blockCount = 1
      ∧ ∀ ev ∈ r.2.history, ev.Faithful := by
    decide +kernel
  obtain ⟨t, hrun, ⟨ok, t'⟩, hshrink, rfl, hblocks, hfaithful⟩ := heval
  have hvalid : ∀ x ∈ fourKeys, x.Valid (KeyBucket 64 (BitVec 64)) := by
    simp [fourKeys, Write.Valid, ValidValue]
  refine ⟨t, t', hrun, hshrink, hblocks, ?_⟩
  refine (shrink_preserves_iff splitHash (by decide) (by decide) (by decide) (by decide) fourKeys
    hvalid t hrun (by decide) t' hshrink fun ev hev => ?_).mpr fun ev hev => ?_
  · exact (hfaithful ev hev).copies
  · exact (Event.faithful_iff.mp (hfaithful ev hev)).2

/-- Five keys, which all have the first block of two. -/
def fiveKeys : List (Write 64 (BitVec 64)) := [.insert 1 11, .insert 2 12, .insert 3 13, .insert 11 14, .insert 12 15]

/-- **`Shrink` loses a key and returns `true`.**  In two blocks there is no place for the fifth key,
so `ReHash` fails; the key is in no bucket then, and the recovery does not bring it back. -/
theorem shrink_loses_key : ∃ t t', splitRun fiveKeys = some t ∧ t.shrink splitHash 100 = some (true, t')
      ∧ t.find splitHash 12 = .ok 15 ∧ t'.find splitHash 12 = .notFound ∧ t'.size = 5
      ∧ t'.blockCount = 5 := by
  have heval : ∃ t ∈ splitRun fiveKeys, ∃ r ∈ t.shrink splitHash 100, r.1 = true ∧ t.find splitHash 12 = .ok 15
      ∧ r.2.find splitHash 12 = .notFound ∧ r.2.size = 5 ∧ r.2.blockCount = 5 := by
    decide +kernel
  obtain ⟨t, hrun, ⟨ok, t'⟩, hshrink, rfl, hrest⟩ := heval
  exact ⟨t, t', hrun, hshrink, hrest⟩

/-! ## The two tables -/

/-- **Both tables are the same map.**  After the same writes, with any `Shrink` and `Stretch` in between, they answer
and count alike, if no kick changed a bucket and no rehash gave up half-way. -/
theorem find_eq_dense (hash : BitVec w → ℕ → BitVec w) {blockCount stretchBlocks pct maxNuHashFunc bucketCount pct' : ℕ}
    (hroom : 0 < blockCount ∧ (blockCount + stretchBlocks) * 4 < 2 ^ 32 ∧ 0 < bucketCount)
    (hpct : 0 < pct ∧ pct ≤ 100 ∧ 0 < pct' ∧ pct' < 100) (cs : List (Call w V)) (cs' : List (DenseHashTable.Call w V))
    (hvalid : (∀ c ∈ cs, c.Valid B) ∧ ∀ c ∈ cs', c.Valid B) (hwrites : writes cs = DenseHashTable.writes cs')
    (t : CuckooHashTable B S) (t' : DenseHashTable B S)
    (hrun : (mountForWrite blockCount stretchBlocks pct maxNuHashFunc).run hash cs = some t)
    (hrun' : (DenseHashTable.mountForWrite bucketCount pct').run cs' = some t')
    (hfaithful : ∀ ev ∈ t.history, ev.Faithful) :
    (∀ k, t.find hash k = t'.find k) ∧ t.size = t'.size ∧ t.getDeleteCount = t'.getDeleteCount := by
  have h := run_inv hroom.1 hroom.2.1 hpct.1 hpct.2.1 cs t hvalid.1 hrun hfaithful
  have h' := DenseHashTable.run_inv hroom.2.2 hpct.2.2.1 hpct.2.2.2 cs' t' hvalid.2 hrun'
  rw [← hwrites] at h'
  exact ⟨fun k => (h.find_eq k).trans (h'.find_eq k).symm,
    h.isMap.tally.keyCount_eq.trans h'.isMap.tally.keyCount_eq.symm,
    h.isMap.tally.deleteCount_eq.trans h'.isMap.tally.deleteCount_eq.symm⟩

/-- The dense table is shrunk, and the other is not. -/
theorem find_eq_dense_shrunk : ∃ t, splitRun (DenseHashTable.writes DenseHashTable.shrunkCalls) = some t
    ∧ ∃ t' : DenseHashTable (KeyBucket 64 (BitVec 64)) (SpecialBucket 64 (BitVec 64)),
      (DenseHashTable.mountForWrite 8 80).run DenseHashTable.shrunkCalls = some t' ∧ ∀ k, t.find splitHash k = t'.find k := by
  have heval : ∃ t ∈ splitRun (DenseHashTable.writes DenseHashTable.shrunkCalls),
      ∀ ev ∈ t.history, ev.Faithful := by decide +kernel
  obtain ⟨t, hrun, hfaithful⟩ := heval
  refine ⟨t, hrun, _, Option.eq_some_of_isSome (by decide +kernel), (find_eq_dense splitHash (by decide) (by decide) _ _
    ?_ rfl t _ hrun (Option.eq_some_of_isSome _) hfaithful).1⟩
  simp [DenseHashTable.shrunkCalls, DenseHashTable.writes, Call.Valid, DenseHashTable.Call.Valid, Write.Valid, ValidValue]

end CuckooHashTable

end Havenask
