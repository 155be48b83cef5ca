import Havenask.HashTable.CuckooSearch

/-!
# `CuckooHashTable::InternalFindBucket`

The occupied buckets of a table are laid out so that a reader may give up at an empty bucket
(`Geometry`).  `InternalFindBucket` finds the bucket of the key, or makes a slot ready for it, and
then the layout is kept when the slot is filled (`internalFindBucket_spec`).

What it does in any case, whatever the state of the table (`FindFrame`), is kept apart from what it
finds if nothing spoiled the layout on the way (`FindSpec`).
-/

namespace Havenask

open Bucket LawfulBucket ForLoop BlockPlacement Cuckoo

namespace CuckooHashTable

variable {B S V : Type} {w : ℕ} [Bucket B w V] (hash : BitVec w → ℕ → BitVec w)

/-! ## Blocks -/

lemma blocks_firstBucketId (t : CuckooHashTable B S) (hpos : 0 < t.blockCount) :
    Blocks (t.firstBucketId hash) t.bucketCount := by
  have hblock : ∀ x, x < t.blockCount → 4 ∣ x * 4 ∧ x * 4 + 4 ≤ t.blockCount * 4 := by
    intro x hx
    omega
  intro k j
  unfold firstBucketId getFirstBucketIdInBlock bucketCount
  split_ifs
  · exact hblock _ (Nat.mod_lt _ hpos)
  · exact hblock _ (Nat.mod_lt _ hpos)

lemma bucketCount_congr {t t' : CuckooHashTable B S} (h : t'.blockCount = t.blockCount) :
    t'.bucketCount = t.bucketCount := by
  rw [bucketCount, h, bucketCount]

lemma firstBucketId_congr {t t' : CuckooHashTable B S} (h : t'.blockCount = t.blockCount) :
    t'.firstBucketId hash = t.firstBucketId hash := by
  unfold firstBucketId
  rw [h]

variable (m : ℕ → B)

def occupiedSlots (N : ℕ) : Set ℕ := {s | s < N ∧ isEmpty (m s) = false}

lemma freeOk_isEmpty (N : ℕ) : FreeOk (fun i => isEmpty (m i)) (occupiedSlots m N) N :=
  fun _ hs => ⟨fun h => ⟨hs, h⟩, fun h => h.2⟩

/-! ## Searches -/

/-- The marks of earlier searches are below the counter. -/
structure CallIds (t : CuckooHashTable B S) : Prop where
  lt : t.curCallId < 2 ^ 32
  le : ∀ i, t.callIdVec i ≤ t.curCallId

variable {t : CuckooHashTable B S} {k : BitVec w}

/-- The counter has moved on, unless it came round. -/
lemma nextCallId_spec (h : t.CallIds) (hkeeps : ∀ ev ∈ t.nextCallId.history, ev.Keeps) :
    t.nextCallId.curCallId = t.curCallId + 1 ∧ t.curCallId + 1 < 2 ^ 32 := by
  have hne : (t.curCallId + 1) % 2 ^ 32 ≠ 0 := by
    intro hwrap
    refine hkeeps .wrap ?_
    rw [nextCallId, if_pos hwrap]
    exact List.mem_cons_self
  have hlt := h.lt
  have hle : t.curCallId + 1 < 2 ^ 32 := by
    by_contra hnot
    have heq : t.curCallId + 1 = 2 ^ 32 := by omega
    rw [heq, Nat.mod_self] at hne
    exact hne rfl
  exact ⟨Nat.mod_eq_of_lt hle, hle⟩

lemma moves_nextCallId (t : CuckooHashTable B S) : Moves t.history t.nextCallId.history := by
  unfold nextCallId
  split_ifs
  · exact Moves.cons _ trivial
  · exact Moves.refl _

lemma foldl_mark_spec (c : ℕ) (ns : List TreeNode) :
    ∀ s : Search, (ns.foldl (fun s n => s.mark c n.bucketId) s).tree = s.tree
    ∧ (∀ i, (ns.foldl (fun s n => s.mark c n.bucketId) s).callIdVec i = s.callIdVec i
      ∨ ((ns.foldl (fun s n => s.mark c n.bucketId) s).callIdVec i = c
        ∧ ∃ n ∈ ns, n.bucketId / 4 = i))
    ∧ ∀ i, (s.callIdVec i = c ∨ ∃ n ∈ ns, n.bucketId / 4 = i) →
      (ns.foldl (fun s n => s.mark c n.bucketId) s).callIdVec i = c := by
  induction ns with
  | nil => exact fun s => ⟨rfl, fun i => Or.inl rfl, fun i h => h.resolve_right (by simp)⟩
  | cons n ns ih =>
    intro s
    obtain ⟨htree, hcases, hmarked⟩ := ih (s.mark c n.bucketId)
    refine ⟨htree, fun i => ?_, fun i h => ?_⟩
    · rcases hcases i with hsame | ⟨hc, n', hn', hi⟩
      · by_cases hi : i = n.bucketId / 4
        · rw [hi, Search.mark_callIdVec_self] at hsame
          exact Or.inr ⟨hi ▸ hsame, n, List.mem_cons_self, hi.symm⟩
        · rw [Search.mark_callIdVec_of_ne _ _ _ hi] at hsame
          exact Or.inl hsame
      · exact Or.inr ⟨hc, n', List.mem_cons_of_mem n hn', hi⟩
    · refine hmarked i ?_
      by_cases hi : i = n.bucketId / 4
      · exact Or.inl (by rw [hi, Search.mark_callIdVec_self])
      rw [Search.mark_callIdVec_of_ne _ _ _ hi]
      refine h.imp_right fun ⟨n', hn', heq⟩ => ⟨n', ?_, heq⟩
      exact (List.mem_cons.mp hn').resolve_left fun hn => hi (by rw [← heq, hn])

/-- The search for a key in a table. -/
def problem (t : CuckooHashTable B S) (taken : Set ℕ) (k : BitVec w) : Problem B w :=
  ⟨t.firstBucketId hash, t.nuHashFunc, t.bucket, taken, k, t.curCallId⟩

/-- A search begins right if the blocks of its key are full. -/
lemma startSearch_ok {taken : Set ℕ} (hblocks : Blocks (t.firstBucketId hash) t.bucketCount)
    (hids : ∀ i, t.callIdVec i < t.curCallId) (hroots : ∀ j < t.nuHashFunc, Full taken (t.firstBucketId hash k j)) :
    SearchOk (t.problem hash taken k) (t.startSearch (t.roots hash k)) := by
  obtain ⟨htree, hcases, hmarked⟩ := foldl_mark_spec t.curCallId (t.roots hash k) ⟨t.roots hash k, t.callIdVec⟩
  have hroot : ∀ n ∈ t.roots hash k, n.parent = none
      ∧ ∃ j < t.nuHashFunc, n.bucketId = t.firstBucketId hash k j := by
    intro n hn
    obtain ⟨j, hj, rfl⟩ := List.mem_map.mp hn
    exact ⟨rfl, j, List.mem_range.mp hj, rfl⟩
  have hmem : ∀ n, n ∈ (t.startSearch (t.roots hash k)).tree → n ∈ t.roots hash k := by
    intro n hn
    rwa [startSearch, htree] at hn
  refine ⟨fun idx n hget => ?_, fun n hn => ?_, fun n hn => ?_, fun b hb hm => ?_, fun i => ?_⟩
  · obtain ⟨hparent, j, hj, hblock⟩ := hroot n (hmem n (List.mem_of_getElem? hget))
    refine ⟨?_, fun _ => ⟨j, hj, hblock⟩, fun p hp => ?_⟩
    · rw [hblock]
      exact (hblocks k j).1
    · rw [hparent] at hp
      cases hp
  · obtain ⟨-, j, hj, hblock⟩ := hroot n (hmem n hn)
    rw [hblock]
    exact hroots j hj
  · exact hmarked _ (Or.inr ⟨n, hmem n hn, rfl⟩)
  · rcases hcases (b / 4) with hsame | ⟨-, n, hn, hdiv⟩
    · have hlt := hids (b / 4)
      have hm' : t.callIdVec (b / 4) = t.curCallId := hsame.symm.trans hm
      omega
    · obtain ⟨-, j, hj, hblock⟩ := hroot n hn
      have hdvd := (hblocks k j).1
      obtain rfl : b = t.firstBucketId hash k j := by omega
      exact hroots j hj
  · rcases hcases i with hsame | ⟨hc, -⟩
    · exact hsame.le.trans (hids i).le
    · exact hc.le

/-! ## `InternalFindBucket` -/

/-- The fields that a search for a bucket leaves alone. -/
def rest (t : CuckooHashTable B S) : (ℕ × ℕ × ℕ) × (ℕ × ℕ × ℕ) × S × S :=
  ((t.blockCount, t.maxNuHashFunc, t.occupancyPct), (t.deleteCount, t.keyCount, t.stretchBlocks),
    t.emptyBucket, t.deleteBucket)

/-- The two tables differ in what a search may change. -/
def Same (t t' : CuckooHashTable B S) : Prop := t'.rest = t.rest

namespace Same

variable {t t' t'' : CuckooHashTable B S}

section
variable (h : Same t t')
include h

lemma trans (h' : Same t' t'') : Same t t'' := Eq.trans h' h

lemma blockCount : t'.blockCount = t.blockCount := congrArg (·.1.1) h

lemma occupancyPct : t'.occupancyPct = t.occupancyPct := congrArg (·.1.2.2) h

lemma deleteCount : t'.deleteCount = t.deleteCount := congrArg (·.2.1.1) h

lemma keyCount : t'.keyCount = t.keyCount := congrArg (·.2.1.2.1) h

lemma stretchBlocks : t'.stretchBlocks = t.stretchBlocks := congrArg (·.2.1.2.2) h

lemma emptyBucket : t'.emptyBucket = t.emptyBucket := congrArg (·.2.2.1) h

lemma deleteBucket : t'.deleteBucket = t.deleteBucket := congrArg (·.2.2.2) h

end

end Same

/-- What the functions that look for a bucket do to a table in any case. -/
structure FindFrame (t : CuckooHashTable B S) (r : Option ℕ × CuckooHashTable B S) : Prop where
  same : Same t r.2
  moves : Moves t.history r.2.history
  nu_le : t.nuHashFunc ≤ r.2.nuHashFunc
  bucket_of_none : r.1 = none → r.2.bucket = t.bucket

lemma FindFrame.suffix {r : Option ℕ × CuckooHashTable B S}
    (h : FindFrame t r) : t.history <:+ r.2.history := h.moves.suffix

section
variable (t : CuckooHashTable B S)

lemma FindFrame.rfl (r : Option ℕ) : FindFrame t (r, t) :=
  ⟨Eq.refl _, Moves.refl _, le_rfl, fun _ => Eq.refl _⟩

lemma bFSFindBucket_frame (tree : List TreeNode) :
    FindFrame t (t.bFSFindBucket hash tree) := by
  unfold bFSFindBucket
  generalize t.nextCallId.bfsSearch hash tree = r
  obtain ⟨_ | c, s⟩ := r
  · exact ⟨rfl, moves_nextCallId t, le_rfl, fun _ => rfl⟩
  · exact ⟨rfl, (moves_nextCallId t).trans (moves_cuckooKick _ _ _ _ _ _), le_rfl, nofun⟩

lemma doInternalFindBucket_frame (k : BitVec w) :
    FindFrame t (t.doInternalFindBucket hash k) := by
  unfold doInternalFindBucket
  split
  · exact FindFrame.rfl t _
  · exact FindFrame.rfl t _
  · exact t.bFSFindBucket_frame hash _

end

lemma internalFindLoop_frame (k : BitVec w) (fuel : ℕ) :
    ∀ t : CuckooHashTable B S, FindFrame t (internalFindLoop hash k fuel t) := by
  induction fuel with
  | zero => exact fun t => FindFrame.rfl t none
  | succ fuel ih =>
    intro t
    have hdo := t.doInternalFindBucket_frame hash k
    rw [internalFindLoop]
    generalize t.doInternalFindBucket hash k = r at hdo
    obtain ⟨_ | i, t'⟩ := r
    · simp only
      split_ifs
      · exact hdo
      have hrest := ih { t' with nuHashFunc := t'.nuHashFunc + 1 }
      exact ⟨hdo.same.trans hrest.same, hdo.moves.trans hrest.moves,
        hdo.nu_le.trans (le_trans (Nat.le_succ _) hrest.nu_le),
        fun hnone => (hrest.bucket_of_none hnone).trans (hdo.bucket_of_none rfl)⟩
    · exact hdo

lemma internalFindBucket_frame {k : BitVec w} {r} (hr : t.internalFindBucket hash k = r) :
    FindFrame t r :=
  hr ▸ internalFindLoop_frame hash k _ t

variable [LawfulBucket B]

/-- Where a key goes: to the bucket it has, or to a slot that was made ready for it. -/
inductive SlotFor (t t' : CuckooHashTable B S) (k : BitVec w) (i : ℕ) : Prop
  | found (hbucket : t'.bucket = t.bucket) (hi : i < t.bucketCount)
      (hocc : isEmpty (t.bucket i) = false) (hkey : key (t.bucket i) = k)
  | opened (e : ℕ)
      (habsent : ∀ s ∈ occupiedSlots t.bucket t.bucketCount, key (t.bucket s) ≠ k)
      (hopened : Opened (t.firstBucketId hash) t.bucketCount t'.nuHashFunc t.bucket
        (occupiedSlots t.bucket t.bucketCount) k e i t'.bucket t'.history)
      (hemptied : Emptied (t'.bucket i))

lemma SlotFor.congr {t t₁ t' : CuckooHashTable B S} {i : ℕ}
    (hcount : t₁.blockCount = t.blockCount) (hbucket : t₁.bucket = t.bucket)
    (h : SlotFor hash t₁ t' k i) : SlotFor hash t t' k i := by
  cases h with
  | found hb hi hocc hkey =>
    rw [hbucket] at hb hocc hkey
    rw [bucketCount_congr hcount] at hi
    exact .found hb hi hocc hkey
  | opened e habsent hopened hemptied =>
    rw [hbucket, bucketCount_congr hcount] at habsent hopened
    rw [firstBucketId_congr hash hcount] at hopened
    exact .opened e habsent hopened hemptied

/-- What they find, unless something spoiled it. -/
def FindSpec (t : CuckooHashTable B S) (k : BitVec w) (r : Option ℕ × CuckooHashTable B S) : Prop :=
  (∀ ev ∈ r.2.history, ev.Keeps) → CallIds r.2 ∧ ∀ i, r.1 = some i → SlotFor hash t r.2 k i

/-- The geometry of a table: how its buckets lie. -/
structure Geometry (t : CuckooHashTable B S) : Prop where
  pos : 0 < t.blockCount
  nu : 2 ≤ t.nuHashFunc
  layout : Layout (t.firstBucketId hash) t.bucketCount t.nuHashFunc t.bucket
    (occupiedSlots t.bucket t.bucketCount) ∅
  callIds : CallIds t

variable {hash}

omit [LawfulBucket B] in
/-- Unless the counter came round, the marks of a new search are its own. -/
lemma nextCallId_started {taken : Set ℕ} (hids : CallIds t) (hblocks : Blocks (t.firstBucketId hash) t.bucketCount)
    (hroots : ∀ j < t.nuHashFunc, Full taken (t.firstBucketId hash k j))
    (hkeeps : ∀ ev ∈ t.nextCallId.history, ev.Keeps) : CallIds t.nextCallId
    ∧ SearchOk (t.nextCallId.problem hash taken k) (t.nextCallId.startSearch (t.nextCallId.roots hash k)) := by
  obtain ⟨hnext, hlt⟩ := nextCallId_spec hids hkeeps
  have hlt' : ∀ i, t.callIdVec i < t.nextCallId.curCallId := fun i => by
    have := hids.le i
    omega
  exact ⟨⟨by omega, fun i => (hlt' i).le⟩, startSearch_ok hash (t := t.nextCallId) hblocks hlt' hroots⟩

lemma bFSFindBucket_spec (h : Geometry hash t) (hroots : ∀ j < t.nuHashFunc,
      Full (occupiedSlots t.bucket t.bucketCount) (t.firstBucketId hash k j))
    (habsent : ∀ s ∈ occupiedSlots t.bucket t.bucketCount, key (t.bucket s) ≠ k) :
    FindSpec hash t k (t.bFSFindBucket hash (t.roots hash k)) := by
  have hblocks := t.blocks_firstBucketId hash h.pos
  set taken := occupiedSlots t.bucket t.bucketCount
  set P := t.nextCallId.problem hash taken k
  -- unless the counter came round, the search is right
  have hsearch : (∀ ev ∈ t.nextCallId.history, ev.Keeps) →
      CallIds t.nextCallId ∧ Post (SearchOk P)
        (fun c s => ∃ e, some ((s.node (s.tree.length - 1)).bucketId + c) = some e ∧ Found P s e)
        (t.nextCallId.bfsSearch hash (t.roots hash k)) := by
    intro hkeeps
    obtain ⟨hids, hstart⟩ := nextCallId_started h.callIds hblocks hroots hkeeps
    exact ⟨hids, bfsLoop_spec (P := P) (bfsVisit_ok (P := P) hblocks (freeOk_isEmpty t.bucket _)) _ 0 0 0 _ hstart⟩
  unfold bFSFindBucket
  generalize t.nextCallId.bfsSearch hash (t.roots hash k) = r at hsearch
  obtain ⟨_ | c, s⟩ := r
  · intro hkeeps
    obtain ⟨hids, hok⟩ := hsearch hkeeps
    exact ⟨⟨hids.lt, hok.bound⟩, fun i hi => by cases hi⟩
  intro hkeeps
  have hsuffix : t.nextCallId.history <:+ (kickLast s c t.bucket t.nextCallId.history).2.2 :=
    (moves_cuckooKick s _ _ c t.bucket _).suffix
  obtain ⟨hids, e, he, hfound⟩ := hsearch fun ev hev => hkeeps ev (hsuffix.subset hev)
  refine ⟨⟨hids.lt, hfound.bound⟩, fun i hi => ?_⟩
  obtain rfl := Option.some.inj hi
  obtain ⟨hopened, hemptied⟩ := hfound.opened (P := P) hblocks h.layout hroots
    t.nextCallId.history (Option.some.inj he) hkeeps
  exact .opened e habsent hopened hemptied

/-! ### The scan of the blocks of a key

The two loops over the hash functions and over the buckets of a block go through the positions
`p = 4 * hashFuncId + inBlockId`. -/

def slotAt (first : ℕ → ℕ) (p : ℕ) : ℕ := first (p / 4) + p % 4

lemma slotAt_eq (first : ℕ → ℕ) {j c : ℕ} (hc : c < 4) : slotAt first (4 * j + c) = first j + c := by
  rw [slotAt, show (4 * j + c) / 4 = j by omega, show (4 * j + c) % 4 = c by omega]

/-- The slots before a position are occupied, and none has the key. -/
def Passed (first : ℕ → ℕ) (k : BitVec w) (p : ℕ) : Prop :=
  ∀ q < p, isEmpty (m (slotAt first q)) = false ∧ isEqual (m (slotAt first q)) k = false

omit [LawfulBucket B] in
lemma Passed.at {m : ℕ → B} {first : ℕ → ℕ} {p : ℕ} (h : Passed m first k p)
    {j c : ℕ} (hc : c < 4) (hlt : 4 * j + c < p) :
    isEmpty (m (first j + c)) = false ∧ isEqual (m (first j + c)) k = false := by
  have hq := h _ hlt
  rwa [slotAt_eq first hc] at hq

/-- What the scan of `DoInternalFindBucket` returns. -/
inductive ScanCases (m : ℕ → B) (first : ℕ → ℕ) (nu : ℕ) (k : BitVec w) : Option ℕ × Option ℕ → Prop
  | found (p : ℕ) (ret : Option ℕ) (hp : p < 4 * nu) (hocc : isEmpty (m (slotAt first p)) = false)
      (hkey : isEqual (m (slotAt first p)) k = true) : ScanCases m first nu k
        (some (slotAt first p), ret)
  | free (p : ℕ) (r : Option ℕ × Option ℕ) (hp : p < 4 * nu)
      (hempty : isEmpty (m (slotAt first p)) = true) (hpassed : Passed m first k p)
      (hr : r.1.or r.2 = some (slotAt first p)) : ScanCases m first nu k r
  | full (hpassed : Passed m first k (4 * nu)) : ScanCases m first nu k (none, none)

/-- What the scan has in hand at the position `p`: the first empty bucket, if there was one. -/
def ScanInv (first : ℕ → ℕ) (k : BitVec w) (p : ℕ) : Option ℕ → Prop
  | none => Passed m first k p
  | some i => ∃ q < p, i = slotAt first q ∧ isEmpty (m i) = true ∧ Passed m first k q

omit [LawfulBucket B] in
/-- An empty bucket is a new one, so one that has the key is the first that is empty. -/
lemma scan_cases (m : ℕ → B) (first : ℕ → ℕ) (nu : ℕ) (k : BitVec w)
    (hfresh : ∀ p < 4 * nu, isEmpty (m (slotAt first p)) = true → m (slotAt first p) = new) : ScanCases m first nu k
      (forLoop (fun j (ret : Option ℕ) =>
        forLoop (fun c (ret : Option ℕ) =>
          let i := first j + c
          if isEqual (m i) k then (some i, ret)
          else if isEmpty (m i) && ret.isNone then (none, some i)
          else (none, ret)) 4 0 ret) nu 0 none) := by
  have hrule := forLoop_nested_rule
    (f := fun j c (ret : Option ℕ) =>
      if isEqual (m (first j + c)) k then (some (first j + c), ret)
      else if isEmpty (m (first j + c)) && ret.isNone then (none, some (first j + c))
      else (none, ret))
    (fun p ret => (∀ q < p, isEqual (m (slotAt first q)) k = false) ∧ ScanInv m first k p ret)
    (fun i ret => ScanCases m first nu k (some i, ret)) nu 4 ?_ (s := none)
    ⟨fun q hq => absurd hq (Nat.not_lt_zero q), fun q hq => absurd hq (Nat.not_lt_zero q)⟩
  · generalize forLoop _ nu 0 none = r at hrule ⊢
    obtain ⟨_ | i, ret⟩ := r
    · obtain ⟨-, hret⟩ := hrule
      cases ret with
      | none => exact .full hret
      | some i =>
        obtain ⟨q, hq, rfl, hempty, hpassed⟩ := hret
        exact .free q _ hq hempty hpassed rfl
    · exact hrule
  rintro j c ret hj hc ⟨hunequal, hret⟩
  have hp : 4 * j + c < 4 * nu := by omega
  have hslot := slotAt_eq first (j := j) hc
  cases hequal : isEqual (m (first j + c)) k with
  | true =>
    simp only [if_true]
    cases hempty : isEmpty (m (first j + c)) with
    | false =>
      rw [← hslot] at hempty hequal ⊢
      exact .found _ ret hp hempty hequal
    | true =>
      rw [← hslot] at hempty hequal ⊢
      refine .free _ _ hp hempty ?_ rfl
      cases ret with
      | none => exact hret
      | some i =>
        -- an empty bucket passed before would have had the key as well
        obtain ⟨q, hq, rfl, hemptyq, -⟩ := hret
        have hq' := hunequal q hq
        rw [hfresh q (by omega) hemptyq, ← hfresh _ hp hempty, hequal] at hq'
        cases hq'
  | false =>
    simp only [Bool.false_eq_true, if_false]
    have hunequal' : ∀ q < 4 * j + c + 1, isEqual (m (slotAt first q)) k = false := by
      intro q hq
      rcases Nat.lt_succ_iff_lt_or_eq.mp hq with hlt | rfl
      · exact hunequal q hlt
      · rw [hslot, hequal]
    cases hempty : isEmpty (m (first j + c)) with
    | false =>
      simp only [Bool.false_and, Bool.false_eq_true, if_false]
      refine ⟨hunequal', ?_⟩
      cases ret with
      | none =>
        intro q hq
        rcases Nat.lt_succ_iff_lt_or_eq.mp hq with hlt | rfl
        · exact hret q hlt
        · rw [hslot]
          exact ⟨hempty, hequal⟩
      | some i =>
        obtain ⟨q, hq, hrest⟩ := hret
        exact ⟨q, by omega, hrest⟩
    | true =>
      cases ret with
      | none =>
        simp only [Option.isNone_none, Bool.and_self, if_true]
        refine ⟨hunequal', 4 * j + c, by omega, hslot.symm, hempty, hret⟩
      | some i =>
        simp only [Option.isNone_some, Bool.and_false, Bool.false_eq_true, if_false]
        obtain ⟨q, hq, hrest⟩ := hret
        exact ⟨hunequal', q, by omega, hrest⟩

/-! ### What it finds -/

namespace Geometry

variable {t : CuckooHashTable B S} {k : BitVec w} {p : ℕ}

section
variable (h : Geometry hash t)
include h

lemma blocks : Blocks (t.firstBucketId hash) t.bucketCount := t.blocks_firstBucketId hash h.pos

lemma slotAt_lt (k : BitVec w) (p : ℕ) : slotAt (t.firstBucketId hash k) p < t.bucketCount := by
  have := (h.blocks k (p / 4)).2
  unfold slotAt
  omega

lemma key_ne (hk : ValidKey B k) {s : ℕ} (hs : s < t.bucketCount)
    (hocc : isEmpty (t.bucket s) = false) (hne : isEqual (t.bucket s) k = false) : key (t.bucket s) ≠ k := by
  intro heq
  rw [(isEqual_iff (h.layout.wf s hs (Set.notMem_empty s)) hocc hk).mpr heq] at hne
  cases hne

lemma full_of_passed (hpassed : Passed t.bucket (t.firstBucketId hash k) k p) {j : ℕ} (hj : 4 * j + 4 ≤ p) :
    Full (occupiedSlots t.bucket t.bucketCount) (t.firstBucketId hash k j) := by
  intro c hc
  have := (h.blocks k j).2
  exact ⟨by omega, (hpassed.at hc (by omega)).1⟩

/-- A key that was not met before the first empty slot is nowhere. -/
lemma absent_of_free (hk : ValidKey B k) (hempty : isEmpty (t.bucket (slotAt (t.firstBucketId hash k) p)) = true)
    (hpassed : Passed t.bucket (t.firstBucketId hash k) k p) :
    ∀ s ∈ occupiedSlots t.bucket t.bucketCount, key (t.bucket s) ≠ k := by
  have hlt : ∀ j c, c < 4 → t.firstBucketId hash k j + c < t.bucketCount := fun j c hc => by
    have := (h.blocks k j).2
    omega
  refine h.layout.arranged.not_mem_of_free (fun j => (h.blocks k j).1) (j := p / 4) (c := p % 4)
    (Nat.mod_lt p (by omega)) (fun hmem => ?_) (fun j' hj' c' hc' => ?_) fun c' hc' => ?_
  · rw [slotAt, hmem.2] at hempty
    cases hempty
  · obtain ⟨hocc, hne⟩ := hpassed.at (j := j') hc' (by omega)
    exact h.key_ne hk (hlt j' c' hc') hocc hne
  · have hc4 : c' < 4 := lt_trans hc' (Nat.mod_lt p (by omega))
    obtain ⟨hocc, hne⟩ := hpassed.at (j := p / 4) hc4 (by omega)
    exact h.key_ne hk (hlt _ c' hc4) hocc hne

/-- A key that is in none of its blocks is nowhere. -/
lemma absent_of_passed (hk : ValidKey B k) {n : ℕ} (hn : t.nuHashFunc ≤ n)
    (hpassed : Passed t.bucket (t.firstBucketId hash k) k (4 * n)) :
    ∀ s ∈ occupiedSlots t.bucket t.bucketCount, key (t.bucket s) ≠ k := by
  refine h.layout.arranged.not_mem_of_all fun j hj c hc => ?_
  obtain ⟨hocc, hne⟩ := hpassed.at (j := j) hc (by omega)
  have := (h.blocks k j).2
  exact h.key_ne hk (by omega) hocc hne

/-- The first empty slot on the way of a key is ready for it. -/
lemma slotFor_of_free (hk : ValidKey B k) (hp : p < 4 * t.nuHashFunc)
    (hempty : isEmpty (t.bucket (slotAt (t.firstBucketId hash k) p)) = true)
    (hpassed : Passed t.bucket (t.firstBucketId hash k) k p) :
    SlotFor hash t t k (slotAt (t.firstBucketId hash k) p) := by
  have hmod : p % 4 < 4 := Nat.mod_lt p (by omega)
  refine .opened (slotAt (t.firstBucketId hash k) p) (h.absent_of_free hk hempty hpassed) ?_
    ⟨h.layout.wf _ (h.slotAt_lt k p) (Set.notMem_empty _), hempty⟩
  refine Opened.direct h.layout h.blocks (j := p / 4) (by omega)
    (fun j' hj' => h.full_of_passed hpassed (by omega)) ?_ t.history
  refine ⟨Nat.le_add_right _ _, Nat.add_lt_add_left hmod _, fun hmem => ?_, fun s hle hlt => ?_⟩
  · rw [hmem.2] at hempty
    cases hempty
  obtain ⟨c, rfl⟩ := Nat.exists_eq_add_of_le hle
  have hc : c < p % 4 := by
    unfold slotAt at hlt
    omega
  have := (h.blocks k (p / 4)).2
  exact ⟨by omega, (hpassed.at (by omega) (by omega)).1⟩

end

end Geometry

lemma doInternalFindBucket_spec (h : Geometry hash t)
    (hk : ValidKey B k) : FindSpec hash t k (t.doInternalFindBucket hash k) := by
  have hscan := scan_cases t.bucket (t.firstBucketId hash k) t.nuHashFunc k
    fun p _ => h.layout.fresh _ (h.slotAt_lt k p) (Set.notMem_empty _)
  unfold doInternalFindBucket
  generalize forLoop _ t.nuHashFunc 0 none = r at hscan
  cases hscan with
  | found p ret hp hocc hkey =>
    refine fun _ => ⟨h.callIds, fun i hi => ?_⟩
    obtain rfl := Option.some.inj hi
    have hlt := h.slotAt_lt k p
    exact .found rfl hlt hocc ((isEqual_iff (h.layout.wf _ hlt (Set.notMem_empty _)) hocc hk).mp hkey)
  | free p r hp hempty hpassed hr =>
    have hslot := h.slotFor_of_free hk hp hempty hpassed
    obtain ⟨_ | i, _ | ret⟩ := r
    · cases hr
    all_goals
      refine fun _ => ⟨h.callIds, fun i hi => ?_⟩
      rw [Option.some.inj hi.symm, Option.some.inj hr]
      exact hslot
  | full hpassed =>
    exact bFSFindBucket_spec h (fun j hj => h.full_of_passed hpassed (by omega))
      (h.absent_of_passed hk le_rfl hpassed)

lemma Geometry.addHashFunc {t t' : CuckooHashTable B S} (h : Geometry hash t) (hsame : Same t t')
    (hbucket : t'.bucket = t.bucket) (hnu : t.nuHashFunc ≤ t'.nuHashFunc) (hids : CallIds t') :
    Geometry hash { t' with nuHashFunc := t'.nuHashFunc + 1 } := by
  refine ⟨lt_of_lt_of_eq h.pos hsame.blockCount.symm, ?_, ?_, ⟨hids.lt, hids.le⟩⟩
  · have := h.nu
    show 2 ≤ t'.nuHashFunc + 1
    omega
  show Layout (t'.firstBucketId hash) t'.bucketCount (t'.nuHashFunc + 1) t'.bucket
    (occupiedSlots t'.bucket t'.bucketCount) ∅
  rw [firstBucketId_congr hash hsame.blockCount, bucketCount_congr hsame.blockCount, hbucket]
  exact h.layout.mono (by omega)

lemma internalFindLoop_spec (hk : ValidKey B k) (fuel : ℕ) :
    ∀ t : CuckooHashTable B S, Geometry hash t → FindSpec hash t k (internalFindLoop hash k fuel t) := by
  induction fuel with
  | zero => exact fun t h _ => ⟨h.callIds, fun i hi => by cases hi⟩
  | succ fuel ih =>
    intro t h
    have hframe := t.doInternalFindBucket_frame hash k
    have hdo := doInternalFindBucket_spec h hk
    rw [internalFindLoop]
    generalize t.doInternalFindBucket hash k = r at hframe hdo
    obtain ⟨_ | i, t'⟩ := r
    · simp only
      split_ifs
      · exact hdo
      intro hkeeps
      have hsuffix := (internalFindLoop_frame hash k fuel
        { t' with nuHashFunc := t'.nuHashFunc + 1 }).suffix
      obtain ⟨hids, -⟩ := hdo fun ev hev => hkeeps ev (hsuffix.subset hev)
      have hbucket := hframe.bucket_of_none rfl
      obtain ⟨hids', hslot⟩ := ih _ (h.addHashFunc hframe.same hbucket hframe.nu_le hids) hkeeps
      refine ⟨hids', fun i hi => SlotFor.congr hash ?_ ?_ (hslot i hi)⟩
      · exact hframe.same.blockCount
      · exact hbucket
    · exact hdo

/-- **`InternalFindBucket`** finds the bucket of a key or makes a slot ready for it. -/
lemma internalFindBucket_spec (h : Geometry hash t)
    (hk : ValidKey B k) : FindSpec hash t k (t.internalFindBucket hash k) :=
  internalFindLoop_spec hk _ t h

end CuckooHashTable

end Havenask
