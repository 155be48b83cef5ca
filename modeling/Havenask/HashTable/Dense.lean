import Havenask.HashTable.Contract

/-!
# `DenseHashTable`

Linear probing over one array of buckets, with tombstones.  The table never rehashes to grow; it
can only `Shrink`, in place: the buckets of the new region are taken out one by one and put back
where the new bucket count sends them, evicting what stands there and has not been looked at yet
(`bitmap`), and then the buckets behind the new region are copied into it.

The template has two specialisations, without and with special keys.  They are one definition here:
`ClosedHashTableTraits` says which keys are diverted to the two special buckets, and without special
keys it is none.  The special buckets stand behind the last bucket in memory; `Shrink` saves them and
writes them back behind the new last bucket, so here they are fields of their own.

The probe counters for logging are left out.
-/

namespace Havenask

open Bucket ClosedHashTableTraits

structure DenseHashTable (B S : Type) where
  bucket : ℕ → B
  bucketCount : ℕ
  occupancyPct : ℕ
  deleteCount : ℕ
  keyCount : ℕ
  emptyBucket : S
  deleteBucket : S

namespace DenseHashTable

variable {B S V : Type} {w : ℕ} [Bucket B w V] [Bucket S w V] [ClosedHashTableTraits B S w]

/-- `MountForWrite`, on memory for `bucketCount` buckets. -/
def mountForWrite (bucketCount occupancyPct : ℕ) : DenseHashTable B S :=
  ⟨fun _ => new, bucketCount, occupancyPct, 0, 0, new, new⟩

variable (t : DenseHashTable B S)

def size : ℕ := t.keyCount

def getDeleteCount : ℕ := t.deleteCount

/-! ## Probing -/

/-- `Probe`: the next bucket, and whether there is one that was not visited. -/
def probe (probeCount bucketId bucketCount : ℕ) : Bool × ℕ × ℕ :=
  let probeCount := probeCount + 1
  let bucketId := bucketId + 1
  let bucketId := if bucketCount ≤ bucketId then bucketId % bucketCount else bucketId
  (decide (probeCount < bucketCount), probeCount, bucketId)

/-- The loop of `InternalFindBucket`.  `Probe` ends it after `bucketCount` rounds. -/
def findLoop (m : ℕ → B) (bucketCount : ℕ) (key : BitVec w) : ℕ → ℕ → ℕ → Option ℕ
  | 0, _, _ => none
  | rounds + 1, probeCount, bucketId =>
    if isEmpty (m bucketId) || isEqual (m bucketId) key then some bucketId
    else
      match probe probeCount bucketId bucketCount with
      | (false, _, _) => none
      | (true, probeCount, bucketId) => findLoop m bucketCount key rounds probeCount bucketId

/-- `InternalFindBucket` in the first `bucketCount` buckets: the bucket of the key, or the first
empty one on its probe sequence. -/
def findIn (m : ℕ → B) (bucketCount : ℕ) (key : BitVec w) : Option ℕ :=
  findLoop m bucketCount key bucketCount 0 (key.toNat % bucketCount)

def internalFindBucket (key : BitVec w) : Option ℕ := findIn t.bucket t.bucketCount key

/-! ## Lookups -/

def find (key : BitVec w) : Status V :=
  if !isEmptyKey B key && !isDeleteKey B key then
    match t.internalFindBucket key with
    | none => .notFound
    | some bucketId => status (t.bucket bucketId)
  else if isEmptyKey B key then status t.emptyBucket
  else status t.deleteBucket

/-- `FindForReadWrite`.  Both specialisations call the one of the base class. -/
def findForReadWrite (key : BitVec w) : Status V :=
  match t.internalFindBucket key with
  | none => .notFound
  | some bucketId =>
    if isEmpty (t.bucket bucketId) then .notFound
    else
      match deletedOrValue (t.bucket bucketId) with
      | (true, _) => .deleted
      | (false, tmpValue) => .ok tmpValue

/-! ## Writes -/

/-- `InternalInsert`, with the functor of an insert or a delete. -/
def internalInsert (x : Write w V) : Bool × DenseHashTable B S :=
  if isEmptyKey B x.key then
    (true, { t with
      emptyBucket := (x.apply t.emptyBucket t.deleteCount).1
      deleteCount := (x.apply t.emptyBucket t.deleteCount).2
      keyCount := if isEmpty t.emptyBucket then t.keyCount + 1 else t.keyCount })
  else if isDeleteKey B x.key then
    (true, { t with
      deleteBucket := (x.apply t.deleteBucket t.deleteCount).1
      deleteCount := (x.apply t.deleteBucket t.deleteCount).2
      keyCount := if isEmpty t.deleteBucket then t.keyCount + 1 else t.keyCount })
  else
    match t.internalFindBucket x.key with
    | none => (false, t)
    | some bucketId =>
      (true, { t with
        bucket := Function.update t.bucket bucketId
          (x.apply (t.bucket bucketId) t.deleteCount).1
        deleteCount := (x.apply (t.bucket bucketId) t.deleteCount).2
        keyCount := if isEmpty (t.bucket bucketId) then t.keyCount + 1 else t.keyCount })

protected def insert (key : BitVec w) (value : V) : Bool × DenseHashTable B S :=
  t.internalInsert (.insert key value)

def delete (key : BitVec w) (value : Option V) : Bool × DenseHashTable B S :=
  t.internalInsert (.delete key value)

/-! ## Shrinking -/

/-- The loop of `EvictionInsert`.  Its own two limits end it, after `(bucketCount + 1) ^ 2` rounds at
the latest. -/
def evictionLoop (bucketCount : ℕ) : ℕ → (ℕ → B) → (ℕ → Bool) → B → ℕ → ℕ → ℕ → Bool × (ℕ → B) × (ℕ → Bool)
  | 0, m, bitmap, _, _, _, _ => (false, m, bitmap)
  | rounds + 1, m, bitmap, seekingBucket, bucketId, probeCount, evictionCount =>
    if isEmpty (m bucketId) then
      (true, Function.update m bucketId seekingBucket, Function.update bitmap bucketId true)
    else if bitmap bucketId then
      match probe probeCount bucketId bucketCount with
      | (false, _, _) => (false, m, bitmap)
      | (true, probeCount, bucketId) =>
        evictionLoop bucketCount rounds m bitmap seekingBucket bucketId probeCount evictionCount
    else
      let evictedBucket := m bucketId
      if bucketCount < evictionCount + 1 then
        (false, Function.update m bucketId seekingBucket, Function.update bitmap bucketId true)
      else
        evictionLoop bucketCount rounds (Function.update m bucketId seekingBucket)
          (Function.update bitmap bucketId true) evictedBucket
          ((key evictedBucket).toNat % bucketCount) 0 (evictionCount + 1)

def evictionInsert (bucketCount : ℕ) (m : ℕ → B) (bitmap : ℕ → Bool) (firstSeekingBucket : B) :
    Bool × (ℕ → B) × (ℕ → Bool) :=
  evictionLoop bucketCount ((bucketCount + 1) * (bucketCount + 1)) m bitmap firstSeekingBucket
    ((key firstSeekingBucket).toNat % bucketCount) 0 0

/-- First part of `Shrink`: the buckets of the new region. -/
def shrinkHead (newBucketCount : ℕ) : List ℕ → (ℕ → B) → (ℕ → Bool) → Bool × (ℕ → B) × (ℕ → Bool)
  | [], m, bitmap => (true, m, bitmap)
  | i :: is, m, bitmap =>
    if bitmap i then shrinkHead newBucketCount is m bitmap
    else if isEmpty (m i) then
      shrinkHead newBucketCount is m (Function.update bitmap i true)
    else
      match evictionInsert newBucketCount (Function.update m i new)
          (Function.update bitmap i true) (m i) with
      | (false, m, bitmap) => (false, m, bitmap)
      | (true, m, bitmap) => shrinkHead newBucketCount is m bitmap

/-- Second part of `Shrink`: the buckets behind the new region, copied into it. -/
def shrinkTail (newBucketCount : ℕ) : List ℕ → (ℕ → B) → Bool × (ℕ → B)
  | [], m => (true, m)
  | i :: is, m =>
    if isEmpty (m i) then shrinkTail newBucketCount is m
    else
      match findIn m newBucketCount (key (m i)) with
      | none => (false, m)
      | some newBucket => shrinkTail newBucketCount is (Function.update m newBucket (m i))

/-- The occupancy `Shrink` works with: its argument, or the table's own for 0. -/
def targetPct (occupancyPct : ℕ) : ℕ :=
  if 0 < occupancyPct then occupancyPct else t.occupancyPct

/-- The `newBucketCount` of `Shrink`. -/
def newBucketCount (occupancyPct : ℕ) : ℕ :=
  capacityToBucketCount t.size (t.targetPct occupancyPct)

def shrink (occupancyPct : ℕ) : Bool × DenseHashTable B S :=
  if t.bucketCount ≤ t.newBucketCount occupancyPct then (true, t)
  else
    match shrinkHead (t.newBucketCount occupancyPct) (List.range (t.newBucketCount occupancyPct))
        t.bucket fun _ => false with
    | (false, m, _) => (false, { t with bucket := m })
    | (true, m, _) =>
      match shrinkTail (t.newBucketCount occupancyPct)
          (List.range' (t.newBucketCount occupancyPct)
            (t.bucketCount - t.newBucketCount occupancyPct)) m with
      | (false, m) => (false, { t with bucket := m })
      | (true, m) =>
        (true, { t with
          bucket := m
          bucketCount := t.newBucketCount occupancyPct
          occupancyPct := t.targetPct occupancyPct })

/-! ## Runs -/

/-- A call on a mounted table. -/
inductive Call (w : ℕ) (V : Type)
  | write (x : Write w V)
  | shrink (occupancyPct : ℕ)

/-- A value that can be inserted, an occupancy that `Shrink` takes. -/
def Call.Valid (B : Type) [Bucket B w V] [LawfulBucket B] : Call w V → Prop
  | .write x => x.Valid B
  | .shrink occupancyPct => occupancyPct < 100

/-- The writes among the calls. -/
def writes (cs : List (Call w V)) : List (Write w V) :=
  cs.filterMap fun
    | .write x => some x
    | .shrink _ => none

def call : Call w V → Bool × DenseHashTable B S
  | .write x => t.internalInsert x
  | .shrink occupancyPct => t.shrink occupancyPct

/-- A sequence of calls that all return `true`. -/
def run (cs : List (Call w V)) : Option (DenseHashTable B S) :=
  cs.foldlM (fun t c => if (t.call c).1 then some (t.call c).2 else none) t

end DenseHashTable

end Havenask
