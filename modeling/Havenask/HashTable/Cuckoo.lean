import Havenask.HashTable.Contract
import Havenask.Lib.ForLoop

/-!
# `CuckooHashTable`

Buckets in blocks of four.  Each hash function gives a key one block; a key may be in any of its
blocks, and is put into the first that has an empty bucket.  If none has, a breadth-first search
over the blocks of the keys that are in the way finds a chain of buckets to move (`CuckooKick`); if
that fails, the table begins to use one more hash function.

`Shrink` and `Stretch` rehash in place (`ReHash`), much as in `DenseHashTable`: a bitmap marks the
buckets that are done, and a bucket that is not done can be evicted from its place.

* **Hash functions.**  `CuckooHash` is a parameter, `hash key hashFuncId`.
* **Special keys** are diverted as in `DenseHashTable`.
* **Loops.**  A function that may loop for ever returns an `Option`, with `none` for that.  The
  fuel of the others is more than the rounds they make.
* **`history`** is not a field of the source: it notes what happened inside the calls, newest first,
  and nothing reads it.
-/

namespace Havenask

open Bucket ClosedHashTableTraits ForLoop

namespace Cuckoo

/-- What the calls leave a note of. -/
inductive Event (B : Type)
  /-- `CuckooKick` moved the bucket. -/
  | kick (b : B)
  /-- `++_curCallId` came round to 0. -/
  | wrap
  /-- `EvictionInsert` gave up and the bucket it held was lost. -/
  | lost (b : B)
  /-- `ReHash` gave up after it had copied the bucket. -/
  | left (b : B)

/-- `parent` is `none` for `BFS_ROOT_IDX`. -/
structure TreeNode where
  bucketId : ℕ
  parent : Option ℕ
  inBlockId : ℕ

/-- The state of a search: `bfsTree` and `_callIdVec`. -/
structure Search where
  tree : List TreeNode
  callIdVec : ℕ → ℕ

namespace Search

def marked (s : Search) (curCallId firstBucketId : ℕ) : Bool := decide (s.callIdVec (firstBucketId / 4) = curCallId)

def mark (s : Search) (curCallId firstBucketId : ℕ) : Search :=
  { s with callIdVec := Function.update s.callIdVec (firstBucketId / 4) curCallId }

def push (s : Search) (node : TreeNode) : Search := { s with tree := s.tree ++ [node] }

def node (s : Search) (idx : ℕ) : TreeNode := s.tree.getD idx ⟨0, none, 0⟩

section
variable (s : Search) (curCallId firstBucketId : ℕ) (n : TreeNode)

lemma mark_callIdVec_self : (s.mark curCallId firstBucketId).callIdVec (firstBucketId / 4) = curCallId :=
  Function.update_self ..

lemma mark_callIdVec_of_ne {i : ℕ} (h : i ≠ firstBucketId / 4) :
    (s.mark curCallId firstBucketId).callIdVec i = s.callIdVec i :=
  Function.update_of_ne h ..

@[simp] lemma push_callIdVec : (s.push n).callIdVec = s.callIdVec := rfl

end

end Search

def maxNumBfsTreeNode : ℕ := 1048576

def bFSDepth : ℕ := 100

/-! ## Blocks -/

variable {w : ℕ}

/-- Tables below 2^32 blocks use the lower half of the hash only. -/
def getFirstBucketIdInBlock (hash : BitVec w) (blockCount : ℕ) : ℕ :=
  if 2 ^ 32 - 1 < blockCount then hash.toNat % blockCount * 4
  else hash.toNat % 2 ^ 32 % blockCount * 4

/-- The first free bucket of a block, as its place in the block. -/
def findFree (free : ℕ → Bool) (firstBucketId : ℕ) : Option ℕ :=
  (forLoop (fun inBlockId (_ : Unit) =>
    if free (firstBucketId + inBlockId) then (some inBlockId, ()) else (none, ())) 4 0 ()).1

/-- The first free bucket of a block, with a 32-bit bucket counter.  The counter is compared with the
64-bit end of the block, which it reaches only if that is below 2^32; otherwise it comes round to 0
and goes on until it meets a free bucket. -/
def findFree32 (free : ℕ → Bool) (firstBucketId : ℕ) : Option (Option ℕ) :=
  if firstBucketId + 4 < 2 ^ 32 then some ((findFree free firstBucketId).map (firstBucketId + ·))
  else
    match (forLoop (fun i (_ : Unit) =>
        if free (i % 2 ^ 32) then (some (i % 2 ^ 32), ()) else (none, ()))
          (2 ^ 32) (firstBucketId % 2 ^ 32) ()).1 with
    | none => none
    | some curBucketId => some (some curBucketId)

/-! ## Searching -/

variable {B V : Type} [Bucket B w V] {α : Type}

/-- The loops over the four buckets of a node and over the hash functions of their keys. -/
def visitNode (m : ℕ → B) (firstBucketId : BitVec w → ℕ → ℕ) (nuHashFunc : ℕ)
    (visit : ℕ → ℕ → ℕ → Search → Option α × Search) (idx : ℕ) (s : Search) : Option α × Search :=
  let bucketId := (s.node idx).bucketId
  forLoop (fun inBlockId s =>
    let key := key (m (bucketId + inBlockId))
    forLoop (fun hashFuncId s => visit idx inBlockId (firstBucketId key hashFuncId) s)
      nuHashFunc 0 s) 4 0 s

/-- The outer loop of both searches. -/
def bfsLoop (visitNode : ℕ → Search → Option α × Search) : ℕ → ℕ → ℕ → ℕ → Search → Option α × Search
  | 0, _, _, _, s => (none, s)
  | fuel + 1, idx, nextDepthBeginIdx, nextDepth, s =>
    if s.tree.length ≤ idx then (none, s)
    else if idx = nextDepthBeginIdx then
      if bFSDepth < nextDepth + 1 then (none, s)
      else
        match visitNode idx s with
        | (some a, s') => (some a, s')
        | (none, s') => bfsLoop visitNode fuel (idx + 1) s.tree.length (nextDepth + 1) s'
    else
      match visitNode idx s with
      | (some a, s') => (some a, s')
      | (none, s') => bfsLoop visitNode fuel (idx + 1) nextDepthBeginIdx nextDepth s'

/-- The tree grows to `maxNumBfsTreeNode` nodes or to its roots, whichever is more. -/
def bfsFuel (nuHashFunc : ℕ) : ℕ := maxNumBfsTreeNode + nuHashFunc + 1

/-- A block met by `BFSFindBucket`: the search ends if it has an empty bucket. -/
def bfsVisit (m : ℕ → B) (curCallId idx inBlockId firstBucketId : ℕ) (s : Search) : Option ℕ × Search :=
  if s.marked curCallId firstBucketId then (none, s)
  else if maxNumBfsTreeNode ≤ s.tree.length then (none, s)
  else
    (findFree (fun i => isEmpty (m i)) firstBucketId,
      (s.mark curCallId firstBucketId).push ⟨firstBucketId, some idx, inBlockId⟩)

/-- A block met by `BFSFindBucketForEviction`: the search ends if it has a bucket that is empty or
not done, or never ends. -/
def evictionVisit (m : ℕ → B) (bitmap : ℕ → Bool) (curCallId idx inBlockId firstBucketId : ℕ)
    (s : Search) : Option (Option ℕ) × Search :=
  if s.marked curCallId firstBucketId then (none, s)
  else
    let s := s.mark curCallId firstBucketId
    let node : TreeNode := ⟨firstBucketId, some idx, inBlockId⟩
    match findFree32 (fun i => isEmpty (m i) || !bitmap i) firstBucketId with
    | none => (some none, s)
    | some (some curBucketId) => (some (some curBucketId), s.push node)
    | some none => (none, if s.tree.length < maxNumBfsTreeNode then s.push node else s)

/-- `CuckooKick`, from the node `emptyIdx` up to a root; returns the bucket that is now empty. -/
def cuckooKick (s : Search) : ℕ → ℕ → ℕ → (ℕ → B) → List (Event B) → ℕ × (ℕ → B) × List (Event B)
  | 0, emptyIdx, emptyInBlockId, m, history =>
    ((s.node emptyIdx).bucketId + emptyInBlockId, m, history)
  | fuel + 1, emptyIdx, emptyInBlockId, m, history =>
    match (s.node emptyIdx).parent with
    | none => ((s.node emptyIdx).bucketId + emptyInBlockId, m, history)
    | some prevIdx =>
      let prevInBlockId := (s.node emptyIdx).inBlockId
      let emptyBucket := (s.node emptyIdx).bucketId + emptyInBlockId
      let prevBucket := (s.node prevIdx).bucketId + prevInBlockId
      let m₁ := Function.update m emptyBucket (setBucket (m emptyBucket) (m prevBucket))
      let m₂ := Function.update m₁ prevBucket (setEmpty (m₁ prevBucket))
      cuckooKick s fuel prevIdx prevInBlockId m₂ (.kick (m prevBucket) :: history)

/-- `CuckooKick(bfsTree, emptyInBlockId)`, from the last node. -/
def kickLast (s : Search) (emptyInBlockId : ℕ) (m : ℕ → B) (history : List (Event B)) :
    ℕ × (ℕ → B) × List (Event B) :=
  cuckooKick s s.tree.length (s.tree.length - 1) emptyInBlockId m history

end Cuckoo

open Cuckoo

structure CuckooHashTable (B S : Type) where
  bucket : ℕ → B
  blockCount : ℕ
  nuHashFunc : ℕ
  maxNuHashFunc : ℕ
  occupancyPct : ℕ
  curCallId : ℕ
  callIdVec : ℕ → ℕ
  deleteCount : ℕ
  keyCount : ℕ
  /-- `stretchSize`, in blocks. -/
  stretchBlocks : ℕ
  emptyBucket : S
  deleteBucket : S
  history : List (Event B)

namespace CuckooHashTable

variable {B S V : Type} {w : ℕ} [Bucket B w V] [Bucket S w V] [ClosedHashTableTraits B S w]

/-- `MountForWrite`, on memory for `blockCount` blocks and another `stretchBlocks` to stretch. -/
def mountForWrite (blockCount stretchBlocks occupancyPct maxNuHashFunc : ℕ) : CuckooHashTable B S :=
  ⟨fun _ => new, blockCount, 2, maxNuHashFunc, occupancyPct, 0, fun _ => 0, 0, 0, stretchBlocks, new, new, []⟩

def bucketCount (t : CuckooHashTable B S) : ℕ := t.blockCount * 4

def size (t : CuckooHashTable B S) : ℕ := t.keyCount

def getDeleteCount (t : CuckooHashTable B S) : ℕ := t.deleteCount

variable (hash : BitVec w → ℕ → BitVec w) (t : CuckooHashTable B S)

/-- The first bucket of the block that a hash function gives a key. -/
def firstBucketId (key : BitVec w) (hashFuncId : ℕ) : ℕ :=
  getFirstBucketIdInBlock (hash key hashFuncId) t.blockCount

/-! ## Lookups -/

/-- `FindBucketForRead`.  The source writes the rounds of the first two hash functions out; they are
made whatever `nuHashFunc` is. -/
def findBucketForRead (key : BitVec w) : Option ℕ :=
  match (forLoop (fun hashFuncId (_ : Unit) =>
      forLoop (fun inBlockId (_ : Unit) =>
        let curBucket := t.firstBucketId hash key hashFuncId + inBlockId
        if isEmpty (t.bucket curBucket) then (some none, ())
        else if isEqual (t.bucket curBucket) key then (some (some curBucket), ())
        else (none, ())) 4 0 ()) (2 + (t.nuHashFunc - 2)) 0 ()).1 with
  | none => none
  | some result => result

def find (key : BitVec w) : Status V :=
  if !isEmptyKey B key && !isDeleteKey B key then
    match t.findBucketForRead hash key with
    | none => .notFound
    | some i => if isDeleted (t.bucket i) then .deleted else .ok (value (t.bucket i))
  else if isEmptyKey B key then status t.emptyBucket
  else status t.deleteBucket

/-! ## Writes -/

/-- The blocks of a key as roots of a search. -/
def roots (key : BitVec w) : List TreeNode :=
  (List.range t.nuHashFunc).map fun hashFuncId => ⟨t.firstBucketId hash key hashFuncId, none, 0⟩

/-- The `++_curCallId` that begins a search. -/
def nextCallId : CuckooHashTable B S :=
  { t with
    curCallId := (t.curCallId + 1) % 2 ^ 32
    history := if (t.curCallId + 1) % 2 ^ 32 = 0 then .wrap :: t.history else t.history }

variable (bfsTree : List TreeNode)

/-- The search with its roots marked. -/
def startSearch : Search :=
  bfsTree.foldl (fun s node => s.mark t.curCallId node.bucketId) ⟨bfsTree, t.callIdVec⟩

/-- The search of `BFSFindBucket`, for a place in the last block of the tree. -/
def bfsSearch : Option ℕ × Search :=
  bfsLoop (visitNode t.bucket (t.firstBucketId hash) t.nuHashFunc (bfsVisit t.bucket t.curCallId))
    (bfsFuel t.nuHashFunc) 0 0 0 (t.startSearch bfsTree)

/-- The kick at its end. -/
def bfsFinish : Option ℕ × Search → Option ℕ × CuckooHashTable B S
  | (none, s) => (none, { t with callIdVec := s.callIdVec })
  | (some inCurBlockId, s) =>
    let kicked := kickLast s inCurBlockId t.bucket t.history
    (some kicked.1, { t with callIdVec := s.callIdVec, bucket := kicked.2.1, history := kicked.2.2 })

def bFSFindBucket : Option ℕ × CuckooHashTable B S :=
  t.nextCallId.bfsFinish (t.nextCallId.bfsSearch hash bfsTree)

def doInternalFindBucket (key : BitVec w) : Option ℕ × CuckooHashTable B S :=
  match forLoop (fun hashFuncId (retBucket : Option ℕ) =>
      forLoop (fun inBlockId (retBucket : Option ℕ) =>
        let curBucket := t.firstBucketId hash key hashFuncId + inBlockId
        if isEqual (t.bucket curBucket) key then (some curBucket, retBucket)
        else if isEmpty (t.bucket curBucket) && retBucket.isNone then (none, some curBucket)
        else (none, retBucket)) 4 0 retBucket) t.nuHashFunc 0 none with
  | (some curBucket, _) => (some curBucket, t)
  | (none, some retBucket) => (some retBucket, t)
  | (none, none) => t.bFSFindBucket hash (t.roots hash key)

/-- The loop of `InternalFindBucket`: one more hash function whenever there is no bucket. -/
def internalFindLoop (key : BitVec w) : ℕ → CuckooHashTable B S → Option ℕ × CuckooHashTable B S
  | 0, t => (none, t)
  | fuel + 1, t =>
    match t.doInternalFindBucket hash key with
    | (some retBucket, t) => (some retBucket, t)
    | (none, t) =>
      if t.maxNuHashFunc ≤ t.nuHashFunc then (none, t)
      else internalFindLoop key fuel { t with nuHashFunc := t.nuHashFunc + 1 }

def internalFindBucket (key : BitVec w) : Option ℕ × CuckooHashTable B S :=
  internalFindLoop hash key (t.maxNuHashFunc + 1) t

/-- `InternalInsert`, with the functor of an insert or a delete. -/
def internalInsert (x : Write w V) : Bool × CuckooHashTable B S :=
  if isEmptyKey B x.key then
    (true, { t with
      emptyBucket := (x.apply t.emptyBucket t.deleteCount).1
      deleteCount := (x.apply t.emptyBucket t.deleteCount).2
      keyCount := if isEmpty t.emptyBucket then t.keyCount + 1 else t.keyCount })
  else if isDeleteKey B x.key then
    (true, { t with
      deleteBucket := (x.apply t.deleteBucket t.deleteCount).1
      deleteCount := (x.apply t.deleteBucket t.deleteCount).2
      keyCount := if isEmpty t.deleteBucket then t.keyCount + 1 else t.keyCount })
  else
    match t.internalFindBucket hash x.key with
    | (none, t) => (false, t)
    | (some i, t) =>
      (true, { t with
        bucket := Function.update t.bucket i (x.apply (t.bucket i) t.deleteCount).1
        deleteCount := (x.apply (t.bucket i) t.deleteCount).2
        keyCount := if isEmpty (t.bucket i) then t.keyCount + 1 else t.keyCount })

protected def insert (key : BitVec w) (value : V) :
    Bool × CuckooHashTable B S :=
  t.internalInsert hash (.insert key value)

def delete (key : BitVec w) (value : Option V) : Bool × CuckooHashTable B S :=
  t.internalInsert hash (.delete key value)

/-! ## Rehashing -/

/-- The search of `BFSFindBucketForEviction`, for a bucket; `some none` if a 32-bit bucket counter
never reaches the end of its block. -/
def evictionSearch (bitmap : ℕ → Bool) :
    Option (Option ℕ) × Search :=
  bfsLoop (visitNode t.bucket (t.firstBucketId hash) t.nuHashFunc
    (evictionVisit t.bucket bitmap t.curCallId)) (bfsFuel t.nuHashFunc) 0 0 0
    (t.startSearch bfsTree)

/-- The kick at its end.  The place in the block that is handed to `CuckooKick` is a 32-bit
difference. -/
def evictionFinish (bitmap : ℕ → Bool) :
    Option (Option ℕ) × Search → Option (Option ℕ × CuckooHashTable B S × (ℕ → Bool))
  | (none, s) => some (none, { t with callIdVec := s.callIdVec }, bitmap)
  | (some none, _) => none
  | (some (some curBucketId), s) =>
    let firstBucketId := (s.node (s.tree.length - 1)).bucketId
    let kicked := kickLast s ((curBucketId + 2 ^ 64 - firstBucketId) % 2 ^ 32) t.bucket t.history
    -- a bucket that is not done is handed on in the bucket that was freed for it
    let m := if isEmpty (t.bucket curBucketId) then kicked.2.1
      else Function.update kicked.2.1 kicked.1 (t.bucket curBucketId)
    some (some kicked.1, { t with callIdVec := s.callIdVec, bucket := m, history := kicked.2.2 },
      Function.update bitmap curBucketId true)

def bFSFindBucketForEviction
    (bitmap : ℕ → Bool) : Option (Option ℕ × CuckooHashTable B S × (ℕ → Bool)) :=
  t.nextCallId.evictionFinish bitmap (t.nextCallId.evictionSearch hash bfsTree bitmap)

/-- A round of `FindBucketForEviction`: the block of a hash function. -/
def evictionScan (key : BitVec w) (bitmap : ℕ → Bool)
    (hashFuncId : ℕ) (_ : Unit) : Option (Option ℕ) × Unit :=
  match findFree32 (fun i => isEmpty (t.bucket i) || !bitmap i)
      (t.firstBucketId hash key hashFuncId) with
  | none => (some none, ())
  | some (some curBucketId) => (some (some curBucketId), ())
  | some none => (none, ())

def findBucketForEviction (key : BitVec w) (bitmap : ℕ → Bool) :
    Option (Option ℕ × CuckooHashTable B S × (ℕ → Bool)) :=
  match (forLoop (t.evictionScan hash key bitmap) t.nuHashFunc 0 ()).1 with
  | some none => none
  | some (some curBucketId) => some (some curBucketId, t, Function.update bitmap curBucketId true)
  | none => t.bFSFindBucketForEviction hash (t.roots hash key) bitmap

/-- The loop of `EvictionInsert`.  Every round that goes on marks a bucket or adds a hash
function. -/
def evictionInsert : ℕ → B → CuckooHashTable B S → (ℕ → Bool) → Option (Bool × CuckooHashTable B S × (ℕ → Bool))
  | 0, _, _, _ => none
  | fuel + 1, seekingBucket, t, bitmap =>
    match t.findBucketForEviction hash (key seekingBucket) bitmap with
    | none => none
    | some (none, t, bitmap) =>
      if t.maxNuHashFunc ≤ t.nuHashFunc then
        some (false, { t with history := .lost seekingBucket :: t.history }, bitmap)
      else evictionInsert fuel seekingBucket { t with nuHashFunc := t.nuHashFunc + 1 } bitmap
    | some (some i, t, bitmap) =>
      if isEmpty (t.bucket i) then
        some (true, { t with bucket := Function.update t.bucket i seekingBucket }, bitmap)
      else
        evictionInsert fuel (t.bucket i)
          { t with bucket := Function.update t.bucket i seekingBucket } bitmap

def evictionFuel : ℕ := t.bucketCount + t.maxNuHashFunc + 2

/-- How a part of `ReHash` ends before its time. -/
inductive Stop
  | hangs
  | fails

/-- A round of the first part of `ReHash`: a bucket of the new region. -/
def rehashHead (i : ℕ) (st : CuckooHashTable B S × (ℕ → Bool)) : Option Stop × CuckooHashTable B S × (ℕ → Bool) :=
  let (t, bitmap) := st
  if bitmap i then (none, t, bitmap)
  else if isEmpty (t.bucket i) then (none, t, Function.update bitmap i true)
  else
    match evictionInsert hash t.evictionFuel (t.bucket i)
        { t with bucket := Function.update t.bucket i new } (Function.update bitmap i true) with
    | none => (some .hangs, t, bitmap)
    | some (false, t, bitmap) => (some .fails, t, bitmap)
    | some (true, t, bitmap) => (none, t, bitmap)

/-- A round of the second part of `ReHash`: a bucket of the old region only.  The buckets copied so
far are kept for the note that is made if it fails. -/
def rehashTail (i : ℕ) (st : CuckooHashTable B S × List B) : Option Stop × CuckooHashTable B S × List B :=
  let (t, copied) := st
  if isEmpty (t.bucket i) then (none, t, copied)
  else
    match t.internalFindBucket hash (key (t.bucket i)) with
    | (none, t) =>
      (some .fails, { t with history := copied.map Event.left ++ t.history }, copied)
    | (some newBucket, t) =>
      (none, { t with bucket := Function.update t.bucket newBucket (t.bucket i) }, t.bucket i :: copied)

/-- The table at the beginning of a rehash. -/
def startReHash (newBlockCount : ℕ) : CuckooHashTable B S :=
  { t with
    blockCount := newBlockCount
    nuHashFunc := 2
    callIdVec := fun _ => 0
    curCallId := 0 }

/-- `ReHash(newBlockCount * BLOCK_SIZE)`. -/
def reHash (newBlockCount : ℕ) : Option (Bool × CuckooHashTable B S) :=
  match forLoop (rehashHead hash) (newBlockCount * 4) 0
      (t.startReHash newBlockCount, fun _ => false) with
  | (some .hangs, _) => none
  | (some .fails, t', _) => some (false, { t' with blockCount := t.blockCount })
  | (none, t', _) =>
    match forLoop (rehashTail hash) (t.blockCount * 4 - newBlockCount * 4) (newBlockCount * 4)
        (t', []) with
    | (some _, t'', _) => some (false, { t'' with blockCount := t.blockCount })
    | (none, t'', _) => some (true, t'')

/-- The occupancy `Shrink` works with: its argument, or the table's own for 0. -/
def targetPct (occupancyPct : ℕ) : ℕ :=
  if 0 < occupancyPct then occupancyPct else t.occupancyPct

/-- The `newBucketCount` of `Shrink`, in blocks. -/
def newBlockCount (occupancyPct : ℕ) : ℕ :=
  (capacityToBucketCount t.size (t.targetPct occupancyPct) + 4 - 1) / 4

/-- `Shrink`.  When `ReHash` has failed, it is called again with the old bucket count. -/
def shrink (occupancyPct : ℕ) : Option (Bool × CuckooHashTable B S) :=
  if t.blockCount ≤ t.newBlockCount occupancyPct then some (true, t)
  else
    match t.reHash hash (t.newBlockCount occupancyPct) with
    | none => none
    | some (true, t') => some (true, { t' with occupancyPct := t.targetPct occupancyPct })
    | some (false, t') => t'.reHash hash t.blockCount

/-- The table with new buckets in the space that was set aside for a stretch. -/
def startStretch : CuckooHashTable B S :=
  { t with
    stretchBlocks := 0
    bucket := fun i =>
      if t.blockCount * 4 ≤ i ∧ i < (t.stretchBlocks + t.blockCount) * 4 then new
      else t.bucket i }

def stretch : Option (Bool × CuckooHashTable B S) :=
  if t.stretchBlocks + t.blockCount ≤ t.blockCount then some (true, t)
  else t.startStretch.reHash hash (t.stretchBlocks + t.blockCount)

/-! ## Runs -/

/-- A call on a mounted table. -/
inductive Call (w : ℕ) (V : Type)
  | write (x : Write w V)
  | shrink (occupancyPct : ℕ)
  | stretch

/-- A value that can be inserted, an occupancy that `Shrink` takes. -/
def Call.Valid (B : Type) [Bucket B w V] [LawfulBucket B] : Call w V → Prop
  | .write x => x.Valid B
  | .shrink occupancyPct => occupancyPct ≤ 100
  | .stretch => True

/-- The writes among the calls. -/
def writes (cs : List (Call w V)) : List (Write w V) :=
  cs.filterMap fun
    | .write x => some x
    | _ => none

def call : Call w V → Option (Bool × CuckooHashTable B S)
  | .write x => some (t.internalInsert hash x)
  | .shrink occupancyPct => t.shrink hash occupancyPct
  | .stretch => t.stretch hash

/-- A sequence of calls that all return `true`. -/
def run (cs : List (Call w V)) : Option (CuckooHashTable B S) :=
  cs.foldlM (fun t c =>
    match t.call hash c with
    | some (true, t) => some t
    | _ => none) t

end CuckooHashTable

end Havenask
