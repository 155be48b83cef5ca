import Mathlib.Data.List.Basic
import Mathlib.Tactic.NormNum

/-!
# The dynamic search tree

`inverted_index/builtin_index/dynamic/DynamicSearchTree.cpp` and `DynamicSearchTreeNode.cpp`: a B+ tree
of docids, each with a flag for deletion. One thread writes it while others read.

A leaf is changed in place as long as it has room; a full one is replaced by two. The old leaf stays
readable for the iterators that stand on it, so that leaves live in a heap, at addresses, and keep their
links. Internal nodes are seen only by a search that starts at the root: they are values, with the depth
as an index, and at depth 0 a node is the address of a leaf.

The array of a node is the list of its used slots. The component `dropped` of a tree records whether
`CopyAndInsert` took the branch that leaves the two new children out.
-/

namespace Havenask.DynamicSearchTree

/-! ## Keys and leaves -/

/-- `KeyType`, a `ComplexDocId`; only the docids are compared. -/
structure KeyType where
  docId : ℤ
  isDelete : Bool
  deriving DecidableEq

/-- The constructor of `ComplexDocId`: 31 bits for the docid. -/
def KeyType.new (docId : ℤ) (isDelete : Bool) : KeyType := ⟨docId % 2 ^ 31, isDelete⟩

/-- `MaxSlot()`: the node keeps 4 bits of the shift. -/
def maxSlot (maxSlotShift : ℕ) : ℕ := 2 ^ (maxSlotShift % 16)

/-- `INVALID_SLOTID`. -/
def invalidSlotId : ℕ := 2 ^ 16 - 1

structure LeafNode where
  keys : List KeyType
  prevLeaf : Option ℕ
  nextLeaf : Option ℕ

variable (leaf : LeafNode)

/-- `Key(idx)`; a slot that is not in use is zero. -/
def LeafNode.key (idx : ℕ) : KeyType := leaf.keys.getD idx ⟨0, false⟩

/-- The leaves allocated so far, at the addresses below `count`. -/
structure LeafHeap where
  count : ℕ
  leaf : ℕ → LeafNode

variable (heap : LeafHeap)

def LeafHeap.update (addr : ℕ) (f : LeafNode → LeafNode) : LeafHeap :=
  { heap with leaf := Function.update heap.leaf addr (f (heap.leaf addr)) }

/-- An update through a pointer that may be null. -/
def LeafHeap.update? (addr : Option ℕ) (f : LeafNode → LeafNode) : LeafHeap :=
  match addr with
  | none => heap
  | some addr => heap.update addr f

/-- `AllocateLeafNode`. -/
def LeafHeap.allocate (leaf : LeafNode) : LeafHeap :=
  ⟨heap.count + 1, Function.update heap.leaf heap.count leaf⟩

lemma LeafHeap.update_leaf (addr : ℕ) (f : LeafNode → LeafNode) (b : ℕ) :
    (heap.update addr f).leaf b = if b = addr then f (heap.leaf addr) else heap.leaf b :=
  Function.update_apply ..

lemma LeafHeap.allocate_leaf (leaf : LeafNode) (b : ℕ) :
    (heap.allocate leaf).leaf b = if b = heap.count then leaf else heap.leaf b :=
  Function.update_apply ..

lemma LeafHeap.allocate_count (leaf : LeafNode) : (heap.allocate leaf).count = heap.count + 1 := rfl

/-- `LeafNode::InsertKey`: an equal key is overwritten, greater ones are shifted. -/
def insertKey : List KeyType → KeyType → List KeyType
  | [], key => [key]
  | k :: keys, key =>
    if key.docId < k.docId then key :: k :: keys
    else if k.docId = key.docId then key :: keys
    else k :: insertKey keys key

/-- `GetSlot<LeafNode>`: the first slot whose key is not below the key. -/
def getSlot (keys : List KeyType) (key : KeyType) : Option ℕ := keys.findIdx? fun k => key.docId ≤ k.docId

/-- `LeafNode::Split` for a key that the leaf does not have. -/
def splitKeys (maxSlot : ℕ) (keys : List KeyType) (key : KeyType) : List KeyType × List KeyType :=
  let i := (getSlot keys key).getD keys.length
  let mid := maxSlot / 2
  if mid ≤ i then
    ((keys.take mid).take mid, ((keys.take i).drop mid ++ key :: keys.drop i).take (mid + 1))
  else
    ((keys.take i ++ key :: (keys.take (mid - 1)).drop i).take mid, (keys.drop (mid - 1)).take (mid + 1))

/-! ## Internal nodes -/

/-- A node at a depth: the address of a leaf, or separators and children. -/
def SearchNode : ℕ → Type
  | 0 => ℕ
  | d + 1 => List ℤ × List (SearchNode d)

/-- What `InsertDescend` does to a node: it stays at its address, it is replaced by `splitNode1`, or it
is replaced by two nodes with a key between them. -/
inductive Grown (ν : Type) : Type
  | inPlace (node : ν)
  | replaced (node : ν)
  | two (node1 : ν) (key : ℤ) (node2 : ν)

/-- `FindChildSlot`; also the slot that `CopyAndInsert` and `InternalNode::Split` look for. -/
def findChildSlot (keys : List ℤ) (key : ℤ) : ℕ := keys.findIdx fun k => key ≤ k

/-- `CopyAndInsert`, and whether it leaves the children out. -/
def copyAndInsert {ν : Type} (maxSlot : ℕ) (keys : List ℤ) (children : List ν) (key : ℤ)
    (child1 child2 : ν) : (List ℤ × List ν) × Bool :=
  let i := findChildSlot keys key
  if keys[i]? = some key then ((keys, children), true)
  else
    ((keys.take i ++ key :: (if i + 1 < maxSlot then keys.drop i else []),
      children.take i ++ child1 :: child2 ::
        (if i + 1 < maxSlot then children.drop (i + 1) else [])), false)

/-- `InternalNode::Split`: the two nodes and the key between them. -/
def splitNode {ν : Type} (maxSlot : ℕ) (keys : List ℤ) (children : List ν) (key : ℤ)
    (child1 child2 : ν) : (List ℤ × List ν) × ℤ × (List ℤ × List ν) :=
  let i := findChildSlot keys key
  let mid := maxSlot / 2
  if i = mid then
    ((keys.take mid, children.take mid ++ [child1]), key,
      ((keys.drop mid).take mid, child2 :: children.drop (mid + 1)))
  else if i < mid then
    (((keys.take i ++ key :: (keys.take (mid - 1)).drop i).take mid,
        children.take i ++ child1 :: child2 :: (children.take mid).drop (i + 1)),
      keys.getD (mid - 1) 0, ((keys.drop mid).take mid, children.drop mid))
  else
    ((keys.take mid, children.take (mid + 1)), keys.getD mid 0,
      (((keys.take i).drop (mid + 1) ++ key :: keys.drop i).take mid,
        (children.take i).drop (mid + 1) ++ child1 :: child2 :: children.drop (i + 1)))

/-! ## Insertion -/

/-- The part of `InsertDescend` that replaces a full leaf by two, which are linked in its place. -/
def splitLeaf (maxSlot : ℕ) (heap : LeafHeap) (addr : ℕ) (key : KeyType) : LeafHeap × Grown ℕ :=
  let leaf := heap.leaf addr
  let parts := splitKeys maxSlot leaf.keys key
  let newNode1 := heap.count
  let newNode2 := heap.count + 1
  let heap := heap.allocate ⟨parts.1, leaf.prevLeaf, some newNode2⟩
  let heap := heap.allocate ⟨parts.2, some newNode1, leaf.nextLeaf⟩
  let heap := heap.update? leaf.nextLeaf fun next => { next with prevLeaf := some newNode2 }
  let heap := heap.update? leaf.prevLeaf fun prev => { prev with nextLeaf := some newNode1 }
  (heap, .two newNode1 ((heap.leaf newNode2).key 0).docId newNode2)

/-- The part of `InsertDescend` for a leaf. -/
def insertLeaf (maxSlot : ℕ) (heap : LeafHeap) (addr : ℕ) (key : KeyType) : LeafHeap × Grown ℕ :=
  let leaf := heap.leaf addr
  if leaf.keys.length < maxSlot then
    (heap.update addr fun leaf => { leaf with keys := insertKey leaf.keys key }, .inPlace addr)
  else
    match getSlot leaf.keys key with
    | none => splitLeaf maxSlot heap addr key
    | some i =>
      if (leaf.key i).docId = key.docId then
        (heap.update addr fun leaf => { leaf with keys := leaf.keys.set i key }, .inPlace addr)
      else splitLeaf maxSlot heap addr key

/-- `InsertDescend`, and whether children were left out. -/
def insertDescend (maxSlot : ℕ) (heap : LeafHeap) :
    (d : ℕ) → SearchNode d → KeyType → LeafHeap × Grown (SearchNode d) × Bool
  | 0, addr, key =>
    let inserted := insertLeaf maxSlot heap addr key
    (inserted.1, inserted.2, false)
  | d + 1, (keys, children), key =>
    let idx := findChildSlot keys key.docId
    match children[idx]? with
    | none => (heap, .inPlace (keys, children), false)
    | some child =>
      let inserted := insertDescend maxSlot heap d child key
      match inserted.2.1 with
      | .inPlace child => (inserted.1, .inPlace (keys, children.set idx child), inserted.2.2)
      | .replaced child => (inserted.1, .inPlace (keys, children.set idx child), inserted.2.2)
      | .two child1 splitKey child2 =>
        if keys.length < maxSlot then
          let copied := copyAndInsert maxSlot keys children splitKey child1 child2
          (inserted.1, .replaced copied.1, inserted.2.2 || copied.2)
        else
          let split := splitNode maxSlot keys children splitKey child1 child2
          (inserted.1, .two split.1 split.2.1 split.2.2, inserted.2.2)

structure Tree where
  maxSlotShift : ℕ
  heap : LeafHeap
  root : Option ((d : ℕ) × SearchNode d)
  maxDocId : ℤ
  minDocId : ℤ
  docCount : ℕ
  dropped : Bool

def Tree.new (maxSlotShift : ℕ) : Tree := ⟨maxSlotShift, ⟨0, fun _ => ⟨[], none, none⟩⟩, none, -1, -1, 0, false⟩

/-- The root that `InsertDescend` leaves. -/
def newRoot {d : ℕ} : Grown (SearchNode d) → (d : ℕ) × SearchNode d
  | .inPlace node => ⟨d, node⟩
  | .replaced node => ⟨d, node⟩
  | .two node1 key node2 => ⟨d + 1, [key], [node1, node2]⟩

variable (tree : Tree)

/-- `InsertInternal` below the root. -/
def Tree.insertFrom (heap : LeafHeap) (root : (d : ℕ) × SearchNode d) (key : KeyType) : Tree :=
  let inserted := insertDescend (maxSlot tree.maxSlotShift) heap root.1 root.2 key
  { tree with
    heap := inserted.1
    root := some (newRoot inserted.2.1)
    maxDocId := if tree.maxDocId = -1 ∨ tree.maxDocId < key.docId then key.docId else tree.maxDocId
    minDocId := if tree.minDocId = -1 ∨ key.docId < tree.minDocId then key.docId else tree.minDocId
    dropped := tree.dropped || inserted.2.2 }

/-- `InsertInternal`: the first key gets a new leaf. -/
def Tree.insertInternal (key : KeyType) : Tree :=
  match tree.root with
  | some root => tree.insertFrom tree.heap root key
  | none => tree.insertFrom (tree.heap.allocate ⟨[], none, none⟩) ⟨0, tree.heap.count⟩ key

def Tree.insert (docId : ℤ) : Tree :=
  { tree with docCount := tree.docCount + 1 }.insertInternal (.new docId false)

def Tree.remove (docId : ℤ) : Tree := tree.insertInternal (.new docId true)

/-! ## Search -/

def findLeaf : (d : ℕ) → SearchNode d → ℤ → Option ℕ
  | 0, addr, _ => some addr
  | d + 1, (keys, children), docId =>
    (children[findChildSlot keys docId]?).bind fun child => findLeaf d child docId

/-- A key with the leaf and the slot that it was read from. -/
structure Found where
  leaf : ℕ
  slot : ℕ
  key : KeyType
  deriving DecidableEq

/-- The loop of `SearchUnsafe` over leaves; `none` without fuel. -/
def searchLeaves (heap : LeafHeap) (target : KeyType) : ℕ → Option ℕ → Option (Option Found)
  | _, none => some none
  | 0, some _ => none
  | fuel + 1, some addr =>
    match getSlot (heap.leaf addr).keys target with
    | some i => some (some ⟨addr, i, (heap.leaf addr).key i⟩)
    | none => searchLeaves heap target fuel (heap.leaf addr).nextLeaf

def Tree.searchUnsafe (fuel : ℕ) (docId : ℤ) : Option (Option Found) :=
  let target := KeyType.new docId false
  match tree.root with
  | none => some none
  | some root => searchLeaves tree.heap target fuel (findLeaf root.1 root.2 target.docId)

/-- `Search`: the key found, if any. -/
def Tree.search (fuel : ℕ) (docId : ℤ) : Option (Option KeyType) :=
  (tree.searchUnsafe fuel docId).map (Option.map Found.key)

/-! ## Iterators -/

structure Iterator where
  currentLeaf : Option ℕ
  currentDocId : ℤ
  currentSlot : ℕ

/-- `CreateIterator`. -/
def Iterator.new : Iterator := ⟨none, -1, invalidSlotId⟩

/-- `_currentDocId + 1`, as an `int32_t`. -/
def Iterator.nextDocId (it : Iterator) : ℤ := Int.bmod (it.currentDocId + 1) (2 ^ 32)

/-- The loop over slots: the first slot behind the current one with another docid. -/
def scanSlots (keys : List KeyType) (currentDocId : ℤ) (currentSlot : ℕ) : Option ℕ :=
  let start := (currentSlot + 1) % 2 ^ 16
  ((keys.drop start).findIdx? fun k => k.docId ≠ currentDocId).map (start + ·)

/-- The loop over leaves of `Seek`; `none` without fuel. -/
def scanLeaves (heap : LeafHeap) (currentDocId : ℤ) : ℕ → Option ℕ → ℕ → Option (Option Found)
  | _, none, _ => some none
  | 0, some _, _ => none
  | fuel + 1, some addr, currentSlot =>
    match scanSlots (heap.leaf addr).keys currentDocId currentSlot with
    | some i => some (some ⟨addr, i, (heap.leaf addr).key i⟩)
    | none => scanLeaves heap currentDocId fuel (heap.leaf addr).nextLeaf invalidSlotId

/-- `Seek`: the iterator afterwards and the key found, if any. `result` is the key that the caller's
variable holds before the call: it stays there when nothing is found. -/
def Iterator.seek (it : Iterator) (tree : Tree) (fuel : ℕ) (docId : ℤ) (result : KeyType) :
    Option (Iterator × Option KeyType) :=
  let docId := max docId it.nextDocId
  if it.currentLeaf = none ∨ docId ≠ it.nextDocId then
    (tree.searchUnsafe fuel docId).map fun
      | none => ({ it with currentDocId := result.docId }, none)
      | some found => (⟨some found.leaf, found.key.docId, found.slot⟩, some found.key)
  else
    (scanLeaves tree.heap it.currentDocId fuel it.currentLeaf it.currentSlot).map fun
      | none => (⟨none, it.currentDocId, invalidSlotId⟩, none)
      | some found => (⟨some found.leaf, found.key.docId, found.slot⟩, some found.key)

end Havenask.DynamicSearchTree
