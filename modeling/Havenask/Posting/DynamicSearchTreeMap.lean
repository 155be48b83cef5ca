import Mathlib.Data.List.Induction
import Havenask.Posting.DynamicSearchTreeLeaves

/-!
# The dynamic search tree as a map

Insertions and removals of docids make a map: the last operation on each docid (`lastOperation`). The
tree keeps it: the keys of its leaves, read from the first leaf to the last, have for each docid the last
operation first (`Recorded`); a docid may come a second time, out of date, where two leaves meet.

* **`Coherent`** says that a tree is in order, and keeps a map; **`Coherent.insert`** is one insertion.
* **`treeOk_run`**: every run of operations leaves the tree in order.
-/

namespace Havenask.DynamicSearchTree

open List Function LeafHeap

/-! ## The entries of a tree -/

/-- The keys of the leaves, one leaf behind the other. -/
def entries (heap : LeafHeap) (leaves : List ℕ) : List KeyType := leaves.flatMap fun a => (heap.leaf a).keys

/-- The first entry with a docid is the last operation on it. -/
def Recorded (keys : List KeyType) (last : ℤ → Option Bool) : Prop :=
  ∀ d, (keys.find? fun k => k.docId = d).map KeyType.isDelete = last d

lemma find?_insertKey (keys : List KeyType) (key : KeyType) (d : ℤ) :
    (insertKey keys key).find? (fun k => k.docId = d) =
      if d = key.docId then some key else keys.find? fun k => k.docId = d := by
  induction keys with
  | nil =>
    by_cases hd : d = key.docId
    · simp [insertKey, hd]
    · simp [insertKey, hd, Ne.symm hd]
  | cons first keys ih =>
    rw [insertKey]
    split
    · by_cases hd : d = key.docId
      · simp [hd]
      · simp [hd, Ne.symm hd]
    split
    · rename_i heq
      by_cases hd : d = key.docId
      · simp [hd]
      · simp [hd, Ne.symm hd, heq]
    rename_i hne
    rw [find?_cons, find?_cons, ih]
    by_cases hd : d = key.docId
    · simp [hd, hne]
    · simp [hd]

/-- An insertion behind entries with other docids. -/
lemma Recorded.insert {front keys back : List KeyType} {last : ℤ → Option Bool} {key : KeyType}
    (hrecorded : Recorded (front ++ (keys ++ back)) last) (hfront : ∀ k ∈ front, k.docId ≠ key.docId) :
    Recorded (front ++ (insertKey keys key ++ back)) (update last key.docId (some key.isDelete)) := by
  intro d
  rw [find?_append, find?_append, find?_insertKey]
  by_cases hd : d = key.docId
  · have hnone : front.find? (fun k => k.docId = d) = none := by
      rw [find?_eq_none]
      intro k hk
      simpa [hd] using hfront k hk
    rw [hnone, if_pos hd, hd, update_self]
    rfl
  · rw [if_neg hd, update_of_ne hd, ← hrecorded d, find?_append, find?_append]

/-! ## One insertion -/

/-- A tree in order: its nodes, its leaves and what it keeps. -/
structure Coherent (maxSlot : ℕ) (heap : LeafHeap) (root : (d : ℕ) × SearchNode d)
    (last : ℤ → Option Bool) (lo hi : ℕ → ℤ) (known : ℕ → Set ℤ) (leaves : List ℕ) : Prop where
  spans : Spans maxSlot lo hi root.1 root.2 leaves (-1) (2 ^ 31 - 1)
  shape : Shape maxSlot heap lo hi known leaves {d | last d ≠ none}
  recorded : Recorded (entries heap leaves) last

section
variable {maxSlot mid : ℕ} {heap : LeafHeap} {root : (d : ℕ) × SearchNode d} {last : ℤ → Option Bool}
  {lo hi : ℕ → ℤ} {known : ℕ → Set ℤ} {leaves : List ℕ} {key : KeyType} {a : ℕ}

lemma setOf_update_ne_none (last : ℤ → Option Bool) (key : KeyType) :
    {d | update last key.docId (some key.isDelete) d ≠ none} = insert key.docId {d | last d ≠ none} := by
  ext d
  rw [Set.mem_ofPred_eq, Set.mem_insert_iff, Set.mem_ofPred_eq, update_apply]
  by_cases hd : d = key.docId
  · simp [hd]
  · simp [hd]

/-- A leaf takes the key, or it is full and does not have the docid. -/
lemma insertLeaf_cases (hsorted : Sorted (heap.leaf a).keys)
    (hroom : (heap.leaf a).keys.length ≤ maxSlot) (key : KeyType) : (insertLeaf maxSlot heap a key =
        (heap.update a fun leaf => { leaf with keys := insertKey leaf.keys key }, .inPlace a) ∧
      (insertKey (heap.leaf a).keys key).length ≤ maxSlot) ∨
    (insertLeaf maxSlot heap a key = splitLeaf maxSlot heap a key ∧
      (heap.leaf a).keys.length = maxSlot ∧ key.docId ∉ docIds (heap.leaf a).keys) := by
  by_cases hfree : (heap.leaf a).keys.length < maxSlot
  · refine Or.inl ⟨by simp only [insertLeaf, if_pos hfree], ?_⟩
    exact (length_insertKey_le _ _).trans hfree
  have hfull : (heap.leaf a).keys.length = maxSlot := by omega
  rcases getSlot_cases (heap.leaf a).keys key with ⟨hslot, hall⟩ | ⟨pre, k, post, hkeys, hslot, hpre, hle⟩
  · refine Or.inr ⟨by simp only [insertLeaf, if_neg hfree, hslot], hfull, fun hmem => ?_⟩
    obtain ⟨x, hx, heq⟩ := mem_docIds.mp hmem
    have := hall x hx
    omega
  have hkey : (heap.leaf a).key pre.length = k := by
    rw [LeafNode.key, hkeys]
    simp
  by_cases heq : k.docId = key.docId
  · have hset : (heap.leaf a).keys.set pre.length key = insertKey (heap.leaf a).keys key := by
      rw [hkeys, set_eq_insertKey hpre heq]
    refine Or.inl ⟨?_, by rw [← hset, length_set]; exact hroom⟩
    simp only [insertLeaf, if_neg hfree, hslot, hkey, if_pos heq, LeafHeap.update, hset]
  refine Or.inr ⟨by simp only [insertLeaf, if_neg hfree, hslot, hkey, if_neg heq], hfull, fun hmem => ?_⟩
  rw [hkeys] at hmem hsorted
  obtain ⟨x, hx, hxkey⟩ := mem_docIds.mp hmem
  obtain ⟨-, hpost, -⟩ := pairwise_append.mp hsorted
  rcases mem_append.mp hx with hx | hx
  · have := hpre x hx
    omega
  rcases mem_cons.mp hx with rfl | hx
  · exact heq hxkey
  · have := (pairwise_cons.mp hpost).1 x hx
    omega

/-- The entries before a leaf are not above its lower bound. -/
lemma Shape.front_le {entered : Set ℤ} {front back : List ℕ}
    (hshape : Shape maxSlot heap lo hi known (front ++ a :: back) entered) {k : KeyType}
    (hk : k ∈ entries heap front) : k.docId ≤ lo a := by
  obtain ⟨b, hb, hkb⟩ := mem_flatMap.mp hk
  have hle := ((hshape.leafOk b (hshape.live b (by simp [hb]))).range k hkb).2.1
  exact hle.trans (hshape.tiles.sides.1 b hb)

lemma entries_around (heap : LeafHeap) (front : List ℕ) (a : ℕ) (back : List ℕ) :
    entries heap (front ++ a :: back) = entries heap front ++ ((heap.leaf a).keys ++ entries heap back) := by
  simp [entries]

section
variable {front back : List ℕ} {entered : Set ℤ}
  (hshape : Shape maxSlot heap lo hi known (front ++ a :: back) entered)
include hshape

omit hshape in
/-- The leaf for a docid is the only one with it in its range. -/
lemma Tiles.leaf_unique {front' back' : List ℕ} {a' : ℕ} {l h q : ℤ} (htiles : Tiles lo hi (front ++ a :: back) l h)
    (hleaves : front ++ a :: back = front' ++ a' :: back') (hlo : lo a < q) (hhi : q ≤ hi a) (hlo' : lo a' < q)
    (hhi' : q ≤ hi a') : front = front' ∧ a = a' ∧ back = back' := by
  have hmem : a' ∈ front ++ a :: back := by
    rw [hleaves]
    simp
  have haa' : a' = a := by
    by_contra hne
    have hside : a' ∈ front ∨ a' ∈ back := by simpa [hne] using hmem
    rcases hside with hfront | hback
    · have := htiles.sides.1 a' hfront
      omega
    · have := htiles.sides.2 a' hback
      omega
  subst haa'
  obtain ⟨hfront, -, hback⟩ := (append_cons_inj_of_notMem htiles.not_mem.1 htiles.not_mem.2).mp hleaves
  exact ⟨hfront, rfl, hback⟩

lemma Shape.links_lt : (∀ b ∈ (heap.leaf a).prevLeaf, b < heap.count) ∧ ∀ b ∈ (heap.leaf a).nextLeaf, b < heap.count := by
  rw [hshape.linked.neighbours.1, hshape.linked.neighbours.2]
  exact ⟨fun b hb => hshape.lt_count (.inl (mem_of_getLast? hb)), fun b hb => hshape.lt_count (.inr (mem_of_mem_head? hb))⟩

variable (hrecorded : Recorded (entries heap (front ++ a :: back)) last) (hlo : lo a < key.docId)
include hrecorded hlo

/-- With the key in its leaf, the entries have the operation first: those before the leaf have other docids. -/
lemma Shape.recorded_insert : Recorded (entries heap front ++ (insertKey (heap.leaf a).keys key ++ entries heap back))
    (update last key.docId (some key.isDelete)) := by
  rw [entries_around] at hrecorded
  refine hrecorded.insert fun k hk => ?_
  have := hshape.front_le hk
  omega

lemma Shape.recorded_overwrite :
    Recorded (entries (heap.update a fun leaf => { leaf with keys := insertKey leaf.keys key }) (front ++ a :: back))
      (update last key.docId (some key.isDelete)) := by
  have hsame : ∀ leaves : List ℕ, a ∉ leaves →
      entries (heap.update a fun leaf => { leaf with keys := insertKey leaf.keys key }) leaves = entries heap leaves := by
    refine fun leaves hnot => flatMap_congr fun b hb => ?_
    rw [update_leaf, if_neg fun heq : b = a => hnot (heq ▸ hb)]
  rw [entries_around, hsame front hshape.tiles.not_mem.1, hsame back hshape.tiles.not_mem.2, update_leaf, if_pos rfl]
  exact hshape.recorded_insert hrecorded hlo

lemma Shape.recorded_split {heap' : LeafHeap} {keys₁ keys₂ : List KeyType} {k : ℤ}
    (hsplit : SplitHeap heap heap' a keys₁ keys₂) (hhalves : Halves (heap.leaf a) key keys₁ keys₂ k) :
    Recorded (entries heap' (splitLeaves heap.count front back)) (update last key.docId (some key.isDelete)) := by
  have hsame : ∀ leaves : List ℕ, (∀ b ∈ leaves, b < heap.count) → entries heap' leaves = entries heap leaves :=
    fun leaves hlt => flatMap_congr fun b hb => hsplit.keys b (hlt b hb)
  have hnew : entries heap' (splitLeaves heap.count front back) =
      entries heap front ++ (insertKey (heap.leaf a).keys key ++ entries heap back) := by
    rw [← hhalves.append, ← hsame front fun b hb => hshape.lt_count (.inl hb),
      ← hsame back fun b hb => hshape.lt_count (.inr hb)]
    simp [entries, hsplit.first, hsplit.second]
  rw [hnew]
  exact hshape.recorded_insert hrecorded hlo

end

lemma splitBounds_update (count a : ℕ) (k : ℤ) (lo hi : ℕ → ℤ) : SplitBounds count a k lo hi
    (update (update lo count (lo a)) (count + 1) k) (update (update hi count k) (count + 1) (hi a)) := by
  refine ⟨fun b hb => ?_, by simp, by simp⟩
  simp only [update_apply, if_neg (by omega : ¬ b = count + 1), if_neg (by omega : ¬ b = count), and_self]

/-- A root that was split gets a new root over its two parts. -/
lemma spans_newRoot {d : ℕ} {grown : Grown (SearchNode d)} {l h : ℤ} (hroom : 1 ≤ maxSlot)
    (hgrown : GrownSpans maxSlot lo hi grown leaves l h) :
    Spans maxSlot lo hi (newRoot grown).1 (newRoot grown).2 leaves l h := by
  cases grown with
  | inPlace node => exact hgrown
  | replaced node => exact hgrown
  | two node₁ k node₂ =>
    obtain ⟨leaves₁, leaves₂, rfl, hnode₁, hnode₂⟩ := hgrown
    exact ⟨(Separated.Parts.single hnode₁).append (Separated.Parts.single hnode₂).right, hroom⟩

/-- **An insertion** leaves the tree in order, with the new operation. No child is left out, and no leaf
knows less. -/
lemma Coherent.insert (hmax : maxSlot = 2 * mid) (hmid : 0 < mid)
    (hcoherent : Coherent maxSlot heap root last lo hi known leaves) (hkey : 0 ≤ key.docId)
    (hlt : key.docId < 2 ^ 31 - 1) :
    ∃ lo' hi' known' leaves', Coherent maxSlot (insertDescend maxSlot heap root.1 root.2 key).1
        (newRoot (insertDescend maxSlot heap root.1 root.2 key).2.1)
        (update last key.docId (some key.isDelete)) lo' hi' known' leaves' ∧
      (insertDescend maxSlot heap root.1 root.2 key).2.2 = false ∧
      heap.count ≤ (insertDescend maxSlot heap root.1 root.2 key).1.count ∧ ∀ b < heap.count, known b ⊆ known' b := by
  obtain ⟨hspans, hshape, hrecorded⟩ := hcoherent
  obtain ⟨front, a, back, rfl, hlo, hhi, -, hinserts⟩ :=
    hspans.descend hmax hmid (by omega : (-1 : ℤ) < key.docId) hlt.le
  have hacount := hshape.live a (by simp)
  have hok := hshape.leafOk a hacount
  rcases insertLeaf_cases hok.sorted hok.room key with ⟨hinsert, hroom⟩ | ⟨hinsert, hfull, hnew⟩
  · -- the leaf takes the key
    rw [(hinserts heap _ key rfl).1 hinsert]
    refine ⟨lo, hi, knownIn (front ++ a :: back) (Insert.insert key.docId {d | last d ≠ none}) known,
      front ++ a :: back, ⟨hspans, ?_, hshape.recorded_overwrite hrecorded hlo⟩, rfl, le_rfl,
      fun b hb => hshape.known_subset (fun x hx _ => hx) hb⟩
    rw [setOf_update_ne_none]
    exact hshape.overwrite hlo hhi hkey hlt hroom
  -- the leaf is split
  obtain ⟨heap', hheap', hsplit⟩ := splitLeaf_spec maxSlot heap a key hshape.links_lt.1 hshape.links_lt.2
  have hhalves := halves_splitKeys hmax hmid hok.sorted hfull hnew
  generalize (splitKeys maxSlot (heap.leaf a).keys key).1 = keys₁ at *
  generalize (splitKeys maxSlot (heap.leaf a).keys key).2 = keys₂ at *
  generalize (keys₂.getD 0 ⟨0, false⟩).docId = k at *
  obtain ⟨hk₁, hk₂⟩ := hhalves.between hok hlo hhi hkey hlt
  have hbounds := splitBounds_update heap.count a k lo hi
  generalize update (update lo heap.count (lo a)) (heap.count + 1) k = lo' at hbounds
  generalize update (update hi heap.count k) (heap.count + 1) (hi a) = hi' at hbounds
  have hold : ∀ b ∈ front ++ a :: back, lo' b = lo b ∧ hi' b = hi b := fun b hb => hbounds.old b (hshape.live b hb)
  -- the way down is the same for the bounds with the new leaves
  obtain ⟨front', a', back', hleaves, hloa, hhia, -, hinserts'⟩ :=
    (hspans.congr (fun b hb => (hold b hb).1) fun b hb => (hold b hb).2).descend hmax hmid
      (by omega : (-1 : ℤ) < key.docId) hlt.le
  have hbounds' := hold a' (by rw [hleaves]; simp)
  obtain ⟨rfl, rfl, rfl⟩ := hshape.tiles.leaf_unique hleaves hlo hhi (hbounds'.1 ▸ hloa) (hbounds'.2 ▸ hhia)
  obtain ⟨grown, hdescend, hgrown⟩ := (hinserts' heap heap' key rfl).2 heap.count k (heap.count + 1)
    (hinsert.trans hheap') (by rw [hbounds.first.1, hbounds'.1]) hbounds.first.2 hbounds.second.1
    (by rw [hbounds.second.2, hbounds'.2]) (by rwa [hbounds'.1]) (by rwa [hbounds'.2])
  rw [hdescend]
  refine ⟨lo', hi', knownIn (splitLeaves heap.count front back) (Insert.insert key.docId {d | last d ≠ none}) known,
    splitLeaves heap.count front back, ⟨spans_newRoot (by omega) hgrown, ?_,
      hshape.recorded_split hrecorded hlo hsplit hhalves⟩, rfl, ?_,
    fun b hb => hshape.known_subset (fun x hx hx' => ?_) hb⟩
  · rw [setOf_update_ne_none]
    exact hshape.split hlo hhi hkey hsplit hbounds hlt hhalves
  · show heap.count ≤ heap'.count
    rw [hsplit.count]
    omega
  · rcases (mem_splitLeaves hx').mp hx with h | h <;> simp [h]

end

/-! ## Runs of operations -/

/-- The docid of an operation, and whether it is a removal. -/
abbrev Operation := ℤ × Bool

/-- `Insert` or `Remove`. -/
def Tree.apply (tree : Tree) (op : Operation) : Tree :=
  if op.2 then tree.remove op.1 else tree.insert op.1

/-- The tree after operations. -/
def Tree.run (tree : Tree) (ops : List Operation) : Tree := ops.foldl Tree.apply tree

/-- Whether the last operation on a docid was a removal, if there was one. -/
def lastOperation (ops : List Operation) (d : ℤ) : Option Bool := (ops.reverse.find? fun op => op.1 = d).map Prod.snd

lemma lastOperation_append (ops : List Operation) (op : Operation) :
    lastOperation (ops ++ [op]) = update (lastOperation ops) op.1 (some op.2) := by
  funext d
  rw [lastOperation, reverse_append, reverse_singleton, singleton_append, find?_cons, update_apply]
  by_cases hd : op.1 = d
  · simp [hd]
  · simp [hd, Ne.symm hd, lastOperation]

/-- A tree in order: it is empty, or it has a root; no children were ever left out. -/
structure TreeOk (tree : Tree) (last : ℤ → Option Bool) (lo hi : ℕ → ℤ) (known : ℕ → Set ℤ)
    (leaves : List ℕ) : Prop where
  dropped : tree.dropped = false
  empty : tree.root = none → tree.heap.count = 0 ∧ last = fun _ => none
  coherent : ∀ root, tree.root = some root →
    Coherent (maxSlot tree.maxSlotShift) tree.heap root last lo hi known leaves

/-- The capacity of a node is even if the four bits of the shift that are kept are not all zero. -/
lemma maxSlot_eq {maxSlotShift : ℕ} (hshift : maxSlotShift % 16 ≠ 0) :
    ∃ mid, maxSlot maxSlotShift = 2 * mid ∧ 0 < mid := by
  obtain ⟨s, hs⟩ := Nat.exists_eq_succ_of_ne_zero hshift
  exact ⟨2 ^ s, by rw [maxSlot, hs, Nat.pow_succ, Nat.mul_comm], Nat.two_pow_pos s⟩

/-- The single leaf of a tree that gets its first key. -/
lemma coherent_first {maxSlot : ℕ} {heap : LeafHeap} (hcount : heap.count = 0) :
    Coherent maxSlot (heap.allocate ⟨[], none, none⟩) ⟨0, heap.count⟩ (fun _ => none)
      (fun _ => -1) (fun _ => 2 ^ 31 - 1) (fun _ => ∅) [heap.count] := by
  have hleaf : (heap.allocate ⟨[], none, none⟩).leaf heap.count = ⟨[], none, none⟩ := by
    rw [allocate_leaf, if_pos rfl]
  refine ⟨⟨rfl, rfl, rfl, by norm_num⟩, ⟨fun a ha => ?_, ⟨rfl, by norm_num, rfl⟩, ?_, ?_, ?_⟩, ?_⟩
  · rw [allocate_count] at ha
    obtain rfl : a = heap.count := by omega
    refine ⟨?_, ?_, le_rfl, by norm_num, ?_, fun h => absurd rfl h, ?_, Or.inl ⟨?_, rfl⟩⟩
    · rw [hleaf]
      exact Pairwise.nil
    · rw [hleaf]
      exact Nat.zero_le _
    · rw [hleaf]
      simp
    · intro d hd
      exact absurd hd (Set.notMem_empty d)
    · rw [hleaf]
  · intro a ha
    rw [mem_singleton.mp ha, allocate_count]
    omega
  · intro a _
    simp
  · exact ⟨by rw [hleaf], by rw [hleaf]; rfl, trivial⟩
  · intro d
    simp [entries, hleaf]

variable {last : ℤ → Option Bool} {lo hi : ℕ → ℤ} {known : ℕ → Set ℤ} {leaves : List ℕ} {tree : Tree}

lemma TreeOk.insertFrom {heap : LeafHeap} {root : (d : ℕ) × SearchNode d} {key : KeyType}
    (hshift : tree.maxSlotShift % 16 ≠ 0) (hdropped : tree.dropped = false)
    (hcoherent : Coherent (maxSlot tree.maxSlotShift) heap root last lo hi known leaves)
    (hkey : 0 ≤ key.docId) (hlt : key.docId < 2 ^ 31 - 1) :
    ∃ lo' hi' known' leaves', TreeOk (tree.insertFrom heap root key)
        (update last key.docId (some key.isDelete)) lo' hi' known' leaves' ∧
      heap.count ≤ (tree.insertFrom heap root key).heap.count ∧ ∀ b < heap.count, known b ⊆ known' b := by
  obtain ⟨mid, hmax, hmid⟩ := maxSlot_eq hshift
  obtain ⟨lo', hi', known', leaves', hcoherent', hdropped', hcount, hknown⟩ := hcoherent.insert hmax hmid hkey hlt
  refine ⟨lo', hi', known', leaves', ⟨?_, ?_, ?_⟩, hcount, hknown⟩
  · simp only [Tree.insertFrom, hdropped, hdropped', Bool.or_self]
  · intro hnone
    cases hnone
  intro root' heq
  cases heq
  exact hcoherent'

/-- **One operation** on a tree in order. -/
lemma TreeOk.insertInternal (hok : TreeOk tree last lo hi known leaves)
    (hshift : tree.maxSlotShift % 16 ≠ 0) (key : KeyType) (hkey : 0 ≤ key.docId) (hlt : key.docId < 2 ^ 31 - 1) :
    ∃ lo' hi' known' leaves', TreeOk (tree.insertInternal key)
        (update last key.docId (some key.isDelete)) lo' hi' known' leaves' ∧
      tree.heap.count ≤ (tree.insertInternal key).heap.count ∧ ∀ b < tree.heap.count, known b ⊆ known' b := by
  cases hroot : tree.root with
  | none =>
    obtain ⟨hcount, rfl⟩ := hok.empty hroot
    obtain ⟨lo', hi', known', leaves', hok', -, -⟩ :=
      TreeOk.insertFrom hshift hok.dropped (coherent_first hcount) hkey hlt
    refine ⟨lo', hi', known', leaves', ?_, by omega, fun b hb => by omega⟩
    simpa only [Tree.insertInternal, hroot] using hok'
  | some root =>
    simp only [Tree.insertInternal, hroot]
    exact TreeOk.insertFrom hshift hok.dropped (hok.coherent root hroot) hkey hlt

lemma Tree.apply_maxSlotShift (tree : Tree) (op : Operation) : (tree.apply op).maxSlotShift = tree.maxSlotShift := by
  have hinternal : ∀ (tree : Tree) (key : KeyType), (tree.insertInternal key).maxSlotShift = tree.maxSlotShift := by
    intro tree key
    rw [Tree.insertInternal]
    split
    · rfl
    · rfl
  rw [Tree.apply]
  split
  · exact hinternal ..
  · exact hinternal ..

lemma TreeOk.apply (hok : TreeOk tree last lo hi known leaves) (hshift : tree.maxSlotShift % 16 ≠ 0)
    {op : Operation} (hop : 0 ≤ op.1) (hlt : op.1 < 2 ^ 31 - 1) :
    ∃ lo' hi' known' leaves', TreeOk (tree.apply op) (update last op.1 (some op.2)) lo' hi'
        known' leaves' ∧ tree.heap.count ≤ (tree.apply op).heap.count ∧
      ∀ b < tree.heap.count, known b ⊆ known' b := by
  have hkey : ∀ del, (KeyType.new op.1 del).docId = op.1 := fun del =>
    Int.emod_eq_of_lt hop (by omega)
  obtain ⟨d, del⟩ := op
  cases del with
  | true =>
    have h := hok.insertInternal hshift (KeyType.new d true) ((hkey true).symm ▸ hop) ((hkey true).symm ▸ hlt)
    rw [hkey] at h
    exact h
  | false =>
    have hok' : TreeOk { tree with docCount := tree.docCount + 1 } last lo hi known leaves :=
      ⟨hok.dropped, hok.empty, hok.coherent⟩
    have h := hok'.insertInternal hshift (KeyType.new d false) ((hkey false).symm ▸ hop) ((hkey false).symm ▸ hlt)
    rw [hkey] at h
    exact h

/-- **Every run of operations** leaves the tree in order, with the last operation on each docid. -/
lemma treeOk_run {maxSlotShift : ℕ} (hshift : maxSlotShift % 16 ≠ 0) {ops : List Operation}
    (hops : ∀ op ∈ ops, 0 ≤ op.1 ∧ op.1 < 2 ^ 31 - 1) :
    (((Tree.new maxSlotShift).run ops).maxSlotShift = maxSlotShift) ∧
      ∃ lo hi known leaves, TreeOk ((Tree.new maxSlotShift).run ops) (lastOperation ops) lo hi known leaves := by
  induction ops using reverseRecOn with
  | nil =>
    refine ⟨rfl, fun _ => 0, fun _ => 0, fun _ => ∅, [], rfl, fun _ => ⟨rfl, rfl⟩, ?_⟩
    intro root hroot
    cases hroot
  | append_singleton ops op ih =>
    obtain ⟨hsame, lo, hi, known, leaves, hok⟩ := ih fun op hop => hops op (mem_append_left _ hop)
    obtain ⟨hop, hlt⟩ := hops op (by simp)
    have hrun : (Tree.new maxSlotShift).run (ops ++ [op]) = ((Tree.new maxSlotShift).run ops).apply op := by
      rw [Tree.run, Tree.run, foldl_append]
      rfl
    obtain ⟨lo', hi', known', leaves', hok', -, -⟩ := hok.apply (by rw [hsame]; exact hshift) hop hlt
    rw [hrun, Tree.apply_maxSlotShift, lastOperation_append]
    exact ⟨hsame, lo', hi', known', leaves', hok'⟩

end Havenask.DynamicSearchTree
