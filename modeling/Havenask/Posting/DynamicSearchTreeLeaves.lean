import Havenask.Posting.DynamicSearchTreeSpan

/-!
# The leaves of the dynamic search tree

What holds of the leaves, of those in the tree and of those that were replaced.

A leaf has keys from its range only. Its lower bound, if it is not the first leaf, is its first key; the
upper bound may be a key too, which then is also the first key of the next leaf, and the older of the two.
`known a` is the set of docids that were in the tree when the leaf `a` was last part of it: all of them
that are in its range are among its keys. The next leaf of a leaf begins where its range ends, and knows
at least as much: this stays true of a replaced leaf, whose links are never changed again.

* **`Shape`** collects these facts, with the list of the leaves in the tree.
* **`Shape.overwrite`**, **`Shape.split`**: it is kept by the two ways to insert a key.
-/

namespace Havenask.DynamicSearchTree

open List LeafHeap

/-! ## Links -/

/-- The leaves are linked one behind the other, with the given neighbours at the ends. -/
def Linked (heap : LeafHeap) : Option ℕ → List ℕ → Option ℕ → Prop
  | _, [], _ => True
  | prev, a :: leaves, next =>
    (heap.leaf a).prevLeaf = prev ∧ (heap.leaf a).nextLeaf = leaves.head?.or next ∧ Linked heap (some a) leaves next

variable {heap heap' : LeafHeap} {leaves front back : List ℕ} {prev next : Option ℕ} {a b c : ℕ}

lemma linked_append : Linked heap prev (front ++ back) next
    ↔ Linked heap prev front (back.head?.or next) ∧ Linked heap (front.getLast?.or prev) back next := by
  induction front generalizing prev with
  | nil => simp [Linked]
  | cons a front ih =>
    rw [cons_append, Linked, Linked, ih]
    cases front with
    | nil => simp [Linked, and_assoc]
    | cons x front => simp [getLast?_cons, and_assoc]

lemma Linked.neighbours (hlinked : Linked heap none (front ++ a :: back) none) :
    (heap.leaf a).prevLeaf = front.getLast? ∧ (heap.leaf a).nextLeaf = back.head? := by
  have hback := (linked_append.mp hlinked).2
  exact ⟨by simpa using hback.1, by simpa using hback.2.1⟩

lemma Linked.next_mem (hlinked : Linked heap none leaves none) (ha : a ∈ leaves)
    (hnext : (heap.leaf a).nextLeaf = some b) : b ∈ leaves := by
  obtain ⟨front, back, rfl⟩ := append_of_mem ha
  rw [hlinked.neighbours.2] at hnext
  exact mem_append_right _ (mem_cons_of_mem _ (mem_of_mem_head? hnext))

lemma Linked.prev_of_next (hlinked : Linked heap none leaves none) (ha : a ∈ leaves)
    (hnext : (heap.leaf a).nextLeaf = some b) : (heap.leaf b).prevLeaf = some a := by
  obtain ⟨front, back, rfl⟩ := append_of_mem ha
  rw [hlinked.neighbours.2] at hnext
  obtain ⟨back, rfl⟩ := head?_eq_some_iff.mp hnext
  rw [append_cons] at hlinked
  exact hlinked.neighbours.1.trans (by simp)

lemma Linked.next_of_prev (hlinked : Linked heap none (front ++ a :: back) none)
    (hprev : (heap.leaf a).prevLeaf = some b) : b ∈ front ∧ (heap.leaf b).nextLeaf = some a := by
  rw [hlinked.neighbours.1] at hprev
  obtain ⟨front, rfl⟩ := getLast?_eq_some_iff.mp hprev
  refine ⟨by simp, ?_⟩
  rw [append_assoc, singleton_append] at hlinked
  exact hlinked.neighbours.2

section
variable (hlinked : Linked heap prev leaves next)
include hlinked

lemma Linked.congr
    (hprev : ∀ x ∈ leaves, (heap'.leaf x).prevLeaf = (heap.leaf x).prevLeaf)
    (hnext : ∀ x ∈ leaves, (heap'.leaf x).nextLeaf = (heap.leaf x).nextLeaf) : Linked heap' prev leaves next := by
  induction leaves generalizing prev with
  | nil => trivial
  | cons a leaves ih =>
    rw [forall_mem_cons] at hprev hnext
    exact ⟨hprev.1.trans hlinked.1, hnext.1.trans hlinked.2.1, ih hlinked.2.2 hprev.2 hnext.2⟩

/-- The last leaf gets another neighbour. -/
lemma Linked.setNext {next' : Option ℕ} (hnodup : leaves.Nodup)
    (hprev : ∀ x ∈ leaves, (heap'.leaf x).prevLeaf = (heap.leaf x).prevLeaf)
    (hnext : ∀ x ∈ leaves, (heap'.leaf x).nextLeaf =
      if leaves.getLast? = some x then next' else (heap.leaf x).nextLeaf) : Linked heap' prev leaves next' := by
  induction leaves generalizing prev with
  | nil => trivial
  | cons a leaves ih =>
    rw [forall_mem_cons] at hprev hnext
    obtain ⟨ha, hnodup⟩ := nodup_cons.mp hnodup
    refine ⟨hprev.1.trans hlinked.1, ?_, ih hlinked.2.2 hnodup hprev.2 fun x hx => ?_⟩
    · cases leaves with
      | nil => simpa using hnext.1
      | cons x leaves =>
        have hlast : (a :: x :: leaves).getLast? ≠ some a := by
          rw [getLast?_cons_cons]
          exact fun h => ha (mem_of_getLast? h)
        rw [hnext.1, if_neg hlast, hlinked.2.1]
        rfl
    · cases leaves with
      | nil => cases hx
      | cons y leaves =>
        rw [hnext.2 x hx, getLast?_cons_cons]

/-- The first leaf gets another neighbour. -/
lemma Linked.setPrev {prev' : Option ℕ} (hnodup : leaves.Nodup)
    (hnext : ∀ x ∈ leaves, (heap'.leaf x).nextLeaf = (heap.leaf x).nextLeaf)
    (hprev : ∀ x ∈ leaves, (heap'.leaf x).prevLeaf =
      if leaves.head? = some x then prev' else (heap.leaf x).prevLeaf) : Linked heap' prev' leaves next := by
  cases leaves with
  | nil => trivial
  | cons a leaves =>
    rw [forall_mem_cons] at hprev hnext
    obtain ⟨ha, hnodup⟩ := nodup_cons.mp hnodup
    refine ⟨by simpa using hprev.1, hnext.1.trans hlinked.2.1, ?_⟩
    refine hlinked.2.2.congr (fun x hx => ?_) hnext.2
    have hne : a ≠ x := fun h => ha (h ▸ hx)
    rw [hprev.2 x hx, if_neg (by simpa using hne)]

end

/-! ## The shape of the leaves -/

/-- The range of a leaf, its keys and its next leaf. -/
structure LeafOk (maxSlot : ℕ) (heap : LeafHeap) (lo hi : ℕ → ℤ) (known : ℕ → Set ℤ) (a : ℕ) : Prop where
  sorted : Sorted (heap.leaf a).keys
  room : (heap.leaf a).keys.length ≤ maxSlot
  bot : -1 ≤ lo a
  lt : lo a < hi a
  range : ∀ k ∈ (heap.leaf a).keys, lo a ≤ k.docId ∧ k.docId ≤ hi a ∧ 0 ≤ k.docId ∧ k.docId < 2 ^ 31 - 1
  head : lo a ≠ -1 → ∃ k, (heap.leaf a).keys.head? = some k ∧ k.docId = lo a
  covers : ∀ d ∈ known a, lo a ≤ d → d < hi a → d ∈ docIds (heap.leaf a).keys
  next : ((heap.leaf a).nextLeaf = none ∧ hi a = 2 ^ 31 - 1) ∨
    ∃ b, (heap.leaf a).nextLeaf = some b ∧ b < heap.count ∧ lo b = hi a ∧ known a ⊆ known b

/-- The leaves of the tree tile the docids in their links' order; old leaves stay readable. -/
structure Shape (maxSlot : ℕ) (heap : LeafHeap) (lo hi : ℕ → ℤ) (known : ℕ → Set ℤ) (leaves : List ℕ)
    (entered : Set ℤ) : Prop where
  leafOk : ∀ a < heap.count, LeafOk maxSlot heap lo hi known a
  tiles : Tiles lo hi leaves (-1) (2 ^ 31 - 1)
  live : ∀ a ∈ leaves, a < heap.count
  known_live : ∀ a ∈ leaves, known a = entered
  linked : Linked heap none leaves none

/-- What is known when all leaves in the tree know the entered docids. -/
def knownIn (leaves : List ℕ) (entered : Set ℤ) (known : ℕ → Set ℤ) (a : ℕ) : Set ℤ :=
  if a ∈ leaves then entered else known a

variable {maxSlot : ℕ} {lo hi : ℕ → ℤ} {known : ℕ → Set ℤ} {entered : Set ℤ} {key : KeyType}

lemma knownIn_of_mem {known : ℕ → Set ℤ} (ha : a ∈ leaves) : knownIn leaves entered known a = entered :=
  if_pos ha

lemma knownIn_of_not_mem (ha : a ∉ leaves) : knownIn leaves entered known a = known a := if_neg ha

/-- A leaf knows no less after an insertion: those in the tree know the new docid too. -/
lemma Shape.known_subset (hshape : Shape maxSlot heap lo hi known leaves entered) {leaves' : List ℕ}
    {d : ℤ} (hleaves : ∀ x ∈ leaves', x < heap.count → x ∈ leaves) (ha : a < heap.count) :
    known a ⊆ knownIn leaves' (insert d entered) known a := by
  by_cases hmem : a ∈ leaves'
  · rw [knownIn_of_mem hmem, hshape.known_live a (hleaves a hmem ha)]
    exact Set.subset_insert _ _
  · rw [knownIn_of_not_mem hmem]

section
variable (hshape : Shape maxSlot heap lo hi known (front ++ a :: back) entered) (hlo : lo a < key.docId)
  (hhi : key.docId ≤ hi a) (hkey : 0 ≤ key.docId)
include hshape hlo hhi hkey

/-- The leaves besides the one for a docid have it among their keys if it is in their range. -/
lemma Shape.covers_insert
    (hb : b ∈ front ∨ b ∈ back) :
    ∀ d ∈ insert key.docId entered, lo b ≤ d → d < hi b → d ∈ docIds (heap.leaf b).keys := by
  have hmem : b ∈ front ++ a :: back := by
    rw [mem_append, mem_cons]
    exact hb.imp_right Or.inr
  have hok := hshape.leafOk b (hshape.live b hmem)
  intro d hd hlob hhib
  rcases hd with rfl | hd
  · rcases hb with hfront | hback
    · have := hshape.tiles.sides.1 b hfront
      omega
    · have hside := hshape.tiles.sides.2 b hback
      obtain ⟨k, hhead, hk⟩ := hok.head (by omega)
      have heq : k.docId = key.docId := by omega
      exact heq ▸ mem_docIds_of_mem (mem_of_mem_head? hhead)
  · exact hok.covers d (by rwa [hshape.known_live b hmem]) hlob hhib

omit hshape hlo hhi hkey in
lemma LeafOk.of_keys_eq {known' : ℕ → Set ℤ} {lo' hi' : ℕ → ℤ} (hok : LeafOk maxSlot heap lo hi known b)
    (hkeys : (heap'.leaf b).keys = (heap.leaf b).keys) (hlo : lo' b = lo b) (hhi : hi' b = hi b)
    (hcovers : ∀ d ∈ known' b, lo b ≤ d → d < hi b → d ∈ docIds (heap.leaf b).keys)
    (hnext : ((heap'.leaf b).nextLeaf = none ∧ hi b = 2 ^ 31 - 1) ∨
      ∃ c, (heap'.leaf b).nextLeaf = some c ∧ c < heap'.count ∧ lo' c = hi b ∧ known' b ⊆ known' c) :
    LeafOk maxSlot heap' lo' hi' known' b := by
  refine ⟨?_, ?_, ?_, ?_, ?_, ?_, ?_, ?_⟩
  · exact hkeys ▸ hok.sorted
  · exact hkeys ▸ hok.room
  · exact hlo ▸ hok.bot
  · rw [hlo, hhi]
    exact hok.lt
  · rw [hkeys, hlo, hhi]
    exact hok.range
  · rw [hkeys, hlo]
    exact hok.head
  · rw [hkeys, hlo, hhi]
    exact hcovers
  · rw [hhi]
    exact hnext

omit hshape hlo hhi hkey in
lemma LeafOk.range_insertKey (hok : LeafOk maxSlot heap lo hi known a) (hlo : lo a < key.docId)
    (hhi : key.docId ≤ hi a) (hkey : 0 ≤ key.docId) (hlt : key.docId < 2 ^ 31 - 1) :
    ∀ k ∈ insertKey (heap.leaf a).keys key, lo a ≤ k.docId ∧ k.docId ≤ hi a ∧ 0 ≤ k.docId ∧ k.docId < 2 ^ 31 - 1 := by
  intro k hk
  rcases (mem_insertKey hok.sorted).mp hk with rfl | ⟨hk, -⟩
  · exact ⟨hlo.le, hhi, hkey, hlt⟩
  · exact hok.range k hk

/-- A key in the range of a leaf, put into the leaf. -/
lemma Shape.overwrite
    (hlt : key.docId < 2 ^ 31 - 1)
    (hroom : (insertKey (heap.leaf a).keys key).length ≤ maxSlot) :
    Shape maxSlot (heap.update a fun leaf => { leaf with keys := insertKey leaf.keys key }) lo hi
      (knownIn (front ++ a :: back) (insert key.docId entered) known) (front ++ a :: back)
      (insert key.docId entered) := by
  have hamem : a ∈ front ++ a :: back := by simp
  obtain ⟨heap', hheap'⟩ : ∃ heap', heap' = heap.update a fun leaf =>
      { leaf with keys := insertKey leaf.keys key } := ⟨_, rfl⟩
  have hcount : heap'.count = heap.count := by rw [hheap', update]
  have hleaf : ∀ b, b ≠ a → heap'.leaf b = heap.leaf b := fun b hb => by
    rw [hheap', update_leaf, if_neg hb]
  have hleafA : heap'.leaf a = { heap.leaf a with keys := insertKey (heap.leaf a).keys key } := by
    rw [hheap', update_leaf, if_pos rfl]
  have hlinks : ∀ b, (heap'.leaf b).nextLeaf = (heap.leaf b).nextLeaf ∧
      (heap'.leaf b).prevLeaf = (heap.leaf b).prevLeaf := by
    intro b
    by_cases hb : b = a
    · rw [hb, hleafA]
      exact ⟨rfl, rfl⟩
    · rw [hleaf b hb]
      exact ⟨rfl, rfl⟩
  rw [← hheap']
  refine ⟨fun b hb => ?_, hshape.tiles, fun b hb => hcount ▸ hshape.live b hb, fun b hb => knownIn_of_mem hb,
    hshape.linked.congr (fun x _ => (hlinks x).2) fun x _ => (hlinks x).1⟩
  have hok := hshape.leafOk b (hcount ▸ hb)
  have hnext : ((heap'.leaf b).nextLeaf = none ∧ hi b = 2 ^ 31 - 1) ∨
      ∃ c, (heap'.leaf b).nextLeaf = some c ∧ c < heap'.count ∧ lo c = hi b ∧
        knownIn (front ++ a :: back) (insert key.docId entered) known b ⊆
          knownIn (front ++ a :: back) (insert key.docId entered) known c := by
    rw [(hlinks b).1, hcount]
    refine hok.next.imp_right ?_
    rintro ⟨c, hc, hcCount, hloc, hknown⟩
    refine ⟨c, hc, hcCount, hloc, ?_⟩
    by_cases hmem : b ∈ front ++ a :: back
    · rw [knownIn_of_mem hmem, knownIn_of_mem (hshape.linked.next_mem hmem hc)]
    · rw [knownIn_of_not_mem hmem]
      exact hknown.trans (hshape.known_subset (fun x hx _ => hx) hcCount)
  by_cases hba : b = a
  · subst hba
    have hkeys : (heap'.leaf b).keys = insertKey (heap.leaf b).keys key := by rw [hleafA]
    refine ⟨?_, ?_, hok.bot, hok.lt, ?_, ?_, ?_, hnext⟩
    · rw [hkeys]
      exact sorted_insertKey hok.sorted key
    · rw [hkeys]
      exact hroom
    · rw [hkeys]
      exact hok.range_insertKey hlo hhi hkey hlt
    · intro hne
      obtain ⟨k, hhead, hk⟩ := hok.head hne
      refine ⟨k, ?_, hk⟩
      rw [hkeys]
      exact head?_insertKey hhead (by omega)
    · intro d hd hlod hhid
      rw [knownIn_of_mem hamem] at hd
      rw [hkeys, mem_docIds_insertKey hok.sorted]
      refine hd.imp_right fun hd => hok.covers d ?_ hlod hhid
      rwa [hshape.known_live b hamem]
  · refine hok.of_keys_eq (by rw [hleaf b hba]) rfl rfl ?_ hnext
    by_cases hmem : b ∈ front ++ a :: back
    · rw [knownIn_of_mem hmem]
      refine hshape.covers_insert hlo hhi hkey ?_
      simpa [hba] using hmem
    · rw [knownIn_of_not_mem hmem]
      exact hok.covers

/-! ## Splitting a leaf -/

/-- What the parts of a split leaf have. -/
structure Halves (leaf : LeafNode) (key : KeyType) (keys₁ keys₂ : List KeyType) (k : ℤ) : Prop where
  append : keys₁ ++ keys₂ = insertKey leaf.keys key
  below : ∀ x ∈ keys₁, x.docId < k
  above : ∀ x ∈ keys₂, k ≤ x.docId
  head₁ : keys₁ ≠ []
  head₂ : ∃ x, keys₂.head? = some x ∧ x.docId = k
  last₂ : ∃ x ∈ keys₂, k < x.docId
  length₁ : keys₁.length ≤ leaf.keys.length
  length₂ : keys₂.length ≤ leaf.keys.length

omit hshape hlo hhi hkey in
lemma halves_splitKeys {mid : ℕ} (hmax : maxSlot = 2 * mid) (hmid : 0 < mid) {leaf : LeafNode}
    (hsorted : Sorted leaf.keys) (hfull : leaf.keys.length = maxSlot) (hnew : key.docId ∉ docIds leaf.keys) :
    Halves leaf key (splitKeys maxSlot leaf.keys key).1 (splitKeys maxSlot leaf.keys key).2
      ((splitKeys maxSlot leaf.keys key).2.getD 0 ⟨0, false⟩).docId := by
  obtain ⟨happend, hlength₁, hlength₂⟩ := splitKeys_append hmax hmid hfull hnew
  generalize (splitKeys maxSlot leaf.keys key).1 = keys₁ at *
  generalize (splitKeys maxSlot leaf.keys key).2 = keys₂ at *
  obtain ⟨x, y, rest, rfl⟩ : ∃ x y rest, keys₂ = x :: y :: rest := by
    match keys₂, hlength₂ with
    | [], h => exact absurd h (by simp)
    | [_], h => exact absurd h (by simp; omega)
    | x :: y :: rest, _ => exact ⟨x, y, rest, rfl⟩
  have hall : Sorted (keys₁ ++ x :: y :: rest) := happend ▸ sorted_insertKey hsorted key
  obtain ⟨-, hright, hcross⟩ := pairwise_append.mp hall
  have hx := (pairwise_cons.mp hright).1
  refine ⟨happend, fun z hz => hcross z hz x mem_cons_self, fun z hz => ?_, ?_, ⟨x, rfl, rfl⟩,
    ⟨y, by simp, hx y mem_cons_self⟩, by omega, by omega⟩
  · rcases mem_cons.mp hz with rfl | hz
    · exact le_rfl
    · exact (hx z hz).le
  · rintro rfl
    exact absurd hlength₁ (by simp; omega)

/-- The heap after a split: two new leaves in the place of the old one, between its neighbours. -/
structure SplitHeap (heap heap' : LeafHeap) (a : ℕ) (keys₁ keys₂ : List KeyType) : Prop where
  count : heap'.count = heap.count + 2
  keys : ∀ b < heap.count, (heap'.leaf b).keys = (heap.leaf b).keys
  next : ∀ b < heap.count, (heap'.leaf b).nextLeaf =
    if (heap.leaf a).prevLeaf = some b then some heap.count else (heap.leaf b).nextLeaf
  prev : ∀ b < heap.count, (heap'.leaf b).prevLeaf =
    if (heap.leaf a).nextLeaf = some b then some (heap.count + 1) else (heap.leaf b).prevLeaf
  first : heap'.leaf heap.count = ⟨keys₁, (heap.leaf a).prevLeaf, some (heap.count + 1)⟩
  second : heap'.leaf (heap.count + 1) = ⟨keys₂, some heap.count, (heap.leaf a).nextLeaf⟩

omit hshape hlo hhi hkey in
lemma LeafHeap.update?_leaf (heap : LeafHeap) (addr : Option ℕ) (f : LeafNode → LeafNode) (b : ℕ) :
    (heap.update? addr f).leaf b = if addr = some b then f (heap.leaf b) else heap.leaf b := by
  cases addr with
  | none => simp [update?]
  | some addr =>
    rw [update?, update_leaf]
    by_cases h : b = addr
    · simp [h]
    · simp [h, Ne.symm h]

omit hshape hlo hhi hkey in
lemma LeafHeap.update?_count (heap : LeafHeap) (addr : Option ℕ) (f : LeafNode → LeafNode) :
    (heap.update? addr f).count = heap.count := by
  cases addr with
  | none => rfl
  | some addr => rfl

omit hshape hlo hhi hkey in
lemma splitLeaf_spec (maxSlot : ℕ) (heap : LeafHeap) (a : ℕ) (key : KeyType)
    (hprev : ∀ b ∈ (heap.leaf a).prevLeaf, b < heap.count) (hnext : ∀ b ∈ (heap.leaf a).nextLeaf, b < heap.count) :
    ∃ heap', splitLeaf maxSlot heap a key = (heap', .two heap.count
        ((splitKeys maxSlot (heap.leaf a).keys key).2.getD 0 ⟨0, false⟩).docId (heap.count + 1)) ∧
      SplitHeap heap heap' a (splitKeys maxSlot (heap.leaf a).keys key).1
        (splitKeys maxSlot (heap.leaf a).keys key).2 := by
  have hfresh : ∀ n ≥ heap.count, (heap.leaf a).prevLeaf ≠ some n ∧ (heap.leaf a).nextLeaf ≠ some n :=
    fun n hn => ⟨fun h => absurd (hprev n h) (by omega), fun h => absurd (hnext n h) (by omega)⟩
  obtain ⟨hp₁, hn₁⟩ := hfresh heap.count le_rfl
  obtain ⟨hp₂, hn₂⟩ := hfresh (heap.count + 1) (by omega)
  have hsecond : (splitLeaf maxSlot heap a key).1.leaf (heap.count + 1) =
      ⟨(splitKeys maxSlot (heap.leaf a).keys key).2, some heap.count, (heap.leaf a).nextLeaf⟩ := by
    simp only [splitLeaf, update?_leaf, allocate_leaf, if_neg hp₂, if_neg hn₂]
    simp [allocate]
  have hold : ∀ b < heap.count, (splitLeaf maxSlot heap a key).1.leaf b =
      ⟨(heap.leaf b).keys,
        if (heap.leaf a).nextLeaf = some b then some (heap.count + 1) else (heap.leaf b).prevLeaf,
        if (heap.leaf a).prevLeaf = some b then some heap.count else (heap.leaf b).nextLeaf⟩ := by
    intro b hb
    simp only [splitLeaf, update?_leaf, allocate_leaf, allocate_count,
      if_neg (by omega : ¬ b = heap.count + 1), if_neg (by omega : ¬ b = heap.count)]
    by_cases hp : (heap.leaf a).prevLeaf = some b <;> by_cases hn : (heap.leaf a).nextLeaf = some b <;>
      simp only [hp, hn, if_true, if_false]
  refine ⟨(splitLeaf maxSlot heap a key).1, ?_, ?_, fun b hb => by rw [hold b hb],
    fun b hb => by rw [hold b hb], fun b hb => by rw [hold b hb], ?_, hsecond⟩
  · rw [← Prod.eta (splitLeaf maxSlot heap a key)]
    have hkey : ((splitLeaf maxSlot heap a key).1.leaf (heap.count + 1)).key 0 =
        (splitKeys maxSlot (heap.leaf a).keys key).2.getD 0 ⟨0, false⟩ := by
      rw [hsecond, LeafNode.key]
    rw [← hkey]
    rfl
  · simp only [splitLeaf, update?_count]
    rfl
  · simp only [splitLeaf, update?_leaf, allocate_leaf, allocate_count,
      if_neg hp₁, if_neg hn₁]
    simp

omit hshape hlo hhi hkey in
/-- The key between the two parts lies inside the range of the leaf. -/
lemma Halves.between {keys₁ keys₂ : List KeyType} {k : ℤ}
    (hhalves : Halves (heap.leaf a) key keys₁ keys₂ k) (hok : LeafOk maxSlot heap lo hi known a)
    (hlo : lo a < key.docId) (hhi : key.docId ≤ hi a) (hkey : 0 ≤ key.docId)
    (hlt : key.docId < 2 ^ 31 - 1) : lo a < k ∧ k < hi a := by
  have hrange := hok.range_insertKey hlo hhi hkey hlt
  rw [← hhalves.append] at hrange
  obtain ⟨x, rest, hx⟩ := exists_cons_of_ne_nil hhalves.head₁
  obtain ⟨y, hy, hky⟩ := hhalves.last₂
  have hxrange := hrange x (by simp [hx])
  have hyrange := hrange y (mem_append_right _ hy)
  have hxk := hhalves.below x (by simp [hx])
  omega

/-- The leaves after a split: two new ones in the place of the old one. -/
abbrev splitLeaves (count : ℕ) (front back : List ℕ) : List ℕ := front ++ count :: (count + 1) :: back

/-- The bounds after a split: the two parts have those of the old leaf, and `k` between them. -/
structure SplitBounds (count a : ℕ) (k : ℤ) (lo hi lo' hi' : ℕ → ℤ) : Prop where
  old : ∀ b < count, lo' b = lo b ∧ hi' b = hi b
  first : lo' count = lo a ∧ hi' count = k
  second : lo' (count + 1) = k ∧ hi' (count + 1) = hi a

omit hshape hlo hhi hkey in
/-- An old leaf is in the tree afterwards if it was before and is not the one that was split. -/
lemma mem_splitLeaves {count : ℕ} (hb : b < count) : b ∈ splitLeaves count front back ↔ b ∈ front ∨ b ∈ back := by
  have hne₁ : b ≠ count := by omega
  have hne₂ : b ≠ count + 1 := by omega
  simp [hne₁, hne₂]

omit hlo hhi hkey in
lemma Shape.lt_count (hb : b ∈ front ∨ b ∈ back) : b < heap.count :=
  hshape.live b (by rcases hb with h | h <;> simp [h])

section
variable {lo' hi' : ℕ → ℤ} {keys₁ keys₂ : List KeyType} {k : ℤ} (hsplit : SplitHeap heap heap' a keys₁ keys₂)
  (hbounds : SplitBounds heap.count a k lo hi lo' hi')

omit hlo hhi hkey in
include hbounds in
lemma Shape.tiles_split (hk : lo a < k ∧ k < hi a) :
    Tiles lo' hi' (splitLeaves heap.count front back) (-1) (2 ^ 31 - 1) := by
  obtain ⟨hold, hfirst, hsecond⟩ := hbounds
  obtain ⟨m, hfront, hlom, -, hback⟩ := hshape.tiles.of_append
  have hleft : ∀ b ∈ front, lo' b = lo b ∧ hi' b = hi b := fun b hb => hold b (hshape.lt_count (.inl hb))
  have hright : ∀ b ∈ back, lo' b = lo b ∧ hi' b = hi b := fun b hb => hold b (hshape.lt_count (.inr hb))
  refine Tiles.append (hfront.congr (fun b hb => (hleft b hb).1) fun b hb => (hleft b hb).2)
    ⟨by rw [hfirst.1, hlom], by rw [hfirst.1, hfirst.2]; exact hk.1, by rw [hsecond.1, hfirst.2],
      by rw [hsecond.1, hsecond.2]; exact hk.2, ?_⟩
  rw [hsecond.2]
  exact hback.congr (fun b hb => (hright b hb).1) fun b hb => (hright b hb).2

omit hlo hhi hkey in
include hsplit in
lemma Shape.linked_split : Linked heap' none (splitLeaves heap.count front back) none := by
  obtain ⟨hfrontNodup, hbackNodup, hdisjoint⟩ := nodup_append.mp hshape.tiles.nodup
  obtain ⟨hprevA, hnextA⟩ := hshape.linked.neighbours
  obtain ⟨hfront, hback⟩ := linked_append.mp hshape.linked
  refine linked_append.mpr ⟨hfront.setNext hfrontNodup (fun b hb => ?_) fun b hb => ?_, ?_, ?_, ?_, ?_, ?_⟩
  · have hne : (heap.leaf a).nextLeaf ≠ some b := by
      rw [hnextA]
      exact fun h => hdisjoint b hb b (mem_cons_of_mem _ (mem_of_mem_head? h)) rfl
    rw [hsplit.prev b (hshape.lt_count (.inl hb)), if_neg hne]
  · rw [hsplit.next b (hshape.lt_count (.inl hb)), hprevA]
    rfl
  · rw [hsplit.first, hprevA]
    simp
  · rw [hsplit.first]
    rfl
  · rw [hsplit.second]
  · rw [hsplit.second, hnextA]
    simp
  · refine hback.2.2.setPrev (nodup_cons.mp hbackNodup).2 (fun b hb => ?_) fun b hb => ?_
    · have hne : (heap.leaf a).prevLeaf ≠ some b := by
        rw [hprevA]
        exact fun h => hdisjoint b (mem_of_getLast? h) b (mem_cons_of_mem _ hb) rfl
      rw [hsplit.next b (hshape.lt_count (.inr hb)), if_neg hne]
    · rw [hsplit.prev b (hshape.lt_count (.inr hb)), hnextA]

include hsplit hbounds in
/-- An old leaf keeps its keys and its range; the one before the split leaf gets a new neighbour. -/
lemma Shape.leafOk_old (hb : b < heap.count) : LeafOk maxSlot heap' lo' hi'
    (knownIn (splitLeaves heap.count front back) (insert key.docId entered) known) b := by
  have hok := hshape.leafOk b hb
  refine hok.of_keys_eq (hsplit.keys b hb) (hbounds.old b hb).1 (hbounds.old b hb).2 ?_ ?_
  · by_cases hlive : b ∈ front ∨ b ∈ back
    · rw [knownIn_of_mem ((mem_splitLeaves hb).mpr hlive)]
      exact hshape.covers_insert hlo hhi hkey hlive
    · rw [knownIn_of_not_mem fun h => hlive ((mem_splitLeaves hb).mp h)]
      exact hok.covers
  rw [hsplit.next b hb, hsplit.count]
  by_cases hprev : (heap.leaf a).prevLeaf = some b
  · -- the leaf before the one that was split
    obtain ⟨hbfront, hnextb⟩ := hshape.linked.next_of_prev hprev
    rw [if_pos hprev]
    refine Or.inr ⟨heap.count, rfl, by omega, ?_, ?_⟩
    · rcases hok.next with ⟨hnone, -⟩ | ⟨c, hc, -, hloc, -⟩
      · rw [hnextb] at hnone
        cases hnone
      · rw [hnextb] at hc
        cases hc
        rw [hbounds.first.1, hloc]
    · rw [knownIn_of_mem (by simp [hbfront]), knownIn_of_mem (by simp)]
  rw [if_neg hprev]
  refine hok.next.imp_right ?_
  rintro ⟨c, hc, hcount, hloc, hknown⟩
  refine ⟨c, hc, by omega, by rw [(hbounds.old c hcount).1, hloc], ?_⟩
  by_cases hlive : b ∈ front ∨ b ∈ back
  · have hbmem : b ∈ front ++ a :: back := by rcases hlive with h | h <;> simp [h]
    have hca : c ≠ a := by
      rintro rfl
      exact hprev (hshape.linked.prev_of_next hbmem hc)
    have hclive : c ∈ front ∨ c ∈ back := by simpa [hca] using hshape.linked.next_mem hbmem hc
    rw [knownIn_of_mem ((mem_splitLeaves hb).mpr hlive), knownIn_of_mem ((mem_splitLeaves hcount).mpr hclive)]
  · rw [knownIn_of_not_mem fun h => hlive ((mem_splitLeaves hb).mp h)]
    refine hknown.trans (hshape.known_subset (fun x hx hx' => ?_) hcount)
    rcases (mem_splitLeaves hx').mp hx with h | h <;> simp [h]

variable (hlt : key.docId < 2 ^ 31 - 1) (hhalves : Halves (heap.leaf a) key keys₁ keys₂ k)

omit hlo hhi hkey in
include hhalves in
/-- The docids in the range of the old leaf are among the keys of the parts. -/
lemma Shape.covers_halves : ∀ d ∈ insert key.docId entered, lo a ≤ d → d < hi a → d ∈ docIds (keys₁ ++ keys₂) := by
  have hamem : a ∈ front ++ a :: back := by simp
  have hok := hshape.leafOk a (hshape.live a hamem)
  intro d hd hlod hhid
  rw [hhalves.append, mem_docIds_insertKey hok.sorted]
  refine hd.imp_right fun hd => hok.covers d ?_ hlod hhid
  rwa [hshape.known_live a hamem]

include hsplit hbounds hlt hhalves

lemma Shape.leafOk_first : LeafOk maxSlot heap' lo' hi'
    (knownIn (splitLeaves heap.count front back) (insert key.docId entered) known) heap.count := by
  have hok := hshape.leafOk a (hshape.live a (by simp))
  have hk := hhalves.between hok hlo hhi hkey hlt
  have hrange := hok.range_insertKey hlo hhi hkey hlt
  have hsorted := sorted_insertKey hok.sorted key
  rw [← hhalves.append] at hrange hsorted
  refine ⟨?_, ?_, ?_, ?_, ?_, ?_, ?_, Or.inr ⟨heap.count + 1, by rw [hsplit.first], by rw [hsplit.count]; omega,
    by rw [hbounds.second.1, hbounds.first.2], by rw [knownIn_of_mem (by simp), knownIn_of_mem (by simp)]⟩⟩
  all_goals simp only [hsplit.first, hbounds.first.1, hbounds.first.2]
  · exact (pairwise_append.mp hsorted).1
  · exact hhalves.length₁.trans hok.room
  · exact hok.bot
  · exact hk.1
  · intro x hx
    have hx' := hrange x (mem_append_left _ hx)
    exact ⟨hx'.1, (hhalves.below x hx).le, hx'.2.2⟩
  · intro hne
    obtain ⟨x, hhead, hx⟩ := hok.head hne
    have hhead' := head?_insertKey hhead (by omega : x.docId < key.docId)
    rw [← hhalves.append, head?_append_of_ne_nil _ hhalves.head₁] at hhead'
    exact ⟨x, hhead', hx⟩
  · rw [knownIn_of_mem (by simp)]
    intro d hd hlod hdk
    obtain ⟨x, hx, rfl⟩ := mem_docIds.mp (hshape.covers_halves hhalves d hd hlod (hdk.trans hk.2))
    rcases mem_append.mp hx with hx | hx
    · exact mem_docIds_of_mem hx
    · exact absurd (hhalves.above x hx) (by omega)

lemma Shape.leafOk_second : LeafOk maxSlot heap' lo' hi'
    (knownIn (splitLeaves heap.count front back) (insert key.docId entered) known) (heap.count + 1) := by
  have hok := hshape.leafOk a (hshape.live a (by simp))
  have hk := hhalves.between hok hlo hhi hkey hlt
  have hrange := hok.range_insertKey hlo hhi hkey hlt
  have hsorted := sorted_insertKey hok.sorted key
  rw [← hhalves.append] at hrange hsorted
  refine ⟨?_, ?_, ?_, ?_, ?_, ?_, ?_, ?_⟩
  all_goals simp only [hsplit.second, hbounds.second.1, hbounds.second.2]
  · exact (pairwise_append.mp hsorted).2.1
  · exact hhalves.length₂.trans hok.room
  · exact hok.bot.trans hk.1.le
  · exact hk.2
  · intro x hx
    exact ⟨hhalves.above x hx, (hrange x (mem_append_right _ hx)).2⟩
  · exact fun _ => hhalves.head₂
  · rw [knownIn_of_mem (by simp)]
    intro d hd hkd hdhi
    obtain ⟨x, hx, rfl⟩ := mem_docIds.mp (hshape.covers_halves hhalves d hd (hk.1.le.trans hkd) hdhi)
    rcases mem_append.mp hx with hx | hx
    · exact absurd (hhalves.below x hx) (by omega)
    · exact mem_docIds_of_mem hx
  · rw [hsplit.count]
    refine hok.next.imp_right ?_
    rintro ⟨c, hc, hcount, hloc, -⟩
    have hcback : c ∈ back := mem_of_mem_head? (hshape.linked.neighbours.2.symm.trans hc)
    refine ⟨c, hc, by omega, by rw [(hbounds.old c hcount).1, hloc], ?_⟩
    rw [knownIn_of_mem (by simp), knownIn_of_mem (by simp [hcback])]

/-- A full leaf, replaced by its two parts. -/
lemma Shape.split : Shape maxSlot heap' lo' hi'
      (knownIn (splitLeaves heap.count front back) (insert key.docId entered) known)
      (splitLeaves heap.count front back) (insert key.docId entered) := by
  have hok := hshape.leafOk a (hshape.live a (by simp))
  refine ⟨fun b hb => ?_, hshape.tiles_split hbounds (hhalves.between hok hlo hhi hkey hlt), fun b hb => ?_,
    fun b hb => knownIn_of_mem hb, hshape.linked_split hsplit⟩
  · rw [hsplit.count] at hb
    rcases (by omega : b < heap.count ∨ b = heap.count ∨ b = heap.count + 1) with hold | rfl | rfl
    · exact hshape.leafOk_old hlo hhi hkey hsplit hbounds hold
    · exact hshape.leafOk_first hlo hhi hkey hsplit hbounds hlt hhalves
    · exact hshape.leafOk_second hlo hhi hkey hsplit hbounds hlt hhalves
  · rw [hsplit.count]
    rcases mem_append.mp hb with hb | hb
    · exact (hshape.lt_count (.inl hb)).trans (by omega)
    rcases mem_cons.mp hb with rfl | hb
    · omega
    rcases mem_cons.mp hb with rfl | hb
    · omega
    · exact (hshape.lt_count (.inr hb)).trans (by omega)

end

end

end Havenask.DynamicSearchTree
