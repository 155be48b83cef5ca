import Havenask.HashTable.Cuckoo
import Havenask.Lib.BlockPlacement

/-!
# The searches of `CuckooHashTable`

Both breadth-first searches look for a slot that is not *taken*, and end with a kick along the path
to it.  In an insertion the occupied buckets are taken; in a rehash those that are occupied and done.
Neither the search nor the kick depends on which it is, so both are followed here for any set of
taken slots.

* `SearchOk` is what a search keeps true: the blocks it has marked are full, and each node was
  reached from a bucket of its parent whose key may move to it (`NodeOk`).
* `Found` is what it ends with.
* `Layout` says how the buckets lie, with a hole or without.  `cuckooKick_spec`: a kick brings the
  hole from the slot that was found to a root of the search and keeps the layout, provided that every
  bucket it moves is still occupied after the move (`Kept`), and keeps the bag of buckets, provided
  that it moves them unchanged (`Copied`).
-/

namespace Havenask

open SlotArray Bucket LawfulBucket ForLoop BlockPlacement List Function

namespace Cuckoo

variable {B V : Type} {w : ℕ} [Bucket B w V]

/-! ## Buckets that survive a kick -/

/-- The bucket stays occupied when it is moved. -/
def Kept (b : B) : Prop := isEmpty (setBucket new b) = false

/-- The bucket is moved as it is. -/
def Copied (b : B) : Prop := setBucket new b = b

variable {ev : Event B}

namespace Event

/-- Nothing happened that can spoil the layout: no kick moved a bucket that is empty afterwards, and
the search counter did not come round. -/
def Keeps : Event B → Prop
  | kick b => isEmpty b = false → Kept b
  | wrap => False
  | lost _ => True
  | left _ => True

/-- As before, and kicks moved buckets as they were. -/
def Copies : Event B → Prop
  | kick b => Copied b
  | wrap => False
  | lost _ => True
  | left _ => True

/-- As before, and no rehash failed half-way. -/
def Faithful : Event B → Prop
  | kick b => Copied b
  | wrap => False
  | lost _ => False
  | left _ => False

instance : DecidablePred (Keeps : Event B → Prop)
  | kick b => inferInstanceAs (Decidable (isEmpty b = false → isEmpty (setBucket new b) = false))
  | wrap => isFalse id
  | lost _ => isTrue trivial
  | left _ => isTrue trivial

instance [DecidableEq B] : DecidablePred (Faithful : Event B → Prop)
  | kick b => inferInstanceAs (Decidable (setBucket new b = b))
  | wrap => isFalse id
  | lost _ => isFalse id
  | left _ => isFalse id

lemma Copies.keeps (h : ev.Copies) : ev.Keeps := by
  cases ev with
  | kick b =>
    intro hb
    have hcopied : setBucket new b = b := h
    rw [Kept, hcopied, hb]
  | wrap => exact h
  | lost b => trivial
  | left b => trivial

lemma Faithful.copies (h : ev.Faithful) : ev.Copies := by
  cases ev with
  | kick b => exact h
  | wrap => exact h
  | lost b => trivial
  | left b => trivial

/-- A note that searches make. -/
def IsMove : Event B → Prop
  | kick _ => True
  | wrap => True
  | lost _ => False
  | left _ => False

lemma faithful_iff : ev.Faithful ↔ ev.Copies ∧ ev.IsMove := by
  cases ev <;> simp [Faithful, Copies, IsMove]

end Event

/-- The later history has only notes of searches more. -/
def Moves (history history' : List (Event B)) : Prop := ∃ es, history' = es ++ history ∧ ∀ ev ∈ es, ev.IsMove

namespace Moves

variable {h h' h'' : List (Event B)}

lemma refl (h : List (Event B)) : Moves h h := ⟨[], rfl, by simp⟩

lemma cons (h : List (Event B)) (hev : ev.IsMove) : Moves h (ev :: h) :=
  ⟨[ev], rfl, by simpa using hev⟩

lemma trans (h₁ : Moves h h') (h₂ : Moves h' h'') : Moves h h'' := by
  obtain ⟨es, rfl, hes⟩ := h₁
  obtain ⟨es', rfl, hes'⟩ := h₂
  refine ⟨es' ++ es, by rw [append_assoc], fun ev hev => ?_⟩
  exact (mem_append.mp hev).elim (hes' ev) (hes ev)

lemma suffix (h₁ : Moves h h') : h <:+ h' := by
  obtain ⟨es, rfl, -⟩ := h₁
  exact suffix_append es h

lemma isMove (h₁ : Moves h h') (h₂ : ∀ ev ∈ h, ev.IsMove) : ∀ ev ∈ h', ev.IsMove := by
  obtain ⟨es, rfl, hes⟩ := h₁
  exact fun ev hev => (mem_append.mp hev).elim (hes ev) (h₂ ev)

end Moves

/-! ## Searches -/

/-- The blocks lie in a region of `N` slots. -/
def Blocks (first : BitVec w → ℕ → ℕ) (N : ℕ) : Prop := ∀ k j, 4 ∣ first k j ∧ first k j + 4 ≤ N

/-- What a search is about: a slot for `key`, in buckets some of which are taken. -/
structure Problem (B : Type) (w : ℕ) where
  first : BitVec w → ℕ → ℕ
  nu : ℕ
  bucket : ℕ → B
  taken : Set ℕ
  key : BitVec w
  curCallId : ℕ

/-- The blocks of the key at a slot. -/
def Problem.blockAt (P : Problem B w) (s j : ℕ) : ℕ := P.first (Bucket.key (P.bucket s)) j

/-- The node `n` at the index `idx` of a search.  A root is a block of the key; any other node is a
block of the key at some slot of its parent, the first of its blocks that is not full, and a block
that no earlier node has. -/
structure NodeOk (P : Problem B w) (tree : List TreeNode) (idx : ℕ) (n : TreeNode) : Prop where
  dvd : 4 ∣ n.bucketId
  root : n.parent = none → ∃ j < P.nu, n.bucketId = P.first P.key j
  child : ∀ p, n.parent = some p → p < idx ∧ n.inBlockId < 4 ∧ ∃ np, tree[p]? = some np
    ∧ Full P.taken np.bucketId
    ∧ (∃ j < P.nu, n.bucketId = P.blockAt (np.bucketId + n.inBlockId) j
      ∧ ∀ j' < j, Full P.taken (P.blockAt (np.bucketId + n.inBlockId) j'))
    ∧ ∀ i < idx, ∀ ni, tree[i]? = some ni → ni.bucketId ≠ n.bucketId

def TreeOk (P : Problem B w) (tree : List TreeNode) : Prop := ∀ idx n, tree[idx]? = some n → NodeOk P tree idx n

/-- What a search keeps true until it finds a slot. -/
structure SearchOk (P : Problem B w) (s : Search) : Prop where
  tree : TreeOk P s.tree
  full : ∀ n ∈ s.tree, Full P.taken n.bucketId
  marked : ∀ n ∈ s.tree, s.callIdVec (n.bucketId / 4) = P.curCallId
  full_of_marked : ∀ b, 4 ∣ b → s.callIdVec (b / 4) = P.curCallId → Full P.taken b
  bound : ∀ i, s.callIdVec i ≤ P.curCallId

/-- A search that found the slot `e`: the last node has it, and is not a root. -/
structure Found (P : Problem B w) (s : Search) (e : ℕ) : Prop where
  tree : TreeOk P s.tree
  bound : ∀ i, s.callIdVec i ≤ P.curCallId
  last : ∃ tree n p, s.tree = tree ++ [n] ∧ n.parent = some p ∧ FirstFree P.taken n.bucketId e

variable {P : Problem B w} {N : ℕ}

variable {n : TreeNode} {taken : Set ℕ} {s : Search}

variable {idx : ℕ}

lemma NodeOk.congr {tree tree' : List TreeNode}
    (h : NodeOk P tree idx n) (hsame : ∀ i < idx, tree'[i]? = tree[i]?) : NodeOk P tree' idx n := by
  refine ⟨h.dvd, h.root, fun p hp => ?_⟩
  obtain ⟨hlt, hin, np, hnp, hfull, hkey, hnew⟩ := h.child p hp
  refine ⟨hlt, hin, np, ?_, hfull, hkey, fun i hi ni hni => ?_⟩
  · rw [hsame p hlt, hnp]
  · rw [hsame i hi] at hni
    exact hnew i hi ni hni

lemma TreeOk.push {tree : List TreeNode} (h : TreeOk P tree)
    (hn : NodeOk P tree tree.length n) : TreeOk P (tree ++ [n]) := by
  intro idx n' hget
  rcases lt_trichotomy idx tree.length with hlt | rfl | hgt
  · rw [getElem?_append_left hlt] at hget
    exact (h idx n' hget).congr fun i hi => getElem?_append_left (by omega)
  · rw [getElem?_concat_length] at hget
    obtain rfl := Option.some_inj.mp hget
    exact hn.congr fun i hi => getElem?_append_left hi
  · rw [getElem?_eq_none (by simp; omega)] at hget
    cases hget

namespace SearchOk

variable {s : Search}

lemma mark (h : SearchOk P s) {b : ℕ} (hb : 4 ∣ b) (hfull : Full P.taken b) : SearchOk P (s.mark P.curCallId b) := by
  refine ⟨h.tree, h.full, fun n hn => ?_, fun b' hb' hm => ?_, fun i => ?_⟩
  · by_cases heq : n.bucketId / 4 = b / 4
    · rw [heq, Search.mark_callIdVec_self]
    · rw [Search.mark_callIdVec_of_ne _ _ _ heq]
      exact h.marked n hn
  · by_cases heq : b' / 4 = b / 4
    · obtain rfl : b' = b := by omega
      exact hfull
    · rw [Search.mark_callIdVec_of_ne _ _ _ heq] at hm
      exact h.full_of_marked b' hb' hm
  · by_cases heq : i = b / 4
    · rw [heq, Search.mark_callIdVec_self]
    · rw [Search.mark_callIdVec_of_ne _ _ _ heq]
      exact h.bound i

lemma push (h : SearchOk P s) {n : TreeNode} (hn : NodeOk P s.tree s.tree.length n)
    (hfull : Full P.taken n.bucketId) (hmark : s.callIdVec (n.bucketId / 4) = P.curCallId) :
    SearchOk P (s.push n) := by
  refine ⟨h.tree.push hn, fun n' hn' => ?_, fun n' hn' => ?_, h.full_of_marked, h.bound⟩
  · rcases mem_append.mp hn' with hn' | hn'
    · exact h.full n' hn'
    · rw [mem_singleton.mp hn']
      exact hfull
  rcases mem_append.mp hn' with hn' | hn'
  · exact h.marked n' hn'
  · rw [mem_singleton.mp hn']
    exact hmark

/-- The node for an unmarked block, met from a bucket whose earlier blocks are full. -/
lemma nodeOk (h : SearchOk P s) {c j : ℕ} {np : TreeNode} (hnp : s.tree[idx]? = some np)
    (hc : c < 4) (hj : j < P.nu) (hdvd : 4 ∣ P.blockAt (np.bucketId + c) j)
    (hprev : ∀ j' < j, Full P.taken (P.blockAt (np.bucketId + c) j'))
    (hmark : ¬ s.marked P.curCallId (P.blockAt (np.bucketId + c) j) = true) :
    NodeOk P s.tree s.tree.length ⟨P.blockAt (np.bucketId + c) j, some idx, c⟩ := by
  refine ⟨hdvd, fun hroot => (by cases hroot), fun p hp => ?_⟩
  obtain rfl := Option.some_inj.mp hp
  obtain ⟨hlt, -⟩ := List.getElem?_eq_some_iff.mp hnp
  refine ⟨hlt, hc, np, hnp, h.full np (mem_of_getElem? hnp), ⟨j, hj, rfl, hprev⟩, ?_⟩
  intro i _ ni hni heq
  refine hmark (decide_eq_true ?_)
  have hmarked := h.marked ni (mem_of_getElem? hni)
  rwa [heq] at hmarked

end SearchOk

/-! ## Free slots -/

lemma findFree_spec (free : ℕ → Bool) (b : ℕ) : match findFree free b with
    | none => ∀ c < 4, free (b + c) = false
    | some c => c < 4 ∧ free (b + c) = true ∧ ∀ c' < c, free (b + c') = false := by
  have hrule := forLoop_rule
    (f := fun inBlockId (_ : Unit) =>
      if free (b + inBlockId) then (some inBlockId, ()) else (none, ()))
    (fun i _ => ∀ c < i, free (b + c) = false)
    (fun c _ => c < 4 ∧ free (b + c) = true ∧ ∀ c' < c, free (b + c') = false) (a := 0) 4
    (fun i s _ hi hbefore => by
      by_cases hfree : free (b + i) = true
      · rw [if_pos hfree]
        exact ⟨by omega, hfree, hbefore⟩
      rw [if_neg hfree]
      intro c hc
      rcases Nat.lt_succ_iff_lt_or_eq.mp hc with hlt | rfl
      · exact hbefore c hlt
      · simpa using hfree)
    (s := ()) (fun c hc => absurd hc (Nat.not_lt_zero c))
  unfold findFree
  generalize forLoop _ 4 0 () = r at hrule ⊢
  obtain ⟨_ | c, u⟩ := r
  · exact hrule
  · exact hrule

/-- The free slots, among the first `N`, are those that are not taken. -/
def FreeOk (free : ℕ → Bool) (taken : Set ℕ) (N : ℕ) : Prop := ∀ s < N, free s = false ↔ s ∈ taken

lemma FreeOk.findFree {free : ℕ → Bool} (h : FreeOk free taken N) {b : ℕ} (hb : b + 4 ≤ N) :
    match Cuckoo.findFree free b with
    | none => Full taken b
    | some c => FirstFree taken b (b + c) := by
  have hspec := findFree_spec free b
  cases hres : Cuckoo.findFree free b with
  | none =>
    rw [hres] at hspec
    exact fun c hc => (h _ (by omega)).mp (hspec c hc)
  | some c =>
    rw [hres] at hspec
    obtain ⟨hc, hfree, hbefore⟩ := hspec
    refine ⟨Nat.le_add_right b c, by omega, fun hmem => ?_, fun s hs hlt => ?_⟩
    · rw [(h _ (by omega)).mpr hmem] at hfree
      cases hfree
    · obtain ⟨c', rfl⟩ := Nat.exists_eq_add_of_le hs
      exact (h _ (by omega)).mp (hbefore c' (by omega))

/-- Below 2^32 slots the 32-bit counter makes no difference. -/
lemma findFree32_eq {free : ℕ → Bool} {b : ℕ} (hb : b + 4 < 2 ^ 32) :
    findFree32 free b = some ((findFree free b).map (b + ·)) :=
  if_pos hb

/-! ## Visiting blocks -/

/-- What a visit does in a search: it keeps the search right, or ends it with a slot.  It may be
`blocked` and pass over the block. -/
def VisitOk {α : Type} (P : Problem B w) (visit : ℕ → ℕ → ℕ → Search → Option α × Search)
    (blocked : Search → Prop) (slot : Search → α → Option ℕ) : Prop :=
  ∀ idx np c j s, SearchOk P s → s.tree[idx]? = some np → c < 4 → j < P.nu →
    (∀ j' < j, Full P.taken (P.blockAt (np.bucketId + c) j')) ∨ blocked s →
    Post
      (fun s' => SearchOk P s' ∧ s.tree <+: s'.tree
        ∧ ((∀ j' < j + 1, Full P.taken (P.blockAt (np.bucketId + c) j')) ∨ blocked s'))
      (fun a s' => ∃ e, slot s' a = some e ∧ Found P s' e)
      (visit idx c (P.blockAt (np.bucketId + c) j) s)

lemma forall_lt_succ_full {block : ℕ → ℕ} {j : ℕ}
    (hprev : ∀ j' < j, Full taken (block j')) (h : Full taken (block j)) : ∀ j' < j + 1, Full taken (block j') := by
  intro j' hj'
  rcases Nat.lt_succ_iff_lt_or_eq.mp hj' with hlt | rfl
  · exact hprev j' hlt
  · exact h

/-- A search that has pushed the node of a block with a free slot. -/
lemma SearchOk.found (h : SearchOk P s) {p e : ℕ} (hn : NodeOk P s.tree s.tree.length n) (hp : n.parent = some p)
    (he : FirstFree P.taken n.bucketId e) : Found P ((s.mark P.curCallId n.bucketId).push n) e := by
  refine ⟨h.tree.push hn, fun i => ?_, s.tree, n, p, rfl, hp, he⟩
  rw [Search.push_callIdVec]
  by_cases heq : i = n.bucketId / 4
  · rw [heq, Search.mark_callIdVec_self]
  · rw [Search.mark_callIdVec_of_ne _ _ _ heq]
    exact h.bound i

lemma node_last (s : Search) (n : TreeNode) : (s.push n).node ((s.push n).tree.length - 1) = n := by
  simp [Search.push, Search.node]

lemma bfsVisit_ok (hblocks : Blocks P.first N) (hfree : FreeOk (fun i => isEmpty (P.bucket i)) P.taken N) :
    VisitOk P (bfsVisit P.bucket P.curCallId) (fun s => maxNumBfsTreeNode ≤ s.tree.length)
      fun s c => some ((s.node (s.tree.length - 1)).bucketId + c) := by
  intro idx np c j s hs hnp hc hj hprev
  obtain ⟨hdvd, hN⟩ : 4 ∣ P.blockAt (np.bucketId + c) j ∧ P.blockAt (np.bucketId + c) j + 4 ≤ N := hblocks _ j
  unfold bfsVisit
  by_cases hmark : s.marked P.curCallId (P.blockAt (np.bucketId + c) j) = true
  · rw [if_pos hmark]
    have hfull := hs.full_of_marked _ hdvd (of_decide_eq_true hmark)
    exact ⟨hs, prefix_rfl, hprev.imp_left fun h => forall_lt_succ_full h hfull⟩
  rw [if_neg hmark]
  by_cases hmax : maxNumBfsTreeNode ≤ s.tree.length
  · rw [if_pos hmax]
    exact ⟨hs, prefix_rfl, Or.inr hmax⟩
  rw [if_neg hmax]
  have hprev' := hprev.resolve_right hmax
  have hnode := hs.nodeOk hnp hc hj hdvd hprev' hmark
  have hscan := hfree.findFree hN
  cases hres : findFree (fun i => isEmpty (P.bucket i)) (P.blockAt (np.bucketId + c) j) with
  | none =>
    rw [hres] at hscan
    exact ⟨(hs.mark hdvd hscan).push hnode hscan (Search.mark_callIdVec_self _ _ _),
      prefix_append _ _, Or.inl (forall_lt_succ_full hprev' hscan)⟩
  | some d =>
    rw [hres] at hscan
    refine ⟨_, rfl, ?_⟩
    rw [node_last]
    exact hs.found hnode rfl hscan

lemma evictionVisit_ok {bitmap : ℕ → Bool} (hblocks : Blocks P.first N) (hN : N < 2 ^ 32)
    (hfree : FreeOk (fun i => isEmpty (P.bucket i) || !bitmap i) P.taken N) :
    VisitOk P (evictionVisit P.bucket bitmap P.curCallId) (fun _ => False) fun _ a => a := by
  intro idx np c j s hs hnp hc hj hprev
  obtain ⟨hdvd, hle⟩ : 4 ∣ P.blockAt (np.bucketId + c) j ∧ P.blockAt (np.bucketId + c) j + 4 ≤ N := hblocks _ j
  have hprev' := hprev.resolve_right id
  unfold evictionVisit
  by_cases hmark : s.marked P.curCallId (P.blockAt (np.bucketId + c) j) = true
  · rw [if_pos hmark]
    have hfull := hs.full_of_marked _ hdvd (of_decide_eq_true hmark)
    exact ⟨hs, prefix_rfl, Or.inl (forall_lt_succ_full hprev' hfull)⟩
  rw [if_neg hmark]
  have hnode := hs.nodeOk hnp hc hj hdvd hprev' hmark
  have hscan := hfree.findFree hle
  have hnarrow := lt_of_le_of_lt hle hN
  simp only [findFree32_eq hnarrow]
  cases hres : findFree (fun i => isEmpty (P.bucket i) || !bitmap i) (P.blockAt (np.bucketId + c) j) with
  | none =>
    rw [hres] at hscan
    have hs' := hs.mark hdvd hscan
    simp only [Option.map_none]
    split_ifs with hroom
    · exact ⟨hs'.push hnode hscan (Search.mark_callIdVec_self _ _ _), prefix_append _ _,
        Or.inl (forall_lt_succ_full hprev' hscan)⟩
    · exact ⟨hs', prefix_rfl, Or.inl (forall_lt_succ_full hprev' hscan)⟩
  | some d =>
    rw [hres] at hscan
    exact ⟨_, rfl, hs.found hnode rfl hscan⟩

/-! ## The loops of a search -/

section
variable {α : Type} {visit : ℕ → ℕ → ℕ → Search → Option α × Search} {blocked : Search → Prop}
  {slot : Search → α → Option ℕ}

lemma visitNode_spec (hvisit : VisitOk P visit blocked slot) {s : Search}
    (hs : SearchOk P s) (hidx : idx < s.tree.length) :
    Post (SearchOk P) (fun a s' => ∃ e, slot s' a = some e ∧ Found P s' e)
      (visitNode P.bucket P.first P.nu visit idx s) := by
  obtain ⟨np, hnp⟩ : ∃ np, s.tree[idx]? = some np := ⟨_, getElem?_eq_getElem hidx⟩
  have hnode : s.node idx = np := by
    rw [Search.node, getD_eq_getElem?_getD, hnp]
    rfl
  have hkeep : ∀ s' : Search, s.tree <+: s'.tree → s'.tree[idx]? = some np := by
    intro s' hpre
    obtain ⟨rest, hrest⟩ := hpre
    rw [← hrest, getElem?_append_left hidx, hnp]
  unfold visitNode
  simp only [hnode]
  refine (forLoop_rule (fun _ s' => SearchOk P s' ∧ s.tree <+: s'.tree)
    (fun a s' => ∃ e, slot s' a = some e ∧ Found P s' e) (a := 0) 4 ?_
    ⟨hs, prefix_rfl⟩).mono (fun _ h => h.1) fun _ _ h => h
  intro c s₁ _ hc hs₁
  -- the blocks that the hash functions before `j` give to the key at `c` are full
  refine (forLoop_rule (fun j s' => (SearchOk P s' ∧ s.tree <+: s'.tree)
      ∧ ((∀ j' < j, Full P.taken (P.blockAt (np.bucketId + c) j')) ∨ blocked s'))
    (fun a s' => ∃ e, slot s' a = some e ∧ Found P s' e) (a := 0) P.nu ?_
    ⟨hs₁, Or.inl fun j' hj' => absurd hj' (Nat.not_lt_zero j')⟩).mono (fun _ h => h.1)
    fun _ _ h => h
  rintro j s₂ - hj ⟨⟨hs₂, hpre⟩, hprev⟩
  refine (hvisit idx np c j s₂ hs₂ (hkeep s₂ hpre) (by omega) (by omega) hprev).mono (fun s' h => ?_) fun _ _ h => h
  exact ⟨⟨h.1, hpre.trans h.2.1⟩, h.2.2⟩

/-- **A search keeps right or finds a slot.** -/
lemma bfsLoop_spec (hvisit : VisitOk P visit blocked slot) (fuel : ℕ) :
    ∀ (idx nextDepthBeginIdx nextDepth : ℕ) (s : Search), SearchOk P s →
      Post (SearchOk P) (fun a s' => ∃ e, slot s' a = some e ∧ Found P s' e)
        (bfsLoop (visitNode P.bucket P.first P.nu visit) fuel idx nextDepthBeginIdx nextDepth s) := by
  induction fuel with
  | zero => exact fun _ _ _ s hs => hs
  | succ fuel ih =>
    intro idx nextDepthBeginIdx nextDepth s hs
    rw [bfsLoop]
    by_cases hend : s.tree.length ≤ idx
    · rw [if_pos hend]
      exact hs
    rw [if_neg hend]
    have hvisited := visitNode_spec hvisit hs (not_le.mp hend)
    generalize visitNode P.bucket P.first P.nu visit idx s = r at hvisited
    split_ifs
    · exact hs
    · obtain ⟨_ | a, s'⟩ := r
      · exact ih _ _ _ s' hvisited
      · exact hvisited
    · obtain ⟨_ | a, s'⟩ := r
      · exact ih _ _ _ s' hvisited
      · exact hvisited

end

/-! ## Layouts -/

variable [LawfulBucket B]

/-- The buckets of the region `N`, arranged for a reader that looks for taken slots. -/
structure Layout (first : BitVec w → ℕ → ℕ) (N nu : ℕ) (m : ℕ → B) (taken hole : Set ℕ) : Prop where
  lt : ∀ s ∈ taken, s < N
  wf : ∀ s < N, s ∉ hole → Wf (m s)
  fresh : ∀ s < N, s ∉ hole → isEmpty (m s) = true → m s = new
  occ : ∀ s ∈ taken, s ∉ hole → isEmpty (m s) = false
  arranged : Arranged first nu (fun s => key (m s)) taken hole

namespace Layout

variable {first : BitVec w → ℕ → ℕ} {nu nu' : ℕ} {m : ℕ → B} {taken hole : Set ℕ} {b e e' : ℕ}

lemma mono (h : Layout first N nu m taken hole) (hnu : nu ≤ nu') : Layout first N nu' m taken hole :=
  ⟨h.lt, h.wf, h.fresh, h.occ, h.arranged.mono hnu⟩

/-- Take the first free slot of a block, to be filled. -/
lemma take (h : Layout first N nu m taken ∅) (hb : 4 ∣ b) (hN : b + 4 ≤ N)
    (he : FirstFree taken b e) : Layout first N nu m (insert e taken) {e} := by
  refine ⟨fun s hs => ?_, fun s hs _ => h.wf s hs (Set.notMem_empty s),
    fun s hs _ => h.fresh s hs (Set.notMem_empty s), fun s hs hhole => ?_, h.arranged.take hb he⟩
  · rcases Set.mem_insert_iff.mp hs with rfl | hs
    · have := he.lt
      omega
    · exact h.lt s hs
  · exact h.occ s (Set.mem_of_mem_insert_of_ne hs hhole) (Set.notMem_empty s)

/-- One step of a kick: the bucket of `e'` goes to the hole, and the hole to `e'`. -/
lemma kick (h : Layout first N nu m taken {e}) (hmem : e' ∈ taken) (hne : e' ≠ e)
    (hkept : isEmpty (m e') = false → Kept (m e')) (hlegal : Legal first nu taken (key (m e')) e) (b : B) :
    Layout first N nu (update (update m e (setBucket (m e) (m e'))) e' b) taken {e'} := by
  have hocc := h.occ e' hmem hne
  obtain ⟨hwf, hkey⟩ := setBucket_spec (m e) (h.wf e' (h.lt e' hmem) hne) hocc
  have hkept' : isEmpty (setBucket (m e) (m e')) = false := by
    rw [setBucket_congr (m e) new]
    exact hkept hocc
  have hat : update (update m e (setBucket (m e) (m e'))) e' b e
      = setBucket (m e) (m e') := by
    rw [update_of_ne hne.symm, update_self]
  have hrest : ∀ s, s ≠ e → s ≠ e' → update (update m e (setBucket (m e) (m e'))) e' b s = m s := by
    intro s hse hse'
    rw [update_of_ne hse', update_of_ne hse]
  refine ⟨h.lt, fun s hs hhole => ?_, fun s hs hhole hempty => ?_, fun s hs hhole => ?_, ?_⟩
  · by_cases hse : s = e
    · rw [hse, hat]
      exact hwf
    · rw [hrest s hse hhole]
      exact h.wf s hs hse
  · by_cases hse : s = e
    · rw [hse, hat, hkept'] at hempty
      cases hempty
    · rw [hrest s hse hhole] at hempty ⊢
      exact h.fresh s hs hse hempty
  · by_cases hse : s = e
    · rw [hse, hat]
      exact hkept'
    · rw [hrest s hse hhole]
      exact h.occ s hs hse
  · refine h.arranged.move ?_ fun s _ hse hse' => by rw [hrest s hse hse']
    rw [hat, hkey]
    exact hlegal

lemma fill (h : Layout first N nu m taken {e}) {b : B} (hwf : Wf b) (hb : isEmpty b = false)
    (hlegal : Legal first nu taken (key b) e) : Layout first N nu (update m e b) taken ∅ := by
  refine ⟨h.lt, fun s hs _ => ?_, fun s hs _ hempty => ?_, fun s hs _ => ?_, ?_⟩
  · by_cases hse : s = e
    · rw [hse, update_self]
      exact hwf
    · rw [update_of_ne hse]
      exact h.wf s hs hse
  · by_cases hse : s = e
    · rw [hse, update_self, hb] at hempty
      cases hempty
    · rw [update_of_ne hse] at hempty ⊢
      exact h.fresh s hs hse hempty
  · by_cases hse : s = e
    · rw [hse, update_self]
      exact hb
    · rw [update_of_ne hse]
      exact h.occ s hs hse
  · refine h.arranged.fill ?_ fun s _ hse => by rw [update_of_ne hse]
    rw [update_self]
    exact hlegal

/-- Put another bucket with the same key in the place of a bucket. -/
lemma replace (h : Layout first N nu m taken ∅) (he : e ∈ taken) {b : B} (hwf : Wf b)
    (hb : isEmpty b = false) (hkey : key b = key (m e)) : Layout first N nu (update m e b) taken ∅ := by
  have hempty : ∀ s, s ∉ (∅ : Set ℕ) := Set.notMem_empty
  have hopen : Layout first N nu m taken {e} :=
    ⟨h.lt, fun s hs _ => h.wf s hs (hempty s), fun s hs _ => h.fresh s hs (hempty s),
      fun s hs _ => h.occ s hs (hempty s),
      ⟨h.arranged.initial, fun s hs _ => h.arranged.legal s hs (hempty s)⟩⟩
  refine hopen.fill hwf hb ?_
  rw [hkey]
  exact h.arranged.legal e he (hempty e)

end Layout

/-! ## The kick -/

/-- The buckets of the region but the one at `e`. -/
def bagBut (m : ℕ → B) (e N : ℕ) : Multiset B := contents occupied (Function.update m e new) N

lemma bagBut_kick {m : ℕ → B} {e e' N : ℕ} (he : e < N) (he' : e' < N) (hne : e' ≠ e)
    (hocc : isEmpty (m e') = false) (b : B) : bagBut (update (update m e (m e')) e' b) e' N = bagBut m e N := by
  have hfree : occupied (update m e new e) = false := by
    rw [update_self]
    exact occupied_eq_false.mpr isEmpty_new
  have hfill := contents_fill he hfree (occupied_eq_true.mpr hocc)
  have hat : update (update m e new) e (m e') e' = m e' := by
    rw [update_of_ne hne, update_of_ne hne]
  have hclear := contents_clear (m := update (update m e new) e (m e')) he'
    (by rw [hat]; exact occupied_eq_true.mpr hocc) (occupied_eq_false.mpr (isEmpty_new (B := B)))
  rw [hat, hfill] at hclear
  have hcancel := add_right_cancel hclear
  rw [update_idem] at hcancel
  rw [bagBut, update_idem, hcancel, bagBut]

lemma node_eq (h : s.tree[idx]? = some n) : s.node idx = n := by
  rw [Search.node, getD_eq_getElem?_getD, h]
  rfl

omit [LawfulBucket B] in
lemma moves_cuckooKick (s : Search) (fuel : ℕ) :
    ∀ (idx c : ℕ) (m : ℕ → B) (history : List (Event B)), Moves history (cuckooKick s fuel idx c m history).2.2 := by
  induction fuel with
  | zero => exact fun _ _ _ history => Moves.refl history
  | succ fuel ih =>
    intro idx c m history
    rw [cuckooKick]
    cases (s.node idx).parent with
    | none => exact Moves.refl history
    | some p => exact (Moves.cons history (show (Event.kick _).IsMove from trivial)).trans (ih _ _ _ _)

/-- A bucket that is empty and in order. -/
def Emptied (b : B) : Prop := Wf b ∧ isEmpty b = true

lemma emptied_cuckooKick (s : Search) (fuel : ℕ) : ∀ (idx c : ℕ) (m : ℕ → B) (history : List (Event B)),
    Emptied (m ((s.node idx).bucketId + c))
      ∨ (0 < fuel ∧ (s.node idx).parent.isSome = true) →
    Emptied ((cuckooKick s fuel idx c m history).2.1 (cuckooKick s fuel idx c m history).1) := by
  induction fuel with
  | zero => exact fun idx c m history h => h.resolve_right fun h' => lt_irrefl 0 h'.1
  | succ fuel ih =>
    intro idx c m history h
    rw [cuckooKick]
    cases hparent : (s.node idx).parent with
    | none =>
      rw [hparent] at h
      exact h.resolve_right fun h' => by cases h'.2
    | some p =>
      refine ih _ _ _ _ (Or.inl ?_)
      rw [update_self]
      exact setEmpty_spec _

/-- What a kick from the slot `e` does. -/
structure KickOk (P : Problem B w) (N : ℕ) (taken : Set ℕ) (e : ℕ) (m : ℕ → B)
    (r : ℕ × (ℕ → B) × List (Event B)) : Prop where
  layout : (∀ ev ∈ r.2.2, ev.Keeps) → Layout P.first N P.nu r.2.1 taken {r.1}
  root : ∃ j < P.nu, P.first P.key j ≤ r.1 ∧ r.1 < P.first P.key j + 4
  mem : r.1 ∈ taken
  frame : ∀ s ∉ taken, r.2.1 s = m s
  bag : (∀ ev ∈ r.2.2, ev.Copies) → bagBut r.2.1 r.1 N = bagBut m e N

/-- **A kick brings the hole to a root.** -/
lemma cuckooKick_spec (htree : TreeOk P s.tree) (hsub : P.taken ⊆ taken) :
    ∀ (fuel idx c : ℕ) (n : TreeNode) (m : ℕ → B) (history : List (Event B)),
      idx < fuel → s.tree[idx]? = some n → c < 4 → n.bucketId + c ∈ taken →
      ((∀ ev ∈ history, ev.Keeps) → Layout P.first N P.nu m taken {n.bucketId + c}) →
      (∀ p, n.parent = some p → ∀ i < idx, ∀ ni, s.tree[i]? = some ni → ∀ d < 4,
        m (ni.bucketId + d) = P.bucket (ni.bucketId + d)) →
      KickOk P N taken (n.bucketId + c) m (cuckooKick s fuel idx c m history) := by
  -- the nodes above `idx` still hold what they held when the search passed them
  intro fuel
  induction fuel with
  | zero => exact fun idx _ _ _ _ hlt => absurd hlt (Nat.not_lt_zero idx)
  | succ fuel ih =>
    intro idx c n m history hlt hget hc hmem hlayout hsame
    have hn := htree idx n hget
    rw [cuckooKick, node_eq hget]
    cases hparent : n.parent with
    | none =>
      obtain ⟨j, hj, hblock⟩ := hn.root hparent
      refine ⟨hlayout, ⟨j, hj, ?_, ?_⟩, hmem, fun _ _ => rfl, fun _ => rfl⟩
      · rw [← hblock]
        exact Nat.le_add_right _ _
      · rw [← hblock]
        exact Nat.add_lt_add_left hc _
    | some p =>
      obtain ⟨hpi, hin, np, hnp, hfull, ⟨j, hj, hblock, hprev⟩, hnew⟩ := hn.child p hparent
      have hp := htree p np hnp
      have hmem' : np.bucketId + n.inBlockId ∈ taken := hsub (hfull _ hin)
      have hne_block := hnew p hpi np hnp
      have hdn := hn.dvd
      have hdp := hp.dvd
      have hne : np.bucketId + n.inBlockId ≠ n.bucketId + c := by omega
      have hold : m (np.bucketId + n.inBlockId) = P.bucket (np.bucketId + n.inBlockId) :=
        hsame p hparent p hpi np hnp _ hin
      have hlegal : Legal P.first P.nu taken (key (m (np.bucketId + n.inBlockId)))
          (n.bucketId + c) := by
        rw [hold]
        refine ⟨j, hj, hblock.symm.le.trans (Nat.le_add_right _ _), ?_, fun j' hj' =>
          (hprev j' hj').mono hsub⟩
        exact lt_of_lt_of_eq (Nat.add_lt_add_left hc _) (congrArg (· + 4) hblock)
      simp only [node_eq hnp]
      set e := n.bucketId + c
      set e' := np.bucketId + n.inBlockId
      set m₂ := update (update m e (setBucket (m e) (m e'))) e'
        (setEmpty (update m e (setBucket (m e) (m e')) e')) with hm₂
      have hrest : ∀ s, s ≠ e → s ≠ e' → m₂ s = m s := by
        intro s hse hse'
        rw [hm₂, update_of_ne hse', update_of_ne hse]
      have hlayout₂ : (∀ ev ∈ Event.kick (m e') :: history, ev.Keeps) → Layout P.first N P.nu m₂ taken {e'} := by
        intro hkeeps
        exact (hlayout fun ev hev => hkeeps ev (mem_cons_of_mem _ hev)).kick hmem' hne
          (hkeeps _ mem_cons_self) hlegal _
      -- above a node that is not a root there are no further slots of its block
      have hsame₂ : ∀ q, np.parent = some q → ∀ i < p, ∀ ni, s.tree[i]? = some ni → ∀ d < 4,
          m₂ (ni.bucketId + d) = P.bucket (ni.bucketId + d) := by
        intro q hq i hi ni hni d hd
        obtain ⟨-, -, -, -, -, -, hnew_p⟩ := hp.child q hq
        have hne₁ := hnew i (by omega) ni hni
        have hne₂ := hnew_p i hi ni hni
        have hdi := (htree i ni hni).dvd
        rw [hrest _ (by omega) (by omega)]
        exact hsame p hparent i (by omega) ni hni d hd
      have hkick := ih p n.inBlockId np m₂ (.kick (m e') :: history) (by omega) hnp hin hmem' hlayout₂ hsame₂
      refine ⟨hkick.layout, hkick.root, hkick.mem, fun s hs => ?_, fun hcopies => ?_⟩
      · rw [hkick.frame s hs]
        exact hrest s (fun heq => hs (heq ▸ hmem)) fun heq => hs (heq ▸ hmem')
      have hbefore : ∀ ev ∈ Event.kick (m e') :: history, ev.Copies := fun ev hev =>
        hcopies ev ((moves_cuckooKick s fuel p _ m₂ _).suffix.subset hev)
      have hlay := hlayout fun ev hev => (hbefore ev (mem_cons_of_mem _ hev)).keeps
      have hcopied : setBucket new (m e') = m e' := hbefore _ mem_cons_self
      rw [hkick.bag hcopies, hm₂, setBucket_congr (m e) new, hcopied]
      exact bagBut_kick (hlay.lt e hmem) (hlay.lt e' hmem') hne (hlay.occ e' hmem' hne) _

/-! ## Slots made ready for a key -/

/-- The slot `i` of the memory `m'` is ready for the key `k`: the slot `e` was taken for it, and the
buckets on the way from `i` to `e` were moved up. -/
structure Opened (first : BitVec w → ℕ → ℕ) (N nu : ℕ) (m : ℕ → B) (taken : Set ℕ) (k : BitVec w)
    (e i : ℕ) (m' : ℕ → B) (history : List (Event B)) : Prop where
  layout : Layout first N nu m' (insert e taken) {i}
  legal : Legal first nu (insert e taken) k i
  mem : i ∈ insert e taken
  notMem : e ∉ taken
  frame : ∀ s ∉ insert e taken, m' s = m s
  bag : (∀ ev ∈ history, ev.Copies) → bagBut m' i N = bagBut m e N

namespace Opened

variable {first : BitVec w → ℕ → ℕ} {nu : ℕ} {m m' : ℕ → B} {taken : Set ℕ} {k : BitVec w}
  {e i : ℕ} {history : List (Event B)}

/-- The first free slot of the blocks of the key, with nothing moved. -/
lemma direct (h : Layout first N nu m taken ∅) (hblocks : Blocks first N) {j : ℕ} (hj : j < nu)
    (hfull : ∀ j' < j, Full taken (first k j')) (he : FirstFree taken (first k j) e)
    (history : List (Event B)) : Opened first N nu m taken k e e m history := by
  obtain ⟨hdvd, hN⟩ := hblocks k j
  exact ⟨h.take hdvd hN he, ⟨j, hj, he.le, he.lt, fun j' hj' => (hfull j' hj').mono (Set.subset_insert e taken)⟩,
    Set.mem_insert e taken, he.notMem, fun _ _ => rfl, fun _ => rfl⟩

/-- What stands in the slot does not matter. -/
lemma update (h : Opened first N nu m taken k e i m' history) (b : B) :
    Opened first N nu m taken k e i (update m' i b) history := by
  have hrest : ∀ s, s ≠ i → Function.update m' i b s = m' s := fun s hs =>
    update_of_ne hs b m'
  refine ⟨⟨h.layout.lt, fun s hs hi => ?_, fun s hs hi => ?_, fun s hs hi => ?_,
    h.layout.arranged.initial, fun s hs hi => ?_⟩, h.legal, h.mem, h.notMem, fun s hs => ?_,
    fun hcopies => ?_⟩
  · rw [hrest s hi]
    exact h.layout.wf s hs hi
  · rw [hrest s hi]
    exact h.layout.fresh s hs hi
  · rw [hrest s hi]
    exact h.layout.occ s hs hi
  · rw [hrest s hi]
    exact h.layout.arranged.legal s hs hi
  · rw [hrest s fun heq => hs (heq ▸ h.mem)]
    exact h.frame s hs
  · rw [bagBut, update_idem, ← bagBut]
    exact h.bag hcopies

end Opened

omit [LawfulBucket B] in
lemma Found.firstFree {e : ℕ} (h : Found P s e) : FirstFree P.taken (s.node (s.tree.length - 1)).bucketId e := by
  obtain ⟨tree, n, p, htree, -, he⟩ := h.last
  have hget : s.tree[s.tree.length - 1]? = some n := by
    rw [htree, length_append, length_singleton, Nat.add_sub_cancel, getElem?_concat_length]
  rwa [node_eq hget]

/-- **A search that found a slot, and its kick.** -/
lemma Found.opened {e : ℕ} (h : Found P s e) (hblocks : Blocks P.first N)
    (hlayout : Layout P.first N P.nu P.bucket P.taken ∅)
    (hroots : ∀ j < P.nu, Full P.taken (P.first P.key j)) (history : List (Event B)) {c : ℕ}
    (hc : (s.node (s.tree.length - 1)).bucketId + c = e)
    (hkeeps : ∀ ev ∈ (kickLast s c P.bucket history).2.2, ev.Keeps) :
    Opened P.first N P.nu P.bucket P.taken P.key e (kickLast s c P.bucket history).1
      (kickLast s c P.bucket history).2.1 (kickLast s c P.bucket history).2.2
    ∧ Emptied ((kickLast s c P.bucket history).2.1 (kickLast s c P.bucket history).1) := by
  obtain ⟨tree, n, p, htree, hparent, he⟩ := h.last
  have hlen : s.tree.length = tree.length + 1 := by rw [htree, length_append]; rfl
  have hget : s.tree[s.tree.length - 1]? = some n := by
    rw [hlen, htree, Nat.add_sub_cancel, getElem?_concat_length]
  rw [node_eq hget] at hc
  subst hc
  have hn := h.tree _ n hget
  obtain ⟨-, -, np, -, -, ⟨j, hj, hblock, -⟩, -⟩ := hn.child p hparent
  have hN : n.bucketId + 4 ≤ N := by
    rw [hblock]
    exact (hblocks _ j).2
  have hclt : c < 4 := by
    have := he.lt
    omega
  have hkick : KickOk P N (insert (n.bucketId + c) P.taken) (n.bucketId + c) P.bucket
      (kickLast s c P.bucket history) :=
    cuckooKick_spec h.tree (Set.subset_insert _ _) s.tree.length (s.tree.length - 1) c n P.bucket
      history (by omega) hget hclt (Set.mem_insert _ _)
      (fun _ => hlayout.take hn.dvd hN he) fun _ _ _ _ _ _ _ _ => rfl
  obtain ⟨jr, hjr, hle, hlt⟩ := hkick.root
  refine ⟨⟨hkick.layout hkeeps, ⟨jr, hjr, hle, hlt, fun j' hj' => ?_⟩, hkick.mem, he.notMem,
    hkick.frame, hkick.bag⟩, ?_⟩
  · exact (hroots j' (by omega)).mono (Set.subset_insert _ _)
  refine emptied_cuckooKick s _ _ c P.bucket history (Or.inr ⟨by omega, ?_⟩)
  rw [node_eq hget, hparent]
  rfl

end Cuckoo

end Havenask
