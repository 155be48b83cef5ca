import Havenask.Posting.DynamicSearchTreeIterator

/-!
# Runs of the dynamic search tree

A writer inserts and removes docids, and an iterator that was created before seeks, in any order
(`interleave`). The iterator keeps going forward and passes over no docid that was in the tree when it was
created, if two conditions are met.

* **`Fresh`**: `Seek` leaves the docid of the caller's variable as its current docid when nothing is
  found. It does no harm if that is the current docid, or is below what is sought.
* **`InPlace`**: a scan goes on at the slot behind its last one, and passes over keys with the current
  docid. That makes up for one smaller docid that has come into the leaf since, but not for two.

`IterOk` is the invariant of the iterator: what it has returned, and what the caller may ask for next.
-/

namespace Havenask.DynamicSearchTree

open DynamicSearchTree.Tree Option Iterator

/-! ## Searches in a tree in order -/

section
variable {tree : Tree} {last : ℤ → Option Bool} {lo hi : ℕ → ℤ} {known : ℕ → Set ℤ} {leaves : List ℕ}
  {docs : Set ℤ}

lemma maxSlot_le (maxSlotShift : ℕ) : maxSlot maxSlotShift ≤ 2 ^ 15 := Nat.pow_le_pow_right (by decide) (by omega)

section
variable (hok : TreeOk tree last lo hi known leaves)
include hok

lemma TreeOk.range {d : ℤ} (hd : last d ≠ none) :
    0 ≤ d ∧ d < 2 ^ 31 - 1 := by
  cases hroot : tree.root with
  | none =>
    rw [(hok.empty hroot).2] at hd
    exact absurd rfl hd
  | some root =>
    obtain ⟨-, hshape, hrecorded⟩ := hok.coherent root hroot
    rw [← hrecorded d] at hd
    cases hfind : (entries tree.heap leaves).find? fun k => k.docId = d with
    | none =>
      rw [hfind] at hd
      exact absurd rfl hd
    | some k =>
      obtain ⟨a, ha, hk⟩ := List.mem_flatMap.mp (List.mem_of_find?_eq_some hfind)
      have hkd : k.docId = d := by simpa using List.find?_some hfind
      rw [← hkd]
      exact ((hshape.leafOk a (hshape.live a ha)).range k hk).2.2

/-- A search finds the least docid from the bound on, with the last operation on it. -/
lemma TreeOk.search_answers
    (hshift : tree.maxSlotShift % 16 ≠ 0) {docId : ℤ} (hdocId : 0 ≤ docId) (hlt : docId < 2 ^ 31)
    {fuel : ℕ} (hfuel : 2 ≤ fuel) : ∃ found, tree.searchUnsafe fuel docId = some found ∧
      IsAnswer tree.heap known leaves last {d | last d ≠ none} docId True found := by
  have htarget : (KeyType.new docId false).docId = docId := Int.emod_eq_of_lt hdocId hlt
  cases hroot : tree.root with
  | none =>
    refine ⟨none, by simp only [Tree.searchUnsafe, hroot], fun d hd _ => ?_⟩
    rw [(hok.empty hroot).2] at hd
    exact absurd rfl hd
  | some root =>
    obtain ⟨hspans, hshape, hrecorded⟩ := hok.coherent root hroot
    obtain ⟨mid, hmax, hmid⟩ := maxSlot_eq hshift
    obtain ⟨front, a, back, rfl, hlo, hhi, hfind, -⟩ :=
      hspans.descend hmax hmid (by omega : (-1 : ℤ) < docId) (by omega)
    have ha : a ∈ front ++ a :: back := by simp
    obtain ⟨found, hsearch, hfirst⟩ := searchLeaves_firstFrom hshape.leafOk (hshape.live a ha)
      (KeyType.new docId false) (by rw [htarget]; exact hhi) hfuel
    rw [htarget] at hfirst
    refine ⟨found, by simp only [Tree.searchUnsafe, hroot, htarget, hfind, hsearch], ?_⟩
    have hanswer := isAnswer_of_firstFrom hshape hrecorded (hshape.live a ha) hlo (hshape.known_live a ha).ge hfirst
    cases found with
    | none => exact hanswer
    | some found =>
      exact { hanswer with inTree := fun _ => hanswer.inTree ha }

/-- The current docid is in the current slot, or one behind it. -/
def AtSlot (heap : LeafHeap) (a slot : ℕ) (currentDocId : ℤ) : Prop :=
  (heap.leaf a).keys[slot]?.map KeyType.docId = some currentDocId ∨
    (heap.leaf a).keys[slot + 1]?.map KeyType.docId = some currentDocId

/-- A scan finds the least docid above the current one that its leaf knows. -/
lemma TreeOk.scan_answers {a slot : ℕ} {currentDocId : ℤ}
    (ha : a < tree.heap.count) (hdocs : docs ⊆ known a) (hslot : AtSlot tree.heap a slot currentDocId)
    {fuel : ℕ} (hfuel : 3 ≤ fuel) : ∃ found, scanLeaves tree.heap currentDocId fuel (some a) slot = some found ∧
      IsAnswer tree.heap known leaves last docs (currentDocId + 1) (a ∈ leaves) found := by
  cases hroot : tree.root with
  | none =>
    have := (hok.empty hroot).1
    omega
  | some root =>
    obtain ⟨-, hshape, hrecorded⟩ := hok.coherent root hroot
    obtain ⟨pre, k, post, hkeys, hplace, rfl⟩ : ∃ pre k post, (tree.heap.leaf a).keys = pre ++ k :: post ∧
        (slot = pre.length ∨ slot + 1 = pre.length) ∧ k.docId = currentDocId := by
      have hget : ∀ i, (tree.heap.leaf a).keys[i]?.map KeyType.docId = some currentDocId →
          ∃ pre k post, (tree.heap.leaf a).keys = pre ++ k :: post ∧ pre.length = i ∧ k.docId = currentDocId := by
        intro i hi
        obtain ⟨k, hk, hkd⟩ := map_eq_some_iff.mp hi
        obtain ⟨hlt, rfl⟩ := List.getElem?_eq_some_iff.mp hk
        obtain ⟨pre, k, post, hkeys, hpre⟩ := exists_append_cons hlt
        refine ⟨pre, k, post, hkeys, hpre, ?_⟩
        rw [← hkd]
        simp [hkeys, ← hpre]
      rcases hslot with h | h
      · obtain ⟨pre, k, post, hkeys, hpre, hk⟩ := hget slot h
        exact ⟨pre, k, post, hkeys, Or.inl hpre.symm, hk⟩
      · obtain ⟨pre, k, post, hkeys, hpre, hk⟩ := hget (slot + 1) h
        exact ⟨pre, k, post, hkeys, Or.inr hpre.symm, hk⟩
    obtain ⟨found, hscan, hfirst⟩ := scanLeaves_firstFrom hshape.leafOk (maxSlot_le _) ha hkeys hplace hfuel
    have hlo := ((hshape.leafOk a ha).range k (by simp [hkeys])).1
    exact ⟨found, hscan, isAnswer_of_firstFrom hshape hrecorded ha (by omega) hdocs hfirst⟩

end

end

/-! ## One seek -/

/-- The caller's variable does not mislead the iterator if nothing is found. -/
def Fresh (it : Iterator) (docId : ℤ) (result : KeyType) : Prop :=
  docId < 2 ^ 31 ∧ 0 ≤ result.docId ∧ result.docId < 2 ^ 31 - 1 ∧
    (it.currentLeaf = none → it.currentDocId < docId ∨ it.currentDocId ≤ result.docId) ∧
    (it.currentLeaf ≠ none → docId ≤ it.currentDocId + 1 ∨ result.docId + 1 < docId)

/-- If the iterator goes on from its leaf, its current docid is in its slot there or one behind. -/
def InPlace (heap : LeafHeap) (it : Iterator) (docId : ℤ) : Prop :=
  ∀ a ∈ it.currentLeaf, docId ≤ it.currentDocId + 1 → AtSlot heap a it.currentSlot it.currentDocId

instance (it : Iterator) (docId : ℤ) (result : KeyType) : Decidable (Fresh it docId result) :=
  inferInstanceAs (Decidable (_ ∧ _ ∧ _ ∧ (_ → _) ∧ (_ → _)))

instance (heap : LeafHeap) (a slot : ℕ) (currentDocId : ℤ) : Decidable (AtSlot heap a slot currentDocId) :=
  inferInstanceAs (Decidable (_ ∨ _))

instance (heap : LeafHeap) (it : Iterator) (docId : ℤ) : Decidable (InPlace heap it docId) :=
  inferInstanceAs (Decidable (∀ a ∈ it.currentLeaf, _ → _))

/-- An iterator that was last asked for `asked` and has returned docids up to `returned`. -/
structure IterOk (heap : LeafHeap) (known : ℕ → Set ℤ) (before : Set ℤ) (it : Iterator)
    (asked returned : ℤ) : Prop where
  leaf : ∀ a ∈ it.currentLeaf, a < heap.count ∧ before ⊆ known a
  ahead : returned ≤ it.currentDocId ∨ returned < asked
  sync : it.currentDocId = returned ∨ ∀ d ∈ before, asked ≤ d → d ≤ returned
  scans : it.currentLeaf = none ∨ it.currentDocId = returned ∨ it.currentDocId + 1 < asked
  range : -1 ≤ it.currentDocId ∧ it.currentDocId < 2 ^ 31 - 1

/-- What a seek does: it returns the least docid of `before` that may be returned, or a smaller one, and
the iterator stands on it; or there is none. -/
def Seeks (tree : Tree) (known : ℕ → Set ℤ) (leaves : List ℕ) (last : ℤ → Option Bool) (before : Set ℤ)
    (it it' : Iterator) (docId returned : ℤ) : Option Found → Prop
  | none => (∀ d ∈ before, docId ≤ d → d ≤ returned) ∧ IterOk tree.heap known before it' docId returned ∧
      (it'.currentLeaf = none ∨ it'.currentLeaf = it.currentLeaf ∧ it'.currentSlot = it.currentSlot)
  | some found => docId ≤ found.key.docId ∧ returned < found.key.docId ∧
      (∀ d ∈ before, docId ≤ d → returned < d → found.key.docId ≤ d) ∧
      IterOk tree.heap known before it' docId found.key.docId ∧
      it'.currentLeaf = some found.leaf ∧
      (tree.heap.leaf found.leaf).keys[it'.currentSlot]? = some found.key ∧
      ((∀ a ∈ it.currentLeaf, a ∈ leaves) → found.leaf ∈ leaves ∧ last found.key.docId = some found.key.isDelete)

section
variable {tree : Tree} {last : ℤ → Option Bool} {lo hi : ℕ → ℤ} {known : ℕ → Set ℤ} {leaves : List ℕ}
  {before : Set ℤ} {it : Iterator} {asked returned docId : ℤ} {result : KeyType} {fuel : ℕ}

lemma Iterator.nextDocId_eq (hrange : -1 ≤ it.currentDocId ∧ it.currentDocId < 2 ^ 31 - 1) :
    it.nextDocId = it.currentDocId + 1 := by
  rw [nextDocId]
  exact Int.bmod_eq_of_le (by omega) (by omega)

/-- An iterator that stands on the key it has returned. -/
lemma iterOk_found {heap : LeafHeap} {found : Found} (hcount : found.leaf < heap.count)
    (hknows : before ⊆ known found.leaf) (hrange : -1 ≤ found.key.docId ∧ found.key.docId < 2 ^ 31 - 1) :
    IterOk heap known before ⟨some found.leaf, found.key.docId, found.slot⟩ docId found.key.docId := by
  refine ⟨fun a ha => ?_, Or.inl le_rfl, Or.inl rfl, Or.inr (Or.inl rfl), hrange⟩
  obtain rfl : found.leaf = a := some.inj ha
  exact ⟨hcount, hknows⟩

/-- **One seek**, from a tree in order and an iterator in order. -/
lemma IterOk.seek (hit : IterOk tree.heap known before it asked returned)
    (hok : TreeOk tree last lo hi known leaves) (hshift : tree.maxSlotShift % 16 ≠ 0)
    (hbefore : before ⊆ {d | last d ≠ none}) (hasked : asked ≤ docId) (hfresh : Fresh it docId result)
    (hplace : InPlace tree.heap it docId) (hfuel : 3 ≤ fuel) :
    ∃ it' found, it.seek tree fuel docId result = some (it', found.map Found.key) ∧
      Seeks tree known leaves last before it it' docId returned found := by
  obtain ⟨hlt, hresult, hresult', hnoLeaf, hleaf⟩ := hfresh
  have hrange := hit.range
  have hnext := nextDocId_eq hrange
  by_cases hsearch : it.currentLeaf = none ∨ max docId it.nextDocId ≠ it.nextDocId
  · -- the iterator goes down from the root
    have hnotScan : it.currentLeaf ≠ none → it.currentDocId + 1 < docId := by
      intro hsome
      have hmax := hsearch.resolve_left hsome
      rw [hnext] at hmax
      omega
    obtain ⟨found, hfound, hanswer⟩ := hok.search_answers hshift
      (by omega : 0 ≤ max docId it.nextDocId) (by omega) (by omega : 2 ≤ fuel)
    rw [hnext] at hanswer
    have hreturned : returned < max docId (it.currentDocId + 1) := by
      have := hit.ahead
      omega
    cases found with
    | none =>
      have hdone : ∀ d ∈ before, docId ≤ d → d ≤ returned := by
        intro d hd hle
        have hdlt := hanswer d (hbefore hd) (hok.range (hbefore hd)).2
        rcases hit.sync with heq | hnone
        · omega
        · exact hnone d hd (hasked.trans hle)
      refine ⟨{ it with currentDocId := result.docId }, none, ?_, hdone, ⟨hit.leaf, ?_, Or.inr hdone, ?_, ?_⟩,
        Or.inr ⟨rfl, rfl⟩⟩
      · simp only [Iterator.seek, if_pos hsearch, hfound, Option.map_some, Option.map_none]
      · have hahead := hit.ahead
        show returned ≤ result.docId ∨ returned < docId
        by_cases hsome : it.currentLeaf = none
        · have := hnoLeaf hsome
          omega
        · have := hnotScan hsome
          omega
      · by_cases hsome : it.currentLeaf = none
        · exact Or.inl hsome
        · refine Or.inr (Or.inr ?_)
          have hscan := hnotScan hsome
          have hor := hleaf hsome
          show result.docId + 1 < docId
          omega
      · show -1 ≤ result.docId ∧ result.docId < 2 ^ 31 - 1
        omega
    | some found =>
      have hle := hanswer.le
      refine ⟨⟨some found.leaf, found.key.docId, found.slot⟩, some found, ?_, by omega, by omega, ?_,
        iterOk_found hanswer.count (hbefore.trans hanswer.knows) (by have := hanswer.range; omega), rfl, hanswer.slot,
        fun _ => hanswer.inTree trivial⟩
      · simp only [Iterator.seek, if_pos hsearch, hfound, Option.map_some]
      · intro d hd hdle hdlt
        rcases hit.sync with heq | hnone
        · exact hanswer.least d (hbefore hd) (by omega)
        · have := hnone d hd (hasked.trans hdle)
          omega
  · -- the iterator goes on from its leaf
    rw [not_or, not_not] at hsearch
    obtain ⟨hsome, hmax⟩ := hsearch
    obtain ⟨a, ha⟩ := ne_none_iff_exists'.mp hsome
    rw [hnext] at hmax
    have hdocId : docId ≤ it.currentDocId + 1 := by omega
    have hsync : it.currentDocId = returned := by
      rcases hit.scans with h | h | h
      · exact absurd h hsome
      · exact h
      · omega
    obtain ⟨hcount, hknown⟩ := hit.leaf a ha
    obtain ⟨found, hfound, hanswer⟩ := hok.scan_answers hcount hknown (hplace a ha hdocId) hfuel
    have hcond : ¬ (it.currentLeaf = none ∨ max docId it.nextDocId ≠ it.nextDocId) := by
      rw [hnext, not_or, not_not]
      exact ⟨hsome, hmax⟩
    cases found with
    | none =>
      refine ⟨⟨none, it.currentDocId, invalidSlotId⟩, none, ?_, ?_,
        ⟨(fun _ ha => by cases ha), Or.inl hsync.ge, Or.inl hsync, Or.inl rfl, hrange⟩, Or.inl rfl⟩
      · simp only [Iterator.seek, if_neg hcond]
        rw [ha, hfound]
        rfl
      · intro d hd _
        have := hanswer d hd (hok.range (hbefore hd)).2
        omega
    | some found =>
      have hle := hanswer.le
      refine ⟨⟨some found.leaf, found.key.docId, found.slot⟩, some found, ?_, by omega, by omega, ?_,
        iterOk_found hanswer.count hanswer.knows (by have := hanswer.range; omega), rfl, hanswer.slot,
        fun hlive => hanswer.inTree (hlive a ha)⟩
      · simp only [Iterator.seek, if_neg hcond]
        rw [ha, hfound]
        rfl
      · intro d hd _ hdlt
        exact hanswer.least d hd (by omega)

lemma IterOk.mono {heap' : LeafHeap} {known' : ℕ → Set ℤ}
    (hit : IterOk tree.heap known before it asked returned) (hcount : tree.heap.count ≤ heap'.count)
    (hknown : ∀ b < tree.heap.count, known b ⊆ known' b) : IterOk heap' known' before it asked returned := by
  refine ⟨fun a ha => ?_, hit.ahead, hit.sync, hit.scans, hit.range⟩
  obtain ⟨hacount, hsubset⟩ := hit.leaf a ha
  exact ⟨by omega, hsubset.trans (hknown a hacount)⟩

lemma iterOk_new (heap : LeafHeap) (known : ℕ → Set ℤ) (before : Set ℤ) (asked : ℤ) :
    IterOk heap known before new asked (-1) :=
  ⟨(fun _ ha => by cases ha), Or.inl le_rfl, Or.inl rfl, Or.inl rfl, by decide⟩

end

/-! ## Interleaved runs -/

/-- A step of the writer, or a seek with what the caller's variable holds. -/
inductive Event
  | update (op : Operation)
  | seek (docId : ℤ) (result : KeyType)

/-- What the seeks of a run return; each with the docid sought. -/
def interleave (fuel : ℕ) : Tree → Iterator → List Event → Option (List (ℤ × Option KeyType))
  | _, _, [] => some []
  | tree, it, .update op :: events => interleave fuel (tree.apply op) it events
  | tree, it, .seek docId result :: events =>
    match it.seek tree fuel docId result with
    | none => none
    | some (it', found) => (interleave fuel tree it' events).map ((docId, found) :: ·)

/-- Every step of a run meets its condition: the docids of the updates are in range, and each seek, before
it is made, meets `cond`. -/
def Meets (cond : Tree → Iterator → ℤ → KeyType → Prop) (fuel : ℕ) : Tree → Iterator → List Event → Prop
  | _, _, [] => True
  | tree, it, .update op :: events =>
    (0 ≤ op.1 ∧ op.1 < 2 ^ 31 - 1) ∧ Meets cond fuel (tree.apply op) it events
  | tree, it, .seek docId result :: events =>
    cond tree it docId result ∧
      match it.seek tree fuel docId result with
      | none => True
      | some (it', _) => Meets cond fuel tree it' events

instance decidableMeets {cond : Tree → Iterator → ℤ → KeyType → Prop}
    [∀ tree it docId result, Decidable (cond tree it docId result)] (fuel : ℕ) :
    ∀ tree it events, Decidable (Meets cond fuel tree it events)
  | _, _, [] => inferInstanceAs (Decidable True)
  | tree, it, .update op :: events =>
    have : Decidable (Meets cond fuel (tree.apply op) it events) := decidableMeets fuel _ _ events
    inferInstanceAs (Decidable (_ ∧ Meets cond fuel (tree.apply op) it events))
  | tree, it, .seek docId result :: events =>
    match h : it.seek tree fuel docId result with
    | none => decidable_of_iff (cond tree it docId result) (by simp [Meets, h])
    | some (it', _) =>
      have : Decidable (Meets cond fuel tree it' events) := decidableMeets fuel _ _ events
      decidable_of_iff (cond tree it docId result ∧ Meets cond fuel tree it' events) (by simp [Meets, h])

/-- The seeks of a run do not go back. -/
def Ascending : ℤ → List Event → Prop
  | _, [] => True
  | asked, .update _ :: events => Ascending asked events
  | asked, .seek docId _ :: events => asked ≤ docId ∧ Ascending docId events

/-- Every seek that finds something returns a docid that is not below the one sought and above all that
were returned; no docid of `before` that it could have returned is passed over. -/
def Forward (before : Set ℤ) : List ℤ → List (ℤ × Option KeyType) → Prop
  | _, [] => True
  | returned, (docId, none) :: results =>
    (∀ d ∈ before, docId ≤ d → ∃ r ∈ returned, d ≤ r) ∧ Forward before returned results
  | returned, (docId, some key) :: results =>
    docId ≤ key.docId ∧ (∀ r ∈ returned, r < key.docId) ∧
      (∀ d ∈ before, docId ≤ d → (∀ r ∈ returned, r < d) → key.docId ≤ d) ∧
      Forward before (key.docId :: returned) results

/-- The greatest docid that was returned, or -1. -/
def IsLast (returned : List ℤ) (r : ℤ) : Prop := (∀ x ∈ returned, x ≤ r) ∧ (r = -1 ∨ r ∈ returned)

variable {returned : List ℤ} {results : List (ℤ × Option KeyType)}

lemma forward_none {before : Set ℤ} {r docId : ℤ} (hlast : IsLast returned r) (hnonneg : ∀ d ∈ before, 0 ≤ d)
    (hnone : ∀ d ∈ before, docId ≤ d → d ≤ r) (hrest : Forward before returned results) :
    Forward before returned ((docId, none) :: results) := by
  refine ⟨fun d hd hle => ?_, hrest⟩
  have hdr := hnone d hd hle
  have hd0 := hnonneg d hd
  rcases hlast.2 with rfl | hr
  · omega
  · exact ⟨r, hr, hdr⟩

lemma forward_some {before : Set ℤ} {r docId : ℤ} {key : KeyType} (hlast : IsLast returned r)
    (hnonneg : ∀ d ∈ before, 0 ≤ d) (hle : docId ≤ key.docId) (hlt : r < key.docId)
    (hleast : ∀ d ∈ before, docId ≤ d → r < d → key.docId ≤ d)
    (hrest : Forward before (key.docId :: returned) results) :
    Forward before returned ((docId, some key) :: results) := by
  refine ⟨hle, fun x hx => (hlast.1 x hx).trans_lt hlt, fun d hd hdle hdlt => hleast d hd hdle ?_, hrest⟩
  have hd0 := hnonneg d hd
  rcases hlast.2 with rfl | hr
  · omega
  · exact hdlt r hr

lemma isLast_cons {r x : ℤ} (hlast : IsLast returned r) (hlt : r < x) : IsLast (x :: returned) x :=
  ⟨List.forall_mem_cons.mpr ⟨le_rfl, fun y hy => (hlast.1 y hy).trans hlt.le⟩, Or.inr List.mem_cons_self⟩

section
variable {tree : Tree} {last : ℤ → Option Bool} {lo hi : ℕ → ℤ} {known : ℕ → Set ℤ} {leaves : List ℕ}
  {before : Set ℤ} {it : Iterator} {asked r : ℤ} {fuel : ℕ}

lemma forward_interleave (hfuel : 3 ≤ fuel) {events : List Event} {returned : List ℤ}
    (hok : TreeOk tree last lo hi known leaves) (hshift : tree.maxSlotShift % 16 ≠ 0)
    (hbefore : before ⊆ {d | last d ≠ none}) (hnonneg : ∀ d ∈ before, 0 ≤ d)
    (hit : IterOk tree.heap known before it asked r) (hlast : IsLast returned r) (hascending : Ascending asked events)
    (hmeets : Meets (fun tree it docId result => Fresh it docId result ∧ InPlace tree.heap it docId) fuel
      tree it events) :
    ∃ results, interleave fuel tree it events = some results ∧ Forward before returned results := by
  induction events generalizing tree last lo hi known leaves it asked r returned with
  | nil => exact ⟨[], rfl, trivial⟩
  | cons event events ih =>
    cases event with
    | update op =>
      obtain ⟨hop, hmeets⟩ := hmeets
      obtain ⟨lo', hi', known', leaves', hok', hcount, hknown⟩ := hok.apply hshift hop.1 hop.2
      refine ih hok' (by rw [apply_maxSlotShift]; exact hshift) (fun d hd => ?_)
        (hit.mono hcount hknown) hlast hascending hmeets
      have hdlast : last d ≠ none := hbefore hd
      show Function.update last op.1 (some op.2) d ≠ none
      rw [Function.update_apply]
      split
      · simp
      · exact hdlast
    | seek docId result =>
      obtain ⟨⟨hfresh, hplace⟩, hmeets⟩ := hmeets
      obtain ⟨hasked, hascending⟩ := hascending
      obtain ⟨it', found, hseek, hseeks⟩ := hit.seek hok hshift hbefore hasked hfresh hplace hfuel
      rw [hseek] at hmeets
      cases found with
      | none =>
        obtain ⟨hnone, hit', -⟩ := hseeks
        obtain ⟨results, hrun, hforward⟩ := ih hok hshift hbefore hit' hlast hascending hmeets
        refine ⟨(docId, none) :: results, ?_, forward_none hlast hnonneg hnone hforward⟩
        simp only [interleave, hseek, hrun, map_some, map_none]
      | some found =>
        obtain ⟨hle, hlt, hleast, hit', -⟩ := hseeks
        obtain ⟨results, hrun, hforward⟩ := ih hok hshift hbefore hit' (isLast_cons hlast hlt) hascending hmeets
        refine ⟨(docId, some found.key) :: results, ?_, forward_some hlast hnonneg hle hlt hleast hforward⟩
        simp only [interleave, hseek, hrun, map_some]

/-- The iterator stands, in the tree, on the docid that it returned last. -/
def Standing (heap : LeafHeap) (leaves : List ℕ) (it : Iterator) (r : ℤ) : Prop :=
  ∀ a ∈ it.currentLeaf, a ∈ leaves ∧ (heap.leaf a).keys[it.currentSlot]?.map KeyType.docId = some r

/-- On a tree that does not change an iterator is in place. -/
lemma Standing.inPlace (hstanding : Standing tree.heap leaves it r)
    (hit : IterOk tree.heap known before it asked r) {docId : ℤ} (hasked : asked ≤ docId) :
    InPlace tree.heap it docId := by
  intro a ha hdocId
  have hsync : it.currentDocId = r := by
    rcases hit.scans with h | h | h
    · rw [h] at ha
      cases ha
    · exact h
    · omega
  rw [hsync]
  exact Or.inl (hstanding a ha).2

lemma exact_interleave (hfuel : 3 ≤ fuel) {calls : List (ℤ × KeyType)} {returned : List ℤ}
    (hok : TreeOk tree last lo hi known leaves) (hshift : tree.maxSlotShift % 16 ≠ 0)
    (hit : IterOk tree.heap known {d | last d ≠ none} it asked r)
    (hstanding : Standing tree.heap leaves it r) (hlast : IsLast returned r)
    (hascending : Ascending asked (calls.map fun call => .seek call.1 call.2))
    (hmeets : Meets (fun _ it docId result => Fresh it docId result) fuel tree it
      (calls.map fun call => .seek call.1 call.2)) :
    ∃ results, interleave fuel tree it (calls.map fun call => .seek call.1 call.2) = some results ∧
      Forward {d | last d ≠ none} returned results ∧
      ∀ docId key, (docId, some key) ∈ results → last key.docId = some key.isDelete := by
  have hnonneg : ∀ d ∈ {d | last d ≠ none}, 0 ≤ d := fun d hd => (hok.range hd).1
  induction calls generalizing it asked r returned with
  | nil => exact ⟨[], rfl, trivial, by simp⟩
  | cons call calls ih =>
    obtain ⟨docId, result⟩ := call
    obtain ⟨hfresh, hmeets⟩ := hmeets
    obtain ⟨hasked, hascending⟩ := hascending
    obtain ⟨it', found, hseek, hseeks⟩ := hit.seek hok hshift le_rfl hasked hfresh
      (hstanding.inPlace hit hasked) hfuel
    rw [hseek] at hmeets
    cases found with
    | none =>
      obtain ⟨hnone, hit', hsame⟩ := hseeks
      have hstanding' : Standing tree.heap leaves it' r := by
        intro a ha
        rcases hsame with hleaf | ⟨hleaf, hslot⟩
        · rw [hleaf] at ha
          cases ha
        · rw [hslot]
          exact hstanding a (hleaf ▸ ha)
      obtain ⟨results, hrun, hforward, hflags⟩ := ih hit' hstanding' hlast hascending hmeets
      refine ⟨(docId, none) :: results, ?_, forward_none hlast hnonneg hnone hforward, ?_⟩
      · simp only [List.map_cons, interleave, hseek, hrun, map_some, map_none]
      intro docId' key hmem
      rcases List.mem_cons.mp hmem with heq | hmem
      · cases heq
      · exact hflags docId' key hmem
    | some found =>
      obtain ⟨hle, hlt, hleast, hit', hleaf, hslot, hlive⟩ := hseeks
      obtain ⟨hinTree, hflag⟩ := hlive fun a ha => (hstanding a ha).1
      have hstanding' : Standing tree.heap leaves it' found.key.docId := by
        intro a ha
        rw [hleaf] at ha
        obtain rfl : found.leaf = a := some.inj ha
        exact ⟨hinTree, by rw [hslot]; rfl⟩
      obtain ⟨results, hrun, hforward, hflags⟩ := ih hit' hstanding' (isLast_cons hlast hlt) hascending hmeets
      refine ⟨(docId, some found.key) :: results, ?_, forward_some hlast hnonneg hle hlt hleast hforward, ?_⟩
      · simp only [List.map_cons, interleave, hseek, hrun, map_some]
      intro docId' key hmem
      rcases List.mem_cons.mp hmem with heq | hmem
      · cases heq
        exact hflag
      · exact hflags docId' key hmem

end

/-- What `Search` answers: the least docid from `docId` on that there was an operation on, with the last
one. -/
def IsFound (ops : List Operation) (docId : ℤ) : Option KeyType → Prop
  | none => ∀ d, lastOperation ops d ≠ none → d < docId
  | some key => docId ≤ key.docId ∧ lastOperation ops key.docId = some key.isDelete ∧
      ∀ d, lastOperation ops d ≠ none → docId ≤ d → key.docId ≤ d

/-- **The tree is an ordered map** from docids to the last operation: a search finds the least docid from
a bound on, an iterator returns the docids in order, without leaving one out that a seek allows, both with
the last operation, and no children are ever left out of a node. -/
theorem tree_is_ordered_map {maxSlotShift : ℕ} (hshift : maxSlotShift % 16 ≠ 0) {ops : List Operation}
    (hops : ∀ op ∈ ops, 0 ≤ op.1 ∧ op.1 < 2 ^ 31 - 1) : (∀ docId, 0 ≤ docId → docId < 2 ^ 31 → ∀ fuel ≥ 2,
      ∃ found, ((Tree.new maxSlotShift).run ops).search fuel docId = some found ∧ IsFound ops docId found) ∧
    (∀ (calls : List (ℤ × KeyType)) (asked : ℤ), ∀ fuel ≥ 3,
      Ascending asked (calls.map fun call => .seek call.1 call.2) →
      Meets (fun _ it docId result => Fresh it docId result) fuel ((Tree.new maxSlotShift).run ops)
        Iterator.new (calls.map fun call => .seek call.1 call.2) →
      ∃ results, interleave fuel ((Tree.new maxSlotShift).run ops) Iterator.new
          (calls.map fun call => .seek call.1 call.2) = some results ∧
        Forward {d | lastOperation ops d ≠ none} [] results ∧
        ∀ docId key, (docId, some key) ∈ results → lastOperation ops key.docId = some key.isDelete) ∧
    ((Tree.new maxSlotShift).run ops).dropped = false := by
  obtain ⟨hsame, lo, hi, known, leaves, hok⟩ := treeOk_run hshift hops
  have hshift' : ((new maxSlotShift).run ops).maxSlotShift % 16 ≠ 0 := by
    rw [hsame]
    exact hshift
  refine ⟨fun docId hdocId hlt fuel hfuel => ?_, fun calls asked fuel hfuel hascending hmeets => ?_, hok.dropped⟩
  · obtain ⟨found, hfound, hanswer⟩ := hok.search_answers hshift' hdocId hlt hfuel
    refine ⟨found.map Found.key, by rw [search, hfound]; rfl, ?_⟩
    cases found with
    | none => exact fun d hd => hanswer d hd (hok.range hd).2
    | some found => exact ⟨hanswer.le, (hanswer.inTree trivial).2, hanswer.least⟩
  · exact exact_interleave hfuel hok hshift' (iterOk_new _ _ _ asked)
      (fun a ha => by cases ha) ⟨by simp, Or.inl rfl⟩ hascending hmeets

/-- A tree with three docids, one of them removed, and seeks that end behind the last one. -/
theorem tree_is_ordered_map_three :
    ((Tree.new 1).run [(4, false), (2, false), (9, false), (2, true)]).search 2 3 = some (some ⟨4, false⟩) ∧
      ∃ results, interleave 3 ((Tree.new 1).run [(4, false), (2, false), (9, false), (2, true)])
          Iterator.new [.seek 0 ⟨0, false⟩, .seek 0 ⟨2, true⟩, .seek 10 ⟨4, false⟩] = some results ∧
        Forward {d | lastOperation [(4, false), (2, false), (9, false), (2, true)] d ≠ none} [] results := by
  have hmap := tree_is_ordered_map (by decide : 1 % 16 ≠ 0)
    (by decide : ∀ op ∈ [((4 : ℤ), false), (2, false), (9, false), (2, true)], 0 ≤ op.1 ∧ op.1 < 2 ^ 31 - 1)
  obtain ⟨results, hrun, hforward, -⟩ := hmap.2.1 [(0, ⟨0, false⟩), (0, ⟨2, true⟩), (10, ⟨4, false⟩)] 0 3
    le_rfl (by simp [Ascending]) (by decide +kernel)
  exact ⟨by decide +kernel, results, hrun, hforward⟩

/-- With a shift of 16 a node has room for one key: the second docid is lost. And after two seeks that find
nothing, with a new variable each, a docid is returned again. -/
theorem tree_loses_and_repeats : ((Tree.new 16).run [(1, false), (2, false)]).search 5 2 = some none ∧
      interleave 5 ((Tree.new 4).run [(5, false)]) Iterator.new
          [.seek 0 ⟨0, false⟩, .seek 0 ⟨0, false⟩, .seek 0 ⟨0, false⟩, .seek 0 ⟨0, false⟩] =
        some [(0, some ⟨5, false⟩), (0, none), (0, none), (0, some ⟨5, false⟩)] := by
  decide +kernel

/-- **An iterator goes forward** while the tree is written: in every run of updates and seeks that meets
the conditions, from an iterator created after the operations `ops`, every seek returns, what it finds is
not below the docid sought and above all docids returned before, and none of the docids in the tree at the
start is passed over. -/
theorem iterator_goes_forward {maxSlotShift : ℕ} (hshift : maxSlotShift % 16 ≠ 0) {ops : List Operation}
    (hops : ∀ op ∈ ops, 0 ≤ op.1 ∧ op.1 < 2 ^ 31 - 1) {fuel : ℕ} (hfuel : 3 ≤ fuel)
    {events : List Event} {asked : ℤ} (hascending : Ascending asked events)
    (hmeets : Meets (fun tree it docId result => Fresh it docId result ∧ InPlace tree.heap it docId) fuel
      ((Tree.new maxSlotShift).run ops) Iterator.new events) :
    ∃ results, interleave fuel ((Tree.new maxSlotShift).run ops) Iterator.new events = some results ∧
      Forward {d | lastOperation ops d ≠ none} [] results := by
  obtain ⟨hsame, lo, hi, known, leaves, hok⟩ := treeOk_run hshift hops
  refine forward_interleave hfuel hok (by rw [hsame]; exact hshift) le_rfl
    (fun d hd => (hok.range hd).1) (iterOk_new _ _ _ asked) ⟨by simp, Or.inl rfl⟩ hascending hmeets

/-- One smaller docid comes into the leaf, and the leaf is split behind the iterator. -/
theorem iterator_goes_forward_split : ∃ results, interleave 3 ((Tree.new 1).run [(4, false), (8, false)]) Iterator.new
        [.seek 0 ⟨0, false⟩, .update (2, false), .update (6, false), .seek 0 ⟨4, false⟩] = some results ∧
      Forward {d | lastOperation [(4, false), (8, false)] d ≠ none} [] results := by
  exact iterator_goes_forward (by decide : 1 % 16 ≠ 0)
    (by decide : ∀ op ∈ [((4 : ℤ), false), (8, false)], 0 ≤ op.1 ∧ op.1 < 2 ^ 31 - 1) le_rfl
    (by simp [Ascending] : Ascending 0 _) (by decide +kernel)

/-- Two smaller docids come into the leaf: the iterator returns one of them. -/
theorem iterator_goes_back : interleave 3 ((Tree.new 4).run [(10, false)]) Iterator.new
        [.seek 0 ⟨0, false⟩, .update (3, false), .update (5, false), .seek 0 ⟨10, false⟩] =
      some [(0, some ⟨10, false⟩), (0, some ⟨5, false⟩)] := by
  decide +kernel

end Havenask.DynamicSearchTree
