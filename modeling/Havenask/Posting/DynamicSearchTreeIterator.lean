import Havenask.Posting.DynamicSearchTreeMap

/-!
# Searching and iterating over the dynamic search tree

A search goes down to a leaf and walks from there from leaf to leaf until it finds a key. An iterator
that is asked for the docid after its current one does not go down again: it walks from the leaf and the
slot where it stands, and passes over keys with the current docid. Both find the first key from a bound
on (`FirstFrom`), in a leaf that may have been replaced since; three leaves are enough.

* **`isAnswer_of_firstFrom`**: what the first key from a leaf on means for the docids that the leaf knows.
* **`searchLeaves_firstFrom`**, **`scanLeaves_firstFrom`**: the two ways. A scan relies on the current key being in its
  slot, or one behind it: it was shifted if smaller docids have come into the leaf.
-/

namespace Havenask.DynamicSearchTree

open List LeafNode

/-! ## Walks from leaf to leaf -/

/-- From a leaf to one behind it, past leaves whose keys are below a bound. -/
inductive Walk (heap : LeafHeap) (bound : ℤ) : ℕ → ℕ → Prop
  | refl (a : ℕ) : Walk heap bound a a
  | step {a b c : ℕ} : (∀ k ∈ (heap.leaf a).keys, k.docId < bound) → (heap.leaf a).nextLeaf = some c →
      Walk heap bound c b → Walk heap bound a b

/-- The first key from the bound on, in a leaf or behind it, or there is none. -/
def FirstFrom (heap : LeafHeap) (bound : ℤ) (a : ℕ) : Option Found → Prop
  | none => ∃ b, Walk heap bound a b ∧ (∀ k ∈ (heap.leaf b).keys, k.docId < bound) ∧ (heap.leaf b).nextLeaf = none
  | some found => Walk heap bound a found.leaf ∧ ∃ pre post,
      (heap.leaf found.leaf).keys = pre ++ found.key :: post ∧ pre.length = found.slot ∧
      (∀ k ∈ pre, k.docId < bound) ∧ bound ≤ found.key.docId

section
variable {maxSlot : ℕ} {heap : LeafHeap} {lo hi : ℕ → ℤ} {known : ℕ → Set ℤ} {leaves : List ℕ}
  {entered docs : Set ℤ} {last : ℤ → Option Bool} {bound : ℤ} {a b c : ℕ}

lemma FirstFrom.step {found : Option Found} (hbelow : ∀ k ∈ (heap.leaf a).keys, k.docId < bound)
    (hnext : (heap.leaf a).nextLeaf = some c) (hfirst : FirstFrom heap bound c found) :
    FirstFrom heap bound a found := by
  cases found with
  | none =>
    obtain ⟨b, hwalk, hb⟩ := hfirst
    exact ⟨b, .step hbelow hnext hwalk, hb⟩
  | some found => exact ⟨.step hbelow hnext hfirst.1, hfirst.2⟩

/-- What is found is the least docid of `docs` from the bound on: the leaf is one that knows them. If the
search started in the tree, it is in the tree, and the key is the last operation. -/
structure IsHit (heap : LeafHeap) (known : ℕ → Set ℤ) (leaves : List ℕ) (last : ℤ → Option Bool)
    (docs : Set ℤ) (bound : ℤ) (live : Prop) (found : Found) : Prop where
  count : found.leaf < heap.count
  knows : docs ⊆ known found.leaf
  le : bound ≤ found.key.docId
  range : 0 ≤ found.key.docId ∧ found.key.docId < 2 ^ 31 - 1
  least : ∀ d ∈ docs, bound ≤ d → found.key.docId ≤ d
  slot : (heap.leaf found.leaf).keys[found.slot]? = some found.key
  inTree : live → found.leaf ∈ leaves ∧ last found.key.docId = some found.key.isDelete

/-- What answers a search for the first of `docs` from the bound on. -/
def IsAnswer (heap : LeafHeap) (known : ℕ → Set ℤ) (leaves : List ℕ) (last : ℤ → Option Bool)
    (docs : Set ℤ) (bound : ℤ) (live : Prop) : Option Found → Prop
  | none => ∀ d ∈ docs, d < 2 ^ 31 - 1 → d < bound
  | some found => IsHit heap known leaves last docs bound live found

lemma Walk.knows (hok : ∀ a < heap.count, LeafOk maxSlot heap lo hi known a)
    (hwalk : Walk heap bound a b) (ha : a < heap.count) (hdocs : docs ⊆ known a)
    (hlo : ∀ d ∈ docs, bound ≤ d → lo a ≤ d) :
    b < heap.count ∧ docs ⊆ known b ∧ ∀ d ∈ docs, bound ≤ d → lo b ≤ d := by
  induction hwalk with
  | refl a => exact ⟨ha, hdocs, hlo⟩
  | @step a b c hbelow hnext _ ih =>
    rcases (hok a ha).next with ⟨hnone, -⟩ | ⟨c', hc', hcount, hloc, hknown⟩
    · rw [hnext] at hnone
      cases hnone
    rw [hnext] at hc'
    cases hc'
    refine ih hcount (hdocs.trans hknown) fun d hd hbound => ?_
    -- a docid in the range of the leaf would be one of its keys
    by_contra hlt
    obtain ⟨k, hk, rfl⟩ := mem_docIds.mp ((hok a ha).covers d (hdocs hd) (hlo d hd hbound) (by omega))
    exact absurd (hbelow k hk) (not_lt.mpr hbound)

lemma Walk.inTree (hshape : Shape maxSlot heap lo hi known leaves entered) (hwalk : Walk heap bound a b)
    {front back : List ℕ} (hleaves : leaves = front ++ a :: back)
    (hfront : ∀ k ∈ entries heap front, k.docId < bound) :
    ∃ front' back', leaves = front' ++ b :: back' ∧ ∀ k ∈ entries heap front', k.docId < bound := by
  induction hwalk generalizing front back with
  | refl a => exact ⟨front, back, hleaves, hfront⟩
  | @step a b c hbelow hnext _ ih =>
    have hlinked := hshape.linked
    rw [hleaves] at hlinked
    have hback := hlinked.neighbours.2.symm.trans hnext
    obtain ⟨back', rfl⟩ : ∃ back', back = c :: back' := by
      cases back with
      | nil => cases hback
      | cons x back' => exact ⟨back', by rw [Option.some.inj hback]⟩
    have hleaves' : leaves = (front ++ [a]) ++ c :: back' := by rw [hleaves, append_cons]
    refine ih hleaves' fun k hk => ?_
    rw [entries, flatMap_append, mem_append] at hk
    rcases hk with hk | hk
    · exact hfront k hk
    · exact hbelow k (by simpa using hk)

lemma Recorded.last_eq {front pre post back : List KeyType} {key : KeyType}
    (hrecorded : Recorded (front ++ (pre ++ key :: post) ++ back) last)
    (hfront : ∀ k ∈ front, k.docId < key.docId) (hpre : ∀ k ∈ pre, k.docId < key.docId) :
    last key.docId = some key.isDelete := by
  have hnone : ∀ l : List KeyType, (∀ k ∈ l, k.docId < key.docId) →
      l.find? (fun k => k.docId = key.docId) = none := by
    intro l hl
    rw [find?_eq_none]
    intro k hk
    simpa using (hl k hk).ne
  rw [← hrecorded key.docId, find?_append, find?_append, find?_append, hnone front hfront, hnone pre hpre]
  simp

lemma isAnswer_of_firstFrom (hshape : Shape maxSlot heap lo hi known leaves entered)
    (hrecorded : Recorded (entries heap leaves) last) (ha : a < heap.count) (hlo : lo a < bound)
    (hdocs : docs ⊆ known a) {found : Option Found} (hfirst : FirstFrom heap bound a found) :
    IsAnswer heap known leaves last docs bound (a ∈ leaves) found := by
  have hstart : ∀ d ∈ docs, bound ≤ d → lo a ≤ d := fun d _ hd => by omega
  cases found with
  | none =>
    obtain ⟨b, hwalk, hbelow, hnext⟩ := hfirst
    obtain ⟨hb, hknown, hlob⟩ := hwalk.knows hshape.leafOk ha hdocs hstart
    intro d hd hlt
    by_contra hge
    have hhi : hi b = 2 ^ 31 - 1 := by
      rcases (hshape.leafOk b hb).next with ⟨-, hhi⟩ | ⟨c, hc, -⟩
      · exact hhi
      · rw [hnext] at hc
        cases hc
    obtain ⟨k, hk, rfl⟩ := mem_docIds.mp ((hshape.leafOk b hb).covers d (hknown hd) (hlob d hd (by omega)) (by omega))
    exact hge (hbelow k hk)
  | some found =>
    obtain ⟨hwalk, pre, post, hkeys, hslot, hpre, hbound⟩ := hfirst
    obtain ⟨hb, hknown, hlob⟩ := hwalk.knows hshape.leafOk ha hdocs hstart
    have hok := hshape.leafOk found.leaf hb
    have hkey := hok.range found.key (by simp [hkeys])
    refine ⟨hb, hknown, hbound, hkey.2.2, fun d hd hd' => ?_, ?_, fun hlive => ?_⟩
    · rcases lt_or_ge d (hi found.leaf) with hlt | hge
      · obtain ⟨k, hk, rfl⟩ := mem_docIds.mp (hok.covers d (hknown hd) (hlob d hd hd') hlt)
        have hsorted := hok.sorted
        rw [hkeys] at hk hsorted
        rcases mem_append.mp hk with hk | hk
        · exact absurd (hpre k hk) (not_lt.mpr hd')
        rcases mem_cons.mp hk with rfl | hk
        · exact le_rfl
        · exact ((pairwise_cons.mp (pairwise_append.mp hsorted).2.1).1 k hk).le
      · exact hkey.2.1.trans hge
    · rw [hkeys, ← hslot]
      simp
    obtain ⟨front, back, hleaves⟩ := append_of_mem hlive
    have hfront : ∀ k ∈ entries heap front, k.docId < bound := by
      intro k hk
      rw [hleaves] at hshape
      exact (hshape.front_le hk).trans_lt hlo
    obtain ⟨front', back', hleaves', hfront'⟩ := hwalk.inTree hshape hleaves hfront
    refine ⟨by simp [hleaves'], ?_⟩
    have hentries : entries heap leaves = entries heap front' ++ (pre ++ found.key :: post) ++
        entries heap back' := by
      rw [hleaves', ← hkeys]
      simp [entries]
    rw [hentries] at hrecorded
    exact hrecorded.last_eq (fun k hk => (hfront' k hk).trans_le hbound) fun k hk => (hpre k hk).trans_le hbound

/-! ## The two loops -/

lemma LeafOk.next_head (hok : ∀ a < heap.count, LeafOk maxSlot heap lo hi known a) (ha : a < heap.count)
    (hnext : (heap.leaf a).nextLeaf = some c) :
    c < heap.count ∧ lo c = hi a ∧ ∃ k rest, (heap.leaf c).keys = k :: rest ∧ k.docId = hi a ∧
      ∀ k' ∈ rest, hi a < k'.docId := by
  rcases (hok a ha).next with ⟨hnone, -⟩ | ⟨c', hc', hcount, hloc, -⟩
  · rw [hnext] at hnone
    cases hnone
  rw [hnext] at hc'
  cases hc'
  have hbot := (hok a ha).bot
  have hlt := (hok a ha).lt
  obtain ⟨k, hhead, hk⟩ := (hok c hcount).head (by omega)
  obtain ⟨rest, hrest⟩ := head?_eq_some_iff.mp hhead
  have hsorted := (hok c hcount).sorted
  rw [hrest] at hsorted
  refine ⟨hcount, hloc, k, rest, hrest, by omega, fun k' hk' => ?_⟩
  have := (pairwise_cons.mp hsorted).1 k' hk'
  omega

variable {pre post : List KeyType} {k : KeyType}

lemma LeafNode.key_append {leaf : LeafNode} (hkeys : leaf.keys = pre ++ k :: post) : leaf.key pre.length = k := by
  rw [key, hkeys]
  simp

lemma LeafNode.key_zero {leaf : LeafNode} {rest : List KeyType} (hkeys : leaf.keys = k :: rest) : leaf.key 0 = k := by
  rw [key, hkeys]
  rfl

section
variable (hok : ∀ a < heap.count, LeafOk maxSlot heap lo hi known a)
include hok

lemma searchLeaves_firstFrom
    (ha : a < heap.count) (target : KeyType) (hhi : target.docId ≤ hi a) {fuel : ℕ} (hfuel : 2 ≤ fuel) :
    ∃ found, searchLeaves heap target fuel (some a) = some found ∧ FirstFrom heap target.docId a found := by
  obtain ⟨fuel, rfl⟩ := Nat.exists_eq_add_of_le' hfuel
  rcases getSlot_cases (heap.leaf a).keys target with ⟨hslot, hall⟩ | ⟨pre, k, post, hkeys, hslot, hpre, hle⟩
  · cases hnext : (heap.leaf a).nextLeaf with
    | none =>
      refine ⟨none, ?_, a, .refl a, hall, hnext⟩
      simp only [searchLeaves, hslot, hnext]
    | some c =>
      obtain ⟨-, -, k, rest, hkeys, hk, -⟩ := LeafOk.next_head hok ha hnext
      have hslot' : getSlot (heap.leaf c).keys target = some 0 := by
        rw [getSlot, hkeys, findIdx?_cons, if_pos (by simp; omega)]
      refine ⟨some ⟨c, 0, k⟩, ?_, .step hall hnext (.refl c), [], rest, hkeys, rfl, by simp, ?_⟩
      · have hkey : (heap.leaf c).key 0 = k := key_zero hkeys
        simp only [searchLeaves, hslot, hnext, hslot', hkey]
      · show target.docId ≤ k.docId
        omega
  · refine ⟨some ⟨a, pre.length, k⟩, ?_, .refl a, pre, post, hkeys, rfl, hpre, hle⟩
    simp only [searchLeaves, hslot, key_append hkeys]

omit hok in
lemma scanSlots_append {slot : ℕ} (hsorted : Sorted (pre ++ k :: post))
    (hslot : slot = pre.length ∨ slot + 1 = pre.length) (hlength : pre.length + 1 < 2 ^ 16) :
    scanSlots (pre ++ k :: post) k.docId slot = if post = [] then none else some (pre.length + 1) := by
  have hpost : ∀ x ∈ post, x.docId ≠ k.docId := fun x hx =>
    ((pairwise_cons.mp (pairwise_append.mp hsorted).2.1).1 x hx).ne'
  have hmod : (slot + 1) % 2 ^ 16 = slot + 1 := Nat.mod_eq_of_lt (by omega)
  rcases hslot with rfl | hslot
  · have hdrop : (pre ++ k :: post).drop (pre.length + 1) = post := drop_append_cons rfl
    rw [scanSlots, hmod, hdrop]
    cases post with
    | nil => rfl
    | cons x post => simp [findIdx?_cons, hpost x mem_cons_self]
  · rw [scanSlots, hmod, hslot, drop_left]
    cases post with
    | nil => simp
    | cons x post => simp [findIdx?_cons, hpost x mem_cons_self]

omit hok in
lemma scanSlots_invalid (k : KeyType) (rest : List KeyType) (currentDocId : ℤ)
    (hrest : ∀ k' ∈ rest, k.docId < k'.docId) : scanSlots (k :: rest) currentDocId invalidSlotId =
      if k.docId ≠ currentDocId then some 0 else if rest = [] then none else some 1 := by
  have hmod : (invalidSlotId + 1) % 2 ^ 16 = 0 := rfl
  rw [scanSlots, hmod, drop_zero]
  by_cases hk : k.docId = currentDocId
  · cases rest with
    | nil => simp [hk]
    | cons x rest =>
      have hx : x.docId ≠ currentDocId := by
        have := hrest x mem_cons_self
        omega
      simp [findIdx?_cons, hk, hx]
  · simp [findIdx?_cons, hk]

lemma scanLeaves_next (ha : a < heap.count)
    {currentDocId : ℤ} (hcurrent : currentDocId ≤ hi a) {fuel : ℕ} (hfuel : 2 ≤ fuel) :
    ∃ found, scanLeaves heap currentDocId fuel (heap.leaf a).nextLeaf invalidSlotId = some found ∧
      ((∀ k ∈ (heap.leaf a).keys, k.docId < currentDocId + 1) → FirstFrom heap (currentDocId + 1) a found) := by
  obtain ⟨fuel, rfl⟩ := Nat.exists_eq_add_of_le' hfuel
  cases hnext : (heap.leaf a).nextLeaf with
  | none => exact ⟨none, rfl, fun hbelow => ⟨a, .refl a, hbelow, hnext⟩⟩
  | some c =>
    obtain ⟨hc, hloc, k, rest, hkeys, hk, hrest⟩ := LeafOk.next_head hok ha hnext
    have hscan := scanSlots_invalid k rest currentDocId fun k' hk' => by
      have := hrest k' hk'
      omega
    rw [← hkeys] at hscan
    have hkey₀ : (heap.leaf c).key 0 = k := key_zero hkeys
    by_cases hne : k.docId = currentDocId
    · rw [if_neg (not_not.mpr hne)] at hscan
      cases rest with
      | nil =>
        -- the leaf has only the current key: the next one begins behind it
        rw [if_pos rfl] at hscan
        have hlt := (hok c hc).lt
        have hbelow' : ∀ x ∈ (heap.leaf c).keys, x.docId < currentDocId + 1 := by
          rw [hkeys]
          simp [hne]
        cases hnext' : (heap.leaf c).nextLeaf with
        | none =>
          refine ⟨none, ?_, fun hbelow => .step hbelow hnext ⟨c, .refl c, hbelow', hnext'⟩⟩
          simp only [scanLeaves, hscan, hnext']
        | some e =>
          obtain ⟨-, -, k', rest', hkeys', hk', hrest'⟩ := LeafOk.next_head hok hc hnext'
          have hscan' := scanSlots_invalid k' rest' currentDocId fun x hx => by
            have := hrest' x hx
            omega
          rw [← hkeys', if_pos (by omega)] at hscan'
          have hkey' : (heap.leaf e).key 0 = k' := key_zero hkeys'
          refine ⟨some ⟨e, 0, k'⟩, ?_, fun hbelow => .step hbelow hnext
            ⟨.step hbelow' hnext' (.refl e), [], rest', hkeys', rfl, by simp, ?_⟩⟩
          · simp only [scanLeaves, hscan, hnext', hscan', hkey']
          · show currentDocId + 1 ≤ k'.docId
            omega
      | cons y rest =>
        rw [if_neg (by simp)] at hscan
        have hkey₁ : (heap.leaf c).key 1 = y := by
          rw [key, hkeys]
          rfl
        refine ⟨some ⟨c, 1, y⟩, ?_, fun hbelow => .step hbelow hnext
          ⟨.refl c, [k], rest, hkeys, rfl, by simp [hne], ?_⟩⟩
        · simp only [scanLeaves, hscan, hkey₁]
        have := hrest y mem_cons_self
        show currentDocId + 1 ≤ y.docId
        omega
    · rw [if_pos hne] at hscan
      refine ⟨some ⟨c, 0, k⟩, ?_, fun hbelow => .step hbelow hnext ⟨.refl c, [], rest, hkeys, rfl, by simp, ?_⟩⟩
      · simp only [scanLeaves, hscan, hkey₀]
      · show currentDocId + 1 ≤ k.docId
        omega

/-- The loop of an iterator from where it stands: its current key is in its slot or one behind. -/
lemma scanLeaves_firstFrom
    (hsmall : maxSlot ≤ 2 ^ 15) (ha : a < heap.count) (hkeys : (heap.leaf a).keys = pre ++ k :: post) {slot : ℕ}
    (hslot : slot = pre.length ∨ slot + 1 = pre.length) {fuel : ℕ} (hfuel : 3 ≤ fuel) :
    ∃ found, scanLeaves heap k.docId fuel (some a) slot = some found ∧ FirstFrom heap (k.docId + 1) a found := by
  obtain ⟨fuel, rfl⟩ := Nat.exists_eq_add_of_le' hfuel
  have hsorted := (hok a ha).sorted
  have hroom := (hok a ha).room
  rw [hkeys] at hsorted hroom
  have hlength : pre.length + 1 < 2 ^ 16 := by
    simp only [length_append, length_cons] at hroom
    omega
  have hscan := scanSlots_append hsorted hslot hlength
  rw [← hkeys] at hscan
  obtain ⟨-, hpost, hcross⟩ := pairwise_append.mp hsorted
  have hpre : ∀ x ∈ pre, x.docId < k.docId := fun x hx => hcross x hx k mem_cons_self
  cases post with
  | nil =>
    rw [if_pos rfl] at hscan
    have hcurrent := ((hok a ha).range k (by simp [hkeys])).2.1
    have hbelow : ∀ x ∈ (heap.leaf a).keys, x.docId < k.docId + 1 := by
      rw [hkeys]
      intro x hx
      rcases mem_append.mp hx with hx | hx
      · have := hpre x hx
        omega
      · rw [mem_singleton.mp hx]
        omega
    obtain ⟨found, hfound, hfirst⟩ := scanLeaves_next hok ha hcurrent (by omega : 2 ≤ fuel + 2)
    refine ⟨found, ?_, hfirst hbelow⟩
    simp only [scanLeaves, hscan]
    exact hfound
  | cons y post =>
    rw [if_neg (by simp)] at hscan
    have hy := (pairwise_cons.mp hpost).1 y mem_cons_self
    have hkeys' : (heap.leaf a).keys = (pre ++ [k]) ++ y :: post := by rw [hkeys, append_cons]
    have hkey : (heap.leaf a).key (pre.length + 1) = y := by
      have := key_append hkeys'
      rwa [length_append, length_singleton] at this
    refine ⟨some ⟨a, pre.length + 1, y⟩, ?_, .refl a, pre ++ [k], post, hkeys', by simp, ?_, ?_⟩
    · simp only [scanLeaves, hscan, hkey]
    · intro x hx
      rcases mem_append.mp hx with hx | hx
      · have := hpre x hx
        omega
      · rw [mem_singleton.mp hx]
        omega
    · show k.docId + 1 ≤ y.docId
      omega

end

end

end Havenask.DynamicSearchTree
