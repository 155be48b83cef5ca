import Havenask.Lib.Separated
import Havenask.Posting.DynamicSearchTree

/-!
# The nodes of the dynamic search tree

What the operations on one node do.

* **Leaves.** The keys of a leaf increase. `insertKey` puts a key in its place; a split distributes what
  `insertKey` would give over two leaves (`splitKeys_append`).
* **Internal nodes.** Put in the parts between which a child lies, two children and the key between them
  give the node that `CopyAndInsert` makes, and its halves are what `Split` makes.
-/

namespace Havenask.DynamicSearchTree

open List

/-! ## Leaves -/

/-- The docids of a list of keys. -/
def docIds (keys : List KeyType) : List ℤ := keys.map KeyType.docId

/-- The docids increase. -/
def Sorted (keys : List KeyType) : Prop := keys.Pairwise fun k k' => k.docId < k'.docId

variable {keys : List KeyType} {key : KeyType}

lemma mem_docIds {d : ℤ} : d ∈ docIds keys ↔ ∃ k ∈ keys, k.docId = d := mem_map

lemma mem_docIds_of_mem {k : KeyType} (hk : k ∈ keys) : k.docId ∈ docIds keys := mem_docIds.mpr ⟨k, hk, rfl⟩

lemma mem_insertKey (hsorted : Sorted keys) {key k : KeyType} :
    k ∈ insertKey keys key ↔ k = key ∨ (k ∈ keys ∧ k.docId ≠ key.docId) := by
  induction keys with
  | nil => simp [insertKey]
  | cons first keys ih =>
    obtain ⟨hfirst, hsorted⟩ := pairwise_cons.mp hsorted
    have hgt := hfirst
    rw [insertKey]
    split
    · rename_i hlt
      have hne : ∀ x ∈ first :: keys, x.docId ≠ key.docId := by
        intro x hx
        rcases mem_cons.mp hx with rfl | hx
        · omega
        · have := hgt x hx
          omega
      rw [mem_cons]
      exact or_congr_right ⟨fun hk => ⟨hk, hne k hk⟩, And.left⟩
    split
    · rename_i heq
      have hne : ∀ x ∈ keys, x.docId ≠ key.docId := by
        intro x hx
        have := hgt x hx
        omega
      rw [mem_cons]
      refine or_congr_right ⟨fun hk => ⟨mem_cons_of_mem _ hk, hne k hk⟩, ?_⟩
      rintro ⟨hk, hkne⟩
      rcases mem_cons.mp hk with rfl | hk
      · exact absurd heq hkne
      · exact hk
    rename_i hne
    rw [mem_cons, ih hsorted, mem_cons]
    constructor
    · rintro (rfl | rfl | ⟨hk, hkne⟩)
      · exact Or.inr ⟨Or.inl rfl, hne⟩
      · exact Or.inl rfl
      · exact Or.inr ⟨Or.inr hk, hkne⟩
    · rintro (rfl | ⟨rfl | hk, hkne⟩)
      · exact Or.inr (Or.inl rfl)
      · exact Or.inl rfl
      · exact Or.inr (Or.inr ⟨hk, hkne⟩)

lemma mem_docIds_insertKey (hsorted : Sorted keys) {d : ℤ} :
    d ∈ docIds (insertKey keys key) ↔ d = key.docId ∨ d ∈ docIds keys := by
  simp only [mem_docIds, mem_insertKey hsorted]
  constructor
  · rintro ⟨k, rfl | ⟨hk, -⟩, rfl⟩
    · exact Or.inl rfl
    · exact Or.inr ⟨k, hk, rfl⟩
  · rintro (rfl | ⟨k, hk, rfl⟩)
    · exact ⟨key, Or.inl rfl, rfl⟩
    · by_cases heq : k.docId = key.docId
      · exact ⟨key, Or.inl rfl, heq.symm⟩
      · exact ⟨k, Or.inr ⟨hk, heq⟩, rfl⟩

lemma sorted_insertKey (hsorted : Sorted keys) (key : KeyType) : Sorted (insertKey keys key) := by
  induction keys with
  | nil => exact pairwise_singleton _ _
  | cons first keys ih =>
    obtain ⟨hfirst, htail⟩ := pairwise_cons.mp hsorted
    rw [insertKey]
    split
    · rename_i hlt
      refine pairwise_cons.mpr ⟨fun x hx => ?_, hsorted⟩
      rcases mem_cons.mp hx with rfl | hx
      · exact hlt
      · exact hlt.trans (hfirst x hx)
    split
    · rename_i heq
      refine pairwise_cons.mpr ⟨fun x hx => ?_, htail⟩
      rw [← heq]
      exact hfirst x hx
    rename_i hnot hne
    refine pairwise_cons.mpr ⟨fun x hx => ?_, ih htail⟩
    rcases (mem_insertKey htail).mp hx with rfl | ⟨hx, -⟩
    · omega
    · exact hfirst x hx

lemma length_insertKey_le (keys : List KeyType) (key : KeyType) : (insertKey keys key).length ≤ keys.length + 1 := by
  induction keys with
  | nil => rfl
  | cons first keys ih =>
    rw [insertKey]
    split
    · simp
    split
    · simp
    · simpa using ih

/-- A key above the first one does not become the first. -/
lemma head?_insertKey {key k : KeyType} (hhead : keys.head? = some k)
    (hlt : k.docId < key.docId) : (insertKey keys key).head? = some k := by
  cases keys with
  | nil => cases hhead
  | cons first keys =>
    obtain rfl : first = k := Option.some.inj hhead
    rw [insertKey, if_neg (by omega), if_neg (by omega)]
    rfl

/-- Around the slot of a key: smaller keys before it, and none behind. -/
lemma getSlot_cases (keys : List KeyType) (key : KeyType) :
    (getSlot keys key = none ∧ ∀ k ∈ keys, k.docId < key.docId) ∨
      ∃ pre k post, keys = pre ++ k :: post ∧ getSlot keys key = some pre.length ∧
        (∀ k ∈ pre, k.docId < key.docId) ∧ key.docId ≤ k.docId := by
  induction keys with
  | nil => exact Or.inl ⟨rfl, by simp⟩
  | cons first keys ih =>
    by_cases hle : key.docId ≤ first.docId
    · exact Or.inr ⟨[], first, keys, rfl, by simp [getSlot, findIdx?_cons, hle], by simp, hle⟩
    have hstep : getSlot (first :: keys) key = (getSlot keys key).map (· + 1) := by
      simp [getSlot, findIdx?_cons, hle]
    rw [hstep]
    rcases ih with ⟨hnone, hall⟩ | ⟨pre, k, post, rfl, hslot, hpre, hk⟩
    · refine Or.inl ⟨by rw [hnone, Option.map_none], forall_mem_cons.mpr ⟨by omega, hall⟩⟩
    · refine Or.inr ⟨first :: pre, k, post, rfl, by rw [hslot]; rfl, ?_, hk⟩
      exact forall_mem_cons.mpr ⟨by omega, hpre⟩

lemma insertKey_append {pre : List KeyType} (hpre : ∀ k ∈ pre, k.docId < key.docId)
    (post : List KeyType) : insertKey (pre ++ post) key = pre ++ insertKey post key := by
  induction pre with
  | nil => rfl
  | cons first pre ih =>
    obtain ⟨hfirst, hpre⟩ := forall_mem_cons.mp hpre
    rw [cons_append, insertKey, if_neg (by omega), if_neg (by omega), ih hpre, cons_append]

lemma set_eq_insertKey {pre post : List KeyType} {k key : KeyType}
    (hpre : ∀ k ∈ pre, k.docId < key.docId) (heq : k.docId = key.docId) :
    (pre ++ k :: post).set pre.length key = insertKey (pre ++ k :: post) key := by
  rw [insertKey_append hpre, insertKey, if_neg (by omega), if_pos heq]
  simp

/-- Without an equal key the key comes between those below it and those above. -/
lemma insertKey_eq_append {pre post : List KeyType}
    (hpre : ∀ k ∈ pre, k.docId < key.docId) (hpost : ∀ k ∈ post.head?, key.docId < k.docId) :
    insertKey (pre ++ post) key = pre ++ key :: post := by
  rw [insertKey_append hpre]
  cases post with
  | nil => rfl
  | cons first post => rw [insertKey, if_pos (hpost first rfl)]

lemma splitKeys_append {maxSlot mid : ℕ} (hmax : maxSlot = 2 * mid) (hmid : 0 < mid) (hfull : keys.length = maxSlot)
    (hnew : key.docId ∉ docIds keys) :
    (splitKeys maxSlot keys key).1 ++ (splitKeys maxSlot keys key).2 = insertKey keys key ∧
      (splitKeys maxSlot keys key).1.length = mid ∧ (splitKeys maxSlot keys key).2.length = mid + 1 := by
  have hhalf : maxSlot / 2 = mid := by omega
  obtain ⟨pre, post, hkeys, hslot, hpre, hpost⟩ : ∃ pre post, keys = pre ++ post ∧
      (getSlot keys key).getD keys.length = pre.length ∧ (∀ k ∈ pre, k.docId < key.docId) ∧
      ∀ k ∈ post.head?, key.docId < k.docId := by
    rcases getSlot_cases keys key with ⟨hnone, hall⟩ | ⟨pre, k, post, rfl, hslot, hpre, hle⟩
    · exact ⟨keys, [], by simp, by simp [hnone], hall, by simp⟩
    refine ⟨pre, k :: post, rfl, by simp [hslot], hpre, ?_⟩
    intro x hx
    obtain rfl : k = x := Option.some.inj hx
    have hne : k.docId ≠ key.docId := fun h => hnew (h ▸ mem_docIds_of_mem (by simp))
    omega
  have hlength : pre.length + post.length = 2 * mid := by
    rw [← length_append, ← hkeys, hfull, hmax]
  rw [hkeys, insertKey_eq_append hpre hpost]
  rw [hkeys] at hslot
  simp only [splitKeys, hslot, hhalf, take_left, drop_left]
  split
  · rename_i hle
    have hfront : (pre ++ post).take mid = pre.take mid := take_append_of_le_length hle
    have hback : (pre.drop mid ++ key :: post).length = mid + 1 := by
      simp only [length_append, length_drop, length_cons]
      omega
    rw [hfront, take_take, min_self, take_of_length_le hback.le, hback,
      length_take_of_le hle, ← append_assoc, take_append_drop]
    exact ⟨rfl, rfl, rfl⟩
  rename_i hgt
  have hshort : pre.take (mid - 1) = pre := take_of_length_le (by omega)
  have hfront : ((pre ++ post).take (mid - 1)).drop pre.length = post.take (mid - 1 - pre.length) := by
    rw [take_append, hshort, drop_left]
  have hback : (pre ++ post).drop (mid - 1) = post.drop (mid - 1 - pre.length) := by
    rw [drop_append, drop_eq_nil_of_le (by omega), nil_append]
  have hlength₁ : (pre ++ key :: post.take (mid - 1 - pre.length)).length = mid := by
    simp only [length_append, length_cons, length_take]
    omega
  have hlength₂ : (post.drop (mid - 1 - pre.length)).length = mid + 1 := by
    simp only [length_drop]
    omega
  rw [hfront, hback, take_of_length_le hlength₁.le, take_of_length_le hlength₂.le, hlength₁,
    hlength₂, append_assoc, cons_append, take_append_drop]
  exact ⟨rfl, rfl, rfl⟩

/-! ## Internal nodes -/

lemma findChildSlot_append {ks₁ ks₂ : List ℤ} {key : ℤ} (hleft : ∀ k ∈ ks₁, k < key)
    (hright : ∀ k ∈ ks₂, key ≤ k) : findChildSlot (ks₁ ++ ks₂) key = ks₁.length := by
  induction ks₁ with
  | nil =>
    cases ks₂ with
    | nil => rfl
    | cons k ks₂ => simp [findChildSlot, findIdx_cons, hright k mem_cons_self]
  | cons k ks₁ ih =>
    obtain ⟨hk, hleft⟩ := forall_mem_cons.mp hleft
    have hstep : findChildSlot (k :: (ks₁ ++ ks₂)) key = findChildSlot (ks₁ ++ ks₂) key + 1 := by
      simp [findChildSlot, findIdx_cons, not_le.mpr hk]
    rw [cons_append, hstep, ih hleft, length_cons]

lemma exists_append_cons {α : Type} {l : List α} {n : ℕ} (hn : n < l.length) :
    ∃ front a back, l = front ++ a :: back ∧ front.length = n :=
  ⟨l.take n, l[n], l.drop (n + 1), by simp, by simp; omega⟩

lemma exists_append {α : Type} {l : List α} {n : ℕ} (hn : n ≤ l.length) :
    ∃ front back, l = front ++ back ∧ front.length = n :=
  ⟨l.take n, l.drop n, by simp, by simp; omega⟩

lemma drop_append_cons {α : Type} {front back : List α} {a : α} {n : ℕ} (hn : front.length = n) :
    (front ++ a :: back).drop (n + 1) = back := by
  rw [append_cons, drop_left' (by simp [hn])]

variable {ν : Type} {ks₁ ks₂ : List ℤ} {cs₁ cs₂ : List ν} (c c₁ c₂ : ν) {key : ℤ} {maxSlot mid : ℕ}

/-- `CopyAndInsert` puts the children in the place of the one that was split, if the key is new. -/
lemma copyAndInsert_eq (hleft : ∀ k ∈ ks₁, k < key) (hright : ∀ k ∈ ks₂, key < k)
    (hcs₁ : cs₁.length = ks₁.length) (hcs₂ : cs₂.length = ks₂.length) (hroom : (ks₁ ++ ks₂).length < maxSlot) :
    copyAndInsert maxSlot (ks₁ ++ ks₂) (cs₁ ++ c :: cs₂) key c₁ c₂ =
      ((ks₁ ++ key :: ks₂, cs₁ ++ c₁ :: c₂ :: cs₂), false) := by
  have hslot := findChildSlot_append hleft fun k hk => (hright k hk).le
  have hnew : (ks₁ ++ ks₂)[ks₁.length]? ≠ some key := by
    rw [getElem?_append_right le_rfl, Nat.sub_self]
    intro hsome
    exact absurd (hright key (mem_of_getElem? hsome)) (lt_irrefl _)
  have hdrop : (cs₁ ++ c :: cs₂).drop (ks₁.length + 1) = cs₂ := drop_append_cons hcs₁
  simp only [copyAndInsert, hslot, if_neg hnew, take_left, drop_left, hdrop]
  rw [← hcs₁, take_left, hcs₁]
  rw [length_append] at hroom
  by_cases hlast : ks₁.length + 1 < maxSlot
  · simp only [if_pos hlast]
  -- the last slot: nothing is behind it
  have hks₂ : ks₂ = [] := eq_nil_of_length_eq_zero (by omega)
  have hcs₂' : cs₂ = [] := eq_nil_of_length_eq_zero (by omega)
  simp [hks₂, hcs₂']

/-- `Split` cuts the node that has the new children in two at its middle key. -/
lemma splitNode_eq (hmax : maxSlot = 2 * mid) (hmid : 0 < mid) (hleft : ∀ k ∈ ks₁, k < key)
    (hright : ∀ k ∈ ks₂, key < k) (hcs₁ : cs₁.length = ks₁.length) (hcs₂ : cs₂.length = ks₂.length)
    (hfull : (ks₁ ++ ks₂).length = maxSlot) :
    ∃ front k back, ks₁ ++ key :: ks₂ = front ++ k :: back ∧ front.length = mid ∧
      splitNode maxSlot (ks₁ ++ ks₂) (cs₁ ++ c :: cs₂) key c₁ c₂ =
        ((front, (cs₁ ++ c₁ :: c₂ :: cs₂).take (mid + 1)), k, (back, (cs₁ ++ c₁ :: c₂ :: cs₂).drop (mid + 1))) := by
  have hslot := findChildSlot_append hleft fun k hk => (hright k hk).le
  have hhalf : maxSlot / 2 = mid := by omega
  have hlength : ks₁.length + ks₂.length = 2 * mid := by
    rw [← length_append, hfull, hmax]
  have hdrop : (cs₁ ++ c :: cs₂).drop (ks₁.length + 1) = cs₂ := drop_append_cons hcs₁
  have htake : (cs₁ ++ c :: cs₂).take ks₁.length = cs₁ := take_left' hcs₁
  simp only [splitNode, hslot, hhalf, take_left, drop_left]
  rcases lt_trichotomy ks₁.length mid with hlt | heq | hgt
  · -- the middle key is on the right of the new one
    obtain ⟨ka, k, kb, rfl, hka⟩ := exists_append_cons (by omega : mid - 1 - ks₁.length < ks₂.length)
    obtain ⟨ca, cb, rfl, hca⟩ := exists_append (by omega : mid - 1 - ks₁.length ≤ cs₂.length)
    have hkeys : ks₁ ++ (ka ++ k :: kb) = (ks₁ ++ ka) ++ k :: kb := (append_assoc ..).symm
    have hkeys' : ks₁ ++ (ka ++ k :: kb) = (ks₁ ++ ka ++ [k]) ++ kb := by simp
    have hchildren : cs₁ ++ c :: (ca ++ cb) = (cs₁ ++ c :: ca) ++ cb := by simp
    have hnew : cs₁ ++ c₁ :: c₂ :: (ca ++ cb) = (cs₁ ++ c₁ :: c₂ :: ca) ++ cb := by simp
    simp only [length_append, length_cons] at hlength hcs₂
    have hkeysTake : (ks₁ ++ (ka ++ k :: kb)).take (mid - 1) = ks₁ ++ ka := by
      rw [hkeys, take_left' (by simp; omega)]
    have hkeysDrop : (ks₁ ++ (ka ++ k :: kb)).drop mid = kb := by
      rw [hkeys', drop_left' (by simp; omega)]
    have hkeysGet : (ks₁ ++ (ka ++ k :: kb)).getD (mid - 1) 0 = k := by
      have hlast : mid - 1 = (ks₁ ++ ka).length := by
        simp only [length_append]
        omega
      rw [hkeys, hlast]
      simp
    have hmidTake : (cs₁ ++ c :: (ca ++ cb)).take mid = cs₁ ++ c :: ca := by
      rw [hchildren, take_left' (by simp; omega)]
    have hmidDrop : (cs₁ ++ c :: (ca ++ cb)).drop mid = cb := by
      rw [hchildren, drop_left' (by simp; omega)]
    have hcaDrop : (cs₁ ++ c :: ca).drop (ks₁.length + 1) = ca := drop_append_cons hcs₁
    refine ⟨ks₁ ++ key :: ka, k, kb, by simp, by simp; omega, ?_⟩
    rw [if_neg (by omega), if_pos hlt, hkeysTake, drop_left, htake, hmidTake, hcaDrop, hkeysGet,
      hkeysDrop, hmidDrop, take_of_length_le (by simp; omega), take_of_length_le (by omega), hnew,
      take_left' (by simp; omega), drop_left' (by simp; omega)]
  · refine ⟨ks₁, key, ks₂, rfl, heq, ?_⟩
    have hnew : cs₁ ++ c₁ :: c₂ :: cs₂ = (cs₁ ++ [c₁]) ++ c₂ :: cs₂ := by simp
    rw [if_pos heq, ← heq, take_left, drop_left, htake, hdrop,
      take_of_length_le (by omega), hnew, take_left' (by simp [hcs₁]),
      drop_left' (by simp [hcs₁])]
  · -- the middle key is on the left of the new one
    obtain ⟨ka, k, kb, rfl, hka⟩ := exists_append_cons hgt
    obtain ⟨ca, cb, rfl, hca⟩ := exists_append (by omega : mid + 1 ≤ cs₁.length)
    simp only [length_append, length_cons] at hlength hcs₁ hgt
    have hkeys : ka ++ k :: kb ++ ks₂ = ka ++ k :: (kb ++ ks₂) := by simp
    have hkeysDrop : (ka ++ k :: kb).drop (mid + 1) = kb := drop_append_cons hka
    have hkeysGet : (ka ++ k :: kb ++ ks₂).getD mid 0 = k := by
      rw [hkeys, ← hka]
      simp
    refine ⟨ka, k, kb ++ key :: ks₂, by simp, hka, ?_⟩
    rw [if_neg (by simp; omega), if_neg (by simp; omega), hkeysGet, hkeysDrop, htake, hdrop,
      drop_left' hca, hkeys, take_left' hka, append_assoc ca cb,
      append_assoc ca cb, take_left' hca, take_left' hca, drop_left' hca,
      take_of_length_le (by simp; omega)]

end Havenask.DynamicSearchTree
