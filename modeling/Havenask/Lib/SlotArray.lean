import Mathlib

/-!
# Slot arrays and the bag of what they hold

A closed hash table is an array of slots, some of them occupied.  Where an entry sits is the
table's business; what the table *holds* is the bag of its occupied slots, `contents`.  Writing one
slot changes the bag by that slot (`contents_update`), so an operation that moves entries around is
followed by adding up its writes.

`Keyed` connects the bag to the map it stands for: keys are distinct, every entry says what the map
says of its key, and the map knows no other key.
-/

namespace SlotArray

open List Function

variable {B K S : Type*} (occ : B → Bool)

/-- A slot as a bag: itself if it is occupied. -/
def slot (b : B) : Multiset B := if occ b then {b} else 0

/-- The occupied slots among the first `n`. -/
def contents (m : ℕ → B) (n : ℕ) : Multiset B := ∑ i ∈ Finset.range n, slot occ (m i)

variable {occ} {m m' : ℕ → B} {n i j : ℕ} {b : B}

lemma slot_of_occ (h : occ b = true) : slot occ b = {b} := if_pos h

lemma slot_of_not_occ (h : occ b = false) : slot occ b = 0 := by
  rw [slot, h]
  rfl

lemma mem_slot {a : B} : a ∈ slot occ b ↔ a = b ∧ occ b = true := by
  unfold slot
  split_ifs with h
  · simp [h]
  · simp [h]

lemma card_slot_le (b : B) : Multiset.card (slot occ b) ≤ 1 := by
  unfold slot
  split_ifs <;> simp

@[simp] lemma contents_zero : contents occ m 0 = 0 := rfl

lemma contents_succ (m : ℕ → B) (n : ℕ) : contents occ m (n + 1) = contents occ m n + slot occ (m n) :=
  Finset.sum_range_succ _ _

lemma contents_congr (h : ∀ i < n, m i = m' i) : contents occ m n = contents occ m' n :=
  Finset.sum_congr rfl fun i hi => by rw [h i (Finset.mem_range.mp hi)]

/-- Writing a slot exchanges what it held for what it holds. -/
lemma contents_update (hi : i < n) :
    contents occ (update m i b) n + slot occ (m i) = contents occ m n + slot occ b := by
  have hmem : i ∈ Finset.range n := Finset.mem_range.mpr hi
  have hcomp : ∀ x, slot occ (update m i b x)
      = update (fun x => slot occ (m x)) i (slot occ b) x := by
    intro x
    by_cases hx : x = i
    · rw [hx, update_self, update_self]
    · rw [update_of_ne hx, update_of_ne hx]
  simp only [contents, hcomp]
  rw [Finset.sum_update_of_mem hmem, ← Finset.sum_sdiff (Finset.singleton_subset_iff.mpr hmem), Finset.sum_singleton]
  abel

lemma contents_fill (hi : i < n) (hfree : occ (m i) = false) (hocc : occ b = true) :
    contents occ (update m i b) n = contents occ m n + {b} := by
  have h : contents occ (update m i b) n + slot occ (m i) = contents occ m n + slot occ b :=
    contents_update hi
  rwa [slot_of_not_occ hfree, add_zero, slot_of_occ hocc] at h

lemma contents_clear (hi : i < n) (hocc : occ (m i) = true) (hfree : occ b = false) :
    contents occ (update m i b) n + {m i} = contents occ m n := by
  have h : contents occ (update m i b) n + slot occ (m i) = contents occ m n + slot occ b :=
    contents_update hi
  rwa [slot_of_not_occ hfree, add_zero, slot_of_occ hocc] at h

/-- Writing over an occupied slot: the rest of the bag stays. -/
lemma contents_replace (hi : i < n) (hocc : occ (m i) = true) (hocc' : occ b = true) :
    ∃ C, contents occ m n = C + {m i} ∧ contents occ (update m i b) n = C + {b} := by
  have hmem : m i ∈ contents occ m n := by
    rw [contents, Multiset.mem_sum]
    exact ⟨i, Finset.mem_range.mpr hi, by rw [slot_of_occ hocc]; exact Multiset.mem_singleton_self _⟩
  obtain ⟨C, hC⟩ := Multiset.exists_cons_of_mem hmem
  rw [← Multiset.singleton_add, add_comm] at hC
  refine ⟨C, hC, ?_⟩
  have h : contents occ (update m i b) n + slot occ (m i) = contents occ m n + slot occ b :=
    contents_update hi
  rw [slot_of_occ hocc, slot_of_occ hocc', hC, add_right_comm] at h
  exact add_right_cancel h

lemma mem_contents : b ∈ contents occ m n ↔ ∃ i < n, m i = b ∧ occ b = true := by
  simp only [contents, Multiset.mem_sum, Finset.mem_range, mem_slot]
  constructor
  · rintro ⟨i, hi, rfl, hocc⟩
    exact ⟨i, hi, rfl, hocc⟩
  · rintro ⟨i, hi, rfl, hocc⟩
    exact ⟨i, hi, rfl, hocc⟩

lemma mem_contents_of_lt (hi : i < n) (hocc : occ (m i) = true) : m i ∈ contents occ m n :=
  mem_contents.mpr ⟨i, hi, rfl, hocc⟩

lemma card_contents_le (m : ℕ → B) (n : ℕ) : Multiset.card (contents occ m n) ≤ n := by
  induction n with
  | zero => simp
  | succ n ih =>
    have hslot : Multiset.card (slot occ (m n)) ≤ 1 := card_slot_le _
    rw [contents_succ, Multiset.card_add]
    omega

/-- A region without a free slot holds as many entries as it has slots. -/
lemma card_contents_of_full (h : ∀ i < n, occ (m i) = true) : Multiset.card (contents occ m n) = n := by
  induction n with
  | zero => simp
  | succ n ih =>
    rw [contents_succ, Multiset.card_add, ih fun i hi => h i (by omega),
      slot_of_occ (h n (by omega)), Multiset.card_singleton]

/-- A larger region holds what the smaller one holds and what lies between. -/
lemma contents_add (m : ℕ → B) (n k : ℕ) : contents occ m (n + k)
    = contents occ m n + ((range' n k).map fun i => slot occ (m i)).sum := by
  induction k with
  | zero => simp
  | succ k ih =>
    rw [← Nat.add_assoc, contents_succ, ih, range'_1_concat, map_append,
      sum_append, map_singleton, sum_singleton, add_assoc]

/-- What a region holds is part of what a larger one holds. -/
lemma contents_le {k : ℕ} (h : n ≤ k) : contents occ m n ≤ contents occ m k := by
  induction k, h using Nat.le_induction with
  | base => exact le_rfl
  | succ k _ ih =>
    rw [contents_succ]
    exact ih.trans (Multiset.le_add_right _ _)

/-- What happened to a region happened to a larger one, if nothing happened behind it. -/
lemma contents_extend {k : ℕ} {C D : Multiset B}
    (hn : contents occ m n + C = contents occ m' n + D) (hrest : ∀ i, n ≤ i → m i = m' i)
    (h : n ≤ k) : contents occ m k + C = contents occ m' k + D := by
  induction k, h using Nat.le_induction with
  | base => exact hn
  | succ k hk ih =>
    rw [contents_succ, contents_succ, add_right_comm, ih, hrest k hk, add_right_comm]

/-- Empty slots behind a region add nothing to it. -/
lemma contents_eq_of_le {k : ℕ} (h : n ≤ k) (hfree : ∀ i, n ≤ i → i < k → occ (m i) = false) :
    contents occ m k = contents occ m n := by
  induction k, h using Nat.le_induction with
  | base => rfl
  | succ k hk ih =>
    rw [contents_succ, slot_of_not_occ (hfree k hk k.lt_succ_self), add_zero]
    exact ih fun i hi hlt => hfree i hi (by omega)

lemma contents_of_empty (h : ∀ i < n, occ (m i) = false) : contents occ m n = 0 :=
  Finset.sum_eq_zero fun i hi => slot_of_not_occ (h i (Finset.mem_range.mp hi))

lemma contents_eq_map (m : ℕ → B) (n : ℕ) :
    contents occ m n = ((Finset.range n).filter fun i => occ (m i) = true).val.map m := by
  simp only [contents, slot, ← Finset.sum_filter]
  rw [← Multiset.sum_map_singleton (Multiset.map m _), Multiset.map_map]
  rfl

/-- Distinct keys in the bag are distinct keys in the array. -/
lemma eq_of_key_eq {key : B → K} (hnodup : ((contents occ m n).map key).Nodup) (hi : i < n)
    (hj : j < n) (hocci : occ (m i) = true) (hoccj : occ (m j) = true) (hkey : key (m i) = key (m j)) : i = j := by
  rw [contents_eq_map, Multiset.map_map] at hnodup
  refine Multiset.inj_on_of_nodup_map hnodup i ?_ j ?_ hkey
  · exact Finset.mem_filter.mpr ⟨Finset.mem_range.mpr hi, hocci⟩
  · exact Finset.mem_filter.mpr ⟨Finset.mem_range.mpr hj, hoccj⟩

/-! ## The map a bag stands for -/

/-- The bag `C` of keyed entries stands for the map `M` on the keys of `dom`. -/
structure Keyed (key : B → K) (entry : B → S) (absent : S) (dom : K → Prop) (C : Multiset B) (M : K → S) : Prop where
  nodup : (C.map key).Nodup
  entry_eq : ∀ b ∈ C, M (key b) = entry b
  mem_of_ne : ∀ k, dom k → M k ≠ absent → k ∈ C.map key

namespace Keyed

variable {key : B → K} {entry : B → S} {absent : S} {dom : K → Prop} {C : Multiset B} {M : K → S}

lemma zero : Keyed key entry absent dom 0 fun _ => absent := ⟨by simp, by simp, fun _ _ h => absurd rfl h⟩

lemma eq_absent (h : Keyed key entry absent dom C M) {k : K} (hdom : dom k) (hk : k ∉ C.map key) : M k = absent := by
  by_contra hne
  exact hk (h.mem_of_ne k hdom hne)

/-- Adding an entry under a key that the bag does not have. -/
lemma nodup_add_singleton (hC : (C.map key).Nodup) (hb : key b ∉ C.map key) : ((C + {b}).map key).Nodup := by
  rw [Multiset.map_add, Multiset.map_singleton, Multiset.nodup_add]
  exact ⟨hC, Multiset.nodup_singleton _, Multiset.disjoint_singleton.mpr hb⟩

variable [DecidableEq K]

/-- A bag without the key `key b` that agrees with `M` elsewhere, and `b` added. -/
lemma of_rest (hC : (C.map key).Nodup) (hb : key b ∉ C.map key) (hentry : ∀ a ∈ C, M (key a) = entry a)
    (hmem : ∀ k, dom k → M k ≠ absent → k ≠ key b → k ∈ C.map key) :
    Keyed key entry absent dom (C + {b}) (update M (key b) (entry b)) := by
  refine ⟨nodup_add_singleton hC hb, ?_, ?_⟩
  · intro a ha
    rcases Multiset.mem_add.mp ha with ha | ha
    · have hne : key a ≠ key b := fun heq => hb (heq ▸ Multiset.mem_map_of_mem key ha)
      rw [update_of_ne hne, hentry a ha]
    · rw [Multiset.mem_singleton.mp ha, update_self]
  intro k hdom hk
  rw [Multiset.map_add, Multiset.map_singleton, Multiset.mem_add, Multiset.mem_singleton]
  by_cases hkb : k = key b
  · exact Or.inr hkb
  · rw [update_of_ne hkb] at hk
    exact Or.inl (hmem k hdom hk hkb)

lemma add (h : Keyed key entry absent dom C M) (hb : key b ∉ C.map key) :
    Keyed key entry absent dom (C + {b}) (update M (key b) (entry b)) :=
  of_rest h.nodup hb h.entry_eq fun k hdom hk _ => h.mem_of_ne k hdom hk

lemma replace {a : B} (h : Keyed key entry absent dom (C + {a}) M) (hkey : key b = key a) :
    Keyed key entry absent dom (C + {b}) (update M (key b) (entry b)) := by
  have hnodup := h.nodup
  rw [Multiset.map_add, Multiset.map_singleton, Multiset.nodup_add] at hnodup
  obtain ⟨hC, -, hdis⟩ := hnodup
  refine of_rest hC ?_ ?_ ?_
  · rw [hkey]
    exact Multiset.disjoint_singleton.mp hdis
  · exact fun c hc => h.entry_eq c (Multiset.mem_add.mpr (Or.inl hc))
  intro k hdom hk hkb
  have hmem := h.mem_of_ne k hdom hk
  rw [Multiset.map_add, Multiset.map_singleton, Multiset.mem_add, Multiset.mem_singleton, ← hkey] at hmem
  exact hmem.resolve_right hkb

/-- The bag has nothing to say about a key outside its domain. -/
lemma update_of_not_dom (h : Keyed key entry absent dom C M) (hdom : ∀ b ∈ C, dom (key b)) {k : K}
    (hk : ¬ dom k) (s : S) : Keyed key entry absent dom C (update M k s) := by
  refine ⟨h.nodup, ?_, ?_⟩
  · intro b hb
    have hne : key b ≠ k := fun heq => hk (heq ▸ hdom b hb)
    rw [update_of_ne hne, h.entry_eq b hb]
  intro k' hk' hne
  have hkk : k' ≠ k := fun heq => hk (heq ▸ hk')
  rw [update_of_ne hkk] at hne
  exact h.mem_of_ne k' hk' hne

end Keyed

end SlotArray
