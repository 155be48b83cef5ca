import Mathlib

/-!
# Blocks of one size

A sequence kept in blocks that all have the same size.  The sequence itself is the blocks one after the
other, and the place of an index is found by division: `getElem?_flatten` for reading,
`flatten_modify_set` for writing, `flatten_drop` for whole blocks that are given up.
-/

namespace BlockList

open List

variable {α : Type*} {c : ℕ}

def Uniform (c : ℕ) (blocks : List (List α)) : Prop := ∀ block ∈ blocks, block.length = c

variable {blocks : List (List α)}

lemma Uniform.tail {block : List α} (h : Uniform c (block :: blocks)) :
    Uniform c blocks := fun _ hmem => h _ (mem_cons_of_mem _ hmem)

section
variable (h : Uniform c blocks)
include h

lemma Uniform.drop (k : ℕ) : Uniform c (blocks.drop k) :=
  fun _ hmem => h _ (mem_of_mem_drop hmem)

omit h in
lemma Uniform.append {blocks blocks' : List (List α)} (h : Uniform c blocks) (h' : Uniform c blocks') :
    Uniform c (blocks ++ blocks') := by
  intro block hmem
  rcases mem_append.mp hmem with hmem | hmem
  · exact h block hmem
  · exact h' block hmem

lemma Uniform.modify_set (i j : ℕ) (a : α) : Uniform c (blocks.modify i (·.set j a)) := by
  intro block hmem
  obtain ⟨k, hk, rfl⟩ := getElem_of_mem hmem
  rw [length_modify] at hk
  rw [getElem_modify]
  split
  · rw [length_set]
    exact h _ (getElem_mem hk)
  · exact h _ (getElem_mem hk)

lemma length_flatten : blocks.flatten.length = blocks.length * c := by
  induction blocks with
  | nil => simp
  | cons block blocks ih =>
    rw [flatten_cons, length_append, ih h.tail, h block mem_cons_self, length_cons, Nat.succ_mul, Nat.add_comm]

lemma flatten_drop (k : ℕ) : (blocks.drop k).flatten = blocks.flatten.drop (k * c) := by
  induction k generalizing blocks with
  | zero => simp
  | succ k ih =>
    cases blocks with
    | nil => simp
    | cons block blocks =>
      have hlen : block.length = c := h block mem_cons_self
      rw [drop_succ_cons, ih h.tail, flatten_cons, Nat.succ_mul, Nat.add_comm, ← drop_drop, ← hlen, drop_left]

lemma flatten_take (k : ℕ) : (blocks.take k).flatten = blocks.flatten.take (k * c) := by
  induction k generalizing blocks with
  | zero => simp
  | succ k ih =>
    cases blocks with
    | nil => simp
    | cons block blocks =>
      have hlen : block.length = c := h block mem_cons_self
      rw [take_succ_cons, flatten_cons, ih h.tail, flatten_cons, Nat.succ_mul,
        Nat.add_comm, ← hlen, take_length_add_append]

end

/-- The element with a number is found in a block by division. -/
lemma getElem?_flatten (hc : 0 < c) (h : Uniform c blocks) (i : ℕ) :
    blocks.flatten[i]? = blocks[i / c]?.bind (·[i % c]?) := by
  induction blocks generalizing i with
  | nil => simp
  | cons block blocks ih =>
    have hlen : block.length = c := h block mem_cons_self
    rw [flatten_cons]
    by_cases hi : i < c
    · rw [getElem?_append_left (by omega), Nat.div_eq_of_lt hi, Nat.mod_eq_of_lt hi]
      rfl
    obtain ⟨j, rfl⟩ : ∃ j, i = j + c := ⟨i - c, by omega⟩
    rw [getElem?_append_right (by omega), hlen, Nat.add_sub_cancel, ih h.tail,
      Nat.add_div_right _ hc, Nat.add_mod_right, getElem?_cons_succ]

lemma flatten_modify_set (hc : 0 < c) (h : Uniform c blocks) (i : ℕ) (a : α) :
    (blocks.modify (i / c) (·.set (i % c) a)).flatten = blocks.flatten.set i a := by
  induction blocks generalizing i with
  | nil => simp
  | cons block blocks ih =>
    have hlen : block.length = c := h block mem_cons_self
    rw [flatten_cons]
    by_cases hi : i < c
    · rw [Nat.div_eq_of_lt hi, Nat.mod_eq_of_lt hi, modify_zero_cons, flatten_cons, set_append_left _ _ (by omega)]
    obtain ⟨j, rfl⟩ : ∃ j, i = j + c := ⟨i - c, by omega⟩
    rw [Nat.add_div_right _ hc, Nat.add_mod_right, modify_succ_cons, flatten_cons,
      ih h.tail, set_append_right _ _ (by omega), hlen, Nat.add_sub_cancel]

end BlockList
