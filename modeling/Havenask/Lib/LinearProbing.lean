import Mathlib

/-!
# Linear probe sequences

Probing from a home slot `h` in a table of `N` slots visits `h, h + 1, ...` modulo `N`.  A slot is
*reached* from `h` when every slot visited before it is occupied; that is where a search that stops
at free slots can still find an entry.  Occupying more slots keeps what is reached
(`Reached.mono`).
-/

namespace LinearProbing

/-- The slot `i` is visited from `h` before any slot that is not occupied. -/
def Reached (occ : ℕ → Prop) (N h i : ℕ) : Prop := ∃ d, (h + d) % N = i ∧ ∀ d' < d, occ ((h + d') % N)

variable {occ occ' : ℕ → Prop} {N h i d : ℕ}

lemma Reached.mono (hr : Reached occ N h i) (hocc : ∀ j, occ j → occ' j) : Reached occ' N h i := by
  obtain ⟨d, hd, hbefore⟩ := hr
  exact ⟨d, hd, fun d' hd' => hocc _ (hbefore d' hd')⟩

lemma exists_pos (hi : i < N) : ∃ d < N, (h + d) % N = i := by
  have hN : 0 < N := by omega
  have hh := Nat.mod_lt h hN
  rcases le_or_gt (h % N) i with hle | hlt
  · refine ⟨i - h % N, by omega, ?_⟩
    rw [← Nat.mod_add_mod, Nat.add_sub_cancel' hle, Nat.mod_eq_of_lt hi]
  · refine ⟨i + N - h % N, by omega, ?_⟩
    rw [← Nat.mod_add_mod, Nat.add_sub_cancel' (by omega), Nat.add_mod_right, Nat.mod_eq_of_lt hi]

/-- The next slot, computed from the slot before. -/
lemma next_pos (N h d : ℕ) : (if N ≤ (h + d) % N + 1 then ((h + d) % N + 1) % N else (h + d) % N + 1)
    = (h + (d + 1)) % N := by
  have hmod : (h + (d + 1)) % N = ((h + d) % N + 1) % N := by
    rw [Nat.mod_add_mod, Nat.add_assoc]
  rw [hmod]
  split_ifs with hle
  · rfl
  · exact (Nat.mod_eq_of_lt (not_le.mp hle)).symm

end LinearProbing
