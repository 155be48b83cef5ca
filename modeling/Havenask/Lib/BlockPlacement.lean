import Mathlib

/-!
# Placement in blocks with several hash functions

Slots come in blocks of four that start at the multiples of four.  The hash function `j` gives the
key `k` the block that starts at `first k j`.  A reader looks through the blocks of its key in turn
and gives up at the first slot that is not taken.  What makes that right is `Arranged`:

* the taken slots of a block come first in it;
* a key sits in a block that some hash function gives it, and the blocks that earlier hash functions
  give it are full (`Legal`).

`hole` is the slot whose entry has been taken out for the moment, or none.  It counts as taken, so
an entry that moves from slot to slot along a chain leaves the set of taken slots as it is: `take`
takes the first free slot of a block, `move` brings an entry into the hole and leaves another, and
`fill` closes it.
-/

namespace BlockPlacement

variable {K : Type*} (first : K → ℕ → ℕ)

/-- All slots of the block are taken. -/
def Full (taken : Set ℕ) (b : ℕ) : Prop := ∀ c < 4, b + c ∈ taken

/-- The slot `s` is one where a reader of `k` gets to. -/
def Legal (nu : ℕ) (taken : Set ℕ) (k : K) (s : ℕ) : Prop :=
  ∃ j < nu, first k j ≤ s ∧ s < first k j + 4 ∧ ∀ j' < j, Full taken (first k j')

/-- Blocks fill from the front, and every key outside the hole is where a reader gets to. -/
structure Arranged (nu : ℕ) (keyAt : ℕ → K) (taken hole : Set ℕ) : Prop where
  initial : ∀ b c, 4 ∣ b → c < 3 → b + (c + 1) ∈ taken → b + c ∈ taken
  legal : ∀ s ∈ taken, s ∉ hole → Legal first nu taken (keyAt s) s

variable {first} {nu nu' : ℕ} {keyAt keyAt' : ℕ → K} {taken taken' hole : Set ℕ} {k : K}
  {b c e e' s : ℕ}

lemma Full.mono (h : Full taken b) (hsub : taken ⊆ taken') : Full taken' b :=
  fun c hc => hsub (h c hc)

lemma Legal.mono (h : Legal first nu taken k s) (hnu : nu ≤ nu') (hsub : taken ⊆ taken') :
    Legal first nu' taken' k s := by
  obtain ⟨j, hj, hle, hlt, hfull⟩ := h
  exact ⟨j, by omega, hle, hlt, fun j' hj' => (hfull j' hj').mono hsub⟩

/-- The first slot of a block that is not taken. -/
structure FirstFree (taken : Set ℕ) (b e : ℕ) : Prop where
  le : b ≤ e
  lt : e < b + 4
  notMem : e ∉ taken
  before : ∀ s, b ≤ s → s < e → s ∈ taken

namespace Arranged

lemma mono (h : Arranged first nu keyAt taken hole) (hnu : nu ≤ nu') : Arranged first nu' keyAt taken hole :=
  ⟨h.initial, fun s hs hhole => (h.legal s hs hhole).mono hnu subset_rfl⟩

lemma empty : Arranged first nu keyAt ∅ ∅ := ⟨fun _ _ _ _ h => h, fun _ h => absurd h (Set.notMem_empty _)⟩

/-- In a block, what comes before a taken slot is taken. -/
lemma mem_of_le (h : Arranged first nu keyAt taken hole) (hb : 4 ∣ b) (hc : c < 4)
    (hmem : b + c ∈ taken) : ∀ c' ≤ c, b + c' ∈ taken := by
  induction c with
  | zero =>
    intro c' hc'
    rwa [Nat.le_zero.mp hc']
  | succ c ih =>
    intro c' hc'
    rcases Nat.le_succ_iff.mp hc' with hle | rfl
    · exact ih (by omega) (h.initial b c hb (by omega) hmem) c' hle
    · exact hmem

section
variable (h : Arranged first nu keyAt taken ∅)
include h

lemma take (hb : 4 ∣ b) (he : FirstFree taken b e) :
    Arranged first nu keyAt (insert e taken) {e} := by
  refine ⟨fun b' c hb' hc hmem => ?_, fun s hs hhole => ?_⟩
  · rcases Set.mem_insert_iff.mp hmem with heq | hmem
    · have hbb : b' = b := by
        have := he.le
        have := he.lt
        omega
      subst hbb
      exact Set.mem_insert_of_mem e (he.before _ (by omega) (by omega))
    · exact Set.mem_insert_of_mem e (h.initial b' c hb' hc hmem)
  · have hmem := Set.mem_of_mem_insert_of_ne hs hhole
    exact (h.legal s hmem (Set.notMem_empty s)).mono le_rfl (Set.subset_insert e taken)

omit h in
/-- Bring the entry of `e'` into the hole, and leave a hole there. -/
lemma move (h : Arranged first nu keyAt taken {e}) (hlegal : Legal first nu taken (keyAt' e) e)
    (hrest : ∀ s ∈ taken, s ≠ e → s ≠ e' → keyAt' s = keyAt s) : Arranged first nu keyAt' taken {e'} := by
  refine ⟨h.initial, fun s hs hhole => ?_⟩
  by_cases hse : s = e
  · rw [hse]
    exact hlegal
  · rw [hrest s hs hse hhole]
    exact h.legal s hs hse

omit h in
lemma fill (h : Arranged first nu keyAt taken {e}) (hlegal : Legal first nu taken (keyAt' e) e)
    (hrest : ∀ s ∈ taken, s ≠ e → keyAt' s = keyAt s) : Arranged first nu keyAt' taken ∅ := by
  refine ⟨h.initial, fun s hs _ => ?_⟩
  by_cases hse : s = e
  · rw [hse]
    exact hlegal
  · rw [hrest s hs hse]
    exact h.legal s hs hse

/-- **The reader may give up.**  A free slot in a block of the key, with the earlier blocks and the
earlier slots searched in vain: the key is nowhere. -/
lemma not_mem_of_free (hfirst : ∀ j, 4 ∣ first k j) {j : ℕ}
    (hc : c < 4) (hfree : first k j + c ∉ taken) (hblocks : ∀ j' < j, ∀ c' < 4, keyAt (first k j' + c') ≠ k)
    (hslots : ∀ c' < c, keyAt (first k j + c') ≠ k) : ∀ s ∈ taken, keyAt s ≠ k := by
  intro s hs hk
  obtain ⟨i, -, hle, hlt, hfull⟩ := h.legal s hs (Set.notMem_empty s)
  rw [hk] at hle hlt hfull
  obtain ⟨d, rfl⟩ := Nat.exists_eq_add_of_le hle
  have hd : d < 4 := by omega
  rcases lt_trichotomy i j with hij | rfl | hij
  · exact hblocks i hij d hd hk
  · rcases lt_or_ge d c with hdc | hcd
    · exact hslots d hdc hk
    · exact hfree (h.mem_of_le (hfirst i) hd hs c hcd)
  · exact hfree (hfull j hij c hc)

lemma not_mem_of_all
    (hblocks : ∀ j < nu, ∀ c < 4, keyAt (first k j + c) ≠ k) : ∀ s ∈ taken, keyAt s ≠ k := by
  intro s hs hk
  obtain ⟨i, hi, hle, hlt, -⟩ := h.legal s hs (Set.notMem_empty s)
  rw [hk] at hle hlt
  obtain ⟨d, rfl⟩ := Nat.exists_eq_add_of_le hle
  exact hblocks i hi d (by omega) hk

end

end Arranged

end BlockPlacement
