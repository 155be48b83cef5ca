import Havenask.Lib.Fuel
import Mathlib.Tactic.Linarith

/-!
# Iterators that seek

An iterator over a set of entries, ordered by an integer, answers a seek by the first entry from a
bound on (`IsFirst`).  It need only do so for bounds above what it has answered (`Enumerates`).

A component that is built from such iterators, and stands at some *position*, is asked for one bound
after the other: it must answer the first element from the bound on that it has not passed.  If each
call does so and moves behind its answer, then a whole run answers as the caller expects, who sees only
the bounds and the answers (`returns_run`).
-/

namespace SeekIterator

open Fuel List

variable {σ α : Type*}

variable (key : α → ℤ)

/-- The first entry from a bound on, if any. -/
def IsFirst (entries : Set α) (bound : ℤ) : Option α → Prop
  | none => ∀ e ∈ entries, key e < bound
  | some e => e ∈ entries ∧ bound ≤ key e ∧ ∀ e' ∈ entries, bound ≤ key e' → key e ≤ key e'

/-- An iterator that answers every seek above its last answer by the first entry from there on. `At s c`
says that it answered an entry with key `c` last. -/
structure Enumerates (seek : σ → ℤ → σ × Option α) (key : α → ℤ) (entries : Set α) (At : σ → ℤ → Prop) : Prop where
  isFirst : ∀ {s c bound}, At s c → c < bound → IsFirst key entries bound (seek s bound).2
  moves : ∀ {s c bound e}, At s c → c < bound → (seek s bound).2 = some e → At (seek s bound).1 (key e)

/-! ## A list as an iterator -/

/-- A list as an iterator: it looks for the first entry that is not below the bound. -/
def seekList (entries : List α) (bound : ℤ) : List α × Option α :=
  (entries, entries.find? fun e => decide (bound ≤ key e))

/-- A list with increasing keys stays where it is, and answers every seek. -/
lemma enumerates_seekList {entries : List α} (hsorted : (entries.map key).Pairwise (· < ·)) :
    Enumerates (seekList key) key {e | e ∈ entries} fun s _ => s = entries := by
  constructor
  · rintro s c bound rfl -
    rw [seekList]
    cases heq : s.find? fun e => decide (bound ≤ key e) with
    | none =>
      intro e hmem
      simpa using find?_eq_none.mp heq e hmem
    | some e =>
      obtain ⟨hbound, front, back, rfl, hfront⟩ := find?_eq_some_iff_append.mp heq
      refine ⟨by simp, by simpa using hbound, fun e' hmem hle => ?_⟩
      rcases mem_append.mp hmem with hmem | hmem
      · exact absurd hle (by simpa using hfront e' hmem)
      rcases mem_cons.mp hmem with rfl | hmem
      · exact le_rfl
      rw [map_append, map_cons] at hsorted
      exact (rel_of_pairwise_cons (pairwise_append.mp hsorted).2.1 (mem_map_of_mem hmem)).le
  · rintro s c bound e rfl - -
    rfl

/-! ## Runs of seeks -/

/-- What answers a seek after others: the least element that is not below any of the bounds and above
all answers, or the value for none. -/
def IsAnswer (live : Set ℤ) (invalid : ℤ) (asked answered : List ℤ) (result : ℤ) : Prop :=
  (result = invalid ∧ ∀ x ∈ live, ¬ ((∀ q ∈ asked, q ≤ x) ∧ ∀ r ∈ answered, r < x)) ∨
    (result ∈ live ∧ (∀ q ∈ asked, q ≤ result) ∧ (∀ r ∈ answered, r < result) ∧
      ∀ x ∈ live, (∀ q ∈ asked, q ≤ x) → (∀ r ∈ answered, r < x) → result ≤ x)

/-- The results answer the bounds, one after the other. -/
def Answers (live : Set ℤ) (invalid : ℤ) (asked answered : List ℤ) : List ℤ → List ℤ → Prop
  | [], [] => True
  | q :: qs, r :: rs =>
    IsAnswer live invalid (q :: asked) answered r ∧ Answers live invalid (q :: asked) (r :: answered) qs rs
  | _, _ => False

/-- A run of calls, with fuel for each of them. -/
def run (seek : ℕ → σ → ℤ → Option (σ × ℤ)) (fuel : ℕ) : σ → List ℤ → Option (List ℤ)
  | _, [] => some []
  | s, q :: qs =>
    match seek fuel s q with
    | none => none
    | some (s', r) => (run seek fuel s' qs).map (r :: ·)

/-- What one call does at a position: it answers the first element from the bound and the position on,
and moves behind it, or there is none. -/
def Serves (live : Set ℤ) (invalid : ℤ) (Position : σ → ℤ → Prop) (bound : ℤ) (answer : σ × ℤ) : Prop :=
  (answer.2 = invalid ∧ (∀ x ∈ live, x < bound) ∧ ∃ p, bound ≤ p ∧ Position answer.1 p) ∨
    (answer.2 ∈ live ∧ bound ≤ answer.2 ∧ (∀ x ∈ live, bound ≤ x → answer.2 ≤ x) ∧ Position answer.1 (answer.2 + 1))

/-- The position says what has been asked and answered, as far as the elements go. -/
def Passed (live : Set ℤ) (p : ℤ) (asked answered : List ℤ) : Prop :=
  ∀ x ∈ live, p ≤ x ↔ (∀ q ∈ asked, q ≤ x) ∧ ∀ r ∈ answered, r < x

variable {live : Set ℤ} {invalid : ℤ} {Position : σ → ℤ → Prop} {p q : ℤ} {asked answered : List ℤ}

/-- Passing elements that are not there loses no answer. -/
lemma Serves.of_later {bound bound' : ℤ} {answer : σ × ℤ}
    (h : Serves live invalid Position bound' answer) (hle : bound ≤ bound')
    (hnone : ∀ x ∈ live, bound ≤ x → bound' ≤ x) : Serves live invalid Position bound answer := by
  rcases h with ⟨hinvalid, hall, p, hp, hposition⟩ | ⟨hlive, hbound, hleast, hposition⟩
  · refine Or.inl ⟨hinvalid, fun x hx => ?_, p, hle.trans hp, hposition⟩
    by_contra hx'
    exact absurd (hall x hx) (not_lt.mpr (hnone x hx (not_lt.mp hx')))
  · exact Or.inr ⟨hlive, hle.trans hbound, fun x hx hx' => hleast x hx (hnone x hx hx'), hposition⟩

lemma isAnswer_of_serves {answer : σ × ℤ} (hpassed : Passed live p asked answered)
    (h : Serves live invalid Position (max p q) answer) : IsAnswer live invalid (q :: asked) answered answer.2 ∧
      ∃ p', Position answer.1 p' ∧ Passed live p' (q :: asked) (answer.2 :: answered) := by
  have hiff : ∀ x ∈ live, max p q ≤ x ↔ (∀ q' ∈ q :: asked, q' ≤ x) ∧ ∀ r ∈ answered, r < x := by
    intro x hx
    rw [max_le_iff, hpassed x hx, forall_mem_cons]
    tauto
  rcases h with ⟨hinvalid, hnone, p', hle, hposition⟩ | ⟨hlive, hle, hleast, hposition⟩
  · refine ⟨Or.inl ⟨hinvalid, fun x hx h => ?_⟩, p', hposition, fun x hx => ?_⟩
    · exact absurd ((hiff x hx).mpr h) (not_le.mpr (hnone x hx))
    · have hlt := hnone x hx
      refine iff_of_false (by omega) fun h => ?_
      exact absurd ((hiff x hx).mpr ⟨h.1, fun r hr => h.2 r (mem_cons_of_mem _ hr)⟩) (not_le.mpr hlt)
  refine ⟨Or.inr ⟨hlive, ((hiff _ hlive).mp hle).1, ((hiff _ hlive).mp hle).2, fun x hx hq hr =>
    hleast x hx ((hiff x hx).mpr ⟨hq, hr⟩)⟩, _, hposition, fun x hx => ?_⟩
  constructor
  · intro hlt
    have hbound := (hiff x hx).mp (by omega)
    refine ⟨hbound.1, forall_mem_cons.mpr ⟨by omega, hbound.2⟩⟩
  · rintro ⟨-, hr⟩
    have hlt := (forall_mem_cons.mp hr).1
    omega

/-- **A run of seeks**: if every call serves its bound from every position, the run returns, and its
results answer the bounds. -/
theorem returns_run {seek : ℕ → σ → ℤ → Option (σ × ℤ)} (Position : σ → ℤ → Prop) (Bound : ℤ → Prop)
    (hserves : ∀ s p q, Position s p → Bound q →
      ∃ answer, Returns (fun fuel => seek fuel s q) answer ∧ Serves live invalid Position (max p q) answer)
    {s : σ} (hposition : Position s p) (hpassed : Passed live p asked answered) (qs : List ℤ)
    (hqs : ∀ q ∈ qs, Bound q) :
    ∃ results, Returns (fun fuel => run seek fuel s qs) results ∧ Answers live invalid asked answered qs results := by
  induction qs generalizing s p asked answered with
  | nil => exact ⟨[], ⟨0, fun _ _ => rfl⟩, trivial⟩
  | cons q qs ih =>
    obtain ⟨⟨s', r⟩, ⟨N, hN⟩, hserve⟩ := hserves s p q hposition (hqs q mem_cons_self)
    obtain ⟨hanswer, p', hposition', hpassed'⟩ := isAnswer_of_serves hpassed hserve
    obtain ⟨results, ⟨N', hN'⟩, hanswers⟩ := ih hposition' hpassed' fun q hq =>
      hqs q (mem_cons_of_mem _ hq)
    refine ⟨r :: results, ⟨max N N', fun fuel hfuel => ?_⟩, hanswer, hanswers⟩
    have hcall : seek fuel s q = some (s', r) := hN fuel (le_of_max_le_left hfuel)
    have hrest : run seek fuel s' qs = some results := hN' fuel (le_of_max_le_right hfuel)
    simp only [run, hcall, hrest, Option.map_some]

end SeekIterator
