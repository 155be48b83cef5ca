import Mathlib

/-!
# Merging sorted runs with a heap

A comparison that is a strict weak order says of some pairs that neither comes first.  `WeakOrder` is that notion for
a function to `Bool`, and `lexLess` composes several comparisons.

A merge of several runs keeps the next element of each run in a heap and takes the top again and again.
`heapLoop` is the loop.

* **`weakOrder_lexLess`**: a lexicographic comparison is again a weak order.
* **`heapLoop_perm`**: the loop gives all elements of the runs.
* **`heapLoop_sorted`**: and gives them in order, if each run is in order.
-/

namespace KWayMerge

open List

variable {α : Type*}

/-- `less` is a strict weak order: asymmetric, and "not behind" is transitive. -/
structure WeakOrder (less : α → α → Bool) : Prop where
  asymm : ∀ {a b}, less a b = true → less b a = false
  trans : ∀ {a b c}, less b a = false → less c b = false → less c a = false

/-- A list in order: no element is less than one before it. -/
def Sorted (less : α → α → Bool) (l : List α) : Prop := l.Pairwise fun a b => less b a = false

section
variable {less : α → α → Bool}

lemma WeakOrder.irrefl (h : WeakOrder less) (a : α) : less a a = false := by
  cases hless : less a a with
  | false => rfl
  | true => exact hless.symm.trans (h.asymm hless)

lemma weakOrder_of_key {β : Type*} [LinearOrder β] (key : α → β) : WeakOrder fun a b => decide (key a < key b) := by
  constructor
  · intro a b hlt
    rw [decide_eq_true_eq] at hlt
    exact decide_eq_false hlt.asymm
  · intro a b c hba hcb
    rw [decide_eq_false_iff_not, not_lt] at hba hcb ⊢
    exact hba.trans hcb

lemma WeakOrder.flip (h : WeakOrder less) : WeakOrder fun a b => less b a :=
  ⟨fun hless => h.asymm hless, fun hba hcb => h.trans hcb hba⟩

/-- The first comparison that decides. -/
def lexLess : List (α → α → Bool) → α → α → Bool
  | [], _, _ => false
  | less :: rest, a, b => if less a b then true else if less b a then false else lexLess rest a b

lemma lexLess_cons_eq_false {rest : List (α → α → Bool)} {a b : α} : lexLess (less :: rest) a b = false
    ↔ less a b = false ∧ (less b a = true ∨ lexLess rest a b = false) := by
  rw [lexLess]
  cases less a b <;> cases less b a <;> simp

lemma weakOrder_lexLess : ∀ {orders : List (α → α → Bool)}, (∀ less ∈ orders, WeakOrder less) →
    WeakOrder (lexLess orders) := by
  intro orders
  induction orders with
  | nil =>
    intro _
    constructor
    · intro a b hless
      cases hless
    · exact fun _ _ => rfl
  | cons less rest ih =>
    intro h
    have hfirst := h less mem_cons_self
    have hrest := ih fun less' hmem => h less' (mem_cons_of_mem _ hmem)
    constructor
    · intro a b hless
      rw [lexLess] at hless
      rw [lexLess_cons_eq_false]
      cases hab : less a b with
      | true => exact ⟨hfirst.asymm hab, .inl rfl⟩
      | false =>
        cases hba : less b a with
        | true => simp [hab, hba] at hless
        | false =>
          simp only [hab, hba, Bool.false_eq_true, if_false] at hless
          exact ⟨rfl, .inr (hrest.asymm hless)⟩
    · intro a b c hba hcb
      rw [lexLess_cons_eq_false] at hba hcb ⊢
      refine ⟨hfirst.trans hba.1 hcb.1, ?_⟩
      -- if one of the two steps is strict in the first comparison, so is the whole
      cases hac : less a c with
      | true => exact .inl rfl
      | false =>
        right
        have hbc : less b c = false := hfirst.trans hac hba.1
        have hab : less a b = false := hfirst.trans hcb.1 hac
        rw [hab] at hba
        rw [hbc] at hcb
        exact hrest.trans (hba.2.resolve_left (by simp)) (hcb.2.resolve_left (by simp))

end

/-! ## The heap -/

/-- The top of a heap and the rest of it; `below a b` says that `a` is to come after `b`. -/
def popTop (below : α → α → Bool) : α → List α → α × List α
  | a, [] => (a, [])
  | a, b :: heap =>
    if below a b then ((popTop below b heap).1, a :: (popTop below b heap).2)
    else ((popTop below a heap).1, b :: (popTop below a heap).2)

/-- Take the top until the heap is empty; `next` is the element behind it in its run. -/
def heapLoop (below : α → α → Bool) (next : α → Option α) : ℕ → List α → List α
  | 0, _ => []
  | _ + 1, [] => []
  | fuel + 1, a :: heap =>
    (popTop below a heap).1 ::
      heapLoop below next fuel ((next (popTop below a heap).1).toList ++ (popTop below a heap).2)

lemma popTop_perm (below : α → α → Bool) (heap : List α) : ∀ a,
    ((popTop below a heap).1 :: (popTop below a heap).2).Perm (a :: heap) := by
  induction heap with
  | nil => exact fun a => Perm.refl _
  | cons b heap ih =>
    intro a
    rw [popTop]
    split
    · exact (Perm.swap _ _ _).trans ((ih b).cons a)
    · exact ((Perm.swap _ _ _).trans ((ih a).cons b)).trans (Perm.swap _ _ _)

/-- Nothing in the heap is less than its top. -/
lemma popTop_least {less below : α → α → Bool} (hless : WeakOrder less)
    (htrue : ∀ {a b}, below a b = true → less a b = false)
    (hfalse : ∀ {a b}, below a b = false → less b a = false) (heap : List α) :
    ∀ a, ∀ b ∈ a :: heap, less b (popTop below a heap).1 = false := by
  induction heap with
  | nil =>
    intro a b hmem
    rw [mem_singleton.mp hmem]
    exact hless.irrefl a
  | cons c heap ih =>
    intro a b hmem
    rw [popTop]
    split_ifs with hbelow
    · rcases mem_cons.mp hmem with rfl | hmem
      · exact hless.trans (ih c c mem_cons_self) (htrue hbelow)
      · exact ih c b hmem
    have hac : less c a = false := hfalse (by simpa using hbelow)
    rcases mem_cons.mp hmem with rfl | hmem
    · exact ih b b mem_cons_self
    rcases mem_cons.mp hmem with rfl | hmem
    · exact hless.trans (ih a a mem_cons_self) hac
    · exact ih a b (mem_cons_of_mem _ hmem)

section
variable {below : α → α → Bool} {next : α → Option α} {run : α → List α}
  (hrun : ∀ a, run a = a :: ((next a).toList.flatMap run))
include hrun

lemma flatMap_run_perm (below : α → α → Bool) (a : α) (heap : List α) :
    ((popTop below a heap).1 :: ((next (popTop below a heap).1).toList
      ++ (popTop below a heap).2).flatMap run).Perm ((a :: heap).flatMap run) := by
  have hperm := (popTop_perm below heap a).flatMap_right run
  rw [flatMap_cons, hrun] at hperm
  rw [flatMap_append]
  exact hperm

lemma heapLoop_perm (below : α → α → Bool) (fuel : ℕ) : ∀ heap, (heap.flatMap run).length ≤ fuel →
    (heapLoop below next fuel heap).Perm (heap.flatMap run) := by
  induction fuel with
  | zero =>
    intro heap hlength
    rw [length_eq_zero_iff.mp (Nat.le_zero.mp hlength), heapLoop]
  | succ fuel ih =>
    intro heap hlength
    cases heap with
    | nil => exact Perm.refl _
    | cons a heap =>
      have hperm := flatMap_run_perm hrun below a heap
      have hlength' := hperm.length_eq
      rw [length_cons] at hlength'
      rw [heapLoop]
      exact ((ih _ (by omega)).cons _).trans hperm

lemma heapLoop_sorted {less : α → α → Bool} (hless : WeakOrder less)
    (htrue : ∀ {a b}, below a b = true → less a b = false)
    (hfalse : ∀ {a b}, below a b = false → less b a = false) (fuel : ℕ) :
    ∀ heap, (heap.flatMap run).length ≤ fuel → (∀ a ∈ heap, Sorted less (run a)) →
      Sorted less (heapLoop below next fuel heap) := by
  induction fuel with
  | zero => exact fun _ _ _ => Pairwise.nil
  | succ fuel ih =>
    intro heap hlength hsorted
    cases heap with
    | nil => exact Pairwise.nil
    | cons a heap =>
      have hperm := flatMap_run_perm hrun below a heap
      have hlength' := hperm.length_eq
      have hmem : ∀ b ∈ (popTop below a heap).1 :: (popTop below a heap).2, b ∈ a :: heap :=
        fun b hmem => (popTop_perm below heap a).subset hmem
      have htop := hsorted _ (hmem _ mem_cons_self)
      rw [length_cons] at hlength'
      rw [heapLoop]
      refine Pairwise.cons ?_ (ih _ (by omega) ?_)
      · -- an element that is left is in a run whose first element is not less than the top
        intro b hb
        have hin := hperm.subset (mem_cons_of_mem _ ((heapLoop_perm hrun below fuel _ (by omega)).subset hb))
        obtain ⟨first, hfirst, hbrun⟩ := mem_flatMap.mp hin
        refine hless.trans (popTop_least hless htrue hfalse heap a first hfirst) ?_
        have hrunsorted := hsorted first hfirst
        rw [hrun] at hbrun
        rw [Sorted, hrun, pairwise_cons] at hrunsorted
        rcases mem_cons.mp hbrun with rfl | hbrun
        · exact hless.irrefl _
        · exact hrunsorted.1 b hbrun
      · intro b hb
        rcases mem_append.mp hb with hb | hb
        · rw [Sorted, hrun, pairwise_cons] at htop
          rw [Option.mem_toList] at hb
          have htail := htop.2
          rw [hb, Option.toList_some, flatMap_singleton] at htail
          exact htail
        · exact hsorted b (hmem b (mem_cons_of_mem _ hb))

end

end KWayMerge
