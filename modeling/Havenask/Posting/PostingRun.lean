import Havenask.Lib.Fuel
import Havenask.Posting.PostingSeek

/-!
# Enumerating the documents of a query

The executors of a query, as their constructors leave them, and any sequence of seeks for ids that do
not fall: every seek returns, and answers the first document from its id on, provided that no or
executor has been overtaken on the way (`run_isNext`).

An or executor is overtaken when it is asked for an id past a document that one of its children
already has in the heap.  It asks again only the children that are not past its current document, so
it answers that document, which is before the id (`run_before_id`).
-/

namespace Havenask

open List

namespace PostingExecutor

/-! ## The constructors -/

variable {h : ℕ} {e : Executor} {sortByDF : List Executor → List Executor} {children : List Executor}

lemma Inv.of_le {h h' : ℕ} (hle : h ≤ h') {p : ℤ} (hinv : Inv h e p) : Inv h' e p := by
  induction h generalizing e p h' with
  | zero => exact hinv.elim
  | succ h ih =>
    obtain ⟨n, rfl⟩ : ∃ n, h' = n + 1 := ⟨h' - 1, by omega⟩
    have hle : h ≤ n := by omega
    cases e with
    | leaf docs current => exact hinv
    | and children current =>
      obtain ⟨hloc, hne, hcur, M, hM, hchildren⟩ := hinv
      exact ⟨hloc, hne, hcur, M, hM, fun c hc => ih hle (hchildren c hc)⟩
    | or children entryHeap currentDocId overtaken current =>
      obtain ⟨hloc, hchildren, hheap, htop, hcur⟩ := hinv
      exact ⟨hloc, fun c hc => ih hle (hchildren c hc), hheap, htop, hcur⟩

lemma Tree.matches_leaf_iff {docs : List ℤ} {d : ℤ} : (Tree.leaf docs).Matches d ↔ d ∈ docs := by
  constructor
  · rintro ⟨h⟩
    exact h
  · exact .leaf

lemma Tree.matches_and_iff {children : List Tree} {d : ℤ} :
    (Tree.and children).Matches d ↔ ∀ t ∈ children, t.Matches d := by
  constructor
  · intro h
    cases h with
    | and h => exact h
  · exact .and

lemma Tree.matches_or_iff {children : List Tree} {d : ℤ} :
    (Tree.or children).Matches d ↔ ∃ t ∈ children, t.Matches d := by
  constructor
  · intro h
    cases h with
    | or ht h => exact ⟨_, ht, h⟩
  · rintro ⟨t, ht, h⟩
    exact .or ht h

/-- An executor made for a query. -/
structure Built (h : ℕ) (t : Tree) (e : Executor) : Prop where
  inv : Inv h e 0
  same : ∀ d, e.Matches d ↔ t.Matches d

lemma Built.of_le {h h' : ℕ} (hle : h ≤ h') {t : Tree} (hb : Built h t e) : Built h' t e :=
  ⟨hb.inv.of_le hle, hb.same⟩

lemma exists_height {children : List Tree}
    (hchildren : ∀ t ∈ children, ∃ h e, Fuel.Returns (build sortByDF · t) e ∧ Built h t e) :
    ∃ h, ∀ t ∈ children, ∃ e, Fuel.Returns (build sortByDF · t) e ∧ Built h t e := by
  induction children with
  | nil => exact ⟨0, by simp⟩
  | cons t children ih =>
    rw [forall_mem_cons] at hchildren
    obtain ⟨h₁, e, hreturns, hbuilt⟩ := hchildren.1
    obtain ⟨h₂, hall⟩ := ih hchildren.2
    refine ⟨max h₁ h₂, forall_mem_cons.mpr ⟨⟨e, hreturns, hbuilt.of_le (le_max_left _ _)⟩, ?_⟩⟩
    intro t ht
    obtain ⟨e, hreturns, hbuilt⟩ := hall t ht
    exact ⟨e, hreturns, hbuilt.of_le (le_max_right _ _)⟩

lemma mapM_built {children : List Tree}
    (hchildren : ∀ t ∈ children, ∃ h e, Fuel.Returns (build sortByDF · t) e ∧ Built h t e) :
    ∃ h es N, (∀ fuel ≥ N, children.mapM (build sortByDF fuel) = some es)
    ∧ Forall₂ (Built h) children es := by
  obtain ⟨h, hall⟩ := exists_height hchildren
  obtain ⟨es, ⟨N, hN⟩, hes⟩ := Fuel.exists_returns_mapM hall
  exact ⟨h, es, N, hN, hes.imp fun _ _ hb => hb.2⟩

/-- The heap after the constructor: the answers of the children, in their order. -/
def heapFrom : ℕ → List Executor → List Entry
  | _, [] => []
  | i, c :: children => ⟨c.current, i⟩ :: heapFrom (i + 1) children

lemma mem_heapFrom_iff {i : ℕ} {e : Entry} :
    e ∈ heapFrom i children ↔ ∃ j c, children[j]? = some c ∧ e = ⟨c.current, i + j⟩ := by
  induction children generalizing i with
  | nil => simp [heapFrom]
  | cons x children ih =>
    rw [heapFrom, mem_cons, ih]
    constructor
    · rintro (rfl | ⟨j, c, hc, rfl⟩)
      · exact ⟨0, x, rfl, rfl⟩
      · exact ⟨j + 1, c, by simpa using hc, by rw [Nat.add_right_comm, Nat.add_assoc]⟩
    · rintro ⟨j, c, hc, rfl⟩
      cases j with
      | zero =>
        obtain rfl : x = c := by simpa using hc
        exact Or.inl rfl
      | succ j => exact Or.inr ⟨j, c, by simpa using hc, by rw [Nat.add_right_comm, Nat.add_assoc]⟩

lemma map_entryId_heapFrom (children : List Executor) (i : ℕ) :
    (heapFrom i children).map Entry.entryId = range' i children.length := by
  induction children generalizing i with
  | nil => rfl
  | cons c children ih => rw [heapFrom, map_cons, ih, length_cons, range'_succ]

lemma heapOk_heapFrom (hnonneg : ∀ c ∈ children, 0 ≤ c.current) : HeapOk children (heapFrom 0 children) := by
  refine ⟨?_, ?_, ?_⟩
  · intro e he
    obtain ⟨j, c, hc, rfl⟩ := mem_heapFrom_iff.mp he
    exact ⟨hnonneg c (mem_of_getElem? hc), c, by simpa using hc, rfl⟩
  · intro i hi
    exact ⟨_, mem_heapFrom_iff.mpr ⟨i, _, getElem?_eq_getElem hi, rfl⟩, by simp⟩
  · rw [map_entryId_heapFrom]
    exact nodup_range'

/-- `_currentDocId` after the constructor. -/
def leastCurrent (children : List Executor) : ℤ := children.foldr (fun c least => min c.current least) endDocId

lemma leastCurrent_spec (hend : ∀ c ∈ children, c.current ≤ endDocId) :
    (children = [] ∧ leastCurrent children = endDocId)
    ∨ ((∃ c ∈ children, c.current = leastCurrent children)
      ∧ ∀ c ∈ children, leastCurrent children ≤ c.current) := by
  induction children with
  | nil => exact Or.inl ⟨rfl, rfl⟩
  | cons x children ih =>
    right
    have hleast : leastCurrent (x :: children) = min x.current (leastCurrent children) := rfl
    rw [forall_mem_cons] at hend
    rw [hleast]
    rcases ih hend.2 with ⟨rfl, hnil⟩ | ⟨⟨c, hc, hcur⟩, hle⟩
    · rw [hnil, min_eq_left hend.1]
      simp
    refine ⟨?_, forall_mem_cons.mpr ⟨min_le_left _ _, fun y hy =>
      (min_le_right _ _).trans (hle y hy)⟩⟩
    rcases min_choice x.current (leastCurrent children) with hmin | hmin
    · exact ⟨x, by simp, hmin.symm⟩
    · exact ⟨c, by simp [hc], hcur.trans hmin.symm⟩

lemma isTop_heapFrom (hend : ∀ c ∈ children, c.current ≤ endDocId) :
    IsTop (heapFrom 0 children) (leastCurrent children) := by
  rcases leastCurrent_spec hend with ⟨rfl, hnil⟩ | ⟨⟨c, hc, hcur⟩, hle⟩
  · exact Or.inl ⟨rfl, hnil⟩
  right
  constructor
  · obtain ⟨j, hj⟩ := mem_iff_getElem?.mp hc
    exact ⟨_, mem_heapFrom_iff.mpr ⟨j, c, hj, rfl⟩, hcur⟩
  · intro e he
    obtain ⟨j, c, hc, rfl⟩ := mem_heapFrom_iff.mp he
    exact hle c (mem_of_getElem? hc)

/-- A child after the `Seek(0)` of the constructor. -/
structure Opened (h : ℕ) (e e' : Executor) : Prop where
  inv : Inv h e' 0
  nonneg : 0 ≤ e'.current
  same : ∀ d, e'.Matches d ↔ e.Matches d

lemma Moved.opened {e e' : Executor} {r : ℤ} (hm : Moved h e 0 0 e' r) : Opened h e e' := by
  have hinv : Inv h e' 0 := hm.inv
  refine ⟨hinv, ?_, hm.same⟩
  rw [hm.current]
  rcases hm.answered with hr | hr
  · exact (hinv.located.bounds r hr).1
  · rw [hr]
    decide

lemma openChildren_opened {es : List Executor} (hes : ∀ e ∈ es, Inv h e 0) (i : ℕ) :
    ∃ es' N, (∀ fuel ≥ N, openChildren fuel i es = some (es', heapFrom i es', leastCurrent es'))
    ∧ Forall₂ (Opened h) es es' := by
  induction es generalizing i with
  | nil => exact ⟨[], 0, fun fuel _ => rfl, .nil⟩
  | cons e es ih =>
    rw [forall_mem_cons] at hes
    obtain ⟨e', r, ⟨N₁, hN₁⟩, hmoved⟩ := seek_moved h e 0 0 hes.1 le_rfl (by decide)
    obtain ⟨es', N₂, hN₂, hall⟩ := ih hes.2 (i + 1)
    refine ⟨e' :: es', max N₁ N₂, ?_, .cons hmoved.opened hall⟩
    intro fuel hfuel
    rw [openChildren, hN₁ fuel (by omega), hN₂ fuel (by omega), ← hmoved.current]
    rfl

/-- **The constructors establish the invariant.** -/
theorem build_built (hsort : ∀ children, (sortByDF children).Perm children) {t : Tree} (ht : t.WellFormed) :
    ∃ h e, Fuel.Returns (build sortByDF · t) e ∧ Built h t e := by
  induction ht with
  | @leaf docs hdocs =>
    refine ⟨1, .leaf docs invalidDocId, ⟨1, ?_⟩, ⟨fun d hd => hdocs d (matches_leaf_iff.mp hd),
      Or.inl rfl, fun d hd hle => ?_⟩, fun d => matches_leaf_iff.trans Tree.matches_leaf_iff.symm⟩
    · intro fuel hfuel
      obtain ⟨n, rfl⟩ : ∃ n, fuel = n + 1 := ⟨fuel - 1, by omega⟩
      rfl
    · exact le_trans (by decide) hle
  | @and children hne _ ih =>
    obtain ⟨h, es, N, hN, hall⟩ := mapM_built ih
    have hperm := hsort es
    have hinv : ∀ e ∈ sortByDF es, Inv h e 0 := fun e he =>
      Fuel.forall_mem_right_of_forall₂ hall (fun t e hb => hb.inv) e (hperm.mem_iff.mp he)
    have hnonempty : sortByDF es ≠ [] := by
      rw [← length_pos_iff, hperm.length_eq, ← hall.length_eq, length_pos_iff]
      exact hne
    have hsame : ∀ d, (Executor.and (sortByDF es) invalidDocId).Matches d
        ↔ (Tree.and children).Matches d := by
      intro d
      rw [matches_and_iff, Tree.matches_and_iff, Fuel.forall_mem_iff_of_forall₂ hall fun t e hb => (hb.same d).symm]
      exact forall_congr' fun e => by rw [hperm.mem_iff]
    refine ⟨h + 1, .and (sortByDF es) invalidDocId, ⟨N + 1, ?_⟩, ⟨⟨?_, Or.inl rfl, ?_⟩, hnonempty,
      Or.inr ?_, 0, fun d _ hd => hd, hinv⟩, hsame⟩
    · intro fuel hfuel
      obtain ⟨n, rfl⟩ : ∃ n, fuel = n + 1 := ⟨fuel - 1, by omega⟩
      show build sortByDF (n + 1) (.and children) = _
      rw [build, hN n (by omega)]
      rfl
    · intro d hd
      obtain ⟨c, hc⟩ := exists_mem_of_ne_nil _ hnonempty
      exact (hinv c hc).located.bounds d (matches_and_iff.mp hd c hc)
    · exact fun d _ hle => le_trans (by decide) hle
    · exact fun c hc => (hinv c hc).located.current_bounds.1
  | @or children _ ih =>
    obtain ⟨h, es, N₁, hN₁, hall⟩ := mapM_built ih
    obtain ⟨es', N₂, hN₂, hopened⟩ := openChildren_opened (h := h)
      (Fuel.forall_mem_right_of_forall₂ hall fun t e hb => hb.inv) 0
    have hinv : ∀ e ∈ es', Inv h e 0 := Fuel.forall_mem_right_of_forall₂ hopened fun _ _ ho => ho.inv
    have hsame : ∀ d, (Executor.or es' (heapFrom 0 es') (leastCurrent es') false
          invalidDocId).Matches d ↔ (Tree.or children).Matches d := by
      intro d
      rw [matches_or_iff, Tree.matches_or_iff,
        ← Fuel.exists_mem_iff_of_forall₂ hopened fun e e' ho => (ho.same d).symm,
        Fuel.exists_mem_iff_of_forall₂ hall fun t e hb => (hb.same d).symm]
    refine ⟨h + 1, .or es' (heapFrom 0 es') (leastCurrent es') false invalidDocId, ⟨N₁ + N₂ + 1, ?_⟩,
      ⟨⟨?_, Or.inl rfl, ?_⟩, hinv, heapOk_heapFrom ?_, isTop_heapFrom ?_, Or.inl rfl⟩, hsame⟩
    · intro fuel hfuel
      obtain ⟨n, rfl⟩ : ∃ n, fuel = n + 1 := ⟨fuel - 1, by omega⟩
      show build sortByDF (n + 1) (.or children) = _
      rw [build, hN₁ n (by omega)]
      show (openChildren n 0 es).bind _ = _
      rw [hN₂ n (by omega)]
      rfl
    · intro d hd
      obtain ⟨c, hc, hd⟩ := matches_or_iff.mp hd
      exact (hinv c hc).located.bounds d hd
    · exact fun d _ hle => le_trans (by decide) hle
    · exact Fuel.forall_mem_right_of_forall₂ hopened fun _ _ ho => ho.nonneg
    · exact fun c hc => (hinv c hc).located.current_bounds.2

/-! ## Runs -/

/-- One seek, for an id not before the earlier ones. -/
lemma Moved.isNext {e e' : Executor} {p id r : ℤ} (hm : Moved h e p id e' r) (hp : p ≤ id)
    (hclear : ¬ Overtaken e') : IsNext e.Matches id r := by
  have hinv := hm.inv
  rw [max_eq_right hp] at hinv
  have hleast : ∀ d, e.Matches d → id ≤ d → r ≤ d := fun d hd hle => by
    rw [← hm.current]
    exact hinv.located.least d ((hm.same d).mpr hd) hle
  rcases hm.answered with hr | hr
  · exact Or.inl ⟨(hm.same r).mp hr, (hm.clear hclear).2, hleast⟩
  refine Or.inr ⟨hr, fun d hd => ?_⟩
  by_contra hle
  have hbound := (hinv.located.bounds d ((hm.same d).mpr hd)).2
  have := hleast d hd (not_lt.mp hle)
  omega

lemma run_moved {ids : List ℤ} {p : ℤ} (hinv : Inv h e p)
    (hids : ∀ id ∈ ids, 0 ≤ id ∧ id ≤ endDocId) (hsorted : (p :: ids).Pairwise (· ≤ ·)) :
    ∃ docIds e' N, (∀ fuel ≥ N, run fuel e ids = some (docIds, e'))
    ∧ (¬ Overtaken e' → ¬ Overtaken e ∧ Forall₂ (IsNext e.Matches) ids docIds) := by
  induction ids generalizing e p with
  | nil => exact ⟨[], e, 0, fun fuel _ => rfl, fun h => ⟨h, .nil⟩⟩
  | cons id ids ih =>
    rw [forall_mem_cons] at hids
    obtain ⟨hp, hrest⟩ := pairwise_cons.mp hsorted
    have hpid : p ≤ id := hp id (by simp)
    obtain ⟨e₁, r, ⟨N₁, hN₁⟩, hmoved⟩ := seek_moved h e p id hinv hids.1.1 hids.1.2
    have hinv₁ := hmoved.inv
    rw [max_eq_right hpid] at hinv₁
    obtain ⟨docIds, e', N₂, hN₂, hclear⟩ := ih hinv₁ hids.2 hrest
    refine ⟨r :: docIds, e', max N₁ N₂, ?_, fun hover => ?_⟩
    · intro fuel hfuel
      rw [run, hN₁ fuel (by omega)]
      show (run fuel e₁ ids).bind _ = _
      rw [hN₂ fuel (by omega)]
      rfl
    · obtain ⟨hover₁, hall⟩ := hclear hover
      have hsame : e₁.Matches = e.Matches := funext fun d => propext (hmoved.same d)
      rw [hsame] at hall
      exact ⟨(hmoved.clear hover₁).1, .cons (hmoved.isNext hpid hover₁) hall⟩

/-- With enough fuel the executors of the query answer `docIds`, and are `executor` in the end. -/
def Answers (sortByDF : List Executor → List Executor) (t : Tree) (ids docIds : List ℤ)
    (executor : Executor) : Prop :=
  Fuel.Returns (fun fuel => do run fuel (← build sortByDF fuel t) ids) (docIds, executor)

/-- **Posting executors enumerate the documents of a query**, in every run that overtakes no or
executor: each seek answers the first document from its id on. -/
theorem run_isNext (sortByDF : List Executor → List Executor)
    (hsort : ∀ children, (sortByDF children).Perm children) (t : Tree) (ht : t.WellFormed)
    (ids : List ℤ) (hids : ∀ id ∈ ids, 0 ≤ id ∧ id ≤ endDocId) (hsorted : ids.Pairwise (· ≤ ·)) :
    ∃ docIds executor, Answers sortByDF t ids docIds executor
      ∧ (¬ Overtaken executor → List.Forall₂ (IsNext t.Matches) ids docIds) := by
  obtain ⟨h, e, ⟨N₁, hN₁⟩, hbuilt⟩ := build_built hsort ht
  obtain ⟨docIds, e', N₂, hN₂, hclear⟩ := run_moved hbuilt.inv hids
    (pairwise_cons.mpr ⟨fun id hid => (hids id hid).1, hsorted⟩)
  refine ⟨docIds, e', ⟨max N₁ N₂, fun fuel hfuel => ?_⟩, fun hover => ?_⟩
  · have hbuild : build sortByDF fuel t = some e := hN₁ fuel (by omega)
    show (do run fuel (← build sortByDF fuel t) ids) = _
    rw [hbuild]
    exact hN₂ fuel (by omega)
  · have hsame : e.Matches = t.Matches := funext fun d => propext (hbuilt.same d)
    rw [← hsame]
    exact (hclear hover).2

lemma Tree.wellFormed_or_leaves {docs docs' : List ℤ} (h : ∀ d ∈ docs, 0 ≤ d ∧ d < endDocId)
    (h' : ∀ d ∈ docs', 0 ≤ d ∧ d < endDocId) : (Tree.or [.leaf docs, .leaf docs']).WellFormed := by
  refine .or fun t ht => ?_
  rcases mem_pair.mp ht with rfl | rfl
  · exact .leaf h
  · exact .leaf h'

/-- Two leaves under an or, asked for every id up to the last document. -/
def everyId : Tree := .or [.leaf [0, 2], .leaf [1]]

lemma answers_everyId : Answers id everyId [0, 1, 2] [0, 1, 2]
    (.or [.leaf [0, 2] 2, .leaf [1] endDocId] [⟨endDocId, 1⟩, ⟨2, 0⟩] 2 false 2) := by
  refine ⟨8, fun fuel hfuel => ?_⟩
  obtain ⟨n, rfl⟩ : ∃ n, fuel = n + 8 := ⟨fuel - 8, by omega⟩
  rfl

/-- Each answer is the next match, and nothing is overtaken on the way. -/
theorem run_isNext_everyId : ∃ docIds executor, Answers id everyId [0, 1, 2] docIds executor ∧ ¬ Overtaken executor
      ∧ List.Forall₂ (IsNext everyId.Matches) [0, 1, 2] docIds := by
  obtain ⟨docIds, executor, hanswers, hnext⟩ := run_isNext id (fun _ => .refl _) everyId
    (Tree.wellFormed_or_leaves (by decide) (by decide)) [0, 1, 2] (by decide) (by decide)
  have hclear : ¬ Overtaken executor := by
    obtain ⟨-, rfl⟩ := Prod.mk.inj (Fuel.Returns.unique hanswers answers_everyId)
    rw [not_overtaken_or_iff]
    refine ⟨rfl, fun c hc hover => ?_⟩
    rcases mem_pair.mp hc with rfl | rfl <;> cases hover
  exact ⟨docIds, executor, hanswers, hclear, hnext hclear⟩

/-- With the documents 0 and 20 in one leaf and 5 in another, `Seek(10)` after `Seek(0)` answers 5:
the heap has 5 for the second leaf, which is past the current document 0. -/
theorem run_before_id : ∃ executor, (Tree.or [.leaf [0, 20], .leaf [5]]).WellFormed
      ∧ Answers id (.or [.leaf [0, 20], .leaf [5]]) [0, 10, 20] [0, 5, 20] executor
      ∧ ¬ IsNext (Tree.or [.leaf [0, 20], .leaf [5]]).Matches 10 5 := by
  refine ⟨.or [.leaf [0, 20] 20, .leaf [5] endDocId] [⟨endDocId, 1⟩, ⟨20, 0⟩] 20 true 20,
    Tree.wellFormed_or_leaves (by decide) (by decide), ⟨8, fun fuel hfuel => ?_⟩, ?_⟩
  · obtain ⟨n, rfl⟩ : ∃ n, fuel = n + 8 := ⟨fuel - 8, by omega⟩
    rfl
  rintro (⟨-, hle, -⟩ | ⟨hend, -⟩)
  · exact absurd hle (by decide)
  · exact absurd hend (by decide)

end PostingExecutor

end Havenask
