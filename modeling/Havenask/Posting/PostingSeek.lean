import Mathlib.Algebra.BigOperators.Group.List.Basic
import Mathlib.Data.List.Induction
import Mathlib.Data.Prod.Lex
import Havenask.Posting.PostingExecutor

/-!
# What a seek does

Every executor keeps an invariant (`Inv`): its last answer is one of its documents or `END_DOCID`, and
from some id `p` on, which only grows, there is no document before that answer.  It does not say that
the answer is at least `p`: an or executor that has been overtaken answers documents it should have
passed.  Still no document is lost, and every seek makes progress, so that both loops end.

`seek_moved` is the step: a seek returns, whatever the state of the executors below, keeps the
invariant and moves the answer forward; and if no or executor was overtaken, the answer is not before
the id asked for.  The induction is on the height of the tree; the two loops are inductions on what
their children have left.
-/

namespace Havenask

open List

namespace PostingExecutor

/-! ## Small facts -/

/-- The documents of a query tree, whatever its state. -/
inductive Executor.Matches : Executor → ℤ → Prop
  | leaf {docs : List ℤ} {current d : ℤ} (h : d ∈ docs) : Matches (.leaf docs current) d
  | and {children : List Executor} {current d : ℤ} (h : ∀ c ∈ children, Matches c d) :
      Matches (.and children current) d
  | or {children : List Executor} {entryHeap : List Entry} {currentDocId current d : ℤ}
      {overtaken : Bool} {c : Executor} (hc : c ∈ children) (h : Matches c d) :
      Matches (.or children entryHeap currentDocId overtaken current) d

variable {current : ℤ}

lemma matches_leaf_iff {docs : List ℤ} {d : ℤ} : (Executor.leaf docs current).Matches d ↔ d ∈ docs := by
  constructor
  · rintro ⟨h⟩
    exact h
  · exact .leaf

variable {children : List Executor} {entryHeap : List Entry} {overtaken : Bool} {S : ℤ → Prop} {h : ℕ}
  {c c' : Executor}

lemma matches_and_iff {d : ℤ} : (Executor.and children current).Matches d ↔ ∀ c ∈ children, c.Matches d := by
  constructor
  · intro h
    cases h with
    | and h => exact h
  · exact .and

variable {currentDocId : ℤ}

lemma matches_or_iff {d : ℤ} : (Executor.or children entryHeap currentDocId overtaken current).Matches d
    ↔ ∃ c ∈ children, c.Matches d := by
  constructor
  · intro h
    cases h with
    | or hc h => exact ⟨_, hc, h⟩
  · rintro ⟨c, hc, h⟩
    exact .or hc h

lemma not_overtaken_and_iff : ¬ Overtaken (.and children current) ↔ ∀ c ∈ children, ¬ Overtaken c := by
  constructor
  · exact fun h c hc hover => h (.and hc hover)
  · intro h hover
    cases hover with
    | and hc hover => exact h _ hc hover

lemma not_overtaken_or_iff : ¬ Overtaken (.or children entryHeap currentDocId overtaken current)
    ↔ overtaken = false ∧ ∀ c ∈ children, ¬ Overtaken c := by
  constructor
  · intro h
    refine ⟨?_, fun c hc hover => h (.or hc hover)⟩
    cases overtaken with
    | false => rfl
    | true => exact absurd .here h
  · rintro ⟨rfl, h⟩ hover
    cases hover with
    | or hc hover => exact h _ hc hover

variable {entry : Entry}

lemma top_spec (h : top entryHeap = some entry) : entry ∈ entryHeap ∧ ∀ e ∈ entryHeap, entry.docId ≤ e.docId := by
  induction entryHeap generalizing entry with
  | nil => simp [top] at h
  | cons e entryHeap ih =>
    rw [top] at h
    cases hrest : top entryHeap with
    | none =>
      have hnil : entryHeap = [] := by
        cases entryHeap with
        | nil => rfl
        | cons a l =>
          rw [top] at hrest
          cases ht : top l <;> simp [ht] at hrest
      subst hnil
      simp only [hrest, Option.some.injEq] at h
      simp [← h]
    | some best =>
      obtain ⟨hmem, hle⟩ := ih hrest
      simp only [hrest, Option.some.injEq] at h
      by_cases hbefore : best.before e = true
      · rw [if_pos hbefore] at h
        subst h
        have hlt : best.docId ≤ e.docId := by
          unfold Entry.before at hbefore
          split_ifs at hbefore with hne
          · exact (of_decide_eq_true hbefore).le
          · push Not at hne
            exact hne.le
        refine ⟨by simp [hmem], fun x hx => ?_⟩
        rcases mem_cons.mp hx with rfl | hx
        · exact hlt
        · exact hle x hx
      rw [if_neg hbefore] at h
      subst h
      have hge : e.docId ≤ best.docId := by
        unfold Entry.before at hbefore
        split_ifs at hbefore with hne
        · simpa using hbefore
        · push Not at hne
          exact hne.ge
      refine ⟨by simp, fun x hx => ?_⟩
      rcases mem_cons.mp hx with rfl | hx
      · exact le_rfl
      · exact hge.trans (hle x hx)

lemma top_eq_none_iff : top entryHeap = none ↔ entryHeap = [] := by
  cases entryHeap with
  | nil => simp [top]
  | cons e l =>
    rw [top]
    cases top l <;> simp

/-- A leaf answers one of its documents, and there is none between. -/
lemma leafSeek_spec (docs : List ℤ) (id : ℤ) :
    (leafSeek docs id = endDocId ∨ leafSeek docs id ∈ docs ∧ id ≤ leafSeek docs id)
    ∧ leafSeek docs id ≤ endDocId ∧ ∀ d ∈ docs, id ≤ d → leafSeek docs id ≤ d := by
  unfold leafSeek
  induction docs using reverseRecOn with
  | nil => simp
  | append_singleton docs d ih =>
    rw [foldl_append, foldl_cons, foldl_nil]
    generalize docs.foldl (fun best d => if id ≤ d then min best d else best) endDocId = best at *
    obtain ⟨hplace, hend, hle⟩ := ih
    by_cases hd : id ≤ d
    · rw [if_pos hd]
      refine ⟨?_, (min_le_left _ _).trans hend, ?_⟩
      · rcases min_choice best d with h | h
        · rw [h]
          exact hplace.imp_right fun hb => ⟨by simp [hb.1], hb.2⟩
        · rw [h]
          exact Or.inr ⟨by simp, hd⟩
      intro x hx hx'
      rcases mem_append.mp hx with hx | hx
      · exact (min_le_left _ _).trans (hle x hx hx')
      · rw [mem_singleton.mp hx]
        exact min_le_right _ _
    · rw [if_neg hd]
      refine ⟨hplace.imp_right fun hb => ⟨by simp [hb.1], hb.2⟩, hend, ?_⟩
      intro x hx hx'
      rcases mem_append.mp hx with hx | hx
      · exact hle x hx hx'
      · exact absurd (mem_singleton.mp hx ▸ hx') hd

/-! ## The invariant -/

/-- An answer among the documents `S`, with none of them between `p` and it. -/
structure Located (S : ℤ → Prop) (current p : ℤ) : Prop where
  bounds : ∀ d, S d → 0 ≤ d ∧ d < endDocId
  place : current = invalidDocId ∨ S current ∨ current = endDocId
  least : ∀ d, S d → p ≤ d → current ≤ d

/-- The heap has one entry for each child, with the child's answer. -/
structure HeapOk (children : List Executor) (entryHeap : List Entry) : Prop where
  entry : ∀ e ∈ entryHeap, 0 ≤ e.docId ∧ ∃ c, children[e.entryId]? = some c ∧ c.current = e.docId
  child : ∀ i < children.length, ∃ e ∈ entryHeap, e.entryId = i
  nodup : (entryHeap.map Entry.entryId).Nodup

/-- The least answer in the heap. -/
def IsTop (entryHeap : List Entry) (currentDocId : ℤ) : Prop :=
  (entryHeap = [] ∧ currentDocId = endDocId)
    ∨ ((∃ e ∈ entryHeap, e.docId = currentDocId) ∧ ∀ e ∈ entryHeap, currentDocId ≤ e.docId)

/-- The invariant of an executor of height at most `h`.  The children of an and executor have been
asked for ids up to some `M`, and none of its documents from `p` on is before `M`. -/
def Inv : ℕ → Executor → ℤ → Prop
  | 0, _, _ => False
  | _ + 1, .leaf docs current, p => Located (Executor.leaf docs current).Matches current p
  | h + 1, .and children current, p =>
    Located (Executor.and children current).Matches current p ∧ children ≠ []
      ∧ (current = endDocId ∨ ∀ c ∈ children, current ≤ c.current)
      ∧ ∃ M, (∀ d, (∀ c ∈ children, c.Matches d) → p ≤ d → M ≤ d) ∧ ∀ c ∈ children, Inv h c M
  | h + 1, .or children entryHeap currentDocId overtaken current, p =>
    Located (Executor.or children entryHeap currentDocId overtaken current).Matches current p
      ∧ (∀ c ∈ children, Inv h c p) ∧ HeapOk children entryHeap ∧ IsTop entryHeap currentDocId
      ∧ (current = invalidDocId ∨ current = currentDocId)

variable {p : ℤ}

lemma Located.mono {p' : ℤ} (h : Located S current p) (hp : p ≤ p') : Located S current p' :=
  ⟨h.bounds, h.place, fun d hd hle => h.least d hd (hp.trans hle)⟩

variable {e : Executor}

lemma Inv.located (hinv : Inv h e p) : Located e.Matches e.current p := by
  cases h with
  | zero => exact hinv.elim
  | succ h =>
    cases e with
    | leaf docs current => exact hinv
    | and children current => exact hinv.1
    | or children entryHeap currentDocId overtaken current => exact hinv.1

lemma Inv.mono {p' : ℤ} (hinv : Inv h e p) (hp : p ≤ p') : Inv h e p' := by
  induction h generalizing e with
  | zero => exact hinv.elim
  | succ h ih =>
    cases e with
    | leaf docs current => exact Located.mono hinv hp
    | and children current =>
      obtain ⟨hloc, hne, hcur, M, hM, hchildren⟩ := hinv
      exact ⟨hloc.mono hp, hne, hcur, M, fun d hd hle => hM d hd (hp.trans hle), hchildren⟩
    | or children entryHeap currentDocId overtaken current =>
      obtain ⟨hloc, hchildren, hheap, htop, hcur⟩ := hinv
      exact ⟨hloc.mono hp, fun c hc => ih (hchildren c hc), hheap, htop, hcur⟩

lemma Located.current_bounds (h : Located S current p) : -1 ≤ current ∧ current ≤ endDocId := by
  rcases h.place with hp | hp | hp
  · rw [hp]
    decide
  · have := h.bounds current hp
    omega
  · rw [hp]
    decide

/-- What a seek for `id` leaves: the executor `e'` with the answer `r`. -/
structure Moved (h : ℕ) (e : Executor) (p id : ℤ) (e' : Executor) (r : ℤ) : Prop where
  current : e'.current = r
  same : ∀ d, e'.Matches d ↔ e.Matches d
  inv : Inv h e' (max p id)
  cached : id ≤ e.current → e' = e
  progress : e.current < id → e.current < r
  answered : e'.Matches r ∨ r = endDocId
  clear : ¬ Overtaken e' → ¬ Overtaken e ∧ id ≤ r

/-- With enough fuel a seek returns. -/
def Returns (e : Executor) (id : ℤ) (e' : Executor) (r : ℤ) : Prop := ∃ N, ∀ fuel ≥ N, seek fuel e id = some (e', r)

/-- Every seek of an executor of height at most `h` returns and moves it. -/
def Seeks (h : ℕ) : Prop :=
  ∀ e p id, Inv h e p → 0 ≤ id → id ≤ endDocId → ∃ e' r, Returns e id e' r ∧ Moved h e p id e' r

variable {id : ℤ}

lemma Moved.le {e' : Executor} {r : ℤ} (hm : Moved h e p id e' r) : e.current ≤ r := by
  by_cases hid : id ≤ e.current
  · rw [← hm.current, hm.cached hid]
  · exact (hm.progress (not_le.mp hid)).le

/-- What the children have left to do. -/
def left (children : List Executor) : ℕ := (children.map fun c => (endDocId - c.current).toNat).sum

lemma left_set_lt {i : ℕ} (hc : children[i]? = some c) (hlt : c.current < c'.current) (hend : c'.current ≤ endDocId) :
    left (children.set i c') < left children := by
  induction children generalizing i with
  | nil => simp at hc
  | cons x children ih =>
    cases i with
    | zero =>
      obtain rfl : x = c := by simpa using hc
      simp only [left, set_cons_zero, map_cons, sum_cons]
      omega
    | succ i =>
      have := ih (by simpa using hc)
      simp only [left, set_cons_succ, map_cons, sum_cons] at *
      omega

/-! ## Replacing a child -/

section
variable {α : Type} {l : List α} {i : ℕ} {x x' : α} {P : α → Prop}

lemma forall_mem_set (hx : P x') (hl : ∀ y ∈ l, P y) : ∀ y ∈ l.set i x', P y := by
  intro y hy
  rcases mem_or_eq_of_mem_set hy with hy | rfl
  · exact hl y hy
  · exact hx

lemma forall_mem_of_set (hi : l[i]? = some x) (hx : P x' → P x) (hl : ∀ y ∈ l.set i x', P y) : ∀ y ∈ l, P y := by
  intro y hy
  obtain ⟨j, hj⟩ := mem_iff_getElem?.mp hy
  by_cases hij : i = j
  · subst hij
    obtain rfl : x = y := Option.some.inj (hi.symm.trans hj)
    exact hx (hl x' (List.mem_set (List.getElem?_eq_some_iff.mp hi).1 x'))
  · refine hl y (mem_iff_getElem?.mpr ⟨j, ?_⟩)
    rw [getElem?_set_ne hij, hj]

lemma set_eq_self (hi : l[i]? = some x) : l.set i x = l := by
  obtain ⟨hlt, rfl⟩ := List.getElem?_eq_some_iff.mp hi
  exact set_getElem_self hlt

end

/-! ## The loop of an and executor -/

/-- The loop of an and executor, at the candidate `current` that the first `i` children have. -/
structure AndState (h : ℕ) (S : ℤ → Prop) (a P : ℤ) (children : List Executor) (i : ℕ) (current M : ℤ) : Prop where
  docs : ∀ d, (∀ c ∈ children, c.Matches d) ↔ S d
  inv : ∀ c ∈ children, Inv h c M
  clear : ∀ d, S d → P ≤ d → M ≤ d
  nonneg : 0 ≤ current
  le_end : current ≤ endDocId
  le_bound : current ≤ M
  ahead : a < current
  children_ahead : ∀ c ∈ children, a ≤ c.current
  agree : ∀ j < i, ∀ c, children[j]? = some c → c.current = current

/-- What is left for the loop: answers of the children, then candidates, then children to ask. -/
def andMeasure (children : List Executor) (i : ℕ) (current : ℤ) : ℕ ×ₗ ℕ ×ₗ ℕ :=
  toLex (left children, toLex ((endDocId - current).toNat, children.length - i))

/-- One round: the child under the iterator is asked for the candidate. -/
lemma AndState.step {a P : ℤ} {i : ℕ} {M : ℤ} (hstate : AndState h S a P children i current M)
    (hc : children[i]? = some c) {tmpId : ℤ} (hmoved : Moved h c M current c' tmpId) :
    AndState h S a P (children.set i c') (if tmpId ≠ current then 0 else i + 1) tmpId (max M tmpId)
    ∧ andMeasure (children.set i c') (if tmpId ≠ current then 0 else i + 1) tmpId
      < andMeasure children i current := by
  have hi : i < children.length := (List.getElem?_eq_some_iff.mp hc).1
  have hmem : c ∈ children := mem_of_getElem? hc
  have hinv' : Inv h c' M := by
    have := hmoved.inv
    rwa [max_eq_left hstate.le_bound] at this
  have hloc := hinv'.located
  rw [hmoved.current] at hloc
  have hbounds := hloc.current_bounds
  refine ⟨⟨?_, ?_, ?_, ?_, hbounds.2, le_max_right _ _, ?_, ?_, ?_⟩, ?_⟩
  · intro d
    rw [← hstate.docs]
    exact ⟨forall_mem_of_set hc (hmoved.same d).mp,
      fun hall => forall_mem_set ((hmoved.same d).mpr (hall c hmem)) hall⟩
  · exact forall_mem_set (hinv'.mono (le_max_left _ _)) fun x hx => (hstate.inv x hx).mono (le_max_left _ _)
  · intro d hd hP
    have hM := hstate.clear d hd hP
    have hc' : c'.Matches d := (hmoved.same d).mpr ((hstate.docs d).mpr hd c hmem)
    exact max_le hM (hloc.least d hc' hM)
  · rcases hmoved.answered with hr | hr
    · exact (hloc.bounds _ hr).1
    · rw [hr]
      decide
  · have ha := hstate.children_ahead c hmem
    by_cases hcached : current ≤ c.current
    · exact lt_of_lt_of_le hstate.ahead (hcached.trans hmoved.le)
    · exact lt_of_le_of_lt ha (hmoved.progress (not_le.mp hcached))
  · refine forall_mem_set ?_ hstate.children_ahead
    rw [hmoved.current]
    exact (hstate.children_ahead c hmem).trans hmoved.le
  · -- a new candidate starts with the first child; the same one has been confirmed by child `i`
    split_ifs with hne
    · intro j hj
      omega
    push Not at hne
    subst hne
    intro j hj x hx
    by_cases hij : i = j
    · subst hij
      rw [getElem?_set_self hi, Option.some.injEq] at hx
      rw [← hx, hmoved.current]
    · rw [getElem?_set_ne hij] at hx
      exact hstate.agree j (by omega) x hx
  · rw [andMeasure, andMeasure, Prod.Lex.toLex_lt_toLex]
    by_cases hcached : current ≤ c.current
    · have hsame : c' = c := hmoved.cached hcached
      subst hsame
      rw [set_eq_self hc]
      refine Or.inr ⟨rfl, ?_⟩
      rw [Prod.Lex.toLex_lt_toLex]
      have hle : current ≤ tmpId := hcached.trans hmoved.le
      split_ifs with hne
      · left
        omega
      push Not at hne
      subst hne
      right
      exact ⟨rfl, by dsimp only; omega⟩
    · left
      refine left_set_lt hc ?_ ?_
      · rw [hmoved.current]
        exact hmoved.progress (not_le.mp hcached)
      · rw [hmoved.current]
        exact hbounds.2

/-- How the loop of an and executor ends: a document that all children have, or `END_DOCID`. -/
structure AndDone (h : ℕ) (S : ℤ → Prop) (a P current : ℤ) (children children' : List Executor) (r : ℤ) : Prop where
  docs : ∀ d, (∀ c ∈ children', c.Matches d) ↔ S d
  nonempty : children' ≠ []
  ahead : a < r
  answered : r = endDocId ∨ ∀ c ∈ children', c.current = r
  nonneg : 0 ≤ r
  bound : ∃ M, (∀ d, S d → P ≤ d → M ≤ d) ∧ r ≤ M ∧ ∀ c ∈ children', Inv h c M
  clear : (∀ c ∈ children', ¬ Overtaken c) → (∀ c ∈ children, ¬ Overtaken c) ∧ current ≤ r

lemma andLoop_done (hseeks : Seeks h) {a P : ℤ} (m : ℕ ×ₗ ℕ ×ₗ ℕ) :
    ∀ children i current M, andMeasure children i current = m → i < children.length →
    AndState h S a P children i current M →
    ∃ children' r N, (∀ n ≥ N, ∀ k ≥ N, andLoop (seek n) k children i current = some (children', r))
      ∧ AndDone h S a P current children children' r := by
  induction m using WellFoundedLT.induction with
  | ind m ih =>
    intro children i current M hm hi hstate
    obtain ⟨c, hc⟩ : ∃ c, children[i]? = some c := ⟨_, getElem?_eq_getElem hi⟩
    have hmem : c ∈ children := mem_of_getElem? hc
    obtain ⟨c', tmpId, ⟨N₁, hN₁⟩, hmoved⟩ := hseeks c M current (hstate.inv c hmem) hstate.nonneg hstate.le_end
    obtain ⟨hnext, hlt⟩ := hstate.step hc hmoved
    have hclear : (∀ x ∈ children.set i c', ¬ Overtaken x) → (∀ x ∈ children, ¬ Overtaken x) ∧ current ≤ tmpId := by
      intro hall
      have hc'clear := hall c' (mem_set hi c')
      exact ⟨forall_mem_of_set hc (fun h => (hmoved.clear h).1) hall, (hmoved.clear hc'clear).2⟩
    by_cases hgo : endDocId ≠ tmpId
        ∧ (if tmpId ≠ current then 0 else i + 1) ≠ (children.set i c').length
    · have hi' : (if tmpId ≠ current then 0 else i + 1) < (children.set i c').length := by
        have hlen : (children.set i c').length = children.length := length_set
        split_ifs at hgo ⊢ <;> omega
      obtain ⟨children', r, N₂, hN₂, hdone⟩ := ih _ (hm ▸ hlt) _ _ _ _ rfl hi' hnext
      refine ⟨children', r, N₁ + N₂ + 1, ?_, { hdone with clear := ?_ }⟩
      · intro n hn k hk
        obtain ⟨k, rfl⟩ : ∃ k', k = k' + 1 := ⟨k - 1, by omega⟩
        rw [andLoop, hc]
        simp only [hN₁ n (by omega)]
        rw [if_pos hgo]
        exact hN₂ n (by omega) k (by omega)
      · intro hall
        obtain ⟨hset, hle⟩ := hdone.clear hall
        exact ⟨(hclear hset).1, (hclear hset).2.trans hle⟩
    refine ⟨children.set i c', tmpId, N₁ + 1, ?_, ?_⟩
    · intro n hn k hk
      obtain ⟨k, rfl⟩ : ∃ k', k = k' + 1 := ⟨k - 1, by omega⟩
      rw [andLoop, hc]
      simp only [hN₁ n (by omega)]
      rw [if_neg hgo]
    refine ⟨hnext.docs, ?_, hnext.ahead, ?_, hnext.nonneg, ⟨_, hnext.clear, hnext.le_bound, hnext.inv⟩, hclear⟩
    · rw [← length_pos_iff, length_set]
      omega
    by_cases hend : endDocId = tmpId
    · exact Or.inl hend.symm
    right
    intro x hx
    obtain ⟨j, hj⟩ := mem_iff_getElem?.mp hx
    have hall : (if tmpId ≠ current then 0 else i + 1) = (children.set i c').length := by
      by_contra hne
      exact hgo ⟨hend, hne⟩
    exact hnext.agree j (hall ▸ (List.getElem?_eq_some_iff.mp hj).1) x hj

/-- **An and executor seeks.** -/
lemma seeks_and (hseeks : Seeks h)
    (hinv : Inv (h + 1) (.and children current) p) (hid : 0 ≤ id) (hend : id ≤ endDocId)
    (hlt : current < id) : ∃ e' r, Returns (.and children current) id e' r
    ∧ Moved (h + 1) (.and children current) p id e' r := by
  obtain ⟨hloc, hne, hcur, M, hM, hchildren⟩ := hinv
  have hcur' : ∀ c ∈ children, current ≤ c.current := hcur.resolve_left (by omega)
  have hstate : AndState h (Executor.and children current).Matches current (max p id) children 0 id
      (max M id) := by
    refine ⟨fun d => matches_and_iff.symm, fun c hc => (hchildren c hc).mono (le_max_left _ _),
      ?_, hid, hend, le_max_right _ _, hlt, hcur', fun j hj => by omega⟩
    intro d hd hle
    exact max_le (hM d (matches_and_iff.mp hd) ((le_max_left _ _).trans hle)) ((le_max_right _ _).trans hle)
  obtain ⟨children', r, N, hN, hdone⟩ := andLoop_done hseeks _ children 0 id _ rfl (length_pos_iff.mpr hne) hstate
  have hsame : ∀ d, (Executor.and children' r).Matches d ↔ (Executor.and children current).Matches d :=
    fun d => matches_and_iff.trans (hdone.docs d)
  obtain ⟨M', hclear, hrM, hinv'⟩ := hdone.bound
  have hanswered : (Executor.and children' r).Matches r ∨ r = endDocId := by
    rcases hdone.answered with hr | hagree
    · exact Or.inr hr
    by_cases hr : r = endDocId
    · exact Or.inr hr
    left
    rw [matches_and_iff]
    intro c hc
    have hcloc := (hinv' c hc).located
    rw [hagree c hc] at hcloc
    have hnonneg := hdone.nonneg
    rcases hcloc.place with hplace | hplace | hplace
    · rw [hplace] at hnonneg
      exact absurd hnonneg (by decide)
    · exact hplace
    · exact absurd hplace hr
  refine ⟨.and children' r, r, ⟨N + 1, ?_⟩, ⟨rfl, hsame, ?_, ?_, fun _ => hdone.ahead, hanswered, ?_⟩⟩
  · intro fuel hfuel
    obtain ⟨n, rfl⟩ : ∃ n, fuel = n + 1 := ⟨fuel - 1, by omega⟩
    have hcurrent : (Executor.and children current).current < id := hlt
    rw [seek, if_pos hcurrent]
    simp only [hN n (by omega) n (by omega)]
  · refine ⟨⟨fun d hd => hloc.bounds d ((hsame d).mp hd), Or.inr hanswered, ?_⟩, hdone.nonempty, ?_,
      M', fun d hd hle => ?_, hinv'⟩
    · intro d hd hle
      exact hrM.trans (hclear d ((hsame d).mp hd) hle)
    · exact hdone.answered.imp_right fun hagree c hc => (hagree c hc).ge
    · exact hclear d ((hdone.docs d).mp hd) hle
  · intro hle
    exact absurd hle (not_le.mpr hlt)
  · rw [not_overtaken_and_iff, not_overtaken_and_iff]
    exact hdone.clear

/-! ## The loop of an or executor -/

/-- A child asked again gets its new answer into the heap, in place of the old one. -/
lemma HeapOk.replace (hok : HeapOk children entryHeap) (hmem : entry ∈ entryHeap) {c' : Executor}
    {r : ℤ} (hcur : c'.current = r) (hr : 0 ≤ r) :
    HeapOk (children.set entry.entryId c') ({ entry with docId := r } :: entryHeap.erase entry) := by
  obtain ⟨-, c, hc, -⟩ := hok.entry entry hmem
  have hi : entry.entryId < children.length := (List.getElem?_eq_some_iff.mp hc).1
  have hperm : entryHeap.Perm (entry :: entryHeap.erase entry) := perm_cons_erase hmem
  have hids : (entryHeap.map Entry.entryId).Perm
      (entry.entryId :: (entryHeap.erase entry).map Entry.entryId) := hperm.map _
  have hnodup := (hids.nodup_iff.mp hok.nodup)
  refine ⟨?_, ?_, ?_⟩
  · intro e he
    rcases mem_cons.mp he with rfl | he
    · exact ⟨hr, c', getElem?_set_self hi, hcur⟩
    obtain ⟨hnonneg, x, hx, hxcur⟩ := hok.entry e (mem_of_mem_erase he)
    have hne : entry.entryId ≠ e.entryId := by
      intro heq
      exact (nodup_cons.mp hnodup).1 (heq ▸ mem_map_of_mem he)
    exact ⟨hnonneg, x, by rw [getElem?_set_ne hne, hx], hxcur⟩
  · intro i hi'
    rw [length_set] at hi'
    obtain ⟨e, he, rfl⟩ := hok.child i hi'
    rcases mem_cons.mp (hperm.mem_iff.mp he) with rfl | he
    · exact ⟨_, mem_cons_self, rfl⟩
    · exact ⟨e, mem_cons_of_mem _ he, rfl⟩
  · simpa using hnodup

/-- An or in the middle of a seek: its heap lists its children. -/
structure OrState (h : ℕ) (S : ℤ → Prop) (P : ℤ) (children : List Executor) (entryHeap : List Entry) : Prop where
  docs : ∀ d, (∃ c ∈ children, c.Matches d) ↔ S d
  inv : ∀ c ∈ children, Inv h c P
  heap : HeapOk children entryHeap
  nonempty : entryHeap ≠ []

/-- One round: the child on top of the heap is asked for `id`. -/
lemma OrState.step {P : ℤ} (hstate : OrState h S P children entryHeap) (hidP : id ≤ P) (hmem : entry ∈ entryHeap)
    (hc : children[entry.entryId]? = some c) {r : ℤ} (hmoved : Moved h c P id c' r) :
    OrState h S P (children.set entry.entryId c') ({ entry with docId := r } :: entryHeap.erase entry) := by
  have hinv' : Inv h c' P := by
    have := hmoved.inv
    rwa [max_eq_left hidP] at this
  have hnonneg : 0 ≤ r := by
    rcases hmoved.answered with hr | hr
    · exact (hinv'.located.bounds r hr).1
    · rw [hr]
      decide
  refine ⟨fun d => ?_, forall_mem_set hinv' hstate.inv, hstate.heap.replace hmem hmoved.current hnonneg, by simp⟩
  -- the documents of the children are the same, so the documents that no child has are
  rw [← hstate.docs, ← not_iff_not]
  push Not
  exact ⟨forall_mem_of_set hc fun hno hd => hno ((hmoved.same d).mpr hd),
    fun hno => forall_mem_set (fun hd => hno c (mem_of_getElem? hc) ((hmoved.same d).mp hd)) hno⟩

/-- How the loop of an or executor ends: past `c₀`, and no child is asked in vain. -/
structure OrDone (h : ℕ) (S : ℤ → Prop) (P c₀ id : ℤ) (children : List Executor)
    (entryHeap : List Entry) (children' : List Executor) (entryHeap' : List Entry) (r : ℤ) : Prop where
  state : OrState h S P children' entryHeap'
  top : (∃ e ∈ entryHeap', e.docId = r) ∧ ∀ e ∈ entryHeap', r ≤ e.docId
  past : c₀ < r
  clear : (∀ c ∈ children', ¬ Overtaken c) → (∀ c ∈ children, ¬ Overtaken c)
    ∧ ((∀ e ∈ entryHeap, e.docId ≤ c₀ ∨ id ≤ e.docId) → id ≤ r)

lemma orLoop_done (hseeks : Seeks h) {P c₀ : ℤ} (hid : 0 ≤ id)
    (hend : id ≤ endDocId) (hidP : id ≤ P) (hc₀ : c₀ < id) (m : ℕ) :
    ∀ children entryHeap, left children = m → OrState h S P children entryHeap →
    ∃ children' entryHeap' r N, (∀ n ≥ N, ∀ k ≥ N, orLoop (seek n) c₀ id k children entryHeap
        = some (children', entryHeap', r))
      ∧ OrDone h S P c₀ id children entryHeap children' entryHeap' r := by
  induction m using Nat.strong_induction_on with
  | _ m ih =>
    intro children entryHeap hm hstate
    obtain ⟨entry, htop⟩ : ∃ entry, top entryHeap = some entry := by
      rw [← Option.isSome_iff_exists, Option.isSome_iff_ne_none, ne_eq, top_eq_none_iff]
      exact hstate.nonempty
    obtain ⟨hmem, hleast⟩ := top_spec htop
    by_cases hbehind : entry.docId ≤ c₀
    · obtain ⟨-, c, hc, hcur⟩ := hstate.heap.entry entry hmem
      have hcmem : c ∈ children := mem_of_getElem? hc
      obtain ⟨c', r', ⟨N₁, hN₁⟩, hmoved⟩ := hseeks c P id (hstate.inv c hcmem) hid hend
      have hlt : left (children.set entry.entryId c') < m := by
        rw [← hm]
        refine left_set_lt hc ?_ ?_
        · rw [hmoved.current]
          exact hmoved.progress (by omega)
        · exact hmoved.inv.located.current_bounds.2
      obtain ⟨children', entryHeap', r, N₂, hN₂, hdone⟩ := ih _ hlt _ _ rfl (hstate.step hidP hmem hc hmoved)
      refine ⟨children', entryHeap', r, N₁ + N₂ + 1, ?_, { hdone with clear := ?_ }⟩
      · intro n hn k hk
        obtain ⟨k, rfl⟩ : ∃ k', k = k' + 1 := ⟨k - 1, by omega⟩
        rw [orLoop, htop]
        simp only [if_pos hbehind, hc, hN₁ n (by omega)]
        exact hN₂ n (by omega) k (by omega)
      intro hall
      obtain ⟨hset, hentries⟩ := hdone.clear hall
      have hi : entry.entryId < children.length := (List.getElem?_eq_some_iff.mp hc).1
      have hc'clear := hmoved.clear (hset c' (mem_set hi c'))
      refine ⟨forall_mem_of_set hc (fun h => (hmoved.clear h).1) hset, fun hold => ?_⟩
      apply hentries
      intro e he
      rcases mem_cons.mp he with rfl | he
      · exact Or.inr hc'clear.2
      · exact hold e (mem_of_mem_erase he)
    · refine ⟨children, entryHeap, entry.docId, 1, ?_, hstate, ⟨⟨entry, hmem, rfl⟩, hleast⟩,
        not_le.mp hbehind, fun hall => ⟨hall, fun hold => ?_⟩⟩
      · intro n hn k hk
        obtain ⟨k, rfl⟩ : ∃ k', k = k' + 1 := ⟨k - 1, by omega⟩
        rw [orLoop, htop]
        simp only [if_neg hbehind]
      · exact (hold entry hmem).resolve_left hbehind

/-- The least answer of the children is a document of theirs, and there is none before it. -/
lemma IsTop.located {P : ℤ} (htop : IsTop entryHeap currentDocId) (hok : HeapOk children entryHeap)
    (hinv : ∀ c ∈ children, Inv h c P) : ((∃ c ∈ children, c.Matches currentDocId) ∨ currentDocId = endDocId)
    ∧ ∀ d, (∃ c ∈ children, c.Matches d) → P ≤ d → currentDocId ≤ d := by
  rcases htop with ⟨hnil, hend⟩ | ⟨⟨e, he, hcur⟩, hleast⟩
  · subst hnil
    refine ⟨Or.inr hend, ?_⟩
    rintro d ⟨c, hc, -⟩
    obtain ⟨i, hi⟩ := mem_iff_getElem?.mp hc
    obtain ⟨e, he, -⟩ := hok.child i (List.getElem?_eq_some_iff.mp hi).1
    simp at he
  constructor
  · obtain ⟨hnonneg, c, hc, hccur⟩ := hok.entry e he
    have hmem : c ∈ children := mem_of_getElem? hc
    have hplace := (hinv c hmem).located.place
    rw [hccur, hcur] at hplace
    rcases hplace with hplace | hplace | hplace
    · rw [← hcur] at hplace
      exact absurd (hplace ▸ hnonneg) (by decide)
    · exact Or.inl ⟨c, hmem, hplace⟩
    · exact Or.inr hplace
  · rintro d ⟨c, hc, hd⟩ hle
    obtain ⟨i, hi⟩ := mem_iff_getElem?.mp hc
    obtain ⟨e', he', rfl⟩ := hok.child i (List.getElem?_eq_some_iff.mp hi).1
    obtain ⟨-, c', hc', hcur'⟩ := hok.entry e' he'
    obtain rfl : c = c' := Option.some.inj (hi.symm.trans hc')
    calc currentDocId ≤ e'.docId := hleast e' he'
      _ = c.current := hcur'.symm
      _ ≤ d := (hinv c hc).located.least d hd hle

lemma not_overtakes_iff {c₀ : ℤ} :
    overtakes entryHeap c₀ id = false ↔ ∀ e ∈ entryHeap, e.docId ≤ c₀ ∨ id ≤ e.docId := by
  simp only [overtakes, any_eq_false, decide_eq_true_eq, not_and, not_lt]
  exact forall₂_congr fun e _ => ⟨fun h => (le_or_gt e.docId c₀).imp_right h,
    fun h hlt => h.resolve_left (not_le.mpr hlt)⟩

/-- **An or executor seeks.** -/
lemma seeks_or (hseeks : Seeks h)
    (hinv : Inv (h + 1) (.or children entryHeap currentDocId overtaken current) p) (hid : 0 ≤ id)
    (hend : id ≤ endDocId) (hlt : current < id) :
    ∃ e' r, Returns (.or children entryHeap currentDocId overtaken current) id e' r
    ∧ Moved (h + 1) (.or children entryHeap currentDocId overtaken current) p id e' r := by
  obtain ⟨hloc, hchildren, hheap, htop, hcur⟩ := hinv
  have hcurrent : (Executor.or children entryHeap currentDocId overtaken current).current < id := hlt
  have hchildren' : ∀ c ∈ children, Inv h c (max p id) := fun c hc => (hchildren c hc).mono (le_max_left _ _)
  by_cases hbehind : currentDocId < id
  · have hnonempty : entryHeap ≠ [] := by
      rcases htop with ⟨-, h⟩ | ⟨⟨e, he, -⟩, -⟩
      · omega
      · exact ne_nil_of_mem he
    have hne : currentDocId ≠ endDocId := by omega
    obtain ⟨children', entryHeap', r, N, hN, hdone⟩ := orLoop_done hseeks hid hend
      (le_max_right p id) hbehind _ children entryHeap rfl
      ⟨fun d => matches_or_iff.symm, hchildren', hheap, hnonempty⟩
    have hsame : ∀ d, (Executor.or children' entryHeap' r
          (overtaken || overtakes entryHeap currentDocId id) r).Matches d
        ↔ (Executor.or children entryHeap currentDocId overtaken current).Matches d :=
      fun d => matches_or_iff.trans (hdone.state.docs d)
    have htop' : IsTop entryHeap' r := Or.inr hdone.top
    obtain ⟨hplace, hleast⟩ := htop'.located hdone.state.heap hdone.state.inv
    have hanswered : (Executor.or children' entryHeap' r
          (overtaken || overtakes entryHeap currentDocId id) r).Matches r ∨ r = endDocId :=
      hplace.imp_left matches_or_iff.mpr
    refine ⟨_, r, ⟨N + 1, ?_⟩, ⟨rfl, hsame, ⟨⟨?_, Or.inr hanswered, ?_⟩, hdone.state.inv,
      hdone.state.heap, htop', Or.inr rfl⟩, ?_, ?_, hanswered, ?_⟩⟩
    · intro fuel hfuel
      obtain ⟨n, rfl⟩ : ∃ n, fuel = n + 1 := ⟨fuel - 1, by omega⟩
      rw [seek, if_pos hcurrent]
      simp only [if_neg hne, if_pos hbehind, hN n (by omega) n (by omega)]
    · exact fun d hd => hloc.bounds d ((hsame d).mp hd)
    · exact fun d hd => hleast d (matches_or_iff.mp hd)
    · exact fun hle => absurd hle (not_le.mpr hlt)
    · intro _
      have hpast := hdone.past
      rcases hcur with hcur | hcur
      · rcases hplace with ⟨c, hc, hr⟩ | hr
        · have := ((hdone.state.inv c hc).located.bounds r hr).1
          exact lt_of_lt_of_le (hcur.trans_lt (by decide)) this
        · rw [hr]
          exact hcur.trans_lt (by decide)
      · exact hcur.trans_lt hpast
    · rw [not_overtaken_or_iff, not_overtaken_or_iff, Bool.or_eq_false_iff, not_overtakes_iff]
      rintro ⟨⟨hover, hentries⟩, hall⟩
      exact ⟨⟨hover, (hdone.clear hall).1⟩, (hdone.clear hall).2 hentries⟩
  · -- the least answer of the children is not behind, or there is none: the heap stays as it is
    obtain ⟨hplace, hleast⟩ := htop.located hheap hchildren'
    have hsame : ∀ d, (Executor.or children entryHeap currentDocId overtaken currentDocId).Matches d
        ↔ (Executor.or children entryHeap currentDocId overtaken current).Matches d :=
      fun d => matches_or_iff.trans matches_or_iff.symm
    have hanswered : (Executor.or children entryHeap currentDocId overtaken currentDocId).Matches
        currentDocId ∨ currentDocId = endDocId := hplace.imp_left matches_or_iff.mpr
    refine ⟨.or children entryHeap currentDocId overtaken currentDocId, currentDocId, ⟨1, ?_⟩,
      ⟨rfl, hsame, ⟨⟨?_, Or.inr hanswered, ?_⟩, hchildren', hheap, htop, Or.inr rfl⟩, ?_, ?_, hanswered, ?_⟩⟩
    · intro fuel hfuel
      obtain ⟨n, rfl⟩ : ∃ n, fuel = n + 1 := ⟨fuel - 1, by omega⟩
      rw [seek, if_pos hcurrent]
      by_cases hdone : currentDocId = endDocId
      · simp only [hdone, if_true]
      · simp only [if_neg hdone, if_neg hbehind]
    · exact fun d hd => hloc.bounds d ((hsame d).mp hd)
    · exact fun d hd => hleast d (matches_or_iff.mp hd)
    · exact fun hle => absurd hle (not_le.mpr hlt)
    · exact fun _ => lt_of_lt_of_le hlt (not_lt.mp hbehind)
    · rw [not_overtaken_or_iff, not_overtaken_or_iff]
      exact fun h => ⟨h, not_lt.mp hbehind⟩

/-! ## Every executor -/

lemma seeks_leaf {docs : List ℤ}
    (hinv : Inv (h + 1) (.leaf docs current) p) (hend : id ≤ endDocId) (hlt : current < id) :
    ∃ e' r, Returns (.leaf docs current) id e' r
    ∧ Moved (h + 1) (.leaf docs current) p id e' r := by
  obtain ⟨hplace, -, hleast⟩ := leafSeek_spec docs id
  have hcurrent : (Executor.leaf docs current).current < id := hlt
  have hloc : Located (Executor.leaf docs current).Matches current p := hinv
  have hge : id ≤ leafSeek docs id := by
    rcases hplace with h | h
    · rw [h]
      exact hend
    · exact h.2
  have hanswered : (Executor.leaf docs (leafSeek docs id)).Matches (leafSeek docs id)
      ∨ leafSeek docs id = endDocId := hplace.symm.imp_left fun h => .leaf h.1
  refine ⟨.leaf docs (leafSeek docs id), leafSeek docs id, ⟨1, ?_⟩,
    ⟨rfl, fun d => matches_leaf_iff.trans matches_leaf_iff.symm, ?_, ?_, ?_, hanswered, ?_⟩⟩
  · intro fuel hfuel
    obtain ⟨n, rfl⟩ : ∃ n, fuel = n + 1 := ⟨fuel - 1, by omega⟩
    rw [seek, if_pos hcurrent]
  · refine ⟨fun d hd => hloc.bounds d (.leaf (matches_leaf_iff.mp hd)), Or.inr hanswered, ?_⟩
    exact fun d hd hle => hleast d (matches_leaf_iff.mp hd) ((le_max_right _ _).trans hle)
  · exact fun hle => absurd hle (not_le.mpr hlt)
  · exact fun _ => lt_of_lt_of_le hlt hge
  · intro _
    refine ⟨fun h => ?_, hge⟩
    cases h

/-- While its answer is not behind, an executor repeats it. -/
lemma seeks_cached (hinv : Inv h e p) (hid : 0 ≤ id)
    (hle : id ≤ e.current) : Returns e id e e.current ∧ Moved h e p id e e.current := by
  refine ⟨⟨1, ?_⟩, ⟨rfl, fun d => Iff.rfl, hinv.mono (le_max_left _ _), fun _ => rfl, ?_, ?_, fun h => ⟨h, hle⟩⟩⟩
  · intro fuel hfuel
    obtain ⟨n, rfl⟩ : ∃ n, fuel = n + 1 := ⟨fuel - 1, by omega⟩
    rw [seek.eq_def]
    exact if_neg (not_lt.mpr hle)
  · exact fun hlt => absurd hlt (not_lt.mpr hle)
  · refine hinv.located.place.resolve_left fun h => ?_
    rw [h] at hle
    exact absurd (hid.trans hle) (by decide)

/-- **Every seek returns and moves the executor forward.** -/
theorem seek_moved (h : ℕ) : Seeks h := by
  induction h with
  | zero => exact fun e p id hinv => hinv.elim
  | succ h ih =>
    intro e p id hinv hid hend
    by_cases hlt : e.current < id
    · cases e with
      | leaf docs current => exact seeks_leaf hinv hend hlt
      | and children current => exact seeks_and ih hinv hid hend hlt
      | or children entryHeap currentDocId overtaken current =>
        exact seeks_or ih hinv hid hend hlt
    · exact ⟨e, e.current, seeks_cached hinv hid (not_lt.mp hlt)⟩

end PostingExecutor

end Havenask
