import Mathlib.Data.Int.Interval
import Havenask.Posting.DynamicSearchTreeMap

/-!
# The document frequency of a dynamic posting list

`inverted_index/builtin_index/dynamic/DynamicPostingWriter.cpp`: documents are added when a segment is built, and
updates add and remove documents later.  The count of documents goes up or down with each update that the tree
reports as a change; but `InsertInternal` gives up what `InsertDescend` reports, and returns `true` at its end.

* **`live`**: the documents of the list, by their last operation.
* **`dF_eq_card_live_iff`**: the count is theirs after all updates of a run, as long as each update changes the list.
-/

namespace Havenask.DynamicSearchTree

open List Function

def Tree.insertReported (tree : Tree) (docId : ℤ) : Bool × Tree := (true, tree.insert docId)

def Tree.removeReported (tree : Tree) (docId : ℤ) : Bool × Tree := (true, tree.remove docId)

/-- The writer; `totalDocCount` is the one of the statistics that it shares with others. -/
structure DynamicPostingWriter where
  dF : UInt32
  lastDocId : ℤ
  currentTF : ℤ
  tree : Tree
  totalDocCount : ℤ

namespace DynamicPostingWriter

/-- A new writer; `TREE_MAX_SLOT_SHIFT` is 4. -/
def new (lastDocId totalDocCount : ℤ) : DynamicPostingWriter := ⟨0, lastDocId, 0, Tree.new 4, totalDocCount⟩

variable (writer : DynamicPostingWriter)

def endDocument (docId : ℤ) : DynamicPostingWriter :=
  { dF := writer.dF + 1
    currentTF := 0
    tree := (writer.tree.insertReported docId).2
    lastDocId := docId
    totalDocCount := writer.totalDocCount + 1 }

/-- `Update`; the flag of an operation says that it is `REMOVE` and not `ADD`. -/
def update (op : Operation) : DynamicPostingWriter :=
  if op.2 then
    let (changed, tree) := writer.tree.removeReported op.1
    if changed then { writer with tree, dF := writer.dF - 1, totalDocCount := writer.totalDocCount - 1 }
    else { writer with tree }
  else
    let (changed, tree) := writer.tree.insertReported op.1
    if changed then { writer with tree, dF := writer.dF + 1, totalDocCount := writer.totalDocCount + 1 }
    else { writer with tree }

/-- The writer after documents and then updates. -/
def run (docs : List ℤ) (updates : List Operation) : DynamicPostingWriter :=
  updates.foldl update (docs.foldl endDocument writer)

end DynamicPostingWriter

/-- The operations of a run: documents are added first. -/
def operations (docs : List ℤ) (updates : List Operation) : List Operation := docs.map (·, false) ++ updates

/-- The documents whose last operation was not a removal. -/
def live (ops : List Operation) : Finset ℤ := {d ∈ (ops.map Prod.fst).toFinset | lastOperation ops d = some false}

variable {ops : List Operation}

lemma mem_live {d : ℤ} : d ∈ live ops ↔ lastOperation ops d = some false := by
  rw [live, Finset.mem_filter, mem_toFinset, mem_map, and_iff_right_iff_imp]
  intro hlast
  obtain ⟨op, hfind, -⟩ := Option.map_eq_some_iff.mp hlast
  exact ⟨op, mem_reverse.mp (mem_of_find?_eq_some hfind), by simpa using find?_some hfind⟩

lemma live_append (ops : List Operation) (op : Operation) :
    live (ops ++ [op]) = if op.2 then (live ops).erase op.1 else insert op.1 (live ops) := by
  ext d
  rw [mem_live, lastOperation_append, update_apply]
  by_cases hd : d = op.1 <;> cases hop : op.2 <;> simp [hd, mem_live]

lemma card_live_le (hops : ∀ op ∈ ops, 0 ≤ op.1 ∧ op.1 < 2 ^ 31) : (live ops).card ≤ 2 ^ 31 := by
  have hsub : live ops ⊆ Finset.Ico 0 (2 ^ 31) := by
    intro d hd
    obtain ⟨op, hop, rfl⟩ := mem_map.mp (mem_toFinset.mp (Finset.mem_filter.mp hd).1)
    exact Finset.mem_Ico.mpr (hops op hop)
  have := Finset.card_le_card hsub
  rw [Int.card_Ico] at this
  omega

lemma live_docs (docs : List ℤ) : live (docs.map (·, false)) = docs.toFinset := by
  induction docs using reverseRecOn with
  | nil => rfl
  | append_singleton docs d ih =>
    rw [map_append, map_singleton, live_append, if_neg Bool.false_ne_true, ih]
    ext
    simp

namespace DynamicPostingWriter

lemma dF_update (writer : DynamicPostingWriter) (op : Operation) :
    (writer.update op).dF = if op.2 then writer.dF - 1 else writer.dF + 1 := by
  rw [update]
  split <;> rfl

/-- One update changes the count as it changes the list, or it does not change the list and the count is wrong. -/
lemma dF_update_eq_iff {writer : DynamicPostingWriter} {op : Operation}
    (hdF : writer.dF.toNat = (live ops).card) (hlt : (live ops).card + 1 < 2 ^ 32) :
    (writer.update op).dF.toNat = (live (ops ++ [op])).card ↔ (op.1 ∈ live ops ↔ op.2 = true) := by
  rw [dF_update, live_append]
  cases op.2 with
  | true =>
    rw [if_pos rfl, if_pos rfl, UInt32.toNat_sub, hdF, Finset.card_erase_eq_ite]
    by_cases hmem : op.1 ∈ live ops
    · have := Finset.card_pos.mpr ⟨_, hmem⟩
      simp only [hmem, if_true, iff_true]
      simp only [UInt32.reduceToNat]
      omega
    · simp only [hmem, if_false, iff_false, iff_true]
      simp only [UInt32.reduceToNat]
      omega
  | false =>
    rw [if_neg Bool.false_ne_true, if_neg Bool.false_ne_true, UInt32.toNat_add, hdF, Finset.card_insert_eq_ite]
    by_cases hmem : op.1 ∈ live ops
    · simp only [hmem, if_true, Bool.false_eq_true, iff_false, not_true, iff_false]
      simp only [UInt32.reduceToNat]
      omega
    simp only [hmem, if_false, Bool.false_eq_true, iff_true]
    simp only [UInt32.reduceToNat]
    omega

lemma toNat_dF_docs (docs : List ℤ) (writer : DynamicPostingWriter) :
    (docs.foldl endDocument writer).dF.toNat = (writer.dF.toNat + docs.length) % 2 ^ 32 := by
  induction docs generalizing writer with
  | nil => exact (Nat.mod_eq_of_lt writer.dF.toNat_lt).symm
  | cons d docs ih =>
    rw [foldl_cons, ih, length_cons]
    simp only [endDocument, UInt32.toNat_add, UInt32.reduceToNat]
    omega

section
variable {docs : List ℤ} {updates : List Operation} {lastDocId totalDocCount : ℤ}

lemma run_append (op : Operation) : (new lastDocId totalDocCount).run docs (updates ++ [op])
    = ((new lastDocId totalDocCount).run docs updates).update op := by
  rw [run, foldl_append]
  rfl

lemma operations_append (op : Operation) : operations docs (updates ++ [op]) = operations docs updates ++ [op] :=
  (append_assoc ..).symm

/-- Before the updates the count is right. -/
lemma dF_run_nil (hdocs : docs.Pairwise (· < ·)) (hrange : ∀ op ∈ operations docs [], 0 ≤ op.1 ∧ op.1 < 2 ^ 31) :
    ((new lastDocId totalDocCount).run docs []).dF.toNat = (live (operations docs [])).card := by
  have hle := card_live_le hrange
  rw [operations, append_nil, live_docs, toFinset_card_of_nodup hdocs.nodup] at hle ⊢
  rw [run, foldl_nil, toNat_dF_docs]
  simp only [new, UInt32.reduceToNat]
  omega

/-- **The document frequency counts the live documents** after each update of a run, and never wraps below zero, iff
each `ADD` is of a document that is not in the list, and each `REMOVE` of one that is. -/
theorem dF_eq_card_live_iff (hdocs : docs.Pairwise (· < ·))
    (hrange : ∀ op ∈ operations docs updates, 0 ≤ op.1 ∧ op.1 < 2 ^ 31) : (∀ done, done <+: updates →
        ((new lastDocId totalDocCount).run docs done).dF.toNat = (live (operations docs done)).card
          ∧ ∀ d, done ++ [(d, true)] <+: updates → ((new lastDocId totalDocCount).run docs done).dF ≠ 0)
      ↔ ∀ done op, done ++ [op] <+: updates → (op.1 ∈ live (operations docs done) ↔ op.2 = true) := by
  have hrange' : ∀ done, done <+: updates → ∀ op ∈ operations docs done, 0 ≤ op.1 ∧ op.1 < 2 ^ 31 :=
    fun done hdone op hop => hrange op (((prefix_append_right_inj _).mpr hdone).subset hop)
  have hstep : ∀ done op, done ++ [op] <+: updates →
      ((new lastDocId totalDocCount).run docs done).dF.toNat = (live (operations docs done)).card →
      (((new lastDocId totalDocCount).run docs (done ++ [op])).dF.toNat = (live (operations docs (done ++ [op]))).card
        ↔ (op.1 ∈ live (operations docs done) ↔ op.2 = true)) := by
    intro done op hdone heq
    have hle := card_live_le (hrange' done ((prefix_append _ _).trans hdone))
    rw [run_append, operations_append]
    exact dF_update_eq_iff heq (by omega)
  constructor
  · intro hcounts done op hdone
    exact (hstep done op hdone (hcounts done ((prefix_append _ _).trans hdone)).1).mp (hcounts _ hdone).1
  · intro heffective
    have hcount : ∀ done, done <+: updates →
        ((new lastDocId totalDocCount).run docs done).dF.toNat = (live (operations docs done)).card := by
      intro done
      induction done using reverseRecOn with
      | nil => exact fun h => dF_run_nil hdocs (hrange' [] h)
      | append_singleton done op ih =>
        intro hdone
        exact (hstep done op hdone (ih ((prefix_append _ _).trans hdone))).mpr (heffective done op hdone)
    refine fun done hdone => ⟨hcount done hdone, fun d hremove hzero => ?_⟩
    have hmem := (heffective done (d, true) hremove).mpr rfl
    have hpos := Finset.card_pos.mpr ⟨_, hmem⟩
    rw [← hcount done hdone, hzero] at hpos
    exact absurd hpos (by decide)

end

/-- Document 1 is added by an update again after it was removed. -/
theorem dF_eq_card_live_readded : ((new (-1) 0).run [0, 1] [(1, true), (1, false)]).dF.toNat
      = (live (operations [0, 1] [(1, true), (1, false)])).card :=
  ((dF_eq_card_live_iff (by decide) (by decide)).mpr (by
    intro done op hdone
    obtain ⟨rest, hrest⟩ := hdone
    match done, hrest with
    | [], h => cases h; decide
    | [_], h => cases h; decide
    | _ :: _ :: _, h => simp at h) _ prefix_rfl).1

/-- The only document is added again, and a document that is not in the list is removed twice: the count is 2 for one
document, and it wraps below zero. -/
theorem dF_counts_repeats : ((new (-1) 0).run [0] [(0, false)]).dF = 2 ∧ (live (operations [0] [(0, false)])).card = 1
      ∧ ((new (-1) 0).run [0] [(5, true), (5, true)]).dF = 4294967295 := by
  decide

end DynamicPostingWriter

end Havenask.DynamicSearchTree
