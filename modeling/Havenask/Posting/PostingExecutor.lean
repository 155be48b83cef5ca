import Mathlib.Data.List.Basic
import Mathlib.Tactic.Linarith

/-!
# Posting executors

`index/inverted_index/PostingExecutor.h` and its subclasses.  An executor enumerates the documents of
a query in order of their ids: `Seek(id)` is meant to answer the first document from `id` on.  A leaf
does so for a fixed set of documents, an `AndPostingExecutor` for what all its children have, an
`OrPostingExecutor` for what any of them has.

* **`Seek`** keeps its last answer in `_current` and repeats it while it is not behind the id asked
  for; otherwise it calls the `DoSeek` of the subclass.
* **`AndPostingExecutor::DoSeek`** asks its children in turn for the current candidate and starts again
  with the first child whenever one answers another document.
* **`OrPostingExecutor::DoSeek`** has the last answer of each child in a heap, and asks those children
  again whose answer is not past the current document.

Executors are values here, and seeking returns the executor afterwards.  `fuel` bounds the nesting
and the rounds of each loop; `none` is a run that exceeds it.
-/

namespace Havenask

namespace PostingExecutor

/-- `INVALID_DOCID`. -/
def invalidDocId : ℤ := -1

/-- `END_DOCID`, the greatest `docid_t`. -/
def endDocId : ℤ := 2 ^ 31 - 1

/-- `PostingExecutorEntry`: the last answer of the child `entryId`. -/
structure Entry where
  docId : ℤ
  entryId : ℕ
  deriving DecidableEq

/-- An executor with the state of its object.  `overtaken` of an or executor is not in the source: it
records that a `DoSeek` was asked for an id past a document that a child already had in the heap. -/
inductive Executor
  | leaf (docs : List ℤ) (current : ℤ)
  | and (children : List Executor) (current : ℤ)
  | or (children : List Executor) (entryHeap : List Entry) (currentDocId : ℤ) (overtaken : Bool)
      (current : ℤ)

def Executor.current : Executor → ℤ
  | .leaf _ current => current
  | .and _ current => current
  | .or _ _ _ _ current => current

/-! ## The heap -/

/-- `EntryItemComparator`, read from its right argument: which of two entries comes out first. -/
def Entry.before (lhs rhs : Entry) : Bool :=
  if lhs.docId ≠ rhs.docId then decide (lhs.docId < rhs.docId) else decide (lhs.entryId < rhs.entryId)

/-- `_entryHeap.top()`. -/
def top : List Entry → Option Entry
  | [] => none
  | entry :: entryHeap =>
    match top entryHeap with
    | none => some entry
    | some best => some (if best.before entry then best else entry)

/-! ## Seeking -/

/-- What a leaf's `DoSeek` answers: the least document from `id` on. -/
def leafSeek (docs : List ℤ) (id : ℤ) : ℤ := docs.foldl (fun best d => if id ≤ d then min best d else best) endDocId

/-- The loop of `AndPostingExecutor::DoSeek`. -/
def andLoop (seek : Executor → ℤ → Option (Executor × ℤ)) : ℕ → List Executor → ℕ → ℤ → Option (List Executor × ℤ)
  | 0, _, _, _ => none
  | fuel + 1, children, currentIter, current =>
    match children[currentIter]? with
    | none => none
    | some child =>
      match seek child current with
      | none => none
      | some (child, tmpId) =>
        let children := children.set currentIter child
        let currentIter := if tmpId ≠ current then 0 else currentIter + 1
        if endDocId ≠ tmpId ∧ currentIter ≠ children.length then
          andLoop seek fuel children currentIter tmpId
        else some (children, tmpId)

/-- The loop of `OrPostingExecutor::DoSeek`. -/
def orLoop (seek : Executor → ℤ → Option (Executor × ℤ)) (currentDocId id : ℤ) :
    ℕ → List Executor → List Entry → Option (List Executor × List Entry × ℤ)
  | 0, _, _ => none
  | fuel + 1, children, entryHeap =>
    match top entryHeap with
    | none => some (children, entryHeap, currentDocId)
    | some entry =>
      if entry.docId ≤ currentDocId then
        match children[entry.entryId]? with
        | none => none
        | some child =>
          match seek child id with
          | none => none
          | some (child, docId) =>
            orLoop seek currentDocId id fuel (children.set entry.entryId child)
              ({ entry with docId } :: entryHeap.erase entry)
      else some (children, entryHeap, entry.docId)

/-- A child is ahead of the current document, but not of the id asked for. -/
def overtakes (entryHeap : List Entry) (currentDocId id : ℤ) : Bool :=
  entryHeap.any fun entry => decide (currentDocId < entry.docId ∧ entry.docId < id)

/-- `PostingExecutor::Seek` with the `DoSeek` of each subclass. -/
def seek : ℕ → Executor → ℤ → Option (Executor × ℤ)
  | 0, _, _ => none
  | fuel + 1, executor, id =>
    if executor.current < id then
      match executor with
      | .leaf docs _ => some (.leaf docs (leafSeek docs id), leafSeek docs id)
      | .and children _ =>
        match andLoop (seek fuel) fuel children 0 id with
        | none => none
        | some (children, docId) => some (.and children docId, docId)
      | .or children entryHeap currentDocId overtaken _ =>
        if currentDocId = endDocId then
          some (.or children entryHeap currentDocId overtaken endDocId, endDocId)
        else if currentDocId < id then
          match orLoop (seek fuel) currentDocId id fuel children entryHeap with
          | none => none
          | some (children, entryHeap', docId) =>
            some (.or children entryHeap' docId
              (overtaken || overtakes entryHeap currentDocId id) docId, docId)
        else some (.or children entryHeap currentDocId overtaken currentDocId, currentDocId)
    else some (executor, executor.current)

/-! ## Construction -/

/-- A query, before its executors are made. -/
inductive Tree
  | leaf (docs : List ℤ)
  | and (children : List Tree)
  | or (children : List Tree)

/-- The loop of the constructor of `OrPostingExecutor`, over the children from the `i`th on. -/
def openChildren (fuel : ℕ) : ℕ → List Executor → Option (List Executor × List Entry × ℤ)
  | _, [] => some ([], [], endDocId)
  | i, child :: children => do
      let (child, minDocId) ← seek fuel child 0
      let (children, entryHeap, currentDocId) ← openChildren fuel (i + 1) children
      some (child :: children, ⟨minDocId, i⟩ :: entryHeap, min minDocId currentDocId)

/-- The executors of a query.  `sortByDF` is the `sort` of the constructor of `AndPostingExecutor`,
by the document frequencies of the children. -/
def build (sortByDF : List Executor → List Executor) : ℕ → Tree → Option Executor
  | 0, _ => none
  | _ + 1, .leaf docs => some (.leaf docs invalidDocId)
  | fuel + 1, .and children => do
      let children ← children.mapM (build sortByDF fuel)
      some (.and (sortByDF children) invalidDocId)
  | fuel + 1, .or children => do
      let children ← children.mapM (build sortByDF fuel)
      let (children, entryHeap, currentDocId) ← openChildren fuel 0 children
      some (.or children entryHeap currentDocId false invalidDocId)

/-- The answers to a sequence of `Seek` calls. -/
def run (fuel : ℕ) : Executor → List ℤ → Option (List ℤ × Executor)
  | executor, [] => some ([], executor)
  | executor, id :: ids => do
      let (executor, docId) ← seek fuel executor id
      let (docIds, executor) ← run fuel executor ids
      some (docId :: docIds, executor)

/-! ## What an executor is for -/

/-- The documents of a query: those of a leaf, those all children have, those any child has. -/
inductive Tree.Matches : Tree → ℤ → Prop
  | leaf {docs : List ℤ} {d : ℤ} (h : d ∈ docs) : Matches (.leaf docs) d
  | and {children : List Tree} {d : ℤ} (h : ∀ t ∈ children, Matches t d) : Matches (.and children) d
  | or {children : List Tree} {t : Tree} {d : ℤ} (ht : t ∈ children) (h : Matches t d) :
      Matches (.or children) d

/-- Leaves have document ids, and there is a child under each and. -/
inductive Tree.WellFormed : Tree → Prop
  | leaf {docs : List ℤ} (h : ∀ d ∈ docs, 0 ≤ d ∧ d < endDocId) : WellFormed (.leaf docs)
  | and {children : List Tree} (hne : children ≠ []) (h : ∀ t ∈ children, WellFormed t) :
      WellFormed (.and children)
  | or {children : List Tree} (h : ∀ t ∈ children, WellFormed t) : WellFormed (.or children)

/-- The first document from `id` on, or `END_DOCID`. -/
def IsNext (S : ℤ → Prop) (id r : ℤ) : Prop :=
  (S r ∧ id ≤ r ∧ ∀ d, S d → id ≤ d → r ≤ d) ∨ (r = endDocId ∧ ∀ d, S d → d < id)

/-- Some or executor in the tree has been overtaken. -/
inductive Overtaken : Executor → Prop
  | here {children : List Executor} {entryHeap : List Entry} {currentDocId current : ℤ} :
      Overtaken (.or children entryHeap currentDocId true current)
  | and {children : List Executor} {current : ℤ} {c : Executor} (hc : c ∈ children)
      (h : Overtaken c) : Overtaken (.and children current)
  | or {children : List Executor} {entryHeap : List Entry} {currentDocId current : ℤ}
      {overtaken : Bool} {c : Executor} (hc : c ∈ children) (h : Overtaken c) :
      Overtaken (.or children entryHeap currentDocId overtaken current)

end PostingExecutor

end Havenask
