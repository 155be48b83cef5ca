import Mathlib

/-!
# Patch readers and the files they own

The readers of single-value and multi-value patches keep raw pointers to the open files in a heap, and wrap the top into
a `unique_ptr` while they read.  A file object is its address and its items, which also say which reads succeed.

* **`freedOnce_iff`**: every file is freed once and none used later exactly if no `Next` of a single-value reader fails
  on the way into a buffer: there two pointers own the top.
-/

namespace Havenask.Attribute

open List

/-- Readers of values of one size, and of values of any size. -/
inductive Kind
  | single (recordSize : ℕ)
  | multi

/-- An item, and whether its document id and its value (of a multi-value file) are read. -/
structure Item where
  docId : ℤ
  docIdRead : Bool
  valueRead : Bool

structure PatchFile where
  address : ℕ
  segmentId : ℤ
  cur : Item
  rest : List Item

/-- A reader, with the number of files it has created, the deletions and whether a deleted file was used. -/
structure Reader where
  heap : List PatchFile := []
  created : ℕ := 0
  freed : List ℕ := []
  usedAfterFree : Bool := false

section
variable (kind : Kind) (r : Reader)

/-- The comparators of the heaps, which order segments in opposite ways. -/
def notBelow (lft rht : PatchFile) : Bool :=
  lft.cur.docId < rht.cur.docId || lft.cur.docId == rht.cur.docId &&
    match kind with
    | .single _ => lft.segmentId ≤ rht.segmentId
    | .multi => rht.segmentId ≤ lft.segmentId

def Reader.push (file : PatchFile) : Reader :=
  { r with heap := r.heap.orderedInsert (fun lft rht => notBelow kind lft rht) file }

def Reader.free (address : ℕ) : Reader := { r with freed := address :: r.freed }

/-- The top is read, and the files are compared. -/
def Reader.use : Reader :=
  { r with usedAfterFree := r.usedAfterFree || r.heap.any fun file => file.address ∈ r.freed }

def addPatchFile (opened : Bool) (segmentId : ℤ) (items : List Item) : Reader :=
  let r' := { r with created := r.created + 1 }
  match opened, items with
  | true, cur :: rest =>
    if cur.docIdRead then r'.use.push kind ⟨r.created, segmentId, cur, rest⟩ else r'.free r.created
  | _, _ => r'.free r.created

/-- If the read fails the pointer of the caller frees the file. -/
def pushBackToHeap (file : PatchFile) : Bool × Reader :=
  match file.rest with
  | [] => (true, r.free file.address)
  | item :: rest =>
    if item.docIdRead then (true, r.push kind { file with cur := item, rest }) else (false, r.free file.address)

/-- A file off the heap gives (or skips) its value and goes back; a single-value file has the value already. -/
def readTop (file : PatchFile) : Bool × Reader :=
  match kind, file.cur.valueRead with
  | .multi, false => (false, r.free file.address)
  | _, _ => pushBackToHeap kind r file

def Reader.itemCount : ℕ := (r.heap.map fun file => file.rest.length + 1).sum

lemma itemCount_push (file : PatchFile) : (r.push kind file).itemCount = file.rest.length + 1 + r.itemCount :=
  ((perm_orderedInsert _ file r.heap).map _).sum_eq.trans sum_cons

lemma itemCount_readTop (file : PatchFile) :
    (readTop kind r file).2.itemCount ≤ file.rest.length + r.itemCount := by
  unfold readTop
  split
  · exact Nat.le_add_left _ _
  rw [pushBackToHeap]
  split
  · exact Nat.le_add_left _ _
  rename_i hrest
  split
  · rw [itemCount_push, hrest, length_cons]
  · exact Nat.le_add_left _ _

/-- The loops of the readers, over the documents with `p`. -/
def popWhile (p : ℤ → Bool) (r : Reader) : Bool × Reader :=
  match _hheap : r.heap with
  | [] => (true, r)
  | file :: heap =>
    if p file.cur.docId then
      let result := readTop kind { r.use with heap } file
      if result.1 then popWhile p result.2 else result
    else (true, r.use)
termination_by r.itemCount
decreasing_by
  refine (itemCount_readTop kind { r.use with heap } file).trans_lt ?_
  simp only [Reader.itemCount, _hheap, map_cons, sum_cons]
  omega

/-- If the document is not found the second loop ends at once. -/
def innerReadPatch (docId : ℤ) : Bool × Reader :=
  let result := popWhile kind (· < docId) r
  if result.1 then popWhile kind (· = docId) result.2 else result

/-- `Next` into a value. -/
def nextValue : Bool × Reader :=
  match r.heap with
  | [] => (true, r)
  | file :: _ => innerReadPatch kind r file.cur.docId

/-- `Next` into a buffer: after a failure the pointer to the top frees it too. -/
def nextBuffer : Reader :=
  match r.heap with
  | [] => r
  | file :: _ =>
    let result := innerReadPatch kind r file.cur.docId
    if result.1 then result.2 else result.2.free file.address

def readPatch (docId : ℤ) : Reader :=
  match r.heap with
  | [] => r
  | file :: _ => if docId < file.cur.docId then r.use else (innerReadPatch kind r docId).2

def multiNext : Reader :=
  match r.heap with
  | [] => r
  | file :: heap =>
    let result := readTop kind { r.use with heap } file
    if result.1 then (popWhile kind (· = file.cur.docId) result.2).2 else result.2

def multiSeek (docId : ℤ) : Reader :=
  match popWhile kind (· < docId) r with
  | (false, r') => r'
  | (true, r') => if r'.heap.head?.any (·.cur.docId = docId) then multiNext kind r' else r'.use

/-- The calls of a patch reader. -/
inductive Call
  | addPatchFile (opened : Bool) (segmentId : ℤ) (items : List Item)
  | next (bufferLen : ℕ)
  | nextValue
  | seek (docId : ℤ) (maxLen : ℕ)

/-- A call; a multi-value reader has no `Next` into a value. -/
def step : Call → Reader
  | .addPatchFile opened segmentId items => addPatchFile kind r opened segmentId items
  | .next bufferLen =>
    match kind with
    | .single recordSize => if bufferLen < recordSize then r else nextBuffer kind r
    | .multi => multiNext kind r
  | .nextValue =>
    match kind with
    | .single _ => (nextValue kind r).2
    | .multi => r
  | .seek docId maxLen =>
    match kind with
    | .single recordSize => if maxLen < recordSize then r else readPatch kind r docId
    | .multi => multiSeek kind r docId

/-- The destructor deletes what is in the heap. -/
def destroy : Reader :=
  { r.use with heap := [], freed := (r.heap.map PatchFile.address).reverse ++ r.freed }

/-- Every file created is freed once, and none is used later. -/
def FreedOnce : Prop := r.freed ~ range r.created ∧ r.usedAfterFree = false

/-- A `Next` into a buffer of a single-value reader meets a failing read. -/
def NextFails : Call → Prop
  | .next bufferLen =>
    match kind with
    | .single recordSize => recordSize ≤ bufferLen ∧ (nextValue kind r).1 = false
    | .multi => False
  | _ => False

def ReadsThrough : List Call → Reader → Prop
  | [], _ => True
  | call :: calls, r => ¬NextFails kind r call ∧ ReadsThrough calls (step kind r call)

end

/-! ## The files in the heap and those freed -/

def Reader.files (r : Reader) : List ℕ := r.heap.map PatchFile.address ++ r.freed

/-- Each file created is in the heap or freed; those in `extra` were freed once more. -/
structure Owned (extra : List ℕ) (r : Reader) : Prop where
  files : r.files ~ extra ++ range r.created
  sound : extra = [] → r.usedAfterFree = false

variable {kind : Kind} {r r' : Reader} {file : PatchFile} {heap : List PatchFile} {extra : List ℕ}

lemma Owned.use (h : Owned extra r) : Owned extra r.use where
  files := h.files
  sound hnil := by
    have hfiles := h.files
    rw [hnil] at hfiles
    have hdisjoint := disjoint_of_nodup_append (hfiles.nodup_iff.mpr nodup_range)
    rw [Reader.use, h.sound hnil, Bool.false_or, any_eq_false]
    exact fun file hfile hfreed => hdisjoint (mem_map_of_mem hfile) (of_decide_eq_true hfreed)

lemma files_push (r : Reader) (file : PatchFile) : (r.push kind file).files ~ file.address :: r.files :=
  ((perm_orderedInsert _ file r.heap).map _).append_right _

lemma Owned.add (h : Owned extra r) (hfiles : r'.files ~ r.created :: r.files) (hcreated : r'.created = r.created + 1)
    (hused : r'.usedAfterFree = r.usedAfterFree) : Owned extra r' where
  files := by
    rw [hcreated, range_succ, ← append_assoc]
    exact hfiles.trans ((h.files.cons _).trans (perm_append_singleton _ _).symm)
  sound hnil := hused.trans (h.sound hnil)

section
variable (kind) (h : Owned extra r)
include h

lemma owned_addPatchFile (opened : Bool) (segmentId : ℤ) (items : List Item) :
    Owned extra (addPatchFile kind r opened segmentId items) := by
  unfold addPatchFile
  dsimp only
  split
  · split
    · exact h.use.add (files_push _ _) rfl rfl
    · exact h.add perm_middle rfl rfl
  · exact h.add perm_middle rfl rfl

lemma owned_readTop (hheap : r.heap = file :: heap) : Owned extra (readTop kind { r.use with heap } file).2 := by
  have hfiles : file.address :: (heap.map PatchFile.address ++ r.freed) ~ extra ++ range r.created := by
    have hfiles := h.files
    rwa [Reader.files, hheap] at hfiles
  have hfree : Owned extra ({ r.use with heap }.free file.address) := ⟨perm_middle.trans hfiles, h.use.sound⟩
  unfold readTop
  split
  · exact hfree
  rw [pushBackToHeap]
  split
  · exact hfree
  split
  · exact ⟨(files_push _ _).trans hfiles, h.use.sound⟩
  · exact hfree

lemma owned_popWhile (p : ℤ → Bool) : Owned extra (popWhile kind p r).2 := by
  fun_induction popWhile kind p r with
  | case1 r => exact h
  | case2 r file heap hheap hp result hok ih => exact ih (owned_readTop kind h hheap)
  | case3 r file heap hheap => exact owned_readTop kind h hheap
  | case4 r => exact h.use

lemma owned_innerReadPatch (docId : ℤ) : Owned extra (innerReadPatch kind r docId).2 := by
  have hpop := owned_popWhile kind h (· < docId)
  unfold innerReadPatch
  dsimp only
  split
  · exact owned_popWhile kind hpop _
  · exact hpop

lemma owned_nextValue : Owned extra (nextValue kind r).2 := by
  unfold nextValue
  split
  · exact h
  · exact owned_innerReadPatch kind h _

/-- After a failure the top is freed once too often. -/
lemma owned_nextBuffer :
    ∃ extra', Owned extra' (nextBuffer kind r) ∧ (extra' = [] ↔ extra = [] ∧ (nextValue kind r).1 = true) := by
  rw [nextBuffer, nextValue]
  cases r.heap with
  | nil => exact ⟨extra, h, (and_iff_left rfl).symm⟩
  | cons file heap =>
    have hread := owned_innerReadPatch kind h file.cur.docId
    dsimp only
    split
    · exact ⟨extra, hread, (and_iff_left ‹_›).symm⟩
    · exact ⟨file.address :: extra, ⟨perm_middle.trans (hread.files.cons _), by simp⟩, by simp_all⟩

lemma owned_readPatch (docId : ℤ) : Owned extra (readPatch kind r docId) := by
  unfold readPatch
  split
  · exact h
  split
  · exact h.use
  · exact owned_innerReadPatch kind h docId

lemma owned_multiNext : Owned extra (multiNext kind r) := by
  unfold multiNext
  split
  · exact h
  have hread := owned_readTop kind h ‹_›
  dsimp only
  split
  · exact owned_popWhile kind hread _
  · exact hread

lemma owned_multiSeek (docId : ℤ) : Owned extra (multiSeek kind r docId) := by
  have hpop := owned_popWhile kind h (· < docId)
  unfold multiSeek
  split <;> rename_i heq <;> rw [heq] at hpop
  · exact hpop
  split
  · exact owned_multiNext kind hpop
  · exact hpop.use

lemma owned_step (call : Call) :
    ∃ extra', Owned extra' (step kind r call) ∧ (extra' = [] ↔ extra = [] ∧ ¬NextFails kind r call) := by
  have hkeep (r') (h' : Owned extra r') : ∃ extra', Owned extra' r' ∧ (extra' = [] ↔ extra = [] ∧ ¬False) :=
    ⟨extra, h', (and_iff_left not_false).symm⟩
  cases call with
  | addPatchFile opened segmentId items => exact hkeep _ (owned_addPatchFile kind h opened segmentId items)
  | next bufferLen =>
    cases kind with
    | single recordSize =>
      rw [step, NextFails]
      split
      · rename_i hlt
        simpa [hlt.not_ge] using hkeep r h
      · rename_i hge
        simpa [not_lt.mp hge] using owned_nextBuffer (.single recordSize) h
    | multi => exact hkeep _ (owned_multiNext _ h)
  | nextValue =>
    cases kind with
    | single recordSize => exact hkeep _ (owned_nextValue _ h)
    | multi => exact hkeep r h
  | seek docId maxLen =>
    cases kind with
    | single recordSize =>
      refine hkeep _ ?_
      rw [step]
      split
      · exact h
      · exact owned_readPatch _ h docId
    | multi => exact hkeep _ (owned_multiSeek _ h docId)

lemma owned_run (calls : List Call) :
    ∃ extra', Owned extra' (calls.foldl (step kind) r) ∧ (extra' = [] ↔ extra = [] ∧ ReadsThrough kind calls r) := by
  induction calls generalizing extra r with
  | nil => exact ⟨extra, h, (and_iff_left trivial).symm⟩
  | cons call calls ih =>
    obtain ⟨extra', h', hiff⟩ := owned_step kind h call
    obtain ⟨extra'', h'', hiff'⟩ := ih h'
    exact ⟨extra'', h'', by rw [hiff', hiff, ReadsThrough, and_assoc]⟩

end

/-- **Every patch file is freed once, and not used later**, exactly if each `Next` into a buffer of a single-value reader
reads through. -/
theorem freedOnce_iff (kind : Kind) (calls : List Call) :
    FreedOnce (destroy (calls.foldl (step kind) {})) ↔ ReadsThrough kind calls {} := by
  have hinit : Owned [] {} := ⟨.refl _, fun _ => rfl⟩
  obtain ⟨extra, h, hiff⟩ := owned_run kind hinit calls
  have hfreed := ((reverse_perm _).append_right _).trans h.files
  have hclean : extra = [] ↔ ReadsThrough kind calls {} := hiff.trans (and_iff_right rfl)
  rw [← hclean]
  constructor
  · intro hfreedOnce
    have hlength := hfreed.length_eq.symm.trans hfreedOnce.1.length_eq
    rw [length_append] at hlength
    exact length_eq_zero_iff.mp (Nat.add_eq_right.mp hlength)
  · intro hnil
    refine ⟨?_, h.use.sound hnil⟩
    rwa [hnil] at hfreed

/-- The second item of the file cannot be read: both pointers free it. -/
theorem next_frees_twice :
    (destroy ([.addPatchFile true 0 [⟨5, true, true⟩, ⟨6, false, true⟩], .next 8].foldl (step (.single 8)) {})).freed
      = [0, 0] := by
  decide +kernel

end Havenask.Attribute
