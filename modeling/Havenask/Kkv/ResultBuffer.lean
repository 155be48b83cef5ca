import Mathlib

/-!
# Iterating over the result of a KKV lookup

`index/kkv/common/KKVResultBuffer.h`, `search/BufferedKKVIteratorImpl.h` and `search/KKVIterator.h`: a lookup
hands its documents to a buffer, and the iterator moves a cursor over those that are not flagged as duplicates.
Each function also gives the indices at which it reads the buffer.

* **`use_spec`**: a caller sees the documents without the flag, in order.  The reads are inside the buffer
  exactly as long as there are more of them than calls of `MoveToNext`: the call that leaves the last one reads the
  flag of the element behind the buffer.
-/

namespace Havenask.Kkv

open List

structure KKVDoc where
  skey : UInt64
  timestamp : UInt32
  value : List UInt8
  skeyDeleted : Bool
  duplicatedKey : Bool
  inCache : Bool
deriving DecidableEq

/-! ## The buffer -/

structure KKVResultBuffer where
  cursor : ℕ
  buffer : List KKVDoc
  resultLimit : ℕ

namespace KKVResultBuffer

variable (result : KKVResultBuffer)

def isValid : Bool := decide (result.cursor < result.buffer.length)

def reachLimit : Bool := decide (result.resultLimit ≤ 0)

def clear : KKVResultBuffer := { result with cursor := 0, buffer := [] }

/-- The document that `GetCurrentSkey` and the others read. -/
def current : List KKVDoc := (result.buffer[result.cursor]?).toList

/-- The loop of `MoveToNext` with the elements behind the cursor: where it stops, and the indices read. -/
def moveLoop : List KKVDoc → ℕ → ℕ × List ℕ
  -- no element is left: the flag is read all the same, and either value of it ends the loop
  | [], cursor => (cursor + 1, [cursor + 1])
  | doc :: rest, cursor =>
    if !doc.duplicatedKey then (cursor + 1, [cursor + 1])
    else ((moveLoop rest (cursor + 1)).1, (cursor + 1) :: (moveLoop rest (cursor + 1)).2)

def moveToNext : KKVResultBuffer × List ℕ :=
  let moved := moveLoop (result.buffer.drop (result.cursor + 1)) result.cursor
  ({ result with cursor := moved.1 }, moved.2)

end KKVResultBuffer

/-! ## The iterator -/

structure BufferedKKVIteratorImpl where
  docs : List KKVDoc
  isValid : Bool

def BufferedKKVIteratorImpl.batchGet (impl : BufferedKKVIteratorImpl) (result : KKVResultBuffer) :
    BufferedKKVIteratorImpl × KKVResultBuffer × List ℕ :=
  let firstDuplicated := (impl.docs[0]?).any KKVDoc.duplicatedKey
  let swapped := { result with buffer := impl.docs }
  let moved := if firstDuplicated then swapped.moveToNext else (swapped, [])
  (⟨result.buffer, false⟩, moved.1, 0 :: moved.2)

structure KKVIterator where
  iterator : BufferedKKVIteratorImpl
  resultBuffer : KKVResultBuffer
  isValid : Bool

namespace KKVIterator

/-- The constructor, over the documents of a lookup. -/
def create (docs : List KKVDoc) (skeyCountLimit : ℕ) : KKVIterator × List ℕ :=
  let impl : BufferedKKVIteratorImpl := ⟨docs, decide (0 < docs.length)⟩
  let result : KKVResultBuffer := ⟨0, [], skeyCountLimit⟩
  if impl.isValid then
    let got := impl.batchGet result
    (⟨got.1, got.2.1, got.2.1.isValid⟩, got.2.2)
  else (⟨impl, result, result.isValid⟩, [])

/-- `KKVIterator::MoveToNext`. -/
def moveToNext (it : KKVIterator) : KKVIterator × List ℕ :=
  let moved := it.resultBuffer.moveToNext
  if moved.1.isValid || moved.1.reachLimit || !it.iterator.isValid then
    ({ it with resultBuffer := moved.1, isValid := moved.1.isValid }, moved.2)
  else
    let got := it.iterator.batchGet moved.1.clear
    (⟨got.1, got.2.1, got.2.1.isValid⟩, moved.2 ++ got.2.2)

end KKVIterator

/-- An iterator in use: the indices read so far and the documents seen. -/
structure Usage where
  it : KKVIterator
  reads : List ℕ
  visited : List KKVDoc

/-- What a caller sees who calls `MoveToNext` a number of times; no call is made when `IsValid` is false. -/
def use (docs : List KKVDoc) (skeyCountLimit : ℕ) : ℕ → Option Usage
  | 0 =>
    let made := KKVIterator.create docs skeyCountLimit
    some ⟨made.1, made.2, made.1.resultBuffer.current⟩
  | k + 1 => (use docs skeyCountLimit k).bind fun usage =>
    if usage.it.isValid then
      let moved := usage.it.moveToNext
      some ⟨moved.1, usage.reads ++ moved.2, usage.visited ++ moved.1.resultBuffer.current⟩
    else none

/-! ## What a caller sees -/

/-- The documents that are not flagged. -/
def unflagged (docs : List KKVDoc) : List KKVDoc := docs.filter fun doc => !doc.duplicatedKey

/-- Where the loop stops: at the next document without the flag, or at the end, which it then has read. -/
structure StopsAt (docs : List KKVDoc) (rest : List KKVDoc) (moved : ℕ × List ℕ) : Prop where
  le : moved.1 ≤ docs.length
  next : unflagged rest = (docs[moved.1]?).toList ++ unflagged (docs.drop (moved.1 + 1))
  reads : (∀ index ∈ moved.2, index < docs.length) ↔ moved.1 < docs.length

lemma stopsAt_moveLoop {docs rest : List KKVDoc} : ∀ {cursor : ℕ}, docs.drop (cursor + 1) = rest →
    cursor < docs.length → StopsAt docs rest (KKVResultBuffer.moveLoop rest cursor) := by
  induction rest with
  | nil =>
    intro cursor hdrop hlt
    have hend : docs.length = cursor + 1 := by
      have hle := drop_eq_nil_iff.mp hdrop
      omega
    refine ⟨hend.ge, ?_, by simp [KKVResultBuffer.moveLoop]⟩
    simp [KKVResultBuffer.moveLoop, ← hend, unflagged, drop_eq_nil_of_le (Nat.le_succ _)]
  | cons doc rest ih =>
    intro cursor hdrop hlt
    have hnext : cursor + 1 < docs.length := by
      by_contra hge
      rw [drop_eq_nil_of_le (by omega)] at hdrop
      cases hdrop
    rw [drop_eq_getElem_cons hnext] at hdrop
    obtain ⟨rfl, htail⟩ := cons.inj hdrop
    rw [KKVResultBuffer.moveLoop]
    cases hflag : docs[cursor + 1].duplicatedKey with
    | false =>
      refine ⟨hnext.le, ?_, by simp⟩
      simp [hflag, htail, getElem?_eq_getElem hnext, unflagged]
    | true =>
      obtain ⟨hle, hstop, hreads⟩ := ih htail hnext
      refine ⟨hle, by simpa [hflag, unflagged] using hstop, ?_⟩
      simpa [hnext] using hreads

/-- After a number of calls: the documents seen and those to come are the unflagged ones, and a read was outside
exactly if the cursor has left the buffer. -/
structure Walked (docs : List KKVDoc) (k : ℕ) (usage : Usage) : Prop where
  consumed : usage.it.iterator.isValid = false
  buffer : usage.it.resultBuffer.buffer = docs
  valid : usage.it.isValid = decide (usage.it.resultBuffer.cursor < docs.length)
  le : usage.it.resultBuffer.cursor ≤ docs.length
  visited : usage.visited ++ unflagged (docs.drop (usage.it.resultBuffer.cursor + 1)) = unflagged docs
  calls : usage.visited.length = k + if usage.it.resultBuffer.cursor < docs.length then 1 else 0
  reads : (∀ index ∈ usage.reads, index < docs.length) ↔ usage.it.resultBuffer.cursor < docs.length

section
variable {docs : List KKVDoc} {skeyCountLimit : ℕ}

lemma length_toList_getElem? (i : ℕ) : (docs[i]?).toList.length = if i < docs.length then 1 else 0 := by
  split
  · rename_i hlt
    rw [getElem?_eq_getElem hlt]
    rfl
  rename_i hge
  rw [getElem?_eq_none (not_lt.mp hge)]
  rfl

lemma walked_create (hne : docs ≠ []) {usage : Usage} (h : use docs skeyCountLimit 0 = some usage) :
    Walked docs 0 usage := by
  obtain ⟨first, rest, rfl⟩ := exists_cons_of_ne_nil hne
  cases h
  cases hflag : first.duplicatedKey with
  | false =>
    constructor <;>
      simp [KKVIterator.create, BufferedKKVIteratorImpl.batchGet, KKVResultBuffer.isValid,
        KKVResultBuffer.current, unflagged, hflag]
  | true =>
    obtain ⟨hle, hnext, hreads⟩ := @stopsAt_moveLoop (first :: rest) rest 0 rfl (by simp)
    rw [drop_succ_cons] at hnext
    constructor
    all_goals simp only [KKVIterator.create, BufferedKKVIteratorImpl.batchGet, KKVResultBuffer.isValid,
      KKVResultBuffer.current, KKVResultBuffer.moveToNext, length_cons, Nat.zero_lt_succ, decide_true, if_true,
      getElem?_cons_zero, Option.any_some, hflag, drop_succ_cons, drop_zero]
    · exact hle
    · rw [← hnext]
      simp [unflagged, hflag]
    · rw [length_toList_getElem?, Nat.zero_add]
      rfl
    · rw [forall_mem_cons]
      exact (and_iff_right (Nat.succ_pos _)).trans hreads

lemma Walked.moveToNext {k : ℕ} {usage : Usage} (h : Walked docs k usage) (hvalid : usage.it.isValid) :
    Walked docs (k + 1) ⟨usage.it.moveToNext.1, usage.reads ++ usage.it.moveToNext.2,
      usage.visited ++ usage.it.moveToNext.1.resultBuffer.current⟩ := by
  have hlt := of_decide_eq_true (h.valid ▸ hvalid)
  obtain ⟨hle, hnext, hreads⟩ := stopsAt_moveLoop rfl hlt
  have hmove : usage.it.moveToNext
      = (⟨usage.it.iterator, usage.it.resultBuffer.moveToNext.1, usage.it.resultBuffer.moveToNext.1.isValid⟩,
        usage.it.resultBuffer.moveToNext.2) := by
    rw [KKVIterator.moveToNext]
    simp [h.consumed]
  rw [hmove]
  constructor
  all_goals simp only [KKVResultBuffer.moveToNext, KKVResultBuffer.isValid, KKVResultBuffer.current, h.buffer]
  · exact h.consumed
  · exact hle
  · rw [append_assoc, ← hnext, h.visited]
  · rw [length_append, length_toList_getElem?, h.calls, if_pos hlt]
  · rw [forall_mem_append]
    exact (and_iff_right (h.reads.mpr hlt)).trans hreads

lemma walked_use (hne : docs ≠ []) : ∀ {k : ℕ} {usage : Usage}, use docs skeyCountLimit k = some usage →
    Walked docs k usage
  | 0, usage, h => walked_create hne h
  | k + 1, usage, h => by
    obtain ⟨before, hbefore, hstep⟩ := Option.bind_eq_some_iff.mp h
    split at hstep
    · rename_i hvalid
      cases hstep
      exact (walked_use hne hbefore).moveToNext hvalid
    · exact absurd hstep nofun

/-- **A caller sees the unflagged documents in order, and the reads stay in the buffer** exactly as long as there
are more such documents than calls. -/
theorem use_spec (hne : docs ≠ []) {k : ℕ} {usage : Usage} (h : use docs skeyCountLimit k = some usage) :
    usage.visited = (unflagged docs).take (k + 1)
      ∧ ((∀ index ∈ usage.reads, index < docs.length) ↔ k < (unflagged docs).length) := by
  have hw := walked_use hne h
  have hcalls := hw.calls
  have hlen := congrArg length hw.visited
  rw [length_append] at hlen
  rw [hw.reads]
  by_cases hlt : usage.it.resultBuffer.cursor < docs.length
  · rw [if_pos hlt] at hcalls
    refine ⟨?_, iff_of_true hlt (by omega)⟩
    rw [← hw.visited, ← hcalls, take_left]
  rw [if_neg hlt] at hcalls
  have hvisited := hw.visited
  rw [drop_eq_nil_of_le (by omega)] at hvisited
  rw [unflagged, filter_nil, append_nil] at hvisited
  rw [← hvisited]
  exact ⟨(take_of_length_le (by omega)).symm, iff_of_false hlt (by omega)⟩

end

def flagged (skey : UInt64) (duplicatedKey : Bool) : KKVDoc := ⟨skey, 0, [], false, duplicatedKey, false⟩

/-- One document, and one call of `MoveToNext`: the flag of a second document is read. -/
theorem use_reads_behind :
    (use [flagged 1 false] 10 1).map (fun usage => (usage.reads, usage.visited))
      = some ([0, 1], [flagged 1 false]) := by
  decide

/-- Three documents, the second a duplicate. -/
def threeDocs : List KKVDoc := [flagged 1 false, flagged 1 true, flagged 2 false]

/-- One call goes over the duplicate. -/
theorem use_spec_three : (use threeDocs 10 1).isSome
    ∧ (use threeDocs 10 1).all fun usage => decide (∀ index ∈ usage.reads, index < threeDocs.length) := by
  refine ⟨by decide, ?_⟩
  rw [Option.all_eq_true]
  exact fun usage h => decide_eq_true ((use_spec (by decide) h).2.mpr (by decide))

end Havenask.Kkv
