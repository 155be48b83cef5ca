import Havenask.Lib.SeekIterator

/-!
# The composite posting iterator

`inverted_index/CompositePostingIterator.h`: the documents of the built index, from a buffered iterator,
merged with the entries of the dynamic index, each of which adds a document or deletes it.

Both inner iterators are kept one answer ahead, in `bufferedDocId` and `dynamicDocId`; `DOCID_EOF` stands
for the end, and `INVALID_DOCID` for an iterator that has not been asked yet.  The inner iterators are
parameters, with what they enumerate as an assumption.

* **`Cursor`** says that such a field stands at a *position*: it is the first docid from there on.  At the
  start both fields are the invalid docid, which counts as an element of both sets.
* **`Position`**: both fields stand at the same position.  Seeking moves it (`position_advance`), and
  each round of the loop answers, or moves it past a deleted document (`returns_loop`).
-/

namespace Havenask

open Fuel SeekIterator

/-- `INVALID_DOCID`. -/
def invalidDocId : ℤ := -1

/-- `DOCID_EOF`: the greatest 64-bit integer. -/
def docIdEof : ℤ := 2 ^ 63 - 1

/-- An entry of the dynamic index: a docid and whether it deletes. -/
abbrev DynamicEntry := ℤ × Bool

structure CompositePostingIterator (σ τ : Type) where
  bufferedIterator : σ
  dynamicIterator : τ
  bufferedDocId : ℤ
  dynamicDocId : ℤ
  isDynamicDeleteDoc : Bool

namespace CompositePostingIterator

variable {σ τ : Type}

section

/- `InnerSeekDoc` of the buffered iterator, with whether it fails, and `SeekDocWithDelete` of the dynamic
one. -/
variable (innerSeekDoc : σ → ℤ → Bool × σ × Option ℤ) (seekDocWithDelete : τ → ℤ → τ × Option DynamicEntry)

def new (bufferedIterator : σ) (dynamicIterator : τ) (isDynamicDeleteDoc : Bool) : CompositePostingIterator σ τ where
  bufferedIterator := bufferedIterator
  dynamicIterator := dynamicIterator
  bufferedDocId := invalidDocId
  dynamicDocId := invalidDocId
  -- not initialised in the source
  isDynamicDeleteDoc := isDynamicDeleteDoc

/-- `BufferedAdvance`: whether the inner iterator failed, and the state. -/
def bufferedAdvance (it : CompositePostingIterator σ τ) (docId : ℤ) : Bool × CompositePostingIterator σ τ :=
  if docId ≤ it.bufferedDocId then (false, it)
  else
    let sought := innerSeekDoc it.bufferedIterator docId
    (sought.1, { it with
      bufferedIterator := sought.2.1
      bufferedDocId := sought.2.2.getD docIdEof })

def dynamicAdvance (it : CompositePostingIterator σ τ) (docId : ℤ) : CompositePostingIterator σ τ :=
  if docId ≤ it.dynamicDocId then it
  else
    let sought := seekDocWithDelete it.dynamicIterator docId
    match sought.2 with
    | some entry =>
      { it with
        dynamicIterator := sought.1
        dynamicDocId := entry.1
        isDynamicDeleteDoc := entry.2 }
    | none => { it with dynamicIterator := sought.1, dynamicDocId := docIdEof }

/-- The loop of `SeekDocWithErrorCode`: `none` without fuel, else the error flag, the state and the
result. -/
def seekLoop : ℕ → CompositePostingIterator σ τ → Option (Bool × CompositePostingIterator σ τ × ℤ)
  | 0, _ => none
  | fuel + 1, it =>
    if it.bufferedDocId = docIdEof ∧ it.dynamicDocId = docIdEof then some (false, it, invalidDocId)
    else if it.bufferedDocId < it.dynamicDocId then
      let advanced := bufferedAdvance innerSeekDoc it (it.bufferedDocId + 1)
      some (advanced.1, advanced.2, it.bufferedDocId)
    else if it.bufferedDocId > it.dynamicDocId then
      let advanced := dynamicAdvance seekDocWithDelete it (it.dynamicDocId + 1)
      if !it.isDynamicDeleteDoc then some (false, advanced, it.dynamicDocId)
      else seekLoop fuel advanced
    else
      let dynamic :=
        if it.dynamicDocId ≠ docIdEof then dynamicAdvance seekDocWithDelete it (it.dynamicDocId + 1)
        else it
      let advanced :=
        if dynamic.bufferedDocId ≠ docIdEof then
          bufferedAdvance innerSeekDoc dynamic (dynamic.bufferedDocId + 1)
        else (false, dynamic)
      if advanced.1 then some (true, advanced.2, invalidDocId)
      else if !it.isDynamicDeleteDoc ∧ it.bufferedDocId ≠ invalidDocId then
        some (false, advanced.2, it.bufferedDocId)
      else seekLoop fuel advanced.2

def seekDocWithErrorCode (fuel : ℕ) (it : CompositePostingIterator σ τ) (docId : ℤ) :
    Option (Bool × CompositePostingIterator σ τ × ℤ) :=
  if docId ≠ invalidDocId then
    let advanced := bufferedAdvance innerSeekDoc (dynamicAdvance seekDocWithDelete it docId) docId
    if advanced.1 then some (true, advanced.2, invalidDocId)
    else seekLoop innerSeekDoc seekDocWithDelete fuel advanced.2
  else seekLoop innerSeekDoc seekDocWithDelete fuel it

/-- `SeekDoc`, which throws on an error: `none` then, or without fuel. -/
def seekDoc (fuel : ℕ) (it : CompositePostingIterator σ τ) (docId : ℤ) : Option (CompositePostingIterator σ τ × ℤ) :=
  match seekDocWithErrorCode innerSeekDoc seekDocWithDelete fuel it docId with
  | some (false, it', result) => some (it', result)
  | _ => none

end

/-! ## Positions -/

/-- The field is the first docid from the position on, or the end. -/
def Cursor (docs : Set ℤ) (p c : ℤ) : Prop :=
  (c = docIdEof ∧ ∀ x ∈ docs, x < p) ∨ (c ∈ docs ∧ p ≤ c ∧ ∀ x ∈ docs, p ≤ x → c ≤ x)

/-- Moving the position up to the field changes nothing. -/
lemma Cursor.mono {docs : Set ℤ} {p p' c : ℤ} (h : Cursor docs p c) (hle : p ≤ p') (hc : p' ≤ c) :
    Cursor docs p' c := by
  rcases h with ⟨heof, hall⟩ | ⟨hmem, -, hleast⟩
  · exact Or.inl ⟨heof, fun x hx => (hall x hx).trans_le hle⟩
  · exact Or.inr ⟨hmem, hc, fun x hx hx' => hleast x hx (hle.trans hx')⟩

section
variable {innerSeekDoc : σ → ℤ → Bool × σ × Option ℤ}
  {seekDocWithDelete : τ → ℤ → τ × Option DynamicEntry} {docs : Set ℤ} {entries : Set DynamicEntry}
  {AtBuffered : σ → ℤ → Prop} {AtDynamic : τ → ℤ → Prop}

/-- What the inner iterators are: they enumerate documents and entries, without errors. -/
structure Inner (innerSeekDoc : σ → ℤ → Bool × σ × Option ℤ)
    (seekDocWithDelete : τ → ℤ → τ × Option DynamicEntry) (docs : Set ℤ) (entries : Set DynamicEntry)
    (AtBuffered : σ → ℤ → Prop) (AtDynamic : τ → ℤ → Prop) : Prop where
  noError : ∀ s docId, (innerSeekDoc s docId).1 = false
  buffered : Enumerates (fun s docId => (innerSeekDoc s docId).2) id docs AtBuffered
  dynamic : Enumerates seekDocWithDelete Prod.fst entries AtDynamic
  docs_range : ∀ x ∈ docs, 0 ≤ x ∧ x < docIdEof
  entries_range : ∀ e ∈ entries, 0 ≤ e.1 ∧ e.1 < docIdEof
  /-- No docid is both added and deleted. -/
  disjoint : ∀ x, (x, false) ∈ entries → (x, true) ∉ entries

/-- The docids of the dynamic entries. -/
def dynamicDocs (entries : Set DynamicEntry) : Set ℤ := {x | ∃ isDelete, (x, isDelete) ∈ entries}

/-- The field of the buffered iterator stands at the position, and the iterator at the field. -/
def BufferedAt (docs : Set ℤ) (AtBuffered : σ → ℤ → Prop) (it : CompositePostingIterator σ τ) (p : ℤ) : Prop :=
  Cursor (insert invalidDocId docs) p it.bufferedDocId ∧
    (it.bufferedDocId ≠ docIdEof → AtBuffered it.bufferedIterator it.bufferedDocId)

/-- The same for the dynamic iterator, with the flag of the entry. -/
def DynamicAt (entries : Set DynamicEntry) (AtDynamic : τ → ℤ → Prop)
    (it : CompositePostingIterator σ τ) (p : ℤ) : Prop :=
  Cursor (insert invalidDocId (dynamicDocs entries)) p it.dynamicDocId ∧
    (it.dynamicDocId ≠ docIdEof → AtDynamic it.dynamicIterator it.dynamicDocId) ∧
    (it.dynamicDocId ≠ docIdEof → it.dynamicDocId ≠ invalidDocId → (it.dynamicDocId, it.isDynamicDeleteDoc) ∈ entries)

/-- Both fields stand at the position. -/
structure Position (docs : Set ℤ) (entries : Set DynamicEntry) (AtBuffered : σ → ℤ → Prop)
    (AtDynamic : τ → ℤ → Prop) (it : CompositePostingIterator σ τ) (p : ℤ) : Prop where
  buffered : BufferedAt docs AtBuffered it p
  dynamic : DynamicAt entries AtDynamic it p
  le : invalidDocId ≤ p

/-- The documents that the merge has to answer: built or added, and not deleted. -/
def live (docs : Set ℤ) (entries : Set DynamicEntry) : Set ℤ :=
  {x | (x ∈ docs ∨ (x, false) ∈ entries) ∧ (x, true) ∉ entries}

variable {S : Set ℤ} {c : ℤ}

lemma Cursor.of_isFirst {α : Type} {key : α → ℤ} {found : Set α} {bound : ℤ}
    {result : Option α} (hS : ∀ x, x ∈ S ↔ ∃ e ∈ found, key e = x) (hbound : invalidDocId < bound)
    (h : IsFirst key found bound result) : Cursor (insert invalidDocId S) bound ((result.map key).getD docIdEof) := by
  cases result with
  | none =>
    refine Or.inl ⟨rfl, fun x hx => ?_⟩
    rcases Set.mem_insert_iff.mp hx with rfl | hx
    · exact hbound
    · obtain ⟨e, he, rfl⟩ := (hS x).mp hx
      exact h e he
  | some e =>
    obtain ⟨hmem, hle, hleast⟩ := h
    refine Or.inr ⟨Set.mem_insert_of_mem _ ((hS _).mpr ⟨e, hmem, rfl⟩), hle, fun x hx hx' => ?_⟩
    rcases Set.mem_insert_iff.mp hx with rfl | hx
    · exact absurd hbound (not_lt.mpr hx')
    · obtain ⟨e', he', rfl⟩ := (hS x).mp hx
      exact hleast e' he' hx'

variable {it : CompositePostingIterator σ τ} {p docId : ℤ}

lemma Cursor.invalid_le (h : Cursor (insert invalidDocId S) p c) (hS : ∀ x ∈ S, 0 ≤ x) : invalidDocId ≤ c := by
  rcases h with ⟨rfl, -⟩ | ⟨hmem, -, -⟩
  · norm_num [invalidDocId, docIdEof]
  rcases Set.mem_insert_iff.mp hmem with rfl | hmem
  · exact le_rfl
  · exact le_trans (by norm_num [invalidDocId]) (hS _ hmem)

lemma Cursor.max (h : Cursor S p c) (hle : docId ≤ c) : Cursor S (max p docId) c := by
  rcases le_total docId p with hp | hp
  · rwa [max_eq_left hp]
  · rw [max_eq_right hp]
    exact h.mono hp hle

/-- A bound behind the field is one to seek. -/
lemma Cursor.passed (h : Cursor (insert invalidDocId S) p c) (hS : ∀ x ∈ S, 0 ≤ x) (hrange : docId ≤ docIdEof)
    (hlt : c < docId) : c ≠ docIdEof ∧ invalidDocId < docId ∧ p ≤ docId := by
  have hneof : c ≠ docIdEof := by omega
  refine ⟨hneof, (h.invalid_le hS).trans_lt hlt, ?_⟩
  rcases h with ⟨heof, -⟩ | ⟨-, hp, -⟩
  · exact absurd heof hneof
  · exact hp.trans hlt.le

section
variable (hinner : Inner innerSeekDoc seekDocWithDelete docs entries AtBuffered AtDynamic)
include hinner

lemma docs_nonneg : ∀ x ∈ docs, 0 ≤ x := fun x hx => (hinner.docs_range x hx).1

lemma dynamicDocs_nonneg : ∀ x ∈ dynamicDocs entries, 0 ≤ x := by
  rintro x ⟨isDelete, hx⟩
  exact (hinner.entries_range _ hx).1

/-- `BufferedAdvance` moves the position of its field up to the bound. -/
lemma bufferedAt_advance (h : BufferedAt docs AtBuffered it p) (hrange : docId ≤ docIdEof) :
    (bufferedAdvance innerSeekDoc it docId).1 = false ∧
      BufferedAt docs AtBuffered (bufferedAdvance innerSeekDoc it docId).2 (max p docId) := by
  obtain ⟨hcursor, hat⟩ := h
  rw [bufferedAdvance]
  by_cases hle : docId ≤ it.bufferedDocId
  · rw [if_pos hle]
    exact ⟨rfl, hcursor.max hle, hat⟩
  rw [if_neg hle]
  have hlt := not_le.mp hle
  obtain ⟨hneof, hbound, hp⟩ := hcursor.passed (docs_nonneg hinner) hrange hlt
  have hfirst := hinner.buffered.isFirst (hat hneof) hlt
  refine ⟨hinner.noError _ _, ?_, ?_⟩
  · rw [max_eq_right hp]
    have hcursor' := Cursor.of_isFirst (S := docs) (fun x => by simp) hbound hfirst
    simpa using hcursor'
  intro hne
  cases hresult : (innerSeekDoc it.bufferedIterator docId).2.2 with
  | none => simp [hresult] at hne
  | some doc =>
    have hmoves := hinner.buffered.moves (hat hneof) hlt hresult
    simpa [hresult] using hmoves

/-- `DynamicAdvance` moves the position of its field up to the bound. -/
lemma dynamicAt_advance (h : DynamicAt entries AtDynamic it p) (hrange : docId ≤ docIdEof) :
    DynamicAt entries AtDynamic (dynamicAdvance seekDocWithDelete it docId) (max p docId) := by
  obtain ⟨hcursor, hat, hdelete⟩ := h
  rw [dynamicAdvance]
  by_cases hle : docId ≤ it.dynamicDocId
  · rw [if_pos hle]
    exact ⟨hcursor.max hle, hat, hdelete⟩
  rw [if_neg hle]
  have hlt := not_le.mp hle
  obtain ⟨hneof, hbound, hp⟩ := hcursor.passed (dynamicDocs_nonneg hinner) hrange hlt
  have hfirst := hinner.dynamic.isFirst (hat hneof) hlt
  have hcursor' := Cursor.of_isFirst (S := dynamicDocs entries) (fun x => by simp [dynamicDocs]) hbound hfirst
  rw [max_eq_right hp]
  cases hresult : (seekDocWithDelete it.dynamicIterator docId).2 with
  | none =>
    rw [hresult] at hcursor'
    simp only [hresult]
    exact ⟨hcursor', fun hne => absurd rfl hne, fun hne => absurd rfl hne⟩
  | some entry =>
    rw [hresult] at hcursor' hfirst
    simp only [hresult]
    exact ⟨hcursor', fun _ => hinner.dynamic.moves (hat hneof) hlt hresult, fun _ _ => hfirst.1⟩

end

lemma bufferedAt_dynamicAdvance (seekDocWithDelete : τ → ℤ → τ × Option DynamicEntry) (docId : ℤ)
    (h : BufferedAt docs AtBuffered it p) :
    BufferedAt docs AtBuffered (dynamicAdvance seekDocWithDelete it docId) p := by
  rw [dynamicAdvance]
  split
  · exact h
  · dsimp only
    split <;> exact h

@[simp] lemma bufferedDocId_dynamicAdvance (docId : ℤ) :
    (dynamicAdvance seekDocWithDelete it docId).bufferedDocId = it.bufferedDocId := by
  rw [dynamicAdvance]
  split
  · rfl
  · dsimp only
    split <;> rfl

lemma dynamicAt_bufferedAdvance (innerSeekDoc : σ → ℤ → Bool × σ × Option ℤ) (docId : ℤ)
    (h : DynamicAt entries AtDynamic it p) :
    DynamicAt entries AtDynamic (bufferedAdvance innerSeekDoc it docId).2 p := by
  rw [bufferedAdvance]
  split <;> exact h

lemma position_advance (hinner : Inner innerSeekDoc seekDocWithDelete docs entries AtBuffered AtDynamic)
    (hp : Position docs entries AtBuffered AtDynamic it p) (hrange : docId ≤ docIdEof) :
    (bufferedAdvance innerSeekDoc (dynamicAdvance seekDocWithDelete it docId) docId).1 = false ∧
      Position docs entries AtBuffered AtDynamic
        (bufferedAdvance innerSeekDoc (dynamicAdvance seekDocWithDelete it docId) docId).2 (max p docId) := by
  obtain ⟨hok, hbuffered⟩ := bufferedAt_advance hinner
    (bufferedAt_dynamicAdvance seekDocWithDelete docId hp.buffered) hrange
  exact ⟨hok, hbuffered, dynamicAt_bufferedAdvance _ _ (dynamicAt_advance hinner hp.dynamic hrange),
    le_max_of_le_left hp.le⟩

/-! ## The loop -/

section
variable (h : Cursor (insert invalidDocId S) p c)
include h

/-- At the start, and only then, both fields are the invalid docid. -/
lemma Cursor.eq_invalid
    (hp : p ≤ invalidDocId) (hS : ∀ x ∈ S, 0 ≤ x) : c = invalidDocId := by
  have hle := h.invalid_le hS
  rcases h with ⟨-, hall⟩ | ⟨-, -, hleast⟩
  · exact absurd (hall _ (Set.mem_insert _ _)) (not_lt.mpr hp)
  · exact le_antisymm (hleast _ (Set.mem_insert _ _) hp) hle

lemma Cursor.eq_invalid_iff
    (hle : invalidDocId ≤ p) (hS : ∀ x ∈ S, 0 ≤ x) : c = invalidDocId ↔ p = invalidDocId := by
  constructor
  · rintro rfl
    rcases h with ⟨heof, -⟩ | ⟨-, hp, -⟩
    · norm_num [invalidDocId, docIdEof] at heof
    · exact le_antisymm hp hle
  · rintro rfl
    exact h.eq_invalid le_rfl hS

omit h in
/-- An element of the set from the position on is not before the field. -/
lemma Cursor.le_of_mem {c x : ℤ} (h : Cursor (insert invalidDocId S) p c) (hx : x ∈ S) (hp : p ≤ x) : c ≤ x := by
  rcases h with ⟨-, hall⟩ | ⟨-, -, hleast⟩
  · exact absurd (hall x (Set.mem_insert_of_mem _ hx)) (not_lt.mpr hp)
  · exact hleast x (Set.mem_insert_of_mem _ hx) hp

/-- A field that is neither the start nor the end is an element from the position on. -/
lemma Cursor.mem
    (hinvalid : c ≠ invalidDocId) (heof : c ≠ docIdEof) : c ∈ S ∧ p ≤ c := by
  rcases h with ⟨h, -⟩ | ⟨hmem, hp, -⟩
  · exact absurd h heof
  · exact ⟨(Set.mem_insert_iff.mp hmem).resolve_left hinvalid, hp⟩

lemma Cursor.le_eof (hS : ∀ x ∈ S, x < docIdEof) : c ≤ docIdEof := by
  by_cases hinvalid : c = invalidDocId
  · rw [hinvalid]
    norm_num [invalidDocId, docIdEof]
  by_cases heof : c = docIdEof
  · exact heof.le
  · exact (hS c (h.mem hinvalid heof).1).le

end

lemma lt_eof_of_dynamicDocs (hinner : Inner innerSeekDoc seekDocWithDelete docs entries AtBuffered AtDynamic) :
    ∀ x ∈ dynamicDocs entries, x < docIdEof := by
  rintro x ⟨isDelete, hx⟩
  exact (hinner.entries_range _ hx).2

/-- A document that is not before the position is not before one of the fields. -/
lemma Position.le_of_live (hp : Position docs entries AtBuffered AtDynamic it p) {x : ℤ}
    (hx : x ∈ live docs entries) (hle : p ≤ x) : it.bufferedDocId ≤ x ∨ it.dynamicDocId ≤ x := by
  rcases hx.1 with hx | hx
  · exact Or.inl (hp.buffered.1.le_of_mem hx hle)
  · exact Or.inr (hp.dynamic.1.le_of_mem ⟨false, hx⟩ hle)

/-- What a call does at a position, with its error flag. -/
def Answered (docs : Set ℤ) (entries : Set DynamicEntry) (AtBuffered : σ → ℤ → Prop)
    (AtDynamic : τ → ℤ → Prop) (p : ℤ) (answer : Bool × CompositePostingIterator σ τ × ℤ) : Prop :=
  answer.1 = false ∧ Serves (live docs entries) invalidDocId (Position docs entries AtBuffered AtDynamic) p answer.2

lemma Cursor.position_le (h : Cursor S p c) (hp : p ≤ docIdEof) : p ≤ c := by
  rcases h with ⟨rfl, -⟩ | ⟨-, hle, -⟩
  · exact hp
  · exact hle

/-- Both fields behind a document at which at least one of them stands. -/
lemma position_succ (hp : Position docs entries AtBuffered AtDynamic it p) (hle : p ≤ c)
    {it' : CompositePostingIterator σ τ} (hbuffered : BufferedAt docs AtBuffered it' (max p (c + 1)))
    (hdynamic : DynamicAt entries AtDynamic it' (max p (c + 1))) :
    Position docs entries AtBuffered AtDynamic it' (c + 1) := by
  rw [max_eq_right (by omega)] at hbuffered hdynamic
  exact ⟨hbuffered, hdynamic, hp.le.trans (by omega)⟩

lemma BufferedAt.of_lt (h : BufferedAt docs AtBuffered it p) (hle : p ≤ c)
    (hlt : c < it.bufferedDocId) : BufferedAt docs AtBuffered it (max p (c + 1)) :=
  ⟨h.1.mono (le_max_left _ _) (by omega), h.2⟩

lemma DynamicAt.of_lt (h : DynamicAt entries AtDynamic it p) (hle : p ≤ c)
    (hlt : c < it.dynamicDocId) : DynamicAt entries AtDynamic it (max p (c + 1)) :=
  ⟨h.1.mono (le_max_left _ _) (by omega), h.2⟩

section
variable (hinner : Inner innerSeekDoc seekDocWithDelete docs entries AtBuffered AtDynamic)
include hinner

lemma live_range {x : ℤ}
    (hx : x ∈ live docs entries) : 0 ≤ x ∧ x < docIdEof := by
  rcases hx.1 with hx | hx
  · exact hinner.docs_range x hx
  · exact hinner.entries_range _ hx

/-- **One round of the loop** answers, or moves the position past documents that are not live, and the
dynamic field with it. -/
lemma loop_round (hp : Position docs entries AtBuffered AtDynamic it p) :
    (∃ answer, (∀ fuel, seekLoop innerSeekDoc seekDocWithDelete (fuel + 1) it = some answer) ∧
      Answered docs entries AtBuffered AtDynamic p answer) ∨
    ∃ it' p', (∀ fuel, seekLoop innerSeekDoc seekDocWithDelete (fuel + 1) it =
        seekLoop innerSeekDoc seekDocWithDelete fuel it') ∧
      Position docs entries AtBuffered AtDynamic it' p' ∧ p ≤ p' ∧
      (∀ x ∈ live docs entries, p ≤ x → p' ≤ x) ∧ it.dynamicDocId < it'.dynamicDocId := by
  have hbuffered := hp.buffered.1
  have hdynamic := hp.dynamic.1
  have hbufferedEof := hbuffered.le_eof fun x hx => (hinner.docs_range x hx).2
  have hdynamicEof := hdynamic.le_eof (lt_eof_of_dynamicDocs hinner)
  have hstart : it.bufferedDocId = invalidDocId ↔ it.dynamicDocId = invalidDocId :=
    (hbuffered.eq_invalid_iff hp.le (docs_nonneg hinner)).trans
      (hdynamic.eq_invalid_iff hp.le (dynamicDocs_nonneg hinner)).symm
  by_cases hend : it.bufferedDocId = docIdEof ∧ it.dynamicDocId = docIdEof
  · -- both are at their ends
    refine Or.inl ⟨(false, it, invalidDocId), fun fuel => by rw [seekLoop, if_pos hend], rfl, Or.inl
      ⟨rfl, fun x hx => ?_, p, le_rfl, hp⟩⟩
    by_contra hle
    have hlt := (live_range hinner hx).2
    rcases hp.le_of_live hx (not_lt.mp hle) with h | h <;> omega
  rcases lt_trichotomy it.bufferedDocId it.dynamicDocId with hlt | heq | hgt
  · -- a built document, which no entry names
    obtain ⟨hmem, hle⟩ := hbuffered.mem (fun h => hlt.ne (h.trans (hstart.mp h).symm)) (hlt.trans_le hdynamicEof).ne
    obtain ⟨hok, hadvanced⟩ := bufferedAt_advance hinner hp.buffered (by omega : it.bufferedDocId + 1 ≤ docIdEof)
    refine Or.inl ⟨(false, (bufferedAdvance innerSeekDoc it (it.bufferedDocId + 1)).2,
      it.bufferedDocId), fun fuel => by rw [seekLoop, if_neg hend, if_pos hlt, ← hok], rfl, Or.inr
      ⟨⟨Or.inl hmem, fun hdelete => ?_⟩, hle, fun x hx hx' => ?_, ?_⟩⟩
    · exact absurd (hdynamic.le_of_mem ⟨true, hdelete⟩ hle) (not_le.mpr hlt)
    · rcases hp.le_of_live hx hx' with h | h
      · exact h
      · exact hlt.le.trans h
    · exact position_succ hp hle hadvanced (dynamicAt_bufferedAdvance _ _ (hp.dynamic.of_lt hle hlt))
  · -- both stand at one docid, or at the start
    have hne : it.dynamicDocId ≠ docIdEof := fun h => hend ⟨heq.trans h, h⟩
    have hle : p ≤ it.dynamicDocId := by
      rcases hdynamic with ⟨h, -⟩ | ⟨-, h, -⟩
      · exact absurd h hne
      · exact h
    obtain ⟨hok, hadvanced⟩ := position_advance hinner hp (by omega : it.dynamicDocId + 1 ≤ docIdEof)
    rw [max_eq_right (by omega)] at hadvanced
    have hround : ∀ fuel, seekLoop innerSeekDoc seekDocWithDelete (fuel + 1) it =
        if !it.isDynamicDeleteDoc ∧ it.bufferedDocId ≠ invalidDocId then
          some (false, (bufferedAdvance innerSeekDoc (dynamicAdvance seekDocWithDelete it (it.dynamicDocId + 1))
            (it.dynamicDocId + 1)).2, it.bufferedDocId)
        else seekLoop innerSeekDoc seekDocWithDelete fuel (bufferedAdvance innerSeekDoc
          (dynamicAdvance seekDocWithDelete it (it.dynamicDocId + 1)) (it.dynamicDocId + 1)).2 := by
      intro fuel
      rw [seekLoop, if_neg hend, if_neg heq.not_lt, if_neg heq.not_gt, if_pos hne]
      simp only [bufferedDocId_dynamicAdvance, heq, ne_eq, hne, not_false_eq_true, if_true, hok,
        Bool.false_eq_true, if_false]
    by_cases hanswer : !it.isDynamicDeleteDoc ∧ it.bufferedDocId ≠ invalidDocId
    · have hflag : it.isDynamicDeleteDoc = false := by simpa using hanswer.1
      have hentry := hp.dynamic.2.2 hne (heq ▸ hanswer.2)
      rw [hflag] at hentry
      refine Or.inl ⟨_, fun fuel => by rw [hround, if_pos hanswer], rfl, Or.inr ⟨?_, heq ▸ hle, ?_, ?_⟩⟩
      · rw [heq]
        exact ⟨Or.inr hentry, hinner.disjoint _ hentry⟩
      · intro x hx hx'
        rcases hp.le_of_live hx hx' with h | h
        · exact h
        · exact heq.le.trans h
      · rw [heq]
        exact hadvanced
    refine Or.inr ⟨_, _, fun fuel => by rw [hround, if_neg hanswer], hadvanced, by omega, ?_,
      hadvanced.dynamic.1.position_le (by omega)⟩
    intro x hx hx'
    have hge : it.dynamicDocId ≤ x := by
      rcases hp.le_of_live hx hx' with h | h <;> omega
    refine Int.add_one_le_of_lt (lt_of_le_of_ne hge fun hsame => ?_)
    by_cases hinvalid : it.dynamicDocId = invalidDocId
    · have hnonneg := (live_range hinner hx).1
      rw [← hsame, hinvalid] at hnonneg
      norm_num [invalidDocId] at hnonneg
    have hflag : it.isDynamicDeleteDoc = true := by
      by_contra hflag
      exact hanswer ⟨by simpa using hflag, fun h => hinvalid (hstart.mp h)⟩
    have hentry := hp.dynamic.2.2 hne hinvalid
    rw [hflag, hsame] at hentry
    exact hx.2 hentry
  · -- an entry that names no built document
    have hinvalid : it.dynamicDocId ≠ invalidDocId := fun h =>
      hgt.ne (h.trans (hstart.mpr h).symm)
    have hne : it.dynamicDocId ≠ docIdEof := (hgt.trans_le hbufferedEof).ne
    obtain ⟨hmem, hle⟩ := hdynamic.mem hinvalid hne
    have hentry := hp.dynamic.2.2 hne hinvalid
    have hadvanced := position_succ hp hle
      (bufferedAt_dynamicAdvance seekDocWithDelete (it.dynamicDocId + 1) (hp.buffered.of_lt hle hgt))
      (dynamicAt_advance hinner hp.dynamic (by omega : it.dynamicDocId + 1 ≤ docIdEof))
    have hround : ∀ fuel, seekLoop innerSeekDoc seekDocWithDelete (fuel + 1) it =
        if !it.isDynamicDeleteDoc then
          some (false, dynamicAdvance seekDocWithDelete it (it.dynamicDocId + 1), it.dynamicDocId)
        else seekLoop innerSeekDoc seekDocWithDelete fuel
          (dynamicAdvance seekDocWithDelete it (it.dynamicDocId + 1)) := by
      intro fuel
      rw [seekLoop, if_neg hend, if_neg hgt.not_gt, if_pos hgt]
    have hge : ∀ x ∈ live docs entries, p ≤ x → it.dynamicDocId ≤ x := by
      intro x hx hx'
      rcases hp.le_of_live hx hx' with h | h <;> omega
    cases hflag : it.isDynamicDeleteDoc with
    | false =>
      rw [hflag] at hentry
      refine Or.inl ⟨_, fun fuel => by rw [hround, hflag]; rfl, rfl, Or.inr
        ⟨⟨Or.inr hentry, hinner.disjoint _ hentry⟩, hle, hge, hadvanced⟩⟩
    | true =>
      rw [hflag] at hentry
      refine Or.inr ⟨_, _, fun fuel => by rw [hround, hflag]; rfl, hadvanced, by omega,
        fun x hx hx' => ?_, hadvanced.dynamic.1.position_le (by omega)⟩
      refine Int.add_one_le_of_lt (lt_of_le_of_ne (hge x hx hx') fun hsame => ?_)
      rw [hsame] at hentry
      exact hx.2 hentry

/-- **The loop answers the first live document** from the position on.  It goes on only past a deleted
entry, or the invalid docid of the start, so the dynamic field bounds the rounds. -/
lemma returns_loop (n : ℕ) (hp : Position docs entries AtBuffered AtDynamic it p) (hn : docIdEof - it.dynamicDocId < n) :
    ∃ answer, (∀ fuel ≥ n, seekLoop innerSeekDoc seekDocWithDelete fuel it = some answer) ∧
      Answered docs entries AtBuffered AtDynamic p answer := by
  induction n generalizing it p with
  | zero =>
    have hle := hp.dynamic.1.le_eof (lt_eof_of_dynamicDocs hinner)
    omega
  | succ n ih =>
    rcases loop_round hinner hp with
      ⟨answer, hloop, hanswer⟩ | ⟨it', p', hloop, hp', hle, hnone, hlt⟩
    · refine ⟨answer, fun fuel hfuel => ?_, hanswer⟩
      obtain ⟨fuel, rfl⟩ := Nat.exists_eq_succ_of_ne_zero (by omega : fuel ≠ 0)
      exact hloop fuel
    obtain ⟨answer, hreturns, hanswer⟩ := ih hp' (by push_cast at hn; omega)
    refine ⟨answer, fun fuel hfuel => ?_, hanswer.1, hanswer.2.of_later hle hnone⟩
    obtain ⟨fuel, rfl⟩ := Nat.exists_eq_succ_of_ne_zero (by omega : fuel ≠ 0)
    rw [hloop fuel]
    exact hreturns fuel (by omega)

lemma serves_seekDoc (hp : Position docs entries AtBuffered AtDynamic it p) (hrange : docId ≤ docIdEof) :
    ∃ answer, Returns (fun fuel => seekDoc innerSeekDoc seekDocWithDelete fuel it docId) answer ∧
      Serves (live docs entries) invalidDocId (Position docs entries AtBuffered AtDynamic) (max p docId) answer := by
  have hcall : ∃ it', Position docs entries AtBuffered AtDynamic it' (max p docId) ∧
      ∀ fuel, seekDocWithErrorCode innerSeekDoc seekDocWithDelete fuel it docId =
        seekLoop innerSeekDoc seekDocWithDelete fuel it' := by
    by_cases hnext : docId = invalidDocId
    · refine ⟨it, ?_, fun fuel => by rw [seekDocWithErrorCode, if_neg (not_not.mpr hnext)]⟩
      rw [hnext, max_eq_left hp.le]
      exact hp
    obtain ⟨hok, hadvanced⟩ := position_advance hinner hp hrange
    refine ⟨_, hadvanced, fun fuel => ?_⟩
    rw [seekDocWithErrorCode, if_pos hnext]
    simp only [hok, Bool.false_eq_true, if_false]
  obtain ⟨it', hp', heq⟩ := hcall
  obtain ⟨⟨error, answer⟩, hreturns, hok, hserves⟩ := returns_loop hinner
    ((docIdEof - it'.dynamicDocId).toNat + 1) hp' (by push_cast; omega)
  refine ⟨answer, ⟨(docIdEof - it'.dynamicDocId).toNat + 1, fun fuel hfuel => ?_⟩, hserves⟩
  have herror : error = false := hok
  simp only [seekDoc, heq, hreturns fuel hfuel, herror]

end

/-- **The merge answers the documents that are built or added and not deleted**: for every sequence of
seeks, the invalid docid asking for the next one, each call returns the least of them that is not below
what has been asked for, and greater than all that have been returned. -/
theorem run_answers_live (hinner : Inner innerSeekDoc seekDocWithDelete docs entries AtBuffered AtDynamic)
    (bufferedIterator : σ) (dynamicIterator : τ) (isDynamicDeleteDoc : Bool)
    (hbuffered : AtBuffered bufferedIterator invalidDocId)
    (hdynamic : AtDynamic dynamicIterator invalidDocId) (qs : List ℤ) (hqs : ∀ q ∈ qs, q ≤ docIdEof) :
    ∃ results, Returns (fun fuel => run (seekDoc innerSeekDoc seekDocWithDelete) fuel
        (new bufferedIterator dynamicIterator isDynamicDeleteDoc) qs) results ∧
      Answers (live docs entries) invalidDocId [] [] qs results := by
  refine returns_run (p := invalidDocId) (Position docs entries AtBuffered AtDynamic)
    (fun q => q ≤ docIdEof) (fun s p q hp hq => serves_seekDoc hinner hp hq) ?_ ?_ qs hqs
  · have hcursor : ∀ S : Set ℤ, (∀ x ∈ S, 0 ≤ x) → Cursor (insert invalidDocId S) invalidDocId invalidDocId :=
      fun S _ => Or.inr ⟨Set.mem_insert _ _, le_rfl, fun x _ hx => hx⟩
    exact ⟨⟨hcursor _ (docs_nonneg hinner), fun _ => hbuffered⟩,
      ⟨hcursor _ (dynamicDocs_nonneg hinner), fun _ => hdynamic, fun _ h => absurd rfl h⟩, le_rfl⟩
  intro x hx
  have hnonneg : 0 ≤ x := by
    rcases hx.1 with hx | hx
    · exact (hinner.docs_range x hx).1
    · exact (hinner.entries_range _ hx).1
  simp only [List.not_mem_nil, false_implies, implies_true, and_self, iff_true]
  exact le_trans (by norm_num [invalidDocId]) hnonneg

end

/-- The built documents 1, 3 and 5 with a deletion of 3 and additions of 4 and 5: asked for 0, the next,
5 and the next, the merge returns, with answers among 1, 4 and 5. -/
theorem run_answers_live_lists : ∃ results, Returns (fun fuel => run
        (seekDoc (fun s docId => (false, seekList id s docId)) (seekList Prod.fst)) fuel
        (new [1, 3, 5] [(3, true), (4, false), (5, false)] false) [0, -1, 5, -1]) results ∧
      Answers (live {x | x ∈ [1, 3, 5]} {e | e ∈ [(3, true), (4, false), (5, false)]}) invalidDocId
        [] [] [0, -1, 5, -1] results := by
  have hinner : Inner (fun s docId => (false, seekList id s docId)) (seekList Prod.fst)
      {x | x ∈ [1, 3, 5]} {e | e ∈ [(3, true), (4, false), (5, false)]}
      (fun s _ => s = [1, 3, 5]) (fun s _ => s = [(3, true), (4, false), (5, false)]) :=
    { noError := fun _ _ => rfl
      buffered := enumerates_seekList id (by decide)
      dynamic := enumerates_seekList Prod.fst (by decide)
      docs_range := by simp [docIdEof]
      entries_range := by simp [docIdEof]
      disjoint := by simp }
  exact run_answers_live hinner [1, 3, 5] [(3, true), (4, false), (5, false)] false rfl rfl
    [0, -1, 5, -1] (by simp [docIdEof])

example : run (seekDoc (fun s docId => (false, seekList id s docId)) (seekList Prod.fst)) 5
    (new [1, 3, 5] [(3, true), (4, false), (5, false)] false) [0, -1, 5, -1] = some [1, 4, 5, -1] := by
  decide

end CompositePostingIterator

end Havenask
