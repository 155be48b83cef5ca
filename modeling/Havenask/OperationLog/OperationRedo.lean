import Havenask.Framework.LocatorCompare
import Havenask.OperationLog.OperationIterator

/-!
# Redo visits what is still to be applied

The operations after a cursor that the locator does not cover, against those that an `OperationIterator` returns.

* **`Reaches`**: the locator covers what the tests on segments, blocks and the start position pass over.
* **`Plain.reaches`**: it does so where it has progress for all documents and the cursor's segment is not skipped.
* **`redo_complete_iff`**: the iterator returns exactly those operations where this holds, and two redos one
  after the other then miss none.
-/

namespace Havenask.OperationLog

open List

variable {Op : Type*}

section
variable (docInfo : Op → DocInfo) (locator : Locator)

/-- The operations with their cursors. -/
def log (indexers : List (OperationLogIndexer Op)) : List (OperationCursor × Op) :=
  indexers.flatMap fun indexer => indexer.operations.zipIdx.map fun entry => (⟨indexer.segmentId, entry.2⟩, entry.1)

variable (cursor : OperationCursor)

/-- The operations after the cursor that the locator does not cover, with their segments. -/
def pending (indexers : List (OperationLogIndexer Op)) : List (ℤ × Op) :=
  ((log indexers).filter fun entry => cursor.Before entry.1 ∧ slower docInfo locator entry.2).map
    fun entry => (entry.1.segId, entry.2)

/-- What an iterator returns from a cursor on. -/
def drained (indexers : List (OperationLogIndexer Op)) :
    Option (List (Op × OperationCursor)) := do
  let iter ← init docInfo locator indexers cursor
  drain docInfo locator (rounds indexers) iter

/-- The same operations with their segments only. -/
def returned (indexers : List (OperationLogIndexer Op)) : Option (List (ℤ × Op)) :=
  (drained docInfo locator cursor indexers).map (List.map fun entry => (entry.2.segId, entry.1))

/-- The first position after the cursor. -/
def startOf (indexer : OperationLogIndexer Op) : ℕ :=
  if indexer.segmentId < cursor.segId then indexer.operations.length
  else if indexer.segmentId = cursor.segId then (cursor.pos + 1).toNat
  else 0

/-- The operations after the cursor that are passed over where a segment is read from `pos` on. -/
def passedOver (indexer : OperationLogIndexer Op) (pos : ℕ) : List Op :=
  (indexer.operations.take pos).drop (startOf cursor indexer)
    ++ (seekBegin docInfo pos (indexer.blocks.getD [])).flatMap fun block =>
      if block.maxOffset < locator.minOffset then block.operations else []

/-- The locator covers what the iterator passes over, and the segments that it keeps can be read.  `pos` is the
position to start from in the next of them. -/
def Reaches (cursor : OperationCursor) : List (OperationLogIndexer Op) → ℕ → Prop
  | [], _ => True
  | indexer :: rest, pos =>
    if indexer.segmentId < cursor.segId ∨ indexer.blocks = none then Reaches cursor rest pos
    else if indexer.isSealed ∧ metaOffset docInfo (indexer.blocks.getD []) < locator.minOffset then
      (∀ op ∈ indexer.operations.drop (startOf cursor indexer), slower docInfo locator op = false)
        ∧ Reaches cursor rest pos
    else if indexer.segmentId = cursor.segId ∧ cursor.pos + 1 ≥ indexer.operations.length then
      Reaches cursor rest 0
    else Readable indexer pos ∧ (∀ op ∈ passedOver docInfo locator cursor indexer pos, slower docInfo locator op = false)
      ∧ Reaches cursor rest 0

/-- The segments are in the order of their ids. -/
abbrev InOrder (indexers : List (OperationLogIndexer Op)) : Prop :=
  indexers.Pairwise fun indexer later => indexer.segmentId < later.segmentId

/-- The locator covers the operations of a log that are below its offset. -/
def CoversBelow (indexer : OperationLogIndexer Op) : Prop :=
  ∀ op ∈ indexer.operations, (docInfo op).getProgressOffset < locator.minOffset → slower docInfo locator op = false

/-- The usual case: the locator has progress for the source and the hash id of each document, nowhere below its own
offset; a log on disk is not empty; and the redo starts in front of a segment, or in one that is not skipped. -/
structure Plain (indexers : List (OperationLogIndexer Op)) : Prop where
  valid : locator.isValid = true
  progress : ∀ indexer ∈ indexers, ∀ op ∈ indexer.operations, ∃ offset, locator.minOffset ≤ offset
    ∧ offsetAt (locator.source (docInfo op).sourceIdx.toNat) (docInfo op).hashId.toNat = some offset
  readable : ∀ indexer ∈ indexers, Readable indexer 0
  start : cursor.pos = -1 ∨ ∃ indexer ∈ indexers, indexer.segmentId = cursor.segId ∧ indexer.blocks ≠ none
    ∧ ¬ (indexer.isSealed ∧ metaOffset docInfo (indexer.blocks.getD []) < locator.minOffset)

end

section
variable {docInfo : Op → DocInfo} {locator : Locator} {cursor : OperationCursor}

/-! ## What the usual redo passes over -/

lemma le_foldl_max {α : Type*} (f : α → Offset) (l : List α) : ∀ start,
    start ≤ l.foldl (fun offset x => max offset (f x)) start
    ∧ ∀ x ∈ l, f x ≤ l.foldl (fun offset x => max offset (f x)) start := by
  induction l with
  | nil => exact fun _ => ⟨le_rfl, forall_mem_nil _⟩
  | cons x l ih =>
    intro start
    obtain ⟨hstart, hall⟩ := ih (max start (f x))
    exact ⟨(le_max_left _ _).trans hstart, forall_mem_cons.mpr ⟨(le_max_right _ _).trans hstart, hall⟩⟩

lemma le_blockOffset {block : List Op} : ∀ op ∈ block, (docInfo op).getProgressOffset ≤ blockOffset docInfo block := by
  cases block with
  | nil => exact forall_mem_nil _
  | cons first ops =>
    obtain ⟨hfirst, hops⟩ := le_foldl_max (fun op => (docInfo op).getProgressOffset) ops
      (docInfo first).getProgressOffset
    exact forall_mem_cons.mpr ⟨hfirst, hops⟩

variable {indexer : OperationLogIndexer Op} {indexers : List (OperationLogIndexer Op)} {pos : ℕ}

lemma le_metaOffset : ∀ op ∈ indexer.operations,
    (docInfo op).getProgressOffset ≤ metaOffset docInfo (indexer.blocks.getD []) := by
  intro op hop
  obtain ⟨block, hblock, hop⟩ := mem_flatten.mp hop
  exact (le_blockOffset op hop).trans ((le_foldl_max (blockOffset docInfo) _ _).2 block hblock)

lemma mem_seekBegin {blocks : List (List Op)} : ∀ {pos : ℕ}, ∀ block ∈ seekBegin docInfo pos blocks,
    ∃ whole ∈ blocks, block.maxOffset = blockOffset docInfo whole ∧ block.operations ⊆ whole := by
  induction blocks with
  | nil => exact forall_mem_nil _
  | cons first rest ih =>
    intro pos
    rw [seekBegin]
    split
    · refine forall_mem_cons.mpr ⟨⟨first, mem_cons_self, rfl, drop_subset _ _⟩, forall_mem_map.mpr fun whole hmem => ?_⟩
      exact ⟨whole, mem_cons_of_mem _ hmem, rfl, Subset.refl _⟩
    · intro block hblock
      obtain ⟨whole, hmem, hwhole⟩ := ih block hblock
      exact ⟨whole, mem_cons_of_mem _ hmem, hwhole⟩

/-- Of a log that is read from the cursor on, the blocks below the locator are passed over. -/
lemma covered_passedOver (hcovers : CoversBelow docInfo locator indexer) (hstart : pos ≤ startOf cursor indexer) :
    ∀ op ∈ passedOver docInfo locator cursor indexer pos, slower docInfo locator op = false := by
  rw [passedOver, drop_eq_nil_of_le ((length_take_le _ _).trans hstart), nil_append]
  intro op hop
  obtain ⟨block, hblock, hop⟩ := mem_flatMap.mp hop
  obtain ⟨whole, hwhole, hoffset, hsubset⟩ := mem_seekBegin block hblock
  split at hop
  · rename_i hbelow
    rw [hoffset] at hbelow
    exact hcovers op (mem_flatten.mpr ⟨whole, hwhole, hsubset hop⟩)
      ((le_blockOffset op (hsubset hop)).trans_lt hbelow)
  · cases hop

lemma reaches_zero (hcovers : ∀ indexer ∈ indexers, CoversBelow docInfo locator indexer)
    (hreadable : ∀ indexer ∈ indexers, Readable indexer 0) : Reaches docInfo locator cursor indexers 0 := by
  induction indexers with
  | nil => trivial
  | cons indexer rest ih =>
    rw [forall_mem_cons] at hcovers hreadable
    have hrest := ih hcovers.2 hreadable.2
    rw [Reaches]
    split_ifs with _ hskip
    · exact hrest
    · exact ⟨fun op hop => hcovers.1 op (mem_of_mem_drop hop)
        ((le_metaOffset op (mem_of_mem_drop hop)).trans_lt hskip.2), hrest⟩
    · exact hrest
    · exact ⟨hreadable.1, covered_passedOver hcovers.1 (Nat.zero_le _), hrest⟩

lemma Plain.reaches (h : Plain docInfo locator cursor indexers) (hsorted : InOrder indexers) :
    Reaches docInfo locator cursor indexers (cursor.pos + 1).toNat := by
  have hcovers : ∀ indexer ∈ indexers, CoversBelow docInfo locator indexer := by
    intro indexer hmem op hop hlt
    obtain ⟨offset, hle, hoffset⟩ := h.progress indexer hmem op hop
    rw [slower, (Locator.isFasterThanDoc_eq_fullyFaster_iff h.valid _).mpr ⟨offset, hoffset, hlt.trans_le hle⟩]
    rfl
  obtain ⟨-, -, hreadable, hstart | ⟨own, hown, hid, hblocks, hkept⟩⟩ := h
  · rw [hstart]
    exact reaches_zero hcovers hreadable
  induction indexers with
  | nil => cases hown
  | cons indexer rest ih =>
    rw [forall_mem_cons] at hcovers hreadable
    obtain ⟨hlater, hsorted⟩ := pairwise_cons.mp hsorted
    rw [Reaches]
    rcases mem_cons.mp hown with rfl | hown
    · -- the cursor's own segment, which is read from behind the cursor on or is at its end
      have hrest : Reaches docInfo locator cursor rest 0 := reaches_zero hcovers.2 hreadable.2
      rw [if_neg (by simp [hid, hblocks]), if_neg hkept]
      split_ifs with hend
      · exact hrest
      have hlt : cursor.pos + 1 < own.operations.length := not_le.mp fun hle => hend ⟨hid, hle⟩
      have hpos : (cursor.pos + 1).toNat = startOf cursor own := by rw [startOf, if_neg (by omega), if_pos hid]
      exact ⟨fun hdisk hsome => by have := hreadable.1 hdisk hsome; omega, covered_passedOver hcovers.1 hpos.le, hrest⟩
    · rw [if_pos (.inl (hid ▸ hlater own hown))]
      exact ih hsorted hcovers.2 hreadable.2 hown

lemma append_eq_append_iff_of_le {α : Type*} {a a' b b' : List α} (h : a.length ≤ b.length)
    (h' : a'.length ≤ b'.length) : a ++ a' = b ++ b' ↔ a = b ∧ a' = b' := by
  constructor
  · intro heq
    have := congrArg length heq
    rw [length_append, length_append] at this
    exact append_inj heq (by omega)
  · rintro ⟨rfl, rfl⟩
    rfl

lemma filter_eq_nil_iff_slower {ops : List Op} :
    [] = ops.filter (slower docInfo locator) ↔ ∀ op ∈ ops, slower docInfo locator op = false := by
  rw [eq_comm, filter_eq_nil_iff]
  simp only [Bool.not_eq_true]

lemma filter_drop_zipIdx (p : Op → Bool) (ops : List Op) (start first : ℕ) :
    ((ops.zipIdx first).filter fun entry => decide (start ≤ entry.2) && p entry.1).map Prod.fst
    = (ops.drop (start - first)).filter p := by
  induction ops generalizing first with
  | nil => simp
  | cons op ops ih =>
    rw [zipIdx_cons, filter_cons]
    by_cases hle : start ≤ first
    · have hzero : start - first = 0 := by omega
      have hzero' : start - (first + 1) = 0 := by omega
      have hrest := ih (first + 1)
      rw [hzero', drop_zero] at hrest
      rw [hzero, drop_zero, filter_cons]
      cases p op <;> simp [hle, hrest]
    · have hsucc : start - first = start - (first + 1) + 1 := by omega
      rw [hsucc, drop_succ_cons, ← ih (first + 1)]
      simp [hle]

lemma pending_cons (hpos : -1 ≤ cursor.pos) (indexer : OperationLogIndexer Op)
    (rest : List (OperationLogIndexer Op)) : pending docInfo locator cursor (indexer :: rest)
    = ((indexer.operations.drop (startOf cursor indexer)).filter (slower docInfo locator)).map (indexer.segmentId, ·)
      ++ pending docInfo locator cursor rest := by
  have hdrop := filter_drop_zipIdx (slower docInfo locator) indexer.operations (startOf cursor indexer) 0
  rw [pending, log, flatMap_cons, filter_append, map_append, Nat.sub_zero] at *
  congr 1
  rw [← hdrop, filter_map, map_map, map_map]
  have hiff : ∀ entry ∈ indexer.operations.zipIdx, (cursor.Before ⟨indexer.segmentId, entry.2⟩
      ↔ startOf cursor indexer ≤ entry.2) := by
    rintro ⟨op, k⟩ hmem
    have hk := (mem_zipIdx hmem).2.1
    simp only [OperationCursor.Before, startOf]
    split_ifs <;> omega
  rw [filter_congr (q := fun entry => decide (startOf cursor indexer ≤ entry.2) && slower docInfo locator entry.1)]
  · rfl
  · intro entry hmem
    simp [hiff entry hmem]

/-- Blocks are read in full where what is passed over is covered. -/
lemma visible_eq_iff (blocks : List (OperationBlock Op)) :
    visible docInfo locator blocks = (blocks.flatMap (·.operations)).filter (slower docInfo locator)
    ↔ ∀ op ∈ blocks.flatMap fun block => if block.maxOffset < locator.minOffset then block.operations else [],
      slower docInfo locator op = false := by
  induction blocks with
  | nil => simp [visible]
  | cons block blocks ih =>
    have hle := (visible_sublist docInfo locator blocks).length_le
    rw [visible_cons, flatMap_cons, filter_append, append_eq_append_iff_of_le _ hle]
    · rw [ih, flatMap_cons, forall_mem_append]
      refine and_congr_left fun _ => ?_
      split
      · exact filter_eq_nil_iff_slower
      · simp
    · split <;> simp

lemma visibleFrom_eq_iff {indexer : OperationLogIndexer Op} {pos : ℕ} (hle : startOf cursor indexer ≤ pos) :
    visibleFrom docInfo locator indexer pos
      = (indexer.operations.drop (startOf cursor indexer)).filter (slower docInfo locator)
    ↔ ∀ op ∈ passedOver docInfo locator cursor indexer pos, slower docInfo locator op = false := by
  have hsplit : indexer.operations.drop (startOf cursor indexer)
      = (indexer.operations.take pos).drop (startOf cursor indexer) ++ indexer.operations.drop pos := by
    conv_lhs => rw [← take_append_drop pos indexer.operations, drop_append]
    rw [length_take]
    rcases le_total pos indexer.operations.length with h | h
    · rw [Nat.min_eq_left h, Nat.sub_eq_zero_of_le hle, drop_zero]
    · rw [drop_eq_nil_iff.mpr h, drop_nil]
  rw [hsplit, filter_append, ← nil_append (visibleFrom _ _ _ _), append_eq_append_iff_of_le (Nat.zero_le _)
    (visibleFrom_sublist docInfo locator indexer pos).length_le, passedOver, forall_mem_append,
    filter_eq_nil_iff_slower, visibleFrom, OperationLogIndexer.operations, ← flatMap_seekBegin docInfo,
    visible_eq_iff]

lemma initIndexers_fst (cursor : OperationCursor) (indexers : List (OperationLogIndexer Op)) (pos pos' : ℕ) :
    (initIndexers docInfo locator cursor indexers pos).1 = (initIndexers docInfo locator cursor indexers pos').1 := by
  induction indexers generalizing pos pos' with
  | nil => rfl
  | cons indexer rest ih =>
    simp only [initIndexers]
    split_ifs <;> grind

variable {indexers : List (OperationLogIndexer Op)} {entries : List (Op × OperationCursor)}

lemma initIndexers_snd (pos : ℕ) (h : pos = 0 ∨ ∀ indexer ∈ indexers, indexer.segmentId ≠ cursor.segId) :
    (initIndexers docInfo locator cursor indexers pos).2 = pos := by
  induction indexers generalizing pos with
  | nil => rfl
  | cons indexer rest ih =>
    simp only [initIndexers]
    split_ifs <;> grind

lemma initIndexers_sublist (docInfo : Op → DocInfo) (locator : Locator) (cursor : OperationCursor)
    (indexers : List (OperationLogIndexer Op)) (pos : ℕ) :
    (initIndexers docInfo locator cursor indexers pos).1.Sublist indexers := by
  fun_induction initIndexers docInfo locator cursor indexers pos <;> grind

lemma length_contents_le (docInfo : Op → DocInfo) (locator : Locator) (indexers : List (OperationLogIndexer Op)) (pos : ℕ) :
    (contents docInfo locator indexers pos).length ≤ (indexers.map (·.operations.length)).sum := by
  induction indexers generalizing pos with
  | nil => exact le_rfl
  | cons indexer rest ih =>
    have hone := ((visibleFrom_sublist docInfo locator indexer pos).trans filter_sublist).length_le
    rw [length_drop] at hone
    rw [contents, length_append, length_map, map_cons, sum_cons]
    exact Nat.add_le_add (by omega) (ih 0)

/-- What the iterator returns, without its state. -/
lemma drained_spec (hvalid : ∀ op, locator.isFasterThanDoc (docInfo op) ≠ .invalid) (cursor : OperationCursor)
    (indexers : List (OperationLogIndexer Op)) {kept : List (OperationLogIndexer Op)} {pos : ℕ}
    (hinit : initIndexers docInfo locator cursor indexers (cursor.pos + 1).toNat = (kept, pos)) :
    match drained docInfo locator cursor indexers with
    | none => ¬ Loadable kept pos
    | some entries => Loadable kept pos ∧ (∀ entry ∈ entries, InLog indexers entry.2)
      ∧ entries.map (fun entry => (entry.2.segId, entry.1)) = contents docInfo locator kept pos := by
  have hsub : kept.Sublist indexers := by
    have := initIndexers_sublist docInfo locator cursor indexers (cursor.pos + 1).toNat
    rwa [hinit] at this
  have hload := load_spec hvalid pos hsub.subset
  have hle := length_contents_le docInfo locator kept pos
  have hsum := (hsub.map (·.operations.length)).sum_le_sum (fun _ _ => Nat.zero_le _)
  rw [drained, init, hinit]
  dsimp only
  generalize loadSegIterator docInfo locator kept pos = result at hload ⊢
  cases result with
  | none => exact hload
  | some iter =>
    obtain ⟨hsound, hloadable, hentries, -⟩ := hload
    have hdrain := drain_spec hvalid (rounds indexers) hsound (by rw [hentries, rounds]; omega)
    rwa [hloadable, hentries] at hdrain

/-- The segments one by one: what is read is what is pending where nothing pending is passed over. -/
lemma contents_eq_pending_iff (hpos : -1 ≤ cursor.pos) (hsorted : InOrder indexers) (pos : ℕ)
    (hown : ∀ indexer ∈ indexers, indexer.segmentId = cursor.segId → pos = (cursor.pos + 1).toNat) :
    (contents docInfo locator (initIndexers docInfo locator cursor indexers pos).1
      (initIndexers docInfo locator cursor indexers pos).2).length
    ≤ (pending docInfo locator cursor indexers).length
    ∧ (Loadable (initIndexers docInfo locator cursor indexers pos).1 (initIndexers docInfo locator cursor indexers pos).2
    ∧ contents docInfo locator (initIndexers docInfo locator cursor indexers pos).1
      (initIndexers docInfo locator cursor indexers pos).2 = pending docInfo locator cursor indexers
    ↔ Reaches docInfo locator cursor indexers pos) := by
  induction indexers generalizing pos with
  | nil => exact ⟨le_rfl, by simp [initIndexers, Loadable, contents, pending, log, Reaches]⟩
  | cons indexer rest ih =>
    obtain ⟨hlater, hrest⟩ := pairwise_cons.mp hsorted
    rw [pending_cons hpos, initIndexers, Reaches]
    split_ifs with hgone hskip hdone
    · have hnil : indexer.operations.drop (startOf cursor indexer) = [] := by
        rcases hgone with hlt | hnone
        · rw [startOf, if_pos hlt, drop_length]
        · simp [OperationLogIndexer.operations, hnone]
      rw [hnil]
      exact ih hrest pos fun i hi => hown i (mem_cons_of_mem _ hi)
    · obtain ⟨hle, hiff⟩ := ih hrest pos fun i hi => hown i (mem_cons_of_mem _ hi)
      rw [length_append, ← hiff, ← filter_eq_nil_iff_slower,
        ← nil_append (contents _ _ _ _), append_eq_append_iff_of_le (Nat.zero_le _) hle]
      refine ⟨by rw [length_append]; simp only [length_nil]; omega, ?_⟩
      rw [eq_comm (b := map _ _), map_eq_nil_iff, eq_comm (a := filter _ _)]
      tauto
    · obtain ⟨heq, hend⟩ := hdone
      have hnil : indexer.operations.drop (startOf cursor indexer) = [] := by
        rw [drop_eq_nil_iff, startOf, if_neg (by omega), if_pos heq]
        omega
      rw [hnil]
      exact ih hrest 0 fun i hi hi' => absurd (hlater i hi) (by omega)
    have hge : cursor.segId ≤ indexer.segmentId := by
      by_contra hlt
      exact hgone (.inl (by omega))
    have hother : ∀ i ∈ rest, i.segmentId ≠ cursor.segId := fun i hi => by
      have := hlater i hi
      omega
    have hstart : startOf cursor indexer ≤ pos := by
      rw [startOf, if_neg (by omega)]
      split
      · exact (hown indexer mem_cons_self ‹_›).ge
      · omega
    obtain ⟨hle, hiff⟩ := ih hrest 0 fun i hi hi' => absurd hi' (hother i hi)
    rw [initIndexers_snd 0 (.inl rfl)] at hle hiff
    dsimp only
    rw [initIndexers_snd pos (.inr hother), initIndexers_fst cursor rest pos 0, contents, Loadable]
    have hlen : ((visibleFrom docInfo locator indexer pos).map (indexer.segmentId, ·)).length
        ≤ (((indexer.operations.drop (startOf cursor indexer)).filter (slower docInfo locator)).map
          (indexer.segmentId, ·)).length := by
      rw [length_map, length_map]
      exact ((visibleFrom_sublist docInfo locator indexer pos).trans
        ((drop_sublist_drop_left _ hstart).filter _)).length_le
    rw [append_eq_append_iff_of_le hlen hle, ← hiff, ← visibleFrom_eq_iff hstart, length_append,
      length_append, (map_injective_iff.mpr (Prod.mk_right_injective indexer.segmentId)).eq_iff]
    exact ⟨by omega, by tauto⟩

lemma drained_of_reaches (hvalid : ∀ op, locator.isFasterThanDoc (docInfo op) ≠ .invalid) (hpos : -1 ≤ cursor.pos)
    (hsorted : InOrder indexers)
    (hreach : Reaches docInfo locator cursor indexers (cursor.pos + 1).toNat) :
    ∃ entries, drained docInfo locator cursor indexers = some entries ∧ (∀ entry ∈ entries, InLog indexers entry.2)
    ∧ entries.map (fun entry => (entry.2.segId, entry.1)) = pending docInfo locator cursor indexers := by
  have hspec := drained_spec hvalid cursor indexers (Prod.mk.eta).symm
  obtain ⟨hload, hcontents⟩ := (contents_eq_pending_iff hpos hsorted _ fun _ _ _ => rfl).2.mpr hreach
  cases hdrained : drained docInfo locator cursor indexers with
  | none =>
    rw [hdrained] at hspec
    exact absurd hload hspec
  | some entries =>
    rw [hdrained] at hspec
    exact ⟨entries, rfl, hspec.2.1, hspec.2.2.trans hcontents⟩

lemma pairwise_log (hsorted : InOrder indexers) :
    (log indexers).Pairwise fun entry later => entry.1.segId ≤ later.1.segId := by
  induction indexers with
  | nil => exact Pairwise.nil
  | cons indexer rest ih =>
    obtain ⟨hlater, hrest⟩ := pairwise_cons.mp hsorted
    rw [log, flatMap_cons, pairwise_append]
    refine ⟨pairwise_map.mpr (pairwise_of_forall fun _ _ => le_rfl), ih hrest, ?_⟩
    intro entry hentry later hmem
    obtain ⟨_, -, rfl⟩ := mem_map.mp hentry
    obtain ⟨indexer', hindexer', hmem⟩ := mem_flatMap.mp hmem
    obtain ⟨_, -, rfl⟩ := mem_map.mp hmem
    exact (hlater indexer' hindexer').le

lemma mem_log {position : OperationCursor} (h : InLog indexers position) : ∃ op, (position, op) ∈ log indexers := by
  obtain ⟨indexer, hmem, hseg, hpos, hlt⟩ := h
  obtain ⟨k, hk⟩ := Int.eq_ofNat_of_zero_le hpos
  have hk' : k < indexer.operations.length := by omega
  refine ⟨indexer.operations[k], mem_flatMap.mpr ⟨indexer, hmem, mem_map.mpr
    ⟨(indexer.operations[k], k), mem_zipIdx_iff_getElem?.mpr (getElem?_eq_getElem hk'), ?_⟩⟩⟩
  rw [← hseg]
  exact congrArg (fun pos => (OperationCursor.mk position.segId pos, indexer.operations[k])) hk.symm

lemma mem_takeWhile_of_segId {cursorEnd : OperationCursor}
    (hsorted : entries.Pairwise fun entry later => entry.2.segId ≤ later.2.segId) {entry : Op × OperationCursor}
    (hmem : entry ∈ entries) (hseg : entry.2.segId < cursorEnd.segId) :
    entry ∈ entries.takeWhile (·.2.Before cursorEnd) := by
  induction entries with
  | nil => cases hmem
  | cons first rest ih =>
    obtain ⟨hfirst, hrest⟩ := pairwise_cons.mp hsorted
    have hbefore : first.2.Before cursorEnd := by
      rcases mem_cons.mp hmem with rfl | hmem
      · exact .inl hseg
      · exact .inl (lt_of_le_of_lt (hfirst entry hmem) hseg)
    rw [takeWhile_cons, if_pos (by simpa using hbefore)]
    rcases mem_cons.mp hmem with rfl | hmem
    · exact mem_cons_self
    · exact mem_cons_of_mem _ (ih hrest hmem)

lemma redo_eq (h : drained docInfo locator cursor indexers = some entries) (cursorEnd : OperationCursor) :
    redo docInfo locator indexers cursor cursorEnd = some ((entries.takeWhile (·.2.Before cursorEnd)).map Prod.fst,
        ((entries.takeWhile (·.2.Before cursorEnd)).getLast?.map Prod.snd).getD cursor) := by
  rw [drained] at h
  rw [redo]
  cases hinit : init docInfo locator indexers cursor with
  | none => simp [hinit] at h
  | some iter =>
    rw [hinit] at h
    exact innerDoOperation_eq cursorEnd _ cursor h

lemma redoOperationsFromCursor_eq (hsorted : InOrder indexers)
    (h : drained docInfo locator cursor indexers = some entries) (hlog : ∀ entry ∈ entries, InLog indexers entry.2) :
    ∃ last, redoOperationsFromCursor docInfo locator indexers cursor = some (entries.map Prod.fst, last) := by
  rw [redoOperationsFromCursor, redo_eq h, takeWhile_eq_self_iff.mpr]
  · exact ⟨_, rfl⟩
  intro entry hentry
  obtain ⟨indexer, hmem, hseg, -⟩ := hlog entry hentry
  rcases eq_nil_or_concat indexers with rfl | ⟨first, last, rfl⟩
  · cases hmem
  rw [concat_eq_append] at *
  rw [getLast?_concat, decide_eq_true_eq]
  refine .inl ?_
  rcases mem_append.mp hmem with hmem | hmem
  · have := (pairwise_append.mp hsorted).2.2 indexer hmem last mem_cons_self
    dsimp only
    omega
  rw [mem_singleton.mp hmem] at hseg
  dsimp only
  omega

lemma exists_entry (h : entries.map (fun entry => (entry.2.segId, entry.1)) = pending docInfo locator cursor indexers)
    {position : OperationCursor} {op : Op} (hmem : (position, op) ∈ log indexers) (hbefore : cursor.Before position)
    (hslower : slower docInfo locator op = true) : ∃ entry ∈ entries, entry.2.segId = position.segId ∧ entry.1 = op := by
  have hpending : (position.segId, op) ∈ pending docInfo locator cursor indexers :=
    mem_map.mpr ⟨(position, op), mem_filter.mpr ⟨hmem, by simp [hbefore, hslower]⟩, rfl⟩
  rw [← h, mem_map] at hpending
  obtain ⟨entry, hentry, heq⟩ := hpending
  exact ⟨entry, hentry, by simpa using heq⟩

/-- The iterator returns exactly the operations after its cursor that the locator does not cover, in their
order, where the locator covers whatever it passes over.  The cursor of such a redo then serves a later one with
more operations and a newer locator: together they miss nothing that is not covered. It passes over nothing else in
the usual case. -/
theorem redo_complete_iff (docInfo : Op → DocInfo) (locator : Locator) (indexers : List (OperationLogIndexer Op))
    (cursor : OperationCursor) (hpos : -1 ≤ cursor.pos)
    (hsorted : indexers.Pairwise fun indexer later => indexer.segmentId < later.segmentId)
    (hvalid : ∀ op, locator.isFasterThanDoc (docInfo op) ≠ .invalid) :
    (returned docInfo locator cursor indexers = some (pending docInfo locator cursor indexers)
        ↔ Reaches docInfo locator cursor indexers (cursor.pos + 1).toNat)
      ∧ (Plain docInfo locator cursor indexers → Reaches docInfo locator cursor indexers (cursor.pos + 1).toNat)
      ∧ ∀ (cursorEnd : OperationCursor) (ops : List Op) (cursor' : OperationCursor) (locator' : Locator)
          (indexers' : List (OperationLogIndexer Op)),
        Reaches docInfo locator cursor indexers (cursor.pos + 1).toNat → cursorEnd.pos ≤ 0 ∨ indexers = [] →
        redo docInfo locator indexers cursor cursorEnd = some (ops, cursor') →
        (indexers'.Pairwise fun indexer later => indexer.segmentId < later.segmentId) →
        (∀ entry ∈ log indexers', entry ∈ log indexers ∨ ∀ old ∈ log indexers, old.1.Before entry.1) →
        (∀ op, locator'.isFasterThanDoc (docInfo op) ≠ .invalid) →
        (∀ op, slower docInfo locator' op = true → slower docInfo locator op = true) →
        Reaches docInfo locator' cursor' indexers' (cursor'.pos + 1).toNat →
        ∃ ops' last, redoOperationsFromCursor docInfo locator' indexers' cursor' = some (ops', last)
          ∧ ∀ entry ∈ log indexers', cursor.Before entry.1 → slower docInfo locator' entry.2 = true →
            entry.2 ∈ ops ∨ entry.2 ∈ ops' := by
  refine ⟨?_, fun hplain => hplain.reaches hsorted, ?_⟩
  · have hspec := drained_spec hvalid cursor indexers (Prod.mk.eta).symm
    rw [← (contents_eq_pending_iff hpos hsorted _ fun _ _ _ => rfl).2, returned]
    cases hdrained : drained docInfo locator cursor indexers with
    | none =>
      rw [hdrained] at hspec
      simp [hspec]
    | some entries =>
      rw [hdrained] at hspec
      rw [Option.map_some, Option.some_inj, hspec.2.2, and_iff_right hspec.1]
  intro cursorEnd ops cursor' locator' indexers' hreach hend hredo hsorted' hgrow hvalid' hnewer hreach'
  obtain ⟨entries, hdrained, hlog, hmap⟩ := drained_of_reaches hvalid hpos hsorted hreach
  rw [redo_eq hdrained, Option.some_inj, Prod.mk.injEq] at hredo
  obtain ⟨rfl, hlast⟩ := hredo
  have hcursor : cursor' = cursor ∨ ∃ entry ∈ entries.takeWhile (·.2.Before cursorEnd), entry.2 = cursor' := by
    cases hget : (entries.takeWhile (·.2.Before cursorEnd)).getLast? with
    | none => exact .inl (by simpa [hget] using hlast.symm)
    | some entry => exact .inr ⟨entry, mem_of_getLast? hget, by simpa [hget] using hlast⟩
  have hpos' : -1 ≤ cursor'.pos := by
    rcases hcursor with rfl | ⟨entry, hentry, rfl⟩
    · exact hpos
    · obtain ⟨-, -, -, hnonneg, -⟩ := hlog entry ((takeWhile_subset _) hentry)
      omega
  obtain ⟨entries', hdrained', hlog', hmap'⟩ := drained_of_reaches hvalid' hpos' hsorted' hreach'
  obtain ⟨last, hredo'⟩ := redoOperationsFromCursor_eq hsorted' hdrained' hlog'
  refine ⟨_, last, hredo', fun entry hentry hbefore hslower => ?_⟩
  by_cases hlater : cursor'.Before entry.1
  · obtain ⟨found, hfound, -, heq⟩ := exists_entry hmap' hentry hlater hslower
    exact .inr (mem_map.mpr ⟨found, hfound, heq⟩)
  -- the first redo has already passed this operation
  rcases hcursor with rfl | ⟨taken, htaken, rfl⟩
  · exact absurd hbefore hlater
  have hin := hlog taken (takeWhile_subset _ htaken)
  obtain ⟨op, hop⟩ := mem_log hin
  have hold : entry ∈ log indexers := (hgrow entry hentry).resolve_right fun h => hlater (h _ hop)
  obtain ⟨found, hfound, hseg, heq⟩ := exists_entry hmap hold hbefore (hnewer _ hslower)
  refine .inl (mem_map.mpr ⟨found, mem_takeWhile_of_segId ?_ hfound ?_, heq⟩)
  · have hpairs : (entries.map fun entry => (entry.2.segId, entry.1)).Pairwise fun a b => a.1 ≤ b.1 := by
      rw [hmap, pending, pairwise_map]
      exact (pairwise_log hsorted).filter _
    rwa [pairwise_map] at hpairs
  have hle : entry.1.segId ≤ taken.2.segId := by
    by_contra hgt
    exact hlater (.inl (by omega))
  obtain ⟨indexer, hmem, -, hnonneg, -⟩ := hin
  have hbefore' : taken.2.Before cursorEnd := by simpa using mem_takeWhile_imp htaken
  rcases hend with hzero | rfl
  · rcases hbefore' with hlt | ⟨-, hlt⟩ <;> omega
  · cases hmem

end

/-! ## A segment that is skipped keeps its position -/

/-- Operations as their timestamps. -/
def stamped (timestamp : ℕ) : DocInfo := ⟨Int64.ofNat timestamp, 0, 0, 0⟩

def consumedTo (timestamp : ℕ) : Locator := ⟨0, toLex (timestamp, 0), [[⟨0, 65535, toLex (timestamp, 0)⟩]], [], false⟩

def sealedLog (segmentId : ℤ) (timestamps : List ℕ) : OperationLogIndexer ℕ :=
  ⟨segmentId, true, true, some [timestamps], by simp⟩

lemma consumedTo_valid (timestamp op : ℕ) : (consumedTo timestamp).isFasterThanDoc (stamped op) ≠ .invalid := by
  have hsource : (consumedTo timestamp).multiProgress[(stamped op).sourceIdx.toNat]? = some _ := rfl
  rw [Locator.isFasterThanDoc, hsource]
  dsimp only
  split_ifs
  · simp
  split
  · simp
  · split_ifs <;> simp

/-- The first segment is below the locator, so that it is skipped, and its position is taken for the second. -/
theorem skipped_segment_loses :
    returned stamped (consumedTo 10) ⟨1, 0⟩ [sealedLog 1 [1, 2], sealedLog 2 [20, 21]] = some [(2, 21)]
      ∧ pending stamped (consumedTo 10) ⟨1, 0⟩ [sealedLog 1 [1, 2], sealedLog 2 [20, 21]] = [(2, 20), (2, 21)] := by
  decide

/-- The redo starts behind the first operation, and all others come back. -/
theorem two_segments_complete : returned stamped (consumedTo 2) ⟨1, 0⟩ [sealedLog 1 [1, 2], sealedLog 2 [20, 21]]
      = some [(1, 2), (2, 20), (2, 21)] :=
  (redo_complete_iff stamped (consumedTo 2) [sealedLog 1 [1, 2], sealedLog 2 [20, 21]] ⟨1, 0⟩ (by decide) (by decide)
    (consumedTo_valid 2)).1.mpr (by
      simp only [Reaches, Readable]
      decide)

end Havenask.OperationLog
