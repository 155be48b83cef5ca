import Havenask.Lib.IntervalMap

/-!
# Progress vectors and locators

`framework/Locator.{h,cpp}` and `base/Progress.h`.  A locator says how far each source of a tablet
has been consumed: for every source a vector of *progresses*, each giving one offset to a range of
hash ids, plus the cached minimum of those offsets and an opaque user string.

This file is the model.  `Update` walks the sources in order and commits each one as soon as its
own merge succeeds; the merge itself (`UpdateProgressVec`) sweeps two range lists against each
other through `CompareStruct`, a cursor together with the residual left end of the range under it.
The comparisons `IsFasterThan` come in two levels, one against a document and one against another
locator.  Serialisation is in `Framework/LocatorSerialize.lean`.

`uint32_t` range ends are naturals, with the one sum that may wrap taken modulo `2 ^ 32`; offsets
are the lexicographically ordered pairs of `std::pair<int64_t, uint32_t>`.
-/

namespace Havenask

/-- `Progress::Offset`, a `std::pair<int64_t, uint32_t>` with its lexicographic order. -/
abbrev Offset := ℤ ×ₗ ℕ

/-- The offset fits its `int64_t` and its `uint32_t`. -/
def Offset.Fits (o : Offset) : Prop := -2 ^ 63 ≤ (ofLex o).1 ∧ (ofLex o).1 < 2 ^ 63 ∧ (ofLex o).2 < 2 ^ 32

instance (o : Offset) : Decidable o.Fits := inferInstanceAs (Decidable (_ ∧ _))

/-- One offset for the hash ids `from .. to`. -/
structure Progress where
  «from» : ℕ
  «to» : ℕ
  offset : Offset
  deriving DecidableEq

namespace Progress

def invalidOffset : Offset := toLex (-1, 0)

def minOffset : Offset := toLex (0, 0)

instance : Inhabited Progress := ⟨⟨0, 65535, invalidOffset⟩⟩

/-- A progress as an interval of hash ids carrying its offset. -/
def view : IntervalMap.View Progress Offset := ⟨Progress.from, Progress.to, Progress.offset⟩

variable (p : Progress)

@[simp] lemma view_lo : view.lo p = p.from := rfl
@[simp] lemma view_hi : view.hi p = p.to := rfl
@[simp] lemma view_val : view.val p = p.offset := rfl

lemma has_iff (h : ℕ) : view.Has p h ↔ p.from ≤ h ∧ h ≤ p.to := Iff.rfl

end Progress

abbrev ProgressVector := List Progress

abbrev MultiProgress := List ProgressVector

structure Locator where
  src : ℕ
  minOffset : Offset
  multiProgress : MultiProgress
  userData : List UInt8
  isLegacyLocator : Bool
  deriving DecidableEq

/-- `Locator()`. -/
instance : Inhabited Locator := ⟨⟨0, Progress.invalidOffset, [[]], [], false⟩⟩

/-! ## The sweep over two progress vectors -/

/-- A cursor into a progress vector; `from` replaces the left end of the range under it. -/
structure CompareStruct where
  progressPtr : ProgressVector
  cursor : ℕ
  «from» : ℕ

namespace CompareStruct

def init (progress : ProgressVector) : CompareStruct :=
  ⟨progress, 0, match progress with
    | [] => 0
    | p :: _ => p.from⟩

variable (c : CompareStruct)

def isEof : Bool := decide (c.progressPtr.length ≤ c.cursor)

def getCurrentProgress : Progress := { c.progressPtr.getD c.cursor default with «from» := c.from }

def getCurrentOffset : Offset := (c.progressPtr.getD c.cursor default).offset

def moveToNext : CompareStruct :=
  let next : CompareStruct := { c with cursor := c.cursor + 1 }
  if next.isEof then next
  else { next with «from» := (c.progressPtr.getD next.cursor default).from }

end CompareStruct

/-- The leftmost piece of two range lists, and the two cursors moved past it; `none` is the
`{false, Progress()}` of the source, an update that goes backwards. -/
def getLeftProgress (currentProgress updateProgress : CompareStruct) :
    Option Progress × CompareStruct × CompareStruct :=
  let current := currentProgress.getCurrentProgress
  let update := updateProgress.getCurrentProgress
  if current.from < update.from then
    if current.to < update.from then
      (some current, currentProgress.moveToNext, updateProgress)
    else
      (some { current with «to» := update.from - 1 }, { currentProgress with «from» := update.from }, updateProgress)
  else if update.from < current.from then
    if update.to < current.from then
      (some update, currentProgress, updateProgress.moveToNext)
    else
      (some { update with «to» := current.from - 1 }, currentProgress, { updateProgress with «from» := current.from })
  else
    let updateOffset := updateProgress.getCurrentOffset
    let currentOffset := currentProgress.getCurrentOffset
    if updateOffset ≠ Progress.invalidOffset ∧ updateOffset < currentOffset then
      (none, currentProgress, updateProgress)
    else if update.to < current.to then
      (some update, { currentProgress with «from» := update.to + 1 }, updateProgress.moveToNext)
    else if current.to < update.to then
      (some { current with offset := updateOffset }, currentProgress.moveToNext,
        { updateProgress with «from» := current.to + 1 })
    else
      (some update, currentProgress.moveToNext, updateProgress.moveToNext)

/-- One progress appended to the merged vector, or glued to its last range.  The sum of the
comparison is a `uint32_t`. -/
def mergeStep (mergeResult : ProgressVector) (progress : Progress) : ProgressVector :=
  match mergeResult.getLast? with
  | none => [progress]
  | some last =>
    if last.offset = progress.offset ∧ (last.to + 1) % 2 ^ 32 = progress.from then
      mergeResult.dropLast ++ [{ last with «to» := progress.to }]
    else mergeResult ++ [progress]

def mergeProgress (progresses : ProgressVector) : ProgressVector := progresses.foldl mergeStep []

/-- What is left under a cursor, read off with `GetCurrentProgress` and `MoveToNext`. -/
def drain : ℕ → CompareStruct → ProgressVector
  | 0, _ => []
  | n + 1, c => if c.isEof then [] else c.getCurrentProgress :: drain n c.moveToNext

/-- The three loops of `UpdateProgressVec`: sweep while both cursors have a range, then take what
is left of either. -/
def updateLoop : ℕ → CompareStruct → CompareStruct → ProgressVector → Option ProgressVector
  | 0, _, _, _ => none
  | fuel + 1, currentProgress, updateProgress, updateResult =>
    if currentProgress.isEof || updateProgress.isEof then
      some (updateResult ++ drain currentProgress.progressPtr.length currentProgress
        ++ drain updateProgress.progressPtr.length updateProgress)
    else
      match getLeftProgress currentProgress updateProgress with
      | (none, _, _) => none
      | (some progress, currentProgress', updateProgress') =>
        updateLoop fuel currentProgress' updateProgress' (updateResult ++ [progress])

/-- Both vectors are one range, and the same one. -/
def sameSingleRange (current progressVec : ProgressVector) : Option (Progress × Progress) :=
  match current, progressVec with
  | [c], [u] => if u.from = c.from ∧ u.to = c.to then some (c, u) else none
  | _, _ => none

/-- `UpdateProgressVec` on the vector of one source; `none` is `false`, and then the source keeps
its vector.  Each round of the sweep moves a cursor or makes the two left ends equal, so twice the
number of ranges bounds the rounds. -/
def updateProgressVec (current progressVec : ProgressVector) : Option ProgressVector :=
  match sameSingleRange current progressVec with
  | some (c, u) => if u.offset < c.offset then none else some [{ c with offset := u.offset }]
  | none =>
    (updateLoop (2 * (current.length + progressVec.length) + 2) (.init current)
      (.init progressVec) []).map mergeProgress

namespace Locator

/-- The loop of `Update` over the sources.  A source whose merge succeeds is committed at once, so
a later failure leaves the earlier sources merged. -/
def updateSources : MultiProgress → MultiProgress → Bool × MultiProgress
  | current :: currents, progressVec :: progressVecs =>
    match updateProgressVec current progressVec with
    | none => (false, current :: currents)
    | some merged =>
      let (ok, rest) := updateSources currents progressVecs
      (ok, merged :: rest)
  | currents, _ => (true, currents)

/-- The minimum as `Update` recomputes it: `INVALID_OFFSET` also stands for "not set yet". -/
def recomputeMinOffset (multiProgress : MultiProgress) : Offset :=
  multiProgress.flatten.foldl (fun minOffset progress =>
    if minOffset = Progress.invalidOffset then progress.offset
    else min minOffset progress.offset) Progress.invalidOffset

def update (self other : Locator) : Bool × Locator :=
  if other.src ≠ self.src then (true, other)
  else if self.multiProgress.length ≠ other.multiProgress.length then (false, self)
  else
    match updateSources self.multiProgress other.multiProgress with
    | (false, multiProgress) => (false, { self with multiProgress })
    | (true, multiProgress) =>
      (true, { self with
        multiProgress
        minOffset := recomputeMinOffset multiProgress
        userData := other.userData })

end Locator

/-! ## Comparisons -/

/-- How far a locator is, compared with another one or with a document. -/
inductive LocatorCompareResult
  | invalid | slower | partialFaster | fullyFaster
  deriving DecidableEq

/-- The position of a document in its source. -/
structure DocInfo where
  timestamp : Int64
  concurrentIdx : UInt32
  hashId : UInt16
  sourceIdx : UInt8

def DocInfo.getProgressOffset (d : DocInfo) : Offset := toLex (d.timestamp.toInt, d.concurrentIdx.toNat)

/-- The inner loop of `IsFullyFasterThan`: is the range `otherProgress` covered, from its left end
on, by ranges at least as far?  The left end shrinks as ranges are used up. -/
def hasFullyFaster : ProgressVector → Progress → Bool
  | [], _ => false
  | currentProgress :: rest, otherProgress =>
    if otherProgress.offset ≤ Progress.minOffset then true
    else if otherProgress.from < currentProgress.from then false
    else if currentProgress.to < otherProgress.from then hasFullyFaster rest otherProgress
    else if otherProgress.to ≤ currentProgress.to then
      decide (otherProgress.offset ≤ currentProgress.offset)
    else if currentProgress.offset < otherProgress.offset then false
    else hasFullyFaster rest { otherProgress with «from» := currentProgress.to + 1 }

def isFullyFasterThanVec (progressVec otherProgressVec : ProgressVector) : Bool :=
  otherProgressVec.all (hasFullyFaster progressVec)

namespace Locator

def isValid (self : Locator) : Bool :=
  decide (Progress.minOffset ≤ self.minOffset)
    || self.multiProgress.any fun progressVec =>
      progressVec.any fun progress => decide (Progress.minOffset ≤ progress.offset)

def getMaxOffset (self : Locator) : Offset :=
  self.multiProgress.flatten.foldl (fun ret progress => max ret progress.offset)
    Progress.invalidOffset

def isFullyFasterThan (self other : Locator) : Bool :=
  (self.multiProgress.zip other.multiProgress).all fun (progressVec, otherProgressVec) =>
    isFullyFasterThanVec progressVec otherProgressVec

def isSameSrc (self other : Locator) (ignoreLegacyDiffSrc : Bool) : Bool :=
  (ignoreLegacyDiffSrc && (self.isLegacyLocator || other.isLegacyLocator))
    || decide (self.src = other.src)

/-- `IsFasterThan(const DocInfo&)`. -/
def isFasterThanDoc (self : Locator) (docInfo : DocInfo) : LocatorCompareResult :=
  if !self.isValid then .slower
  else
    match self.multiProgress[docInfo.sourceIdx.toNat]? with
    | none => .invalid
    | some progressVec =>
      match progressVec.find? fun p =>
          decide (p.from ≤ docInfo.hashId.toNat ∧ docInfo.hashId.toNat ≤ p.to) with
      | none => .slower
      | some p => if docInfo.getProgressOffset < p.offset then .fullyFaster else .slower

/-- `IsFasterThan(const Locator&, bool)`. -/
def isFasterThan (self other : Locator) (ignoreLegacyDiffSrc : Bool) : LocatorCompareResult :=
  if !self.isSameSrc other ignoreLegacyDiffSrc then .invalid
  else if ignoreLegacyDiffSrc && (self.isLegacyLocator || other.isLegacyLocator) then
    if self.isLegacyLocator then
      if self.minOffset < other.minOffset then .slower
      else if other.getMaxOffset ≤ self.minOffset then .fullyFaster
      else .partialFaster
    else
      if other.minOffset ≤ self.minOffset then .fullyFaster
      else if self.getMaxOffset < other.minOffset then .slower
      else .partialFaster
  else if !other.isValid then .fullyFaster
  else if !self.isValid then .slower
  else if self.multiProgress.length ≠ other.multiProgress.length then .invalid
  else if self.isFullyFasterThan other then .fullyFaster
  else if other.isFullyFasterThan self then .slower
  else .partialFaster

end Locator

/-! ## Well-formed progress vectors -/

/-- The offset a progress vector gives to a hash id. -/
def offsetAt (v : ProgressVector) (h : ℕ) : Option Offset := IntervalMap.lookup Progress.view v h

/-- Some range of the vector contains the hash id. -/
def covers (v : ProgressVector) (h : ℕ) : Prop := ∃ p ∈ v, p.from ≤ h ∧ h ≤ p.to

lemma covers_iff_offsetAt (v : ProgressVector) (h : ℕ) : covers v h ↔ (offsetAt v h).isSome :=
  (IntervalMap.lookup_isSome_iff Progress.view v h).symm

/-- Sorted by `from`, with non-empty, pairwise disjoint ranges of `uint32_t`. -/
@[mk_iff]
structure WellFormed (v : ProgressVector) : Prop where
  fits : ∀ p ∈ v, p.to < 2 ^ 32
  from_le_to : ∀ p ∈ v, p.from ≤ p.to
  sorted : v.Pairwise fun p q => p.from ≤ q.from
  disjoint : v.Pairwise fun p q => p.to < q.from ∨ q.to < p.from

instance (v : ProgressVector) : Decidable (WellFormed v) := decidable_of_iff' _ (wellFormed_iff v)

lemma WellFormed.ordered {v : ProgressVector} (hv : WellFormed v) : IntervalMap.Ordered Progress.view v := by
  refine ⟨hv.from_le_to, ?_⟩
  have hboth := hv.sorted.and hv.disjoint
  refine hboth.imp_of_mem ?_
  rintro p q hp hq ⟨hle, hdis⟩
  have hq' := hv.from_le_to q hq
  show p.to < q.from
  omega

lemma WellFormed.of_ordered {v : ProgressVector} (hfits : ∀ p ∈ v, p.to < 2 ^ 32)
    (hv : IntervalMap.Ordered Progress.view v) : WellFormed v where
  fits := hfits
  from_le_to := hv.1
  sorted := by
    refine hv.2.imp_of_mem ?_
    intro p q hp _ hlt
    have hp' : p.from ≤ p.to := hv.1 p hp
    have hlt' : p.to < q.from := hlt
    omega
  disjoint := hv.2.imp fun h => Or.inl h

namespace Locator

/-- The progress vector of a source; empty past the last one. -/
def source (L : Locator) (i : ℕ) : ProgressVector := L.multiProgress.getD i []

/-- All progress vectors of the locator are well formed. -/
def WellFormed (L : Locator) : Prop := ∀ v ∈ L.multiProgress, Havenask.WellFormed v

instance (L : Locator) : Decidable L.WellFormed := inferInstanceAs (Decidable (∀ v ∈ _, _))

lemma WellFormed.source {L : Locator} (hL : L.WellFormed) (i : ℕ) : Havenask.WellFormed (L.source i) := by
  rw [Locator.source, List.getD_eq_getElem?_getD]
  cases hi : L.multiProgress[i]? with
  | none => decide
  | some v => exact hL v (List.mem_of_getElem? hi)

end Locator

end Havenask
