import Havenask.Framework.LocatorSweep

/-!
# `Locator::Update`

What an update does to a locator, source by source and hash id by hash id.

* **One source.**  `updateProgressVec_spec`: a successful merge writes the update over the current
  vector, pointwise, and leaves a well-formed vector with nothing to glue.
  `updateProgressVec_eq_none_iff`: it fails where the update is refused, and the rule depends on
  the path.  The sweep lets `INVALID_OFFSET` through (`RejectsAt`); the short path for one identical
  range does not (`BackwardAt`).
* **All sources.**  `source_update`: a source is committed when it and every source before it
  accept.  Hence an update that fails late has already changed the earlier sources, which is what
  `update_atomic_iff` measures.
* **The whole update.**  `update_pointwise` (the overwrite), and `update_exact_iff`: exactly when the
  result is "accepted iff nothing goes backwards", independently of how ranges are split.
-/

namespace Havenask

open IntervalMap List Option Locator

/-! ## One source -/

/-- The update is behind the current offset at the hash id `h`. -/
def BackwardAt (v w : ProgressVector) (h : ℕ) : Prop :=
  ∃ o o', offsetAt v h = some o ∧ offsetAt w h = some o' ∧ o' < o

/-- `INVALID_OFFSET` written over a greater offset at the hash id `h`. -/
def ErasesAt (v w : ProgressVector) (h : ℕ) : Prop :=
  ∃ o, offsetAt v h = some o ∧ offsetAt w h = some Progress.invalidOffset
    ∧ Progress.invalidOffset < o

lemma backwardAt_iff (v w : ProgressVector) (h : ℕ) : BackwardAt v w h ↔ RejectsAt v w h ∨ ErasesAt v w h := by
  constructor
  · rintro ⟨o, o', ho, ho', hlt⟩
    by_cases hinv : o' = Progress.invalidOffset
    · subst hinv
      exact Or.inr ⟨o, ho, ho', hlt⟩
    · exact Or.inl ⟨o, o', ho, ho', hinv, hlt⟩
  · rintro (⟨o, o', ho, ho', -, hlt⟩ | ⟨o, ho, ho', hlt⟩)
    · exact ⟨o, o', ho, ho', hlt⟩
    · exact ⟨o, _, ho, ho', hlt⟩

lemma sameSingleRange_eq_some {v w : ProgressVector} {c u : Progress} (h : sameSingleRange v w = some (c, u)) :
    v = [c] ∧ w = [u] ∧ u.from = c.from ∧ u.to = c.to := by
  unfold sameSingleRange at h
  split at h
  · split_ifs at h with heq
    simp only [some.injEq, Prod.mk.injEq] at h
    obtain ⟨rfl, rfl⟩ := h
    exact ⟨rfl, rfl, heq.1, heq.2⟩
  · simp at h

lemma offsetAt_singleton (p : Progress) (h : ℕ) :
    offsetAt [p] h = if p.from ≤ h ∧ h ≤ p.to then some p.offset else none := by
  rw [offsetAt, lookup_cons, lookup_nil]
  rfl

/-- A merge that succeeds writes the update over the current vector. -/
theorem updateProgressVec_spec {v w r : ProgressVector} (hv : WellFormed v) (hw : WellFormed w)
    (h : updateProgressVec v w = some r) :
    WellFormed r ∧ (∀ x, offsetAt r x = overlay v w x) ∧ r.IsChain fun p q => ¬ Glueable p q := by
  unfold updateProgressVec at h
  cases hsame : sameSingleRange v w with
  | some cu =>
    obtain ⟨c, u⟩ := cu
    obtain ⟨rfl, rfl, hfrom, hto⟩ := sameSingleRange_eq_some hsame
    simp only [hsame] at h
    split_ifs at h with hlt
    simp only [some.injEq] at h
    subst h
    refine ⟨?_, fun x => ?_, isChain_singleton _⟩
    · refine WellFormed.of_ordered ?_ (ordered_cons.mpr ⟨?_, by simp, ordered_nil⟩)
      · intro p hp
        rw [mem_singleton.mp hp]
        exact hv.fits c (by simp)
      · exact hv.from_le_to c (by simp)
    · simp only [overlay, offsetAt_singleton, hfrom, hto]
      split_ifs <;> simp
  | none =>
    simp only [hsame, map_eq_some_iff] at h
    obtain ⟨pieces, hloop, rfl⟩ := h
    have hspec := updateLoop_spec (2 * (v.length + w.length) + 2) (.init v) (.init w) []
    simp only [CompareStruct.rest_init] at hspec
    have hfuel := sweepMeasure_le v w
    have hres := hspec hv.ordered hw.ordered (by omega)
    rw [hloop] at hres
    obtain ⟨pieces', hpieces, hsweep⟩ := hres
    rw [nil_append] at hpieces
    subst hpieces
    have hfits := hsweep.to_lt _ hv.fits hw.fits
    have hglued := mergeProgress_glued pieces hsweep.ordered hfits
    refine ⟨WellFormed.of_ordered (hglued.to_lt _ hfits) hglued.ordered, fun x => ?_, hglued.chain⟩
    rw [hglued.offset, hsweep.offset]

/-- A merge fails where the update is refused; on the short path every step back counts. -/
theorem updateProgressVec_eq_none_iff {v w : ProgressVector} (hv : WellFormed v) (hw : WellFormed w) :
    updateProgressVec v w = none ↔ (∃ h, RejectsAt v w h)
    ∨ (sameSingleRange v w).isSome ∧ ∃ h, ErasesAt v w h := by
  unfold updateProgressVec
  cases hsame : sameSingleRange v w with
  | some cu =>
    obtain ⟨c, u⟩ := cu
    obtain ⟨rfl, rfl, hfrom, hto⟩ := sameSingleRange_eq_some hsame
    have hc : c.from ≤ c.to := hv.from_le_to c (by simp)
    have hback : (∃ h, BackwardAt [c] [u] h) ↔ u.offset < c.offset := by
      constructor
      · rintro ⟨h, o, o', ho, ho', hlt⟩
        rw [offsetAt_singleton] at ho ho'
        split_ifs at ho ho'
        cases ho
        cases ho'
        exact hlt
      · intro hlt
        refine ⟨c.from, c.offset, u.offset, ?_, ?_, hlt⟩
        · rw [offsetAt_singleton, if_pos ⟨le_rfl, hc⟩]
        · rw [offsetAt_singleton, if_pos (by omega)]
    simp only [backwardAt_iff, exists_or] at hback
    simp only [isSome_some, true_and, hback]
    split_ifs with hlt
    · simp [hlt]
    · simp [hlt]
  | none =>
    have hspec := updateLoop_spec (2 * (v.length + w.length) + 2) (.init v) (.init w) []
    simp only [CompareStruct.rest_init] at hspec
    have hfuel := sweepMeasure_le v w
    have hres := hspec hv.ordered hw.ordered (by omega)
    cases hloop : updateLoop (2 * (v.length + w.length) + 2) (.init v) (.init w) [] with
    | none =>
      rw [hloop] at hres
      simpa using hres
    | some pieces =>
      rw [hloop] at hres
      obtain ⟨pieces', -, hsweep⟩ := hres
      have hno : ¬ ∃ h, RejectsAt v w h := fun ⟨h, hrej⟩ => hsweep.accepted h hrej
      simp [hno]

/-! ## All sources -/

lemma updateProgressVec_nil : updateProgressVec [] [] = some [] := by decide

/-- The loop succeeds when every source accepts, and a source is committed when it and all sources before it
accept. -/
theorem updateSources_spec : ∀ (vs ws : MultiProgress), vs.length = ws.length → ((updateSources vs ws).1 = true
    ↔ ∀ j, (updateProgressVec (vs.getD j []) (ws.getD j [])).isSome)
    ∧ ∀ i, (updateSources vs ws).2.getD i [] =
    if ∀ j ≤ i, (updateProgressVec (vs.getD j []) (ws.getD j [])).isSome then
      (updateProgressVec (vs.getD i []) (ws.getD i [])).getD [] else vs.getD i []
  | [], [], _ => by simp [updateSources, updateProgressVec_nil]
  | [], w :: ws, hlen => by simp at hlen
  | v :: vs, [], hlen => by simp at hlen
  | v :: vs, w :: ws, hlen => by
    obtain ⟨hok, hget⟩ := updateSources_spec vs ws (by simpa using hlen)
    rw [updateSources]
    cases hvw : updateProgressVec v w with
    | none =>
      have hzero : ¬ (updateProgressVec ((v :: vs).getD 0 []) ((w :: ws).getD 0 [])).isSome := by simp [hvw]
      refine ⟨?_, fun i => ?_⟩
      · simp only [Bool.false_eq_true, false_iff, not_forall]
        exact ⟨0, hzero⟩
      · rw [if_neg fun hall => hzero (hall 0 (Nat.zero_le i))]
    | some r =>
      -- the first source accepts, so the others decide
      have hiff (P : ℕ → Prop) (hP : P 0) : (∀ j, P j → (updateProgressVec ((v :: vs).getD j [])
          ((w :: ws).getD j [])).isSome)
          ↔ ∀ j, P (j + 1) → (updateProgressVec (vs.getD j []) (ws.getD j [])).isSome := by
        refine ⟨fun hall j hj => by simpa using hall (j + 1) hj, fun hall j hj => ?_⟩
        cases j with
        | zero => simp [hvw]
        | succ j => simpa using hall j hj
      refine ⟨?_, fun i => ?_⟩
      · simpa [hok] using (hiff (fun _ => True) trivial).symm
      cases i with
      | zero => rw [if_pos ((hiff (· ≤ 0) le_rfl).mpr (by simp))]; simp [hvw]
      | succ i =>
        simp only [hiff (· ≤ i + 1) (Nat.zero_le _), Nat.add_le_add_iff_right, getD_cons_succ]
        exact hget i

lemma updateSources_length : ∀ vs ws : MultiProgress, (updateSources vs ws).2.length = vs.length
  | [], ws => by simp [updateSources]
  | v :: vs, [] => by simp [updateSources]
  | v :: vs, w :: ws => by
    rw [updateSources]
    cases updateProgressVec v w with
    | none => rfl
    | some r => simp [updateSources_length vs ws]

namespace Locator

/-- The merge of one source on its own. -/
def updateSource (L M : Locator) (i : ℕ) : Option ProgressVector := updateProgressVec (L.source i) (M.source i)

variable {L M : Locator}

section
variable (hsrc : M.src = L.src) (hlen : L.multiProgress.length = M.multiProgress.length)
include hsrc hlen

/-- With the same number of sources, an update is the loop over them. -/
lemma update_of_length_eq : (L.update M).1 = (updateSources L.multiProgress M.multiProgress).1
    ∧ (L.update M).2.multiProgress = (updateSources L.multiProgress M.multiProgress).2 := by
  rw [update, if_neg (not_not.mpr hsrc), if_neg (not_not.mpr hlen)]
  cases hloop : updateSources L.multiProgress M.multiProgress with
  | mk ok multiProgress => cases ok <;> exact ⟨rfl, rfl⟩

lemma update_fst_iff : (L.update M).1 = true ↔ ∀ i, (L.updateSource M i).isSome := by
  rw [(update_of_length_eq hsrc hlen).1]
  exact (updateSources_spec _ _ hlen).1

lemma source_update (i : ℕ) : (L.update M).2.source i = if ∀ j ≤ i, (L.updateSource M j).isSome then
      (L.updateSource M i).getD [] else L.source i := by
  rw [source, (update_of_length_eq hsrc hlen).2]
  exact (updateSources_spec _ _ hlen).2 i

lemma exists_first_refusal (hfail : (L.update M).1 = false) :
    ∃ i, L.updateSource M i = none ∧ ∀ j < i, (L.updateSource M j).isSome := by
  have hex : ∃ i, L.updateSource M i = none := by
    by_contra hno
    push Not at hno
    have htrue := (update_fst_iff hsrc hlen).mpr fun i => isSome_iff_ne_none.mpr (hno i)
    rw [hfail] at htrue
    simp at htrue
  classical
  refine ⟨Nat.find hex, Nat.find_spec hex, fun j hj => ?_⟩
  exact isSome_iff_ne_none.mpr (Nat.find_min hex hj)

end

/-- In source `i` both locators have one range, the same one, and the update would erase it. -/
def ErasesSingleRange (L M : Locator) (i : ℕ) : Prop :=
  (sameSingleRange (L.source i) (M.source i)).isSome
    ∧ ∃ h, ErasesAt (L.source i) (M.source i) h

/-- Source `i` refuses the update: an offset other than `INVALID_OFFSET` is behind, or the one range that both
have would be erased. -/
def Refuses (L M : Locator) (i : ℕ) : Prop :=
  (∃ h, RejectsAt (L.source i) (M.source i) h) ∨ L.ErasesSingleRange M i

/-- Source `i` is what the update would make of it: where the update has an offset it is the current one, and no
two neighbouring ranges touch with equal offsets, since a merge would glue these. -/
def Unmoved (L M : Locator) (i : ℕ) : Prop :=
  (∀ h o, offsetAt (M.source i) h = some o → offsetAt (L.source i) h = some o)
    ∧ (L.source i).IsChain fun p q => ¬ Glueable p q

lemma updateSource_eq_none_iff (hL : L.WellFormed) (hM : M.WellFormed) (i : ℕ) :
    L.updateSource M i = none ↔ L.Refuses M i :=
  updateProgressVec_eq_none_iff (hL.source i) (hM.source i)

/-- A merge leaves a source as it is when the update has nothing new for it.  The merged vector has the same
offsets then and nothing to glue, and there is one such vector only. -/
lemma updateSource_eq_source_iff (hL : L.WellFormed) (hM : M.WellFormed) {i : ℕ} (hi : (L.updateSource M i).isSome) :
    L.updateSource M i = some (L.source i) ↔ L.Unmoved M i := by
  obtain ⟨r, hr⟩ := isSome_iff_exists.mp hi
  obtain ⟨hwf, hoff, hchain⟩ := updateProgressVec_spec (hL.source i) (hM.source i) hr
  rw [hr, some.injEq]
  constructor
  · rintro rfl
    refine ⟨fun h o ho => ?_, hchain⟩
    rw [hoff, overlay, ho, some_or]
  · rintro ⟨hsame, hchain'⟩
    refine hwf.ordered.eq_of_lookup_eq ?_ (hL.source i).ordered hchain hchain' fun h => (hoff h).trans ?_
    · intro p q hfrom hto hoffset
      cases p
      cases q
      cases hfrom
      cases hto
      cases hoffset
      rfl
    · rw [overlay]
      cases hm : offsetAt (M.source i) h with
      | none => rfl
      | some o => exact (hsame h o hm).symm

lemma updateSource_of_update (hsrc : M.src = L.src)
    (hlen : L.multiProgress.length = M.multiProgress.length) (hok : (L.update M).1 = true)
    (i : ℕ) : L.updateSource M i = some ((L.update M).2.source i) := by
  have hall := (update_fst_iff hsrc hlen).mp hok
  obtain ⟨r, hr⟩ := isSome_iff_exists.mp (hall i)
  rw [source_update hsrc hlen, if_pos fun j _ => hall j, hr, getD_some]

/-- **A successful update is a pointwise overwrite.**  In every source the new vector covers what
either vector covered, takes the offset of the update where the update has one and keeps the old
offset elsewhere; it is again well formed, and no two neighbours touch with equal offsets. -/
theorem update_pointwise (L M : Locator) (hsrc : M.src = L.src)
    (hlen : L.multiProgress.length = M.multiProgress.length) (hL : L.WellFormed)
    (hM : M.WellFormed) (hok : (L.update M).1 = true) (i : ℕ) :
    (∀ h, (covers ((L.update M).2.source i) h ↔ covers (L.source i) h ∨ covers (M.source i) h)
        ∧ (covers (M.source i) h → offsetAt ((L.update M).2.source i) h = offsetAt (M.source i) h)
        ∧ (¬ covers (M.source i) h → offsetAt ((L.update M).2.source i) h = offsetAt (L.source i) h))
      ∧ Havenask.WellFormed ((L.update M).2.source i)
      ∧ ((L.update M).2.source i).IsChain fun p q => ¬ (p.offset = q.offset ∧ p.to + 1 = q.from) := by
  obtain ⟨hwf, hoff, hchain⟩ := updateProgressVec_spec (hL.source i) (hM.source i)
    (updateSource_of_update hsrc hlen hok i)
  refine ⟨fun h => ?_, hwf, hchain⟩
  simp only [covers_iff_offsetAt, hoff h, overlay]
  cases hM' : offsetAt (M.source i) h with
  | none => simp
  | some o => simp

/-- Two ranges updated across their border: the middle moves on, the rest keeps its offsets. -/
theorem update_pointwise_across_border :
    let L : Locator := ⟨7, toLex (10, 0), [[⟨0, 99, toLex (10, 0)⟩, ⟨100, 200, toLex (11, 0)⟩]], [], false⟩
    let M : Locator := ⟨7, toLex (12, 0), [[⟨50, 150, toLex (12, 0)⟩]], [], false⟩
    offsetAt ((L.update M).2.source 0) 70 = some (toLex (12, 0))
      ∧ offsetAt ((L.update M).2.source 0) 170 = some (toLex (11, 0)) := by
  intro L M
  have hL : L.WellFormed := by decide
  have hM : M.WellFormed := by decide
  have h := (update_pointwise L M rfl rfl hL hM (by decide) 0).1
  refine ⟨((h 70).2.1 ?_).trans (by decide), ((h 170).2.2 ?_).trans (by decide)⟩
  · rw [covers_iff_offsetAt]
    decide
  · rw [covers_iff_offsetAt]
    decide

end Locator

/-! ## Going backwards, and splitting ranges

The header asks that the other locator be "fully faster" for an update to be accepted.  Whether
that is what happens depends on `INVALID_OFFSET` and on the path: the sweep lets it through, the
short path refuses it, and splitting a range turns the short path into the sweep.
-/

/-- One range replaced by two adjacent ranges with its offset. -/
inductive SplitRange : ProgressVector → ProgressVector → Prop
  | split (pre suf : ProgressVector) (p : Progress) (m : ℕ) (hlo : p.from ≤ m) (hhi : m < p.to) :
      SplitRange (pre ++ p :: suf)
        (pre ++ { p with «to» := m } :: { p with «from» := m + 1 } :: suf)

variable {v v' : ProgressVector}

lemma SplitRange.offsetAt_eq (h : SplitRange v v') (x : ℕ) : offsetAt v' x = offsetAt v x := by
  cases h with
  | split pre suf p m hlo hhi =>
    simp only [offsetAt, lookup_append, lookup_cons, Progress.has_iff, Progress.view_val]
    congr 1
    by_cases h₁ : p.from ≤ x ∧ x ≤ m
    · rw [if_pos h₁, if_pos (by omega)]
    rw [if_neg h₁]
    by_cases h₂ : m + 1 ≤ x ∧ x ≤ p.to
    · rw [if_pos h₂, if_pos (by omega)]
    · rw [if_neg h₂, if_neg (by omega)]

lemma SplitRange.wellFormed (h : SplitRange v v') (hv : WellFormed v) : WellFormed v' := by
  cases h with
  | split pre suf p m hlo hhi =>
    have hp : p.to < 2 ^ 32 := hv.fits p (by simp)
    have hord : ∀ a ∈ pre, ∀ b ∈ p :: suf, a.to < b.from := (pairwise_append.mp hv.ordered.2).2.2
    have hsuf : Ordered Progress.view (p :: suf) :=
      ⟨fun a ha => hv.from_le_to a (by simp [mem_cons.mp ha]), (pairwise_append.mp hv.ordered.2).2.1⟩
    have htail : ∀ b ∈ suf, p.to < b.from := (ordered_cons.mp hsuf).2.1
    refine WellFormed.of_ordered ?_ ⟨?_, pairwise_append.mpr ⟨?_, ?_, ?_⟩⟩
    · intro a ha
      simp only [mem_append, mem_cons] at ha
      rcases ha with ha | rfl | rfl | ha
      · exact hv.fits a (by simp [ha])
      · show m < 2 ^ 32
        omega
      · exact hp
      · exact hv.fits a (by simp [ha])
    · intro a ha
      simp only [mem_append, mem_cons] at ha
      rcases ha with ha | rfl | rfl | ha
      · exact hv.from_le_to a (by simp [ha])
      · exact hlo
      · exact hhi
      · exact hv.from_le_to a (by simp [ha])
    · exact (pairwise_append.mp hv.ordered.2).1
    · have hlast : Ordered Progress.view ({ p with «from» := m + 1 } :: suf) :=
        ordered_cons.mpr ⟨hhi, htail, hsuf.tail⟩
      refine pairwise_cons.mpr ⟨?_, hlast.2⟩
      intro b hb
      show m < b.from
      rcases mem_cons.mp hb with rfl | hb
      · exact Nat.lt_succ_self m
      · have := htail b hb
        omega
    · intro a ha b hb
      have hap := hord a ha p (by simp)
      simp only [mem_cons] at hb
      rcases hb with rfl | rfl | hb
      · exact hap
      · show a.to < m + 1
        omega
      · exact hord a ha b (by simp [hb])

/-- A split vector has two ranges or more, so the short path is out. -/
lemma SplitRange.sameSingleRange_eq_none (h : SplitRange v v')
    (w : ProgressVector) : sameSingleRange v' w = none ∧ sameSingleRange w v' = none := by
  cases h with
  | split pre suf p m hlo hhi =>
    constructor
    · rw [eq_none_iff_forall_ne_some]
      rintro ⟨c, u⟩ hsome
      have hlen := congrArg length (sameSingleRange_eq_some hsome).1
      simp only [length_append, length_cons, length_nil] at hlen
      omega
    · rw [eq_none_iff_forall_ne_some]
      rintro ⟨c, u⟩ hsome
      have hlen := congrArg length (sameSingleRange_eq_some hsome).2.1
      simp only [length_append, length_cons, length_nil] at hlen
      omega

namespace Locator

/-- One range of one source split. -/
def SplitOne (L L' : Locator) : Prop :=
  ∃ s v', SplitRange (L.source s) v' ∧ s < L.multiProgress.length
    ∧ L' = { L with multiProgress := L.multiProgress.set s v' }

/-- Accepted exactly when nothing goes backwards; and accepted or not, no covered hash id gets a smaller offset. -/
def UpdatesForward (L M : Locator) : Prop :=
  ((L.update M).1 = true ↔ ∀ i h o o', offsetAt (L.source i) h = some o → offsetAt (M.source i) h = some o' → o ≤ o')
    ∧ ∀ i h o, offsetAt (L.source i) h = some o → ∃ o', offsetAt ((L.update M).2.source i) h = some o' ∧ o ≤ o'

/-- Splitting one range of either locator changes neither the answer nor any resulting offset. -/
def SplitInvariant (L M : Locator) : Prop :=
  ∀ L' M', (L.SplitOne L' ∧ M' = M) ∨ (L' = L ∧ M.SplitOne M') →
    (L'.update M').1 = (L.update M).1
      ∧ ∀ i h, offsetAt ((L'.update M').2.source i) h = offsetAt ((L.update M).2.source i) h

/-- Source `i` refuses the update whichever way its ranges are split: an offset other than
`INVALID_OFFSET` is behind, or the single range is a single hash id and cannot be split. -/
def RefusesFirmly (L M : Locator) (i : ℕ) : Prop :=
  (∃ h, RejectsAt (L.source i) (M.source i) h)
    ∨ L.ErasesSingleRange M i ∧ ∃ c, L.source i = [c] ∧ c.from = c.to

/-- No `INVALID_OFFSET` of the update meets a greater offset; or some source refuses firmly, and none does in
the sources before it. -/
def NoErasureReached (L M : Locator) : Prop :=
  (∀ i h, ¬ ErasesAt (L.source i) (M.source i) h)
    ∨ ∃ r, L.RefusesFirmly M r ∧ ∀ j < r, ∀ h, ¬ ErasesAt (L.source j) (M.source j) h

section
variable {L M L' M' : Locator}

lemma offsetAt_update (hsrc : M.src = L.src)
    (hlen : L.multiProgress.length = M.multiProgress.length) (hL : L.WellFormed) (hM : M.WellFormed) (i h : ℕ) :
    offsetAt ((L.update M).2.source i) h
    = if ∀ j ≤ i, (L.updateSource M j).isSome then overlay (L.source i) (M.source i) h
      else offsetAt (L.source i) h := by
  rw [source_update hsrc hlen]
  split_ifs with hall
  · obtain ⟨r, hr⟩ := isSome_iff_exists.mp (hall i le_rfl)
    rw [hr, getD_some]
    exact (updateProgressVec_spec (hL.source i) (hM.source i) hr).2.1 h
  · rfl

/-- `L'` and `M'` are `L` and `M` with a range of source `s` split in one of them. -/
structure SplitAt (L M L' M' : Locator) (s : ℕ) : Prop where
  src : M'.src = L'.src ↔ M.src = L.src
  length : L'.multiProgress.length = M'.multiProgress.length
    ↔ L.multiProgress.length = M.multiProgress.length
  wellFormed : L.WellFormed → M.WellFormed → L'.WellFormed ∧ M'.WellFormed
  offset : ∀ i h, offsetAt (L'.source i) h = offsetAt (L.source i) h
    ∧ offsetAt (M'.source i) h = offsetAt (M.source i) h
  other : ∀ i, i ≠ s → L'.source i = L.source i ∧ M'.source i = M.source i
  sweeps : sameSingleRange (L'.source s) (M'.source s) = none
  range : ∃ p, p ∈ L.source s ++ M.source s ∧ p.from < p.to

variable {s : ℕ}

lemma source_set (L : Locator) (hs : s < L.multiProgress.length) (v : ProgressVector)
    (i : ℕ) : ({ L with multiProgress := L.multiProgress.set s v } : Locator).source i
      = if i = s then v else L.source i := by
  simp only [source, getD_eq_getElem?_getD, getElem?_set]
  by_cases hi : i = s
  · subst hi
    simp [hs]
  · simp [hi, Ne.symm hi]

lemma SplitOne.spec (h : L.SplitOne L') : ∃ s, L'.src = L.src ∧ L'.multiProgress.length = L.multiProgress.length
    ∧ (L.WellFormed → L'.WellFormed) ∧ (∀ i x, offsetAt (L'.source i) x = offsetAt (L.source i) x)
    ∧ (∀ i, i ≠ s → L'.source i = L.source i)
    ∧ (∀ w, sameSingleRange (L'.source s) w = none ∧ sameSingleRange w (L'.source s) = none)
    ∧ ∃ p ∈ L.source s, p.from < p.to := by
  obtain ⟨s, v', hsplit, hs, rfl⟩ := h
  have hsource := source_set L hs v'
  refine ⟨s, rfl, by simp, ?_, ?_, ?_, ?_, ?_⟩
  · intro hL v hv
    rcases mem_or_eq_of_mem_set hv with hv | rfl
    · exact hL v hv
    · exact hsplit.wellFormed (hL.source s)
  · intro i x
    rw [hsource]
    split_ifs with hi
    · rw [hi, hsplit.offsetAt_eq]
    · rfl
  · intro i hi
    rw [hsource, if_neg hi]
  · intro w
    rw [hsource, if_pos rfl]
    exact hsplit.sameSingleRange_eq_none w
  · generalize L.source s = v at hsplit
    cases hsplit with
    | split pre suf p m hlo hhi => exact ⟨p, by simp, by omega⟩

lemma splitAt_of_split (h : (L.SplitOne L' ∧ M' = M) ∨ (L' = L ∧ M.SplitOne M')) : ∃ s, SplitAt L M L' M' s := by
  rcases h with ⟨hsplit, rfl⟩ | ⟨rfl, hsplit⟩
  · obtain ⟨s, hsrc, hlen, hwf, hoff, hother, hsweep, p, hp, hlt⟩ := hsplit.spec
    exact ⟨s, by rw [hsrc], by rw [hlen], fun hL hM => ⟨hwf hL, hM⟩,
      fun i x => ⟨hoff i x, rfl⟩, fun i hi => ⟨hother i hi, rfl⟩, (hsweep _).1,
      p, by simp [hp], hlt⟩
  obtain ⟨s, hsrc, hlen, hwf, hoff, hother, hsweep, p, hp, hlt⟩ := hsplit.spec
  exact ⟨s, by rw [hsrc], by rw [hlen], fun hL hM => ⟨hL, hwf hM⟩,
    fun i x => ⟨rfl, hoff i x⟩, fun i hi => ⟨rfl, hother i hi⟩, (hsweep _).2,
    p, by simp [hp], hlt⟩

section
variable (hs : SplitAt L M L' M' s)
include hs

section
variable (hL : L.WellFormed) (hM : M.WellFormed)
include hL hM

/-- After the split a source refuses as before, except that the split one is swept. -/
lemma SplitAt.updateSource_eq_none_iff (i : ℕ) :
    L'.updateSource M' i = none ↔ (∃ h, RejectsAt (L.source i) (M.source i) h)
    ∨ i ≠ s ∧ L.ErasesSingleRange M i := by
  obtain ⟨hL', hM'⟩ := hs.wellFormed hL hM
  have hrej : (∃ h, RejectsAt (L'.source i) (M'.source i) h)
      ↔ ∃ h, RejectsAt (L.source i) (M.source i) h := by
    simp only [RejectsAt, (hs.offset i _).1, (hs.offset i _).2]
  rw [Locator.updateSource_eq_none_iff hL' hM', Refuses, hrej]
  by_cases hi : i = s
  · subst hi
    simp [ErasesSingleRange, hs.sweeps]
  · obtain ⟨hl, hm⟩ := hs.other i hi
    simp [ErasesSingleRange, hl, hm, hi]

omit hL hM in
/-- If the sources up to each one accept alike before and after a split, so does the update. -/
lemma SplitAt.same (hsrc : M.src = L.src)
    (hlen : L.multiProgress.length = M.multiProgress.length) (hL : L.WellFormed) (hM : M.WellFormed)
    (hacc : ∀ i, (∀ j ≤ i, (L'.updateSource M' j).isSome) ↔ ∀ j ≤ i, (L.updateSource M j).isSome) :
    (L'.update M').1 = (L.update M).1
    ∧ ∀ i h, offsetAt ((L'.update M').2.source i) h = offsetAt ((L.update M).2.source i) h := by
  obtain ⟨hL', hM'⟩ := hs.wellFormed hL hM
  have hsrc' := hs.src.mpr hsrc
  have hlen' := hs.length.mpr hlen
  refine ⟨?_, fun i h => ?_⟩
  · rw [Bool.eq_iff_iff, update_fst_iff hsrc' hlen', update_fst_iff hsrc hlen]
    exact ⟨fun hall i => (hacc i).mp (fun j _ => hall j) i le_rfl,
      fun hall i => (hacc i).mpr (fun j _ => hall j) i le_rfl⟩
  · simp only [offsetAt_update hsrc' hlen' hL' hM', offsetAt_update hsrc hlen hL hM, hacc i,
      overlay, (hs.offset i h).1, (hs.offset i h).2]

omit hs in
/-- Accepted sources are those that neither reject nor erase a single range. -/
lemma isSome_updateSource_iff (i : ℕ) : (L.updateSource M i).isSome
    ↔ (¬ ∃ h, RejectsAt (L.source i) (M.source i) h) ∧ ¬ L.ErasesSingleRange M i := by
  rw [isSome_iff_ne_none, ne_eq, updateSource_eq_none_iff hL hM, Refuses, not_or]

lemma SplitAt.isSome_updateSource_iff (i : ℕ) :
    (L'.updateSource M' i).isSome ↔ (¬ ∃ h, RejectsAt (L.source i) (M.source i) h)
    ∧ ¬ (i ≠ s ∧ L.ErasesSingleRange M i) := by
  rw [isSome_iff_ne_none, ne_eq, hs.updateSource_eq_none_iff hL hM, not_or]

lemma SplitAt.not_isSome_of_refusesFirmly
    {r : ℕ} (hr : L.RefusesFirmly M r) :
    ¬ (L'.updateSource M' r).isSome ∧ ¬ (L.updateSource M r).isSome := by
  rw [hs.isSome_updateSource_iff hL hM, Locator.isSome_updateSource_iff hL hM]
  rcases hr with hrej | ⟨herase, c, hc, hone⟩
  · exact ⟨fun h => h.1 hrej, fun h => h.1 hrej⟩
  refine ⟨fun h => h.2 ⟨?_, herase⟩, fun h => h.2 herase⟩
  -- a single hash id leaves no range to split
  rintro rfl
  obtain ⟨p, hp, hlt⟩ := hs.range
  obtain ⟨⟨c', u⟩, hsame⟩ := isSome_iff_exists.mp herase.1
  obtain ⟨hlc, hmu, hfrom, hto⟩ := sameSingleRange_eq_some hsame
  rw [hc] at hlc
  cases hlc
  rw [hc, hmu] at hp
  simp only [cons_append, nil_append, mem_cons, not_mem_nil, or_false] at hp
  rcases hp with rfl | rfl <;> omega

end

end

lemma backwardAt_of_refusesFirmly {r : ℕ} (hr : L.RefusesFirmly M r) :
    ∃ h, BackwardAt (L.source r) (M.source r) h := by
  rcases hr with ⟨h, hrej⟩ | ⟨⟨-, h, herase⟩, -⟩
  · exact ⟨h, (backwardAt_iff _ _ h).mpr (Or.inl hrej)⟩
  · exact ⟨h, (backwardAt_iff _ _ h).mpr (Or.inr herase)⟩

/-- Nothing goes backwards: the pointwise reading of "fully faster". -/
lemma forward_iff : (∀ i h o o', offsetAt (L.source i) h = some o → offsetAt (M.source i) h = some o' → o ≤ o')
    ↔ ∀ i h, ¬ BackwardAt (L.source i) (M.source i) h := by
  constructor
  · rintro hall i h ⟨o, o', ho, ho', hlt⟩
    exact absurd (hall i h o o' ho ho') (not_le.mpr hlt)
  · intro hall i h o o' ho ho'
    by_contra hlt
    exact hall i h ⟨o, o', ho, ho', not_le.mp hlt⟩

section
variable (hsrc : M.src = L.src)
    (hlen : L.multiProgress.length = M.multiProgress.length) (hL : L.WellFormed) (hM : M.WellFormed)
include hsrc hlen hL hM

/-- An offset of a committed source moves back only where the update erases it: the source accepts, so nothing
is rejected there. -/
lemma le_offsetAt_update
    (hkeeps : ∀ i, (∀ j ≤ i, (L.updateSource M j).isSome) → ∀ h, ¬ ErasesAt (L.source i) (M.source i) h)
    (i h : ℕ) (o : Offset) (ho : offsetAt (L.source i) h = some o) :
    ∃ o', offsetAt ((L.update M).2.source i) h = some o' ∧ o ≤ o' := by
  rw [offsetAt_update hsrc hlen hL hM]
  split_ifs with hall
  · rw [overlay]
    cases hm : offsetAt (M.source i) h with
    | none => exact ⟨o, by simpa using ho, le_rfl⟩
    | some o' =>
      refine ⟨o', by simp, ?_⟩
      by_contra hlt
      rcases (backwardAt_iff _ _ h).mp ⟨o, o', ho, hm, not_le.mp hlt⟩ with hrej | herase
      · exact ((isSome_updateSource_iff hL hM i).mp (hall i le_rfl)).1 ⟨h, hrej⟩
      · exact hkeeps i hall h herase
  · exact ⟨o, ho, le_rfl⟩

/-- An erasure in a committed source moves an offset back. -/
lemma not_erasesAt_of_forward (hfwd : L.UpdatesForward M) {i : ℕ} (hall : ∀ j ≤ i, (L.updateSource M j).isSome)
    (h : ℕ) : ¬ ErasesAt (L.source i) (M.source i) h := by
  rintro ⟨o, ho, hinv, hlt⟩
  obtain ⟨o', ho', hle⟩ := hfwd.2 i h o ho
  rw [offsetAt_update hsrc hlen hL hM, if_pos hall, overlay, hinv, some_or] at ho'
  cases ho'
  exact absurd hlt (not_lt.mpr hle)

/-- A range of more than one hash id that the short path refuses to erase is erased once it is split, unless
the source refuses for another reason or is not reached. -/
lemma not_splitInvariant {r : ℕ} (hbefore : ∀ j < r, (L.updateSource M j).isSome) (hesr : L.ErasesSingleRange M r)
    (hnotfirm : ¬ L.RefusesFirmly M r) : ¬ L.SplitInvariant M := by
  intro hsplit
  rw [RefusesFirmly, not_or] at hnotfirm
  obtain ⟨hnorej, hnosingle⟩ := hnotfirm
  obtain ⟨⟨c, u⟩, hsame⟩ := isSome_iff_exists.mp hesr.1
  obtain ⟨hlc, -, -, -⟩ := sameSingleRange_eq_some hsame
  have hcle : c.from ≤ c.to := (hL.source r).from_le_to c (by simp [hlc])
  have hclt : c.from < c.to := by
    rcases Nat.lt_or_ge c.from c.to with hlt | hge
    · exact hlt
    · exact absurd ⟨hesr, c, hlc, by omega⟩ hnosingle
  have hrlen : r < L.multiProgress.length := by
    by_contra hge
    rw [source, getD_eq_default _ _ (by omega)] at hlc
    simp at hlc
  let halves : ProgressVector := [{ c with «to» := c.from }, { c with «from» := c.from + 1 }]
  let L' : Locator := { L with multiProgress := L.multiProgress.set r halves }
  have hone : L.SplitOne L' := by
    refine ⟨r, _, ?_, hrlen, rfl⟩
    rw [hlc]
    exact SplitRange.split [] [] c c.from le_rfl hclt
  obtain ⟨s, hs⟩ := splitAt_of_split (L := L) (M := M) (Or.inl ⟨hone, rfl⟩)
  have hsr : s = r := by
    by_contra hne
    have hsame' := (hs.other r (Ne.symm hne)).1
    rw [source_set L hrlen, if_pos rfl, hlc] at hsame'
    exact absurd (congrArg length hsame') (by simp [halves])
  subst hsr
  obtain ⟨h, o, ho, hinv, hlt⟩ := hesr.2
  have heq := (hsplit L' M (Or.inl ⟨hone, rfl⟩)).2 s h
  have hacc' : ∀ j ≤ s, (L'.updateSource M j).isSome := by
    intro j hj
    rw [hs.isSome_updateSource_iff hL hM]
    rcases Nat.lt_or_eq_of_le hj with hlt' | rfl
    · obtain ⟨h₁, h₂⟩ := (isSome_updateSource_iff hL hM j).mp (hbefore j hlt')
      exact ⟨h₁, fun h => h₂ h.2⟩
    · exact ⟨hnorej, fun h => h.1 rfl⟩
  have hacc : ¬ ∀ j ≤ s, (L.updateSource M j).isSome :=
    fun hall => ((isSome_updateSource_iff hL hM s).mp (hall s le_rfl)).2 hesr
  obtain ⟨hL', -⟩ := hs.wellFormed hL hM
  rw [offsetAt_update (hs.src.mpr hsrc) (hs.length.mpr hlen) hL' hM, if_pos hacc',
    offsetAt_update hsrc hlen hL hM, if_neg hacc, overlay, (hs.offset s h).1, ho, hinv] at heq
  simp only [some_or, some.injEq] at heq
  rw [heq] at hlt
  exact lt_irrefl _ hlt

end

/-- **Exactly when an update is "accepted iff nothing goes backwards", whatever the split.**  The
one way to fail is `INVALID_OFFSET` written over a greater offset, in a source that the loop
reaches. -/
theorem update_exact_iff (L M : Locator) (hsrc : M.src = L.src)
    (hlen : L.multiProgress.length = M.multiProgress.length) (hL : L.WellFormed) (hM : M.WellFormed) :
    L.UpdatesForward M ∧ L.SplitInvariant M ↔ L.NoErasureReached M := by
  constructor
  · rintro ⟨hfwd, hsplit⟩
    by_contra hno
    rw [NoErasureReached, not_or] at hno
    obtain ⟨herase, hfirm⟩ := hno
    push Not at herase hfirm
    obtain ⟨i₀, h₀, herase₀⟩ := herase
    have hfail : (L.update M).1 = false := by
      rw [← Bool.not_eq_true, hfwd.1, forward_iff]
      intro hall
      exact hall i₀ h₀ ((backwardAt_iff _ _ h₀).mpr (Or.inr herase₀))
    obtain ⟨r, hr, hbefore⟩ := exists_first_refusal hsrc hlen hfail
    -- the first refusal is not firm, since nothing before it is erased
    have hnotfirm : ¬ L.RefusesFirmly M r := by
      intro hrf
      obtain ⟨j, hj, h, hje⟩ := hfirm r hrf
      exact not_erasesAt_of_forward hsrc hlen hL hM hfwd (fun k hk => hbefore k (by omega)) h hje
    have hesr : L.ErasesSingleRange M r :=
      ((updateSource_eq_none_iff hL hM r).mp hr).resolve_left fun hrej => hnotfirm (Or.inl hrej)
    exact not_splitInvariant hsrc hlen hL hM hbefore hesr hnotfirm hsplit
  · rintro (hnone | ⟨r, hr, hbefore⟩)
    · have hback : ∀ i h, BackwardAt (L.source i) (M.source i) h
          ↔ RejectsAt (L.source i) (M.source i) h := by
        intro i h
        rw [backwardAt_iff, or_iff_left (hnone i h)]
      have hesr : ∀ i, ¬ L.ErasesSingleRange M i := fun i hi => by
        obtain ⟨-, h, herase⟩ := hi
        exact hnone i h herase
      have hfst : (L.update M).1 = true ↔ ∀ i h, ¬ BackwardAt (L.source i) (M.source i) h := by
        rw [update_fst_iff hsrc hlen]
        simp only [isSome_updateSource_iff hL hM, hesr, not_false_eq_true, and_true, not_exists, hback]
      refine ⟨⟨hfst.trans forward_iff.symm, ?_⟩, ?_⟩
      · exact le_offsetAt_update hsrc hlen hL hM fun i _ => hnone i
      intro L' M' hsp
      obtain ⟨s, hs⟩ := splitAt_of_split hsp
      refine hs.same hsrc hlen hL hM fun i => ?_
      simp only [hs.isSome_updateSource_iff hL hM, isSome_updateSource_iff hL hM, hesr,
        and_false, not_false_eq_true]
    · have hrnone : ¬ (L.updateSource M r).isSome := by
        rw [isSome_updateSource_iff hL hM]
        rcases hr with hrej | ⟨herase, -⟩
        · exact fun h => h.1 hrej
        · exact fun h => h.2 herase
      have hfail : ¬ (L.update M).1 = true := by
        rw [update_fst_iff hsrc hlen]
        exact fun hall => hrnone (hall r)
      obtain ⟨h, hb⟩ := backwardAt_of_refusesFirmly hr
      refine ⟨⟨⟨fun hok => absurd hok hfail, fun hall => ?_⟩, ?_⟩, ?_⟩
      · exact absurd hb (forward_iff.mp hall r h)
      · -- what is committed lies before `r`
        refine le_offsetAt_update hsrc hlen hL hM fun i hall => hbefore i ?_
        by_contra hge
        exact hrnone (hall r (not_lt.mp hge))
      intro L' M' hsp
      obtain ⟨s, hs⟩ := splitAt_of_split hsp
      obtain ⟨hr', -⟩ := hs.not_isSome_of_refusesFirmly hL hM hr
      refine hs.same hsrc hlen hL hM fun i => ?_
      rcases Nat.lt_or_ge i r with hir | hir
      · -- before `r` nothing depends on the short path
        refine forall_congr' fun j => imp_congr_right fun hj => ?_
        rw [hs.isSome_updateSource_iff hL hM, isSome_updateSource_iff hL hM]
        have hesr : ¬ L.ErasesSingleRange M j := fun ⟨_, h, herase⟩ => hbefore j (by omega) h herase
        tauto
      · exact ⟨fun hall => absurd (hall r hir) hr', fun hall => absurd (hall r hir) hrnone⟩

end

/-- Two ranges that both move on: no `INVALID_OFFSET`, and the exact answer. -/
theorem update_exact_two_ranges :
    let L : Locator := ⟨7, toLex (10, 0), [[⟨0, 99, toLex (10, 0)⟩, ⟨100, 200, toLex (11, 0)⟩]], [], false⟩
    let M : Locator := ⟨7, toLex (12, 0), [[⟨50, 150, toLex (12, 0)⟩]], [], false⟩
    L.UpdatesForward M ∧ L.SplitInvariant M := by
  intro L M
  have hL : L.WellFormed := by decide
  have hM : M.WellFormed := by decide
  refine (update_exact_iff L M rfl rfl hL hM).mpr (Or.inl ?_)
  rintro i h ⟨o, -, hinv, -⟩
  -- the update has no `INVALID_OFFSET` in its only source, and no other source
  cases i with
  | zero =>
    obtain ⟨p, hp, -, hval⟩ := exists_mem_of_lookup hinv
    rw [mem_singleton.mp hp] at hval
    exact absurd hval (by decide)
  | succ i => simp [M, source, offsetAt] at hinv

/-- The whole range set back to `INVALID_OFFSET` is refused as one range, and accepted once the
current range is split: the offset of every hash id goes from 5 back to -1. -/
theorem update_moves_back : let L : Locator := ⟨7, toLex (5, 0), [[⟨0, 65535, toLex (5, 0)⟩]], [], false⟩
    let L' : Locator := ⟨7, toLex (5, 0), [[⟨0, 100, toLex (5, 0)⟩, ⟨101, 65535, toLex (5, 0)⟩]], [], false⟩
    let M : Locator := ⟨7, toLex (-1, 0), [[⟨0, 65535, toLex (-1, 0)⟩]], [], false⟩
    L.SplitOne L' ∧ (L.update M).1 = false ∧ (L'.update M).1 = true
      ∧ offsetAt (L'.source 0) 0 = some (toLex (5, 0))
      ∧ offsetAt ((L'.update M).2.source 0) 0 = some (toLex (-1, 0))
      ∧ ¬ L.SplitInvariant M ∧ ¬ L'.UpdatesForward M := by
  intro L L' M
  have hsplit : L.SplitOne L' :=
    ⟨0, _, SplitRange.split [] [] ⟨0, 65535, toLex (5, 0)⟩ 100 (by decide) (by decide),
      by decide, rfl⟩
  have hL : (L.update M).1 = false := by decide
  have hL' : (L'.update M).1 = true := by decide
  have hbefore : offsetAt (L'.source 0) 0 = some (toLex (5, 0)) := by decide
  have hafter : offsetAt ((L'.update M).2.source 0) 0 = some (toLex (-1, 0)) := by decide
  refine ⟨hsplit, hL, hL', hbefore, hafter, fun hinv => ?_, fun hfwd => ?_⟩
  · have := (hinv L' M (Or.inl ⟨hsplit, rfl⟩)).1
    rw [hL, hL'] at this
    exact absurd this (by decide)
  obtain ⟨o, ho, hle⟩ := hfwd.2 0 0 _ hbefore
  rw [hafter] at ho
  cases ho
  exact absurd hle (by decide)

end Locator

end Havenask
