import Havenask.Framework.Locator

/-!
# What the sweep of `UpdateProgressVec` computes

The sweep works on two cursors.  `CompareStruct.rest` reads a cursor as the list of ranges still
under it, and on those lists one round of the sweep is `leftStep` (`getLeftProgress_rest`): it
takes the leftmost piece off both lists, and either list is cut at the end of that piece
(`leftStep_spec`).  So the pieces come out in order, they carry the offset of the update wherever
the update has one, and the sweep stops exactly when both lists cover a hash id on which the
update goes backwards by the rule of the sweep (`Rejects`).

`mergeProgress` then glues touching ranges of equal offset, which changes no offset.
-/

namespace Havenask

open IntervalMap List CompareStruct Option Progress CutAt

/-! ## Cursors as lists -/

namespace CompareStruct

/-- The ranges still under a cursor. -/
def rest (c : CompareStruct) : ProgressVector :=
  match c.progressPtr.drop c.cursor with
  | [] => []
  | p :: ps => { p with «from» := c.from } :: ps

lemma rest_init (v : ProgressVector) : (init v).rest = v := by
  cases v with
  | nil => rfl
  | cons p ps => rfl

lemma isEof_iff (c : CompareStruct) : c.isEof = true ↔ c.rest = [] := by
  simp only [isEof, decide_eq_true_eq, rest]
  constructor
  · intro h
    rw [drop_eq_nil_of_le h]
  · intro h
    split at h
    · rename_i hd
      exact drop_eq_nil_iff.mp hd
    · simp at h

/-- What a cursor with the ranges `p :: ps` under it reads, and where it moves. -/
lemma rest_cons {c : CompareStruct} {p : Progress} {ps : ProgressVector} (h : c.rest = p :: ps) :
    c.getCurrentProgress = p ∧ c.getCurrentOffset = p.offset ∧ c.moveToNext.rest = ps
    ∧ ∀ f, ({ c with «from» := f } : CompareStruct).rest = { p with «from» := f } :: ps := by
  unfold rest at h
  split at h
  · simp at h
  rename_i q qs hd
  obtain ⟨hp, rfl⟩ := cons.inj h
  have hlt : c.cursor < c.progressPtr.length := by
    by_contra hge
    rw [drop_eq_nil_of_le (by omega)] at hd
    simp at hd
  rw [drop_eq_getElem_cons hlt] at hd
  obtain ⟨hq, hqs⟩ := cons.inj hd
  have hget : c.progressPtr.getD c.cursor default = q := by
    rw [getD_eq_getElem?_getD, getElem?_eq_getElem hlt, getD_some, hq]
  refine ⟨?_, ?_, ?_, fun f => ?_⟩
  · rw [getCurrentProgress, hget, hp]
  · rw [getCurrentOffset, hget, ← hp]
  · simp only [moveToNext, isEof, decide_eq_true_eq]
    split_ifs with heof
    · rw [rest, drop_eq_nil_of_le heof]
      rw [drop_eq_nil_of_le heof] at hqs
      exact hqs
    have hlt' : c.cursor + 1 < c.progressPtr.length := by omega
    simp only [rest]
    rw [drop_eq_getElem_cons hlt', getD_eq_getElem?_getD,
      getElem?_eq_getElem hlt', ← hqs, drop_eq_getElem_cons hlt']
    rfl
  · simp only [rest]
    rw [drop_eq_getElem_cons hlt, hq, hqs, ← hp]

end CompareStruct

/-- Draining a cursor reads off the ranges under it. -/
lemma drain_eq_rest (n : ℕ) : ∀ c : CompareStruct, c.rest.length ≤ n → drain n c = c.rest := by
  induction n with
  | zero =>
    intro c hc
    rw [drain, eq_nil_of_length_eq_zero (Nat.le_zero.mp hc)]
  | succ n ih =>
    intro c hc
    rw [drain]
    cases hrest : c.rest with
    | nil => rw [if_pos ((isEof_iff c).mpr hrest)]
    | cons p ps =>
      obtain ⟨hcur, -, hnext, -⟩ := rest_cons hrest
      have hne : ¬ c.isEof = true := by
        rw [isEof_iff, hrest]
        simp
      rw [if_neg hne, hcur, ih c.moveToNext, hnext]
      rw [hnext]
      rw [hrest, length_cons] at hc
      omega

lemma CompareStruct.length_rest_le (c : CompareStruct) : c.rest.length ≤ c.progressPtr.length := by
  unfold rest
  split
  · simp
  rename_i p ps hd
  have hlen : (c.progressPtr.drop c.cursor).length = ps.length + 1 := by rw [hd]; simp
  rw [length_drop] at hlen
  simp only [length_cons]
  omega

/-! ## One round of the sweep -/

/-- The rule of the sweep: an update offset is refused when it is behind the current one, unless it
is `INVALID_OFFSET`. -/
def Refused (current update : Offset) : Prop := update ≠ Progress.invalidOffset ∧ update < current

instance (current update : Offset) : Decidable (Refused current update) := inferInstanceAs (Decidable (_ ∧ _))

/-- `getLeftProgress` on the lists of ranges under the two cursors. -/
def leftStep (p : Progress) (ps : ProgressVector) (q : Progress) (qs : ProgressVector) :
    Option (Progress × ProgressVector × ProgressVector) :=
  if p.from < q.from then
    if p.to < q.from then some (p, ps, q :: qs)
    else some ({ p with «to» := q.from - 1 }, { p with «from» := q.from } :: ps, q :: qs)
  else if q.from < p.from then
    if q.to < p.from then some (q, p :: ps, qs)
    else some ({ q with «to» := p.from - 1 }, p :: ps, { q with «from» := p.from } :: qs)
  else if Refused p.offset q.offset then none
  else if q.to < p.to then some (q, { p with «from» := q.to + 1 } :: ps, qs)
  else if p.to < q.to then
    some ({ p with offset := q.offset }, ps, { q with «from» := p.to + 1 } :: qs)
  else some (q, ps, qs)

variable {p q : Progress} {ps qs : ProgressVector} {x : Progress} {v' w' : ProgressVector}

lemma getLeftProgress_rest {cur upd : CompareStruct}
    (hcur : cur.rest = p :: ps) (hupd : upd.rest = q :: qs) : match getLeftProgress cur upd with
    | (none, _, _) => leftStep p ps q qs = none
    | (some x, cur', upd') => leftStep p ps q qs = some (x, cur'.rest, upd'.rest) := by
  obtain ⟨hp, hpo, hpn, hpf⟩ := rest_cons hcur
  obtain ⟨hq, hqo, hqn, hqf⟩ := rest_cons hupd
  unfold getLeftProgress leftStep
  simp only [hp, hq, hpo, hqo]
  by_cases hlt : p.from < q.from
  · by_cases hto : p.to < q.from
    · simp only [if_pos hlt, if_pos hto, hpn, hupd]
    · simp only [if_pos hlt, if_neg hto, hpf, hupd]
  by_cases hgt : q.from < p.from
  · by_cases hto : q.to < p.from
    · simp only [if_neg hlt, if_pos hgt, if_pos hto, hqn, hcur]
    · simp only [if_neg hlt, if_pos hgt, if_neg hto, hqf, hcur]
  simp only [if_neg hlt, if_neg hgt]
  by_cases href : Refused p.offset q.offset
  · have href' : q.offset ≠ invalidOffset ∧ q.offset < p.offset := href
    simp only [if_pos href, if_pos href']
  have href' : ¬ (q.offset ≠ invalidOffset ∧ q.offset < p.offset) := href
  by_cases h₁ : q.to < p.to
  · simp only [if_neg href, if_neg href', if_pos h₁, hqn, hpf]
  by_cases h₂ : p.to < q.to
  · simp only [if_neg href, if_neg href', if_neg h₁, if_pos h₂, hpn, hqf]
  · simp only [if_neg href, if_neg href', if_neg h₁, if_neg h₂, hpn, hqn]

/-- The update is refused at the hash id `h`. -/
def RejectsAt (v w : ProgressVector) (h : ℕ) : Prop :=
  ∃ o o', offsetAt v h = some o ∧ offsetAt w h = some o' ∧ Refused o o'

/-- `w` written over `v`. -/
def overlay (v w : ProgressVector) (h : ℕ) : Option Offset := (offsetAt w h).or (offsetAt v h)

/-- `x` is the leftmost piece of `v` and `w` together, and `v'`, `w'` are what lies behind it. -/
structure LeftPiece (v w : ProgressVector) (x : Progress) (v' w' : ProgressVector) : Prop where
  from_le_to : x.from ≤ x.to
  cut_left : CutAt Progress.view (x.to + 1) v v'
  cut_right : CutAt Progress.view (x.to + 1) w w'
  below : ∀ h < x.from, offsetAt v h = none ∧ offsetAt w h = none
  inside : ∀ h, x.from ≤ h → h ≤ x.to → overlay v w h = some x.offset ∧ ¬ RejectsAt v w h
  to_lt : ∀ bound, (∀ a ∈ v, a.to < bound) → (∀ a ∈ w, a.to < bound) →
    x.to < bound ∧ (∀ a ∈ v', a.to < bound) ∧ ∀ a ∈ w', a.to < bound

lemma offsetAt_head {p : Progress} {ps : ProgressVector} {h : ℕ} (hlo : p.from ≤ h)
    (hhi : h ≤ p.to) : offsetAt (p :: ps) h = some p.offset := by
  rw [offsetAt, lookup_cons, if_pos ⟨hlo, hhi⟩]
  rfl

lemma offsetAt_below {p : Progress} {ps : ProgressVector} (hord : Ordered view (p :: ps))
    {h : ℕ} (hlt : h < p.from) : offsetAt (p :: ps) h = none := by
  obtain ⟨hle, hall, -⟩ := ordered_cons.mp hord
  refine lookup_eq_none_of_lt _ ?_
  intro a ha
  rcases mem_cons.mp ha with rfl | ha
  · exact hlt
  have hle' : p.from ≤ p.to := hle
  have hlt' : p.to < a.from := hall a ha
  show h < a.from
  omega

lemma le_from_of_mem {p : Progress} {ps : ProgressVector} (hord : Ordered view (p :: ps))
    {c : ℕ} (hc : c ≤ p.from) : ∀ a ∈ p :: ps, c ≤ view.lo a := by
  obtain ⟨hle, hall, -⟩ := ordered_cons.mp hord
  intro a ha
  rcases mem_cons.mp ha with rfl | ha
  · exact hc
  have hle' : p.from ≤ p.to := hle
  have hlt' : p.to < a.from := hall a ha
  show c ≤ a.from
  omega

section
variable (hp : Ordered Progress.view (p :: ps)) (hq : Ordered Progress.view (q :: qs))
include hp hq

/-- The current vector begins first: the piece is its own, up to where the update begins. -/
lemma leftPiece_of_current_first {v' : ProgressVector} (hx : x.from = p.from) (hxo : x.offset = p.offset)
    (hxp : p.from ≤ x.to) (hxto : x.to ≤ p.to) (hxq : x.to < q.from)
    (hcut : CutAt view (x.to + 1) (p :: ps) v')
    (hto : ∀ bound, (∀ a ∈ p :: ps, a.to < bound) → ∀ a ∈ v', a.to < bound) :
    LeftPiece (p :: ps) (q :: qs) x v' (q :: qs) := by
  refine ⟨by omega, hcut, refl hq (le_from_of_mem hq hxq), ?_, ?_, ?_⟩
  · intro h hh
    exact ⟨offsetAt_below hp (by omega), offsetAt_below hq (by omega)⟩
  · intro h hlo hhi
    have hw : offsetAt (q :: qs) h = none := offsetAt_below hq (by omega)
    refine ⟨?_, ?_⟩
    · rw [overlay, hw, offsetAt_head (by omega) (by omega), hxo]
      rfl
    rintro ⟨o, o', -, ho', -⟩
    rw [hw] at ho'
    simp at ho'
  · intro bound hv hw
    exact ⟨lt_of_le_of_lt hxto (hv p (by simp)), hto bound hv, hw⟩

lemma leftPiece_of_update_first {w' : ProgressVector} (hx : x.from = q.from) (hxo : x.offset = q.offset)
    (hxq : q.from ≤ x.to) (hxto : x.to ≤ q.to) (hxp : x.to < p.from)
    (hcut : CutAt view (x.to + 1) (q :: qs) w')
    (hto : ∀ bound, (∀ a ∈ q :: qs, a.to < bound) → ∀ a ∈ w', a.to < bound) :
    LeftPiece (p :: ps) (q :: qs) x (p :: ps) w' := by
  refine ⟨by omega, refl hp (le_from_of_mem hp hxp), hcut, ?_, ?_, ?_⟩
  · intro h hh
    exact ⟨offsetAt_below hp (by omega), offsetAt_below hq (by omega)⟩
  · intro h hlo hhi
    have hv : offsetAt (p :: ps) h = none := offsetAt_below hp (by omega)
    refine ⟨?_, ?_⟩
    · rw [overlay, offsetAt_head (by omega) (by omega), hxo]
      rfl
    rintro ⟨o, o', ho, -, -⟩
    rw [hv] at ho
    simp at ho
  · intro bound hv hw
    exact ⟨lt_of_le_of_lt hxto (hw q (by simp)), hv, hto bound hw⟩

/-- Both begin together, and the update is accepted: the piece carries its offset. -/
lemma leftPiece_of_both
    (hpq : p.from = q.from) (href : ¬ Refused p.offset q.offset) (hx : x.from = q.from) (hxo : x.offset = q.offset)
    (hxf : x.from ≤ x.to) (hxp : x.to ≤ p.to) (hxq : x.to ≤ q.to)
    (hcutp : CutAt view (x.to + 1) (p :: ps) v') (hcutq : CutAt view (x.to + 1) (q :: qs) w')
    (htop : ∀ bound, (∀ a ∈ p :: ps, a.to < bound) → ∀ a ∈ v', a.to < bound)
    (htoq : ∀ bound, (∀ a ∈ q :: qs, a.to < bound) → ∀ a ∈ w', a.to < bound) :
    LeftPiece (p :: ps) (q :: qs) x v' w' := by
  refine ⟨hxf, hcutp, hcutq, ?_, ?_, ?_⟩
  · intro h hh
    exact ⟨offsetAt_below hp (by omega), offsetAt_below hq (by omega)⟩
  · intro h hlo hhi
    have hv : offsetAt (p :: ps) h = some p.offset := offsetAt_head (by omega) (by omega)
    have hw : offsetAt (q :: qs) h = some q.offset := offsetAt_head (by omega) (by omega)
    refine ⟨?_, ?_⟩
    · rw [overlay, hw, hxo]
      rfl
    rintro ⟨o, o', ho, ho', hno⟩
    rw [hv] at ho
    rw [hw] at ho'
    cases ho
    cases ho'
    exact href hno
  · intro bound hv hw
    exact ⟨lt_of_le_of_lt hxp (hv p (by simp)), htop bound hv, htoq bound hw⟩

/-- One round takes the leftmost piece off both lists. -/
theorem leftStep_spec (h : leftStep p ps q qs = some (x, v', w')) : LeftPiece (p :: ps) (q :: qs) x v' w' := by
  have hple : p.from ≤ p.to := (ordered_cons.mp hp).1
  have hqle : q.from ≤ q.to := (ordered_cons.mp hq).1
  -- dropping the first range, or moving its left end, keeps the right ends
  have hdrop : ∀ {r : Progress} {rs : ProgressVector} (bound : ℕ),
      (∀ a ∈ r :: rs, a.to < bound) → ∀ a ∈ rs, a.to < bound :=
    fun bound hall a ha => hall a (mem_cons_of_mem _ ha)
  have hmove : ∀ {r : Progress} {rs : ProgressVector} (f bound : ℕ),
      (∀ a ∈ r :: rs, a.to < bound) → ∀ a ∈ { r with «from» := f } :: rs, a.to < bound := by
    intro r rs f bound hall a ha
    rcases mem_cons.mp ha with rfl | ha
    · exact hall r (by simp)
    · exact hall a (mem_cons_of_mem _ ha)
  unfold leftStep at h
  split_ifs at h with h₁ h₂ h₃ h₄ h₅ h₆ h₇ <;>
    simp only [some.injEq, Prod.mk.injEq] at h <;> obtain ⟨rfl, rfl, rfl⟩ := h
  · exact leftPiece_of_current_first hp hq rfl rfl hple le_rfl h₂ (tail hp) hdrop
  · refine leftPiece_of_current_first hp hq rfl rfl (by simp; omega) (by simp; omega) (by simp; omega) ?_ (hmove _)
    exact head hp (by simp; omega) rfl rfl (by simp; omega) (by simp; omega)
  · exact leftPiece_of_update_first hp hq rfl rfl hqle le_rfl h₄ (tail hq) hdrop
  · refine leftPiece_of_update_first hp hq rfl rfl (by simp; omega) (by simp; omega) (by simp; omega) ?_ (hmove _)
    exact head hq (by simp; omega) rfl rfl (by simp; omega) (by simp; omega)
  · refine leftPiece_of_both hp hq (by omega) h₅ rfl rfl hqle (by omega) le_rfl ?_ (tail hq) (hmove _) hdrop
    exact head hp rfl rfl rfl (by simp; omega) (by simp; omega)
  · refine leftPiece_of_both hp hq (by omega) h₅ (by simp; omega) rfl hple le_rfl
      (by simp; omega) (tail hp) ?_ hdrop (hmove _)
    exact head hq rfl rfl rfl (by simp; omega) (by simp; omega)
  · have hto : p.to = q.to := by omega
    have hcut := tail hp
    rw [view_hi, hto] at hcut
    exact leftPiece_of_both hp hq (by omega) h₅ rfl rfl hqle hto.ge le_rfl hcut (tail hq) hdrop hdrop

/-- A round gives up only where the update is refused. -/
lemma leftStep_eq_none (h : leftStep p ps q qs = none) : RejectsAt (p :: ps) (q :: qs) p.from := by
  have hple : p.from ≤ p.to := (ordered_cons.mp hp).1
  have hqle : q.from ≤ q.to := (ordered_cons.mp hq).1
  unfold leftStep at h
  split_ifs at h with h₁ h₂ h₃ h₄ h₅
  exact ⟨p.offset, q.offset, offsetAt_head le_rfl hple, offsetAt_head (by omega) (by omega), h₅⟩

end

/-- A bound on the rounds left: two for each range, and one to level the two left ends. -/
def sweepMeasure : ProgressVector → ProgressVector → ℕ
  | p :: ps, q :: qs => 2 * (ps.length + qs.length) + 4 + if p.from = q.from then 0 else 1
  | _, _ => 0

lemma sweepMeasure_le (v w : ProgressVector) : sweepMeasure v w ≤ 2 * (v.length + w.length) + 1 := by
  cases v with
  | nil => simp [sweepMeasure]
  | cons p ps =>
    cases w with
    | nil => simp [sweepMeasure]
    | cons q qs =>
      simp only [sweepMeasure, length_cons]
      split_ifs <;> omega

lemma leftStep_measure (h : leftStep p ps q qs = some (x, v', w')) :
    sweepMeasure v' w' < sweepMeasure (p :: ps) (q :: qs) := by
  have hle := sweepMeasure_le v' w'
  have heq : sweepMeasure (p :: ps) (q :: qs)
      = 2 * (ps.length + qs.length) + 4 + if p.from = q.from then 0 else 1 := rfl
  unfold leftStep at h
  split_ifs at h with h₁ h₂ h₃ h₄ h₅ h₆ h₇ <;>
    simp only [some.injEq, Prod.mk.injEq] at h <;> obtain ⟨rfl, rfl, rfl⟩ := h
  · rw [length_cons] at hle
    omega
  · -- the left ends are level now
    rw [heq, if_neg (by omega)]
    simp [sweepMeasure]
  · rw [length_cons] at hle
    omega
  · rw [heq, if_neg (by omega)]
    simp [sweepMeasure]
  · rw [length_cons] at hle
    omega
  · rw [length_cons] at hle
    omega
  · omega

/-! ## The whole sweep -/

/-- What the sweep of `v` and `w` leaves: the pieces in order, with the offsets of `w` over those
of `v`. -/
structure SweepResult (v w r : ProgressVector) : Prop where
  ordered : Ordered Progress.view r
  offset : ∀ h, offsetAt r h = overlay v w h
  accepted : ∀ h, ¬ RejectsAt v w h
  le_from : ∀ c, (∀ a ∈ v, c ≤ a.from) → (∀ a ∈ w, c ≤ a.from) → ∀ a ∈ r, c ≤ a.from
  to_lt : ∀ bound, (∀ a ∈ v, a.to < bound) → (∀ a ∈ w, a.to < bound) → ∀ a ∈ r, a.to < bound

/-- When one side is used up, the other is taken over as it is. -/
lemma sweepResult_of_nil {v w : ProgressVector} (hv : Ordered view v)
    (hw : Ordered view w) (hnil : v = [] ∨ w = []) : SweepResult v w (v ++ w) := by
  rcases hnil with rfl | rfl
  · refine ⟨by simpa using hw, fun h => ?_, ?_, fun c _ hw => by simpa using hw, fun b _ hw => by simpa using hw⟩
    · simp [overlay, offsetAt]
    · rintro h ⟨o, o', ho, -, -⟩
      simp [offsetAt] at ho
  refine ⟨by simpa using hv, fun h => ?_, ?_, fun c hv _ => by simpa using hv, fun b hv _ => by simpa using hv⟩
  · simp [overlay, offsetAt]
  · rintro h ⟨o, o', -, ho', -⟩
    simp [offsetAt] at ho'

lemma LeftPiece.sweepResult {v w v' w' r : ProgressVector}
    (hx : LeftPiece v w x v' w') (hr : SweepResult v' w' r) : SweepResult v w (x :: r) := by
  have hbehind : ∀ a ∈ r, x.to + 1 ≤ a.from := hr.le_from _ hx.cut_left.le_lo hx.cut_right.le_lo
  -- behind the piece both vectors are the rests
  have hcut : ∀ h, x.to < h → offsetAt v' h = offsetAt v h ∧ offsetAt w' h = offsetAt w h :=
    fun h hh => ⟨hx.cut_left.lookup_eq h hh, hx.cut_right.lookup_eq h hh⟩
  refine ⟨ordered_cons.mpr ⟨hx.from_le_to, hbehind, hr.ordered⟩, ?_, ?_, ?_, ?_⟩
  · intro h
    rw [offsetAt, lookup_cons]
    by_cases hin : view.Has x h
    · rw [if_pos hin, (hx.inside h hin.1 hin.2).1]
      rfl
    rw [if_neg hin]
    rw [has_iff] at hin
    rcases Nat.lt_or_ge h x.from with hlt | hge
    · have hnone : lookup view r h = none := by
        refine lookup_eq_none_of_lt _ fun a ha => ?_
        have := hbehind a ha
        have := hx.from_le_to
        show h < a.from
        omega
      obtain ⟨hv, hw⟩ := hx.below h hlt
      rw [hnone, overlay, hv, hw]
      rfl
    · obtain ⟨hv, hw⟩ := hcut h (by omega)
      have hoff := hr.offset h
      rw [overlay, hv, hw] at hoff
      exact hoff
  · intro h hrej
    rcases Nat.lt_or_ge h x.from with hlt | hge
    · obtain ⟨o, o', ho, -, -⟩ := hrej
      rw [(hx.below h hlt).1] at ho
      simp at ho
    rcases Nat.lt_or_ge x.to h with hlt | hle
    · obtain ⟨hv, hw⟩ := hcut h hlt
      refine hr.accepted h ?_
      obtain ⟨o, o', ho, ho', href⟩ := hrej
      exact ⟨o, o', hv.trans ho, hw.trans ho', href⟩
    · exact (hx.inside h hge hle).2 hrej
  · intro c hv hw a ha
    have hxc : c ≤ x.from := by
      by_contra hlt
      -- left of `c` neither vector covers anything, but the piece does
      have hin := (hx.inside x.from le_rfl hx.from_le_to).1
      have hv' : offsetAt v x.from = none := lookup_eq_none_of_lt _ fun b hb => lt_of_lt_of_le (by omega) (hv b hb)
      have hw' : offsetAt w x.from = none := lookup_eq_none_of_lt _ fun b hb => lt_of_lt_of_le (by omega) (hw b hb)
      rw [overlay, hv', hw'] at hin
      simp at hin
    rcases mem_cons.mp ha with rfl | ha
    · exact hxc
    have := hbehind a ha
    have := hx.from_le_to
    omega
  · intro bound hv hw a ha
    obtain ⟨hxb, hvb, hwb⟩ := hx.to_lt bound hv hw
    rcases mem_cons.mp ha with rfl | ha
    · exact hxb
    · exact hr.to_lt bound hvb hwb a ha

/-- The sweep ends with the merged pieces, or at a hash id where the update is refused. -/
theorem updateLoop_spec (fuel : ℕ) : ∀ (cur upd : CompareStruct) (acc : ProgressVector),
    Ordered view cur.rest → Ordered view upd.rest → sweepMeasure cur.rest upd.rest < fuel →
    match updateLoop fuel cur upd acc with
    | none => ∃ h, RejectsAt cur.rest upd.rest h
    | some r => ∃ pieces, r = acc ++ pieces ∧ SweepResult cur.rest upd.rest pieces := by
  induction fuel with
  | zero => intro cur upd acc _ _ hfuel; omega
  | succ fuel ih =>
    intro cur upd acc hcur hupd hfuel
    rw [updateLoop]
    by_cases heof : (cur.isEof || upd.isEof) = true
    · rw [if_pos heof]
      rw [Bool.or_eq_true, isEof_iff, isEof_iff] at heof
      rw [drain_eq_rest _ _ cur.length_rest_le, drain_eq_rest _ _ upd.length_rest_le]
      exact ⟨cur.rest ++ upd.rest, by simp, sweepResult_of_nil hcur hupd heof⟩
    rw [if_neg heof]
    rw [Bool.or_eq_true, isEof_iff, isEof_iff, not_or] at heof
    obtain ⟨p, ps, hp⟩ := exists_cons_of_ne_nil heof.1
    obtain ⟨q, qs, hq⟩ := exists_cons_of_ne_nil heof.2
    have hstep := getLeftProgress_rest hp hq
    rw [hp] at hcur hfuel ⊢
    rw [hq] at hupd hfuel ⊢
    cases hleft : getLeftProgress cur upd with
    | mk piece curs =>
      obtain ⟨cur', upd'⟩ := curs
      rw [hleft] at hstep
      cases piece with
      | none => exact ⟨p.from, leftStep_eq_none hcur hupd hstep⟩
      | some x =>
        simp only at hstep ⊢
        have hx := leftStep_spec hcur hupd hstep
        have hm := leftStep_measure hstep
        have hrec := ih cur' upd' (acc ++ [x]) hx.cut_left.ordered hx.cut_right.ordered (by omega)
        cases hloop : updateLoop fuel cur' upd' (acc ++ [x]) with
        | none =>
          rw [hloop] at hrec
          obtain ⟨h, o, o', ho, ho', href⟩ := hrec
          -- a refusal behind the piece is a refusal of the whole
          have hh : x.to < h := by
            by_contra hle
            rw [offsetAt, hx.cut_left.lookup_eq_none (by omega)] at ho
            simp at ho
          refine ⟨h, o, o', ?_, ?_, href⟩
          · exact (hx.cut_left.lookup_eq h hh).symm.trans ho
          · exact (hx.cut_right.lookup_eq h hh).symm.trans ho'
        | some r =>
          rw [hloop] at hrec
          obtain ⟨pieces, hr, hres⟩ := hrec
          exact ⟨x :: pieces, by simpa using hr, hx.sweepResult hres⟩

/-! ## Gluing touching ranges -/

/-- Two neighbours that `MergeProgress` would have glued. -/
def Glueable (p q : Progress) : Prop := p.offset = q.offset ∧ p.to + 1 = q.from

/-- What `MergeProgress` has built after the ranges `v`: the same offsets, and no neighbours left
to glue. -/
structure Glued (v r : ProgressVector) : Prop where
  ordered : Ordered Progress.view r
  offset : ∀ h, offsetAt r h = offsetAt v h
  chain : r.IsChain fun p q => ¬ Glueable p q
  to_lt : ∀ bound, (∀ a ∈ v, a.to < bound) → ∀ a ∈ r, a.to < bound

/-- One more range keeps all of that, glued or not. -/
lemma Glued.mergeStep {v r : ProgressVector} (hr : Glued v r)
    (hv : Ordered view (v ++ [x])) (hx : x.to < 2 ^ 32) : Glued (v ++ [x]) (mergeStep r x) := by
  obtain ⟨-, hxle, hvx⟩ := ordered_append_singleton.mp hv
  have hxle' : x.from ≤ x.to := hxle
  have hrx : ∀ a ∈ r, a.to < x.from := hr.to_lt x.from hvx
  have hoff : ∀ h, offsetAt (v ++ [x]) h = (offsetAt r h).or (offsetAt [x] h) := by
    intro h
    rw [hr.offset h]
    exact lookup_append _ v [x] h
  have hto : ∀ bound, (∀ a ∈ v ++ [x], a.to < bound) → x.to < bound ∧ ∀ a ∈ r, a.to < bound := by
    intro bound hall
    refine ⟨hall x (by simp), hr.to_lt bound fun a ha => hall a (by simp [ha])⟩
  rcases eq_nil_or_concat' r with rfl | ⟨init, last, rfl⟩
  · refine ⟨ordered_append_singleton.mpr ⟨ordered_nil, hxle, by simp⟩, fun h => ?_, ?_, ?_⟩
    · rw [hoff h]
      rfl
    · exact isChain_singleton x
    · intro bound hall a ha
      rw [mem_singleton.mp ha]
      exact (hto bound hall).1
  obtain ⟨hinit, hlast, hlt⟩ := ordered_append_singleton.mp hr.ordered
  have hlast' : last.from ≤ last.to := hlast
  have hlx : last.to < x.from := hrx last (by simp)
  have hmod : (last.to + 1) % 2 ^ 32 = last.to + 1 := Nat.mod_eq_of_lt (by omega)
  have hchain := hr.chain
  rw [isChain_append] at hchain
  obtain ⟨hci, -, hcl⟩ := hchain
  simp only [Havenask.mergeStep, getLast?_append, getLast?_singleton, some_or, dropLast_concat, hmod]
  by_cases hglue : last.offset = x.offset ∧ last.to + 1 = x.from
  · rw [if_pos hglue]
    refine ⟨ordered_append_singleton.mpr ⟨hinit, ?_, hlt⟩, fun h => ?_, ?_, ?_⟩
    · show last.from ≤ x.to
      omega
    · rw [hoff h]
      simp only [offsetAt, lookup_append, lookup_cons, lookup_nil, has_iff,
        Progress.view_val, Option.or_assoc]
      congr 1
      by_cases h₁ : last.from ≤ h ∧ h ≤ last.to
      · rw [if_pos h₁, if_pos (by omega)]
        rfl
      rw [if_neg h₁, Option.none_or]
      by_cases h₂ : x.from ≤ h ∧ h ≤ x.to
      · rw [if_pos h₂, if_pos (by omega), hglue.1]
      · rw [if_neg h₂, if_neg (by omega)]
    · refine isChain_append.mpr ⟨hci, isChain_singleton _, ?_⟩
      intro p hp q hq
      simp only [head?_cons, mem_def, some.injEq] at hq
      subst hq
      exact hcl p hp last (by simp)
    · intro bound hall a ha
      obtain ⟨hxb, hrb⟩ := hto bound hall
      rcases mem_append.mp ha with ha | ha
      · exact hrb a (by simp [ha])
      · rw [mem_singleton.mp ha]
        exact hxb
  · rw [if_neg hglue]
    refine ⟨ordered_append_singleton.mpr ⟨hr.ordered, hxle, hrx⟩, fun h => ?_, ?_, ?_⟩
    · rw [hoff h]
      exact lookup_append _ _ _ h
    · refine isChain_append.mpr ⟨hr.chain, isChain_singleton _, ?_⟩
      intro p hp q hq
      simp only [head?_cons, mem_def, some.injEq, getLast?_append,
        getLast?_singleton, some_or] at hp hq
      subst hp hq
      exact hglue
    · intro bound hall a ha
      obtain ⟨hxb, hrb⟩ := hto bound hall
      rcases mem_append.mp ha with ha | ha
      · exact hrb a ha
      · rw [mem_singleton.mp ha]
        exact hxb

/-- `MergeProgress` changes no offset and leaves no neighbours to glue. -/
theorem mergeProgress_glued (v : ProgressVector) (hv : Ordered view v)
    (hfits : ∀ p ∈ v, p.to < 2 ^ 32) : Glued v (mergeProgress v) := by
  induction v using reverseRecOn with
  | nil => exact ⟨ordered_nil, fun _ => rfl, isChain_nil, by simp [mergeProgress]⟩
  | append_singleton v x ih =>
    have hglued := ih (ordered_append_singleton.mp hv).1 fun p hp => hfits p (by simp [hp])
    rw [mergeProgress, foldl_append]
    exact hglued.mergeStep hv (hfits x (by simp))

end Havenask
