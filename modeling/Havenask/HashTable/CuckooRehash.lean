import Havenask.HashTable.CuckooEvict

/-!
# `CuckooHashTable::ReHash`

The first part puts every bucket of the new region into place, the second copies the buckets of the
old region that lie behind it.  If nothing fails, the table has the layout of the new block count,
whatever layout it had before, and holds the same buckets.

If something fails, `ReHash` returns with the buckets as they are.  When that was in the first part,
one bucket is missing; when it was in the second, the buckets that had been copied are in both
regions (`Damage`).  `Rehashed` says all this of a call, and `reHash_spec` is its proof.
-/

namespace Havenask

open SlotArray Bucket LawfulBucket ForLoop BlockPlacement Cuckoo Function Multiset

namespace CuckooHashTable

variable {B S V : Type} {w : ℕ} [Bucket B w V] {hash : BitVec w → ℕ → BitVec w} [LawfulBucket B]

/-! ## The first part -/

variable {t : CuckooHashTable B S} {st : CuckooHashTable B S × (ℕ → Bool)} {newBlockCount : ℕ}

variable {i : ℕ}

/-- An empty slot or one that is not done may be emptied and marked. -/
lemma HalfDone.clear {bitmap : ℕ → Bool} (h : HalfDone hash t bitmap) (hi : i ∉ settledSlots t.bucket bitmap t.bucketCount) :
    HalfDone hash { t with bucket := update t.bucket i new } (update bitmap i true) := by
  have hempty : ∀ s, s ∉ (∅ : Set ℕ) := Set.notMem_empty
  have hsettled : settledSlots (update t.bucket i new) (update bitmap i true)
      t.bucketCount = settledSlots t.bucket bitmap t.bucketCount := by
    ext s
    by_cases hsi : s = i
    · subst hsi
      refine iff_of_false (fun hs => ?_) hi
      have hocc := hs.2.2
      rw [update_self, isEmpty_new] at hocc
      cases hocc
    · simp [settledSlots, hsi]
  have hne : ∀ s ∈ settledSlots t.bucket bitmap t.bucketCount, s ≠ i := fun s hs heq =>
    hi (heq ▸ hs)
  refine ⟨h.pos, h.nu, ?_, ⟨h.callIds.lt, h.callIds.le⟩⟩
  show Layout (t.firstBucketId hash) t.bucketCount t.nuHashFunc (update t.bucket i new)
    (settledSlots (update t.bucket i new) (update bitmap i true) t.bucketCount) ∅
  rw [hsettled]
  refine ⟨h.layout.lt, fun s hs _ => ?_, fun s hs _ hs' => ?_, fun s hs _ => ?_,
    h.layout.arranged.initial, fun s hs _ => ?_⟩
  · by_cases hsi : s = i
    · rw [hsi, update_self]
      exact wf_new
    · rw [update_of_ne hsi]
      exact h.layout.wf s hs (hempty s)
  · by_cases hsi : s = i
    · rw [hsi, update_self]
    · rw [update_of_ne hsi] at hs' ⊢
      exact h.layout.fresh s hs (hempty s) hs'
  · rw [update_of_ne (hne s hs)]
    exact h.layout.occ s hs (hempty s)
  · rw [update_of_ne (hne s hs)]
    exact h.layout.arranged.legal s hs (hempty s)

/-- The first part of a rehash of the table `t₀`, before the bucket `i`. -/
structure HeadInv (hash : BitVec w → ℕ → BitVec w) (t₀ : CuckooHashTable B S) (i : ℕ)
    (st : CuckooHashTable B S × (ℕ → Bool)) : Prop where
  same : Same t₀ st.1
  moves : Moves t₀.history st.1.history
  halfDone : (∀ ev ∈ st.1.history, ev.Keeps) → HalfDone hash st.1 st.2
  done : (∀ ev ∈ st.1.history, ev.Keeps) → ∀ s < i, st.2 s = true
  frame : (∀ ev ∈ st.1.history, ev.Keeps) → ∀ s, t₀.bucketCount ≤ s → st.1.bucket s = t₀.bucket s
  bag : (∀ ev ∈ st.1.history, ev.Copies) →
    contents occupied st.1.bucket t₀.bucketCount = contents occupied t₀.bucket t₀.bucketCount

/-- The first part of a rehash when it has failed. -/
structure HeadFail (hash : BitVec w → ℕ → BitVec w) (t₀ : CuckooHashTable B S)
    (st : CuckooHashTable B S × (ℕ → Bool)) : Prop where
  same : Same t₀ st.1
  lost : ∃ b h, st.1.history = .lost b :: h ∧ Moves t₀.history h
  halfDone : (∀ ev ∈ st.1.history, ev.Keeps) → HalfDone hash st.1 st.2
  frame : (∀ ev ∈ st.1.history, ev.Keeps) → ∀ s, t₀.bucketCount ≤ s → st.1.bucket s = t₀.bucket s
  bag : (∀ ev ∈ st.1.history, ev.Copies) → ∃ b, isEmpty b = false
    ∧ contents occupied st.1.bucket t₀.bucketCount + {b}
      = contents occupied t₀.bucket t₀.bucketCount

lemma rehashHead_spec {t₀ : CuckooHashTable B S} (hN : t₀.bucketCount < 2 ^ 32)
    (hi : i < t₀.bucketCount) (h : HeadInv hash t₀ i st) :
    Post (HeadInv hash t₀ (i + 1)) (fun stop st => stop = Stop.fails → HeadFail hash t₀ st)
      (rehashHead hash i st) := by
  obtain ⟨t, bitmap⟩ := st
  have hcount := bucketCount_congr h.same.blockCount
  simp only [rehashHead]
  cases hbit : bitmap i with
  | true =>
    simp only [if_true]
    refine ⟨h.same, h.moves, h.halfDone, fun hkeeps s hs => ?_, h.frame, h.bag⟩
    rcases Nat.lt_succ_iff_lt_or_eq.mp hs with hlt | rfl
    · exact h.done hkeeps s hlt
    · exact hbit
  | false =>
    simp only [Bool.false_eq_true, if_false]
    have hunsettled : i ∉ settledSlots t.bucket bitmap t.bucketCount := fun hmem => by
      have := hmem.2.1
      rw [hbit] at this
      cases this
    have hdone : (∀ ev ∈ t.history, ev.Keeps) → ∀ s < i + 1, update bitmap i true s = true := by
      intro hkeeps s hs
      by_cases hsi : s = i
      · rw [hsi, update_self]
      · rw [update_of_ne hsi]
        exact h.done hkeeps s (by omega)
    cases hempty : isEmpty (t.bucket i) with
    | true =>
      simp only [if_true]
      refine ⟨h.same, h.moves, fun hkeeps => ?_, hdone, h.frame, h.bag⟩
      have hclear := (h.halfDone hkeeps).clear hunsettled
      have hnew := (h.halfDone hkeeps).layout.fresh i (hi.trans_eq hcount.symm) (Set.notMem_empty i) hempty
      have hself : update t.bucket i new = t.bucket := by
        rw [← hnew, update_eq_self]
      rwa [hself] at hclear
    | false =>
      simp only [Bool.false_eq_true, if_false]
      cases hins : evictionInsert hash t.evictionFuel (t.bucket i)
          { t with bucket := update t.bucket i new } (update bitmap i true)
          with
      | none => exact nofun
      | some r =>
        obtain ⟨ok, t', bitmap'⟩ := r
        have hevict := (evictionInsert_frame _ _ _ _ _ hins).of_moves h.same h.moves
        have hsuffix : t.history <:+ t'.history := (evictionInsert_frame _ _ _ _ _ hins).suffix
        have hspec : (∀ ev ∈ t'.history, ev.Keeps) → Evicted hash
            { t with bucket := update t.bucket i new }
            (update bitmap i true) (t.bucket i) (ok, t', bitmap') := by
          intro hkeeps
          have hhalf := h.halfDone fun ev hev => hkeeps ev (hsuffix.subset hev)
          exact evictionInsert_spec _ _ _ _ _ (hhalf.clear hunsettled) (lt_of_eq_of_lt hcount hN)
            (hhalf.layout.wf i (hi.trans_eq hcount.symm) (Set.notMem_empty i)) hempty hins
            hkeeps
        have hframe : (∀ ev ∈ t'.history, ev.Keeps) → ∀ s, t₀.bucketCount ≤ s → t'.bucket s = t₀.bucket s := by
          intro hkeeps s hs
          rw [(hspec hkeeps).frame s (le_of_eq_of_le hcount hs)]
          show update t.bucket i new s = t₀.bucket s
          rw [update_of_ne (by omega)]
          exact h.frame (fun ev hev => hkeeps ev (hsuffix.subset hev)) s hs
        have hbefore : (∀ ev ∈ t'.history, ev.Copies) →
            contents occupied (update t.bucket i new) t.bucketCount + {t.bucket i}
              = contents occupied t₀.bucket t₀.bucketCount := by
          intro hcopies
          rw [contents_clear (hi.trans_eq hcount.symm) (occupied_eq_true.mpr hempty)
            (occupied_eq_false.mpr isEmpty_new), hcount]
          exact h.bag fun ev hev => hcopies ev (hsuffix.subset hev)
        cases ok with
        | false =>
          refine fun _ => ⟨hevict.same, hevict.lost rfl,
            fun hkeeps => (hspec hkeeps).halfDone, hframe, fun hcopies => ?_⟩
          have hspec' := hspec fun ev hev => (hcopies ev hev).keeps
          obtain ⟨b, hb, hlost⟩ := hspec'.bag_lost rfl hcopies
          refine ⟨b, hb, Eq.trans ?_ (hbefore hcopies)⟩
          rw [← hcount]
          exact hlost
        | true =>
          refine ⟨hevict.same, hevict.moves rfl, fun hkeeps => (hspec hkeeps).halfDone,
            fun hkeeps s hs => ?_, hframe, fun hcopies => ?_⟩
          · exact (hspec hkeeps).marked s (hdone (fun ev hev => hkeeps ev (hsuffix.subset hev)) s hs)
          have hspec' := hspec fun ev hev => (hcopies ev hev).keeps
          refine Eq.trans ?_ (hbefore hcopies)
          rw [← hcount]
          exact hspec'.bag rfl hcopies

/-- The buckets of the first `n` slots are well-formed, and nothing is left of empty ones. -/
structure Clean (m : ℕ → B) (n : ℕ) : Prop where
  wf : ∀ s < n, Wf (m s)
  fresh : ∀ s < n, isEmpty (m s) = true → m s = new

variable {n : ℕ} {m : ℕ → B}

lemma Clean.mono {n' : ℕ} (h : Clean m n) (hle : n' ≤ n) : Clean m n' :=
  ⟨fun s hs => h.wf s (hs.trans_le hle), fun s hs => h.fresh s (hs.trans_le hle)⟩

/-- A larger region is clean if nothing happened behind a region that is. -/
lemma Clean.extend {m' : ℕ → B} {n' : ℕ} (h : Clean m' n') (hm : Clean m n)
    (hframe : ∀ s, n' ≤ s → m' s = m s) : Clean m' n := by
  constructor
  · intro s hs
    by_cases hlt : s < n'
    · exact h.wf s hlt
    · rw [hframe s (Nat.le_of_not_lt hlt)]
      exact hm.wf s hs
  · intro s hs hempty
    by_cases hlt : s < n'
    · exact h.fresh s hlt hempty
    · rw [hframe s (Nat.le_of_not_lt hlt)] at hempty ⊢
      exact hm.fresh s hs hempty

lemma Clean.of_layout {first : BitVec w → ℕ → ℕ} {N nu : ℕ} {taken : Set ℕ}
    (h : Layout first N nu m taken ∅) : Clean m N :=
  ⟨fun s hs => h.wf s hs (Set.notMem_empty s), fun s hs => h.fresh s hs (Set.notMem_empty s)⟩

lemma headInv_start (hpos : 0 < newBlockCount)
    (hclean : (∀ ev ∈ t.history, ev.Keeps) → Clean t.bucket (newBlockCount * 4)) :
    HeadInv hash (t.startReHash newBlockCount) 0 (t.startReHash newBlockCount, fun _ => false) := by
  have hnone : settledSlots t.bucket (fun _ => false) (newBlockCount * 4) = ∅ := by
    ext s
    simp [settledSlots]
  refine ⟨rfl, Moves.refl _, fun hkeeps => ⟨hpos, le_rfl, ?_, ⟨Nat.two_pow_pos 32, fun _ => le_rfl⟩⟩,
    fun _ s hs => absurd hs (Nat.not_lt_zero s), fun _ _ _ => rfl, fun _ => rfl⟩
  show Layout _ (newBlockCount * 4) 2 t.bucket (settledSlots t.bucket (fun _ => false) (newBlockCount * 4)) ∅
  rw [hnone]
  exact ⟨fun _ hs => absurd hs (Set.notMem_empty _), fun s hs _ => (hclean hkeeps).wf s hs,
    fun s hs _ => (hclean hkeeps).fresh s hs, fun _ hs => absurd hs (Set.notMem_empty _), Arranged.empty⟩

lemma HalfDone.geometry {bitmap : ℕ → Bool} (h : HalfDone hash t bitmap)
    (hdone : ∀ s < t.bucketCount, bitmap s = true) : Geometry hash t := by
  have hall : settledSlots t.bucket bitmap t.bucketCount = occupiedSlots t.bucket t.bucketCount := by
    ext s
    exact ⟨fun hs => ⟨hs.1, hs.2.2⟩, fun hs => ⟨hs.1, hdone s hs.1, hs.2⟩⟩
  exact ⟨h.pos, h.nu, hall ▸ h.layout, h.callIds⟩

/-! ## The second part -/

variable {t' : CuckooHashTable B S}

/-- A key goes to a bucket of the table, and nothing happens behind it. -/
lemma SlotFor.frame {t : CuckooHashTable B S} {k : BitVec w} (h : SlotFor hash t t' k i) :
    i < t.bucketCount ∧ ∀ s, t.bucketCount ≤ s → t'.bucket s = t.bucket s := by
  cases h with
  | found hbucket hi hocc hkey => exact ⟨hi, fun s _ => by rw [hbucket]⟩
  | opened e habsent hopened hemptied =>
    refine ⟨hopened.layout.lt i hopened.mem, fun s hs => hopened.frame s fun hmem => ?_⟩
    exact absurd (hopened.layout.lt s hmem) (Nat.not_lt.mpr hs)

/-- A bucket is copied to where its key goes, and the key is nowhere yet. -/
lemma SlotFor.contents {t : CuckooHashTable B S} {k : BitVec w}
    (h : SlotFor hash t t' k i) (hcopies : ∀ ev ∈ t'.history, ev.Copies) {b : B} (hb : isEmpty b = false)
    (habsent : k ∉ (contents occupied t.bucket t.bucketCount).map key) :
    contents occupied (update t'.bucket i b) t.bucketCount = contents occupied t.bucket t.bucketCount + {b} := by
  cases h with
  | found hbucket hi hocc hkey =>
    exact absurd (mem_keys_iff.mpr ⟨i, ⟨hi, hocc⟩, hkey⟩) habsent
  | opened e _ hopened hemptied =>
    rw [contents_fill (hopened.layout.lt i hopened.mem) (occupied_eq_false.mpr hemptied.2)
      (occupied_eq_true.mpr hb), contents_of_opened hopened hemptied.2 hcopies]

/-- The second part of a rehash, from the table `t₁` and before the bucket `i`. -/
structure TailInv (hash : BitVec w → ℕ → BitVec w) (t₁ : CuckooHashTable B S) (n i : ℕ)
    (st : CuckooHashTable B S × List B) : Prop where
  same : Same t₁ st.1
  moves : Moves t₁.history st.1.history
  geometry : (∀ ev ∈ st.1.history, ev.Keeps) → Geometry hash st.1
  frame : (∀ ev ∈ st.1.history, ev.Keeps) → ∀ s, t₁.bucketCount ≤ s → st.1.bucket s = t₁.bucket s
  copied : (∀ ev ∈ st.1.history, ev.Keeps) → contents occupied t₁.bucket i
    = contents occupied t₁.bucket t₁.bucketCount + (st.2 : Multiset B)
  bag : (∀ ev ∈ st.1.history, ev.Copies) → ((contents occupied t₁.bucket n).map key).Nodup →
    contents occupied st.1.bucket t₁.bucketCount = contents occupied t₁.bucket i

/-- The second part of a rehash when it has failed. -/
structure TailFail (hash : BitVec w → ℕ → BitVec w) (t₁ : CuckooHashTable B S) (n : ℕ)
    (st : CuckooHashTable B S × List B) : Prop where
  same : Same t₁ st.1
  left : ∃ h, st.1.history = st.2.map Event.left ++ h ∧ Moves t₁.history h
  clean : (∀ ev ∈ st.1.history, ev.Keeps) → Clean st.1.bucket t₁.bucketCount
  frame : (∀ ev ∈ st.1.history, ev.Keeps) → ∀ s, t₁.bucketCount ≤ s → st.1.bucket s = t₁.bucket s
  bag : (∀ ev ∈ st.1.history, ev.Copies) → ((contents occupied t₁.bucket n).map key).Nodup →
    contents occupied st.1.bucket t₁.bucketCount
        = contents occupied t₁.bucket t₁.bucketCount + (st.2 : Multiset B)
      ∧ contents occupied t₁.bucket t₁.bucketCount + (st.2 : Multiset B)
        ≤ contents occupied t₁.bucket n

lemma rehashTail_spec {t₁ : CuckooHashTable B S}
    (hclean : (∀ ev ∈ t₁.history, ev.Keeps) → Clean t₁.bucket n) (hge : t₁.bucketCount ≤ i) (hi : i < n)
    {st : CuckooHashTable B S × List B} (h : TailInv hash t₁ n i st) :
    Post (TailInv hash t₁ n (i + 1)) (fun _ => TailFail hash t₁ n) (rehashTail hash i st) := by
  obtain ⟨t, copied⟩ := st
  have hcount : t.bucketCount = t₁.bucketCount := bucketCount_congr h.same.blockCount
  have hold : (∀ ev ∈ t.history, ev.Keeps) → t.bucket i = t₁.bucket i := fun hkeeps =>
    h.frame hkeeps i hge
  simp only [rehashTail]
  cases hempty : isEmpty (t.bucket i) with
  | true =>
    simp only [if_true]
    have hsucc : (∀ ev ∈ t.history, ev.Keeps) →
        contents occupied t₁.bucket (i + 1) = contents occupied t₁.bucket i := by
      intro hkeeps
      rw [hold hkeeps] at hempty
      rw [contents_succ, slot_of_not_occ (occupied_eq_false.mpr hempty), add_zero]
    refine ⟨h.same, h.moves, h.geometry, h.frame, fun hkeeps => ?_, fun hcopies hnodup => ?_⟩
    · rw [hsucc hkeeps]
      exact h.copied hkeeps
    · rw [hsucc fun ev hev => (hcopies ev hev).keeps]
      exact h.bag hcopies hnodup
  | false =>
    simp only [Bool.false_eq_true, if_false]
    have hframe := internalFindBucket_frame hash (t := t) (k := key (t.bucket i)) rfl
    have hspec : (∀ ev ∈ (t.internalFindBucket hash (key (t.bucket i))).2.history, ev.Keeps) →
        Wf (t.bucket i)
          ∧ FindSpec hash t (key (t.bucket i)) (t.internalFindBucket hash (key (t.bucket i))) := by
      intro hkeeps
      have hkeeps' : ∀ ev ∈ t.history, ev.Keeps := fun ev hev =>
        hkeeps ev (hframe.suffix.subset hev)
      have hwf : Wf (t.bucket i) := by
        rw [hold hkeeps']
        exact (hclean fun ev hev => hkeeps' ev (h.moves.suffix.subset hev)).wf i hi
      exact ⟨hwf, internalFindBucket_spec (h.geometry hkeeps') (validKey_key hwf hempty)⟩
    generalize t.internalFindBucket hash (key (t.bucket i)) = r at hframe hspec
    obtain ⟨_ | newBucket, t'⟩ := r
    · have hbucket : t'.bucket = t.bucket := hframe.bucket_of_none rfl
      have hsuffix : t.history <:+ copied.map Event.left ++ t'.history := hframe.suffix.trans (List.suffix_append _ _)
      have hkeeps' : (∀ ev ∈ copied.map Event.left ++ t'.history, ev.Keeps) →
          ∀ ev ∈ t.history, ev.Keeps := fun hkeeps ev hev => hkeeps ev (hsuffix.subset hev)
      refine ⟨h.same.trans hframe.same, ⟨_, rfl, h.moves.trans hframe.moves⟩, fun hkeeps => ?_,
        fun hkeeps s hs => ?_, fun hcopies hnodup => ?_⟩
      · show Clean t'.bucket t₁.bucketCount
        rw [hbucket, ← hcount]
        exact Clean.of_layout (h.geometry (hkeeps' hkeeps)).layout
      · show t'.bucket s = t₁.bucket s
        rw [hbucket]
        exact h.frame (hkeeps' hkeeps) s hs
      · have hcopied := h.copied (hkeeps' fun ev hev => (hcopies ev hev).keeps)
        rw [hbucket, ← hcopied]
        exact ⟨h.bag (fun ev hev => hcopies ev (hsuffix.subset hev)) hnodup, contents_le hi.le⟩
    have hslot : (∀ ev ∈ t'.history, ev.Keeps) → CallIds t'
        ∧ SlotFor hash t t' (key (t.bucket i)) newBucket := fun hkeeps =>
      ((hspec hkeeps).2 hkeeps).imp_right fun hfound => hfound newBucket rfl
    have hkeeps' : (∀ ev ∈ t'.history, ev.Keeps) → ∀ ev ∈ t.history, ev.Keeps :=
      fun hkeeps ev hev => hkeeps ev (hframe.suffix.subset hev)
    have hbucket : (∀ ev ∈ t'.history, ev.Keeps) → t'.bucket i = t.bucket i := fun hkeeps =>
      (hslot hkeeps).2.frame.2 i (hcount.trans_le hge)
    have hsucc : (∀ ev ∈ t'.history, ev.Keeps) → contents occupied t₁.bucket (i + 1)
        = contents occupied t₁.bucket i + {t'.bucket i} := by
      intro hkeeps
      rw [hbucket hkeeps, contents_succ, ← hold (hkeeps' hkeeps), slot_of_occ (occupied_eq_true.mpr hempty)]
    refine ⟨h.same.trans hframe.same, h.moves.trans hframe.moves, fun hkeeps => ?_,
      fun hkeeps s hs => ?_, fun hkeeps => ?_, fun hcopies hnodup => ?_⟩
    · have hgeometry := h.geometry (hkeeps' hkeeps)
      have hlayout := (hslot hkeeps).2.layout hgeometry hframe.nu_le (hspec hkeeps).1 hempty rfl
      have hblocks := hframe.same.blockCount
      rw [← firstBucketId_congr hash hblocks, ← bucketCount_congr hblocks, ← hbucket hkeeps] at hlayout
      exact ⟨hgeometry.pos.trans_eq hblocks.symm, hgeometry.nu.trans hframe.nu_le, hlayout,
        ⟨(hslot hkeeps).1.lt, (hslot hkeeps).1.le⟩⟩
    · have hlt := (hslot hkeeps).2.frame.1
      show update t'.bucket newBucket (t'.bucket i) s = t₁.bucket s
      rw [update_of_ne (by omega), (hslot hkeeps).2.frame.2 s (hcount.trans_le hs)]
      exact h.frame (hkeeps' hkeeps) s hs
    · have hcopied := h.copied (hkeeps' hkeeps)
      rw [hsucc hkeeps, hcopied, add_assoc, ← cons_coe, ← singleton_add, add_comm {t'.bucket i}]
    · have hkeeps : ∀ ev ∈ t'.history, ev.Keeps := fun ev hev => (hcopies ev hev).keeps
      have hbag := h.bag (fun ev hev => hcopies ev (hframe.suffix.subset hev)) hnodup
      have habsent : key (t.bucket i)
          ∉ (contents occupied t.bucket t.bucketCount).map key := by
        have hsub := nodup_of_le (map_le_map (contents_le hi)) hnodup
        rw [hsucc hkeeps, map_add, map_singleton, nodup_add, hbucket hkeeps] at hsub
        rw [hcount, hbag]
        exact disjoint_singleton.mp hsub.2.2
      have hfill := (hslot hkeeps).2.contents hcopies hempty habsent
      rw [hcount, hbag, ← hbucket hkeeps] at hfill
      rw [hsucc hkeeps]
      exact hfill

/-! ## `ReHash` -/

/-- What becomes of the bag of buckets when a rehash fails half-way: a bucket is missing, or a bucket
is there once more. -/
inductive Damage (C C' : Multiset B) : Prop
  | lost (b : B) (hb : isEmpty b = false) (h : C' + {b} = C)
  | left (b : B) (hb : b ∈ C) (h : C + {b} ≤ C')

/-- What `ReHash(newBlockCount)` does to the table `t`. -/
structure Rehashed (hash : BitVec w → ℕ → BitVec w) (t : CuckooHashTable B S) (newBlockCount : ℕ)
    (r : Bool × CuckooHashTable B S) : Prop where
  same : Same (if r.1 then t.startReHash newBlockCount else t) r.2
  suffix : t.history <:+ r.2.history
  moves : r.1 = true → Moves t.history r.2.history
  geometry : (∀ ev ∈ r.2.history, ev.Keeps) → r.1 = true → Geometry hash r.2
  clean : (∀ ev ∈ r.2.history, ev.Keeps) → r.1 = false → Clean r.2.bucket (max t.bucketCount (newBlockCount * 4))
  bag : (∀ ev ∈ r.2.history, ev.Copies) → (t.blockCount ≤ newBlockCount
      ∨ ((contents occupied t.bucket t.bucketCount).map key).Nodup) → r.1 = true →
    contents occupied r.2.bucket (newBlockCount * 4)
      = contents occupied t.bucket (max t.bucketCount (newBlockCount * 4))
  damage : (∀ ev ∈ r.2.history, ev.Copies) → newBlockCount ≤ t.blockCount →
    ((contents occupied t.bucket t.bucketCount).map key).Nodup → r.1 = false →
    (Moves t.history r.2.history ∧ contents occupied r.2.bucket t.bucketCount
      = contents occupied t.bucket t.bucketCount)
    ∨ ((∃ ev ∈ r.2.history, ¬ ev.IsMove) ∧ Damage (contents occupied t.bucket t.bucketCount)
      (contents occupied r.2.bucket t.bucketCount))

omit [Bucket B w V] [LawfulBucket B] in
/-- The old block count is put back. -/
lemma Same.restore {t : CuckooHashTable B S} (h : Same (t.startReHash newBlockCount) t') :
    Same t { t' with blockCount := t.blockCount } :=
  congrArg (fun r : (ℕ × ℕ × ℕ) × (ℕ × ℕ × ℕ) × S × S => ((t.blockCount, r.1.2), r.2)) h

/-- How a rehash ends: in the first part, in the second, or well. -/
inductive RehashCases (hash : BitVec w → ℕ → BitVec w) (t : CuckooHashTable B S)
    (newBlockCount : ℕ) : Bool × CuckooHashTable B S → Prop
  | head (st : CuckooHashTable B S × (ℕ → Bool))
      (hfail : HeadFail hash (t.startReHash newBlockCount) st) :
      RehashCases hash t newBlockCount (false, { st.1 with blockCount := t.blockCount })
  | tail (st₁ : CuckooHashTable B S × (ℕ → Bool)) (st : CuckooHashTable B S × List B)
      (hhead : HeadInv hash (t.startReHash newBlockCount) (newBlockCount * 4) st₁)
      (hfail : TailFail hash st₁.1 (max t.bucketCount (newBlockCount * 4)) st) :
      RehashCases hash t newBlockCount (false, { st.1 with blockCount := t.blockCount })
  | done (st₁ : CuckooHashTable B S × (ℕ → Bool)) (st : CuckooHashTable B S × List B)
      (hhead : HeadInv hash (t.startReHash newBlockCount) (newBlockCount * 4) st₁)
      (htail : TailInv hash st₁.1 (max t.bucketCount (newBlockCount * 4))
        (max t.bucketCount (newBlockCount * 4)) st)
      (hnone : t.blockCount ≤ newBlockCount → st.1 = st₁.1) :
      RehashCases hash t newBlockCount (true, st.1)

/-- The table after the first part. -/
lemma HeadInv.whole {newBlockCount : ℕ} (h : HeadInv hash (t.startReHash newBlockCount) (newBlockCount * 4) st)
    (hclean : (∀ ev ∈ t.history, ev.Keeps) → Clean t.bucket n)
    (hkeeps : ∀ ev ∈ st.1.history, ev.Keeps) : Geometry hash st.1 ∧ Clean st.1.bucket n := by
  have hcount := bucketCount_congr h.same.blockCount
  have hgeometry : Geometry hash st.1 := (h.halfDone hkeeps).geometry fun s hs => h.done hkeeps s (hs.trans_eq hcount)
  have hclean' := hclean fun ev hev => hkeeps ev (h.moves.suffix.subset hev)
  exact ⟨hgeometry, (Clean.of_layout hgeometry.layout).extend hclean' fun s hs =>
    h.frame hkeeps s (hcount.symm.trans_le hs)⟩

lemma reHash_cases {r : Bool × CuckooHashTable B S} (hpos : 0 < newBlockCount) (hN : newBlockCount * 4 < 2 ^ 32)
    (hclean : (∀ ev ∈ t.history, ev.Keeps) → Clean t.bucket (max t.bucketCount (newBlockCount * 4)))
    (h : t.reHash hash newBlockCount = some r) : RehashCases hash t newBlockCount r := by
  have hhead := forLoop_rule (f := rehashHead hash) (a := 0) (HeadInv hash (t.startReHash newBlockCount))
    (fun stop st => stop = Stop.fails → HeadFail hash (t.startReHash newBlockCount) st)
    (newBlockCount * 4)
    (fun i st _ hi hst => rehashHead_spec (show (t.startReHash newBlockCount).bucketCount < _ from hN)
      (hi.trans_eq (Nat.zero_add _)) hst)
    (headInv_start hpos fun hkeeps => (hclean hkeeps).mono (le_max_right _ _))
  rw [Nat.zero_add] at hhead
  unfold reHash at h
  generalize forLoop (rehashHead hash) (newBlockCount * 4) 0
    (t.startReHash newBlockCount, fun _ => false) = r₁ at h hhead
  obtain ⟨_ | stop, st₁⟩ := r₁
  · have hcount : st₁.1.bucketCount = newBlockCount * 4 := bucketCount_congr hhead.same.blockCount
    have hn : newBlockCount * 4 + (t.blockCount * 4 - newBlockCount * 4)
        = max t.bucketCount (newBlockCount * 4) := by
      rw [bucketCount]
      omega
    have htail := forLoop_rule (f := rehashTail hash) (a := newBlockCount * 4)
      (TailInv hash st₁.1 (max t.bucketCount (newBlockCount * 4)))
      (fun _ => TailFail hash st₁.1 (max t.bucketCount (newBlockCount * 4)))
      (t.blockCount * 4 - newBlockCount * 4)
      (fun i st hge hi hst => rehashTail_spec (fun hkeeps => (hhead.whole hclean hkeeps).2)
        (hcount.trans_le hge) (hi.trans_eq hn) hst)
      (s := (st₁.1, [])) ⟨rfl, Moves.refl _, fun hkeeps => (hhead.whole hclean hkeeps).1,
        fun _ _ _ => rfl, fun _ => by simp [hcount], fun _ _ => by rw [hcount]⟩
    rw [hn] at htail
    have hnone : t.blockCount ≤ newBlockCount →
        forLoop (rehashTail hash) (t.blockCount * 4 - newBlockCount * 4) (newBlockCount * 4)
          (st₁.1, []) = (none, st₁.1, []) := by
      intro hle
      rw [show t.blockCount * 4 - newBlockCount * 4 = 0 by omega, forLoop]
    simp only at h
    generalize forLoop (rehashTail hash) (t.blockCount * 4 - newBlockCount * 4)
      (newBlockCount * 4) (st₁.1, []) = r₂ at h htail hnone
    obtain ⟨_ | stop, st⟩ := r₂
    · obtain rfl := Option.some.inj h
      refine .done st₁ st hhead htail fun hle => ?_
      rw [(Prod.mk.inj (hnone hle)).2]
    · obtain rfl := Option.some.inj h
      exact .tail st₁ st hhead htail
  · cases stop with
    | hangs => cases h
    | fails =>
      obtain rfl := Option.some.inj h
      exact .head st₁ (hhead rfl)

section
variable {t : CuckooHashTable B S} {newBlockCount : ℕ}
  {st₁ : CuckooHashTable B S × (ℕ → Bool)} {st : CuckooHashTable B S × List B}

/-- The first part changes the order of the buckets only. -/
lemma HeadInv.contents_eq (h : HeadInv hash (t.startReHash newBlockCount) (newBlockCount * 4) st₁)
    (hcopies : ∀ ev ∈ st₁.1.history, ev.Copies) (hn : newBlockCount * 4 ≤ n) :
    contents occupied st₁.1.bucket n = contents occupied t.bucket n := by
  have hbag := congrArg (· + 0) (h.bag hcopies)
  have hall := contents_extend hbag (h.frame fun ev hev => (hcopies ev hev).keeps) hn
  rwa [add_zero, add_zero] at hall

lemma HeadFail.rehashed (h : HeadFail hash (t.startReHash newBlockCount) st₁)
    (hclean : (∀ ev ∈ t.history, ev.Keeps) → Clean t.bucket (max t.bucketCount (newBlockCount * 4))) :
    Rehashed hash t newBlockCount (false, { st₁.1 with blockCount := t.blockCount }) := by
  obtain ⟨b, h', hhistory, hmoves⟩ := h.lost
  have hcount := bucketCount_congr h.same.blockCount
  have hsuffix : t.history <:+ st₁.1.history := by
    rw [hhistory]
    exact hmoves.suffix.trans (List.suffix_cons _ _)
  refine ⟨h.same.restore, hsuffix, nofun, (fun _ hok => by cases hok),
    fun hkeeps _ => ?_, (fun _ _ hok => by cases hok), fun hcopies hle _ _ => Or.inr ⟨?_, ?_⟩⟩
  · have hclean' := hclean fun ev hev => hkeeps ev (hsuffix.subset hev)
    refine (Clean.of_layout (h.halfDone hkeeps).layout).extend hclean' fun s hs => ?_
    exact h.frame hkeeps s (hcount.symm.trans_le hs)
  · refine ⟨.lost b, ?_, id⟩
    rw [hhistory]
    exact List.mem_cons_self
  · obtain ⟨b', hb', hbag⟩ := h.bag hcopies
    refine .lost b' hb' ?_
    have hbag' := hbag.trans (add_zero _).symm
    have hall := contents_extend hbag' (h.frame fun ev hev => (hcopies ev hev).keeps) (Nat.mul_le_mul_right 4 hle)
    rwa [add_zero] at hall

lemma TailFail.rehashed (h : TailFail hash st₁.1 (max t.bucketCount (newBlockCount * 4)) st)
    (hhead : HeadInv hash (t.startReHash newBlockCount) (newBlockCount * 4) st₁)
    (hclean : (∀ ev ∈ t.history, ev.Keeps) → Clean t.bucket (max t.bucketCount (newBlockCount * 4))) :
    Rehashed hash t newBlockCount (false, { st.1 with blockCount := t.blockCount }) := by
  obtain ⟨h', hhistory, hmoves⟩ := h.left
  have hcount : st₁.1.bucketCount = newBlockCount * 4 := bucketCount_congr hhead.same.blockCount
  have hsuffix : st₁.1.history <:+ st.1.history := by
    rw [hhistory]
    exact hmoves.suffix.trans (List.suffix_append _ _)
  refine ⟨(hhead.same.trans h.same).restore, hhead.moves.suffix.trans hsuffix,
    nofun, (fun _ hok => by cases hok), fun hkeeps _ => ?_,
    (fun _ _ hok => by cases hok), fun hcopies hle hnodup _ => ?_⟩
  · have hwhole := hhead.whole hclean fun ev hev => hkeeps ev (hsuffix.subset hev)
    exact (h.clean hkeeps).extend hwhole.2 (h.frame hkeeps)
  have hle' : newBlockCount * 4 ≤ t.bucketCount := Nat.mul_le_mul_right 4 hle
  have hcontents := hhead.contents_eq (fun ev hev => hcopies ev (hsuffix.subset hev)) hle'
  rw [max_eq_left hle'] at h
  rw [← hcontents] at hnodup
  obtain ⟨hbag, hsub⟩ := h.bag hcopies hnodup
  have hall := contents_extend (C := 0) ((add_zero _).trans hbag)
    (h.frame fun ev hev => (hcopies ev hev).keeps) (hcount.trans_le hle')
  rw [add_zero, hcontents] at hall
  rw [hcontents] at hsub
  show (Moves t.history st.1.history ∧ contents occupied st.1.bucket t.bucketCount = _)
    ∨ ((∃ ev ∈ st.1.history, _) ∧ Damage _ (contents occupied st.1.bucket t.bucketCount))
  rw [hall]
  cases hcopied : st.2 with
  | nil =>
    rw [hcopied, List.map_nil, List.nil_append] at hhistory
    rw [hhistory]
    exact Or.inl ⟨hhead.moves.trans hmoves, add_zero _⟩
  | cons b bs =>
    have hb : b ∈ st.2 := hcopied ▸ List.mem_cons_self
    refine Or.inr ⟨⟨.left b, ?_, id⟩, .left b ?_ ?_⟩
    · rw [hhistory]
      exact List.mem_append_left _ (List.mem_map_of_mem hb)
    · exact mem_of_le hsub (mem_add.mpr (Or.inr hb))
    · rw [← hcopied]
      exact Multiset.add_le_add_left (Multiset.singleton_le.mpr hb)

lemma TailInv.rehashed (h : TailInv hash st₁.1 (max t.bucketCount (newBlockCount * 4))
      (max t.bucketCount (newBlockCount * 4)) st)
    (hhead : HeadInv hash (t.startReHash newBlockCount) (newBlockCount * 4) st₁)
    (hnone : t.blockCount ≤ newBlockCount → st.1 = st₁.1) : Rehashed hash t newBlockCount (true, st.1) := by
  have hcount : st₁.1.bucketCount = newBlockCount * 4 := bucketCount_congr hhead.same.blockCount
  have hmoves := hhead.moves.trans h.moves
  refine ⟨hhead.same.trans h.same, hmoves.suffix, fun _ => hmoves, fun hkeeps _ => h.geometry hkeeps,
    (fun _ hfail => by cases hfail), fun hcopies hcase _ => ?_, (fun _ _ _ hfail => by cases hfail)⟩
  have hcopies₁ : ∀ ev ∈ st₁.1.history, ev.Copies := fun ev hev =>
    hcopies ev (h.moves.suffix.subset hev)
  by_cases hle : t.blockCount ≤ newBlockCount
  · have hle' : t.bucketCount ≤ newBlockCount * 4 := Nat.mul_le_mul_right 4 hle
    rw [max_eq_right hle', hnone hle]
    exact hhead.contents_eq hcopies₁ le_rfl
  have hle' : newBlockCount * 4 ≤ t.bucketCount := Nat.mul_le_mul_right 4 (by omega)
  rw [max_eq_left hle'] at h ⊢
  have hcontents := hhead.contents_eq hcopies₁ hle'
  have hbag := h.bag hcopies (hcontents ▸ hcase.resolve_left hle)
  rwa [hcount, hcontents] at hbag

end

/-- **`ReHash`**: the layout is right when it succeeds; when it fails, the buckets are at least in
order. -/
theorem reHash_spec {r : Bool × CuckooHashTable B S} (hpos : 0 < newBlockCount) (hN : newBlockCount * 4 < 2 ^ 32)
    (hclean : (∀ ev ∈ t.history, ev.Keeps) → Clean t.bucket (max t.bucketCount (newBlockCount * 4)))
    (h : t.reHash hash newBlockCount = some r) : Rehashed hash t newBlockCount r := by
  cases reHash_cases hpos hN hclean h with
  | head st hfail => exact hfail.rehashed hclean
  | tail st₁ st hhead hfail => exact hfail.rehashed hhead hclean
  | done st₁ st hhead htail hnone => exact htail.rehashed hhead hnone

end CuckooHashTable

end Havenask
