import Havenask.HashTable.CuckooMap

/-!
# `CuckooHashTable::EvictionInsert`

`ReHash` works in place.  While its first part runs, the buckets that the bitmap marks and that are
occupied are laid out for the new block count (`HalfDone`); the others lie as the old one left them.
`EvictionInsert` puts a bucket into a slot that is empty or not done, and what stood there goes on
looking (`evictionInsert_spec`).  It gives up when no slot is found for the bucket that it holds, and
that bucket is then in no slot.
-/

namespace Havenask

open SlotArray Bucket LawfulBucket ForLoop BlockPlacement Cuckoo Option Function

namespace CuckooHashTable

variable {B S V : Type} {w : ℕ} [Bucket B w V] {hash : BitVec w → ℕ → BitVec w}

/-! ## Finding a bucket to evict -/

/-- The slots that are occupied and done. -/
def settledSlots (m : ℕ → B) (bitmap : ℕ → Bool) (N : ℕ) : Set ℕ :=
  {s | s < N ∧ bitmap s = true ∧ isEmpty (m s) = false}

lemma freeOk_settled (m : ℕ → B) (bitmap : ℕ → Bool) (N : ℕ) :
    FreeOk (fun i => isEmpty (m i) || !bitmap i) (settledSlots m bitmap N) N := by
  intro s hs
  rw [Bool.or_eq_false_iff, Bool.not_eq_false']
  exact ⟨fun h => ⟨hs, h.2, h.1⟩, fun h => ⟨h.2.2, h.2.1⟩⟩

/-- What the search for a bucket to evict does to a table in any case. -/
structure EvictFrame (t : CuckooHashTable B S) (bitmap : ℕ → Bool)
    (r : Option ℕ × CuckooHashTable B S × (ℕ → Bool)) : Prop where
  same : Same t r.2.1
  moves : Moves t.history r.2.1.history
  nu_eq : r.2.1.nuHashFunc = t.nuHashFunc
  of_none : r.1 = none → r.2.1.bucket = t.bucket ∧ r.2.2 = bitmap

variable {t : CuckooHashTable B S} {bitmap : ℕ → Bool}
  {r : Option ℕ × CuckooHashTable B S × (ℕ → Bool)} {k : BitVec w}

lemma bFSFindBucketForEviction_frame {tree : List TreeNode}
    (h : t.bFSFindBucketForEviction hash tree bitmap = some r) : EvictFrame t bitmap r := by
  unfold bFSFindBucketForEviction at h
  generalize t.nextCallId.evictionSearch hash tree bitmap = res at h
  obtain ⟨_ | _ | cur, s⟩ := res
  · obtain rfl := some.inj h
    exact ⟨rfl, moves_nextCallId t, rfl, fun _ => ⟨rfl, rfl⟩⟩
  · cases h
  · obtain rfl := some.inj h
    exact ⟨rfl, (moves_nextCallId t).trans (moves_cuckooKick _ _ _ _ _ _), rfl, nofun⟩

lemma findBucketForEviction_frame (h : t.findBucketForEviction hash k bitmap = some r) : EvictFrame t bitmap r := by
  unfold findBucketForEviction at h
  split at h
  · cases h
  · obtain rfl := some.inj h
    exact ⟨rfl, Moves.refl _, rfl, nofun⟩
  · exact bFSFindBucketForEviction_frame h

variable [LawfulBucket B]

/-- The geometry of a table half-way through a rehash. -/
structure HalfDone (hash : BitVec w → ℕ → BitVec w) (t : CuckooHashTable B S) (bitmap : ℕ → Bool) : Prop where
  pos : 0 < t.blockCount
  nu : 2 ≤ t.nuHashFunc
  layout : Layout (t.firstBucketId hash) t.bucketCount t.nuHashFunc t.bucket
    (settledSlots t.bucket bitmap t.bucketCount) ∅
  callIds : CallIds t

/-- What the search finds, unless something spoiled it: a slot ready for the key, with what stood in
the slot that was taken for it, or empty like that. -/
def EvictSpec (hash : BitVec w → ℕ → BitVec w) (t : CuckooHashTable B S) (bitmap : ℕ → Bool)
    (k : BitVec w) (r : Option ℕ × CuckooHashTable B S × (ℕ → Bool)) : Prop :=
  (∀ ev ∈ r.2.1.history, ev.Keeps) → CallIds r.2.1 ∧ ∀ i, r.1 = some i →
    ∃ e, Opened (t.firstBucketId hash) t.bucketCount t.nuHashFunc t.bucket
        (settledSlots t.bucket bitmap t.bucketCount) k e i r.2.1.bucket r.2.1.history
      ∧ r.2.2 = Function.update bitmap e true
      ∧ (isEmpty (t.bucket e) = true → isEmpty (r.2.1.bucket i) = true)
      ∧ (isEmpty (t.bucket e) = false → r.2.1.bucket i = t.bucket e)

lemma bFSFindBucketForEviction_spec (h : HalfDone hash t bitmap) (hN : t.bucketCount < 2 ^ 32)
    (hroots : ∀ j < t.nuHashFunc, Full (settledSlots t.bucket bitmap t.bucketCount) (t.firstBucketId hash k j))
    (hr : t.bFSFindBucketForEviction hash (t.roots hash k) bitmap = some r) : EvictSpec hash t bitmap k r := by
  have hblocks := t.blocks_firstBucketId hash h.pos
  set taken := settledSlots t.bucket bitmap t.bucketCount
  set P := t.nextCallId.problem hash taken k
  have hsearch : (∀ ev ∈ t.nextCallId.history, ev.Keeps) →
      CallIds t.nextCallId ∧ Post (SearchOk P) (fun a s => ∃ e, a = some e ∧ Found P s e)
        (t.nextCallId.evictionSearch hash (t.roots hash k) bitmap) := by
    intro hkeeps
    obtain ⟨hids, hstart⟩ := nextCallId_started h.callIds hblocks hroots hkeeps
    exact ⟨hids, bfsLoop_spec (P := P) (evictionVisit_ok (P := P) hblocks hN (freeOk_settled _ _ _)) _ 0 0 0 _ hstart⟩
  unfold bFSFindBucketForEviction at hr
  generalize t.nextCallId.evictionSearch hash (t.roots hash k) bitmap = res at hsearch hr
  obtain ⟨_ | _ | cur, s⟩ := res
  · obtain rfl := some.inj hr
    intro hkeeps
    obtain ⟨hids, hok⟩ := hsearch hkeeps
    exact ⟨⟨hids.lt, hok.bound⟩, fun i hi => by cases hi⟩
  · cases hr
  set c := (cur + 2 ^ 64 - (s.node (s.tree.length - 1)).bucketId) % 2 ^ 32 with hc_def
  obtain rfl := some.inj hr
  intro hkeeps
  have hsuffix : t.nextCallId.history <:+ (kickLast s c t.bucket t.nextCallId.history).2.2 :=
    (moves_cuckooKick s _ _ c t.bucket _).suffix
  obtain ⟨hids, e, he, hfound⟩ := hsearch fun ev hev => hkeeps ev (hsuffix.subset hev)
  obtain rfl := some.inj he
  refine ⟨⟨hids.lt, hfound.bound⟩, fun i hi => ⟨cur, ?_⟩⟩
  obtain rfl := some.inj hi
  -- the 32-bit difference is the place in the block
  have hc : (s.node (s.tree.length - 1)).bucketId + c = cur := by
    have hle := hfound.firstFree.le
    have hlt := hfound.firstFree.lt
    rw [hc_def]
    omega
  obtain ⟨hopened, hemptied⟩ := hfound.opened (P := P) hblocks h.layout hroots t.nextCallId.history hc hkeeps
  have hbucket : t.nextCallId.bucket = t.bucket := rfl
  simp only [hbucket]
  cases hempty : isEmpty (t.bucket cur) with
  | true =>
    simp only [if_true]
    exact ⟨hopened, trivial, fun _ => hemptied.2, nofun⟩
  | false =>
    simp only [Bool.false_eq_true, if_false]
    exact ⟨hopened.update _, trivial, nofun, fun _ => update_self _ _ _⟩

lemma findBucketForEviction_spec (h : HalfDone hash t bitmap) (hN : t.bucketCount < 2 ^ 32)
    (hr : t.findBucketForEviction hash k bitmap = some r) : EvictSpec hash t bitmap k r := by
  have hblocks := t.blocks_firstBucketId hash h.pos
  have hrule := forLoop_rule (a := 0) (f := t.evictionScan hash k bitmap)
    (fun j _ => ∀ j' < j, Full (settledSlots t.bucket bitmap t.bucketCount) (t.firstBucketId hash k j'))
    (fun a _ => ∃ e, a = some e ∧ ∃ j < t.nuHashFunc,
      (∀ j' < j, Full (settledSlots t.bucket bitmap t.bucketCount) (t.firstBucketId hash k j'))
      ∧ FirstFree (settledSlots t.bucket bitmap t.bucketCount) (t.firstBucketId hash k j) e)
    t.nuHashFunc ?_ (s := ()) fun j' hj' => absurd hj' (Nat.not_lt_zero j')
  · unfold findBucketForEviction at hr
    rw [Nat.zero_add] at hrule
    generalize forLoop (t.evictionScan hash k bitmap) t.nuHashFunc 0 () = res at hrule hr
    obtain ⟨_ | a, u⟩ := res
    · exact bFSFindBucketForEviction_spec h hN hrule hr
    obtain ⟨e, rfl, j, hj, hfull, he⟩ := hrule
    obtain rfl := some.inj hr
    refine fun _ => ⟨h.callIds, fun i hi => ⟨e, ?_, rfl, ?_, ?_⟩⟩
    · obtain rfl := some.inj hi
      exact Opened.direct h.layout hblocks hj hfull he _
    · obtain rfl := some.inj hi
      exact id
    · obtain rfl := some.inj hi
      exact fun _ => rfl
  · intro j _ _ hj hfull
    obtain ⟨hdvd, hle⟩ := hblocks k j
    have hscan := (freeOk_settled t.bucket bitmap t.bucketCount).findFree hle
    rw [evictionScan, findFree32_eq (lt_of_le_of_lt hle hN)]
    cases hres : findFree (fun i => isEmpty (t.bucket i) || !bitmap i) (t.firstBucketId hash k j) with
    | none =>
      rw [hres] at hscan
      exact forall_lt_succ_full hfull hscan
    | some d =>
      rw [hres] at hscan
      exact ⟨_, rfl, j, by omega, hfull, hscan⟩

/-! ## `EvictionInsert` -/

lemma settledSlots_of_opened {first : BitVec w → ℕ → ℕ} {N nu e i : ℕ} {m m' : ℕ → B} {history : List (Event B)}
    (h : Opened first N nu m (settledSlots m bitmap N) k e i m' history) {b : B}
    (hb : isEmpty b = false) : settledSlots (update m' i b) (update bitmap e true) N
    = insert e (settledSlots m bitmap N) := by
  ext s
  constructor
  · rintro ⟨hlt, hbit, hocc⟩
    by_contra hnot
    have hsi : s ≠ i := fun heq => hnot (heq ▸ h.mem)
    have hse : s ≠ e := by
      rintro rfl
      exact hnot (Set.mem_insert s _)
    rw [update_of_ne hse] at hbit
    rw [update_of_ne hsi, h.frame s hnot] at hocc
    exact hnot (Set.mem_insert_of_mem e ⟨hlt, hbit, hocc⟩)
  · intro hs
    refine ⟨h.layout.lt s hs, ?_, ?_⟩
    · by_cases hse : s = e
      · rw [hse, update_self]
      · rw [update_of_ne hse]
        exact (Set.mem_of_mem_insert_of_ne hs hse).2.1
    by_cases hsi : s = i
    · rw [hsi, update_self]
      exact hb
    · rw [update_of_ne hsi]
      exact h.layout.occ s hs hsi

lemma HalfDone.fill {t t₁ : CuckooHashTable B S} (h : HalfDone hash t bitmap)
    (hsame : Same t t₁) (hnu : t₁.nuHashFunc = t.nuHashFunc) (hids : CallIds t₁) {e i : ℕ} {b : B}
    (hopened : Opened (t.firstBucketId hash) t.bucketCount t.nuHashFunc t.bucket
      (settledSlots t.bucket bitmap t.bucketCount) (key b) e i t₁.bucket t₁.history)
    (hwf : Wf b) (hb : isEmpty b = false) : HalfDone hash { t₁ with bucket := update t₁.bucket i b }
      (update bitmap e true) := by
  have hlayout := hopened.layout.fill hwf hb hopened.legal
  rw [← settledSlots_of_opened hopened hb, ← hnu, ← firstBucketId_congr hash hsame.blockCount,
    ← bucketCount_congr hsame.blockCount] at hlayout
  exact ⟨lt_of_lt_of_eq h.pos hsame.blockCount.symm, hnu ▸ h.nu, hlayout, ⟨hids.lt, hids.le⟩⟩

lemma HalfDone.addHashFunc {t t₁ : CuckooHashTable B S}
    (h : HalfDone hash t bitmap) (hsame : Same t t₁) (hbucket : t₁.bucket = t.bucket)
    (hnu : t₁.nuHashFunc = t.nuHashFunc) (hids : CallIds t₁) :
    HalfDone hash { t₁ with nuHashFunc := t₁.nuHashFunc + 1 } bitmap := by
  have hlayout := h.layout.mono (Nat.le_succ t.nuHashFunc)
  rw [← hnu, ← hbucket, ← firstBucketId_congr hash hsame.blockCount, ← bucketCount_congr hsame.blockCount] at hlayout
  refine ⟨lt_of_lt_of_eq h.pos hsame.blockCount.symm, ?_, hlayout, ⟨hids.lt, hids.le⟩⟩
  have := h.nu
  show 2 ≤ t₁.nuHashFunc + 1
  omega

lemma contents_fill_hole {m : ℕ → B} {i N : ℕ} (hi : i < N) {b : B} (hb : isEmpty b = false) :
    contents occupied (update m i b) N = bagBut m i N + {b} := by
  have hfree : occupied (update m i new i) = false := by
    rw [update_self]
    exact occupied_eq_false.mpr isEmpty_new
  have hfill := contents_fill hi hfree (occupied_eq_true.mpr hb)
  rwa [update_idem] at hfill

lemma contents_eq_bagBut_add {m : ℕ → B} {e N : ℕ} (he : e < N) (hocc : isEmpty (m e) = false) :
    contents occupied m N = bagBut m e N + {m e} :=
  (contents_clear he (occupied_eq_true.mpr hocc) (occupied_eq_false.mpr isEmpty_new)).symm

/-- What putting a bucket into place does to a table in any case.  If it fails, the note of the
bucket it was left with is the last. -/
structure EvictionFrame (t : CuckooHashTable B S) (r : Bool × CuckooHashTable B S × (ℕ → Bool)) : Prop where
  same : Same t r.2.1
  moves : r.1 = true → Moves t.history r.2.1.history
  lost : r.1 = false → ∃ b h, r.2.1.history = .lost b :: h ∧ Moves t.history h

omit [Bucket B w V] [LawfulBucket B] in
lemma EvictionFrame.suffix {r : Bool × CuckooHashTable B S × (ℕ → Bool)} (h : EvictionFrame t r) :
    t.history <:+ r.2.1.history := by
  cases hok : r.1 with
  | true => exact (h.moves hok).suffix
  | false =>
    obtain ⟨b, h', heq, hmoves⟩ := h.lost hok
    rw [heq]
    exact hmoves.suffix.trans (List.suffix_cons _ _)

omit [Bucket B w V] [LawfulBucket B] in
/-- Something that only searches had to do with came before. -/
lemma EvictionFrame.of_moves {t t₁ : CuckooHashTable B S}
    {r : Bool × CuckooHashTable B S × (ℕ → Bool)} (h : EvictionFrame t₁ r) (hsame : Same t t₁)
    (hmoves : Moves t.history t₁.history) : EvictionFrame t r := by
  refine ⟨hsame.trans h.same, fun hok => hmoves.trans (h.moves hok), fun hfail => ?_⟩
  obtain ⟨b, h', heq, hmoves'⟩ := h.lost hfail
  exact ⟨b, h', heq, hmoves.trans hmoves'⟩

omit [LawfulBucket B] in
lemma evictionInsert_frame (fuel : ℕ) : ∀ (b : B) (t : CuckooHashTable B S) (bitmap : ℕ → Bool)
      (r : Bool × CuckooHashTable B S × (ℕ → Bool)),
      evictionInsert hash fuel b t bitmap = some r → EvictionFrame t r := by
  induction fuel with
  | zero => exact fun b t bitmap r hr => by cases hr
  | succ fuel ih =>
    intro b t bitmap r hr
    rw [evictionInsert] at hr
    cases hfind : t.findBucketForEviction hash (key b) bitmap with
    | none =>
      rw [hfind] at hr
      cases hr
    | some res =>
      have hframe := findBucketForEviction_frame hfind
      rw [hfind] at hr
      obtain ⟨_ | i, t₁, bitmap₁⟩ := res
      · simp only at hr
        split_ifs at hr
        · obtain rfl := some.inj hr
          exact ⟨hframe.same, nofun, fun _ => ⟨b, _, rfl, hframe.moves⟩⟩
        · exact (ih _ _ _ _ hr).of_moves hframe.same hframe.moves
      simp only at hr
      split_ifs at hr
      · obtain rfl := some.inj hr
        exact ⟨hframe.same, fun _ => hframe.moves, nofun⟩
      · exact (ih _ _ _ _ hr).of_moves hframe.same hframe.moves

/-- What putting the bucket `b` into place does.  If it fails, some bucket is missing. -/
structure Evicted (hash : BitVec w → ℕ → BitVec w) (t : CuckooHashTable B S) (bitmap : ℕ → Bool)
    (b : B) (r : Bool × CuckooHashTable B S × (ℕ → Bool)) : Prop where
  halfDone : HalfDone hash r.2.1 r.2.2
  marked : ∀ s, bitmap s = true → r.2.2 s = true
  frame : ∀ s, t.bucketCount ≤ s → r.2.1.bucket s = t.bucket s
  bag : r.1 = true → (∀ ev ∈ r.2.1.history, ev.Copies) →
    contents occupied r.2.1.bucket t.bucketCount = contents occupied t.bucket t.bucketCount + {b}
  bag_lost : r.1 = false → (∀ ev ∈ r.2.1.history, ev.Copies) → ∃ b', isEmpty b' = false
    ∧ contents occupied r.2.1.bucket t.bucketCount + {b'}
      = contents occupied t.bucket t.bucketCount + {b}

lemma evictionInsert_spec (fuel : ℕ) : ∀ (b : B) (t : CuckooHashTable B S) (bitmap : ℕ → Bool)
      (r : Bool × CuckooHashTable B S × (ℕ → Bool)),
      HalfDone hash t bitmap → t.bucketCount < 2 ^ 32 → Wf b → isEmpty b = false →
      evictionInsert hash fuel b t bitmap = some r → (∀ ev ∈ r.2.1.history, ev.Keeps) →
      Evicted hash t bitmap b r := by
  induction fuel with
  | zero => exact fun b t bitmap r _ _ _ _ hr => by cases hr
  | succ fuel ih =>
    intro b t bitmap r h hN hwf hb hr hkeeps
    rw [evictionInsert] at hr
    cases hfind : t.findBucketForEviction hash (key b) bitmap with
    | none =>
      rw [hfind] at hr
      cases hr
    | some res =>
      have hframe := findBucketForEviction_frame hfind
      have hspec := findBucketForEviction_spec h hN hfind
      rw [hfind] at hr
      obtain ⟨_ | i, t₁, bitmap₁⟩ := res
      · obtain ⟨hbucket, rfl⟩ := hframe.of_none rfl
        simp only at hr hbucket
        split_ifs at hr
        · obtain rfl := some.inj hr
          obtain ⟨hids, -⟩ := hspec fun ev hev => hkeeps ev (List.mem_cons_of_mem _ hev)
          have hlayout := h.layout
          rw [← hframe.nu_eq, ← hbucket, ← firstBucketId_congr hash hframe.same.blockCount,
            ← bucketCount_congr hframe.same.blockCount] at hlayout
          refine ⟨⟨lt_of_lt_of_eq h.pos hframe.same.blockCount.symm, hframe.nu_eq ▸ h.nu, hlayout,
              ⟨hids.lt, hids.le⟩⟩, fun _ hs => hs, fun s _ => congrFun hbucket s,
            fun h => (by cases h), fun _ _ => ⟨b, hb, ?_⟩⟩
          rw [hbucket]
        have hsuffix := (evictionInsert_frame fuel _ _ _ _ hr).suffix
        obtain ⟨hids, -⟩ := hspec fun ev hev => hkeeps ev (hsuffix.subset hev)
        have hcount := bucketCount_congr hframe.same.blockCount
        have hrest := ih b _ _ r (h.addHashFunc hframe.same hbucket hframe.nu_eq hids)
          (lt_of_eq_of_lt hcount hN) hwf hb hr hkeeps
        have hbag := hrest.bag
        have hlost := hrest.bag_lost
        simp only [bucketCount] at hbag hlost
        rw [hframe.same.blockCount, hbucket] at hbag hlost
        refine ⟨hrest.halfDone, hrest.marked, fun s hs => ?_, hbag, hlost⟩
        rw [hrest.frame s (le_of_eq_of_le hcount hs)]
        exact congrFun hbucket s
      have hkeeps₁ : ∀ ev ∈ t₁.history, ev.Keeps := by
        simp only at hr
        split_ifs at hr
        · obtain rfl := some.inj hr
          exact hkeeps
        · have hsuffix := (evictionInsert_frame fuel _ _ _ _ hr).suffix
          exact fun ev hev => hkeeps ev (hsuffix.subset hev)
      obtain ⟨hids, hslot⟩ := hspec hkeeps₁
      obtain ⟨e, hopened, hbitmap, hfree, hevicted⟩ := hslot i rfl
      simp only at hopened hbitmap hfree hevicted hr
      have he : e < t.bucketCount := hopened.layout.lt e (Set.mem_insert _ _)
      have hi : i < t.bucketCount := hopened.layout.lt i hopened.mem
      have hhalf := h.fill hframe.same hframe.nu_eq hids hopened hwf hb
      have hmarked : ∀ s, bitmap s = true → bitmap₁ s = true := by
        intro s hs
        by_cases hse : s = e
        · rw [hbitmap, hse, update_self]
        · rw [hbitmap, update_of_ne hse, hs]
      have hrest : ∀ s, t.bucketCount ≤ s → update t₁.bucket i b s = t.bucket s := by
        intro s hs
        rw [update_of_ne (by omega)]
        refine hopened.frame s fun hmem => ?_
        have := hopened.layout.lt s hmem
        omega
      have hcount := bucketCount_congr hframe.same.blockCount
      have hbag : (∀ ev ∈ t₁.history, ev.Copies) →
          contents occupied (update t₁.bucket i b) t.bucketCount
            = bagBut t.bucket e t.bucketCount + {b} := fun hcopies => by
        rw [contents_fill_hole hi hb, hopened.bag hcopies]
      rw [← hbitmap] at hhalf
      cases hempty : isEmpty (t.bucket e) with
      | true =>
        rw [if_pos (hfree hempty)] at hr
        obtain rfl := some.inj hr
        refine ⟨hhalf, hmarked, hrest, fun _ hcopies => ?_, fun h => (by cases h)⟩
        rw [hbag hcopies, contents_eq_bagBut he hempty]
      | false =>
        have hsame := hevicted hempty
        rw [if_neg (by rw [hsame, hempty]; exact Bool.false_ne_true)] at hr
        have hnext := ih _ _ _ r hhalf (lt_of_eq_of_lt hcount hN)
          (hsame ▸ h.layout.wf e he (Set.notMem_empty e)) (hsame ▸ hempty) hr hkeeps
        have hbefore : (∀ ev ∈ r.2.1.history, ev.Copies) →
            contents occupied (update t₁.bucket i b) t.bucketCount + {t₁.bucket i}
              = contents occupied t.bucket t.bucketCount + {b} := by
          intro hcopies
          have hsuffix := (evictionInsert_frame fuel _ _ _ _ hr).suffix
          rw [hbag fun ev hev => hcopies ev (hsuffix.subset hev), hsame,
            contents_eq_bagBut_add he hempty, add_right_comm]
        have hnext_bag := hnext.bag
        have hnext_lost := hnext.bag_lost
        simp only [bucketCount] at hnext_bag hnext_lost
        rw [hframe.same.blockCount] at hnext_bag hnext_lost
        refine ⟨hnext.halfDone, fun s hs => hnext.marked s (hmarked s hs), fun s hs => ?_,
          fun hok hcopies => ?_, fun hfail hcopies => ?_⟩
        · rw [hnext.frame s (le_of_eq_of_le hcount hs)]
          exact hrest s hs
        · exact (hnext_bag hok hcopies).trans (hbefore hcopies)
        · obtain ⟨b', hb', hlost⟩ := hnext_lost hfail hcopies
          exact ⟨b', hb', hlost.trans (hbefore hcopies)⟩

end CuckooHashTable

end Havenask
