import Havenask.HashTable.DenseMap

/-!
# `DenseHashTable::Shrink`

`Shrink` rehashes in place.  While it works, the buckets of the new region are of two kinds: those
the bitmap marks are where the new bucket count wants them, the others stand where the old one put
them.  The placement invariant is kept for the marked ones only (`PartlyPlaced`): an occupied and
marked bucket is reached from its home through occupied and marked buckets.

`EvictionInsert` puts a bucket at the first stop of its probe sequence that is not settled.  If that
is an unmarked bucket it is marked, and its content goes on looking; so every eviction uses up one
unmarked bucket, and with a free bucket in the region neither the probe limit nor the eviction limit
is met (`evictionLoop_spec`).  The first part of `Shrink` has just freed a bucket whenever it calls
`EvictionInsert`, so it never fails (`shrinkHead_spec`); the second part fails only if the new
region is too small for the keys (`shrinkTail_spec`).
-/

namespace Havenask

open SlotArray Bucket LawfulBucket LinearProbing List Function

namespace DenseHashTable

variable {B S V : Type} {w : ℕ} [Bucket B w V] [Bucket S w V] [ClosedHashTableTraits B S w]

/-! ## Half-way through a rehash -/

/-- Marked as processed, and occupied. -/
def Settled (m : ℕ → B) (bitmap : ℕ → Bool) (i : ℕ) : Prop := bitmap i = true ∧ isEmpty (m i) = false

/-- The buckets that evictions can still use up. -/
def unprocessed (bitmap : ℕ → Bool) (N : ℕ) : ℕ := ((Finset.range N).filter fun i => bitmap i = false).card

lemma unprocessed_le (bitmap : ℕ → Bool) (N : ℕ) : unprocessed bitmap N ≤ N :=
  (Finset.card_filter_le _ _).trans (Finset.card_range N).le

variable {bitmap : ℕ → Bool} {occupancyPct : ℕ}

variable {N : ℕ}

lemma unprocessed_mark {i : ℕ} (hi : i < N) (h : bitmap i = false) :
    unprocessed (update bitmap i true) N + 1 = unprocessed bitmap N := by
  have herase : (Finset.range N).filter (fun j => update bitmap i true j = false)
      = ((Finset.range N).filter fun j => bitmap j = false).erase i := by
    ext j
    by_cases hj : j = i
    · simp [hj]
    · simp [hj]
  have hmem : i ∈ (Finset.range N).filter fun j => bitmap j = false := by simp [hi, h]
  rw [unprocessed, herase, Finset.card_erase_add_one hmem, unprocessed]

variable [LawfulBucket B]

/-- The settled buckets are placed among themselves. -/
structure PartlyPlaced (m : ℕ → B) (bitmap : ℕ → Bool) (N : ℕ) : Prop where
  wf : ∀ i < N, Wf (m i)
  reached : ∀ i < N, Settled m bitmap i → Reached (Settled m bitmap) N (key (m i)).toNat i

variable {m : ℕ → B}

section
variable (h : PartlyPlaced m bitmap N)
include h

/-- A bucket written to a place that is reached if it is settled. -/
lemma PartlyPlaced.update {i : ℕ} {b : B} (hwf : Wf b)
    (hi : Settled m bitmap i → isEmpty b = false)
    (hreached : isEmpty b = false → Reached (Settled m bitmap) N (key b).toNat i) :
    PartlyPlaced (update m i b) (update bitmap i true) N := by
  have hmono : ∀ j, Settled m bitmap j → Settled (Function.update m i b) (Function.update bitmap i true) j := by
    intro j hj
    by_cases hji : j = i
    · rw [Settled, hji, update_self, update_self]
      exact ⟨rfl, hi (hji ▸ hj)⟩
    · rw [Settled, update_of_ne hji, update_of_ne hji]
      exact hj
  refine ⟨fun j hj => ?_, fun j hj hset => ?_⟩
  · by_cases hji : j = i
    · rw [hji, update_self]
      exact hwf
    · rw [update_of_ne hji]
      exact h.wf j hj
  by_cases hji : j = i
  · rw [Settled, hji, update_self, update_self] at hset
    rw [hji, update_self]
    exact (hreached hset.2).mono hmono
  rw [Settled, update_of_ne hji, update_of_ne hji] at hset
  rw [update_of_ne hji]
  exact (h.reached j hj hset).mono hmono

/-- A bucket stored where its probe sequence reaches. -/
lemma PartlyPlaced.store {i : ℕ} {b : B} (hwf : Wf b)
    (hb : isEmpty b = false) (hreached : Reached (Settled m bitmap) N (key b).toNat i) :
    PartlyPlaced (Function.update m i b) (Function.update bitmap i true) N :=
  h.update hwf (fun _ => hb) fun _ => hreached

/-- An unmarked or empty bucket may be emptied and marked. -/
lemma PartlyPlaced.clear {i : ℕ} (hi : ¬ Settled m bitmap i)
    {b : B} (hwf : Wf b) (hb : isEmpty b = true) :
    PartlyPlaced (Function.update m i b) (Function.update bitmap i true) N :=
  h.update hwf (fun hset => absurd hset hi) fun hne => by simp [hb] at hne

end

/-! ## `EvictionInsert` -/

/-- What putting the bucket `b` into the new region does. -/
structure Evicted (N : ℕ) (m : ℕ → B) (bitmap : ℕ → Bool) (b : B) (m' : ℕ → B) (bitmap' : ℕ → Bool) : Prop where
  placed : PartlyPlaced m' bitmap' N
  contents_eq : contents occupied m' N = contents occupied m N + {b}
  marked : ∀ i, bitmap i = true → bitmap' i = true
  frame : ∀ i, N ≤ i → m' i = m i

lemma evictionLoop_spec (rounds : ℕ) : ∀ (m : ℕ → B) (bitmap : ℕ → Bool) (b : B) (d evictionCount : ℕ),
    PartlyPlaced m bitmap N → Wf b → isEmpty b = false → d < N →
    (∀ d' < d, Settled m bitmap (((key b).toNat + d') % N)) → Multiset.card (contents occupied m N) < N →
    evictionCount + unprocessed bitmap N ≤ N → unprocessed bitmap N * (N + 1) + (N - d) ≤ rounds →
    ∃ m' bitmap', evictionLoop N rounds m bitmap b (((key b).toNat + d) % N) d evictionCount
        = (true, m', bitmap') ∧ Evicted N m bitmap b m' bitmap' := by
  -- a round leaves the loop, moves on along settled buckets, or uses up an unmarked bucket
  induction rounds with
  | zero =>
    intro m bitmap b d evictionCount _ _ _ hd _ _ _ hrounds
    omega
  | succ rounds ih =>
    intro m bitmap b d evictionCount hm hwf hb hd hbefore hcard hcount hrounds
    set i := ((key b).toNat + d) % N with hi_def
    have hi : i < N := Nat.mod_lt _ (by omega)
    have hreached : Reached (Settled m bitmap) N (key b).toNat i := ⟨d, rfl, hbefore⟩
    have hstore := hm.store hwf hb hreached
    have hmarked : ∀ j, bitmap j = true → update bitmap i true j = true := by
      intro j hj
      by_cases hji : j = i
      · rw [hji, update_self]
      · rw [update_of_ne hji, hj]
    have hframe : ∀ j, N ≤ j → update m i b j = m j := fun j hj =>
      update_of_ne (by omega) b m
    cases hempty : isEmpty (m i) with
    | true =>
      refine ⟨_, _, ?_, hstore, ?_, hmarked, hframe⟩
      · rw [evictionLoop, if_pos hempty]
      · exact contents_fill hi (occupied_eq_false.mpr hempty) (occupied_eq_true.mpr hb)
    | false =>
      have hempty' : ¬ isEmpty (m i) = true := by simp [hempty]
      cases hbit : bitmap i with
      | true =>
        have hbefore' : ∀ d' < d + 1, Settled m bitmap (((key b).toNat + d') % N) := by
          intro d' hd'
          rcases Nat.lt_succ_iff_lt_or_eq.mp hd' with hlt | rfl
          · exact hbefore d' hlt
          · exact ⟨hbit, hempty⟩
        -- a whole round of settled buckets would leave no room
        have hlast : d + 1 < N := by
          by_contra hnot
          have hfull : ∀ j < N, occupied (m j) = true := by
            intro j hj
            obtain ⟨d', hd', hpos⟩ := exists_pos (h := (key b).toNat) hj
            rw [← hpos]
            exact occupied_eq_true.mpr (hbefore' d' (by omega)).2
          rw [card_contents_of_full hfull] at hcard
          exact lt_irrefl N hcard
        obtain ⟨m', bitmap', hloop, hres⟩ := ih m bitmap b (d + 1) evictionCount hm hwf hb
          hlast hbefore' hcard hcount (by omega)
        refine ⟨m', bitmap', ?_, hres⟩
        rw [evictionLoop, if_neg hempty', if_pos hbit, hi_def, probe_eq, decide_eq_true hlast]
        exact hloop
      | false =>
        have hun := unprocessed_mark hi hbit
        obtain ⟨C, hC, hC'⟩ := contents_replace hi (occupied_eq_true.mpr hempty) (occupied_eq_true.mpr hb)
        have hcard' : Multiset.card (contents occupied (update m i b) N) < N := by
          rw [hC'] at *
          rw [hC] at hcard
          simpa using hcard
        have hrounds' : unprocessed (update bitmap i true) N * (N + 1) + (N - 0)
            ≤ rounds := by
          rw [← hun, Nat.add_mul] at hrounds
          omega
        obtain ⟨m', bitmap', hloop, hres⟩ := ih (update m i b)
          (update bitmap i true) (m i) 0 (evictionCount + 1) hstore (hm.wf i hi)
          hempty (by omega) (fun d' hd' => absurd hd' (Nat.not_lt_zero d')) hcard'
          (by omega) hrounds'
        refine ⟨m', bitmap', ?_, hres.placed, ?_, fun j hj => hres.marked j (hmarked j hj),
          fun j hj => (hres.frame j hj).trans (hframe j hj)⟩
        · have hbit' : ¬ bitmap i = true := by simp [hbit]
          rw [evictionLoop, if_neg hempty', if_neg hbit']
          rw [Nat.add_zero] at hloop
          simp only [if_neg (show ¬ N < evictionCount + 1 by omega)]
          exact hloop
        · rw [hres.contents_eq, hC, hC', add_right_comm]

lemma evictionInsert_spec {b : B} (hm : PartlyPlaced m bitmap N) (hwf : Wf b) (hb : isEmpty b = false)
    (hcard : Multiset.card (contents occupied m N) < N) :
    ∃ m' bitmap', evictionInsert N m bitmap b = (true, m', bitmap')
    ∧ Evicted N m bitmap b m' bitmap' := by
  have hle := unprocessed_le bitmap N
  have hrounds : unprocessed bitmap N * (N + 1) + (N - 0) ≤ (N + 1) * (N + 1) :=
    calc unprocessed bitmap N * (N + 1) + (N - 0)
        ≤ N * (N + 1) + (N + 1) := by
          have := Nat.mul_le_mul_right (N + 1) hle
          omega
      _ = (N + 1) * (N + 1) := by ring
  have h := evictionLoop_spec _ m bitmap b 0 0 hm hwf hb (by omega)
    (fun d' hd' => absurd hd' (Nat.not_lt_zero d')) hcard (by omega) hrounds
  rwa [Nat.add_zero] at h

/-! ## The two parts of `Shrink` -/

/-- **The first part never fails**, and permutes the buckets of the new region. -/
lemma shrinkHead_spec (is : List ℕ) :
    ∀ (m : ℕ → B) (bitmap : ℕ → Bool), (∀ i ∈ is, i < N) → PartlyPlaced m bitmap N →
    ∃ m' bitmap', shrinkHead N is m bitmap = (true, m', bitmap') ∧ PartlyPlaced m' bitmap' N
      ∧ contents occupied m' N = contents occupied m N
      ∧ (∀ i, bitmap i = true ∨ i ∈ is → bitmap' i = true)
      ∧ ∀ i, N ≤ i → m' i = m i := by
  induction is with
  | nil =>
    intro m bitmap _ hm
    refine ⟨m, bitmap, rfl, hm, rfl, fun i hi => ?_, fun _ _ => rfl⟩
    exact hi.resolve_right not_mem_nil
  | cons i is ih =>
    intro m bitmap his hm
    have hi : i < N := his i mem_cons_self
    have his' : ∀ j ∈ is, j < N := fun j hj => his j (mem_cons_of_mem i hj)
    cases hbit : bitmap i with
    | true =>
      obtain ⟨m', bitmap', hrun, hm', hcont, hmark, hframe⟩ := ih m bitmap his' hm
      refine ⟨m', bitmap', ?_, hm', hcont, fun j hj => ?_, hframe⟩
      · rw [shrinkHead, if_pos hbit, hrun]
      rcases hj with hj | hj
      · exact hmark j (Or.inl hj)
      rcases mem_cons.mp hj with rfl | hj
      · exact hmark j (Or.inl hbit)
      · exact hmark j (Or.inr hj)
    | false =>
      have hbit' : ¬ bitmap i = true := by simp [hbit]
      have hnot : ¬ Settled m bitmap i := fun hset => hbit' hset.1
      have hmark₁ : ∀ j, bitmap j = true ∨ j ∈ i :: is → update bitmap i true j = true ∨ j ∈ is := by
        intro j hj
        by_cases hji : j = i
        · exact Or.inl (by rw [hji, update_self])
        · rw [update_of_ne hji]
          exact hj.imp_right fun hmem => (mem_cons.mp hmem).resolve_left hji
      cases hempty : isEmpty (m i) with
      | true =>
        have hm₁ := hm.clear hnot (hm.wf i hi) hempty
        rw [update_eq_self] at hm₁
        obtain ⟨m', bitmap', hrun, hm', hcont, hmark, hframe⟩ := ih m (update bitmap i true) his' hm₁
        refine ⟨m', bitmap', ?_, hm', hcont, fun j hj => hmark j (hmark₁ j hj), hframe⟩
        rw [shrinkHead, if_neg hbit', if_pos hempty, hrun]
      | false =>
        have hempty' : ¬ isEmpty (m i) = true := by simp [hempty]
        have hclear := contents_clear hi (occupied_eq_true.mpr hempty) (occupied_eq_false.mpr (isEmpty_new (B := B)))
        have hcard : Multiset.card (contents occupied (update m i new) N) < N := by
          have hle : Multiset.card (contents occupied m N) ≤ N := card_contents_le m N
          rw [← hclear, Multiset.card_add, Multiset.card_singleton] at hle
          exact hle
        obtain ⟨m₁, bitmap₁, hev, hres⟩ :=
          evictionInsert_spec (hm.clear hnot wf_new isEmpty_new) (hm.wf i hi) hempty hcard
        obtain ⟨m', bitmap', hrun, hm', hcont, hmark, hframe⟩ := ih m₁ bitmap₁ his' hres.placed
        refine ⟨m', bitmap', ?_, hm', ?_, fun j hj => ?_, fun j hj => ?_⟩
        · rw [shrinkHead, if_neg hbit', if_neg hempty', hev]
          exact hrun
        · rw [hcont, hres.contents_eq, hclear]
        · exact hmark j ((hmark₁ j hj).imp_left (hres.marked j))
        · rw [hframe j hj, hres.frame j hj, update_of_ne (by omega)]

/-- **The second part moves the rest of the table** into the new region, and fails only for want of
room. -/
lemma shrinkTail_spec (is : List ℕ) : ∀ m : ℕ → B, (∀ i ∈ is, N ≤ i) → Placed m N →
    ((contents occupied m N + (is.map fun i => slot occupied (m i)).sum).map key).Nodup →
    (∀ i ∈ is, isEmpty (m i) = false → Wf (m i) ∧ ValidKey B (key (m i))) → ((shrinkTail N is m).1 = true →
      Placed (shrinkTail N is m).2 N
        ∧ contents occupied (shrinkTail N is m).2 N
          = contents occupied m N + (is.map fun i => slot occupied (m i)).sum)
      ∧ (Multiset.card (contents occupied m N + (is.map fun i => slot occupied (m i)).sum) ≤ N →
        (shrinkTail N is m).1 = true) := by
  induction is with
  | nil =>
    intro m _ hm _ _
    simp only [map_nil, sum_nil, add_zero, shrinkTail]
    exact ⟨fun _ => ⟨hm, trivial⟩, fun _ => trivial⟩
  | cons i is ih =>
    intro m his hm hnodup hvalid
    have his' : ∀ j ∈ is, N ≤ j := fun j hj => his j (mem_cons_of_mem i hj)
    have hvalid' : ∀ j ∈ is, isEmpty (m j) = false → Wf (m j) ∧ ValidKey B (key (m j)) :=
      fun j hj => hvalid j (mem_cons_of_mem i hj)
    rw [map_cons, sum_cons, ← add_assoc] at hnodup ⊢
    cases hempty : isEmpty (m i) with
    | true =>
      rw [slot_of_not_occ (occupied_eq_false.mpr hempty), add_zero] at hnodup ⊢
      rw [shrinkTail, if_pos hempty]
      exact ih m his' hm hnodup hvalid'
    | false =>
      obtain ⟨hwf, hk⟩ := hvalid i mem_cons_self hempty
      rw [slot_of_occ (occupied_eq_true.mpr hempty)] at hnodup ⊢
      have habsent : key (m i) ∉ (contents occupied m N).map key := by
        rw [Multiset.map_add, Multiset.nodup_add] at hnodup
        have hdis := hnodup.1
        rw [Multiset.map_add, Multiset.map_singleton, Multiset.nodup_add] at hdis
        exact Multiset.disjoint_singleton.mp hdis.2.2
      rw [shrinkTail, if_neg (by simp [hempty])]
      have hcases := findIn_cases hm hk
      generalize findIn m N (key (m i)) = r at hcases
      cases hcases with
      | full hfull _ =>
        refine ⟨nofun, fun hcard => ?_⟩
        have hN := card_contents_of_full fun j hj => occupied_eq_true.mpr (hfull j hj)
        rw [Multiset.card_add, Multiset.card_add, hN, Multiset.card_singleton] at hcard
        omega
      | found j hj hocc hkey =>
        refine absurd ?_ habsent
        rw [← hkey]
        exact Multiset.mem_map_of_mem key (mem_contents_of_lt hj (occupied_eq_true.mpr hocc))
      | free j hj hfree _ hreached =>
        have hm₁ := hm.update hwf hempty hreached
        have hslots : (is.map fun l => slot occupied (update m j (m i) l))
            = is.map fun l => slot occupied (m l) := by
          refine map_congr_left fun l hl => ?_
          have hne : l ≠ j := by
            have := his' l hl
            omega
          rw [update_of_ne hne]
        have hvalid₁ : ∀ l ∈ is, isEmpty (update m j (m i) l) = false →
            Wf (update m j (m i) l)
              ∧ ValidKey B (key (update m j (m i) l)) := by
          intro l hl
          have hne : l ≠ j := by
            have := his' l hl
            omega
          rw [update_of_ne hne]
          exact hvalid' l hl
        have hfill := contents_fill hj (occupied_eq_false.mpr hfree) (occupied_eq_true.mpr hempty)
        have hrest := ih (update m j (m i)) his' hm₁ (by rwa [hfill, hslots]) hvalid₁
        rwa [hfill, hslots] at hrest

/-! ## `Shrink` -/

variable [LawfulBucket S] {t : DenseHashTable B S} {M : BitVec w → Status V}
  {W : Finset (BitVec w)}

section
variable (h : Inv t M W) (hpct : occupancyPct < 100)
include h hpct

lemma Inv.targetPct_bounds :
    0 < t.targetPct occupancyPct ∧ t.targetPct occupancyPct < 100 := by
  unfold targetPct
  split_ifs with hpos
  · exact ⟨hpos, hpct⟩
  · exact ⟨h.pct_pos, h.pct_lt⟩

lemma Inv.newBucketCount_pos : 0 < t.newBucketCount occupancyPct := by
  obtain ⟨hpos, hlt⟩ := h.targetPct_bounds hpct
  exact capacityToBucketCount_pos _ hpos hlt.le

omit h hpct in
/-- The array holds at most as many buckets as there are keys. -/
lemma Inv.card_contents_le_size (h : Inv t M W) :
    Multiset.card (contents occupied t.bucket t.bucketCount) ≤ t.size := by
  have hsub : ((contents occupied t.bucket t.bucketCount).map key).toFinset ⊆ W := by
    intro k hk
    obtain ⟨b, hb, rfl⟩ := Multiset.mem_map.mp (Multiset.mem_toFinset.mp hk)
    obtain ⟨i, hi, rfl, hocc⟩ := mem_contents.mp hb
    rw [h.isMap.tally.mem_iff, h.isMap.represents.bag.entry_eq _ hb]
    exact status_ne_notFound (occupied_eq_true.mp hocc)
  have hcard := Finset.card_le_card hsub
  rw [Multiset.toFinset_card_of_nodup h.isMap.represents.bag.nodup, Multiset.card_map] at hcard
  rwa [size, h.isMap.tally.keyCount_eq]

/-- **`Shrink` keeps the map**, and fails only if the new bucket count is below the number of
keys. -/
lemma shrink_spec : ((t.shrink occupancyPct).1 = true →
    Inv (t.shrink occupancyPct).2 M W
      ∧ (t.shrink occupancyPct).2.bucketCount = min t.bucketCount (t.newBucketCount occupancyPct))
    ∧ (t.size ≤ t.newBucketCount occupancyPct → (t.shrink occupancyPct).1 = true) := by
  have hN := h.newBucketCount_pos hpct
  have hsize := h.card_contents_le_size
  obtain ⟨hpos, hlt⟩ := h.targetPct_bounds hpct
  unfold shrink
  generalize t.newBucketCount occupancyPct = N at hN
  by_cases hle : t.bucketCount ≤ N
  · rw [if_pos hle]
    exact ⟨fun _ => ⟨h, (min_eq_left hle).symm⟩, fun _ => rfl⟩
  have hlt' : N < t.bucketCount := not_le.mp hle
  have hwf : ∀ i < N, Wf (t.bucket i) := fun i hi => h.placed.wf i (by omega)
  obtain ⟨m, bitmap, hhead, hm, hcont, hmark, hframe⟩ := shrinkHead_spec (range N) t.bucket
    (fun _ => false) (fun i hi => mem_range.mp hi) ⟨hwf, fun i _ hset => by cases hset.1⟩
  have hplaced : Placed m N := by
    refine ⟨hN, hm.wf, fun i hi hocc => ?_⟩
    exact (hm.reached i hi ⟨hmark i (Or.inr (mem_range.mpr hi)), hocc⟩).mono fun j hj => hj.2
  -- the two regions together hold what the table holds
  have htotal : contents occupied m N
      + ((range' N (t.bucketCount - N)).map fun i => slot occupied (m i)).sum
      = contents occupied t.bucket t.bucketCount := by
    have hslots : ((range' N (t.bucketCount - N)).map fun i => slot occupied (m i))
        = (range' N (t.bucketCount - N)).map fun i => slot occupied (t.bucket i) := by
      refine map_congr_left fun i hi => ?_
      rw [hframe i (mem_range'_1.mp hi).1]
    rw [hcont, hslots, ← contents_add, Nat.add_sub_cancel' hlt'.le]
  have hvalid : ∀ i ∈ range' N (t.bucketCount - N), isEmpty (m i) = false → Wf (m i) ∧ ValidKey B (key (m i)) := by
    intro i hi hocc
    have hi' := mem_range'_1.mp hi
    rw [hframe i hi'.1] at hocc ⊢
    have hin : i < t.bucketCount := by omega
    exact ⟨h.placed.wf i hin, h.isMap.represents.validKey _ (mem_contents_of_lt hin (occupied_eq_true.mpr hocc))⟩
  obtain ⟨hok, hlive⟩ := shrinkTail_spec (range' N (t.bucketCount - N)) m (fun i hi => (mem_range'_1.mp hi).1) hplaced
    (by rw [htotal]; exact h.isMap.represents.bag.nodup) hvalid
  rw [htotal] at hok hlive
  rw [if_neg hle, hhead]
  cases htail : shrinkTail N (range' N (t.bucketCount - N)) m with
  | mk ok m' =>
    rw [htail] at hok hlive
    simp only at hok hlive ⊢
    rw [htail]
    cases ok with
    | false =>
      refine ⟨nofun, fun hroom => ?_⟩
      cases hlive (hsize.trans hroom)
    | true =>
      obtain ⟨hplaced', hcont'⟩ := hok rfl
      refine ⟨fun _ => ⟨⟨hplaced', ?_, hpos, hlt⟩, (min_eq_right hlt'.le).symm⟩, fun _ => rfl⟩
      rw [hcont']
      exact h.isMap

end

end DenseHashTable

end Havenask
