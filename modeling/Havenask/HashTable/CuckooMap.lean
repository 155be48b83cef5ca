import Havenask.HashTable.CuckooFind

/-!
# `CuckooHashTable` is a map

Lookups and writes.  `FindBucketForRead` gives up at the first empty bucket, and the layout makes
that right (`findBucketForRead_spec`).  A write fills the slot that was made ready for it
(`internalInsert_geometry`), and the table goes on standing for the map of its writes as long as
kicks move buckets as they are (`internalInsert_inv`).

They do not always.  `Set(const Bucket& other)`, which `CuckooKick` moves buckets with, is not an
assignment for `TimestampValue`: it drops the delete mark.  So the table is the map of its writes in
every run whose kicks move no deleted bucket and whose search counter does not come round
(`find_eq_lastOutcome`), and not in others (`kick_revives_deleted`).
-/

namespace Havenask

open SlotArray Bucket ClosedHashTableTraits LawfulBucket ForLoop BlockPlacement Cuckoo List Function Option

namespace CuckooHashTable

variable {B S V : Type} {w : ℕ} [Bucket B w V] {hash : BitVec w → ℕ → BitVec w}

section
variable [LawfulBucket B] {t t' : CuckooHashTable B S} {k : BitVec w}

/-! ## Lookups -/

/-- **A lookup finds the bucket of its key**, or the key is nowhere. -/
lemma findBucketForRead_spec (h : Geometry hash t) (hk : ValidKey B k) : match t.findBucketForRead hash k with
    | none => ∀ s ∈ occupiedSlots t.bucket t.bucketCount, key (t.bucket s) ≠ k
    | some i => i < t.bucketCount ∧ isEmpty (t.bucket i) = false ∧ key (t.bucket i) = k := by
  have hrule := forLoop_nested_rule
    (f := fun j c (_ : Unit) =>
      if isEmpty (t.bucket (t.firstBucketId hash k j + c)) then (some none, ())
      else if isEqual (t.bucket (t.firstBucketId hash k j + c)) k then
        (some (some (t.firstBucketId hash k j + c)), ())
      else (none, ()))
    (fun p _ => Passed t.bucket (t.firstBucketId hash k) k p)
    (fun r _ => match r with
      | none => ∀ s ∈ occupiedSlots t.bucket t.bucketCount, key (t.bucket s) ≠ k
      | some i => i < t.bucketCount ∧ isEmpty (t.bucket i) = false ∧ key (t.bucket i) = k)
    (2 + (t.nuHashFunc - 2)) 4 ?_ (s := ()) fun q hq => absurd hq (Nat.not_lt_zero q)
  · unfold findBucketForRead
    generalize forLoop _ (2 + (t.nuHashFunc - 2)) 0 () = r at hrule ⊢
    obtain ⟨_ | r, u⟩ := r
    · refine h.absent_of_passed hk ?_ hrule
      have := h.nu
      omega
    · exact hrule
  intro j c _ _ hc hpassed
  have hslot := slotAt_eq (t.firstBucketId hash k) (j := j) hc
  have hlt := h.slotAt_lt k (4 * j + c)
  rw [hslot] at hlt
  cases hempty : isEmpty (t.bucket (t.firstBucketId hash k j + c)) with
  | true =>
    rw [← hslot] at hempty
    simp only [if_true]
    exact h.absent_of_free hk hempty hpassed
  | false =>
    simp only [Bool.false_eq_true, if_false]
    cases hequal : isEqual (t.bucket (t.firstBucketId hash k j + c)) k with
    | true =>
      simp only [if_true]
      exact ⟨hlt, hempty, (isEqual_iff (h.layout.wf _ hlt (Set.notMem_empty _)) hempty hk).mp hequal⟩
    | false =>
      simp only [Bool.false_eq_true, if_false]
      intro q hq
      rcases Nat.lt_succ_iff_lt_or_eq.mp hq with hq' | rfl
      · exact hpassed q hq'
      · rw [hslot]
        exact ⟨hempty, hequal⟩

/-! ## Filling the slot -/

variable {m : ℕ → B}

lemma occupiedSlots_of_opened {first : BitVec w → ℕ → ℕ} {N nu e i : ℕ} {m' : ℕ → B} {history : List (Event B)}
    (h : Opened first N nu m (occupiedSlots m N) k e i m' history) {b : B} (hb : isEmpty b = false) :
    occupiedSlots (update m' i b) N = insert e (occupiedSlots m N) := by
  ext s
  constructor
  · rintro ⟨hlt, hocc⟩
    by_contra hnot
    have hsi : s ≠ i := fun heq => hnot (heq ▸ h.mem)
    rw [update_of_ne hsi, h.frame s hnot] at hocc
    exact hnot (Set.mem_insert_of_mem e ⟨hlt, hocc⟩)
  · intro hs
    refine ⟨h.layout.lt s hs, ?_⟩
    by_cases hsi : s = i
    · rw [hsi, update_self]
      exact hb
    · rw [update_of_ne hsi]
      exact h.layout.occ s hs hsi

/-- The layout when a bucket with the key is put where the key goes. -/
lemma SlotFor.layout {i : ℕ} (hslot : SlotFor hash t t' k i) (h : Geometry hash t)
    (hnu : t.nuHashFunc ≤ t'.nuHashFunc) {b : B} (hwf : Wf b) (hb : isEmpty b = false) (hkey : key b = k) :
    Layout (t.firstBucketId hash) t.bucketCount t'.nuHashFunc (update t'.bucket i b)
      (occupiedSlots (update t'.bucket i b) t.bucketCount) ∅ := by
  cases hslot with
  | found hbucket hi hocc hkey' =>
    rw [hbucket]
    have hsame : occupiedSlots (update t.bucket i b) t.bucketCount
        = occupiedSlots t.bucket t.bucketCount := by
      ext s
      by_cases hsi : s = i
      · simp [occupiedSlots, hsi, hb, hocc]
      · simp [occupiedSlots, hsi]
    rw [hsame]
    exact (h.layout.mono hnu).replace ⟨hi, hocc⟩ hwf hb (hkey.trans hkey'.symm)
  | opened e habsent hopened hemptied =>
    rw [occupiedSlots_of_opened hopened hb]
    exact hopened.layout.fill hwf hb (hkey ▸ hopened.legal)

lemma contents_eq_bagBut {e N : ℕ} (he : e < N) (hempty : isEmpty (m e) = true) :
    contents occupied m N = bagBut m e N := by
  have hupdate : contents occupied (update m e new) N + slot occupied (m e)
      = contents occupied m N + slot occupied new := contents_update he
  rw [slot_of_not_occ (occupied_eq_false.mpr hempty),
    slot_of_not_occ (occupied_eq_false.mpr isEmpty_new), add_zero, add_zero] at hupdate
  exact hupdate.symm

/-- Making a slot ready moves buckets, and changes nothing in the bag. -/
lemma contents_of_opened {first : BitVec w → ℕ → ℕ} {N nu e i : ℕ} {m' : ℕ → B}
    {history : List (Event B)} (h : Opened first N nu m (occupiedSlots m N) k e i m' history)
    (hempty : isEmpty (m' i) = true) (hcopies : ∀ ev ∈ history, ev.Copies) :
    contents occupied m' N = contents occupied m N := by
  have he : e < N := h.layout.lt e (Set.mem_insert _ _)
  have hempty_e : isEmpty (m e) = true := by
    by_contra hocc
    exact h.notMem ⟨he, by simpa using hocc⟩
  rw [contents_eq_bagBut (h.layout.lt i h.mem) hempty, h.bag hcopies, contents_eq_bagBut he hempty_e]

omit [LawfulBucket B] in
lemma mem_keys_iff {N : ℕ} : k ∈ (contents occupied m N).map key ↔ ∃ s ∈ occupiedSlots m N, key (m s) = k := by
  simp only [Multiset.mem_map, mem_contents]
  constructor
  · rintro ⟨b, ⟨s, hs, rfl, hocc⟩, hk⟩
    exact ⟨s, ⟨hs, occupied_eq_true.mp hocc⟩, hk⟩
  · rintro ⟨s, ⟨hs, hocc⟩, hk⟩
    exact ⟨_, ⟨s, hs, rfl, occupied_eq_true.mpr hocc⟩, hk⟩

end

/-! ## Writes -/

variable [Bucket S w V] [ClosedHashTableTraits B S w] {t : CuckooHashTable B S} {x : Write w V}

/-- What a successful `InternalInsert` does: a write to one of the special buckets, or to the bucket
that `InternalFindBucket` found. -/
inductive InsertCases (hash : BitVec w → ℕ → BitVec w) (t : CuckooHashTable B S)
    (x : Write w V) : CuckooHashTable B S → Prop
  | emptyKey (hkey : isEmptyKey B x.key = true) : InsertCases hash t x
      { t with
        emptyBucket := (x.apply t.emptyBucket t.deleteCount).1
        deleteCount := (x.apply t.emptyBucket t.deleteCount).2
        keyCount := if isEmpty t.emptyBucket then t.keyCount + 1 else t.keyCount }
  | deleteKey (hkey : isDeleteKey B x.key = true) : InsertCases hash t x
      { t with
        deleteBucket := (x.apply t.deleteBucket t.deleteCount).1
        deleteCount := (x.apply t.deleteBucket t.deleteCount).2
        keyCount := if isEmpty t.deleteBucket then t.keyCount + 1 else t.keyCount }
  | bucket (i : ℕ) (t' : CuckooHashTable B S)
      (hkey : isEmptyKey B x.key = false ∧ isDeleteKey B x.key = false)
      (hfind : t.internalFindBucket hash x.key = (some i, t')) : InsertCases hash t x
      { t' with
        bucket := Function.update t'.bucket i (x.apply (t'.bucket i) t'.deleteCount).1
        deleteCount := (x.apply (t'.bucket i) t'.deleteCount).2
        keyCount := if isEmpty (t'.bucket i) then t'.keyCount + 1 else t'.keyCount }

lemma internalInsert_cases (hok : (t.internalInsert hash x).1 = true) :
    InsertCases hash t x (t.internalInsert hash x).2 := by
  unfold internalInsert at hok ⊢
  cases hempty : isEmptyKey B x.key with
  | true =>
    simp only [if_true]
    exact .emptyKey hempty
  | false =>
    cases hdelete : isDeleteKey B x.key with
    | true =>
      simp only [Bool.false_eq_true, if_false, if_true]
      exact .deleteKey hdelete
    | false =>
      simp only [hempty, hdelete, Bool.false_eq_true, if_false] at hok ⊢
      cases hfind : t.internalFindBucket hash x.key with
      | mk r t' =>
        rw [hfind] at hok
        cases r with
        | none => cases hok
        | some i => exact .bucket i t' ⟨hempty, hdelete⟩ hfind

lemma moves_internalInsert (hok : (t.internalInsert hash x).1 = true) :
    Moves t.history (t.internalInsert hash x).2.history := by
  have hcases := internalInsert_cases hok
  generalize (t.internalInsert hash x).2 = t'' at hcases
  cases hcases with
  | emptyKey hkey => exact Moves.refl _
  | deleteKey hkey => exact Moves.refl _
  | bucket i t' hkey hfind =>
    have hframe := internalFindBucket_frame _ hfind
    exact hframe.moves

variable [LawfulBucket B] [LawfulBucket S] [LawfulTraits B]

/-- **A write keeps the geometry**, if it kicks no bucket empty. -/
lemma internalInsert_geometry (h : Geometry hash t) (hx : x.Valid B) (hok : (t.internalInsert hash x).1 = true)
    (hkeeps : ∀ ev ∈ (t.internalInsert hash x).2.history, ev.Keeps) : Geometry hash (t.internalInsert hash x).2 := by
  have hcases := internalInsert_cases hok
  generalize (t.internalInsert hash x).2 = t'' at hcases hkeeps
  cases hcases with
  | emptyKey hkey => exact ⟨h.pos, h.nu, h.layout, ⟨h.callIds.lt, h.callIds.le⟩⟩
  | deleteKey hkey => exact ⟨h.pos, h.nu, h.layout, ⟨h.callIds.lt, h.callIds.le⟩⟩
  | bucket i t' hkey hfind =>
    have hk : ValidKey B x.key := (LawfulTraits.validKey_iff x.key).mpr hkey
    have hframe := internalFindBucket_frame _ hfind
    have hspec := internalFindBucket_spec h hk
    rw [hfind] at hspec
    obtain ⟨hids, hslot⟩ := hspec hkeeps
    obtain ⟨hwf, hne, hkey', -⟩ := x.apply_spec (t'.bucket i) t'.deleteCount hk hx
    have hcount := hframe.same.blockCount
    refine ⟨lt_of_lt_of_eq h.pos hcount.symm, h.nu.trans hframe.nu_le, ?_, ⟨hids.lt, hids.le⟩⟩
    have hlayout := (hslot i rfl).layout h hframe.nu_le hwf hne hkey'
    rw [← firstBucketId_congr hash hcount, ← bucketCount_congr hcount] at hlayout
    exact hlayout

/-- The table is the map `M`, after writes to the keys `W`. -/
structure Inv (hash : BitVec w → ℕ → BitVec w) (t : CuckooHashTable B S) (M : BitVec w → Status V)
    (W : Finset (BitVec w)) : Prop where
  geometry : Geometry hash t
  isMap : IsMap (contents occupied t.bucket t.bucketCount) t.emptyBucket t.deleteBucket
    t.keyCount t.deleteCount M W

omit [LawfulTraits B] in
lemma inv_mountForWrite {blockCount stretchBlocks occupancyPct maxNuHashFunc : ℕ} (hpos : 0 < blockCount) :
    Inv hash (mountForWrite blockCount stretchBlocks occupancyPct maxNuHashFunc :
      CuckooHashTable B S) (fun _ => .notFound) ∅ := by
  have hnone : occupiedSlots (fun _ => (new : B)) (blockCount * 4) = ∅ := by
    ext s
    simp [occupiedSlots, isEmpty_new]
  have hcontents : contents occupied (fun _ => (new : B)) (blockCount * 4) = 0 :=
    contents_of_empty fun _ _ => occupied_eq_false.mpr isEmpty_new
  refine ⟨⟨hpos, le_rfl, ?_, ⟨Nat.two_pow_pos 32, fun _ => le_rfl⟩⟩, ?_⟩
  · show Layout _ (blockCount * 4) 2 (fun _ => (new : B)) (occupiedSlots (fun _ => (new : B)) (blockCount * 4)) ∅
    rw [hnone]
    exact ⟨fun _ hs => absurd hs (Set.notMem_empty _), fun _ _ _ => wf_new, fun _ _ _ _ => rfl,
      fun _ hs => absurd hs (Set.notMem_empty _), Arranged.empty⟩
  · show IsMap (contents occupied (fun _ => (new : B)) (blockCount * 4)) _ _ _ _ _ _
    rw [hcontents]
    exact IsMap.new

variable {M : BitVec w → Status V} {W : Finset (BitVec w)}

/-- Lookups read the map. -/
lemma Inv.find_eq (h : Inv hash t M W) (k : BitVec w) : t.find hash k = M k := by
  refine h.isMap.represents.lookup fun hk => ?_
  have hread := findBucketForRead_spec h.geometry hk
  generalize t.findBucketForRead hash k = r at hread
  cases r with
  | none =>
    refine (h.isMap.represents.bag.eq_absent hk fun hmem => ?_).symm
    obtain ⟨s, hs, hkey⟩ := mem_keys_iff.mp hmem
    exact hread s hs hkey
  | some i =>
    obtain ⟨hi, hocc, hkey⟩ := hread
    have hstatus : status (t.bucket i)
        = if isDeleted (t.bucket i) then .deleted else .ok (value (t.bucket i)) := by
      rw [status, hocc]
      rfl
    rw [← hkey, h.isMap.represents.bag.entry_eq _ (mem_contents_of_lt hi (occupied_eq_true.mpr hocc)), hstatus]

/-- **A write is one update of the map**, if it kicks buckets as they are. -/
lemma internalInsert_inv (h : Inv hash t M W) (hx : x.Valid B) (hok : (t.internalInsert hash x).1 = true)
    (hcopies : ∀ ev ∈ (t.internalInsert hash x).2.history, ev.Copies) :
    Inv hash (t.internalInsert hash x).2 (update M x.key x.outcome) (insert x.key W) := by
  have hkeeps : ∀ ev ∈ (t.internalInsert hash x).2.history, ev.Keeps := fun ev hev =>
    (hcopies ev hev).keeps
  refine ⟨internalInsert_geometry h.geometry hx hok hkeeps, ?_⟩
  have hcases := internalInsert_cases hok
  generalize (t.internalInsert hash x).2 = t'' at hcases hkeeps hcopies
  cases hcases with
  | emptyKey hkey => exact h.isMap.write_emptyKey hkey hx
  | deleteKey hkey => exact h.isMap.write_deleteKey hkey hx
  | bucket i t' hkey hfind =>
    have hk : ValidKey B x.key := (LawfulTraits.validKey_iff x.key).mpr hkey
    have hframe := internalFindBucket_frame _ hfind
    have hspec := internalFindBucket_spec h.geometry hk
    rw [hfind] at hspec
    obtain ⟨-, hslot⟩ := hspec hkeeps
    have hcount := bucketCount_congr hframe.same.blockCount
    have hmap : IsMap (contents occupied t.bucket t.bucketCount) t'.emptyBucket t'.deleteBucket
        t'.keyCount t'.deleteCount M W := by
      rw [hframe.same.emptyBucket, hframe.same.deleteBucket, hframe.same.keyCount, hframe.same.deleteCount]
      exact h.isMap
    show IsMap (contents occupied _ t'.bucketCount) _ _ _ _ _ _
    rw [hcount]
    cases hslot i rfl with
    | found hbucket hi hocc hkey' =>
      rw [← hbucket] at hmap hocc hkey'
      have hwf := h.geometry.layout.wf i hi (Set.notMem_empty i)
      rw [← hbucket] at hwf
      exact hmap.write_found hk hx hi hwf hocc hkey'
    | opened e habsent hopened hemptied =>
      have hbag := contents_of_opened hopened hemptied.2 hcopies
      rw [← hbag] at hmap
      refine hmap.write_free hk hx (hopened.layout.lt i hopened.mem) hemptied.1 hemptied.2 ?_
      rw [hbag]
      intro hmem
      obtain ⟨s, hs, hkey'⟩ := mem_keys_iff.mp hmem
      exact habsent s hs hkey'

/-! ## Runs of writes -/

omit [LawfulBucket B] [LawfulBucket S] [LawfulTraits B] in
lemma run_append (t : CuckooHashTable B S) (cs : List (Call w V)) (c : Call w V) : t.run hash (cs ++ [c])
    = (t.run hash cs).bind fun t =>
      match t.call hash c with
      | some (true, t) => some t
      | _ => none := by
  simp only [run, foldlM_append, foldlM_cons, foldlM_nil, bind_pure]
  rfl

omit [LawfulBucket B] [LawfulBucket S] [LawfulTraits B] in
lemma run_append_eq_some {t t' : CuckooHashTable B S} {cs : List (Call w V)} {c : Call w V}
    (h : t.run hash (cs ++ [c]) = some t') : ∃ t₀, t.run hash cs = some t₀ ∧ t₀.call hash c = some (true, t') := by
  rw [run_append, bind_eq_some_iff] at h
  obtain ⟨t₀, hrun, hcall⟩ := h
  refine ⟨t₀, hrun, ?_⟩
  split at hcall
  · rename_i t₁ heq
    obtain rfl := some.inj hcall
    exact heq
  · cases hcall

/-- **The invariant of every run of writes** whose kicks move buckets as they are.  Writes make notes of searches
only. -/
lemma run_writes_inv {blockCount stretchBlocks occupancyPct maxNuHashFunc : ℕ}
    (hpos : 0 < blockCount) (xs : List (Write w V)) : ∀ t : CuckooHashTable B S, (∀ x ∈ xs, x.Valid B) →
    (mountForWrite blockCount stretchBlocks occupancyPct maxNuHashFunc :
      CuckooHashTable B S).run hash (xs.map .write) = some t → (∀ ev ∈ t.history, ev.IsMove)
      ∧ ((∀ ev ∈ t.history, ev.Copies) → Inv hash t (lastOutcome xs) (written xs)) := by
  induction xs using reverseRecOn with
  | nil =>
    intro t _ hrun
    obtain rfl : mountForWrite blockCount stretchBlocks occupancyPct maxNuHashFunc = t := some.inj hrun
    exact ⟨fun ev hev => absurd hev not_mem_nil, fun _ => inv_mountForWrite hpos⟩
  | append_singleton xs x ih =>
    intro t hvalid hrun
    rw [map_append, map_singleton] at hrun
    obtain ⟨t₀, hrun₀, hcall⟩ := run_append_eq_some hrun
    have hinsert : t₀.internalInsert hash x = (true, t) := some.inj hcall
    have hok : (t₀.internalInsert hash x).1 = true := by rw [hinsert]
    have ht : (t₀.internalInsert hash x).2 = t := by rw [hinsert]
    have hmoves := moves_internalInsert hok
    rw [ht] at hmoves
    obtain ⟨hnotes, hinv⟩ := ih t₀ (fun y hy => hvalid y (mem_append_left _ hy)) hrun₀
    refine ⟨hmoves.isMove hnotes, fun hcopies => ?_⟩
    rw [lastOutcome_append, written_append, ← ht]
    exact internalInsert_inv (hinv fun ev hev => hcopies ev (hmoves.suffix.subset hev)) (hvalid x (by simp)) hok
      (by rwa [ht])

section
variable {w : ℕ} {R : Type} [Inhabited R]

/-- Kicks moved live buckets only, and the search counter did not come round. -/
def live : Event (SpecialValueBucket w (TimestampValue R)) → Bool
  | .kick b => !isDeleted b
  | .wrap => false
  | .lost _ => true
  | .left _ => true

lemma copied_of_live (b : SpecialValueBucket w (TimestampValue R)) (h : isDeleted b = false) : Copied b := by
  show (⟨b.key, TimestampValue.setValue _ b.value⟩ : SpecialValueBucket w _) = b
  rw [TimestampValue.setValue_eq_mk, TimestampValue.timestamp_eq_of_not_isDeleted h]

lemma copies_of_live {ev : Event (SpecialValueBucket w (TimestampValue R))} (h : live ev = true) : ev.Copies := by
  cases ev with
  | kick b => exact copied_of_live b (by simpa [live] using h)
  | wrap => cases h
  | lost b => trivial
  | left b => trivial

/-- **A cuckoo table with timestamps is a map**: after writes that all succeed, among whose kicks
none moved a deleted bucket and no search counter came round, every lookup reports the last write to
its key. -/
theorem find_eq_lastOutcome (hash : BitVec w → ℕ → BitVec w)
    {blockCount stretchBlocks occupancyPct maxNuHashFunc : ℕ} (hpos : 0 < blockCount)
    (xs : List (Write w (TimestampValue R))) (hvalid : ∀ x ∈ xs, x.Valid (SpecialValueBucket w (TimestampValue R)))
    (t : CuckooHashTable (SpecialValueBucket w (TimestampValue R)) (SpecialValueBucket w (TimestampValue R)))
    (hrun : (mountForWrite blockCount stretchBlocks occupancyPct maxNuHashFunc).run hash (xs.map .write) = some t)
    (hlive : ∀ ev ∈ t.history, live ev = true) (k : BitVec w) : t.find hash k = lastOutcome xs k :=
  ((run_writes_inv hpos xs t hvalid hrun).2 fun ev hev => copies_of_live (hlive ev hev)).find_eq k

end

/-! A table of two blocks, where all keys have the first block only, but key 1 may go to the
second. -/

abbrev Stamped := TimestampValue (BitVec 64)

def crowdedHash (key : BitVec 64) (hashFuncId : ℕ) : BitVec 64 :=
  if hashFuncId ≠ 0 ∧ key = 1 then 1 else 0

/-- Four keys that fill the first block. -/
def crowd : List (Write 64 Stamped) := [.insert 1 ⟨1, 11⟩, .insert 2 ⟨1, 12⟩, .insert 3 ⟨1, 13⟩, .insert 4 ⟨1, 14⟩]

/-- The table after some writes. -/
def crowdedRun (xs : List (Write 64 Stamped)) :
    Option (CuckooHashTable (SpecialValueBucket 64 Stamped) (SpecialValueBucket 64 Stamped)) :=
  (mountForWrite 2 0 80 8).run crowdedHash (xs.map .write)

/-- Key 5 kicks a live key: every answer stays what was last written. -/
theorem find_eq_lastOutcome_kicked : ∃ t, crowdedRun (crowd ++ [.delete 2 none, .insert 5 ⟨3, 15⟩]) = some t
      ∧ t.history.length = 1 ∧ t.find crowdedHash 1 = .ok ⟨1, 11⟩
      ∧ t.find crowdedHash 2 = .deleted := by
  have heval : ∃ t ∈ crowdedRun (crowd ++ [.delete 2 none, .insert 5 ⟨3, 15⟩]), t.history.length = 1
      ∧ ∀ ev ∈ t.history, live ev = true := by decide +kernel
  obtain ⟨t, hrun, hlength, hlive⟩ := heval
  have hvalid : ∀ x ∈ crowd ++ [.delete 2 none, .insert 5 ⟨3, 15⟩], x.Valid (SpecialValueBucket 64 Stamped) := by
    intro x hx
    simp only [crowd, cons_append, nil_append, mem_cons, not_mem_nil, or_false] at hx
    rcases hx with rfl | rfl | rfl | rfl | rfl | rfl <;> trivial
  refine ⟨t, hrun, hlength, ?_⟩
  rw [find_eq_lastOutcome crowdedHash (by decide) _ hvalid t hrun hlive,
    find_eq_lastOutcome crowdedHash (by decide) _ hvalid t hrun hlive]
  decide +kernel

/-- **A kick revives a deleted key.**  Key 1 is deleted and then kicked to the second block.  Deleted
with a timestamp it is live again, with its old value; deleted without one it is gone. -/
theorem kick_revives_deleted : (∃ t, crowdedRun (crowd ++ [.delete 1 (some ⟨2, 0⟩), .insert 5 ⟨3, 15⟩]) = some t
      ∧ t.find crowdedHash 1 = .ok ⟨2, 11⟩)
      ∧ (∃ t, crowdedRun (crowd ++ [.delete 1 none, .insert 5 ⟨3, 15⟩]) = some t
        ∧ t.find crowdedHash 1 = .notFound) := by
  simp only [← mem_def]
  decide +kernel

end CuckooHashTable

end Havenask
