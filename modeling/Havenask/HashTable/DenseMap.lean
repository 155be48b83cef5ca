import Havenask.HashTable.Dense
import Havenask.Lib.LinearProbing

/-!
# `DenseHashTable` is a map

Lookups and writes.  The invariant is the usual one of linear probing: every occupied bucket is
reached from the home of its key through occupied buckets (`Placed`).  With it, `findIn` finds the
bucket of a key that is there, and otherwise a free bucket where the key may go, or none if the
table is full (`findIn_cases`).  A write then adds a bucket to the bag of occupied ones or exchanges
one (`internalInsert_spec`), and the table goes on standing for the map of its writes (`Inv`).
-/

namespace Havenask

open SlotArray Bucket ClosedHashTableTraits LawfulBucket LinearProbing Function

namespace DenseHashTable

variable {B S V : Type} {w : ℕ} [Bucket B w V] [Bucket S w V] [ClosedHashTableTraits B S w]

/-! ## Probing -/

lemma probe_eq (N h d : ℕ) : probe d ((h + d) % N) N = (decide (d + 1 < N), d + 1, (h + (d + 1)) % N) := by
  simp only [probe, next_pos]

/-- The search stops at an empty bucket and at the bucket of the key. -/
def stops (m : ℕ → B) (k : BitVec w) (i : ℕ) : Bool := isEmpty (m i) || isEqual (m i) k

variable {m : ℕ → B} {k : BitVec w} {N : ℕ}

lemma findLoop_of_stops {i : ℕ} (h : stops m k i = true)
    (N rounds d : ℕ) : findLoop m N k (rounds + 1) d i = some i :=
  if_pos h

lemma findLoop_of_not_stops {h d : ℕ} (hstop : stops m k ((h + d) % N) = false) (rounds : ℕ) :
    findLoop m N k (rounds + 1) d ((h + d) % N)
    = if d + 1 < N then findLoop m N k rounds (d + 1) ((h + (d + 1)) % N) else none := by
  have hstop' : ¬ (isEmpty (m ((h + d) % N)) || isEqual (m ((h + d) % N)) k) = true := by
    rw [← stops, hstop]
    exact Bool.false_ne_true
  rw [findLoop, if_neg hstop', probe_eq]
  split_ifs with hlast
  · rw [decide_eq_true hlast]
  · rw [decide_eq_false hlast]

/-- What the loop returns from round `d` on: the first stop, if there is one in the first `N`
rounds. -/
lemma findLoop_spec (m : ℕ → B) (k : BitVec w) (h : ℕ) : ∀ rounds d, d + rounds = N →
    match findLoop m N k rounds d ((h + d) % N) with
    | none => ∀ e, d ≤ e → e < N → stops m k ((h + e) % N) = false
    | some i => ∃ e, d ≤ e ∧ e < N ∧ (h + e) % N = i ∧ stops m k i = true
        ∧ ∀ e', d ≤ e' → e' < e → stops m k ((h + e') % N) = false := by
  intro rounds
  induction rounds with
  | zero =>
    intro d hd e hde heN
    omega
  | succ rounds ih =>
    intro d hd
    cases hstop : stops m k ((h + d) % N) with
    | true =>
      rw [findLoop_of_stops hstop]
      exact ⟨d, le_rfl, by omega, rfl, hstop, fun e' h₁ h₂ => by omega⟩
    | false =>
      rw [findLoop_of_not_stops hstop]
      by_cases hlast : d + 1 < N
      · rw [if_pos hlast]
        have hrest := ih (d + 1) (by omega)
        cases hres : findLoop m N k rounds (d + 1) ((h + (d + 1)) % N) with
        | none =>
          rw [hres] at hrest
          intro e hde heN
          rcases Nat.eq_or_lt_of_le hde with rfl | hlt
          · exact hstop
          · exact hrest e hlt heN
        | some i =>
          rw [hres] at hrest
          obtain ⟨e, hde, heN, hpos, hi, hbefore⟩ := hrest
          refine ⟨e, by omega, heN, hpos, hi, fun e' h₁ h₂ => ?_⟩
          rcases Nat.eq_or_lt_of_le h₁ with rfl | hlt
          · exact hstop
          · exact hbefore e' hlt h₂
      · rw [if_neg hlast]
        intro e hde heN
        have heq : e = d := by omega
        rw [heq]
        exact hstop

/-- A failed search: no bucket of the table is empty or has the key. -/
lemma findIn_eq_none (h : findIn m N k = none) : ∀ i < N, stops m k i = false := by
  intro i hi
  have hspec := findLoop_spec (N := N) m k k.toNat N 0 (Nat.zero_add N)
  rw [Nat.add_zero] at hspec
  rw [findIn] at h
  rw [h] at hspec
  obtain ⟨d, hd, hpos⟩ := exists_pos (h := k.toNat) hi
  rw [← hpos]
  exact hspec d (Nat.zero_le d) hd

/-- A search that ends: the first stop on the probe sequence of the key. -/
lemma findIn_eq_some {i : ℕ} (h : findIn m N k = some i) : i < N ∧ stops m k i = true
    ∧ ∃ d, (k.toNat + d) % N = i ∧ ∀ d' < d, stops m k ((k.toNat + d') % N) = false := by
  have hspec := findLoop_spec (N := N) m k k.toNat N 0 (Nat.zero_add N)
  rw [Nat.add_zero] at hspec
  rw [findIn] at h
  rw [h] at hspec
  obtain ⟨d, -, hdN, hpos, hstop, hbefore⟩ := hspec
  refine ⟨?_, hstop, d, hpos, fun d' hd' => hbefore d' (Nat.zero_le d') hd'⟩
  rw [← hpos]
  exact Nat.mod_lt _ (by omega)

/-! ## Placement -/

variable [LawfulBucket B]

/-- Every occupied bucket among the first `N` is reached from the home of its key. -/
structure Placed (m : ℕ → B) (N : ℕ) : Prop where
  pos : 0 < N
  wf : ∀ i < N, Wf (m i)
  reached : ∀ i < N, isEmpty (m i) = false → Reached (fun j => isEmpty (m j) = false) N (key (m i)).toNat i

/-- Where a search for a valid key ends. -/
inductive FindCases (m : ℕ → B) (N : ℕ) (k : BitVec w) : Option ℕ → Prop
  | full (hfull : ∀ i < N, isEmpty (m i) = false) (habsent : k ∉ (contents occupied m N).map key) :
      FindCases m N k none
  | found (i : ℕ) (hi : i < N) (hocc : isEmpty (m i) = false) (hkey : key (m i) = k) :
      FindCases m N k (some i)
  | free (i : ℕ) (hi : i < N) (hempty : isEmpty (m i) = true)
      (habsent : k ∉ (contents occupied m N).map key)
      (hreached : Reached (fun j => isEmpty (m j) = false) N k.toNat i) :
      FindCases m N k (some i)

omit [LawfulBucket B] in
lemma exists_of_mem_keys (h : k ∈ (contents occupied m N).map key) :
    ∃ i < N, isEmpty (m i) = false ∧ key (m i) = k := by
  obtain ⟨b, hb, hk⟩ := Multiset.mem_map.mp h
  obtain ⟨i, hi, rfl, hocc⟩ := mem_contents.mp hb
  exact ⟨i, hi, occupied_eq_true.mp hocc, hk⟩

lemma stops_of_key {i : ℕ} (hwf : Wf (m i)) (hk : ValidKey B k)
    (hocc : isEmpty (m i) = false) : stops m k i = true ↔ key (m i) = k := by
  rw [stops, hocc, Bool.false_or, isEqual_iff hwf hocc hk]

lemma findIn_cases (hm : Placed m N) (hk : ValidKey B k) : FindCases m N k (findIn m N k) := by
  cases hfind : findIn m N k with
  | none =>
    have hstop := findIn_eq_none hfind
    have hfull : ∀ i < N, isEmpty (m i) = false := fun i hi =>
      (Bool.or_eq_false_iff.mp (hstop i hi)).1
    refine .full hfull fun hmem => ?_
    obtain ⟨i, hi, hocc, hkey⟩ := exists_of_mem_keys hmem
    have := (stops_of_key (hm.wf i hi) hk hocc).mpr hkey
    rw [hstop i hi] at this
    cases this
  | some i =>
    obtain ⟨hi, hstop, d, hpos, hbefore⟩ := findIn_eq_some hfind
    have hocc_before : ∀ d' < d, isEmpty (m ((k.toNat + d') % N)) = false := fun d' hd' =>
      (Bool.or_eq_false_iff.mp (hbefore d' hd')).1
    cases hempty : isEmpty (m i) with
    | false => exact .found i hi hempty ((stops_of_key (hm.wf i hi) hk hempty).mp hstop)
    | true =>
      refine .free i hi hempty (fun hmem => ?_) ⟨d, hpos, hocc_before⟩
      -- the key would be reached through occupied buckets, so the search would have met it
      obtain ⟨j, hj, hocc, hkey⟩ := exists_of_mem_keys hmem
      obtain ⟨e, hej, hebefore⟩ := hm.reached j hj hocc
      rw [hkey] at hej hebefore
      rcases lt_trichotomy e d with hlt | rfl | hgt
      · have hmiss := hbefore e hlt
        rw [hej] at hmiss
        rw [(stops_of_key (hm.wf j hj) hk hocc).mpr hkey] at hmiss
        cases hmiss
      · rw [hpos] at hej
        rw [hej, hocc] at hempty
        cases hempty
      · have hmiss := hebefore d hgt
        rw [hpos, hempty] at hmiss
        cases hmiss

/-- Writing a bucket where it belongs keeps the placement. -/
lemma Placed.update {N i : ℕ} (hm : Placed m N) {b : B} (hwf : Wf b) (hb : isEmpty b = false)
    (hreached : Reached (fun j => isEmpty (m j) = false) N (key b).toNat i) : Placed (update m i b) N := by
  have hmono : ∀ j, isEmpty (m j) = false → isEmpty (Function.update m i b j) = false := by
    intro j hj
    by_cases hji : j = i
    · rw [hji, update_self, hb]
    · rw [update_of_ne hji, hj]
  refine ⟨hm.pos, fun j hj => ?_, fun j hj hocc => ?_⟩
  · by_cases hji : j = i
    · rw [hji, update_self]
      exact hwf
    · rw [update_of_ne hji]
      exact hm.wf j hj
  by_cases hji : j = i
  · rw [hji, update_self]
    exact hreached.mono hmono
  · rw [update_of_ne hji] at hocc ⊢
    exact (hm.reached j hj hocc).mono hmono

/-! ## The invariant -/

variable [LawfulBucket S]

/-- The table is the map `M`, after writes to the keys `W`. -/
structure Inv (t : DenseHashTable B S) (M : BitVec w → Status V) (W : Finset (BitVec w)) : Prop where
  placed : Placed t.bucket t.bucketCount
  isMap : IsMap (contents occupied t.bucket t.bucketCount) t.emptyBucket t.deleteBucket
    t.keyCount t.deleteCount M W
  pct_pos : 0 < t.occupancyPct
  pct_lt : t.occupancyPct < 100

lemma inv_mountForWrite {bucketCount occupancyPct : ℕ} (hcount : 0 < bucketCount)
    (hpos : 0 < occupancyPct) (hlt : occupancyPct < 100) :
    Inv (mountForWrite bucketCount occupancyPct : DenseHashTable B S) (fun _ => .notFound) ∅ := by
  have hcontents : contents occupied (fun _ => (new : B)) bucketCount = 0 :=
    contents_of_empty fun _ _ => occupied_eq_false.mpr isEmpty_new
  refine ⟨⟨hcount, fun _ _ => wf_new, fun i _ hocc => ?_⟩, ?_, hpos, hlt⟩
  · have hnew : isEmpty (new : B) = false := hocc
    rw [isEmpty_new] at hnew
    cases hnew
  show IsMap (contents occupied (fun _ => (new : B)) bucketCount) _ _ _ _ _ _
  rw [hcontents]
  exact IsMap.new

variable [LawfulTraits B] {t : DenseHashTable B S} {M : BitVec w → Status V}
  {W : Finset (BitVec w)}

/-- Lookups read the map. -/
lemma Inv.find_eq (h : Inv t M W) (k : BitVec w) : t.find k = M k := by
  refine h.isMap.represents.lookup fun hk => ?_
  rw [internalFindBucket]
  have hcases := findIn_cases h.placed hk
  generalize findIn t.bucket t.bucketCount k = r at hcases
  cases hcases with
  | full hfull habsent => exact (h.isMap.represents.bag.eq_absent hk habsent).symm
  | found i hi hocc hkey =>
    rw [← hkey]
    exact (h.isMap.represents.bag.entry_eq _ (mem_contents_of_lt hi (occupied_eq_true.mpr hocc))).symm
  | free i hi hfree habsent hreached =>
    simp only [status_of_isEmpty hfree]
    exact (h.isMap.represents.bag.eq_absent hk habsent).symm

/-- **A write is one update of the map.** -/
lemma internalInsert_spec (h : Inv t M W) {x : Write w V} (hx : x.Valid B) (hok : (t.internalInsert x).1 = true) :
    Inv (t.internalInsert x).2 (update M x.key x.outcome) (insert x.key W) := by
  unfold internalInsert at hok ⊢
  cases hempty : isEmptyKey B x.key with
  | true =>
    simp only [if_true]
    exact ⟨h.placed, h.isMap.write_emptyKey hempty hx, h.pct_pos, h.pct_lt⟩
  | false =>
    cases hdelete : isDeleteKey B x.key with
    | true =>
      simp only [Bool.false_eq_true, if_false, if_true]
      exact ⟨h.placed, h.isMap.write_deleteKey hdelete hx, h.pct_pos, h.pct_lt⟩
    | false =>
      have hk : ValidKey B x.key := (LawfulTraits.validKey_iff x.key).mpr ⟨hempty, hdelete⟩
      simp only [hempty, hdelete, Bool.false_eq_true, if_false, internalFindBucket] at hok ⊢
      have hcases := findIn_cases h.placed hk
      generalize findIn t.bucket t.bucketCount x.key = r at hcases hok
      cases hcases with
      | full hfull habsent => cases hok
      | found i hi hocc hkey =>
        obtain ⟨hwf, hne, hkey', -⟩ := x.apply_spec (t.bucket i) t.deleteCount hk hx
        refine ⟨h.placed.update hwf hne ?_,
          h.isMap.write_found hk hx hi (h.placed.wf i hi) hocc hkey, h.pct_pos, h.pct_lt⟩
        rw [hkey', ← hkey]
        exact h.placed.reached i hi hocc
      | free i hi hfree habsent hreached =>
        obtain ⟨hwf, hne, hkey', -⟩ := x.apply_spec (t.bucket i) t.deleteCount hk hx
        refine ⟨h.placed.update hwf hne ?_, h.isMap.write_free hk hx hi (h.placed.wf i hi) hfree habsent, h.pct_pos,
          h.pct_lt⟩
        rw [hkey']
        exact hreached

end DenseHashTable

end Havenask
