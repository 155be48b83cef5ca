import Havenask.Lib.LittleEndian

/-!
# Reference-compressed integers

`numeric_compress/ReferenceCompressIntEncoder.h`, for values of 32 bits.  A block of values in increasing order is
kept as its first value and the differences from it, in one, two or four bytes each.  A full block that would need
four is kept as it is, without a header: its first word is not negative, a header is.

* **`encode`**: the bytes of a block.
* **`Reader`**: the values by their index, and the first value from a bound on.
* **`read_encode`**: both give the values of the block.
-/

namespace Havenask.ReferenceCompress

open List Option UInt32 LittleEndian

/-- `MAX_ITEM_COUNT`. -/
def maxItemCount : ℕ := 128

def calculateLen (maxDelta : ℕ) : ℕ :=
  if maxDelta ≤ 0xff then 1 else if maxDelta ≤ 0xffff then 2 else 4

/-- `Encode`, of a list that is not empty. -/
def encode (src : List UInt32) : List UInt8 :=
  let base := src.headD 0
  let len := calculateLen (src.getLastD 0 - base).toNat
  if len = 4 ∧ src.length = maxItemCount then
    -- do not compress
    src.flatMap fun value => LittleEndian.encode 4 value.toNat
  else
    LittleEndian.encodeInt 4 (-((len <<< 16 + src.length % 0x10000 : ℕ) : ℤ)) ++ LittleEndian.encode 4 base.toNat
      ++ src.tail.flatMap fun value => LittleEndian.encode len (value - base).toNat

/-- `ReferenceCompressIntReader`. -/
structure Reader where
  data : List UInt8
  first : UInt32
  base : UInt32
  cursor : ℕ
  len : ℕ

namespace Reader

/-- `Reset`; `none` where it would read beyond the buffer. -/
def reset (buffer : List UInt8) : Option Reader := do
  let (header, rest) ← LittleEndian.readInt 4 buffer
  if header < 0 then
    let (base, data) ← LittleEndian.read 4 rest
    some ⟨data, .ofNat base, .ofNat base, 1, ((-header).toNat >>> 16) % 256⟩
  else
    let (first, data) ← LittleEndian.read 4 buffer
    some ⟨data, .ofNat first, 0, 1, 4⟩

/-- `((ElementType*)_data)[i]`, for the type of the width; no other width is read. -/
def element (reader : Reader) (i : ℕ) : Option UInt32 :=
  if reader.len = 1 ∨ reader.len = 2 ∨ reader.len = 4 then
    (LittleEndian.read reader.len (reader.data.drop (reader.len * i))).map fun (n, _) => .ofNat n
  else none

/-- `operator[]`. -/
def get (reader : Reader) (index : ℕ) : Option UInt32 :=
  if index = 0 then some reader.first else (reader.element (index - 1)).map (· + reader.base)

/-- The loop of `DoSeek`, for a number of turns at most: the value and the cursor behind it. -/
def doSeek (reader : Reader) (compValue : UInt32) : ℕ → ℕ → Option (UInt32 × ℕ)
  | 0, _ => none
  | turns + 1, cursor =>
    match reader.element cursor with
    | none => none
    | some curValue =>
      if curValue < compValue then reader.doSeek compValue turns (cursor + 1) else some (curValue, cursor + 1)

/-- `Seek`; every turn reads another byte of the data. -/
def seek (reader : Reader) (value : UInt32) : Option (UInt32 × Reader) :=
  (reader.doSeek (value - reader.base) (reader.data.length + 1) (reader.cursor - 1)).map fun (curValue, cursor) =>
    (curValue + reader.base, { reader with cursor := cursor + 1 })

/-! ## A reader over a block -/

/-- The reader has the values of a block, relative to its base. -/
structure Reads (reader : Reader) (src : List UInt32) : Prop where
  first : src[0]? = some reader.first
  base : reader.base ≤ reader.first
  element : ∀ i value, src[i + 1]? = some value → reader.element i = some (value - reader.base)
  room : src.length ≤ reader.data.length + 1

variable {reader : Reader} {src : List UInt32} {v w : UInt32} {j : ℕ}

lemma Reads.get_eq (hreads : reader.Reads src) (hj : src[j]? = some w) : reader.get j = some w := by
  cases j with
  | zero => rw [get, if_pos rfl, ← hreads.first, hj]
  | succ j =>
    rw [get, if_neg (Nat.succ_ne_zero j), Nat.add_sub_cancel, hreads.element j w hj, map_some,
      sub_add_cancel]

lemma le_of_getElem? (hsorted : src.Pairwise (· ≤ ·)) {i : ℕ} (hi : src[i]? = some v) (hj : src[j]? = some w)
    (hij : i ≤ j) : v ≤ w := by
  obtain ⟨hlti, rfl⟩ := List.getElem?_eq_some_iff.mp hi
  obtain ⟨hltj, rfl⟩ := List.getElem?_eq_some_iff.mp hj
  rcases Nat.eq_or_lt_of_le hij with rfl | hlt
  · exact UInt32.le_refl _
  · exact pairwise_iff_getElem.mp hsorted i j hlti hltj hlt

lemma Reads.base_le (hreads : reader.Reads src) (hsorted : src.Pairwise (· ≤ ·)) (hj : src[j]? = some w) :
    reader.base ≤ w :=
  UInt32.le_trans hreads.base (le_of_getElem? hsorted hreads.first hj (Nat.zero_le j))

lemma sub_lt_sub_iff {a b c : UInt32} (ha : c ≤ a) (hb : c ≤ b) : a - c < b - c ↔ a < b := by
  rw [le_iff_toNat_le] at ha hb
  rw [UInt32.lt_iff_toNat_lt, UInt32.lt_iff_toNat_lt, UInt32.toNat_sub_of_le _ _ ha, UInt32.toNat_sub_of_le _ _ hb]
  omega

/-- The loop stops at the first value from the bound on. -/
lemma Reads.doSeek_eq (hreads : reader.Reads src) (hsorted : src.Pairwise (· ≤ ·)) (hv : reader.base ≤ v)
    (hj : src[j]? = some w) (hw : v ≤ w) :
    ∀ turns cursor, cursor < j → j ≤ cursor + turns → (∀ k x, cursor < k → k < j → src[k]? = some x → x < v) →
      reader.doSeek (v - reader.base) turns cursor = some (w - reader.base, j) := by
  intro turns
  induction turns with
  | zero =>
    intro cursor hlt hle
    omega
  | succ turns ih =>
    intro cursor hlt hle hbelow
    have hj' := (List.getElem?_eq_some_iff.mp hj).1
    obtain ⟨x, hx⟩ : ∃ x, src[cursor + 1]? = some x := ⟨_, getElem?_eq_getElem (by omega)⟩
    have hcompare := sub_lt_sub_iff (hreads.base_le hsorted hx) hv
    rw [doSeek, hreads.element cursor x hx]
    rcases Nat.lt_or_ge (cursor + 1) j with hnext | hlast
    · dsimp only
      rw [if_pos (hcompare.mpr (hbelow _ x (Nat.lt_succ_self _) hnext hx))]
      exact ih (cursor + 1) hnext (by omega) fun k y hk => hbelow k y (by omega)
    obtain rfl : j = cursor + 1 := by omega
    obtain rfl : w = x := some.inj (hj.symm.trans hx)
    dsimp only
    rw [if_neg (fun h => UInt32.not_lt.mpr hw (hcompare.mp h))]

/-! ## The bytes of a block -/

lemma calculateLen_spec {maxDelta n : ℕ} (hn : n ≤ maxDelta) (hmax : maxDelta < 2 ^ 32) :
    n < 256 ^ calculateLen maxDelta
    ∧ (calculateLen maxDelta = 1 ∨ calculateLen maxDelta = 2 ∨ calculateLen maxDelta = 4) := by
  unfold calculateLen
  split_ifs <;> norm_num <;> omega

variable {first : UInt32} {rest : List UInt32}

/-- A reader whose data are the differences from its base. -/
lemma reads_of_flatMap {len : ℕ} {base : UInt32} (hbase : base ≤ first)
    (hlen : len = 1 ∨ len = 2 ∨ len = 4) (hrest : ∀ value ∈ rest, (value - base).toNat < 256 ^ len) :
    Reads ⟨rest.flatMap fun value => LittleEndian.encode len (value - base).toNat, first, base, 1, len⟩
      (first :: rest) := by
  refine ⟨rfl, hbase, fun i value hvalue => ?_, ?_⟩
  · rw [getElem?_cons_succ] at hvalue
    obtain ⟨bytes, hread⟩ := read_drop_flatMap len (fun value => (value - base).toNat) hvalue
      (hrest value (mem_of_getElem? hvalue))
    simp only [element, if_pos hlen, hread, Option.map_some, UInt32.ofNat_toNat]
  · have hpos : 1 ≤ len := by omega
    simp only [length_cons, length_flatMap, length_encode, map_const', sum_replicate, smul_eq_mul]
    exact Nat.succ_le_succ (Nat.le_mul_of_pos_right _ hpos)

lemma getElem?_length_sub_one : (first :: rest)[rest.length]? = some ((first :: rest).getLastD 0) := by
  rw [getLastD_eq_getLast?, getLast?_eq_getElem?, length_cons, Nat.add_sub_cancel,
    getElem?_eq_getElem (by simp), getD_some]

lemma reset_raw (rest : List UInt32) (hfirst : first.toNat < 2 ^ 31) :
    ∃ reader, reset ((first :: rest).flatMap fun value => LittleEndian.encode 4 value.toNat) = some reader
    ∧ reader.cursor = 1 ∧ reader.Reads (first :: rest) := by
  have hreads : Reads ⟨rest.flatMap fun value => LittleEndian.encode 4 (value - 0).toNat, first, 0, 1, 4⟩
      (first :: rest) :=
    reads_of_flatMap UInt32.zero_le (by simp) fun value _ => (value - 0).toNat_lt
  simp only [sub_zero] at hreads
  refine ⟨_, ?_, rfl, hreads⟩
  have hheader : ¬ (BitVec.ofNat (8 * 4) first.toNat).toInt < 0 := by
    rw [BitVec.toInt_eq_toNat_of_lt (by rw [BitVec.toNat_ofNat]; omega)]
    omega
  have hword : first.toNat % 256 ^ 4 = first.toNat := Nat.mod_eq_of_lt first.toNat_lt
  rw [reset, flatMap_cons, readInt_encode_append]
  simp only [bind_eq_bind, bind_some, if_neg hheader, read_encode_append, hword,
    UInt32.ofNat_toNat]

/-- A header, the first value and the differences from it. -/
lemma reset_compressed {len count : ℕ} (hlen : len = 1 ∨ len = 2 ∨ len = 4)
    (hcount : 0 < count ∧ count ≤ 128) (hrest : ∀ value ∈ rest, (value - first).toNat < 256 ^ len) :
    ∃ reader, reset (encodeInt 4 (-((len <<< 16 + count % 0x10000 : ℕ) : ℤ)) ++ LittleEndian.encode 4 first.toNat
      ++ rest.flatMap fun value => LittleEndian.encode len (value - first).toNat) = some reader
    ∧ reader.cursor = 1 ∧ reader.Reads (first :: rest) := by
  refine ⟨_, ?_, rfl, reads_of_flatMap (UInt32.le_refl _) hlen hrest⟩
  have hheader : len <<< 16 + count % 0x10000 = len * 2 ^ 16 + count := by
    rw [Nat.shiftLeft_eq]
    omega
  have hwidth : (len * 2 ^ 16 + count) >>> 16 % 256 = len := by
    rw [Nat.shiftRight_eq_div_pow]
    omega
  have hword : first.toNat % 256 ^ 4 = first.toNat := Nat.mod_eq_of_lt first.toNat_lt
  have hback : ReadsBack (readInt 4)
      (encodeInt 4 (-((len * 2 ^ 16 + count : ℕ) : ℤ))) (-((len * 2 ^ 16 + count : ℕ) : ℤ)) := by
    apply readsBack_readInt <;> norm_num <;> omega
  rw [hheader, reset, append_assoc, hback]
  simp only [bind_eq_bind, bind_some, read_encode_append, hword, UInt32.ofNat_toNat,
    neg_neg, Int.toNat_natCast, hwidth]
  exact if_pos (by omega)

/-- The bytes of a block give a reader over it. -/
lemma reset_encode (hcount : (first :: rest).length ≤ 128)
    (hsorted : (first :: rest).Pairwise (· ≤ ·)) (hfirst : first.toNat < 2 ^ 31) :
    ∃ reader, reset (encode (first :: rest)) = some reader ∧ reader.cursor = 1 ∧ reader.Reads (first :: rest) := by
  have hbounds : ∀ value ∈ rest, first ≤ value ∧ value ≤ (first :: rest).getLastD 0 := by
    intro value hvalue
    obtain ⟨i, hi, rfl⟩ := getElem_of_mem hvalue
    have hget : (first :: rest)[i + 1]? = some rest[i] := getElem?_eq_getElem hi
    exact ⟨rel_of_pairwise_cons hsorted hvalue, le_of_getElem? hsorted hget getElem?_length_sub_one hi⟩
  unfold encode
  dsimp only [headD_cons, tail_cons]
  generalize (first :: rest).getLastD 0 = last at hbounds ⊢
  have hdelta : ∀ value ∈ rest, (value - first).toNat ≤ (last - first).toNat := by
    intro value hvalue
    obtain ⟨hlow, hhigh⟩ := hbounds value hvalue
    rw [UInt32.toNat_sub_of_le _ _ hlow, UInt32.toNat_sub_of_le _ _ (UInt32.le_trans hlow hhigh)]
    exact Nat.sub_le_sub_right (le_iff_toNat_le.mp hhigh) _
  have hlen := (calculateLen_spec le_rfl (last - first).toNat_lt).2
  by_cases hraw : calculateLen (last - first).toNat = 4 ∧ (first :: rest).length = maxItemCount
  · rw [if_pos hraw]
    exact reset_raw rest hfirst
  rw [if_neg hraw]
  exact reset_compressed hlen ⟨Nat.succ_pos _, hcount⟩ fun value hvalue =>
    (calculateLen_spec (hdelta value hvalue) (last - first).toNat_lt).1

/-- A block reads back by its indexes, and a seek from any cursor on finds the first value from the bound on. -/
theorem read_encode (first : UInt32) (rest : List UInt32) (hcount : (first :: rest).length ≤ 128)
    (hsorted : (first :: rest).Pairwise (· ≤ ·)) (hfirst : first.toNat < 2 ^ 31) :
    ∃ reader, reset (encode (first :: rest)) = some reader ∧ reader.cursor = 1
      ∧ (∀ i value, (first :: rest)[i]? = some value → reader.get i = some value)
      ∧ ∀ cursor, 1 ≤ cursor → cursor < (first :: rest).length → ∀ v, first < v → v ≤ (first :: rest).getLastD 0 →
          ∃ j w, cursor ≤ j ∧ (first :: rest)[j]? = some w ∧ v ≤ w
            ∧ (∀ k x, cursor ≤ k → k < j → (first :: rest)[k]? = some x → x < v)
            ∧ { reader with cursor := cursor }.seek v = some (w, { reader with cursor := j + 1 }) := by
  obtain ⟨reader, hreset, hcursor, hreads⟩ := reset_encode hcount hsorted hfirst
  refine ⟨reader, hreset, hcursor, fun i value hi => hreads.get_eq hi, fun cursor hpos hlt v hv hlast => ?_⟩
  have hexists : ∃ j, cursor ≤ j ∧ ∃ w, (first :: rest)[j]? = some w ∧ v ≤ w :=
    ⟨rest.length, Nat.lt_succ_iff.mp hlt, _, getElem?_length_sub_one, hlast⟩
  classical
  obtain ⟨hle, w, hw, hvw⟩ := Nat.find_spec hexists
  have hbelow : ∀ k x, cursor ≤ k → k < Nat.find hexists → (first :: rest)[k]? = some x → x < v := by
    intro k x hk hkj hx
    by_contra hnot
    exact Nat.find_min hexists hkj ⟨hk, x, hx, UInt32.not_lt.mp hnot⟩
  generalize Nat.find hexists = j at hle hw hbelow
  have hbase : reader.base ≤ v := UInt32.le_trans (hreads.base_le hsorted (j := 0) rfl) (UInt32.le_of_lt hv)
  have hroom := hreads.room
  have hj := (List.getElem?_eq_some_iff.mp hw).1
  have hcursorReads : { reader with cursor := cursor }.Reads (first :: rest) := { hreads with }
  have hseek := hcursorReads.doSeek_eq hsorted hbase hw hvw (reader.data.length + 1) (cursor - 1) (by omega) (by omega)
    fun k x hk => hbelow k x (by omega)
  refine ⟨j, w, hle, hw, hvw, hbelow, ?_⟩
  rw [seek, hseek]
  simp only [Option.map_some, sub_add_cancel]

/-- Three values whose differences take two bytes; the seek for 10 leaves the cursor behind the last one. -/
theorem read_encode_three : ∃ reader, reset (encode [5, 9, 300]) = some reader ∧ reader.get 1 = some 9
      ∧ ∃ j w, { reader with cursor := 1 }.seek 10 = some (w, { reader with cursor := j + 1 }) ∧ 10 ≤ w := by
  obtain ⟨reader, hreset, -, hget, hseek⟩ := read_encode 5 [9, 300] (by decide) (by decide) (by decide)
  obtain ⟨j, w, -, -, hw, -, hfound⟩ := hseek 1 le_rfl (by decide) 10 (by decide) (by decide)
  exact ⟨reader, hreset, hget 1 9 rfl, j, w, hfound, hw⟩

end Reader

end Havenask.ReferenceCompress
