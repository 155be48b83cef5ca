import Mathlib

/-!
# Little-endian words in a byte stream

Fixed-width words written low byte first, and readers that take a value off the front of a byte
list and hand back the rest, or refuse.  Signed words are two's complement.

The laws are all of one shape, `ReadsBack r enc a`: in front of every suffix, the reader `r` takes
exactly the bytes `enc a` and returns `a`.  It holds of words below their width (`readsBack_read`),
of signed words in their range (`readsBack_readInt`), and passes from the elements to a counted list
(`readsBack_readList`).
-/

namespace LittleEndian

open List BitVec

/-- The `w` bytes of a word, low byte first; higher bits are dropped. -/
def encode : ℕ → ℕ → List UInt8
  | 0, _ => []
  | w + 1, n => UInt8.ofNat n :: encode w (n / 256)

def decode : List UInt8 → ℕ
  | [] => 0
  | b :: bs => b.toNat + 256 * decode bs

/-- Take a word of `w` bytes off the front; refuse when there are fewer. -/
def read (w : ℕ) (data : List UInt8) : Option (ℕ × List UInt8) :=
  if data.length < w then none else some (decode (data.take w), data.drop w)

/-- The two's complement bytes of a signed word. -/
def encodeInt (w : ℕ) (x : ℤ) : List UInt8 := encode w (BitVec.ofInt (8 * w) x).toNat

/-- Take a signed word off the front. -/
def readInt (w : ℕ) (data : List UInt8) : Option (ℤ × List UInt8) :=
  (read w data).map fun (n, rest) => ((BitVec.ofNat (8 * w) n).toInt, rest)

variable {α : Type*}

/-- Take `n` values off the front, one after the other. -/
def readList (r : List UInt8 → Option (α × List UInt8)) : ℕ → List UInt8 → Option (List α × List UInt8)
  | 0, data => some ([], data)
  | n + 1, data =>
    match r data with
    | none => none
    | some (a, rest) => (readList r n rest).map fun (as, rest') => (a :: as, rest')

/-- In front of any suffix the reader takes exactly the bytes of `a`, and returns it. -/
def ReadsBack (r : List UInt8 → Option (α × List UInt8)) (bytes : List UInt8) (a : α) : Prop :=
  ∀ rest, r (bytes ++ rest) = some (a, rest)

/-! ## Words -/

variable (w n : ℕ)

@[simp] lemma length_encode : (encode w n).length = w := by
  induction w generalizing n with
  | zero => rfl
  | succ w ih => rw [encode, length_cons, ih]

@[simp] lemma length_encodeInt (w : ℕ) (x : ℤ) : (encodeInt w x).length = w := length_encode _ _

lemma decode_encode : decode (encode w n) = n % 256 ^ w := by
  induction w generalizing n with
  | zero => simp [encode, decode, Nat.mod_one]
  | succ w ih =>
    have hbyte : (UInt8.ofNat n).toNat = n % 256 := by simp
    rw [encode, decode, ih, hbyte, pow_succ', Nat.mod_mul]

lemma decode_lt (bs : List UInt8) : decode bs < 256 ^ bs.length := by
  induction bs with
  | nil => norm_num [decode]
  | cons b bs ih =>
    have hb := b.toNat_lt
    rw [decode, length_cons, pow_succ]
    omega

lemma encode_decode (bs : List UInt8) : encode bs.length (decode bs) = bs := by
  induction bs with
  | nil => rfl
  | cons b bs ih =>
    have hb := b.toNat_lt
    have hhead : UInt8.ofNat (b.toNat + 256 * decode bs) = b := by
      apply UInt8.toNat_inj.mp
      rw [UInt8.toNat_ofNat']
      omega
    rw [decode, length_cons, encode, hhead, show (b.toNat + 256 * decode bs) / 256 = decode bs by omega, ih]

/-- Cutting a word in two: the low bytes come first. -/
lemma encode_add (a b n : ℕ) : encode (a + b) n = encode a n ++ encode b (n / 256 ^ a) := by
  induction a generalizing n with
  | zero => simp [encode]
  | succ a ih =>
    rw [Nat.succ_add, encode, encode, ih, List.cons_append, Nat.div_div_eq_div_mul, pow_succ']

/-- Reading over a suffix: the low bytes of the word, whatever follows. -/
lemma read_encode_append (rest : List UInt8) : read w (encode w n ++ rest) = some (n % 256 ^ w, rest) := by
  have hlen := length_encode w n
  rw [read, if_neg (by rw [length_append]; omega), take_left' hlen, drop_left' hlen, decode_encode]

lemma readsBack_read {w n : ℕ} (hn : n < 256 ^ w) : ReadsBack (read w) (encode w n) n := by
  intro rest
  rw [read_encode_append, Nat.mod_eq_of_lt hn]

lemma pow_two_eight (w : ℕ) : 2 ^ (8 * w) = 256 ^ w := by
  rw [pow_mul]
  norm_num

/-- The signed word in front of a suffix, reduced to its width. -/
lemma readInt_encode_append (rest : List UInt8) :
    readInt w (encode w n ++ rest) = some ((BitVec.ofNat (8 * w) n).toInt, rest) := by
  have hword : BitVec.ofNat (8 * w) (n % 256 ^ w) = BitVec.ofNat (8 * w) n := by
    apply eq_of_toNat_eq
    rw [toNat_ofNat, toNat_ofNat, pow_two_eight, Nat.mod_mod]
  rw [readInt, read_encode_append, Option.map_some]
  simp only [hword]

/-- A signed word reads back as its balanced residue. -/
lemma readInt_encodeInt_append (w : ℕ) (x : ℤ) (rest : List UInt8) :
    readInt w (encodeInt w x ++ rest) = some (x.bmod (2 ^ (8 * w)), rest) := by
  rw [encodeInt, readInt_encode_append, ofNat_toNat, setWidth_eq, toInt_ofInt]

/-- The low bytes of a signed word, read as a signed word of their own. -/
lemma readInt_encodeInt_low (a b : ℕ) (x : ℤ) (rest : List UInt8) :
    ∃ rest', readInt a (encodeInt (a + b) x ++ rest) = some (x.bmod (2 ^ (8 * a)), rest') := by
  have hdvd : ((2 : ℤ) ^ (8 * a)) ∣ 2 ^ (8 * (a + b)) := pow_dvd_pow _ (by omega)
  have hword : BitVec.ofNat (8 * a) (BitVec.ofInt (8 * (a + b)) x).toNat = BitVec.ofInt (8 * a) x := by
    apply eq_of_toNat_eq
    zify
    rw [toNat_ofNat, toNat_ofInt, toNat_ofInt]
    push_cast
    rw [Int.toNat_of_nonneg (Int.emod_nonneg _ (by positivity)),
      Int.toNat_of_nonneg (Int.emod_nonneg _ (by positivity)), Int.emod_emod_of_dvd _ hdvd]
  refine ⟨encode b ((BitVec.ofInt (8 * (a + b)) x).toNat / 256 ^ a) ++ rest, ?_⟩
  rw [encodeInt, encode_add, List.append_assoc, readInt_encode_append, hword, BitVec.toInt_ofInt]

lemma readsBack_readInt {w : ℕ} {x : ℤ} (hlo : -2 ^ (8 * w) ≤ 2 * x)
    (hhi : 2 * x < 2 ^ (8 * w)) : ReadsBack (readInt w) (encodeInt w x) x := by
  intro rest
  rw [readInt_encodeInt_append]
  congr 2
  apply Int.bmod_eq_of_le_mul_two
  · push_cast
    linarith
  · push_cast
    linarith

/-! ## Lists -/

variable {r : List UInt8 → Option (α × List UInt8)}

lemma length_readList {n : ℕ} :
    ∀ {data rest : List UInt8} {as : List α}, readList r n data = some (as, rest) → as.length = n := by
  induction n with
  | zero =>
    intro data rest as h
    obtain ⟨rfl, -⟩ := Prod.mk.inj (Option.some.inj h)
    rfl
  | succ n ih =>
    intro data rest as h
    rw [readList] at h
    split at h
    · cases h
    obtain ⟨⟨as', rest'⟩, hrest, heq⟩ := Option.map_eq_some_iff.mp h
    obtain ⟨rfl, -⟩ := Prod.mk.inj heq
    rw [length_cons, ih hrest]

lemma readsBack_readList (enc : α → List UInt8) {as : List α} (h : ∀ a ∈ as, ReadsBack r (enc a) a) :
    ReadsBack (readList r as.length) (as.flatMap enc) as := by
  induction as with
  | nil => exact fun rest => rfl
  | cons a as ih =>
    intro rest
    have hhead := h a (by simp) (as.flatMap enc ++ rest)
    have htail := ih (fun b hb => h b (by simp [hb])) rest
    simp only [List.flatMap_cons, List.append_assoc, List.length_cons, readList, hhead, htail, Option.map_some]

/-- The element at an index of a list of words of one width. -/
lemma read_drop_flatMap (w : ℕ) (f : α → ℕ) {as : List α} {i : ℕ} {a : α} (hi : as[i]? = some a)
    (hf : f a < 256 ^ w) : ∃ rest, read w ((as.flatMap fun a => encode w (f a)).drop (w * i)) = some (f a, rest) := by
  induction as generalizing i with
  | nil => simp at hi
  | cons b as ih =>
    cases i with
    | zero =>
      obtain rfl : b = a := by simpa using hi
      exact ⟨_, readsBack_read hf _⟩
    | succ i =>
      obtain ⟨rest, hrest⟩ := ih (by simpa using hi)
      refine ⟨rest, ?_⟩
      rw [flatMap_cons, Nat.mul_succ, Nat.add_comm, ← drop_drop, drop_left' (length_encode w _), hrest]

end LittleEndian
