import Mathlib.Data.List.Basic
import Mathlib.Data.Nat.Digits.Defs

/-!
# Names of files and directories below an index root

The paths that a directory listing gives, and the names that carry a number: a segment directory
`segment_<id>_level_<level>` (`base/PathUtil`), a version file `version.<id>` with its done file
`version.<id>.done` (`VersionLoader`, `VersionDeployDescription`), an entry table
`entry_table.<id>`. A path is a list of characters.

- **Reading.** `strToInt32` is `strtol` with a range check; a name is recognised by its fixed text
  and by what `strToInt32` makes of the rest.
- **Reading back.** What `newSegmentDirName`, `versionFileName` and `entryTableName` print is
  recognised, and the number read is the one printed.
-/

namespace Havenask.PathUtil

open List Nat

/-- A path, or one name in it. -/
abbrev Path := List Char

/-! ## Numbers in names -/

/-- `isspace` in the C locale. -/
def isSpace (c : Char) : Bool := c.toNat == 32 || (9 ≤ c.toNat && c.toNat ≤ 13)

/-- `strtol(str, &endPtr, 10)`: the number and the text from `endPtr` on. -/
def strtol (str : Path) : ℤ × Path :=
  let text := str.dropWhile isSpace
  let signed : Bool × Path := match text with
    | '-' :: rest => (true, rest)
    | '+' :: rest => (false, rest)
    | _ => (false, text)
  let digits := signed.2.takeWhile Char.isDigit
  -- without a digit nothing is read, not even the sign
  if digits = [] then (0, str)
  else
    let value : ℤ := Nat.ofDigitChars 10 digits 0
    (if signed.1 then -value else value, signed.2.dropWhile Char.isDigit)

/-- `StringUtil::strToInt32`: the number assigned, if one is, and whether all of the text is it. -/
def strToInt32 (str : Path) : Option (ℤ × Bool) :=
  if str = [] then none
  else if (strtol str).1 < -2 ^ 31 ∨ 2 ^ 31 - 1 < (strtol str).1 then none
  else some ((strtol str).1, decide ((strtol str).2 = []))

/-- `StringUtil::fromString` for an `int32_t` whose result is checked. -/
def fromString (str : Path) : Option ℤ :=
  match strToInt32 str with
  | some (value, true) => some value
  | _ => none

/-- `StringUtil::fromString` for a `uint32_t`. `strtoul` reads what `strtol` reads, and takes the negative of a
number modulo `2 ^ 64`; only a sign in front of everything is refused. -/
def fromStringUInt32 (str : Path) : Option ℤ :=
  if str = [] ∨ str.head? = some '-' then none
  else
    let (value, rest) := strtol str
    if value.natAbs < 2 ^ 64 ∧ value % 2 ^ 64 < 2 ^ 32 ∧ rest = [] then some (value % 2 ^ 64) else none

/-- `std::to_string` of an integer. -/
def decimal (value : ℤ) : Path :=
  if value < 0 then '-' :: Nat.toDigits 10 value.natAbs else Nat.toDigits 10 value.natAbs

/-! ## Parts of a path -/

/-- The loop of `StringUtil::split`: `current` is the text since the last separator. -/
def splitFrom (current : Path) : Path → List Path
  | [] => if current = [] then [] else [current]
  | c :: rest =>
    if c = '/' then
      if current = [] then splitFrom [] rest else current :: splitFrom [] rest
    else splitFrom (current ++ [c]) rest

variable (path : Path)

/-- `StringUtil::split(_, path, "/")`, which leaves out empty parts. -/
def split : List Path := splitFrom [] path

def trimLastDelim : Path :=
  if path.getLast? = some '/' then path.dropLast else path

def getFileNameFromPath : Path := ((trimLastDelim path).reverse.takeWhile (· ≠ '/')).reverse

/-! ## Segment directories -/

/-- `SEGMENT_FILE_NAME_PREFIX` and the underscore after it. -/
def segmentHead : Path := "segment_".toList

/-- The text between the two numbers of a segment directory name. -/
def levelMark : Path := "_level_".toList

def newSegmentDirName (segmentId : ℤ) (levelIdx : ℕ) : Path :=
  segmentHead ++ decimal segmentId ++ levelMark ++ Nat.toDigits 10 levelIdx

/-- `IsValidSegmentDirName`: the pattern `^segment_[0-9]+_level_[0-9]+$`. -/
def isValidSegmentDirName (name : Path) : Bool :=
  segmentHead.isPrefixOf name &&
    (let rest := name.drop segmentHead.length
     rest.takeWhile Char.isDigit ≠ [] &&
      (let tail := rest.dropWhile Char.isDigit
       levelMark.isPrefixOf tail && tail.drop levelMark.length ≠ [] &&
        (tail.drop levelMark.length).all Char.isDigit))

/-- `INVALID_SEGMENTID`. -/
def invalidSegmentId : ℤ := -1

/-- `GetSegmentIdByDirName`; a number that does not fit leaves the default 0. -/
def getSegmentIdByDirName (name : Path) : ℤ :=
  if name.length ≤ segmentHead.length ∨ name.take segmentHead.length ≠ segmentHead then
    invalidSegmentId
  else
    match strToInt32 (name.drop segmentHead.length) with
    | some (value, _) => value
    | none => 0

/-! ## Version files and entry tables -/

/-- `VERSION_FILE_NAME_PREFIX` with the separator, also `DONE_FILE_NAME_PREFIX`. -/
def versionHead : Path := "version.".toList

/-- `DONE_FILE_NAME_SUFFIX`. -/
def doneTail : Path := ".done".toList

/-- `ENTRY_TABLE_FILE_NAME_PREFIX` and the dot after it. -/
def entryTableHead : Path := "entry_table.".toList

/-- `PathUtil::GetVersionFileName`. -/
def versionFileName (versionId : ℤ) : Path := versionHead ++ decimal versionId

def entryTableName (versionId : ℤ) : Path := entryTableHead ++ decimal versionId

/-- `VersionDeployDescription::ExtractVersionId`. -/
def doneFileVersionId (fileName : Path) : Option ℤ :=
  if fileName.length ≤ versionHead.length + doneTail.length then none
  else if versionHead.isPrefixOf fileName && doneTail.isSuffixOf fileName then
    fromString ((fileName.drop versionHead.length).take
      (fileName.length - versionHead.length - doneTail.length))
  else none

/-- `VersionLoader::IsValidVersionFileName` and, if it is one, `VersionLoader::GetVersionId`. -/
def versionFileVersionId (fileName : Path) : Option ℤ :=
  if versionHead.isPrefixOf fileName then fromString (fileName.drop versionHead.length) else none

/-- `EntryTable::ExtractVersionId`. -/
def entryTableVersionId (fileName : Path) : Option ℤ :=
  if fileName.length ≤ entryTableHead.length then none
  else if entryTableHead.isPrefixOf fileName then
    fromString (fileName.drop entryTableHead.length)
  else none

/-! ## What is printed is read back -/

/-- Text that no number can run on into. -/
def EndsNumber (rest : Path) : Prop := ∀ c ∈ rest.head?, c.isDigit = false

lemma isDigit_of_mem_toDigits {n : ℕ} {c : Char} (hc : c ∈ toDigits 10 n) : c.isDigit = true :=
  Nat.isDigit_of_mem_toDigits (by decide) (by decide) hc

variable {rest : Path} {versionId : ℤ}

lemma takeWhile_toDigits (n : ℕ) (hrest : EndsNumber rest) :
    (toDigits 10 n ++ rest).takeWhile Char.isDigit = toDigits 10 n := by
  rw [takeWhile_append_of_pos fun c hc => isDigit_of_mem_toDigits hc]
  cases rest with
  | nil => simp
  | cons c rest =>
    have hc : c.isDigit = false := hrest c rfl
    simp [hc]

lemma dropWhile_toDigits (n : ℕ) (hrest : EndsNumber rest) :
    (toDigits 10 n ++ rest).dropWhile Char.isDigit = rest := by
  rw [dropWhile_append_of_pos fun c hc => isDigit_of_mem_toDigits hc]
  cases rest with
  | nil => simp
  | cons c rest =>
    have hc : c.isDigit = false := hrest c rfl
    simp [hc]

lemma not_isSpace_of_isDigit {c : Char} (hc : c.isDigit = true) : isSpace c = false ∧ c ≠ '-' ∧ c ≠ '+' := by
  have hrange : 48 ≤ c.toNat ∧ c.toNat ≤ 57 := by
    simp only [Char.isDigit, Bool.and_eq_true, decide_eq_true_eq] at hc
    exact ⟨UInt32.le_iff_toNat_le.mp hc.1, UInt32.le_iff_toNat_le.mp hc.2⟩
  refine ⟨?_, ?_, ?_⟩
  · simp only [isSpace, Bool.or_eq_false_iff, beq_eq_false_iff_ne, Bool.and_eq_false_imp,
      decide_eq_true_eq, decide_eq_false_iff_not]
    omega
  · rintro rfl
    exact absurd hrange.1 (by decide)
  · rintro rfl
    exact absurd hrange.1 (by decide)

lemma strtol_toDigits (n : ℕ) (hrest : EndsNumber rest) : strtol (toDigits 10 n ++ rest) = ((n : ℤ), rest) := by
  have htake := takeWhile_toDigits n hrest
  have hdrop := dropWhile_toDigits n hrest
  have hvalue : ofDigitChars 10 (toDigits 10 n) 0 = n := ofDigitChars_toDigits (by decide) (by decide)
  cases hdigits : toDigits 10 n with
  | nil => exact absurd hdigits toDigits_ne_nil
  | cons c tail =>
    have hc : c.isDigit = true := isDigit_of_mem_toDigits (n := n) (by simp [hdigits])
    obtain ⟨hspace, hminus, hplus⟩ := not_isSpace_of_isDigit hc
    rw [hdigits] at htake hdrop hvalue
    rw [cons_append] at htake hdrop ⊢
    have htext : (c :: (tail ++ rest)).dropWhile isSpace = c :: (tail ++ rest) := by
      simp [hspace]
    have hsigned : (match c :: (tail ++ rest) with
        | '-' :: rest => (true, rest)
        | '+' :: rest => (false, rest)
        | _ => (false, c :: (tail ++ rest)) : Bool × Path) = (false, c :: (tail ++ rest)) := by
      split
      · rename_i heq
        exact absurd (cons.inj heq).1 hminus
      · rename_i heq
        exact absurd (cons.inj heq).1 hplus
      · rfl
    simp only [strtol, htext, hsigned, htake, hdrop, hvalue]
    simp

lemma strToInt32_toDigits {n : ℕ} (hn : n < 2 ^ 31) (hrest : EndsNumber rest) :
    strToInt32 (toDigits 10 n ++ rest) = some ((n : ℤ), decide (rest = [])) := by
  have hne : toDigits 10 n ++ rest ≠ [] := by simp
  rw [strToInt32, if_neg hne, strtol_toDigits n hrest, if_neg (by dsimp only; omega)]

lemma decimal_of_nonneg {value : ℤ} (hvalue : 0 ≤ value) : decimal value = toDigits 10 value.toNat := by
  have hnat : value.natAbs = value.toNat := by omega
  rw [decimal, if_neg (by omega), hnat]

lemma strToInt32_decimal {value : ℤ} (hvalue : 0 ≤ value) (hlt : value < 2 ^ 31) (hrest : EndsNumber rest) :
    strToInt32 (decimal value ++ rest) = some (value, decide (rest = [])) := by
  rw [decimal_of_nonneg hvalue, strToInt32_toDigits (by omega) hrest, Int.toNat_of_nonneg hvalue]

lemma fromString_decimal {value : ℤ} (hvalue : 0 ≤ value) (hlt : value < 2 ^ 31) :
    fromString (decimal value) = some value := by
  have hread := strToInt32_decimal hvalue hlt (by simp [EndsNumber] : EndsNumber [])
  rw [append_nil] at hread
  simp [fromString, hread]

lemma endsNumber_levelMark (rest : Path) : EndsNumber (levelMark ++ rest) := by
  intro c hc
  have hhead : c = '_' := by
    have : (levelMark ++ rest).head? = some '_' := rfl
    rw [this] at hc
    exact (Option.some.inj hc).symm
  rw [hhead]
  rfl

lemma newSegmentDirName_eq (segmentId : ℤ) (levelIdx : ℕ) : newSegmentDirName segmentId levelIdx =
      segmentHead ++ (decimal segmentId ++ (levelMark ++ toDigits 10 levelIdx)) := by
  simp [newSegmentDirName]

lemma getSegmentIdByDirName_new {segmentId : ℤ} (hid : 0 ≤ segmentId) (hlt : segmentId < 2 ^ 31) (levelIdx : ℕ) :
    getSegmentIdByDirName (newSegmentDirName segmentId levelIdx) = segmentId := by
  have hread := strToInt32_decimal hid hlt (endsNumber_levelMark (toDigits 10 levelIdx))
  have hlong : ¬ (newSegmentDirName segmentId levelIdx).length ≤ segmentHead.length := by
    have hmark : levelMark.length = 7 := rfl
    simp only [newSegmentDirName_eq, length_append, hmark]
    omega
  rw [getSegmentIdByDirName, if_neg, newSegmentDirName_eq, drop_left, hread]
  rintro (hshort | hhead)
  · exact hlong hshort
  · exact hhead (by rw [newSegmentDirName_eq, take_left])

/-- A version file is no done file: it ends in a digit. -/
lemma doneFileVersionId_version (hid : 0 ≤ versionId) : doneFileVersionId (versionFileName versionId) = none := by
  have hlast : ∀ c ∈ (versionFileName versionId).getLast?, c.isDigit = true := by
    intro c hc
    rw [versionFileName, decimal_of_nonneg hid, getLast?_append_of_ne_nil _ toDigits_ne_nil] at hc
    exact isDigit_of_mem_toDigits (mem_of_getLast? hc)
  have hdone : doneTail.isSuffixOf (versionFileName versionId) = false := by
    rw [Bool.eq_false_iff, ne_eq, isSuffixOf_iff_suffix]
    rintro ⟨front, hfront⟩
    have he : (versionFileName versionId).getLast? = some 'e' := by
      rw [← hfront, getLast?_append_of_ne_nil _ (by decide)]
      rfl
    exact absurd (hlast 'e' he) (by decide)
  rw [doneFileVersionId]
  split
  · rfl
  · simp [hdone]

lemma versionFileVersionId_version (hid : 0 ≤ versionId) (hlt : versionId < 2 ^ 31) :
    versionFileVersionId (versionFileName versionId) = some versionId := by
  rw [versionFileVersionId, versionFileName, if_pos (by simp), drop_left, fromString_decimal hid hlt]

lemma not_version_entryTable (versionId : ℤ) :
    doneFileVersionId (entryTableName versionId) = none ∧ versionFileVersionId (entryTableName versionId) = none := by
  have hhead : versionHead.isPrefixOf (entryTableName versionId) = false := rfl
  constructor
  · rw [doneFileVersionId]
    split
    · rfl
    · simp [hhead]
  · simp [versionFileVersionId, hhead]

lemma entryTableVersionId_entryTable (hid : 0 ≤ versionId) (hlt : versionId < 2 ^ 31) :
    entryTableVersionId (entryTableName versionId) = some versionId := by
  have hlong : ¬ (entryTableName versionId).length ≤ entryTableHead.length := by
    rw [entryTableName, decimal_of_nonneg hid, length_append]
    have := length_pos_of_ne_nil (toDigits_ne_nil (n := versionId.toNat) (b := 10))
    omega
  rw [entryTableVersionId, if_neg hlong, entryTableName, if_pos (by simp), drop_left, fromString_decimal hid hlt]

/-! ## A directory with and without its last delimiter -/

lemma splitFrom_append_delim (current path : Path) : splitFrom current (path ++ ['/']) = splitFrom current path := by
  induction path generalizing current with
  | nil =>
    by_cases hcurrent : current = []
    · simp [splitFrom, hcurrent]
    · simp [splitFrom, hcurrent]
  | cons c path ih =>
    simp only [cons_append, splitFrom, ih]

lemma eq_trimLastDelim_or : path = trimLastDelim path ∨ path = trimLastDelim path ++ ['/'] := by
  rw [trimLastDelim]
  split
  · rename_i hlast
    right
    exact (dropLast_append_getLast? '/' hlast).symm
  · exact Or.inl rfl

/-- The parts of a path do not depend on a delimiter at its end. -/
lemma split_trimLastDelim : split (trimLastDelim path) = split path := by
  rcases eq_trimLastDelim_or path with h | h
  · rw [← h]
  have hsplit : split (trimLastDelim path ++ ['/']) = split (trimLastDelim path) :=
    splitFrom_append_delim [] (trimLastDelim path)
  rw [← h] at hsplit
  exact hsplit.symm

end Havenask.PathUtil
