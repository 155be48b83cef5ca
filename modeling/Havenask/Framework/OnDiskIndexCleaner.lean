import Mathlib.Data.Char
import Mathlib.Data.List.Lex
import Mathlib.Data.List.Sort
import Havenask.Framework.PathUtil

/-!
# The cleaner of an index root

`framework/cleaner/OnDiskIndexCleaner.cpp`: `Clean` works out which versions of the local index root
are still wanted, and removes every listed path that none of them needs.

What the file system answers is a `LocalRoot`: the names in the root, the versions that their files
hold, the recursive listing, and which paths are directories. What `Clean` does is the list of
`Removal`s that it asks for; an error of one of them ends the run, so that a run does a front part
of that list.

- **`Needed`** says which versions are live: reserved, held by a reader, or among the last local ones.
- A path is kept for its segment (`getSegmentId_of_inSegment`) or for its name
  (`fileVersionId_of_isVersionFile`).
- Files go first, directories afterwards, from the last to the first in the order of strings. A
  directory goes only if the least remaining path above it does not begin with it; strings with one
  beginning are neighbours in that order, so that no remaining path lies below it
  (`not_below_of_mem_removeDirs`).
-/

namespace Havenask.OnDiskIndexCleaner

open PathUtil List

/-! ## Model -/

/-- A version as the cleaner reads it: ids of type `versionid_t` and `segmentid_t`, those of its
segments being valid. -/
structure Version where
  versionId : ℤ
  segments : List ℤ
  versionId_lt : versionId < 2 ^ 31
  segments_range : ∀ segmentId ∈ segments, 0 ≤ segmentId ∧ segmentId < 2 ^ 31

/-- The members of an `OnDiskIndexCleaner` that `Clean` reads; of the readers in the container, the
on-disk versions of their tablet data. -/
structure Cleaner where
  keepVersionCountParam : ℕ
  readerVersions : List Version

variable (cleaner : Cleaner)

/-- `_keepVersionCount`: `INVALID_KEEP_VERSION_COUNT` stands for one. -/
def Cleaner.keepVersionCount : ℕ :=
  if cleaner.keepVersionCountParam = 2 ^ 32 - 1 then 1 else cleaner.keepVersionCountParam

/-- What the file system answers about the local index root. A version that cannot be loaded and a
path whose kind is unknown are errors. -/
structure LocalRoot where
  entries : List Path
  loadVersion : ℤ → Option Version
  allFileList : List Path
  isDir : Path → Option Bool

/-- A call of `RemoveFile` or of `RemoveDirectory`. -/
inductive Removal
  | file (path : Path)
  | dir (path : Path)
  deriving DecidableEq

/-- `versionId & PRIVATE_VERSION_ID_MASK`. -/
def isPrivate (versionId : ℤ) : Bool := versionId / 2 ^ 30 % 2 == 1

/-- `CollectVersionFromLocal`, with `VersionLoader::ListVersion`. -/
def collectVersionFromLocal (root : LocalRoot) : Option (List Version) :=
  let versionIds := (root.entries.filterMap versionFileVersionId).insertionSort (· ≤ ·)
  (versionIds.filter (!isPrivate ·)).mapM root.loadVersion

def versionVecToVersionSet (versionIds : List ℤ) : List ℤ := versionIds.filter (0 ≤ ·)

/-- The last `keepCount` versions and the reserved ones. -/
def reservedVersionIdSet (keepCount : ℕ) (reservedVersionIds : List ℤ) (versions : List Version) : List ℤ :=
  (versions.reverse.take keepCount).map Version.versionId ++
    (versions.map Version.versionId).filter (· ∈ reservedVersionIds)

/-- The versions that no reader holds. -/
def versionKeepedByCleaner (versionIds : List ℤ) (readerVersions : List Version) : List ℤ :=
  versionIds.filter fun versionId => readerVersions.all (·.versionId ≠ versionId)

/-- `keepSegments`: the segments of the readers, and those of the versions kept by the cleaner. -/
def keepSegments (readerVersions versions : List Version) (keeped : List ℤ) : List ℤ :=
  readerVersions.flatMap Version.segments ++ (versions.filter (·.versionId ∈ keeped)).flatMap Version.segments

/-- `keepVersions`: by the container and by the cleaner. -/
def keepVersions (readerVersions : List Version) (keeped : List ℤ) : List ℤ :=
  versionVecToVersionSet (readerVersions.map Version.versionId) ++ keeped

/-- `MergeKeepFiles` of no files. -/
def keepFiles : List Path := ["index_format_version".toList, "index_partition_meta".toList, "schema.json".toList]

/-- The directories below which everything is kept; the last is the fence of the realtime index. -/
def reservedDirs : List Path :=
  ["truncate_meta".toList, "adaptive_bitmap_meta".toList, "__FENCE__rt_index_partition".toList]

def getSegmentIdFromFilePath (path : Path) : ℤ :=
  match split path with
  | [] => invalidSegmentId
  | [first] => if isValidSegmentDirName first then getSegmentIdByDirName first else invalidSegmentId
  | first :: second :: _ =>
    if isValidSegmentDirName first then getSegmentIdByDirName first
    else if isValidSegmentDirName second then getSegmentIdByDirName second
    else invalidSegmentId

/-- The version that a file name carries, in the order in which `IsKeepedByVersion` tries. -/
def fileVersionId (fileName : Path) : Option ℤ :=
  (doneFileVersionId fileName).or
    ((versionFileVersionId fileName).or (entryTableVersionId fileName))

def isKeepedByVersion (path : Path) (keepVersions : List ℤ) : Bool :=
  match fileVersionId (getFileNameFromPath path) with
  | none => false
  | some versionId => versionId ≠ -1 && versionId ∈ keepVersions

/-- The text before the first delimiter, if there is one. -/
def firstDirName (path : Path) : Path :=
  if '/' ∈ path then path.takeWhile (· ≠ '/') else []

/-- Whether `ExtractSchemaIdBySchemaFile` finds a `schemaid_t`, which has no sign. -/
def isSchemaFile (path : Path) : Bool :=
  path = "schema.json".toList ||
    ("schema.json.".toList.isPrefixOf path && (fromStringUInt32 (path.drop 12)).isSome)

example : isSchemaFile "schema.json.3000000000".toList && !isSchemaFile "schema.json.-5".toList := by
  decide +kernel

def caculateNeedCleanFileList (allFileList : List Path) (keepSegments keepVersions : List ℤ) : List Path :=
  allFileList.filter fun path =>
    !(path ∈ keepFiles || isKeepedByVersion path keepVersions ||
      getSegmentIdFromFilePath path ∈ keepSegments || firstDirName path ∈ reservedDirs ||
      isSchemaFile path)

/-- `allFileSet.upper_bound(dir)`: the least path of the set above `dir`. -/
def upperBound (allFileSet : List Path) (dir : Path) : Option Path := (allFileSet.filter (dir < ·)).min?

/-- The loop over the directories, with the set of the paths that are left. -/
def removeDirs (allFileSet : List Path) : List Path → List Removal
  | [] => []
  | dir :: dirs =>
    if (upperBound allFileSet dir).any dir.isPrefixOf then removeDirs allFileSet dirs
    else .dir dir :: removeDirs (allFileSet.filter (· ≠ dir)) dirs

/-- `CleanFiles`: nothing is removed if the kind of a path is unknown. -/
def cleanFiles (root : LocalRoot) (needCleanFileList : List Path) : List Removal :=
  if needCleanFileList.any fun path => (root.isDir path).isNone then []
  else
    let files := needCleanFileList.filter fun path => root.isDir path = some false
    let dirs := needCleanFileList.filter fun path => root.isDir path = some true
    files.map .file ++ removeDirs (root.allFileList.filter (· ∉ files)) (dirs.insertionSort (· ≥ ·))

/-- `Clean`: what it asks the file system to remove, in order. -/
def clean (root : LocalRoot) (reservedVersions : List ℤ) : List Removal :=
  match collectVersionFromLocal root with
  | none => []
  | some versions =>
    let reservedVersionIds := versionVecToVersionSet reservedVersions
    if reservedVersionIds.all (· ∈ versionVecToVersionSet (versions.map Version.versionId)) then
      let keeped := versionKeepedByCleaner
        (reservedVersionIdSet cleaner.keepVersionCount reservedVersionIds versions)
        cleaner.readerVersions
      cleanFiles root (caculateNeedCleanFileList root.allFileList
        (keepSegments cleaner.readerVersions versions keeped)
        (keepVersions cleaner.readerVersions keeped))
    else []

/-! ## What has to stay -/

/-- The local public versions, in the order of their ids. -/
def localVersions (root : LocalRoot) : List Version := (collectVersionFromLocal root).getD []

/-- The removal takes the listed path: it names it, or it is of a directory that the path is below.
A directory may be listed with a delimiter at its end. -/
def Removal.Takes : Removal → Path → Prop
  | .file removed, path => trimLastDelim path = trimLastDelim removed
  | .dir removed, path =>
    trimLastDelim path = trimLastDelim removed ∨ trimLastDelim removed ++ ['/'] <+: path

/-- A live version: reserved and local, held by a reader, or among the last local public ones. -/
def Needed (root : LocalRoot) (reservedVersions : List ℤ) (version : Version) : Prop :=
  (version ∈ localVersions root ∧ 0 ≤ version.versionId ∧ version.versionId ∈ reservedVersions) ∨
    version ∈ cleaner.readerVersions ∨
    version ∈ (localVersions root).reverse.take cleaner.keepVersionCount

/-- A version that a reader holds is the one that the local file of that id holds. -/
def SameVersions (root : LocalRoot) : Prop :=
  ∀ version ∈ localVersions root, ∀ readerVersion ∈ cleaner.readerVersions,
    version.versionId = readerVersion.versionId → version.segments = readerVersion.segments

/-- The path lies in the directory of the segment: the first of its first two parts that has the
form of a segment directory name is a name of that segment. -/
def InSegment (path : Path) (segmentId : ℤ) : Prop :=
  ∃ levelIdx, ((split path).take 2).find? isValidSegmentDirName = some (newSegmentDirName segmentId levelIdx)

/-- The path is the version file or the entry table of the version. -/
def IsVersionFile (path : Path) (versionId : ℤ) : Prop :=
  getFileNameFromPath path = versionFileName versionId ∨ getFileNameFromPath path = entryTableName versionId

/-- The listed path is in a segment of the version, or is its version file or entry table. -/
def Uses (version : Version) (path : Path) : Prop :=
  (∃ segmentId ∈ version.segments, InSegment path segmentId) ∨
    (0 ≤ version.versionId ∧ IsVersionFile path version.versionId)

/-! ## Strings with one beginning are neighbours -/

/-- A string between `front` and a string that begins with it begins with it. -/
lemma isPrefix_of_lt_of_le {α : Type*} [LinearOrder α] {front upper path : List α}
    (hlt : front < upper) (hle : upper ≤ path) (hpath : front <+: path) : front <+: upper := by
  induction front generalizing upper path with
  | nil => exact nil_prefix
  | cons a front ih =>
    obtain ⟨rest, rfl⟩ := hpath
    cases upper with
    | nil => exact absurd hlt (by simp)
    | cons b upper =>
      have hnot : ¬ a :: (front ++ rest) < b :: upper := not_lt.mpr hle
      rcases cons_lt_cons_iff.mp hlt with hab | ⟨rfl, htail⟩
      · exact absurd (cons_lt_cons_iff.mpr (Or.inl hab)) hnot
      have htail' : upper ≤ front ++ rest := by
        refine not_lt.mp fun h => hnot ?_
        exact cons_lt_cons_iff.mpr (Or.inr ⟨rfl, h⟩)
      exact cons_prefix_cons.mpr ⟨rfl, ih htail htail' (prefix_append _ _)⟩

lemma lt_of_isPrefix_of_ne {front path : Path} (hpath : front <+: path) (hne : front ≠ path) : front < path := by
  obtain ⟨rest, rfl⟩ := hpath
  have hrest : rest ≠ [] := by
    rintro rfl
    exact hne (append_nil front).symm
  obtain ⟨c, tail, rfl⟩ := exists_cons_of_ne_nil hrest
  have happend : front ++ [] < front ++ c :: tail := append_left_lt (nil_lt_cons c tail)
  rwa [append_nil] at happend

variable {allFileSet : List Path}

/-- The test of the loop finds a path below the directory if there is one. -/
lemma upperBound_any {dir path : Path} (hmem : path ∈ allFileSet)
    (hpath : dir <+: path) (hne : dir ≠ path) : (upperBound allFileSet dir).any dir.isPrefixOf = true := by
  have hlt := lt_of_isPrefix_of_ne hpath hne
  have habove : path ∈ allFileSet.filter (dir < ·) := by simp [hmem, hlt]
  cases hupper : upperBound allFileSet dir with
  | none =>
    rw [upperBound, min?_eq_none_iff] at hupper
    rw [hupper] at habove
    exact absurd habove not_mem_nil
  | some upper =>
    obtain ⟨hmemUpper, hleast⟩ := min?_eq_some_iff.mp hupper
    have hdir : dir < upper := by simpa using (mem_filter.mp hmemUpper).2
    have hbegin := isPrefix_of_lt_of_le hdir (hleast path habove) hpath
    simpa using hbegin

/-- No path that stays lies below a directory that is removed: what the loop erases is on its
list. -/
lemma not_below_of_mem_removeDirs {dirs : List Path} {dir path : Path}
    (hdir : .dir dir ∈ removeDirs allFileSet dirs) (hmem : path ∈ allFileSet)
    (hstays : path ∉ dirs) : dir ∈ dirs ∧ ¬ dir <+: path := by
  induction dirs generalizing allFileSet with
  | nil => exact absurd hdir (by simp [removeDirs])
  | cons first dirs ih =>
    have hne : path ≠ first := fun h => hstays (by simp [h])
    have hstays' : path ∉ dirs := fun h => hstays (by simp [h])
    rw [removeDirs] at hdir
    split at hdir
    · have := ih hdir hmem hstays'
      exact ⟨mem_cons_of_mem _ this.1, this.2⟩
    rename_i hnone
    rcases mem_cons.mp hdir with heq | hlater
    · obtain rfl : dir = first := by simpa using heq
      refine ⟨mem_cons_self, fun hbelow => hnone ?_⟩
      exact upperBound_any hmem hbelow hne.symm
    · have := ih hlater (by simp [hmem, hne]) hstays'
      exact ⟨mem_cons_of_mem _ this.1, this.2⟩

lemma eq_dir_of_mem_removeDirs {dirs : List Path} {removal : Removal}
    (hmem : removal ∈ removeDirs allFileSet dirs) : ∃ dir, removal = .dir dir := by
  induction dirs generalizing allFileSet with
  | nil => exact absurd hmem (by simp [removeDirs])
  | cons first dirs ih =>
    rw [removeDirs] at hmem
    split at hmem
    · exact ih hmem
    rcases mem_cons.mp hmem with heq | hlater
    · exact ⟨first, heq⟩
    · exact ih hlater

/-! ## The kept paths -/

/-- The two parts of `getSegmentIdFromFilePath` are tried in order. -/
lemma getSegmentIdFromFilePath_eq (path : Path) : getSegmentIdFromFilePath path =
      (((split path).take 2).find? isValidSegmentDirName).elim invalidSegmentId getSegmentIdByDirName := by
  rw [getSegmentIdFromFilePath]
  split
  · rename_i hsplit
    simp [hsplit]
  · rename_i first hsplit
    by_cases hfirst : isValidSegmentDirName first = true
    · simp [hsplit, hfirst]
    · simp [hsplit, hfirst]
  rename_i first second rest hsplit
  by_cases hfirst : isValidSegmentDirName first = true
  · simp [hsplit, hfirst]
  by_cases hsecond : isValidSegmentDirName second = true
  · simp [hsplit, hfirst, hsecond]
  · simp [hsplit, hfirst, hsecond]

variable {path : Path} {version : Version}

lemma getSegmentId_of_inSegment {segmentId : ℤ} (hpath : InSegment path segmentId)
    (hid : 0 ≤ segmentId ∧ segmentId < 2 ^ 31) : getSegmentIdFromFilePath path = segmentId := by
  obtain ⟨levelIdx, hfind⟩ := hpath
  rw [getSegmentIdFromFilePath_eq, hfind]
  exact getSegmentIdByDirName_new hid.1 hid.2 levelIdx

lemma fileVersionId_of_isVersionFile {versionId : ℤ}
    (hpath : IsVersionFile path versionId) (hid : 0 ≤ versionId) (hlt : versionId < 2 ^ 31) :
    fileVersionId (getFileNameFromPath path) = some versionId := by
  rcases hpath with hname | hname
  · simp [fileVersionId, hname, doneFileVersionId_version hid, versionFileVersionId_version hid hlt]
  · simp [fileVersionId, hname, not_version_entryTable versionId, entryTableVersionId_entryTable hid hlt]

/-- A path in a kept segment, or of a kept version, is not on the list. -/
lemma not_mem_needClean {allFileList : List Path} {segmentIds versionIds : List ℤ} (huses : Uses version path)
    (hsegments : version.segments ⊆ segmentIds) (hversion : 0 ≤ version.versionId → version.versionId ∈ versionIds) :
    path ∉ caculateNeedCleanFileList allFileList segmentIds versionIds := by
  intro hmem
  have hkeep := (mem_filter.mp hmem).2
  simp only [Bool.not_eq_true', Bool.or_eq_false_iff, decide_eq_false_iff_not] at hkeep
  obtain ⟨⟨⟨⟨-, hversionFile⟩, hsegment⟩, -⟩, -⟩ := hkeep
  rcases huses with ⟨segmentId, hin, hpath⟩ | ⟨hid, hpath⟩
  · rw [getSegmentId_of_inSegment hpath (version.segments_range segmentId hin)] at hsegment
    exact hsegment (hsegments hin)
  rw [isKeepedByVersion, fileVersionId_of_isVersionFile hpath hid version.versionId_lt] at hversionFile
  have hne : version.versionId ≠ -1 := by omega
  simp [hne, hversion hid] at hversionFile

/-- A path is used as the path with or without its last delimiter is. -/
lemma uses_congr {path other : Path} (htrim : trimLastDelim path = trimLastDelim other) (huses : Uses version path) :
    Uses version other := by
  have hsplit : split path = split other := by
    rw [← split_trimLastDelim path, htrim, split_trimLastDelim]
  have hname : getFileNameFromPath path = getFileNameFromPath other := by
    rw [getFileNameFromPath, htrim, getFileNameFromPath]
  rcases huses with ⟨segmentId, hin, hpath⟩ | ⟨hid, hpath⟩
  · left
    refine ⟨segmentId, hin, ?_⟩
    rwa [InSegment, hsplit] at hpath
  right
  refine ⟨hid, ?_⟩
  rwa [IsVersionFile, hname] at hpath

/-- The cleaner keeps the segments of a version and, if it has one, its id. -/
def Kept (cleaner : Cleaner) (root : LocalRoot) (keeped : List ℤ) (version : Version) : Prop :=
  version.segments ⊆ keepSegments cleaner.readerVersions (localVersions root) keeped ∧
    (0 ≤ version.versionId → version.versionId ∈ keepVersions cleaner.readerVersions keeped)

/-- A live version is kept, by the container or by the cleaner. -/
lemma kept_of_needed {cleaner : Cleaner} {root : LocalRoot} {reservedVersions : List ℤ}
    (hneeded : Needed cleaner root reservedVersions version) (hsame : SameVersions cleaner root) {keeped : List ℤ}
    (hkeeped : keeped = versionKeepedByCleaner (reservedVersionIdSet cleaner.keepVersionCount
      (versionVecToVersionSet reservedVersions) (localVersions root)) cleaner.readerVersions) :
    Kept cleaner root keeped version := by
  have hreader : ∀ readerVersion ∈ cleaner.readerVersions, Kept cleaner root keeped readerVersion := by
    intro readerVersion hmem
    constructor
    · intro segmentId hsegment
      exact mem_append_left _ (mem_flatMap.mpr ⟨readerVersion, hmem, hsegment⟩)
    · intro hid
      refine mem_append_left _ (mem_filter.mpr ⟨?_, by simpa using hid⟩)
      exact mem_map.mpr ⟨readerVersion, hmem, rfl⟩
  -- a local version that is reserved or recent is kept by a reader of its id or else by the cleaner
  have hlocal : version ∈ localVersions root →
      version.versionId ∈ reservedVersionIdSet cleaner.keepVersionCount
        (versionVecToVersionSet reservedVersions) (localVersions root) → Kept cleaner root keeped version := by
    intro hmem hreserved
    by_cases hheld : ∃ readerVersion ∈ cleaner.readerVersions, readerVersion.versionId = version.versionId
    · obtain ⟨readerVersion, hreaderMem, hid⟩ := hheld
      rw [Kept, hsame version hmem readerVersion hreaderMem hid.symm, ← hid]
      exact hreader readerVersion hreaderMem
    have hin : version.versionId ∈ keeped := by
      rw [hkeeped]
      refine mem_filter.mpr ⟨hreserved, all_eq_true.mpr fun readerVersion hr => ?_⟩
      exact decide_eq_true fun h => hheld ⟨readerVersion, hr, h⟩
    constructor
    · intro segmentId hsegment
      refine mem_append_right _ (mem_flatMap.mpr ⟨version, ?_, hsegment⟩)
      exact mem_filter.mpr ⟨hmem, decide_eq_true hin⟩
    · intro _
      exact mem_append_right _ hin
  rcases hneeded with ⟨hmem, hid, hreserved⟩ | hmem | hmem
  · refine hlocal hmem (mem_append_right _ (mem_filter.mpr ⟨?_, decide_eq_true ?_⟩))
    · exact mem_map.mpr ⟨version, hmem, rfl⟩
    · exact mem_filter.mpr ⟨hreserved, decide_eq_true hid⟩
  · exact hreader version hmem
  · refine hlocal (mem_reverse.mp (mem_of_mem_take hmem)) ?_
    exact mem_append_left _ (mem_map.mpr ⟨version, hmem, rfl⟩)

/-! ## Runs -/

/-- What `cleanFiles` asks for takes no listed path that is used by a version whose paths are all
off the list. -/
lemma not_takes_of_mem_cleanFiles {root : LocalRoot} {needClean : List Path}
    (hoff : ∀ path, Uses version path → path ∉ needClean)
    (hlisted : path ∈ root.allFileList) (huses : Uses version path) {removal : Removal}
    (hmem : removal ∈ cleanFiles root needClean) : ¬ removal.Takes path := by
  rw [cleanFiles] at hmem
  split at hmem
  · exact absurd hmem not_mem_nil
  rcases mem_append.mp hmem with hfile | hdirs
  · obtain ⟨file, hfileMem, rfl⟩ := mem_map.mp hfile
    intro htakes
    exact hoff file (uses_congr htakes huses) (mem_filter.mp hfileMem).1
  obtain ⟨dir, rfl⟩ := eq_dir_of_mem_removeDirs hdirs
  have hleft : path ∉ needClean := hoff path huses
  have hstays : path ∈ root.allFileList.filter
      (· ∉ needClean.filter fun path => root.isDir path = some false) := by
    simp [hlisted, hleft]
  obtain ⟨hdir, hbelow⟩ := not_below_of_mem_removeDirs hdirs hstays (by simp [hleft])
  have hdirMem : dir ∈ needClean := by
    rw [mem_insertionSort] at hdir
    exact (mem_filter.mp hdir).1
  rintro (hsame | hinside)
  · exact hoff dir (uses_congr hsame huses) hdirMem
  -- with or without its delimiter the directory is the beginning of what is below it
  rcases eq_trimLastDelim_or dir with hdir' | hdir'
  · rw [← hdir'] at hinside
    exact hbelow ((prefix_append dir ['/']).trans hinside)
  · rw [← hdir'] at hinside
    exact hbelow hinside

/-- Cleaning removes nothing that a live version needs. Whatever part of a run is done, each listed
path in a segment of a live version is left, and so are the version file and the entry table of that
version; the directories that go have none of them below. If a reserved version is not local, nothing
is removed. -/
theorem clean_keeps_needed (root : LocalRoot) (reservedVersions : List ℤ)
    (hsame : SameVersions cleaner root) {done : List Removal} (hdone : done <+: clean cleaner root reservedVersions) :
    (∀ version, Needed cleaner root reservedVersions version →
      ∀ path ∈ root.allFileList, Uses version path → ∀ removal ∈ done, ¬ removal.Takes path) ∧
    ((∃ versionId ∈ reservedVersions, 0 ≤ versionId ∧
      ∀ version ∈ localVersions root, version.versionId ≠ versionId) → done = []) := by
  cases hversions : collectVersionFromLocal root with
  | none =>
    have hnil : done = [] := by
      simpa [clean, hversions] using hdone
    exact ⟨by simp [hnil], fun _ => hnil⟩
  | some versions =>
    have hlocal : localVersions root = versions := by simp [localVersions, hversions]
    simp only [clean, hversions] at hdone
    split at hdone
    · rename_i hall
      constructor
      · intro version hneeded path hlisted huses removal hmem
        obtain ⟨hsegments, hversion⟩ := kept_of_needed hneeded hsame rfl
        rw [hlocal] at hsegments hversion
        exact not_takes_of_mem_cleanFiles
          (fun other hother => not_mem_needClean hother hsegments hversion) hlisted huses
          (hdone.subset hmem)
      · rintro ⟨versionId, hreserved, hid, habsent⟩
        have hin := all_eq_true.mp hall versionId (mem_filter.mpr ⟨hreserved, decide_eq_true hid⟩)
        have hin' := (mem_filter.mp (of_decide_eq_true hin)).1
        obtain ⟨version, hmem, heq⟩ := mem_map.mp hin'
        exact absurd heq (habsent version (hlocal ▸ hmem))
    · have hnil : done = [] := prefix_nil.mp hdone
      exact ⟨by simp [hnil], fun _ => hnil⟩

/-- Version 0 has segment 1. -/
def versionZero : Version where
  versionId := 0
  segments := [1]
  versionId_lt := by decide
  segments_range := by decide

/-- A cleaner that keeps one version, with one reader. -/
def oneReader : Cleaner where
  keepVersionCountParam := 1
  readerVersions := [versionZero]

/-- A root with version 0 and a listing; the directories end in a delimiter. -/
def rootListing (allFileList : List String) : LocalRoot where
  entries := ["version.0".toList]
  loadVersion := fun _ => some versionZero
  allFileList := allFileList.map String.toList
  isDir := fun path => some (path.getLast? == some '/')

/-- An old segment next to the segment of version 0. -/
def twoSegments : LocalRoot :=
  rootListing ["segment_0_level_0/", "segment_0_level_0/data", "segment_1_level_0/",
    "segment_1_level_0/data", "version.0"]

/-- The segment of the reader's version stays, the old one goes. -/
theorem clean_keeps_needed_reader :
    clean oneReader twoSegments [0] = [.file "segment_0_level_0/data".toList, .dir "segment_0_level_0/".toList] ∧
      ∀ removal ∈ clean oneReader twoSegments [0], ¬ removal.Takes "segment_1_level_0/data".toList := by
  refine ⟨by decide +kernel, ?_⟩
  have hlocal : localVersions twoSegments = [versionZero] := rfl
  have hsame : SameVersions oneReader twoSegments := by
    intro version hversion readerVersion hreader _
    rw [hlocal, mem_singleton] at hversion
    rw [hversion, mem_singleton.mp hreader]
  refine (clean_keeps_needed oneReader twoSegments [0] hsame (prefix_refl _)).1 versionZero
    (Or.inr (Or.inl (mem_singleton.mpr rfl))) _ (by decide) (Or.inl ⟨1, by decide, 0, ?_⟩)
  decide +kernel

/-- What is removed although a version seems to need it: the second part of a path does not count below the
directory of another segment; a reserved id below 0 names no version, so that its absence stops nothing; and where a
reader holds another version under the id of a local one, the segments of the local one go. -/
theorem clean_removes_nested :
    (newSegmentDirName 1 0 ∈ (split "segment_5_level_0/segment_1_level_0/data".toList).take 2 ∧
      Removal.file "segment_5_level_0/segment_1_level_0/data".toList ∈
        clean oneReader (rootListing ["segment_5_level_0/", "segment_5_level_0/segment_1_level_0/",
          "segment_5_level_0/segment_1_level_0/data", "version.0"]) [0]) ∧
      Removal.file "segment_0_level_0/data".toList ∈ clean oneReader twoSegments [-1] ∧
      Removal.file "segment_1_level_0/data".toList ∈
        clean ⟨1, [⟨0, [2], by decide, by decide⟩]⟩ twoSegments [0] := by
  decide +kernel

end Havenask.OnDiskIndexCleaner
