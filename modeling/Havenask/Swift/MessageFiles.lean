import Havenask.Swift.MergedMessage

/-!
# The files of a partition

`swift/common/FileMessageMeta.h` and `swift/broker/storage_dfs/FileManager.cpp`: messages are stored in pairs of
files.  The data file has the data of the messages one after the other, the meta file has an entry of 16
bytes for each of them, with the position where its data end.

* **`Holds`**: a pair of files has the messages up to some id, and **`Holds.stored`**: then they can be read.
* **`Covers`**: the pairs of a partition have all messages that are committed.
* **`Covers.stored`**: the pair that `getFilePairById` selects has the message.
-/

namespace Havenask.Swift

open List LittleEndian

open LittleEndian (ReadsBack)

/-! ## Entries of the meta file -/

structure FileMessageMeta where
  timestamp : ℕ
  endPos : ℕ
  isMerged : Bool
  isCompress : Bool
  maskPayload : UInt8
  payload : UInt16
deriving DecidableEq

namespace FileMessageMeta

variable (entry : FileMessageMeta)

/-- The second word of an entry: 38 bits for the end, two flags, 8 and 16 bits for the payloads. -/
def word : ℕ :=
  entry.endPos % 2 ^ 38 + (if entry.isMerged then 2 ^ 38 else 0) + (if entry.isCompress then 2 ^ 39 else 0)
    + entry.maskPayload.toNat * 2 ^ 40 + entry.payload.toNat * 2 ^ 48

/-- An entry in memory; `msgLenHighPart`, the high bits of the first word, is 0 in files. -/
def bytes : Bytes :=
  LittleEndian.encode 8 (entry.timestamp % 2 ^ 52) ++ LittleEndian.encode 8 entry.word

def ofWords (first second : ℕ) : FileMessageMeta where
  timestamp := first % 2 ^ 52
  endPos := second % 2 ^ 38
  isMerged := decide (second / 2 ^ 38 % 2 = 1)
  isCompress := decide (second / 2 ^ 39 % 2 = 1)
  maskPayload := UInt8.ofNat (second / 2 ^ 40)
  payload := UInt16.ofNat (second / 2 ^ 48)

/-- `fromBuf`. -/
def read (data : Bytes) : Option FileMessageMeta :=
  match LittleEndian.read 8 data with
  | none => none
  | some (first, rest) => (LittleEndian.read 8 rest).map fun (second, _) => ofWords first second

lemma length_bytes : entry.bytes.length = 16 := by
  rw [bytes, length_append, length_encode, length_encode]

lemma word_lt : entry.word < 2 ^ 64 := by
  have hmask := entry.maskPayload.toNat_lt
  have hpayload := entry.payload.toNat_lt
  rw [word]
  split <;> split <;> omega

lemma ofWords_word {entry : FileMessageMeta} (htime : entry.timestamp < 2 ^ 52)
    (hend : entry.endPos < 2 ^ 38) : ofWords (entry.timestamp % 2 ^ 52) entry.word = entry := by
  obtain ⟨timestamp, endPos, isMerged, isCompress, maskPayload, payload⟩ := entry
  have hmask := maskPayload.toNat_lt
  have hpayload := payload.toNat_lt
  dsimp only at htime hend
  -- the flags as numbers
  obtain ⟨merged, hmerged⟩ : ∃ n, n = if isMerged then 1 else 0 := ⟨_, rfl⟩
  obtain ⟨compress, hcompress⟩ : ∃ n, n = if isCompress then 1 else 0 := ⟨_, rfl⟩
  have hword : word ⟨timestamp, endPos, isMerged, isCompress, maskPayload, payload⟩
      = endPos + merged * 2 ^ 38 + compress * 2 ^ 39 + maskPayload.toNat * 2 ^ 40
        + payload.toNat * 2 ^ 48 := by
    rw [word, hmerged, hcompress]
    dsimp only
    split <;> split <;> omega
  have hmerged' : merged < 2 ∧ (decide (merged = 1) = isMerged) := by
    rw [hmerged]
    cases isMerged <;> simp
  have hcompress' : compress < 2 ∧ (decide (compress = 1) = isCompress) := by
    rw [hcompress]
    cases isCompress <;> simp
  rw [hword, ofWords, mk.injEq]
  dsimp only
  refine ⟨by omega, by omega, ?_, ?_, ?_, ?_⟩
  · rw [← hmerged'.2]
    congr 1
    exact propext ⟨fun h => by omega, fun h => by omega⟩
  · rw [← hcompress'.2]
    congr 1
    exact propext ⟨fun h => by omega, fun h => by omega⟩
  · rw [← UInt8.toNat_inj, UInt8.toNat_ofNat']
    omega
  · rw [← UInt16.toNat_inj, UInt16.toNat_ofNat']
    omega

lemma read_bytes_append {entry : FileMessageMeta} (htime : entry.timestamp < 2 ^ 52)
    (hend : entry.endPos < 2 ^ 38) (rest : Bytes) : read (entry.bytes ++ rest) = some entry := by
  rw [read, bytes, append_assoc, read_encode_append]
  dsimp only
  rw [read_encode_append, Option.map_some]
  rw [Nat.mod_eq_of_lt (show entry.timestamp % 2 ^ 52 < 256 ^ 8 by norm_num; omega),
    Nat.mod_eq_of_lt (entry.word_lt.trans_eq (by norm_num)), ofWords_word htime hend]

end FileMessageMeta

/-- `MessageAdapter::fillMeta`, with the position where the data end. -/
def fillMeta (msg : Message) (endPos : ℕ) : FileMessageMeta :=
  ⟨(msg.timestamp % 2 ^ 52).toNat, endPos, msg.merged, msg.compress, msg.uint8MaskPayload, msg.uint16Payload⟩

/-- The data of messages, one after the other. -/
def fileData (msgs : List Message) : Bytes := msgs.flatMap Message.data

/-- The entries of messages whose data start at a position. -/
def fileMetas : ℕ → List Message → Bytes
  | _, [] => []
  | start, msg :: msgs =>
    (fillMeta msg (start + msg.data.length)).bytes ++ fileMetas (start + msg.data.length) msgs

lemma fileData_append (msgs msgs' : List Message) : fileData (msgs ++ msgs') = fileData msgs ++ fileData msgs' :=
  flatMap_append

lemma fileMetas_append (msgs msgs' : List Message) : ∀ start, fileMetas start (msgs ++ msgs')
    = fileMetas start msgs ++ fileMetas (start + (fileData msgs).length) msgs' := by
  induction msgs with
  | nil => exact fun start => rfl
  | cons msg msgs ih =>
    intro start
    rw [cons_append, fileMetas, fileMetas, ih, append_assoc]
    congr 3
    rw [show msg :: msgs = [msg] ++ msgs from rfl, fileData_append, length_append]
    simp only [fileData, flatMap_singleton]
    omega

lemma length_fileMetas (msgs : List Message) : ∀ start, (fileMetas start msgs).length = 16 * msgs.length := by
  induction msgs with
  | nil => exact fun _ => rfl
  | cons msg msgs ih =>
    intro start
    rw [fileMetas, length_append, ih, FileMessageMeta.length_bytes, length_cons]
    omega

/-! ## A pair of files -/

structure FilePair where
  beginMessageId : ℤ
  beginTimestamp : ℤ
  endMessageId : ℤ
  dataFile : Bytes
  metaFile : Bytes

namespace FilePair

def entry (pair : FilePair) (position : ℕ) : Option FileMessageMeta :=
  FileMessageMeta.read (pair.metaFile.drop (16 * position))

/-- The entry at a position, and the bytes between the end of the entry before it and its own. -/
def stored (pair : FilePair) (position : ℕ) : Option (FileMessageMeta × Bytes) :=
  match pair.entry position, if position = 0 then some 0 else (pair.entry (position - 1)).map (·.endPos) with
  | some entry, some start => some (entry, (pair.dataFile.drop start).take (entry.endPos - start))
  | _, _ => none

end FilePair

/-- The timestamps and sizes that fit the fields of an entry. -/
def Fits (msg : Message) : Prop := 0 ≤ msg.timestamp ∧ msg.timestamp < 2 ^ 52

section
variable {pair : FilePair} {before behind : List Message} {msg : Message}

lemma entry_of_prefix (hmeta : fileMetas 0 (before ++ msg :: behind) <+: pair.metaFile) (hfits : Fits msg)
    (hsize : (fileData (before ++ [msg])).length < 2 ^ 38) :
    pair.entry before.length = some (fillMeta msg (fileData (before ++ [msg])).length) := by
  obtain ⟨rest, hrest⟩ := hmeta
  have hend : 0 + (fileData before).length + msg.data.length = (fileData (before ++ [msg])).length := by
    rw [fileData_append, length_append]
    simp [fileData]
  rw [FilePair.entry, ← hrest, fileMetas_append, fileMetas, hend, append_assoc,
    ← length_fileMetas before 0, drop_left, append_assoc]
  refine FileMessageMeta.read_bytes_append ?_ hsize _
  have hlow := hfits.1
  have hhigh := hfits.2
  rw [fillMeta]
  dsimp only
  omega

/-- Files that begin with the entries and the data of messages have each of them. -/
lemma stored_of_prefix (hmeta : fileMetas 0 (before ++ msg :: behind) <+: pair.metaFile)
    (hdata : fileData (before ++ msg :: behind) <+: pair.dataFile)
    (hfits : ∀ msg' ∈ before ++ msg :: behind, Fits msg')
    (hsize : (fileData (before ++ msg :: behind)).length < 2 ^ 38) :
    pair.stored before.length = some (fillMeta msg (fileData (before ++ [msg])).length, msg.data) := by
  have hsize' : (fileData (before ++ [msg])).length < 2 ^ 38 := by
    rw [append_cons, fileData_append, length_append] at hsize
    omega
  have hprevious : (if before.length = 0 then some 0
      else (pair.entry (before.length - 1)).map (·.endPos)) = some (fileData before).length := by
    rcases eq_nil_or_concat before with rfl | ⟨before', last, rfl⟩
    · rfl
    rw [concat_eq_append] at *
    rw [append_assoc, singleton_append] at hmeta
    rw [fileData_append, length_append] at hsize'
    rw [if_neg (by simp), length_append, length_singleton, Nat.add_sub_cancel,
      entry_of_prefix hmeta (hfits last (by simp)) (by omega)]
    rfl
  rw [FilePair.stored, entry_of_prefix hmeta (hfits msg (by simp)) hsize', hprevious]
  dsimp only
  obtain ⟨rest, hrest⟩ := hdata
  have hlength : (fillMeta msg (fileData (before ++ [msg])).length).endPos - (fileData before).length
      = msg.data.length := by
    rw [fillMeta, fileData_append, length_append]
    simp [fileData]
  have hfile : pair.dataFile = fileData before ++ (msg.data ++ (fileData behind ++ rest)) := by
    rw [← hrest, fileData_append, show fileData (msg :: behind) = msg.data ++ fileData behind from
      flatMap_cons, append_assoc, append_assoc]
  rw [hlength, hfile, drop_left, take_left]

end

/-! ## Messages by id -/

/-- The messages with ids between two numbers. -/
def between (msgs : ℤ → Message) (first last : ℤ) : List Message :=
  (List.range (last + 1 - first).toNat).map fun i : ℕ => msgs (first + i)

variable {id : ℤ}

section
variable {msgs : ℤ → Message} {first last : ℤ}

lemma between_nil (msgs : ℤ → Message) (first : ℤ) : between msgs first (first - 1) = [] := by
  simp [between]

lemma between_snoc (msgs : ℤ → Message) (h : first ≤ last + 1) :
    between msgs first (last + 1) = between msgs first last ++ [msgs (last + 1)] := by
  rw [between, between, show (last + 1 + 1 - first).toNat = (last + 1 - first).toNat + 1 by omega,
    range_succ, map_append, map_singleton]
  congr 3
  omega

lemma length_between (msgs : ℤ → Message) (first last : ℤ) :
    (between msgs first last).length = (last + 1 - first).toNat := by
  rw [between, length_map, length_range]

lemma mem_between {msg : Message} (h : msg ∈ between msgs first last) : ∃ id, msg = msgs id := by
  obtain ⟨i, -, rfl⟩ := mem_map.mp h
  exact ⟨_, rfl⟩

lemma between_split (msgs : ℤ → Message) (hfirst : first ≤ id) (hlast : id ≤ last) :
    ∃ behind, between msgs first last = between msgs first (id - 1) ++ msgs id :: behind := by
  induction last, hlast using Int.leInduction with
  | base =>
    refine ⟨[], ?_⟩
    have hsnoc := between_snoc msgs (show first ≤ id - 1 + 1 by omega)
    rw [Int.sub_add_cancel] at hsnoc
    exact hsnoc
  | succ last hle ih =>
    obtain ⟨behind, hbehind⟩ := ih
    refine ⟨behind ++ [msgs (last + 1)], ?_⟩
    rw [between_snoc msgs (by omega), hbehind, append_assoc, cons_append]

end

/-! ## The pairs of a partition -/

/-- The pairs of files, the last one in front. -/
structure FileManager where
  newestFirst : List FilePair

namespace FileManager

def filePairVec (manager : FileManager) : List FilePair := manager.newestFirst.reverse

def createNewFilePair (manager : FileManager) (msgId timestamp : ℤ) : FileManager :=
  match manager.newestFirst with
  | [] => ⟨[⟨msgId, timestamp, msgId, [], []⟩]⟩
  | pair :: older =>
    if pair.beginMessageId = msgId then manager
    else ⟨⟨msgId, timestamp, msgId, [], []⟩ :: pair :: older⟩

/-- The loop of `getFilePairById`. -/
def filePairLoop (messageId : ℤ) : List FilePair → Option FilePair
  | [] => none
  | [pair] => if pair.endMessageId > messageId then some pair else none
  | pair :: next :: rest =>
    if pair.beginMessageId ≤ messageId ∧ next.beginMessageId > messageId then some pair
    else filePairLoop messageId (next :: rest)

def getFilePairById (manager : FileManager) (messageId : ℤ) : Option FilePair :=
  match manager.filePairVec with
  | [] => none
  | first :: rest =>
    if first.beginMessageId > messageId then some first else filePairLoop messageId (first :: rest)

end FileManager

/-- The pair has the messages up to an id. -/
structure Holds (msgs : ℤ → Message) (pair : FilePair) (last : ℤ) : Prop where
  metas : fileMetas 0 (between msgs pair.beginMessageId last) <+: pair.metaFile
  data : fileData (between msgs pair.beginMessageId last) <+: pair.dataFile
  size : (fileData (between msgs pair.beginMessageId last)).length < 2 ^ 38

/-- The messages from `start` up to the committed id are in the pairs, each pair has those before the next
one. -/
structure Covers (msgs : ℤ → Message) (start : ℤ) (manager : FileManager) (committedId : ℤ) : Prop where
  chain : manager.newestFirst.IsChain fun later earlier =>
    earlier.beginMessageId < later.beginMessageId ∧ Holds msgs earlier (later.beginMessageId - 1)
  newest : ∀ pair older, manager.newestFirst = pair :: older → pair.beginMessageId ≤ committedId + 1
    ∧ pair.endMessageId = committedId + 1 ∧ Holds msgs pair committedId
  oldest : ∀ pair, manager.newestFirst.getLast? = some pair → pair.beginMessageId = start
  fresh : manager.newestFirst = [] → start = committedId + 1

section
variable {msgs : ℤ → Message} {start committedId : ℤ} {manager : FileManager}

/-- Each message that a pair holds can be read. -/
lemma Holds.stored {pair : FilePair} {last : ℤ} (h : Holds msgs pair last) (hfits : ∀ id, Fits (msgs id))
    (hfirst : pair.beginMessageId ≤ id) (hlast : id ≤ last) :
    ∃ endPos, pair.stored (id - pair.beginMessageId).toNat = some (fillMeta (msgs id) endPos, (msgs id).data) := by
  obtain ⟨behind, hsplit⟩ := between_split msgs hfirst hlast
  have hmetas := h.metas
  have hdata := h.data
  have hsize := h.size
  rw [hsplit] at hmetas hdata hsize
  have hposition : (between msgs pair.beginMessageId (id - 1)).length = (id - pair.beginMessageId).toNat := by
    rw [length_between]
    congr 1
    omega
  refine ⟨(fileData (between msgs pair.beginMessageId (id - 1) ++ [msgs id])).length, ?_⟩
  rw [← hposition]
  refine stored_of_prefix hmetas hdata ?_ hsize
  intro msg hmem
  rw [← hsplit] at hmem
  obtain ⟨id', rfl⟩ := mem_between hmem
  exact hfits id'

variable {pair pair' : FilePair}

lemma Holds.append {last : ℤ} (h : Holds msgs pair last)
    (hbegin : pair'.beginMessageId = pair.beginMessageId) (hmeta : pair.metaFile <+: pair'.metaFile)
    (hdata : pair.dataFile <+: pair'.dataFile) : Holds msgs pair' last := by
  refine ⟨?_, ?_, ?_⟩
  · rw [hbegin]
    exact h.metas.trans hmeta
  · rw [hbegin]
    exact h.data.trans hdata
  · rw [hbegin]
    exact h.size

/-- A pair holds nothing before its first message. -/
lemma holds_of_begin {pair : FilePair} {last : ℤ} (hbegin : pair.beginMessageId = last + 1) :
    Holds msgs pair last := by
  have hnil : between msgs pair.beginMessageId last = [] := by
    have hempty := between_nil msgs (last + 1)
    rw [Int.add_sub_cancel] at hempty
    rw [hbegin, hempty]
  refine ⟨?_, ?_, ?_⟩ <;> rw [hnil]
  · exact nil_prefix
  · exact nil_prefix
  · exact Nat.two_pow_pos 38

section
variable (h : Covers msgs start manager committedId)
include h

/-- The last pair may be replaced by one that begins at the same id. -/
lemma Covers.update {older : List FilePair} {committedId' : ℤ}
    (hfiles : manager.newestFirst = pair :: older)
    (hbegin : pair'.beginMessageId = pair.beginMessageId) (hle : pair'.beginMessageId ≤ committedId' + 1)
    (hend : pair'.endMessageId = committedId' + 1) (hholds : Holds msgs pair' committedId') :
    Covers msgs start ⟨pair' :: older⟩ committedId' := by
  have hchain := h.chain
  have holdest := h.oldest
  rw [hfiles] at hchain holdest
  refine ⟨?_, ?_, ?_, fun hnil => absurd hnil (cons_ne_nil _ _)⟩
  · cases older with
    | nil => exact isChain_singleton _
    | cons next older =>
      obtain ⟨hnext, hrest⟩ := isChain_cons_cons.mp hchain
      refine isChain_cons_cons.mpr ⟨?_, hrest⟩
      rw [hbegin]
      exact hnext
  · rintro last older' hcons
    obtain ⟨rfl, -⟩ := cons.inj hcons
    exact ⟨hle, hend, hholds⟩
  · intro last hlast
    cases older with
    | nil =>
      cases hlast
      exact hbegin.trans (holdest pair rfl)
    | cons next older =>
      rw [getLast?_cons_cons] at hlast
      exact holdest last (by rw [getLast?_cons_cons]; exact hlast)

/-- Files that only grow still have what they had. -/
lemma Covers.append {older : List FilePair}
    (hfiles : manager.newestFirst = pair :: older)
    (hbegin : pair'.beginMessageId = pair.beginMessageId) (hend : pair'.endMessageId = pair.endMessageId)
    (hmeta : pair.metaFile <+: pair'.metaFile) (hdata : pair.dataFile <+: pair'.dataFile) :
    Covers msgs start ⟨pair' :: older⟩ committedId := by
  obtain ⟨hle, hend', hholds⟩ := h.newest pair older hfiles
  exact h.update hfiles hbegin (by omega) (by omega) (hholds.append hbegin hmeta hdata)

/-- The pair for the first message that is not committed. -/
lemma Covers.createNewFilePair (timestamp : ℤ) :
    Covers msgs start (manager.createNewFilePair (committedId + 1) timestamp) committedId
    ∧ ∃ pair older, (manager.createNewFilePair (committedId + 1) timestamp).newestFirst = pair :: older
      ∧ pair.beginMessageId = committedId + 1 := by
  rw [FileManager.createNewFilePair]
  cases hfiles : manager.newestFirst with
  | nil =>
    refine ⟨⟨isChain_singleton _, ?_, ?_, fun hnil => absurd hnil (cons_ne_nil _ _)⟩, _, _, rfl, rfl⟩
    · rintro pair older hcons
      obtain ⟨rfl, -⟩ := cons.inj hcons
      exact ⟨le_rfl, rfl, holds_of_begin rfl⟩
    · rintro pair ⟨rfl⟩
      exact (h.fresh hfiles).symm
  | cons pair older =>
    obtain ⟨hle, -, hholds⟩ := h.newest pair older hfiles
    dsimp only
    split_ifs with hbegin
    · exact ⟨h, pair, older, hfiles, hbegin⟩
    refine ⟨⟨?_, ?_, ?_, fun hnil => absurd hnil (cons_ne_nil _ _)⟩, _, _, rfl, rfl⟩
    · have hchain := h.chain
      rw [hfiles] at hchain
      refine isChain_cons_cons.mpr ⟨⟨by dsimp only; omega, ?_⟩, hchain⟩
      rw [Int.add_sub_cancel]
      exact hholds
    · rintro last older' hcons
      obtain ⟨rfl, -⟩ := cons.inj hcons
      exact ⟨le_rfl, rfl, holds_of_begin rfl⟩
    · intro last hlast
      rw [getLast?_cons_cons, ← hfiles] at hlast
      exact h.oldest last hlast

omit h in
lemma filePairLoop_holds (hid : id ≤ committedId) : ∀ {vec : List FilePair},
    vec.IsChain (fun earlier later => earlier.beginMessageId < later.beginMessageId
    ∧ Holds msgs earlier (later.beginMessageId - 1)) →
    (∀ pair, vec.getLast? = some pair → pair.endMessageId = committedId + 1 ∧ Holds msgs pair committedId) →
    (∀ pair, vec.head? = some pair → pair.beginMessageId ≤ id) → vec ≠ [] →
    ∃ pair last, FileManager.filePairLoop id vec = some pair ∧ pair.beginMessageId ≤ id ∧ id ≤ last
      ∧ Holds msgs pair last := by
  intro vec
  induction vec with
  | nil => exact fun _ _ _ hne => absurd rfl hne
  | cons pair rest ih =>
    intro hchain hlast hfirst _
    cases rest with
    | nil =>
      obtain ⟨hend, hholds⟩ := hlast pair rfl
      refine ⟨pair, committedId, ?_, hfirst pair rfl, hid, hholds⟩
      rw [FileManager.filePairLoop, if_pos (by omega)]
    | cons next rest =>
      obtain ⟨⟨-, hholds⟩, hrest⟩ := isChain_cons_cons.mp hchain
      rw [FileManager.filePairLoop]
      by_cases hnext : next.beginMessageId > id
      · exact ⟨pair, _, if_pos ⟨hfirst pair rfl, hnext⟩, hfirst pair rfl, by omega, hholds⟩
      rw [if_neg fun h => hnext h.2]
      refine ih hrest (fun last hmem => hlast last (by rw [getLast?_cons_cons]; exact hmem)) ?_ (cons_ne_nil _ _)
      rintro head ⟨rfl⟩
      omega

/-- `getFilePairById` finds a pair that has the message. -/
lemma Covers.stored (hfits : ∀ id, Fits (msgs id))
    (hfirst : start ≤ id) (hlast : id ≤ committedId) :
    ∃ pair endPos, manager.getFilePairById id = some pair ∧ pair.beginMessageId ≤ id
    ∧ pair.stored (id - pair.beginMessageId).toNat = some (fillMeta (msgs id) endPos, (msgs id).data) := by
  have hne : manager.filePairVec ≠ [] := by
    intro hnil
    have hfresh := h.fresh (reverse_eq_nil_iff.mp hnil)
    omega
  have hhead : ∀ pair, manager.filePairVec.head? = some pair → pair.beginMessageId ≤ id := by
    intro pair hmem
    rw [FileManager.filePairVec, head?_reverse] at hmem
    rw [h.oldest pair hmem]
    exact hfirst
  obtain ⟨pair, last, hloop, hbegin, hle, hholds⟩ := filePairLoop_holds hlast
    (isChain_reverse.mpr h.chain : manager.filePairVec.IsChain _)
    (by
      intro pair hmem
      rw [getLast?_reverse] at hmem
      obtain ⟨older, holder⟩ := head?_eq_some_iff.mp hmem
      exact (h.newest pair older holder).2) hhead hne
  obtain ⟨endPos, hstored⟩ := hholds.stored hfits hbegin hle
  refine ⟨pair, endPos, ?_, hbegin, hstored⟩
  rw [FileManager.getFilePairById]
  cases hvec : manager.filePairVec with
  | nil => exact absurd hvec hne
  | cons first rest =>
    have hfirst' := hhead first (by rw [hvec]; rfl)
    dsimp only
    rw [if_neg (by omega), ← hvec]
    exact hloop

end

end

end Havenask.Swift
