import Havenask.Swift.MessageDeque
import Havenask.Swift.MessageFiles

/-!
# Committing messages to files

`swift/broker/storage_dfs/MessageCommitter.cpp`: messages are collected in two buffers, one for the data and
one for the entries of the meta file.  A commit writes the data, flushes, writes the entries, flushes, and only then
counts the messages as committed.  Any error closes the files, and the messages that are not committed are
written again.

The file system is given by the outcomes of its calls, which are numbered.

* **`Writing`**: what the files have together with the buffers while they are open.
* **`commitFile_spec`**, **`maybeCommit_spec`**, **`write_spec`**: the invariant step by step; an error leaves
  files that still have all committed messages.
* **`committed_stored`**: so in every run, provided that a write to the data file takes all bytes or fails.
-/

namespace Havenask.Swift

open List

/-! ## The file system -/

/-- A write fails, with anything appended to the file, or takes some of the bytes. -/
inductive WriteResult
  | failed (garbage : Bytes)
  | wrote (count : ℕ)

/-- The outcomes of the calls, by their number; a write also knows how many bytes are asked for. -/
structure FileSystem where
  opens : ℕ → Bool
  dataWrites : ℕ → ℕ → WriteResult
  metaWrites : ℕ → ℕ → WriteResult
  flushes : ℕ → Bool
  closes : ℕ → Bool
  clock : ℕ → ℤ

/-- A write takes at least one byte and not more than there are. -/
def taken (count length : ℕ) : ℕ := min (max count 1) length

/-- The errors of the broker that a `write` can give. -/
inductive ErrorCode
  | none
  | brokerCommitFile
  | brokerWriteFile
  | brokerOpenFile
  | brokerCloseFile
deriving DecidableEq

structure CommitConfig where
  maxCommitSize : ℤ
  maxCommitInterval : ℤ
  maxFileSize : ℤ
  minFileSize : ℤ
  maxFileSplitTime : ℤ
  closeNoWriteFileInterval : ℤ
  minChangeFileForDfsErrorTime : ℤ
  maxCommitTimeAsError : ℤ
  maxMessageCountInOneFile : ℤ

/-- `MAX_COMMIT_BUFFER_SIZE`. -/
def maxCommitBufferSize : ℕ := 2 ^ 21

/-- The committer; `opened` says that it has its two files, which are the last pair. -/
structure MessageCommitter where
  config : CommitConfig
  commitFileIsReaded : Bool
  lastCommitTimeAsError : ℤ
  fileManager : FileManager
  committedId : ℤ
  writedId : ℤ
  writedSize : ℕ
  committedSize : ℕ
  fileCreateTime : ℤ
  lastCommitTime : ℤ
  fileMessageCount : ℕ
  opened : Bool
  metaBuffer : Bytes
  dataBuffer : Bytes
  calls : ℕ

/-- A write to the data file takes all bytes or fails. -/
def WholeDataWrites (fs : FileSystem) : Prop :=
  ∀ calls length count, fs.dataWrites calls length = .wrote count → length ≤ count

namespace MessageCommitter

section
variable (committer : MessageCommitter)

def resetBuffer : MessageCommitter :=
  { committer with metaBuffer := [], dataBuffer := [] }

/-- Change the last pair. -/
def updatePair (update : FilePair → FilePair) : MessageCommitter :=
  match committer.fileManager.newestFirst with
  | [] => committer
  | pair :: older => { committer with fileManager := ⟨update pair :: older⟩ }

/-- The loop of `writeDataBuffer`.  Each turn offers the whole buffer.  The fuel is the size of the buffer, as
each turn takes a byte. -/
def writeDataLoop (fs : FileSystem) (buffer : Bytes) : ℕ → ℕ → ℕ → Bytes → Bool × ℕ × Bytes
  | 0, _, calls, file => (true, calls, file)
  | fuel + 1, leftLen, calls, file =>
    if leftLen = 0 then (true, calls, file)
    else
      match fs.dataWrites calls buffer.length with
      | .failed garbage => (false, calls + 1, file ++ garbage)
      | .wrote count =>
        writeDataLoop fs buffer fuel (leftLen - taken count buffer.length) (calls + 1)
          (file ++ buffer.take (taken count buffer.length))

def writeDataBuffer (fs : FileSystem) (committer : MessageCommitter) (emptyError : ErrorCode) :
    ErrorCode × MessageCommitter :=
  match committer.dataBuffer, committer.fileManager.newestFirst with
  | [], _ => (emptyError, committer)
  | _, [] => (emptyError, committer)
  | buffer, pair :: older =>
    let (success, calls, file) := writeDataLoop fs buffer buffer.length buffer.length committer.calls pair.dataFile
    let committer := { committer with
      calls := calls, fileManager := ⟨{ pair with dataFile := file } :: older⟩ }
    if success then (.none, { committer with dataBuffer := [] })
    else (.brokerWriteFile, committer.resetBuffer)

/-- The loop over the meta buffer in `commitFile`, on the bytes that are left. -/
def writeMetaLoop (fs : FileSystem) : ℕ → Bytes → ℕ → Bytes → Bool × ℕ × Bytes
  | 0, _, calls, file => (true, calls, file)
  | fuel + 1, rest, calls, file =>
    if rest.length = 0 then (true, calls, file)
    else
      match fs.metaWrites calls rest.length with
      | .failed garbage => (false, calls + 1, file ++ garbage)
      | .wrote count =>
        writeMetaLoop fs fuel (rest.drop (taken count rest.length)) (calls + 1)
          (file ++ rest.take (taken count rest.length))

/-- The end of `commitFile`, when all is on disk. -/
def setCommitted (fs : FileSystem) (committer : MessageCommitter) (begTime : ℤ) : ErrorCode × MessageCommitter :=
  let endTime := fs.clock committer.calls
  let committer := { committer with
    calls := committer.calls + 1
    committedId := committer.writedId
    committedSize := committer.writedSize
    lastCommitTime := endTime }
  let committer := committer.updatePair fun pair => { pair with endMessageId := committer.committedId + 1 }
  if endTime - begTime > committer.config.maxCommitTimeAsError
      ∧ endTime - committer.lastCommitTimeAsError > committer.config.minChangeFileForDfsErrorTime then
    (.brokerCommitFile, { committer with lastCommitTimeAsError := endTime })
  else (.none, committer)

/-- The part of `commitFile` that writes the meta file. -/
def commitMeta (fs : FileSystem) (committer : MessageCommitter) (begTime : ℤ) : ErrorCode × MessageCommitter :=
  match committer.fileManager.newestFirst with
  | [] => (.brokerWriteFile, committer)
  | pair :: older =>
    let (success, calls, file) := writeMetaLoop fs committer.metaBuffer.length committer.metaBuffer
      committer.calls pair.metaFile
    let committer := { committer with
      calls := calls, fileManager := ⟨{ pair with metaFile := file } :: older⟩ }
    let committer := committer.resetBuffer
    if success then
      if fs.flushes committer.calls then
        setCommitted fs { committer with calls := committer.calls + 1 } begTime
      else (.brokerCommitFile, { committer with calls := committer.calls + 1 })
    else (.brokerWriteFile, committer)

def commitFile (fs : FileSystem) (committer : MessageCommitter) : ErrorCode × MessageCommitter :=
  if committer.opened = false ∨ committer.writedId ≤ committer.committedId then (.none, committer)
  else
    let begTime := fs.clock committer.calls
    let (error, committer) := writeDataBuffer fs { committer with calls := committer.calls + 1 } .none
    if error = .none then
      if fs.flushes committer.calls then commitMeta fs { committer with calls := committer.calls + 1 } begTime
      else (.brokerCommitFile, { committer with calls := committer.calls + 1 }.resetBuffer)
    else (.brokerCommitFile, committer.resetBuffer)

def closeFile (fs : FileSystem) (committer : MessageCommitter) : ErrorCode × MessageCommitter :=
  let failed := committer.opened && !(fs.closes committer.calls && fs.closes (committer.calls + 1))
  (if failed then .brokerCloseFile else .none,
    { committer.resetBuffer with
      calls := if committer.opened then committer.calls + 2 else committer.calls
      opened := false
      writedSize := 0
      committedSize := 0
      fileMessageCount := 0
      writedId := committer.committedId
      commitFileIsReaded := false })

def needCommitFile (curTime : ℤ) : Bool :=
  if committer.committedId ≥ committer.writedId then false
  else if committer.metaBuffer.length ≥ maxCommitBufferSize then true
  else if curTime - committer.lastCommitTime ≥ committer.config.maxCommitInterval then true
  else
    decide ((committer.writedId - committer.committedId) * memoryMessageMetaSize + committer.writedSize
      - committer.committedSize ≥ committer.config.maxCommitSize)

def needCloseFile (curTime : ℤ) : Bool :=
  committer.opened &&
    (decide (curTime - committer.fileCreateTime > committer.config.maxFileSplitTime)
      || decide ((committer.writedSize : ℤ) > committer.config.maxFileSize)
      || decide ((committer.fileMessageCount : ℤ) ≥ committer.config.maxMessageCountInOneFile)
      || decide (curTime - committer.lastCommitTime ≥ committer.config.closeNoWriteFileInterval)
      || (committer.commitFileIsReaded
        && (decide (curTime - committer.fileCreateTime ≥ 2 * committer.config.closeNoWriteFileInterval)
          || decide ((committer.committedSize : ℤ) > committer.config.minFileSize))))

def maybeCommit (fs : FileSystem) (committer : MessageCommitter) (curTime : ℤ) : ErrorCode × MessageCommitter :=
  let needCommit := committer.needCommitFile curTime
  let needClose := committer.needCloseFile curTime
  let (error, committer) := if needCommit || needClose then committer.commitFile fs else (.none, committer)
  if error = .none then
    if needClose then committer.closeFile fs else (.none, committer)
  else (error, (committer.closeFile fs).2)

/-- `openFile`: the files of the pair are truncated. -/
def openFile (fs : FileSystem) (committer : MessageCommitter) (msgId timestamp : ℤ) : ErrorCode × MessageCommitter :=
  let committer := { committer with
    fileManager := committer.fileManager.createNewFilePair msgId timestamp }
  if fs.opens committer.calls then
    let committer := committer.updatePair fun pair => { pair with dataFile := [] }
    if fs.opens (committer.calls + 1) then
      let committer := committer.updatePair fun pair => { pair with metaFile := [] }
      let now := fs.clock (committer.calls + 2)
      (.none, { committer with
        calls := committer.calls + 3
        opened := true
        writedSize := 0
        committedSize := 0
        fileCreateTime := now
        lastCommitTime := now
        writedId := committer.committedId })
    else (.brokerOpenFile, { committer with calls := committer.calls + 2 })
  else (.brokerOpenFile, { committer with calls := committer.calls + 1 })

def writeSingleMessage (msg : Message) : MessageCommitter :=
  { committer with
    dataBuffer := committer.dataBuffer ++ msg.data
    metaBuffer := committer.metaBuffer ++ (fillMeta msg (committer.writedSize + msg.data.length)).bytes
    writedSize := committer.writedSize + msg.data.length
    writedId := msg.msgId }

end

def write (fs : FileSystem) (committer : MessageCommitter) (msg : Message) : ErrorCode × MessageCommitter :=
  let (error, committer) :=
    if committer.opened then (.none, committer) else committer.openFile fs msg.msgId msg.timestamp
  if error = .none then (.none, committer.writeSingleMessage msg) else (error, committer)

def writeLoop (fs : FileSystem) (curTime : ℤ) : List Message → MessageCommitter → ErrorCode × MessageCommitter
  | [], committer => (.none, committer)
  | msg :: msgs, committer =>
    let (error, committer) := committer.maybeCommit fs curTime
    if error = .none then
      let (error, committer) := committer.write fs msg
      let committer := { committer with fileMessageCount := committer.fileMessageCount + 1 }
      if error = .none then writeLoop fs curTime msgs committer
      else (error, (committer.closeFile fs).2)
    else (error, committer)

def writeMessages (fs : FileSystem) (committer : MessageCommitter) (msgs : List Message) :
    ErrorCode × MessageCommitter :=
  let curTime := fs.clock committer.calls
  let (error, committer) := writeLoop fs curTime msgs { committer with calls := committer.calls + 1 }
  let (error, committer) := committer.writeDataBuffer fs error
  if error = .none then committer.maybeCommit fs curTime
  else (error, (committer.closeFile fs).2)

/-! ## The two loops -/

lemma prefix_writeDataLoop (fs : FileSystem) (buffer : Bytes) (fuel : ℕ) : ∀ leftLen calls file,
    file <+: (writeDataLoop fs buffer fuel leftLen calls file).2.2 := by
  induction fuel with
  | zero => exact fun _ _ _ => prefix_refl _
  | succ fuel ih =>
    intro leftLen calls file
    rw [writeDataLoop]
    split
    · exact prefix_refl _
    split
    · exact prefix_append _ _
    · exact (prefix_append _ _).trans (ih _ _ _)

lemma writeDataLoop_whole {fs : FileSystem} (hwhole : WholeDataWrites fs) {buffer : Bytes} (hne : buffer ≠ [])
    (calls : ℕ) (file : Bytes)
    (hsuccess : (writeDataLoop fs buffer buffer.length buffer.length calls file).1 = true) :
    (writeDataLoop fs buffer buffer.length buffer.length calls file).2.2 = file ++ buffer := by
  have hlength : buffer.length ≠ 0 := fun h => hne (length_eq_zero_iff.mp h)
  obtain ⟨fuel, hfuel⟩ : ∃ fuel, buffer.length = fuel + 1 := ⟨buffer.length - 1, by omega⟩
  have hloop : writeDataLoop fs buffer buffer.length buffer.length calls file
      = writeDataLoop fs buffer (fuel + 1) buffer.length calls file := by rw [← hfuel]
  rw [hloop, writeDataLoop, if_neg hlength] at hsuccess ⊢
  cases hwrite : fs.dataWrites calls buffer.length with
  | failed garbage =>
    rw [hwrite] at hsuccess
    cases hsuccess
  | wrote count =>
    have hle := hwhole calls buffer.length count hwrite
    have htaken : taken count buffer.length = buffer.length := by
      rw [taken]
      omega
    dsimp only
    rw [htaken, Nat.sub_self, take_length]
    cases fuel with
    | zero => rfl
    | succ fuel => rw [writeDataLoop, if_pos rfl]

lemma prefix_writeMetaLoop (fs : FileSystem) (fuel : ℕ) : ∀ rest calls file,
    file <+: (writeMetaLoop fs fuel rest calls file).2.2 := by
  induction fuel with
  | zero => exact fun _ _ _ => prefix_refl _
  | succ fuel ih =>
    intro rest calls file
    rw [writeMetaLoop]
    split
    · exact prefix_refl _
    split
    · exact prefix_append _ _
    · exact (prefix_append _ _).trans (ih _ _ _)

lemma writeMetaLoop_eq (fs : FileSystem) (fuel : ℕ) : ∀ rest calls file, rest.length ≤ fuel →
    (writeMetaLoop fs fuel rest calls file).1 = true →
      (writeMetaLoop fs fuel rest calls file).2.2 = file ++ rest := by
  induction fuel with
  | zero =>
    intro rest calls file hle _
    rw [length_eq_zero_iff.mp (Nat.le_zero.mp hle), append_nil]
    rfl
  | succ fuel ih =>
    intro rest calls file hle hsuccess
    rw [writeMetaLoop] at hsuccess ⊢
    split at hsuccess
    · rename_i hnil
      rw [if_pos hnil, length_eq_zero_iff.mp hnil, append_nil]
    rename_i hne
    rw [if_neg hne]
    cases hwrite : fs.metaWrites calls rest.length with
    | failed garbage =>
      rw [hwrite] at hsuccess
      cases hsuccess
    | wrote count =>
      rw [hwrite] at hsuccess
      have hpos : 0 < taken count rest.length := by
        rw [taken]
        omega
      rw [ih _ _ _ (by rw [length_drop]; omega) hsuccess, append_assoc, take_append_drop]

/-! ## The invariant -/

/-- With the files open: the files and the buffers together have the messages from the first one of the pair to
the last one written. -/
structure Writing (msgs : ℤ → Message) (committer : MessageCommitter) (pair : FilePair)
    (older : List FilePair) : Prop where
  files_eq : committer.fileManager.newestFirst = pair :: older
  committed_le : committer.committedId ≤ committer.writedId
  data_eq : pair.dataFile ++ committer.dataBuffer
    = fileData (between msgs pair.beginMessageId committer.writedId)
  meta_eq : pair.metaFile ++ committer.metaBuffer
    = fileMetas 0 (between msgs pair.beginMessageId committer.writedId)
  size_eq : committer.writedSize = (fileData (between msgs pair.beginMessageId committer.writedId)).length
  size_lt : committer.writedSize < 2 ^ 38

/-- The files have all committed messages; the rest is in the open file and the buffers. -/
structure Inv (msgs : ℤ → Message) (start : ℤ) (committer : MessageCommitter) : Prop where
  covers : Covers msgs start committer.fileManager committer.committedId
  idle : committer.opened = false → committer.dataBuffer = [] ∧ committer.metaBuffer = []
    ∧ committer.writedId = committer.committedId
  writing : committer.opened = true → ∃ pair older, Writing msgs committer pair older

/-- What a step gives: files that have all committed messages, and without an error the invariant, with the
same messages written. -/
structure Outcome (msgs : ℤ → Message) (start : ℤ) (committer : MessageCommitter)
    (result : ErrorCode × MessageCommitter) : Prop where
  covers : Covers msgs start result.2.fileManager result.2.committedId
  committedId_le : committer.committedId ≤ result.2.committedId
  config_eq : result.2.config = committer.config
  inv : result.1 = .none → Inv msgs start result.2
  writedId_eq : result.1 = .none → result.2.writedId = committer.writedId
  writedSize_eq : result.1 = .none → result.2.writedSize = committer.writedSize
  opened_eq : result.1 = .none → result.2.opened = committer.opened

section
variable {fs : FileSystem} {msgs : ℤ → Message} {start : ℤ} {committer : MessageCommitter}

lemma Inv.withCalls (h : Inv msgs start committer) (calls : ℕ) :
    Inv msgs start { committer with calls := calls } := by
  refine ⟨h.covers, h.idle, fun hopened => ?_⟩
  obtain ⟨pair, older, hwriting⟩ := h.writing hopened
  exact ⟨pair, older, { hwriting with }⟩

lemma Inv.outcome_self (h : Inv msgs start committer) (error : ErrorCode) :
    Outcome msgs start committer (error, committer) :=
  ⟨h.covers, le_rfl, rfl, fun _ => h, fun _ => rfl, fun _ => rfl, fun _ => rfl⟩

/-- An outcome of a later part of a step is one of the step. -/
lemma Outcome.trans {committer₁ : MessageCommitter} {result : ErrorCode × MessageCommitter}
    (h : Outcome msgs start committer₁ result) (hcommitted : committer.committedId ≤ committer₁.committedId)
    (hconfig : committer₁.config = committer.config) (hwrited : committer₁.writedId = committer.writedId)
    (hsize : committer₁.writedSize = committer.writedSize) (hopened : committer₁.opened = committer.opened) :
    Outcome msgs start committer result :=
  ⟨h.covers, hcommitted.trans h.committedId_le, h.config_eq.trans hconfig, h.inv,
    fun herror => (h.writedId_eq herror).trans hwrited, fun herror => (h.writedSize_eq herror).trans hsize,
    fun herror => (h.opened_eq herror).trans hopened⟩

/-- An error with files that have all committed messages. -/
lemma outcome_error {error : ErrorCode} (herror : error ≠ .none) {committer₁ : MessageCommitter}
    (hcovers : Covers msgs start committer₁.fileManager committer₁.committedId)
    (hcommitted : committer.committedId ≤ committer₁.committedId) (hconfig : committer₁.config = committer.config) :
    Outcome msgs start committer (error, committer₁) :=
  ⟨hcovers, hcommitted, hconfig, fun h => absurd h herror, fun h => absurd h herror,
    fun h => absurd h herror, fun h => absurd h herror⟩

lemma writeDataBuffer_spec (hwhole : WholeDataWrites fs) (h : Inv msgs start committer) (emptyError : ErrorCode) :
    Outcome msgs start committer (writeDataBuffer fs committer emptyError)
    ∧ ((writeDataBuffer fs committer emptyError).1 = .none →
      (writeDataBuffer fs committer emptyError).2.dataBuffer = []) := by
  by_cases hne : committer.dataBuffer = []
  · have hresult : writeDataBuffer fs committer emptyError = (emptyError, committer) := by
      rw [writeDataBuffer.eq_def, hne]
    rw [hresult]
    exact ⟨h.outcome_self emptyError, fun _ => hne⟩
  have hopened : committer.opened = true := by
    by_contra hclosed
    exact hne (h.idle (by simpa using hclosed)).1
  obtain ⟨pair, older, hwriting⟩ := h.writing hopened
  have hresult : writeDataBuffer fs committer emptyError
      = (let loop := writeDataLoop fs committer.dataBuffer committer.dataBuffer.length
          committer.dataBuffer.length committer.calls pair.dataFile
        if loop.1 then (.none, { committer with
          calls := loop.2.1, fileManager := ⟨{ pair with dataFile := loop.2.2 } :: older⟩, dataBuffer := [] })
        else (.brokerWriteFile, { committer with
          calls := loop.2.1, fileManager := ⟨{ pair with dataFile := loop.2.2 } :: older⟩ }.resetBuffer)) := by
    rw [writeDataBuffer.eq_def, hwriting.files_eq]
    cases hbuffer : committer.dataBuffer with
    | nil => exact absurd hbuffer hne
    | cons byte buffer => rfl
  rw [hresult]
  have hprefix := prefix_writeDataLoop fs committer.dataBuffer committer.dataBuffer.length
    committer.dataBuffer.length committer.calls pair.dataFile
  have hloop := writeDataLoop_whole hwhole hne committer.calls pair.dataFile
  generalize writeDataLoop fs committer.dataBuffer committer.dataBuffer.length committer.dataBuffer.length
    committer.calls pair.dataFile = loop at hprefix hloop ⊢
  have hcovers : Covers msgs start ⟨{ pair with dataFile := loop.2.2 } :: older⟩ committer.committedId :=
    h.covers.append hwriting.files_eq rfl rfl (prefix_refl _) hprefix
  dsimp only
  split
  · rename_i hsuccess
    refine ⟨⟨hcovers, le_rfl, rfl, fun _ => ⟨hcovers, fun hclosed => ?_, fun _ => ?_⟩, fun _ => rfl,
      fun _ => rfl, fun _ => rfl⟩, fun _ => rfl⟩
    · exact absurd (hclosed.symm.trans hopened) Bool.false_ne_true
    refine ⟨_, _, rfl, hwriting.committed_le, ?_, hwriting.meta_eq, hwriting.size_eq, hwriting.size_lt⟩
    rw [hloop hsuccess, append_nil]
    exact hwriting.data_eq
  · exact ⟨outcome_error (by simp) hcovers le_rfl rfl, nofun⟩

/-- With all data and all entries in the files, the messages are committed. -/
lemma setCommitted_spec (fs : FileSystem) {pair : FilePair} {older : List FilePair} (hcovers : Covers msgs start
    committer.fileManager committer.committedId) (hwriting : Writing msgs committer pair older)
    (hopened : committer.opened = true) (hdata : committer.dataBuffer = [])
    (hmeta : committer.metaBuffer = []) (begTime : ℤ) :
    Outcome msgs start committer (setCommitted fs committer begTime)
    ∧ ((setCommitted fs committer begTime).1 = .none →
      (setCommitted fs committer begTime).2.committedId = committer.writedId) := by
  have hdata_eq := hwriting.data_eq
  have hmeta_eq := hwriting.meta_eq
  rw [hdata, append_nil] at hdata_eq
  rw [hmeta, append_nil] at hmeta_eq
  have hle := (hcovers.newest pair older hwriting.files_eq).1
  have hcommitted := hwriting.committed_le
  have hholds : Holds msgs { pair with endMessageId := committer.writedId + 1 } committer.writedId :=
    ⟨by dsimp only; rw [hmeta_eq], by dsimp only; rw [hdata_eq], by
      have hsize := hwriting.size_lt
      rw [hwriting.size_eq] at hsize
      exact hsize⟩
  have hcovers' : Covers msgs start ⟨{ pair with endMessageId := committer.writedId + 1 } :: older⟩
      committer.writedId :=
    hcovers.update hwriting.files_eq rfl (by dsimp only; omega) rfl hholds
  rw [setCommitted]
  simp only [updatePair, hwriting.files_eq]
  split
  · exact ⟨outcome_error (by simp) hcovers' hcommitted rfl, nofun⟩
  refine ⟨⟨hcovers', hcommitted, rfl, fun _ => ⟨hcovers', fun hclosed => ?_, fun _ => ?_⟩, fun _ => rfl,
    fun _ => rfl, fun _ => rfl⟩, fun _ => rfl⟩
  · exact absurd (hclosed.symm.trans hopened) Bool.false_ne_true
  · exact ⟨_, _, rfl, le_rfl, hwriting.data_eq, hwriting.meta_eq, hwriting.size_eq, hwriting.size_lt⟩

lemma commitMeta_spec (fs : FileSystem) (h : Inv msgs start committer) (hopened : committer.opened = true)
    (hdata : committer.dataBuffer = []) (begTime : ℤ) : Outcome msgs start committer (commitMeta fs committer begTime)
    ∧ ((commitMeta fs committer begTime).1 = .none →
      (commitMeta fs committer begTime).2.committedId = committer.writedId) := by
  obtain ⟨pair, older, hwriting⟩ := h.writing hopened
  have hprefix := prefix_writeMetaLoop fs committer.metaBuffer.length committer.metaBuffer committer.calls
    pair.metaFile
  have hloop := writeMetaLoop_eq fs committer.metaBuffer.length committer.metaBuffer committer.calls
    pair.metaFile le_rfl
  rw [commitMeta, hwriting.files_eq]
  dsimp only
  generalize writeMetaLoop fs committer.metaBuffer.length committer.metaBuffer committer.calls
    pair.metaFile = loop at hprefix hloop ⊢
  have hcovers : Covers msgs start ⟨{ pair with metaFile := loop.2.2 } :: older⟩ committer.committedId :=
    h.covers.append hwriting.files_eq rfl rfl hprefix (prefix_refl _)
  split
  · rename_i hsuccess
    split
    · have hwriting' : Writing msgs { committer with
            metaBuffer := []
            dataBuffer := []
            calls := loop.2.1 + 1
            fileManager := ⟨{ pair with metaFile := loop.2.2 } :: older⟩ }
          { pair with metaFile := loop.2.2 } older := by
        refine ⟨rfl, hwriting.committed_le, ?_, ?_, hwriting.size_eq, hwriting.size_lt⟩
        · rw [← hwriting.data_eq, hdata]
        dsimp only
        rw [hloop hsuccess, append_nil]
        exact hwriting.meta_eq
      obtain ⟨houtcome, heq⟩ := setCommitted_spec fs hcovers hwriting' hopened rfl rfl begTime
      exact ⟨houtcome.trans le_rfl rfl rfl rfl rfl, heq⟩
    · exact ⟨outcome_error (by simp) hcovers le_rfl rfl, nofun⟩
  · exact ⟨outcome_error (by simp) hcovers le_rfl rfl, nofun⟩

lemma commitFile_spec (hwhole : WholeDataWrites fs) (h : Inv msgs start committer) :
    Outcome msgs start committer (commitFile fs committer)
    ∧ ((commitFile fs committer).1 = .none → (commitFile fs committer).2.committedId = committer.writedId) := by
  rw [commitFile]
  split
  · rename_i hnothing
    refine ⟨h.outcome_self .none, fun _ => ?_⟩
    rcases hnothing with hclosed | hle
    · exact (h.idle hclosed).2.2.symm
    cases hopened : committer.opened with
    | false => exact (h.idle hopened).2.2.symm
    | true =>
      obtain ⟨pair, older, hwriting⟩ := h.writing hopened
      exact le_antisymm hwriting.committed_le hle
  rename_i hsome
  obtain ⟨hdata, hempty⟩ := writeDataBuffer_spec hwhole (h.withCalls (committer.calls + 1)) .none
  generalize writeDataBuffer fs { committer with calls := committer.calls + 1 } .none = result at hdata hempty ⊢
  obtain ⟨error, committer₁⟩ := result
  dsimp only at hdata hempty ⊢
  split
  · rename_i herror
    subst herror
    split
    · obtain ⟨hmeta, heq⟩ := commitMeta_spec fs ((hdata.inv rfl).withCalls (committer₁.calls + 1))
        ((hdata.opened_eq rfl).trans (by simpa using fun hclosed => hsome (.inl hclosed))) (hempty rfl)
        (fs.clock committer.calls)
      exact ⟨hmeta.trans hdata.committedId_le hdata.config_eq (hdata.writedId_eq rfl)
        (hdata.writedSize_eq rfl) (hdata.opened_eq rfl), fun herror => (heq herror).trans (hdata.writedId_eq rfl)⟩
    · exact ⟨outcome_error (by simp) hdata.covers hdata.committedId_le hdata.config_eq, nofun⟩
  · exact ⟨outcome_error (by simp) hdata.covers hdata.committedId_le hdata.config_eq, nofun⟩

lemma closeFile_spec (fs : FileSystem) (hcovers : Covers msgs start committer.fileManager committer.committedId) :
    Inv msgs start (closeFile fs committer).2 :=
  ⟨hcovers, fun _ => ⟨rfl, rfl, rfl⟩, nofun⟩

lemma writedSize_le_of_not_needClose {curTime : ℤ} (hopened : committer.opened = true)
    (hclose : committer.needCloseFile curTime = false) :
    (committer.writedSize : ℤ) ≤ committer.config.maxFileSize := by
  rw [needCloseFile, hopened] at hclose
  simp only [Bool.true_and, Bool.or_eq_false_iff, decide_eq_false_iff_not] at hclose
  omega

/-- `maybeCommit` keeps the invariant, with an error or without; a file that stays open has room. -/
lemma maybeCommit_spec (hwhole : WholeDataWrites fs) (h : Inv msgs start committer) (curTime : ℤ) :
    Inv msgs start (maybeCommit fs committer curTime).2
    ∧ committer.committedId ≤ (maybeCommit fs committer curTime).2.committedId
    ∧ (maybeCommit fs committer curTime).2.config = committer.config
    ∧ ((maybeCommit fs committer curTime).1 = .none →
      (maybeCommit fs committer curTime).2.writedId = committer.writedId
        ∧ ((maybeCommit fs committer curTime).2.opened = true →
          ((maybeCommit fs committer curTime).2.writedSize : ℤ) ≤ committer.config.maxFileSize)) := by
  obtain ⟨result, hresult⟩ : ∃ result, result
      = if committer.needCommitFile curTime || committer.needCloseFile curTime then committer.commitFile fs
        else (.none, committer) := ⟨_, rfl⟩
  have houtcome : Outcome msgs start committer result ∧ (committer.needCloseFile curTime = true →
      result.1 = .none → result.2.committedId = committer.writedId) := by
    rw [hresult]
    split
    · exact ⟨(commitFile_spec hwhole h).1, fun _ => (commitFile_spec hwhole h).2⟩
    · rename_i hnone
      exact ⟨h.outcome_self .none, fun hclose => absurd (by rw [hclose, Bool.or_true]) hnone⟩
  obtain ⟨houtcome, hcommitted⟩ := houtcome
  rw [maybeCommit]
  dsimp only
  rw [← hresult]
  split
  · rename_i herror
    cases hclose : committer.needCloseFile curTime with
    | true =>
      rw [if_pos rfl]
      refine ⟨closeFile_spec fs houtcome.covers, houtcome.committedId_le, houtcome.config_eq, fun _ => ?_⟩
      exact ⟨hcommitted hclose herror, nofun⟩
    | false =>
      rw [if_neg (by simp)]
      refine ⟨houtcome.inv herror, houtcome.committedId_le, houtcome.config_eq, fun _ => ?_⟩
      refine ⟨houtcome.writedId_eq herror, fun hopened => ?_⟩
      rw [houtcome.writedSize_eq herror]
      rw [houtcome.opened_eq herror] at hopened
      exact writedSize_le_of_not_needClose hopened hclose
  · rename_i herror
    exact ⟨closeFile_spec fs houtcome.covers, houtcome.committedId_le, houtcome.config_eq,
      fun hnone => absurd hnone herror⟩

lemma openFile_spec (fs : FileSystem) (h : Inv msgs start committer) (hclosed : committer.opened = false)
    (timestamp : ℤ) : Outcome msgs start { committer with writedSize := 0, opened := true }
      (openFile fs committer (committer.committedId + 1) timestamp) := by
  obtain ⟨hcovers, pair, older, hfiles, hbegin⟩ := h.covers.createNewFilePair timestamp
  obtain ⟨hdata, hmeta, hwrited⟩ := h.idle hclosed
  have hend := (hcovers.newest pair older hfiles).2.1
  have htruncated : ∀ data entries, Covers msgs start
      ⟨{ pair with dataFile := data, metaFile := entries } :: older⟩ committer.committedId := fun data entries =>
    hcovers.update hfiles rfl hbegin.le hend (holds_of_begin hbegin)
  rw [openFile]
  simp only [updatePair, hfiles]
  split
  · split
    · refine ⟨htruncated [] [], le_rfl, rfl, fun _ => ⟨htruncated [] [], fun hopened => ?_, fun _ => ?_⟩,
        fun _ => hwrited.symm, fun _ => rfl, fun _ => rfl⟩
      · cases hopened
      · have hnil : between msgs pair.beginMessageId committer.committedId = [] := by
          have hempty := between_nil msgs (committer.committedId + 1)
          rw [Int.add_sub_cancel] at hempty
          rw [hbegin, hempty]
        refine ⟨_, _, rfl, le_rfl, ?_, ?_, ?_, Nat.two_pow_pos 38⟩
        · dsimp only
          rw [hnil, hdata]
          rfl
        · dsimp only
          rw [hnil, hmeta]
          rfl
        · dsimp only
          rw [hnil]
          rfl
    · exact outcome_error (by simp) (htruncated [] _) le_rfl rfl
  · exact outcome_error (by simp) hcovers le_rfl rfl

lemma Inv.writeSingleMessage (h : Inv msgs start committer) (hopened : committer.opened = true)
    (hid : (msgs (committer.writedId + 1)).msgId = committer.writedId + 1)
    (hsize : committer.writedSize + (msgs (committer.writedId + 1)).data.length < 2 ^ 38) :
    Inv msgs start (committer.writeSingleMessage (msgs (committer.writedId + 1))) := by
  obtain ⟨pair, older, hwriting⟩ := h.writing hopened
  refine ⟨h.covers, fun hclosed => ?_, fun _ => ?_⟩
  · exact absurd (hclosed.symm.trans hopened) Bool.false_ne_true
  have hle := (h.covers.newest pair older hwriting.files_eq).1
  have hcommitted := hwriting.committed_le
  have hsnoc := between_snoc msgs (show pair.beginMessageId ≤ committer.writedId + 1 by omega)
  refine ⟨pair, older, hwriting.files_eq, ?_, ?_, ?_, ?_, hsize⟩
  · rw [MessageCommitter.writeSingleMessage, hid]
    dsimp only
    omega
  · rw [MessageCommitter.writeSingleMessage, hid, hsnoc, fileData_append, ← hwriting.data_eq, append_assoc]
    simp [fileData]
  · rw [MessageCommitter.writeSingleMessage, hid, hsnoc, fileMetas_append, ← hwriting.meta_eq,
      ← hwriting.size_eq, append_assoc]
    simp [fileMetas]
  · rw [MessageCommitter.writeSingleMessage, hid, hsnoc, fileData_append, length_append, ← hwriting.size_eq]
    simp [fileData]

lemma write_spec (fs : FileSystem) (h : Inv msgs start committer)
    (hid : (msgs (committer.writedId + 1)).msgId = committer.writedId + 1)
    (hroom : committer.opened = true → (committer.writedSize : ℤ) ≤ committer.config.maxFileSize)
    (hsize : max committer.config.maxFileSize 0 + (msgs (committer.writedId + 1)).data.length < 2 ^ 38) :
    Covers msgs start (write fs committer (msgs (committer.writedId + 1))).2.fileManager
      (write fs committer (msgs (committer.writedId + 1))).2.committedId
    ∧ committer.committedId ≤ (write fs committer (msgs (committer.writedId + 1))).2.committedId
    ∧ (write fs committer (msgs (committer.writedId + 1))).2.config = committer.config
    ∧ ((write fs committer (msgs (committer.writedId + 1))).1 = .none →
      Inv msgs start (write fs committer (msgs (committer.writedId + 1))).2
        ∧ (write fs committer (msgs (committer.writedId + 1))).2.writedId = committer.writedId + 1) := by
  rw [write]
  cases hopened : committer.opened with
  | true =>
    rw [if_pos rfl]
    dsimp only
    rw [if_pos rfl]
    have hle := hroom hopened
    refine ⟨h.covers, le_rfl, rfl, fun _ => ⟨h.writeSingleMessage hopened hid ?_, hid⟩⟩
    have hmax := le_max_left committer.config.maxFileSize 0
    omega
  | false =>
    rw [if_neg (by simp)]
    have hwrited := (h.idle hopened).2.2
    have houtcome := openFile_spec fs h hopened (msgs (committer.writedId + 1)).timestamp
    rw [show (msgs (committer.writedId + 1)).msgId = committer.committedId + 1 by rw [hid, hwrited]]
    generalize openFile fs committer (committer.committedId + 1) (msgs (committer.writedId + 1)).timestamp
      = result at houtcome ⊢
    obtain ⟨error, committer₁⟩ := result
    dsimp only at houtcome ⊢
    split
    · rename_i herror
      subst herror
      have hsame : committer₁.writedId = committer.writedId := houtcome.writedId_eq rfl
      have hzero : committer₁.writedSize = 0 := houtcome.writedSize_eq rfl
      have hmax := le_max_right committer.config.maxFileSize 0
      have hinv := (houtcome.inv rfl).writeSingleMessage (houtcome.opened_eq rfl)
        (by rw [hsame]; exact hid) (by rw [hsame, hzero]; omega)
      rw [hsame] at hinv
      exact ⟨houtcome.covers, houtcome.committedId_le, houtcome.config_eq, fun _ => ⟨hinv, hid⟩⟩
    · rename_i herror
      exact ⟨houtcome.covers, houtcome.committedId_le, houtcome.config_eq, fun hnone => absurd hnone herror⟩

end

/-! ## Runs -/

/-- Messages with consecutive ids. -/
def batch (msgs : ℤ → Message) : ℤ → ℕ → List Message
  | _, 0 => []
  | id, n + 1 => msgs id :: batch msgs (id + 1) n

/-- The messages have the ids that they are found by, their timestamps fit the field of an entry, and so do the
ends of their data. -/
structure Storable (config : CommitConfig) (msgs : ℤ → Message) : Prop where
  msgId_eq : ∀ id, (msgs id).msgId = id
  fits : ∀ id, Fits (msgs id)
  size_lt : ∀ id, max config.maxFileSize 0 + (msgs id).data.length < 2 ^ 38

section
variable {fs : FileSystem} {msgs : ℤ → Message} {start : ℤ}

section
variable (hwhole : WholeDataWrites fs)
include hwhole

/-- The loop over a batch keeps the invariant, with an error or without. -/
lemma writeLoop_spec (curTime : ℤ) (n : ℕ) :
    ∀ {committer : MessageCommitter}, Inv msgs start committer → Storable committer.config msgs →
    Inv msgs start (writeLoop fs curTime (batch msgs (committer.writedId + 1) n) committer).2
      ∧ committer.committedId
        ≤ (writeLoop fs curTime (batch msgs (committer.writedId + 1) n) committer).2.committedId
      ∧ (writeLoop fs curTime (batch msgs (committer.writedId + 1) n) committer).2.config = committer.config := by
  induction n with
  | zero => exact fun h _ => ⟨h, le_rfl, rfl⟩
  | succ n ih =>
    intro committer h hstorable
    obtain ⟨hinv₁, hcommitted₁, hconfig₁, hsame⟩ := maybeCommit_spec hwhole h curTime
    rw [batch, writeLoop]
    generalize maybeCommit fs committer curTime = result at hinv₁ hcommitted₁ hconfig₁ hsame ⊢
    obtain ⟨error₁, committer₁⟩ := result
    dsimp only at hinv₁ hcommitted₁ hconfig₁ hsame ⊢
    split
    · rename_i herror₁
      obtain ⟨hwrited, hroom⟩ := hsame herror₁
      rw [← hwrited]
      obtain ⟨hcovers₂, hcommitted₂, hconfig₂, hinv₂⟩ := write_spec fs hinv₁
        (hstorable.msgId_eq _) (by rw [hconfig₁]; exact hroom) (by rw [hconfig₁]; exact hstorable.size_lt _)
      generalize write fs committer₁ (msgs (committer₁.writedId + 1)) = result
        at hcovers₂ hcommitted₂ hconfig₂ hinv₂ ⊢
      obtain ⟨error₂, committer₂⟩ := result
      split
      · rename_i herror₂
        obtain ⟨hinv₂, hwrited₂⟩ := hinv₂ herror₂
        -- the number of messages in the file is not part of the invariant
        have hcounted : Inv msgs start
            { committer₂ with fileMessageCount := committer₂.fileMessageCount + 1 } := by
          refine ⟨hinv₂.covers, hinv₂.idle, fun hopened => ?_⟩
          obtain ⟨pair, older, hwriting⟩ := hinv₂.writing hopened
          exact ⟨pair, older, { hwriting with }⟩
        have hnext := ih hcounted (by
          rw [hconfig₂, hconfig₁]
          exact hstorable)
        rw [← hwrited₂]
        exact ⟨hnext.1, hcommitted₁.trans (hcommitted₂.trans hnext.2.1), hnext.2.2.trans (hconfig₂.trans hconfig₁)⟩
      · exact ⟨closeFile_spec fs hcovers₂, hcommitted₁.trans hcommitted₂, hconfig₂.trans hconfig₁⟩
    · exact ⟨hinv₁, hcommitted₁, hconfig₁⟩

/-- `write` of a batch keeps the invariant, and the committed id does not decrease. -/
lemma writeMessages_spec {committer : MessageCommitter}
    (h : Inv msgs start committer) (hstorable : Storable committer.config msgs) (n : ℕ) :
    Inv msgs start (writeMessages fs committer (batch msgs (committer.writedId + 1) n)).2
    ∧ committer.committedId ≤ (writeMessages fs committer (batch msgs (committer.writedId + 1) n)).2.committedId
    ∧ (writeMessages fs committer (batch msgs (committer.writedId + 1) n)).2.config = committer.config := by
  obtain ⟨hinv₁, hcommitted₁, hconfig₁⟩ := writeLoop_spec hwhole (fs.clock committer.calls) n
    (h.withCalls (committer.calls + 1)) hstorable
  rw [writeMessages]
  generalize writeLoop fs (fs.clock committer.calls) (batch msgs (committer.writedId + 1) n)
    { committer with calls := committer.calls + 1 } = result at hinv₁ hcommitted₁ hconfig₁ ⊢
  obtain ⟨error₁, committer₁⟩ := result
  dsimp only at hinv₁ hcommitted₁ hconfig₁ ⊢
  have houtcome := (writeDataBuffer_spec hwhole hinv₁ error₁).1
  generalize writeDataBuffer fs committer₁ error₁ = result at houtcome ⊢
  obtain ⟨error₂, committer₂⟩ := result
  have hcommitted₂ := hcommitted₁.trans houtcome.committedId_le
  have hconfig₂ := houtcome.config_eq.trans hconfig₁
  split
  · rename_i herror
    obtain ⟨hinv₃, hcommitted₃, hconfig₃, -⟩ := maybeCommit_spec hwhole (houtcome.inv herror)
      (fs.clock committer.calls)
    exact ⟨hinv₃, hcommitted₂.trans hcommitted₃, hconfig₃.trans hconfig₂⟩
  · exact ⟨closeFile_spec fs houtcome.covers, hcommitted₂, hconfig₂⟩

/-- The states of a committer that starts with files which have the messages from `start` up to the committed
id.  It is given batches of consecutive messages, each from the one behind the last message written; and a
reader may have seen its file. -/
inductive Reachable (fs : FileSystem) (config : CommitConfig) (msgs : ℤ → Message) (start : ℤ) :
    MessageCommitter → Prop
  | init (committer : MessageCommitter) : committer.config = config →
      Covers msgs start committer.fileManager committer.committedId → committer.opened = false →
      committer.dataBuffer = [] → committer.metaBuffer = [] → committer.writedId = committer.committedId →
      Reachable fs config msgs start committer
  | write (committer : MessageCommitter) (n : ℕ) : Reachable fs config msgs start committer →
      Reachable fs config msgs start (committer.writeMessages fs (batch msgs (committer.writedId + 1) n)).2
  | setCommitFileIsReaded (committer : MessageCommitter) : Reachable fs config msgs start committer →
      Reachable fs config msgs start { committer with commitFileIsReaded := true }

lemma inv_of_reachable {config : CommitConfig} (hstorable : Storable config msgs)
    {committer : MessageCommitter} (h : Reachable fs config msgs start committer) :
    committer.config = config ∧ Inv msgs start committer := by
  induction h with
  | init committer hconfig hcovers hclosed hdata hmeta hwrited =>
    refine ⟨hconfig, hcovers, fun _ => ⟨hdata, hmeta, hwrited⟩, fun hopened => ?_⟩
    rw [hclosed] at hopened
    cases hopened
  | write committer n hreach ih =>
    obtain ⟨hconfig, hinv⟩ := ih
    obtain ⟨hinv', -, hconfig'⟩ := writeMessages_spec hwhole hinv (by rw [hconfig]; exact hstorable) n
    exact ⟨hconfig'.trans hconfig, hinv'⟩
  | setCommitFileIsReaded committer hreach ih =>
    obtain ⟨hconfig, hcovers, hidle, hwriting⟩ := ih
    refine ⟨hconfig, hcovers, hidle, fun hopened => ?_⟩
    obtain ⟨pair, older, hwriting⟩ := hwriting hopened
    exact ⟨pair, older, { hwriting with }⟩

end

/-- In every run in which writes to the data file take all bytes or fail, each message that is counted as
committed can be read from the pair that is selected for it, and the committed id never decreases. -/
theorem committed_stored (fs : FileSystem) (config : CommitConfig) (msgs : ℤ → Message) (start : ℤ)
    (committer : MessageCommitter) (hreach : Reachable fs config msgs start committer)
    (hwhole : WholeDataWrites fs) (hstorable : Storable config msgs) :
    (∀ id, start ≤ id → id ≤ committer.committedId → ∃ pair entry,
        committer.fileManager.getFilePairById id = some pair ∧ pair.beginMessageId ≤ id
          ∧ pair.stored (id - pair.beginMessageId).toNat = some (entry, (msgs id).data)
          ∧ (entry.timestamp : ℤ) = (msgs id).timestamp ∧ entry.payload = (msgs id).uint16Payload
          ∧ entry.maskPayload = (msgs id).uint8MaskPayload ∧ entry.isMerged = (msgs id).merged
          ∧ entry.isCompress = (msgs id).compress)
      ∧ ∀ n, committer.committedId
        ≤ (committer.writeMessages fs (batch msgs (committer.writedId + 1) n)).2.committedId := by
  obtain ⟨hconfig, hinv⟩ := inv_of_reachable hwhole hstorable hreach
  constructor
  · intro id hfirst hlast
    obtain ⟨pair, endPos, hpair, hbegin, hstored⟩ := hinv.covers.stored hstorable.fits hfirst hlast
    obtain ⟨hlow, hhigh⟩ := hstorable.fits id
    refine ⟨pair, _, hpair, hbegin, hstored, ?_, rfl, rfl, rfl, rfl⟩
    rw [fillMeta]
    dsimp only
    omega
  · intro n
    exact (writeMessages_spec hwhole hinv (by rw [hconfig]; exact hstorable) n).2.1

end

/-! ## A message of two bytes -/

/-- A file system without failures, where a write to the data file takes as many bytes as `takes` says. -/
def takingFileSystem (takes : ℕ → ℕ) : FileSystem :=
  ⟨fun _ => true, fun _ length => .wrote (takes length), fun _ length => .wrote length, fun _ => true,
    fun _ => true, fun _ => 0⟩

def eagerConfig : CommitConfig := ⟨0, 0, 1000, 0, 1000, 1000, 1000, 1000, 1000⟩

def twoBytes (id : ℤ) : Message := ⟨id, 7, [1, 2], 3, 4, false, false, 0⟩

/-- A committer without files. -/
def newCommitter : MessageCommitter := ⟨eagerConfig, false, -1, ⟨[]⟩, -1, -1, 0, 0, 0, 0, 0, false, [], [], 0⟩

lemma reachable_newCommitter (fs : FileSystem) : Reachable fs eagerConfig twoBytes 0 newCommitter := by
  refine .init _ rfl ⟨isChain_nil, ?_, ?_, fun _ => rfl⟩ rfl rfl rfl rfl
  · intro pair older hcons
    cases hcons
  · intro pair hlast
    cases hlast

/-- One write to a data file fails and leaves a byte there; the others take all they are given. -/
def failingFileSystem : FileSystem :=
  { takingFileSystem id with dataWrites := fun calls length => if calls = 17 then .failed [9] else .wrote length }

def writeBatch (committer : MessageCommitter) (n : ℕ) : MessageCommitter :=
  (committer.writeMessages failingFileSystem (batch twoBytes (committer.writedId + 1) n)).2

/-- Two messages are committed, the write of the third one fails, and it is written again, to a new file:
all three can be read. -/
theorem committed_stored_afterFailure : ((newCommitter.writeBatch 2).writeBatch 1).committedId = 1
      ∧ (((newCommitter.writeBatch 2).writeBatch 1).writeBatch 1).committedId = 2
      ∧ ∀ id, 0 ≤ id → id ≤ 2 → ∃ pair entry,
        (((newCommitter.writeBatch 2).writeBatch 1).writeBatch 1).fileManager.getFilePairById id = some pair
          ∧ pair.stored (id - pair.beginMessageId).toNat = some (entry, [1, 2]) := by
  have hwhole : WholeDataWrites failingFileSystem := by
    intro calls length count hwrite
    by_cases hcalls : calls = 17
    · simp [failingFileSystem, hcalls] at hwrite
    · simp [failingFileSystem, hcalls] at hwrite
      exact hwrite.le
  have hstorable : Storable eagerConfig twoBytes := by
    refine ⟨fun _ => rfl, fun _ => ⟨?_, ?_⟩, fun _ => ?_⟩
    · change (0 : ℤ) ≤ 7
      decide
    · change (7 : ℤ) < 2 ^ 52
      decide
    · change max (1000 : ℤ) 0 + 2 < 2 ^ 38
      decide
  refine ⟨by decide +kernel, by decide +kernel, fun id hfirst hlast => ?_⟩
  obtain ⟨pair, entry, hpair, -, hstored, -⟩ := (committed_stored failingFileSystem eagerConfig twoBytes 0 _
    (.write _ 1 (.write _ 1 (.write newCommitter 2 (reachable_newCommitter _)))) hwhole hstorable).1 id hfirst
    (hlast.trans (by decide +kernel))
  exact ⟨pair, entry, hpair, hstored⟩

/-- The first write takes one of two bytes and the second write offers both again.  The message is committed
with the bytes of its data file at the wrong place. -/
theorem shortWrite_corrupts : Reachable (takingFileSystem fun _ => 1) eagerConfig twoBytes 0
        (newCommitter.writeMessages (takingFileSystem fun _ => 1) (batch twoBytes 0 1)).2
      ∧ (newCommitter.writeMessages (takingFileSystem fun _ => 1) (batch twoBytes 0 1)).2.committedId = 0
      ∧ ((newCommitter.writeMessages (takingFileSystem fun _ => 1)
          (batch twoBytes 0 1)).2.fileManager.getFilePairById 0).bind (·.stored 0)
        = some (⟨7, 2, false, false, 4, 3⟩, [1, 1]) :=
  ⟨.write newCommitter 1 (reachable_newCommitter _), by decide, by decide⟩

end MessageCommitter

end Havenask.Swift
