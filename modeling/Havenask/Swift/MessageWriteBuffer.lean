import Havenask.Swift.MergedMessage
import Havenask.Swift.RangeUtil

/-!
# The write buffer of a client

`swift/client/MessageWriteBuffer.cpp`: messages that are added wait in the write queue.  A conversion takes all of them
into the queue for merging, collects them there by merge range, merges and compresses them, and puts them into
the queue for sending; it stops in the middle when the block pool is exhausted and goes on the next time.
Responses of the broker advance a cursor in the queue for sending, and messages leave at its front.

Each queued message has its `members`, the messages as they were added.  No function of the buffer looks at them;
they say what a queued message stands for.

* **`Step`**: what a conversion can do in one step.
* **`doConvert_steps`**: it does nothing else, and what it leaves when it succeeds.
-/

namespace Havenask.Swift

open List

open Relation (ReflTransGen)

structure QueuedMessage where
  msg : MessageInfo
  members : List MessageInfo

/-- The merge map: vectors of messages by merge range, in the order of the keys. -/
abbrev MsgMap := List (UInt16 × List QueuedMessage)

namespace MsgMap

/-- The vector of a key, empty if it is not there. -/
def msgsAt (hashId : UInt16) : MsgMap → List QueuedMessage
  | [] => []
  | (key, vec) :: rest =>
    if key = hashId then vec
    else if hashId.toNat < key.toNat then []
    else msgsAt hashId rest

/-- The map with another vector for a key. -/
def setAt (hashId : UInt16) (vec : List QueuedMessage) : MsgMap → MsgMap
  | [] => [(hashId, vec)]
  | (key, old) :: rest =>
    if key = hashId then (hashId, vec) :: rest
    else if hashId.toNat < key.toNat then (hashId, vec) :: (key, old) :: rest
    else (key, old) :: setAt hashId vec rest

def contents (msgMap : MsgMap) : List QueuedMessage := msgMap.flatMap Prod.snd

lemma setAt_split (hashId : UInt16) (msgMap : MsgMap) : ∃ before after,
    (∀ vec, setAt hashId vec msgMap = before ++ (hashId, vec) :: after)
    ∧ contents msgMap = contents before ++ msgsAt hashId msgMap ++ contents after
    ∧ (∀ entry ∈ before, entry ∈ msgMap) ∧ ∀ entry ∈ after, entry ∈ msgMap := by
  induction msgMap with
  | nil => exact ⟨[], [], fun _ => rfl, rfl, fun _ h => h, fun _ h => h⟩
  | cons entry rest ih =>
    obtain ⟨key, old⟩ := entry
    by_cases hkey : key = hashId
    · refine ⟨[], rest, fun vec => ?_, ?_, forall_mem_nil _, fun _ h => mem_cons_of_mem _ h⟩
      · rw [setAt, if_pos hkey, nil_append]
      · rw [msgsAt, if_pos hkey]
        rfl
    by_cases hlt : hashId.toNat < key.toNat
    · refine ⟨[], (key, old) :: rest, fun vec => ?_, ?_, forall_mem_nil _, fun _ h => h⟩
      · rw [setAt, if_neg hkey, if_pos hlt, nil_append]
      · rw [msgsAt, if_neg hkey, if_pos hlt]
        rfl
    obtain ⟨before, after, hset, hcontents, hbefore, hafter⟩ := ih
    refine ⟨(key, old) :: before, after, fun vec => ?_, ?_, ?_, fun entry h => mem_cons_of_mem _ (hafter entry h)⟩
    · rw [setAt, if_neg hkey, if_neg hlt, hset, cons_append]
    · rw [msgsAt, if_neg hkey, if_neg hlt]
      change old ++ contents rest = old ++ contents before ++ _ ++ _
      rw [hcontents]
      simp only [append_assoc]
    · intro entry hmem
      rcases mem_cons.mp hmem with rfl | hmem
      · exact mem_cons_self
      · exact mem_cons_of_mem _ (hbefore entry hmem)

lemma msgsAt_setAt (hashId : UInt16) (vec : List QueuedMessage) (msgMap : MsgMap) :
    msgsAt hashId (setAt hashId vec msgMap) = vec := by
  induction msgMap with
  | nil => rw [setAt, msgsAt, if_pos rfl]
  | cons entry rest ih =>
    obtain ⟨key, old⟩ := entry
    rw [setAt]
    split
    · rw [msgsAt, if_pos rfl]
    rename_i hkey
    split
    · rw [msgsAt, if_pos rfl]
    · rename_i hlt
      rw [msgsAt, if_neg hkey, if_neg hlt, ih]

lemma setAt_msgsAt {hashId : UInt16} {msgMap : MsgMap} (hne : msgsAt hashId msgMap ≠ []) :
    setAt hashId (msgsAt hashId msgMap) msgMap = msgMap := by
  induction msgMap with
  | nil => exact absurd rfl hne
  | cons entry rest ih =>
    obtain ⟨key, old⟩ := entry
    rw [msgsAt] at hne ⊢
    rw [setAt]
    split
    · rename_i hkey
      rw [hkey]
    rename_i hkey
    rw [if_neg hkey] at hne
    split
    · rename_i hlt
      exact absurd (if_pos hlt) hne
    rename_i hlt
    rw [if_neg hlt] at hne
    rw [ih hne]

end MsgMap

structure MergeConfig where
  mergeMsg : Bool
  mergeCount : ℕ
  mergeSize : ℕ
  compressThresholdInBytes : ℕ
  rangeUtil : Option RangeUtil

/-- The range util if messages are merged. -/
def MergeConfig.merging (config : MergeConfig) : Option RangeUtil :=
  if config.mergeMsg then config.rangeUtil else none

/-- What a conversion meets, by the number of the turn: whether the pool has a block, and whether compression
has taken too long. -/
structure ConvertEnv where
  grants : ℕ → Bool
  slow : ℕ → Bool

/-- The containers between the write queue and the broker. -/
structure Pipeline where
  toMergeQueue : List QueuedMessage
  msgMap : MsgMap
  sizeMap : UInt16 → ℕ
  sendQueue : List QueuedMessage

/-- The messages in the pipeline as they were added. -/
def Pipeline.members (pipeline : Pipeline) : List MessageInfo :=
  pipeline.sendQueue.flatMap QueuedMessage.members
    ++ pipeline.msgMap.contents.flatMap QueuedMessage.members
    ++ pipeline.toMergeQueue.flatMap QueuedMessage.members

section
variable (zlib : ZlibCompressor) (config : MergeConfig) (env : ConvertEnv)

/-- Compress a message in its place, unless compression is off. -/
def compressQueued (flag : Bool) (queued : QueuedMessage) : QueuedMessage :=
  if flag then
    { queued with msg := compressMessage zlib config.compressThresholdInBytes queued.msg }
  else queued

/-- The loop of `doConvertMessage` without merging. -/
def convertLoop : ℕ → Bool → List QueuedMessage → Pipeline → Bool × Pipeline
  | _, _, [], pipeline => (true, pipeline)
  | i, flag, queued :: rest, pipeline =>
    let flag := flag && !env.slow i
    let queued := compressQueued zlib config flag queued
    if env.grants i then
      convertLoop (i + 1) flag rest
        { pipeline with toMergeQueue := rest, sendQueue := pipeline.sendQueue ++ [queued] }
    else (false, { pipeline with toMergeQueue := queued :: rest })

/-- A vector of one message is compressed in its place before it is sent. -/
def compressSingle (flag : Bool) : List QueuedMessage → List QueuedMessage
  | [queued] => [compressQueued zlib config flag queued]
  | vec => vec

/-- What is sent for a vector: its message if there is one, or all of them merged and compressed. -/
def packVec (hashId : UInt16) : List QueuedMessage → QueuedMessage
  | [queued] => queued
  | vec =>
    ⟨compressMessage zlib config.compressThresholdInBytes (mergeMessage hashId (vec.map QueuedMessage.msg)),
      vec.flatMap QueuedMessage.members⟩

/-- Send the vector of a key, if the pool has a block. -/
def flushAt (granted flag : Bool) (hashId : UInt16) (pipeline : Pipeline) : Bool × Pipeline :=
  let vec := compressSingle zlib config flag (pipeline.msgMap.msgsAt hashId)
  if granted then
    (true, { pipeline with
      msgMap := pipeline.msgMap.setAt hashId []
      sizeMap := Function.update pipeline.sizeMap hashId 0
      sendQueue := pipeline.sendQueue ++ [packVec zlib config hashId vec] })
  else (false, { pipeline with msgMap := pipeline.msgMap.setAt hashId vec })

/-- A turn for a vector that a failed turn has left full. -/
def flushFull (i : ℕ) (flag : Bool) (hashId : UInt16) (pipeline : Pipeline) : Bool × ℕ × Pipeline :=
  if config.mergeCount ≤ (pipeline.msgMap.msgsAt hashId).length then
    let (success, pipeline) := flushAt zlib config (env.grants i) flag hashId pipeline
    (success, i + 1, pipeline)
  else (true, i, pipeline)

/-- A turn for a message: it joins its vector, which is sent if it is long or large enough. -/
def pushTurn (i : ℕ) (flag : Bool) (hashId : UInt16) (queued : QueuedMessage) (rest : List QueuedMessage)
    (pipeline : Pipeline) : Bool × Pipeline :=
  let vec := pipeline.msgMap.msgsAt hashId ++ [queued]
  let size := pipeline.sizeMap hashId + queued.msg.data.length
  let pipeline := { pipeline with
    toMergeQueue := rest
    msgMap := pipeline.msgMap.setAt hashId vec
    sizeMap := Function.update pipeline.sizeMap hashId size }
  if config.mergeCount ≤ vec.length ∨ config.mergeSize ≤ size then
    flushAt zlib config (env.grants i) flag hashId pipeline
  else (true, pipeline)

/-- The first loop of `mergeMessage`.  (Where `mergeCount` is 0 the source reads the first message of an empty
vector.) -/
def mergeLoop (rangeUtil : RangeUtil) : ℕ → Bool → List QueuedMessage → Pipeline → Bool × ℕ × Bool × Pipeline
  | i, flag, [], pipeline => (true, i, flag, pipeline)
  | i, flag, queued :: rest, pipeline =>
    let hashId := rangeUtil.getMergeHashId queued.msg.uint16Payload
    let flag := flag && !env.slow i
    let (success, i, pipeline) := flushFull zlib config env i flag hashId pipeline
    if success then
      let flag := flag && !env.slow i
      let (success, pipeline) := pushTurn zlib config env i flag hashId queued rest pipeline
      if success then mergeLoop rangeUtil (i + 1) flag rest pipeline else (false, i, flag, pipeline)
    else (false, i, flag, pipeline)

/-- The second loop of `mergeMessage`, over the entries of the map; the sizes stay until all are sent. -/
def flushLoop (flag : Bool) : ℕ → MsgMap → MsgMap → Pipeline → Bool × Pipeline
  | _, _, [], pipeline => (true, { pipeline with msgMap := [], sizeMap := fun _ => 0 })
  | i, done, (hashId, vec) :: rest, pipeline =>
    if vec = [] then flushLoop flag (i + 1) (done ++ [(hashId, [])]) rest pipeline
    else
      let vec := compressSingle zlib config flag vec
      if env.grants i then
        flushLoop flag (i + 1) (done ++ [(hashId, [])]) rest
          { pipeline with
            msgMap := done ++ (hashId, []) :: rest
            sendQueue := pipeline.sendQueue ++ [packVec zlib config hashId vec] }
      else (false, { pipeline with msgMap := done ++ (hashId, vec) :: rest })

def mergeMessages (rangeUtil : RangeUtil) (pipeline : Pipeline) : Bool × Pipeline :=
  let (success, i, flag, pipeline) := mergeLoop zlib config env rangeUtil 0 true pipeline.toMergeQueue pipeline
  if success then flushLoop zlib config env flag i [] pipeline.msgMap pipeline else (false, pipeline)

def doConvert (pipeline : Pipeline) : Bool × Pipeline :=
  match config.merging with
  | some rangeUtil => mergeMessages zlib config env rangeUtil pipeline
  | none => convertLoop zlib config env 0 true pipeline.toMergeQueue pipeline

end

/-! ## The steps of a conversion -/

/-- What a conversion does in one step. -/
inductive Step (zlib : ZlibCompressor) (config : MergeConfig) : Pipeline → Pipeline → Prop
  | compressFront (pipeline : Pipeline) (flag : Bool) (queued : QueuedMessage) (rest : List QueuedMessage) :
      pipeline.toMergeQueue = queued :: rest →
      Step zlib config pipeline
        { pipeline with toMergeQueue := compressQueued zlib config flag queued :: rest }
  | sendFront (pipeline : Pipeline) (queued : QueuedMessage) (rest : List QueuedMessage) :
      config.merging = none → pipeline.toMergeQueue = queued :: rest →
      Step zlib config pipeline
        { pipeline with toMergeQueue := rest, sendQueue := pipeline.sendQueue ++ [queued] }
  | push (pipeline : Pipeline) (rangeUtil : RangeUtil) (queued : QueuedMessage) (rest : List QueuedMessage) :
      config.merging = some rangeUtil → pipeline.toMergeQueue = queued :: rest →
      (pipeline.msgMap.msgsAt (rangeUtil.getMergeHashId queued.msg.uint16Payload)).length
        < config.mergeCount →
      Step zlib config pipeline
        { pipeline with
          toMergeQueue := rest
          msgMap := pipeline.msgMap.setAt (rangeUtil.getMergeHashId queued.msg.uint16Payload)
            (pipeline.msgMap.msgsAt (rangeUtil.getMergeHashId queued.msg.uint16Payload) ++ [queued]) }
  | compressAt (pipeline : Pipeline) (flag : Bool) (before after : MsgMap) (hashId : UInt16)
      (vec : List QueuedMessage) : pipeline.msgMap = before ++ (hashId, vec) :: after →
      Step zlib config pipeline
        { pipeline with msgMap := before ++ (hashId, compressSingle zlib config flag vec) :: after }
  | flush (pipeline : Pipeline) (before after : MsgMap) (hashId : UInt16) (vec : List QueuedMessage) :
      pipeline.msgMap = before ++ (hashId, vec) :: after → vec ≠ [] →
      Step zlib config pipeline
        { pipeline with
          msgMap := before ++ (hashId, []) :: after
          sendQueue := pipeline.sendQueue ++ [packVec zlib config hashId vec] }
  | setSizes (pipeline : Pipeline) (sizeMap : UInt16 → ℕ) :
      Step zlib config pipeline { pipeline with sizeMap := sizeMap }
  | clearMap (pipeline : Pipeline) : (∀ entry ∈ pipeline.msgMap, entry.2 = []) →
      Step zlib config pipeline { pipeline with msgMap := [] }

section
variable (zlib : ZlibCompressor) {config : MergeConfig} (env : ConvertEnv)

lemma compressSingle_ne_nil {flag : Bool} {vec : List QueuedMessage} (hne : vec ≠ []) :
    compressSingle zlib config flag vec ≠ [] := by
  cases vec with
  | nil => exact absurd rfl hne
  | cons queued rest =>
    cases rest with
    | nil => exact cons_ne_nil _ _
    | cons next rest => exact cons_ne_nil _ _

lemma convertLoop_steps (hmerging : config.merging = none) (queue : List QueuedMessage) :
    ∀ (i : ℕ) (flag : Bool) (pipeline : Pipeline), pipeline.toMergeQueue = queue →
    ReflTransGen (Step zlib config) pipeline (convertLoop zlib config env i flag queue pipeline).2
      ∧ ((convertLoop zlib config env i flag queue pipeline).1 = true →
        (convertLoop zlib config env i flag queue pipeline).2.toMergeQueue = [])
      ∧ (convertLoop zlib config env i flag queue pipeline).2.msgMap = pipeline.msgMap := by
  induction queue with
  | nil => exact fun _ _ _ hqueue => ⟨.refl, fun _ => hqueue, rfl⟩
  | cons queued rest ih =>
    intro i flag pipeline hqueue
    rw [convertLoop]
    have hcompress : Step zlib config pipeline _ := .compressFront pipeline (flag && !env.slow i) queued rest hqueue
    split
    · obtain ⟨hsteps, hempty, hmap⟩ := ih (i + 1) (flag && !env.slow i) { pipeline with
        toMergeQueue := rest
        sendQueue := pipeline.sendQueue ++ [compressQueued zlib config (flag && !env.slow i) queued] } rfl
      exact ⟨.head hcompress (.head (.sendFront _ _ rest hmerging rfl) hsteps), hempty, hmap⟩
    · exact ⟨.single hcompress, nofun, rfl⟩

lemma flushAt_steps (config : MergeConfig) (granted flag : Bool) {hashId : UInt16} (pipeline : Pipeline)
    (hne : pipeline.msgMap.msgsAt hashId ≠ []) :
    ReflTransGen (Step zlib config) pipeline (flushAt zlib config granted flag hashId pipeline).2
    ∧ (flushAt zlib config granted flag hashId pipeline).2.toMergeQueue = pipeline.toMergeQueue
    ∧ ((flushAt zlib config granted flag hashId pipeline).1 = true →
      (flushAt zlib config granted flag hashId pipeline).2.msgMap.msgsAt hashId = []) := by
  obtain ⟨before, after, hset, -⟩ := MsgMap.setAt_split hashId pipeline.msgMap
  have hmap := MsgMap.setAt_msgsAt hne
  rw [hset] at hmap
  have hcompress : Step zlib config pipeline _ := .compressAt pipeline flag before after hashId _ hmap.symm
  rw [flushAt]
  split
  · refine ⟨.head hcompress (.head (.flush _ before after hashId _ rfl (compressSingle_ne_nil zlib hne))
      (.single ?_)), rfl, fun _ => MsgMap.msgsAt_setAt _ _ _⟩
    rw [hset]
    exact .setSizes _ _
  · rw [hset]
    exact ⟨.single hcompress, rfl, nofun⟩

lemma flushFull_steps (hcount : 0 < config.mergeCount) (i : ℕ) (flag : Bool) (hashId : UInt16) (pipeline : Pipeline) :
    ReflTransGen (Step zlib config) pipeline (flushFull zlib config env i flag hashId pipeline).2.2
    ∧ (flushFull zlib config env i flag hashId pipeline).2.2.toMergeQueue = pipeline.toMergeQueue
    ∧ ((flushFull zlib config env i flag hashId pipeline).1 = true →
      ((flushFull zlib config env i flag hashId pipeline).2.2.msgMap.msgsAt hashId).length
        < config.mergeCount) := by
  rw [flushFull]
  split
  · rename_i hfull
    have hne : pipeline.msgMap.msgsAt hashId ≠ [] := by
      intro hnil
      rw [hnil, length_nil] at hfull
      omega
    obtain ⟨hsteps, hsame, hempty⟩ := flushAt_steps zlib config (env.grants i) flag pipeline hne
    refine ⟨hsteps, hsame, fun hsuccess => ?_⟩
    rw [hempty hsuccess]
    exact hcount
  · rename_i hfull
    exact ⟨.refl, rfl, fun _ => Nat.lt_of_not_le hfull⟩

lemma pushTurn_steps {rangeUtil : RangeUtil} (hmerging : config.merging = some rangeUtil) (i : ℕ)
    (flag : Bool) {queued : QueuedMessage} {rest : List QueuedMessage} {pipeline : Pipeline}
    (hqueue : pipeline.toMergeQueue = queued :: rest)
    (hroom : (pipeline.msgMap.msgsAt (rangeUtil.getMergeHashId queued.msg.uint16Payload)).length
    < config.mergeCount) : ReflTransGen (Step zlib config) pipeline (pushTurn zlib config env i flag
      (rangeUtil.getMergeHashId queued.msg.uint16Payload) queued rest pipeline).2
    ∧ (pushTurn zlib config env i flag (rangeUtil.getMergeHashId queued.msg.uint16Payload) queued rest
      pipeline).2.toMergeQueue = rest := by
  have hpush : Step zlib config pipeline _ := .push pipeline rangeUtil queued rest hmerging hqueue hroom
  rw [pushTurn]
  split
  · obtain ⟨hsteps, hsame, -⟩ := flushAt_steps zlib config (env.grants i) flag {
      pipeline with
        toMergeQueue := rest
        msgMap := pipeline.msgMap.setAt (rangeUtil.getMergeHashId queued.msg.uint16Payload)
          (pipeline.msgMap.msgsAt (rangeUtil.getMergeHashId queued.msg.uint16Payload) ++ [queued])
        sizeMap := Function.update pipeline.sizeMap (rangeUtil.getMergeHashId queued.msg.uint16Payload)
          (pipeline.sizeMap (rangeUtil.getMergeHashId queued.msg.uint16Payload) + queued.msg.data.length) }
      (show MsgMap.msgsAt (rangeUtil.getMergeHashId queued.msg.uint16Payload) _ ≠ [] by
        rw [MsgMap.msgsAt_setAt]
        simp)
    exact ⟨.head hpush (.head (.setSizes _ _) hsteps), hsame⟩
  · exact ⟨.head hpush (.single (.setSizes _ _)), rfl⟩

lemma mergeLoop_steps {rangeUtil : RangeUtil} (hmerging : config.merging = some rangeUtil)
    (hcount : 0 < config.mergeCount) (queue : List QueuedMessage) :
    ∀ (i : ℕ) (flag : Bool) (pipeline : Pipeline), pipeline.toMergeQueue = queue →
    ReflTransGen (Step zlib config) pipeline (mergeLoop zlib config env rangeUtil i flag queue pipeline).2.2.2
      ∧ ((mergeLoop zlib config env rangeUtil i flag queue pipeline).1 = true →
        (mergeLoop zlib config env rangeUtil i flag queue pipeline).2.2.2.toMergeQueue = []) := by
  induction queue with
  | nil => exact fun _ _ _ hqueue => ⟨.refl, fun _ => hqueue⟩
  | cons queued rest ih =>
    intro i flag pipeline hqueue
    rw [mergeLoop]
    dsimp only
    obtain ⟨hsteps₁, hqueue₁, hroom⟩ := flushFull_steps zlib env hcount i
      (flag && !env.slow i) (rangeUtil.getMergeHashId queued.msg.uint16Payload) pipeline
    generalize flushFull zlib config env i (flag && !env.slow i)
      (rangeUtil.getMergeHashId queued.msg.uint16Payload) pipeline = result₁ at hsteps₁ hqueue₁ hroom ⊢
    split
    · rename_i hsuccess₁
      obtain ⟨hsteps₂, hqueue₂⟩ := pushTurn_steps zlib env hmerging result₁.2.1
        (flag && !env.slow i && !env.slow result₁.2.1) (hqueue₁.trans hqueue) (hroom hsuccess₁)
      generalize pushTurn zlib config env result₁.2.1 (flag && !env.slow i && !env.slow result₁.2.1)
        (rangeUtil.getMergeHashId queued.msg.uint16Payload) queued rest result₁.2.2 = result₂
        at hsteps₂ hqueue₂ ⊢
      split
      · obtain ⟨hsteps₃, hempty⟩ := ih (result₁.2.1 + 1) (flag && !env.slow i && !env.slow result₁.2.1)
          result₂.2 hqueue₂
        exact ⟨(hsteps₁.trans hsteps₂).trans hsteps₃, hempty⟩
      · exact ⟨hsteps₁.trans hsteps₂, nofun⟩
    · exact ⟨hsteps₁, nofun⟩

lemma flushLoop_steps (flag : Bool) (rest : MsgMap) : ∀ (i : ℕ) (done : MsgMap) (pipeline : Pipeline),
    pipeline.msgMap = done ++ rest → (∀ entry ∈ done, entry.2 = []) →
    ReflTransGen (Step zlib config) pipeline (flushLoop zlib config env flag i done rest pipeline).2
      ∧ (flushLoop zlib config env flag i done rest pipeline).2.toMergeQueue = pipeline.toMergeQueue
      ∧ ((flushLoop zlib config env flag i done rest pipeline).1 = true →
        (flushLoop zlib config env flag i done rest pipeline).2.msgMap = []) := by
  induction rest with
  | nil =>
    intro i done pipeline hmap hdone
    rw [append_nil] at hmap
    refine ⟨.head (.clearMap pipeline (by rw [hmap]; exact hdone)) (.single ?_), rfl, fun _ => rfl⟩
    exact .setSizes _ _
  | cons entry rest ih =>
    obtain ⟨hashId, vec⟩ := entry
    intro i done pipeline hmap hdone
    have hdone' : ∀ entry ∈ done ++ [(hashId, [])], entry.2 = [] := by
      intro entry hmem
      rcases mem_append.mp hmem with hmem | hmem
      · exact hdone entry hmem
      · rw [mem_singleton.mp hmem]
    rw [flushLoop]
    split
    · rename_i hnil
      refine ih (i + 1) (done ++ [(hashId, [])]) pipeline ?_ hdone'
      rw [hmap, hnil, append_assoc, singleton_append]
    rename_i hne
    have hcompress : Step zlib config pipeline _ := .compressAt pipeline flag done rest hashId vec hmap
    split
    · obtain ⟨hsteps, hsame, hempty⟩ := ih (i + 1) (done ++ [(hashId, [])]) { pipeline with
        msgMap := done ++ (hashId, []) :: rest
        sendQueue := pipeline.sendQueue
          ++ [packVec zlib config hashId (compressSingle zlib config flag vec)] }
        (by rw [append_assoc, singleton_append]) hdone'
      exact ⟨.head hcompress (.head (.flush _ done rest hashId _ rfl (compressSingle_ne_nil zlib hne)) hsteps),
        hsame, hempty⟩
    · exact ⟨.single hcompress, rfl, nofun⟩

/-- A conversion goes by such steps.  Where it succeeds nothing waits any more, in the map only if messages are
merged. -/
lemma doConvert_steps (hcount : 0 < config.mergeCount) (pipeline : Pipeline) :
    ReflTransGen (Step zlib config) pipeline (doConvert zlib config env pipeline).2
    ∧ ((doConvert zlib config env pipeline).1 = true → (doConvert zlib config env pipeline).2.toMergeQueue = []
        ∧ ((doConvert zlib config env pipeline).2.msgMap = []
          ∨ (config.merging = none ∧ (doConvert zlib config env pipeline).2.msgMap = pipeline.msgMap))) := by
  rw [doConvert.eq_def]
  cases hmerging : config.merging with
  | none =>
    obtain ⟨hsteps, hempty, hmap⟩ := convertLoop_steps zlib env hmerging
      pipeline.toMergeQueue 0 true pipeline rfl
    exact ⟨hsteps, fun hsuccess => ⟨hempty hsuccess, .inr ⟨rfl, hmap⟩⟩⟩
  | some rangeUtil =>
    dsimp only
    rw [mergeMessages]
    dsimp only
    obtain ⟨hsteps₁, hempty₁⟩ := mergeLoop_steps zlib env hmerging hcount pipeline.toMergeQueue 0 true pipeline rfl
    generalize mergeLoop zlib config env rangeUtil 0 true pipeline.toMergeQueue pipeline = result at hsteps₁ hempty₁ ⊢
    split
    · rename_i hsuccess₁
      obtain ⟨hsteps₂, hsame, hempty₂⟩ := flushLoop_steps zlib env
        result.2.2.1 result.2.2.2.msgMap result.2.1 [] result.2.2.2 rfl
        (forall_mem_nil _)
      exact ⟨hsteps₁.trans hsteps₂, fun hsuccess₂ => ⟨hsame.trans (hempty₁ hsuccess₁), .inl (hempty₂ hsuccess₂)⟩⟩
    · exact ⟨hsteps₁, nofun⟩

end

structure MessageWriteBuffer where
  writeQueue : List QueuedMessage
  pipeline : Pipeline
  /-- The ranges of ids of messages that are accepted and not committed. -/
  uncommittedMsgs : List (ℤ × ℤ)
  unsendCursor : ℕ
  canAdd : Bool
  isSealed : Bool
  minCheckpointIdInMerge : ℤ
  ignoreUpdate : Bool
  config : MergeConfig

namespace MessageWriteBuffer

/-- `addWriteMessage`; the limiter may refuse. -/
def addWriteMessage (limiterAllows : Bool) (buffer : MessageWriteBuffer) (msg : MessageInfo) :
    Bool × MessageWriteBuffer :=
  if buffer.isSealed then (false, buffer)
  else if msg.compress || msg.isMerged then (false, buffer)
  else if !buffer.canAdd then (false, buffer)
  else if !limiterAllows then (false, buffer)
  else (true, { buffer with writeQueue := buffer.writeQueue ++ [⟨msg, [msg]⟩] })

variable (buffer : MessageWriteBuffer)

def isLastConvertFinished : Bool :=
  buffer.pipeline.toMergeQueue.isEmpty && buffer.pipeline.msgMap.isEmpty

variable (zlib : ZlibCompressor)

/-- `doConvertMessage`: where it succeeds, nothing is in merge any more. -/
def doConvertMessage (env : ConvertEnv) (buffer : MessageWriteBuffer) :
    Bool × MessageWriteBuffer :=
  let (success, pipeline) := doConvert zlib buffer.config env buffer.pipeline
  (success, { buffer with
    pipeline := pipeline
    minCheckpointIdInMerge := if success then -1 else buffer.minCheckpointIdInMerge })

/-- The write queue becomes the queue for merging. -/
def swapQueues : MessageWriteBuffer :=
  { buffer with
    writeQueue := buffer.pipeline.toMergeQueue
    pipeline := { buffer.pipeline with toMergeQueue := buffer.writeQueue } }

def convertMessage (env : ConvertEnv) (buffer : MessageWriteBuffer) : MessageWriteBuffer :=
  if buffer.isLastConvertFinished then
    match buffer.writeQueue with
    | [] => buffer
    | first :: _ =>
      let buffer := { buffer.swapQueues with minCheckpointIdInMerge := first.msg.checkpointId }
      let (success, buffer) := buffer.doConvertMessage zlib env
      { buffer with canAdd := success }
  else
    let (success, buffer) := buffer.doConvertMessage zlib env
    { buffer with canAdd := success }

def clear : MessageWriteBuffer :=
  { buffer with
    writeQueue := []
    pipeline := ⟨[], [], fun _ => 0, []⟩
    uncommittedMsgs := []
    unsendCursor := 0
    minCheckpointIdInMerge := -1
    ignoreUpdate := true }

/-- One queued message of `getUnSendMsgs`. -/
def unsentMessages (msg : MessageInfo) : Option (List MessageInfo) :=
  let msg := if msg.compress then decompressMessageInfo zlib msg else msg
  if msg.isMerged then unpackMessageInfo zlib msg else some [msg]

def getUnSendMsgs (buffer : MessageWriteBuffer) : Option (List MessageInfo) :=
  ((buffer.pipeline.sendQueue.drop buffer.unsendCursor).mapM fun queued =>
    unsentMessages zlib queued.msg).map List.flatten

/-- The two conversions of `stealUnsendMessage`, of what is in merge and of the write queue; they meet different
pools. -/
def convertAll (env env' : ConvertEnv) (buffer : MessageWriteBuffer) :
    Bool × MessageWriteBuffer :=
  let (success, buffer) := buffer.doConvertMessage zlib env
  if success && !buffer.writeQueue.isEmpty then buffer.swapQueues.doConvertMessage zlib env'
  else (success, buffer)

/-- `stealUnsendMessage`: what is returned, and the messages. -/
def stealUnsendMessage (env env' : ConvertEnv) (buffer : MessageWriteBuffer) :
    Bool × List MessageInfo × MessageWriteBuffer :=
  if buffer.writeQueue.isEmpty && buffer.pipeline.toMergeQueue.isEmpty && buffer.pipeline.sendQueue.isEmpty then
    (true, [], buffer)
  else
    let (success, buffer) := buffer.convertAll zlib env env'
    if success then
      match buffer.getUnSendMsgs zlib with
      | none => (false, [], buffer)
      | some msgs => (true, msgs, buffer.clear)
    else (false, [], buffer)

/-! ## Responses -/

def updateSendBuffer (acceptedMsgCount : ℕ) : MessageWriteBuffer :=
  { buffer with unsendCursor := buffer.unsendCursor + acceptedMsgCount }

/-- The loop of `updateCommitBuffer`. -/
def commitLoop (committedId : ℤ) : List (ℤ × ℤ) → ℤ × List (ℤ × ℤ)
  | [] => (0, [])
  | (first, last) :: rest =>
    if committedId ≥ last then
      let (count, rest) := commitLoop committedId rest
      (last - first + 1 + count, rest)
    else if committedId < first then (0, (first, last) :: rest)
    else (committedId - first + 1, (committedId + 1, last) :: rest)

/-- `updateCommitBuffer`; the timestamps are left out. -/
def updateCommitBuffer (committedId acceptedMsgBeginId : ℤ) (acceptedMsgCount : ℕ)
    (buffer : MessageWriteBuffer) : ℤ × MessageWriteBuffer :=
  let uncommittedMsgs := buffer.uncommittedMsgs ++
    if acceptedMsgCount > 0 then [(acceptedMsgBeginId, acceptedMsgBeginId + acceptedMsgCount - 1)] else []
  let (committedCount, uncommittedMsgs) := commitLoop committedId uncommittedMsgs
  (committedCount, { buffer with uncommittedMsgs := uncommittedMsgs })

/-- `popWriteMessage`: the checkpoint of the last message that leaves, or -1. -/
def popWriteMessage (count : ℕ) (buffer : MessageWriteBuffer) : ℤ × MessageWriteBuffer :=
  let popped := buffer.pipeline.sendQueue.take count
  ((popped.getLast?.map (·.msg.checkpointId)).getD (-1),
    { buffer with
      pipeline := { buffer.pipeline with sendQueue := buffer.pipeline.sendQueue.drop count }
      unsendCursor := buffer.unsendCursor - popped.length })

/-- `updateBuffer` without safe mode. -/
def updateBuffer (acceptedMsgCount : ℕ) (buffer : MessageWriteBuffer) : ℤ × MessageWriteBuffer :=
  if acceptedMsgCount = 0 then (-1, buffer)
  else if buffer.ignoreUpdate then (-1, buffer)
  else popWriteMessage acceptedMsgCount (buffer.updateSendBuffer acceptedMsgCount)

/-- `updateBuffer` in safe mode. -/
def updateBufferSafe (acceptedMsgCount : ℕ) (committedId acceptedMsgBeginId : ℤ) (buffer : MessageWriteBuffer) :
    ℤ × MessageWriteBuffer :=
  if buffer.ignoreUpdate then (-1, buffer)
  else
    let (committedCount, buffer) := updateCommitBuffer committedId acceptedMsgBeginId acceptedMsgCount
      (buffer.updateSendBuffer acceptedMsgCount)
    if committedCount ≤ 0 then (-1, buffer) else popWriteMessage committedCount.toNat buffer

def resetUnsendCursor : MessageWriteBuffer :=
  { buffer with unsendCursor := 0, uncommittedMsgs := [] }

def latestCheckPointId : Option ℤ :=
  match buffer.pipeline.sendQueue with
  | front :: _ => some front.msg.checkpointId
  | [] =>
    if buffer.minCheckpointIdInMerge ≠ -1 then some buffer.minCheckpointIdInMerge
    else buffer.writeQueue.head?.map (·.msg.checkpointId)

end MessageWriteBuffer

end Havenask.Swift
