import Havenask.Swift.MergedMessage

/-!
# The buffer of a reader

`swift/client/MessageReadBuffer.cpp`: responses of the broker wait in a list; `read` hands their messages
out one by one and takes merged messages apart on the way.  A counter says how many messages are left.

* **`fillMessage_spec`**: filling loses nothing, and it fails only when nothing is left.
* **`readAll_eq_pending`**: reading to the end gives exactly what is pending.
-/

namespace Havenask.Swift

open List

structure MessageReadBuffer where
  frontResponse : List Message
  responseList : List (List Message)
  unReadMsgCount : ℤ
  unpackMsgVec : List Message

namespace MessageReadBuffer

def empty : MessageReadBuffer := ⟨[], [], 0, []⟩

/-- One message in `MessageCompressor::decompressMessage`: if it fails, the message stays as it is. -/
def decompressMessage (zlib : ZlibCompressor) (msg : Message) : Message :=
  if msg.compress then
    match if msg.merged then decompressMergedMessage zlib msg.data else zlib.decompress msg.data with
    | none => msg
    | some data => { msg with data := data, compress := false }
  else msg

/-- `addResponse`, when its messages have been decompressed. -/
def addResponse (zlib : ZlibCompressor) (buffer : MessageReadBuffer) (msgs : List Message)
    (totalMsgCount : ℕ) : MessageReadBuffer :=
  if 0 < totalMsgCount then
    { buffer with
      responseList := buffer.responseList ++ [msgs.map (decompressMessage zlib)]
      unReadMsgCount := buffer.unReadMsgCount + totalMsgCount }
  else buffer

/-- `getNextResponse`: the first response that has messages, and the responses behind it. -/
def getNextResponse : List (List Message) → List Message × List (List Message)
  | [] => ([], [])
  | [] :: responses => getNextResponse responses
  | (msg :: msgs) :: responses => (msg :: msgs, responses)

/-- `doRead`.  Without a response that has messages, none are left and the counter is reset. -/
def doRead (buffer : MessageReadBuffer) : Option Message × MessageReadBuffer :=
  match buffer.frontResponse with
  | msg :: msgs => (some msg, { buffer with frontResponse := msgs })
  | [] =>
    match getNextResponse buffer.responseList with
    | ([], responses) => (none, { buffer with responseList := responses, unReadMsgCount := 0 })
    | (msg :: msgs, responses) =>
      (some msg, { buffer with frontResponse := msgs, responseList := responses })

section
variable (zlib : ZlibCompressor) (metaFilter : Option MessageFilter)

def fillLoop : ℕ → MessageReadBuffer → Bool × MessageReadBuffer
  | 0, buffer => (false, buffer)
  | fuel + 1, buffer =>
    match buffer.doRead with
    | (none, buffer) => (false, buffer)
    | (some msg, buffer) =>
      if msg.merged then
        match unpackMessage zlib false msg.data msg.msgId msg.timestamp metaFilter with
        | none => fillLoop fuel { buffer with unpackMsgVec := [] }
        | some (messages, totalCount) =>
          let buffer := { buffer with
            unpackMsgVec := messages
            unReadMsgCount := buffer.unReadMsgCount + (messages.length - totalCount) }
          if messages.isEmpty then fillLoop fuel buffer else (true, buffer)
      else (true, { buffer with unpackMsgVec := [msg] })

/-- The messages in the responses that are left. -/
def unread (buffer : MessageReadBuffer) : List Message := buffer.frontResponse ++ buffer.responseList.flatten

/-- `fillMessage`.  A turn of the loop takes a message, so that there is no turn beyond them. -/
def fillMessage (buffer : MessageReadBuffer) : Bool × MessageReadBuffer :=
  if buffer.unpackMsgVec ≠ [] then (true, buffer)
  else if buffer.unReadMsgCount ≤ 0 then (false, buffer)
  else fillLoop zlib metaFilter (buffer.unread.length + 1) buffer

/-- The end of `read`, which takes the next message of the vector. -/
def takeMessage (buffer : MessageReadBuffer) : Option Message × MessageReadBuffer :=
  match buffer.unpackMsgVec with
  | [] => (none, buffer)
  | msg :: msgs =>
    (some msg, { buffer with unpackMsgVec := msgs, unReadMsgCount := buffer.unReadMsgCount - 1 })

def read (buffer : MessageReadBuffer) : Option Message × MessageReadBuffer :=
  let (filled, buffer) := fillMessage zlib metaFilter buffer
  if filled then buffer.takeMessage else (none, buffer)

/-- `getFirstMsgTimestamp`: the timestamp of the next message, `-1` if there is none. -/
def getFirstMsgTimestamp (buffer : MessageReadBuffer) : ℤ × MessageReadBuffer :=
  let (filled, buffer) := fillMessage zlib metaFilter buffer
  if filled then (((buffer.unpackMsgVec.head?).map Message.timestamp).getD (-1), buffer)
  else (-1, buffer)

/-- A reader that calls `read` until it fails, and a number of times at most. -/
def readAll : ℕ → MessageReadBuffer → List Message
  | 0, _ => []
  | fuel + 1, buffer =>
    match read zlib metaFilter buffer with
    | (none, _) => []
    | (some msg, buffer) => msg :: readAll fuel buffer

/-! ## What is pending -/

/-- What a message of a response turns into. -/
def delivered (msg : Message) : List Message :=
  if msg.merged then
    ((unpackMessage zlib false msg.data msg.msgId msg.timestamp metaFilter).map Prod.fst).getD []
  else [msg]

/-- How many messages of the counter a message stands for. -/
def msgCount (msg : Message) : ℕ :=
  if msg.merged then
    ((unpackMessage zlib false msg.data msg.msgId msg.timestamp metaFilter).map Prod.snd).getD 0
  else 1

/-- All that a reader still gets. -/
def pending (buffer : MessageReadBuffer) : List Message :=
  buffer.unpackMsgVec ++ buffer.unread.flatMap (delivered zlib metaFilter)

/-- The counter does not fall short of what is left. -/
def Counted (buffer : MessageReadBuffer) : Prop :=
  (buffer.unpackMsgVec.length + (buffer.unread.map (msgCount zlib metaFilter)).sum : ℕ) ≤ buffer.unReadMsgCount

end

variable {zlib : ZlibCompressor} {metaFilter : Option MessageFilter} {buffer : MessageReadBuffer}

/-! ## Filling -/

lemma getNextResponse_flatten (responses : List (List Message)) :
    (getNextResponse responses).1 ++ (getNextResponse responses).2.flatten = responses.flatten
    ∧ ((getNextResponse responses).1 = [] → (getNextResponse responses).2 = []) := by
  induction responses with
  | nil => exact ⟨rfl, fun _ => rfl⟩
  | cons msgs responses ih =>
    cases msgs with
    | nil => exact ih
    | cons msg msgs => exact ⟨rfl, fun h => absurd h (cons_ne_nil _ _)⟩

lemma doRead_some {msg : Message} {buffer' : MessageReadBuffer} (h : buffer.doRead = (some msg, buffer')) :
    buffer.unread = msg :: buffer'.unread ∧ buffer'.unReadMsgCount = buffer.unReadMsgCount
    ∧ buffer'.unpackMsgVec = buffer.unpackMsgVec := by
  rw [doRead] at h
  split at h
  · rename_i msg' msgs hfront
    obtain ⟨rfl, rfl⟩ := Prod.mk.inj (by simpa using h)
    exact ⟨by simp [unread, hfront], rfl, rfl⟩
  rename_i hfront
  have hflatten := (getNextResponse_flatten buffer.responseList).1
  split at h
  · cases (Prod.mk.inj h).1
  rename_i msg' msgs responses hnext
  obtain ⟨rfl, rfl⟩ := Prod.mk.inj (by simpa using h)
  rw [hnext] at hflatten
  exact ⟨by rw [unread, hfront, ← hflatten]; rfl, rfl, rfl⟩

/-- `doRead` fails only when nothing is left. -/
lemma doRead_none {buffer' : MessageReadBuffer} (h : buffer.doRead = (none, buffer')) :
    buffer.unread = [] ∧ buffer'.unread = [] ∧ buffer'.unpackMsgVec = buffer.unpackMsgVec
    ∧ buffer'.unReadMsgCount = 0 := by
  rw [doRead] at h
  split at h
  · cases (Prod.mk.inj h).1
  rename_i hfront
  obtain ⟨hflatten, hend⟩ := getNextResponse_flatten buffer.responseList
  split at h
  · rename_i responses hnext
    cases h
    rw [hnext] at hflatten hend
    obtain rfl := hend rfl
    exact ⟨by rw [unread, hfront, ← hflatten]; rfl, by rw [unread, hfront]; rfl, rfl, rfl⟩
  · cases (Prod.mk.inj h).1

/-- A buffer without messages to hand out is filled: nothing is lost, and a failure means that nothing was
there. -/
lemma fillLoop_spec (fuel : ℕ) : ∀ {buffer : MessageReadBuffer}, buffer.unread.length < fuel →
    buffer.unpackMsgVec = [] → Counted zlib metaFilter buffer →
    pending zlib metaFilter (fillLoop zlib metaFilter fuel buffer).2 = pending zlib metaFilter buffer
    ∧ Counted zlib metaFilter (fillLoop zlib metaFilter fuel buffer).2
    ∧ ((fillLoop zlib metaFilter fuel buffer).1 = true
      ↔ (fillLoop zlib metaFilter fuel buffer).2.unpackMsgVec ≠ [])
    ∧ ((fillLoop zlib metaFilter fuel buffer).1 = false → pending zlib metaFilter buffer = []) := by
  induction fuel with
  | zero => exact fun hfuel => absurd hfuel (Nat.not_lt_zero _)
  | succ fuel ih =>
    intro buffer hfuel hempty hcounted
    rw [fillLoop]
    rcases hread : buffer.doRead with ⟨_ | msg, buffer'⟩
    · obtain ⟨hnil, hnil', hvec, hcount⟩ := doRead_none hread
      rw [hempty] at hvec
      have hpending : pending zlib metaFilter buffer = [] := by rw [pending, hempty, hnil]; rfl
      have hpending' : pending zlib metaFilter buffer' = [] := by rw [pending, hvec, hnil']; rfl
      refine ⟨hpending'.trans hpending.symm, ?_, by simp [hvec], fun _ => hpending⟩
      rw [Counted, hvec, hnil', hcount]
      exact le_rfl
    obtain ⟨hunread, hcount, hvec⟩ := doRead_some hread
    have hle := hcounted
    have hlength : buffer'.unread.length < fuel := by
      rw [hunread, length_cons] at hfuel
      omega
    have hpending : pending zlib metaFilter buffer = delivered zlib metaFilter msg
        ++ buffer'.unread.flatMap (delivered zlib metaFilter) := by
      rw [pending, hempty, hunread, flatMap_cons]
      rfl
    rw [Counted, hempty, hunread, map_cons, sum_cons, length_nil, zero_add] at hle
    rw [hpending]
    dsimp only
    by_cases hmerged : msg.merged = true
    · rw [if_pos hmerged]
      rw [msgCount, if_pos hmerged] at hle
      rw [delivered, if_pos hmerged]
      rcases hunpack : unpackMessage zlib false msg.data msg.msgId msg.timestamp metaFilter with
        _ | ⟨messages, total⟩
      · rw [hunpack] at hle
        refine ih hlength rfl ?_
        change ((([] : List Message).length + (buffer'.unread.map _).sum : ℕ) : ℤ) ≤ buffer'.unReadMsgCount
        rw [hcount]
        simpa using hle
      rw [hunpack] at hle
      have hnext : Counted zlib metaFilter { buffer' with
          unpackMsgVec := messages
          unReadMsgCount := buffer'.unReadMsgCount + (messages.length - total) } := by
        change ((messages.length + (buffer'.unread.map _).sum : ℕ) : ℤ)
          ≤ buffer'.unReadMsgCount + (messages.length - total)
        rw [hcount]
        simp only [Option.map_some, Option.getD_some] at hle
        push_cast at hle ⊢
        linarith
      simp only [Option.map_some, Option.getD_some]
      cases messages with
      | nil =>
        rw [if_pos (by rfl)]
        exact ih hlength rfl hnext
      | cons message messages =>
        rw [if_neg (by simp)]
        exact ⟨rfl, hnext, by simp, by simp⟩
    · rw [if_neg hmerged]
      rw [msgCount, if_neg hmerged] at hle
      rw [delivered, if_neg hmerged]
      refine ⟨rfl, ?_, by simp, by simp⟩
      rw [Counted, hcount]
      exact hle

section
variable (hcounted : Counted zlib metaFilter buffer)
include hcounted

/-- Where the counter is used up, nothing is pending: each message that is left counts. -/
lemma pending_eq_nil (hempty : buffer.unpackMsgVec = [])
    (hcount : buffer.unReadMsgCount ≤ 0) : pending zlib metaFilter buffer = [] := by
  rw [Counted] at hcounted
  have hzero : ∀ count ∈ buffer.unread.map (msgCount zlib metaFilter), count = 0 := by
    apply sum_eq_zero_iff.mp
    omega
  rw [pending, hempty, nil_append, flatMap_eq_nil_iff]
  intro msg hmem
  have hmsg := hzero _ (mem_map_of_mem hmem)
  rw [msgCount] at hmsg
  rw [delivered]
  split at hmsg
  · rename_i hmerged
    rw [if_pos hmerged]
    rcases hunpack : unpackMessage zlib false msg.data msg.msgId msg.timestamp metaFilter with
      _ | ⟨messages, total⟩
    · rfl
    rw [hunpack] at hmsg
    obtain ⟨-, -, -, -, -, -, hpos, -⟩ := unpackMessage_eq_some _ _ _ hunpack
    exact absurd hmsg hpos.ne'
  · cases hmsg

lemma fillMessage_spec :
    pending zlib metaFilter (fillMessage zlib metaFilter buffer).2 = pending zlib metaFilter buffer
    ∧ Counted zlib metaFilter (fillMessage zlib metaFilter buffer).2
    ∧ ((fillMessage zlib metaFilter buffer).1 = true
      ↔ (fillMessage zlib metaFilter buffer).2.unpackMsgVec ≠ [])
    ∧ ((fillMessage zlib metaFilter buffer).1 = false → pending zlib metaFilter buffer = []) := by
  rw [fillMessage]
  by_cases hvec : buffer.unpackMsgVec ≠ []
  · rw [if_pos hvec]
    exact ⟨rfl, hcounted, by simp [hvec], by simp⟩
  have hempty : buffer.unpackMsgVec = [] := not_ne_iff.mp hvec
  rw [if_neg hvec]
  by_cases hcount : buffer.unReadMsgCount ≤ 0
  · rw [if_pos hcount]
    exact ⟨rfl, hcounted, by simp [hempty], fun _ => pending_eq_nil hcounted hempty hcount⟩
  · rw [if_neg hcount]
    exact fillLoop_spec _ (Nat.lt_succ_self _) hempty hcounted

lemma read_spec :
    (pending zlib metaFilter buffer = [] ∧ (read zlib metaFilter buffer).1 = none
      ∧ pending zlib metaFilter (read zlib metaFilter buffer).2 = []
    ∨ ∃ msg, (read zlib metaFilter buffer).1 = some msg
      ∧ pending zlib metaFilter buffer = msg :: pending zlib metaFilter (read zlib metaFilter buffer).2)
    ∧ Counted zlib metaFilter (read zlib metaFilter buffer).2 := by
  obtain ⟨hpending, hcounted', htrue, hfalse⟩ := fillMessage_spec hcounted
  rw [read]
  rcases hfill : fillMessage zlib metaFilter buffer with ⟨filled, buffer'⟩
  rw [hfill] at hpending hcounted' htrue hfalse
  dsimp only at hpending hcounted' htrue hfalse ⊢
  cases filled with
  | false =>
    rw [if_neg (by simp)]
    exact ⟨.inl ⟨hfalse rfl, rfl, by rw [hpending, hfalse rfl]⟩, hcounted'⟩
  | true =>
    rw [if_pos rfl, takeMessage]
    rw [Counted] at hcounted'
    split
    · rename_i hvec
      exact absurd hvec (htrue.mp rfl)
    rename_i msg msgs hvec
    rw [hvec, length_cons] at hcounted'
    refine ⟨.inr ⟨msg, rfl, ?_⟩, ?_⟩
    · rw [← hpending, pending, hvec]
      rfl
    change ((msgs.length + (buffer'.unread.map _).sum : ℕ) : ℤ) ≤ buffer'.unReadMsgCount - 1
    push_cast at hcounted' ⊢
    linarith

omit hcounted in
lemma readAll_eq_pending (fuel : ℕ) : ∀ {buffer : MessageReadBuffer}, Counted zlib metaFilter buffer →
    (pending zlib metaFilter buffer).length ≤ fuel →
    readAll zlib metaFilter fuel buffer = pending zlib metaFilter buffer := by
  induction fuel with
  | zero =>
    intro buffer _ hlength
    rw [readAll, eq_nil_of_length_eq_zero (Nat.le_zero.mp hlength)]
  | succ fuel ih =>
    intro buffer hcounted hlength
    obtain ⟨hread, hcounted'⟩ := read_spec hcounted
    rw [readAll]
    rcases hresult : read zlib metaFilter buffer with ⟨result, buffer'⟩
    rw [hresult] at hread hcounted'
    obtain ⟨hnil, rfl, -⟩ | ⟨msg, rfl, hcons⟩ := hread
    · rw [hnil]
    rw [hcons, length_cons] at hlength
    rw [hcons]
    dsimp only
    rw [ih hcounted' (by omega)]

/-! ## Responses -/

/-- A count of messages that does not fall short of what is in a response. -/
def Honest (zlib : ZlibCompressor) (metaFilter : Option MessageFilter) (msgs : List Message)
    (totalMsgCount : ℕ) : Prop :=
  (msgs.map fun msg => msgCount zlib metaFilter (decompressMessage zlib msg)).sum ≤ totalMsgCount

omit hcounted in
lemma counted_empty : Counted zlib metaFilter empty := by simp [Counted, empty, unread]

lemma counted_addResponse {msgs : List Message} {totalMsgCount : ℕ}
    (hhonest : Honest zlib metaFilter msgs totalMsgCount) :
    Counted zlib metaFilter (buffer.addResponse zlib msgs totalMsgCount) := by
  rw [addResponse]
  split
  · rw [Counted] at hcounted
    rw [Honest] at hhonest
    have hunread : unread { buffer with
        responseList := buffer.responseList ++ [msgs.map (decompressMessage zlib)]
        unReadMsgCount := buffer.unReadMsgCount + totalMsgCount }
          = buffer.unread ++ msgs.map (decompressMessage zlib) := by simp [unread]
    rw [Counted, hunread, map_append, sum_append, map_map, Function.comp_def]
    dsimp only
    omega
  · exact hcounted

end

lemma pending_addResponse {msgs : List Message} {totalMsgCount : ℕ}
    (hhonest : Honest zlib metaFilter msgs totalMsgCount) :
    pending zlib metaFilter (buffer.addResponse zlib msgs totalMsgCount) = pending zlib metaFilter buffer
      ++ msgs.flatMap fun msg => delivered zlib metaFilter (decompressMessage zlib msg) := by
  rw [addResponse]
  split
  · simp [pending, unread, flatMap_map, append_assoc]
  rename_i hpos
  rw [Honest] at hhonest
  have hnil : pending zlib metaFilter ⟨msgs.map (decompressMessage zlib), [], 0, []⟩ = [] := by
    refine pending_eq_nil ?_ rfl le_rfl
    simp only [Counted, unread, flatten_nil, append_nil, map_map, length_nil, zero_add, Function.comp_def]
    omega
  simp only [pending, unread, flatten_nil, append_nil, nil_append, flatMap_map] at hnil
  rw [hnil, append_nil]

end MessageReadBuffer

end Havenask.Swift
