-- SUMMARY: `HttpClient::Get` with a response callback and a read callback, and that the calls of `ReadRecord` see of it what their transfers say.
import ReductClient.Bucket.Schedule
import ReductClient.Internal.HttpSession

open Cxx Transition

namespace Reduct

/-! ## A streamed request -/

/-- What arrives for a request whose body is handed over in chunks. -/
inductive StreamedReply where
  /-- No header block, and the reason. -/
  | failed (message : Bytes)
  /-- A header block and the chunks of the body. If the connection breaks after these,
  there is a reason. -/
  | response (status : HttpStatus) (headers : List (Bytes × Bytes)) (chunks : List Bytes)
    (broken : Option Bytes)

/-- `ResponseCallback` and `ReadCallback`, with what they do to the state of the caller. -/
structure StreamCallbacks (σ : Type) where
  response : Headers → σ → Except Fault σ
  read : Bytes → σ → Bool × σ

/-- The local variables `err` and `err_body`, and the state of the caller. -/
structure GetState (σ : Type) where
  err : Error := .kOk
  errBody : Bytes := []
  caller : σ

section Get

variable {σ : Type} (callbacks : StreamCallbacks σ)

/-- The response handler of `Get`. -/
def onResponse (status : HttpStatus) (headers : List (Bytes × Bytes)) (s : GetState σ) :
    Except Fault (GetState σ) := do
  let err := if status.code ≠ 200 then { s.err with code := status.code } else s.err
  let normalizedHeaders := normalizeHeaders headers
  if err.isError then pure { s with err := err }
  else
    let caller ← callbacks.response normalizedHeaders s.caller
    pure { s with err := err, caller := caller }

/-- The content receiver of `Get`. -/
def onContent (data : Bytes) (s : GetState σ) : Bool × GetState σ :=
  if s.err.isError then (true, { s with errBody := s.errBody ++ data })
  else
    let (more, caller) := callbacks.read data s.caller
    (more, { s with caller := caller })

/-- The library hands over the chunks until the receiver refuses one. -/
def receiveChunks : List Bytes → GetState σ → Bool × GetState σ
  | [], s => (true, s)
  | chunk :: chunks, s =>
    match onContent callbacks chunk s with
    | (true, s) => receiveChunks chunks s
    | (false, s) => (false, s)

/-- The result of the library. A receiver that refuses a chunk cancels the request. The body
has gone to the receiver. -/
def StreamedReply.reply (canceled : Bytes) (complete : Bool) : StreamedReply → HttpReply
  | failed message => .failed message
  | response status headers _ broken =>
    if complete then
      match broken with
      | some message => .failed message
      | none => .response status headers .empty
    else .failed canceled

/-- The request with its handlers: whether the body has been taken to its end, and the
variables after it. -/
def receiveStream (stream : StreamedReply) (caller : σ) : Except Uncaught (Bool × GetState σ) :=
  match stream with
  | .failed _ => pure (true, { caller := caller })
  | .response status headers chunks _ => do
    let s ← uncaught (onResponse callbacks status headers { caller := caller })
    pure (receiveChunks callbacks chunks s)

/-- `Get` with callbacks: its error, the version after it and the state of the caller. -/
def getStreaming (canceled : Bytes) (stream : StreamedReply) (version : Option Bytes) (caller : σ) :
    Except Uncaught (Error × Option Bytes × σ) := do
  let (complete, s) ← receiveStream callbacks stream caller
  let (err, version) ← uncaught (checkRequest version (stream.reply canceled complete))
  pure (err, version, s.caller)

/-- What the read callback does with the chunks of a 200 response. -/
def readChunks : List Bytes → σ → Bool × σ
  | [], caller => (true, caller)
  | chunk :: chunks, caller =>
    match callbacks.read chunk caller with
    | (true, caller) => readChunks chunks caller
    | (false, caller) => (false, caller)

/-- The body of a 200 response goes to the read callback. -/
theorem receiveChunks_ok (chunks : List Bytes) {s : GetState σ} (h : s.err.isError = false) :
    receiveChunks callbacks chunks s =
      ((readChunks callbacks chunks s.caller).1,
        { s with caller := (readChunks callbacks chunks s.caller).2 }) := by
  induction chunks generalizing s with
  | nil => rfl
  | cons chunk chunks ih =>
    have hno : ¬ s.err.isError = true := Bool.eq_false_iff.1 h
    rw [receiveChunks, onContent, if_neg hno, readChunks]
    rcases callbacks.read chunk s.caller with ⟨more, caller⟩
    cases more with
    | true => exact ih h
    | false => rfl

/-- The body of another one is kept from it. -/
theorem receiveChunks_error (chunks : List Bytes) {s : GetState σ} (h : s.err.isError = true) :
    ∃ errBody, receiveChunks callbacks chunks s = (true, { s with errBody := errBody }) := by
  induction chunks generalizing s with
  | nil => exact ⟨_, rfl⟩
  | cons chunk chunks ih =>
    rw [receiveChunks, onContent, if_pos h]
    exact ih (s := { s with errBody := s.errBody ++ chunk }) h

end Get

/-! ## The callbacks of a call -/

variable [StdSort]

namespace ReadCall

/-- A record is enqueued. -/
def enqueueTask (s : ReadState) (record : ReadableRecord) : ReadState :=
  { s with
    future := some s.nextId
    queues := Channel.push s.queues ⟨.tasks, ⟨s.nextId, record⟩⟩ }

/-- A chunk is appended to `data`. -/
def pushChunk (s : ReadState) (chunk : Bytes) : ReadState :=
  { s with queues := Channel.push s.queues ⟨.data, some chunk⟩ }

/-- `parse_headers_and_receive_data`, and the read callback next to it. -/
def callbacks (call : ReadCall) : StreamCallbacks ReadState where
  response headers s :=
    if call.onWorker then .ok { s with responseHeaders := some headers }
    else do
      let records ← buildRecords call.type call.head headers
      pure (records.foldl enqueueTask s)
  read chunk s := (true, pushChunk s chunk)

/-- The read callback takes every chunk. -/
theorem readChunks_callbacks (call : ReadCall) (chunks : List Bytes) (s : ReadState) :
    readChunks call.callbacks chunks s = (true, chunks.foldl pushChunk s) := by
  induction chunks generalizing s with
  | nil => rfl
  | cons chunk chunks ih => exact ih (pushChunk s chunk)

end ReadCall

namespace ReadState

/-- The calling thread makes a step. -/
abbrev CallerStep (call : ReadCall) (s t : ReadState) : Prop := s.callerStep call = some t

theorem callerStep_enqueue (call : ReadCall) (records : List ReadableRecord) (chunks : List Bytes)
    (verdict : Error) (s : ReadState) :
    Reaches (CallerStep call) { s with caller := .enqueue records chunks verdict }
      { records.foldl ReadCall.enqueueTask s with caller := .body chunks verdict } := by
  induction records generalizing s with
  | nil => exact .single rfl
  | cons record records ih => exact .head rfl (ih (ReadCall.enqueueTask s record))

theorem callerStep_body (call : ReadCall) (chunks : List Bytes) (verdict : Error) (s : ReadState) :
    Reaches (CallerStep call) { s with caller := .body chunks verdict }
      { chunks.foldl ReadCall.pushChunk s with caller := .finish verdict } := by
  induction chunks generalizing s with
  | nil => exact .single rfl
  | cons chunk chunks ih => exact .head rfl (ih (ReadCall.pushChunk s chunk))

end ReadState

/-! ## Transfers -/

/-- The status of a stream. -/
def StreamedReply.status? : StreamedReply → Option Nat
  | failed _ => none
  | response status _ _ _ => some status.code

/-- The transfer that a call sees of a stream it reads to the end, and the version that the
client knows afterwards. -/
inductive StreamedReply.TransferOf (version : Option Bytes) :
    StreamedReply → Option Bytes → Transfer → Prop where
  | refused {stream : StreamedReply} {err : Error} {stored : Option Bytes}
      (hstatus : stream.status? ≠ some 200)
      (hcheck : checkRequest version (stream.reply [] true) = .ok (err, stored))
      (herr : err.isError = true) : TransferOf version stream stored (.refused err herr)
  | delivered {status : HttpStatus} {headers : List (Bytes × Bytes)} {chunks : List Bytes}
      {broken : Option Bytes} {err : Error} {stored : Option Bytes} (hstatus : status.code = 200)
      (hcheck : checkRequest version
        ((StreamedReply.response status headers chunks broken).reply [] true) = .ok (err, stored)) :
      TransferOf version (.response status headers chunks broken) stored
        (.delivered (normalizeHeaders headers) chunks err)

/-- The local variables of a call before `Get`. The callbacks do not look at where the
calling thread stands. -/
def ReadState.fresh : ReadState := { caller := .finish .kOk }

/-- What the response callback does when the headers of a 200 response arrive. -/
theorem callerStep_response {call : ReadCall} (hget : call.head = false) {headers : Headers}
    {chunks : List Bytes} (verdict : Error) {s : ReadState}
    (h : call.callbacks.response headers .fresh = .ok s) :
    Reaches (ReadState.CallerStep call) (.initial (.delivered headers chunks verdict))
      { s with caller := .body chunks verdict } := by
  unfold ReadCall.callbacks at h
  dsimp only at h
  by_cases hworker : call.onWorker = true
  · rw [if_pos hworker] at h
    cases h
    have hstep : (ReadState.initial (.delivered headers chunks verdict)).callerStep call =
        some { ReadState.fresh with
          responseHeaders := some headers
          caller := .body chunks verdict } := by
      simp [ReadState.callerStep, ReadState.initial, ReadState.fresh, hget, hworker]
    exact .single hstep
  · rw [if_neg hworker] at h
    obtain ⟨records, hrecords, h⟩ := Fallible.bind_eq_ok.1 h
    cases h
    have hstep : (ReadState.initial (.delivered headers chunks verdict)).callerStep call =
        some { ReadState.fresh with caller := .enqueue records chunks verdict } := by
      simp [ReadState.callerStep, ReadState.initial, ReadState.fresh, hget, hworker,
        hget ▸ hrecords]
    exact .head hstep (ReadState.callerStep_enqueue call records chunks verdict .fresh)

omit [StdSort] in
/-- A stream of another status ends with an error. -/
theorem StreamedReply.isError_of_ne {stream : StreamedReply} {version stored : Option Bytes}
    {err : Error} (hstatus : stream.status? ≠ some 200)
    (hcheck : checkRequest version (stream.reply [] true) = .ok (err, stored)) :
    err.isError = true := by
  have hreply : (stream.reply [] true).status? ≠ some 200 := by
    cases stream with
    | failed message => simp [reply, HttpReply.status?]
    | response status headers chunks broken =>
      cases broken with
      | some message => simp [reply, HttpReply.status?]
      | none => exact hstatus
  obtain ⟨err', hcheck', herr, -⟩ := checkRequest_of_ne hreply
  cases hcheck.symm.trans hcheck'
  exact herr

/-- If `Get` returns, the calling thread of a transfer of the stream comes to the same state,
with the error that `Get` returns. -/
def GetRefines (call : ReadCall) (canceled : Bytes) (stream : StreamedReply)
    (version : Option Bytes) : Prop :=
  call.head = false → ∀ err stored s,
    getStreaming call.callbacks canceled stream version .fresh = .ok (err, stored, s) →
    ∃ transfer, stream.TransferOf version stored transfer ∧
      Reaches (ReadState.CallerStep call) (.initial transfer) { s with caller := .finish err }

/-- What `Get` does for a call is what the calling thread of its transfer does. -/
theorem getRefines (call : ReadCall) (canceled : Bytes) (stream : StreamedReply)
    (version : Option Bytes) : GetRefines call canceled stream version := by
  intro hget err stored s h
  cases stream with
  | failed message =>
    cases h
    exact ⟨_, .refused (by simp [StreamedReply.status?]) rfl rfl, .single rfl⟩
  | response status headers chunks broken =>
    obtain ⟨⟨complete, after⟩, hreceived, h⟩ := Fallible.bind_eq_ok.1 h
    obtain ⟨⟨err', stored'⟩, hcheck, h⟩ := Fallible.bind_eq_ok.1 h
    cases h
    obtain ⟨opened, hopened, hreceived⟩ := Fallible.bind_eq_ok.1 hreceived
    rw [uncaught_eq_ok] at hopened hcheck
    by_cases hstatus : status.code = 200
    · -- the callbacks of the call see the response
      obtain ⟨caller, hcaller, hopened⟩ : ∃ caller,
          call.callbacks.response (normalizeHeaders headers) .fresh = .ok caller ∧
            opened = { caller := caller } := by
        rw [onResponse, if_neg (not_not_intro hstatus)] at hopened
        obtain ⟨caller, hcaller, hopened⟩ := Fallible.bind_eq_ok.1 hopened
        exact ⟨caller, hcaller, (Except.ok.inj hopened).symm⟩
      rw [hopened, receiveChunks_ok _ _ rfl, ReadCall.readChunks_callbacks] at hreceived
      cases hreceived
      refine ⟨_, .delivered hstatus hcheck, ?_⟩
      exact (callerStep_response hget err hcaller).trans
        (ReadState.callerStep_body call chunks err caller)
    · -- they do not, and the response is an error
      have hne : (StreamedReply.response status headers chunks broken).status? ≠ some 200 :=
        fun heq => hstatus (Option.some.inj heq)
      have hopen : opened.err.isError = true ∧ opened.caller = .fresh := by
        have herr : Error.isError ⟨(status.code : Int), Error.kOk.message⟩ = true := by
          have hpos : status.code ≠ 0 := Nat.ne_of_gt (Nat.lt_of_lt_of_le (by decide) status.lower)
          simpa [Error.isError] using hpos
        rw [onResponse, if_pos hstatus] at hopened
        dsimp only at hopened
        rw [if_pos herr] at hopened
        cases hopened
        exact ⟨herr, rfl⟩
      obtain ⟨errBody, hchunks⟩ := receiveChunks_error call.callbacks chunks hopen.1
      rw [hchunks] at hreceived
      cases hreceived
      refine ⟨_, .refused hne hcheck (StreamedReply.isError_of_ne hne hcheck), ?_⟩
      rw [hopen.2]
      exact .single rfl

omit [StdSort] in
/-- A call on the worker gets a body in two chunks, and the connection breaks after them. -/
theorem getRefines_broken : ∃ err stored s transfer,
    let call : ReadCall := ⟨.batchedV2, false, true, readThrough⟩
    let stream := StreamedReply.response .ok [] [bytes "a", bytes "b"] (some (bytes "broken"))
    @getStreaming _ (@ReadCall.callbacks .insertion call) [] stream none .fresh =
        .ok (err, stored, s) ∧
      err.message = bytes "broken" ∧ stream.TransferOf none stored transfer ∧
      Reaches (@ReadState.CallerStep .insertion call) (.initial transfer)
        { s with caller := .finish err } := by
  obtain ⟨transfer, htransfer, hreaches⟩ := @getRefines .insertion
    ⟨.batchedV2, false, true, readThrough⟩ []
    (.response .ok [] [bytes "a", bytes "b"] (some (bytes "broken"))) none rfl _ _ _ rfl
  exact ⟨_, _, _, transfer, rfl, rfl, htransfer, hreaches⟩

end Reduct
