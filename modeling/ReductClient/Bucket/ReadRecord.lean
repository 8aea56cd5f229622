-- SUMMARY: `Bucket::ReadRecord` and `Bucket::ReadRecordV2` as a transition system of the calling thread and the thread that runs the callbacks.
import ReductClient.Bucket.Runner
import ReductClient.Internal.BatchV2

open Cxx

namespace Reduct

variable [StdSort]

/-! ## Decoding the response headers -/

/-- The label of a single record carried by a header. -/
def singleLabel (labels : LabelMap) (header : Bytes × Bytes) : LabelMap :=
  if kHeaderLabelPrefix.isPrefixOf header.1 then
    labels.insertIfNew (header.1.drop kHeaderLabelPrefix.length) header.2
  else labels

/-- `ParseAndBuildSingleRecord`. -/
def parseAndBuildSingleRecord (head : Bool) (headers : Headers) :
    Except Fault ReadableRecord := do
  let timestamp ← fromMicroseconds (headers.get kHeaderTime)
  let size ← stoi (headers.get (bytes "content-length"))
  pure {
    entry := []
    timestamp := timestamp
    size := toUInt64 size
    last := decide (headers.get kHeaderLast = bytes "1")
    labels := headers.toList.foldl singleLabel ∅
    contentType := headers.get (bytes "content-type")
    read := ⟨.single, head⟩ }

/-- Which response a call expects: one record, a batch of protocol v1
(`ReadType::kSingle` and `ReadType::kBatched` of `ReadRecord`), or a batch of
protocol v2 (`ReadRecordV2`). -/
inductive ReadType where
  | single
  | batchedV1
  | batchedV2
  deriving DecidableEq

/-- The lambda `build_records`. -/
def buildRecords (type : ReadType) (head : Bool) (headers : Headers) :
    Except Fault (List ReadableRecord) :=
  match type with
  | .single => do
    let record ← parseAndBuildSingleRecord head headers
    pure [record]
  | .batchedV1 => parseAndBuildBatchedRecordsV1 head headers
  | .batchedV2 => parseAndBuildBatchedRecordsV2 head headers

/-! ## A call and its transfer -/

/-- The arguments of a call, and whether it is made on the bucket's own worker
thread (`IsCallbackWorkerThread`). -/
structure ReadCall where
  type : ReadType
  head : Bool
  onWorker : Bool
  callback : RecordCallback

/-- What the HTTP client does for the request. -/
inductive Transfer where
  /-- No 200 header block arrives, and the client reports an error. -/
  | refused (error : Error) (isError : error.isError = true)
  /-- A 200 header block arrives, then chunks of the body. The verdict is what
  the client returns in the end: an error if the connection breaks before the
  body is complete, or if `CheckRequest` rejects the API version. -/
  | delivered (headers : Headers) (chunks : List Bytes) (verdict : Error)

/-- Where the calling thread stands. -/
inductive Caller where
  | request (transfer : Transfer)
  /-- In the response callback, with the records that are not enqueued yet. -/
  | enqueue (rest : List ReadableRecord) (chunks : List Bytes) (verdict : Error)
  /-- The chunks that have not arrived yet. -/
  | body (chunks : List Bytes) (verdict : Error)
  /-- The client has returned. -/
  | finish (err : Error)
  /-- In `future.wait()`. -/
  | waiting
  /-- In `RunCallbacksInline`. -/
  | inlining
  | returned (stopped : Bool) (err : Error)
  /-- An exception has left a `noexcept` function. -/
  | terminated

/-- What the call has returned. -/
def Caller.result? : Caller → Option (Bool × Error)
  | .returned stopped err => some (stopped, err)
  | _ => none

omit [StdSort] in
theorem Caller.result?_eq_some {c : Caller} {stopped : Bool} {err : Error} :
    c.result? = some (stopped, err) ↔ c = .returned stopped err := by
  cases c <;> simp [result?]

/-- The local variables of the call with the two threads. -/
structure ReadState where
  caller : Caller
  responseHeaders : Option Headers := none
  future : Option Nat := none
  runner : Runner := { phase := .idle }
  queues : Channel.Queues Payload := fun _ => []

namespace ReadState

/-- The call starts: nothing is queued and the worker is idle. -/
def initial (transfer : Transfer) : ReadState := { caller := .request transfer }

/-- The id of the next task of the call. -/
def nextId (s : ReadState) : Nat := (s.future.map (· + 1)).getD 0

/-- The calling thread makes a step, unless it waits or has returned. -/
def callerStep (call : ReadCall) (s : ReadState) : Option ReadState :=
  match s.caller with
  | .request (.refused err _) => some { s with caller := .finish err }
  | .request (.delivered headers chunks verdict) =>
    let chunks := if call.head then [] else chunks
    -- `Head` looks at the verdict before it hands over the headers, `Get` does not
    if call.head && verdict.isError then some { s with caller := .finish verdict }
    else if call.onWorker then
      some { s with responseHeaders := some headers, caller := .body chunks verdict }
    else
      match buildRecords call.type call.head headers with
      | .error _ => some { s with caller := .terminated }
      | .ok records => some { s with caller := .enqueue records chunks verdict }
  | .enqueue (record :: rest) chunks verdict =>
    some { s with
      future := some s.nextId
      queues := Channel.push s.queues ⟨.tasks, ⟨s.nextId, record⟩⟩
      caller := .enqueue rest chunks verdict }
  | .enqueue [] chunks verdict => some { s with caller := .body chunks verdict }
  | .body (chunk :: chunks) verdict =>
    some { s with
      queues := Channel.push s.queues ⟨.data, some chunk⟩
      caller := .body chunks verdict }
  | .body [] verdict => some { s with caller := .finish verdict }
  | .finish err =>
    if err.isError then some { s with caller := .returned s.runner.stopped err }
    else
      let queues := if call.head then s.queues else Channel.push s.queues ⟨.data, none⟩
      if call.onWorker then
        match s.responseHeaders with
        | none => some { s with caller := .terminated }
        | some headers =>
          match buildRecords call.type call.head headers with
          | .error _ => some { s with caller := .terminated }
          | .ok records =>
            some { s with
              queues := queues
              runner := { s.runner with phase := .loop records }
              caller := .inlining }
      else some { s with queues := queues, caller := .waiting }
  | .waiting =>
    match s.future with
    | none => some { s with caller := .returned s.runner.stopped .kOk }
    | some id =>
      if id ∈ s.runner.ready then some { s with caller := .returned s.runner.stopped .kOk }
      else none
  | .inlining =>
    match s.runner.phase with
    | .finished => some { s with caller := .returned s.runner.stopped .kOk }
    | _ => none
  | .returned _ _ => none
  | .terminated => none

/-- Either thread makes a step. A callback thread that finds its queue empty
stays where it is. An iteration of a `Read` loop is one step, since only its
block under the lock looks at what the threads share. -/
inductive Step (call : ReadCall) : ReadState → ReadState → Prop where
  | caller {s s' : ReadState} (h : s.callerStep call = some s') : Step call s s'
  | runner {s : ReadState} {r : Runner} {q : Channel.Queues Payload}
      (h : Channel.Step (Runner.act call.callback) ⟨s.runner, s.queues⟩ ⟨r, q⟩) :
      Step call s { s with runner := r, queues := q }

/-- The threads of a call. -/
inductive Thread where
  | caller
  | runner
  deriving DecidableEq

/-- The next step of a thread, if it can move. -/
def next (call : ReadCall) (s : ReadState) : Thread → Option ReadState
  | .caller => s.callerStep call
  | .runner =>
    (Channel.next (Runner.act call.callback) ⟨s.runner, s.queues⟩).map fun c =>
      { s with runner := c.state, queues := c.queues }

/-- Let the threads move in the given order. A thread that cannot move is
passed over. -/
def run (call : ReadCall) (s : ReadState) (schedule : List Thread) : ReadState :=
  schedule.foldl (fun s thread => (s.next call thread).getD s) s

theorem step_of_next {call : ReadCall} {s t : ReadState} {thread : Thread}
    (h : s.next call thread = some t) : Step call s t := by
  cases thread with
  | caller => exact .caller h
  | runner =>
    obtain ⟨c, hc, rfl⟩ := Option.map_eq_some_iff.1 h
    exact .runner (Channel.step_of_next hc)

theorem reaches_run (call : ReadCall) (s : ReadState) (schedule : List Thread) :
    Transition.Reaches (Step call) s (s.run call schedule) := by
  induction schedule generalizing s with
  | nil => exact .refl
  | cons thread schedule ih =>
    have hrun := ih ((s.next call thread).getD s)
    cases hnext : s.next call thread with
    | none => simpa [run, hnext] using hrun
    | some t =>
      simp only [hnext, Option.getD_some] at hrun
      exact .head (step_of_next hnext) (by simpa [run, hnext] using hrun)

/-- The states of a call in every interleaving. -/
abbrev Reachable (call : ReadCall) (transfer : Transfer) (s : ReadState) : Prop :=
  Transition.Reaches (Step call) (initial transfer) s

end ReadState

/-! ## A small response -/

/-- The headers of a v1 response with a record of two bytes and one of one byte. -/
def sampleHeaders : Headers where
  toList := [(bytes "x-reduct-time-2", bytes "1,text"), (bytes "x-reduct-time-1", bytes "2,text"),
    (bytes "x-reduct-last", bytes "true")]
  nodup := by decide

namespace ReadState

/-- Two records that arrive in three chunks. -/
def sampleTransfer : Transfer :=
  .delivered sampleHeaders [bytes "ab", [], bytes "c"] .kOk

/-- A schedule that is long enough for a small response: the worker starts when
the body has begun to arrive. -/
def sampleSchedule : List Thread :=
  List.replicate 4 .caller ++ List.replicate 3 .runner ++ List.replicate 5 .caller ++
    List.replicate 20 .runner ++ [.caller]

/-- The records of the sample read by the worker or inline. -/
def sampleRun (onWorker : Bool) : ReadState :=
  @run .insertion ⟨.batchedV1, false, onWorker, readThrough⟩ (initial sampleTransfer) sampleSchedule

omit [StdSort] in
theorem sampleRun_reachable (onWorker : Bool) :
    @Reachable .insertion ⟨.batchedV1, false, onWorker, readThrough⟩ sampleTransfer
      (sampleRun onWorker) :=
  @reaches_run .insertion _ _ _

end ReadState

end Reduct
