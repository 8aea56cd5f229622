-- SUMMARY: The thread that runs record callbacks, as a process on the task queue and the data queue: the worker loop with its tasks, and `RunCallbacksInline`.
import ReductClient.Base.Channel
import ReductClient.Bucket.ReadableRecord

open Cxx

namespace Reduct

/-! ## Record callbacks

A callback is a program that calls `Read` closures and finally returns. What it
does may depend on everything it has been handed before. -/

/-- What is left to do of a record callback. -/
inductive CallbackProg where
  /-- Return `true` to go on to the next record, `false` to stop. -/
  | ret (more : Bool)
  /-- Call a `Read` closure. After each chunk the read callback looks at the
  chunks of this call so far and says whether it wants more of them. -/
  | read (read : ReadClosure) (onChunk : List Bytes → Bool) (k : List Bytes → CallbackProg)

/-- A finished callback: the record it was called with, the chunks it was
handed, and what it returned. -/
structure Visit where
  record : ReadableRecord
  chunks : List Bytes
  more : Bool

/-- `ReadRecordCallback`. It may depend on the earlier calls. -/
abbrev RecordCallback := List Visit → ReadableRecord → CallbackProg

/-- The callback that reads each record through and goes on. -/
def readThrough : RecordCallback := fun _ record =>
  .read record.read (fun _ => true) fun _ => .ret true

/-! ## The queues -/

/-- A task in `task_queue_`. The id stands for its future. -/
structure Task where
  id : Nat
  record : ReadableRecord

/-- The two queues a callback thread takes from. -/
inductive Chan where
  | tasks
  | data
  deriving DecidableEq

/-- The items of a queue. -/
@[reducible] def Payload : Chan → Type
  | .tasks => Task
  | .data => Item

/-! ## The thread -/

/-- Where a callback stands: it runs its own code, or it is at the head of the
loop of a `Read` call. -/
inductive Activity where
  | running (prog : CallbackProg)
  | reading (kind : ReadKind) (onChunk : List Bytes → Bool) (k : List Bytes → CallbackProg)
      (total : Nat) (got : List Bytes)

/-- Who called the callback: a task, or `RunCallbacksInline` with the records
that are left. -/
inductive Origin where
  | task (id : Nat)
  | inline (rest : List ReadableRecord)

/-- Where the thread stands. -/
inductive Phase where
  /-- In `wait_dequeue`. -/
  | idle
  /-- At the head of the function of a task. -/
  | starting (task : Task)
  /-- In the record callback, which has been handed `chunks`. -/
  | active (record : ReadableRecord) (chunks : List Bytes) (activity : Activity) (origin : Origin)
  /-- At the head of the loop of `RunCallbacksInline`. -/
  | loop (rest : List ReadableRecord)
  /-- `RunCallbacksInline` has returned. -/
  | finished
  /-- The end marker was dereferenced. -/
  | crashed

/-- The thread with the variable `stopped` of the request, the callbacks that
have returned, and the futures that are ready. -/
structure Runner where
  phase : Phase
  visits : List Visit := []
  stopped : Bool := false
  ready : List Nat := []

namespace Runner

/-- The callback returns. -/
def complete (r : Runner) (record : ReadableRecord) (chunks : List Bytes) (more : Bool) :
    Origin → Runner
  | .task id =>
    { phase := .idle
      visits := r.visits ++ [⟨record, chunks, more⟩]
      stopped := !more || record.last
      ready := r.ready ++ [id] }
  | .inline rest =>
    { phase := .loop rest
      visits := r.visits ++ [⟨record, chunks, more⟩]
      stopped := !more || record.last
      ready := r.ready }

/-- A `Read` call returns to the callback. -/
def resume (r : Runner) (record : ReadableRecord) (chunks : List Bytes)
    (k : List Bytes → CallbackProg) (got : List Bytes) (origin : Origin) : Runner :=
  { r with phase := .active record chunks (.running (k got)) origin }

/-- The rest of an iteration of the `Read` loop, after the block under the lock.
An empty chunk only costs a pause. -/
def afterFetch (r : Runner) (record : ReadableRecord) (chunks : List Bytes) (kind : ReadKind)
    (onChunk : List Bytes → Bool) (k : List Bytes → CallbackProg) (total : Nat)
    (got : List Bytes) (origin : Origin) : Fetched → Runner × List Item
  | .fault => ({ r with phase := .crashed }, [])
  | .chunk none back => (r.resume record chunks k got origin, back)
  | .chunk (some chunk) back =>
    if chunk = [] then
      ({ r with phase := .active record chunks (.reading kind onChunk k total got) origin }, back)
    else
      let total := total + chunk.length
      let got := got ++ [chunk]
      let chunks := chunks ++ [chunk]
      if !onChunk got || kind.reached total then (r.resume record chunks k got origin, back)
      else
        ({ r with phase := .active record chunks (.reading kind onChunk k total got) origin }, back)

/-- Call the callback for a record. -/
def call (r : Runner) (callback : RecordCallback) (record : ReadableRecord) (origin : Origin) :
    Runner :=
  { r with phase := .active record [] (.running (callback r.visits record)) origin }

/-- What the thread does next. -/
def act (callback : RecordCallback) (r : Runner) : Channel.Action Payload Runner :=
  match r.phase with
  | .idle => .receive .tasks fun task => ({ r with phase := .starting task }, [])
  | .starting task =>
    if r.stopped then .step { r with phase := .idle, ready := r.ready ++ [task.id] }
    else .step (r.call callback task.record (.task task.id))
  | .active record chunks (.running (.ret more)) origin =>
    .step (r.complete record chunks more origin)
  | .active record chunks (.running (.read read onChunk k)) origin =>
    if read.head then .step (r.resume record chunks k [] origin)
    else .step { r with phase := .active record chunks (.reading read.kind onChunk k 0 []) origin }
  | .active record chunks (.reading kind onChunk k total got) origin =>
    .receive .data fun item =>
      r.afterFetch record chunks kind onChunk k total got origin (kind.fetch total item)
  | .loop [] => .step { r with phase := .finished }
  | .loop (record :: rest) =>
    if r.stopped then .step { r with phase := .finished }
    else .step (r.call callback record (.inline rest))
  | .finished => .stop
  | .crashed => .stop

end Runner

end Reduct
