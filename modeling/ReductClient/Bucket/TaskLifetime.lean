-- SUMMARY: The tasks of a call and the end of the call: which calls can return while a task is still queued or running.
import ReductClient.Bucket.Schedule

open Cxx Transition

namespace Reduct

/-! ## The inline loop leaves the task queue alone -/

theorem tasks_nil_step {callback : RecordCallback} (c d : RunnerConfig)
    (h : c.queues .tasks = []) (hstep : RunnerStep callback c d) : d.queues .tasks = [] := by
  cases hstep.move with
  | dequeue => cases h
  | _ => exact h

theorem tasks_nil_of_inline {callback : RecordCallback} {records : List ReadableRecord}
    {data : List Item} {c : RunnerConfig}
    (h : Reaches (RunnerStep callback) (inlineStart records data) c) : c.queues .tasks = [] :=
  invariant (fun c => c.queues .tasks = []) tasks_nil_step h rfl

namespace ReadState

/-- No task of the call waits, and the worker neither runs one nor is in a
`Read` loop. -/
def NoTaskLeft (s : ReadState) : Prop :=
  s.queues .tasks = [] ∧ (s.runner.phase = .idle ∨ s.runner.phase = .finished)

variable [StdSort] {call : ReadCall}

/-- The call returns only when no task is left, in every interleaving. -/
def TasksEnd (call : ReadCall) (transfer : Transfer) : Prop :=
  ∀ s stopped err, Reachable call transfer s → s.caller = .returned stopped err → s.NoTaskLeft

/-- A `Get` that queued at least one record when its headers arrived, and then
came back with an error. -/
def FailsAfterRecords (call : ReadCall) (transfer : Transfer) : Prop :=
  call.head = false ∧ call.onWorker = false ∧
    ∃ headers chunks verdict records, transfer = .delivered headers chunks verdict ∧
      verdict.isError = true ∧ buildRecords call.type call.head headers = .ok records ∧ records ≠ []

/-! ## A failing call goes past its tasks -/

/-- The calling thread can run ahead of the worker, and come back with all
tasks in the queue. -/
theorem returns_before_worker (call : ReadCall) {err : Error} (herr : err.isError = true)
    (records : List ReadableRecord) (chunks : List Bytes) :
    ∃ t stopped, Reaches (Step call) (decoded records chunks err) t ∧
      t.caller = .returned stopped err ∧ t.queues .tasks = taskList 0 records := by
  obtain ⟨future, henqueue⟩ := enqueue_drains call records
    (s := decoded records chunks err) rfl
  have hbody := body_drains call chunks (s := { decoded records chunks err with
    caller := .body chunks err
    future := future
    queues := delivery (taskList 0 records) [] }) rfl
  have hreturn : Step call
      { decoded records chunks err with
        caller := .finish err
        future := future
        queues := delivery (taskList 0 records) (chunks.map some) }
      { decoded records chunks err with
        caller := .returned false err
        future := future
        queues := delivery (taskList 0 records) (chunks.map some) } :=
    .caller (by simp [callerStep, herr, decoded])
  exact ⟨_, false, (henqueue.trans hbody).tail hreturn, rfl, rfl⟩

theorem not_tasksEnd {transfer : Transfer} (h : FailsAfterRecords call transfer) :
    ¬ TasksEnd call transfer := by
  obtain ⟨hhead, hworker, headers, chunks, verdict, records, rfl, herr, hrecords, hne⟩ := h
  have hfirst := callerStep_delivered call headers chunks
    (show (call.head && verdict.isError) = false by simp [hhead])
  simp only [hworker, Bool.false_eq_true, if_false, hrecords] at hfirst
  obtain ⟨t, stopped, hrun, hret, htasks⟩ :=
    returns_before_worker call herr records (bodyOf call chunks)
  intro hend
  have hnil := (hend t stopped verdict (.head (.caller hfirst) hrun) hret).1
  cases records with
  | nil => exact hne rfl
  | cons record records => rw [htasks] at hnil; cases hnil

/-! ## Every other call waits for its tasks -/

theorem NoTaskLeft.of_refused {err : Error} {s : ReadState} (herr : err.isError = true)
    (h : Reaches (Step call) { caller := .finish err } s) : s.NoTaskLeft := by
  obtain ⟨hrunner, htasks, -⟩ := refused herr h
  exact ⟨htasks, .inl (by rw [hrunner])⟩

theorem NoTaskLeft.of_inline {headers : Headers} {chunks : List Bytes} {verdict err : Error}
    {stopped : Bool} {s : ReadState} (h : Inline call headers chunks verdict s)
    (hret : s.caller = .returned stopped err) : s.NoTaskLeft := by
  simp only [Inline, hret] at h
  split at h
  · exact ⟨h.2.2, .inl h.2.1⟩
  · obtain ⟨-, -, hfinished, records, -, hrun⟩ := h
    exact ⟨tasks_nil_of_inline hrun, .inr hfinished⟩

omit [StdSort] in
theorem NoTaskLeft.of_queued {verdict err : Error} {records : List ReadableRecord}
    {data : List Item} {stopped : Bool} {s : ReadState}
    (h : Queued call records.length verdict (queuedStart records data) s)
    (hret : s.caller = .returned stopped err) (hok : verdict.isError = false ∨ records = []) :
    s.NoTaskLeft := by
  obtain ⟨hcaller, hrun⟩ := h
  simp only [QueuedCaller, hret] at hcaller
  split at hcaller
  · simp only [script, hret, Channel.supply_nil] at hrun
    have hnil : records = [] := hok.resolve_left (by simp [*])
    obtain ⟨hidle, htasks⟩ := ((fifo_queuedStart records data).reaches hrun).all_done
      (.inl (by simp [hnil]))
    exact ⟨htasks, .inl hidle⟩
  · exact ⟨hcaller.2.2.2, .inl hcaller.2.2.1⟩

theorem tasksEnd {transfer : Transfer} (h : ¬ FailsAfterRecords call transfer) :
    TasksEnd call transfer := by
  intro s stopped err hreach hret
  cases transfer with
  | refused error herr =>
    rcases (reachable_iff ..).1 hreach with rfl | ⟨t, hfirst, hrun⟩
    · cases hret
    · cases hfirst; exact .of_refused herr hrun
  | delivered headers chunks verdict =>
    cases hearly : call.head && verdict.isError with
    | true =>
      rcases (reachable_iff ..).1 hreach with rfl | ⟨t, hfirst, hrun⟩
      · cases hret
      · simp only [initial, callerStep, hearly, if_true] at hfirst
        cases hfirst
        exact .of_refused (Bool.and_eq_true_iff.1 hearly).2 hrun
    | false =>
      cases hworker : call.onWorker with
      | true =>
        rcases reachable_inline hworker hearly hreach with rfl | hrun
        · cases hret
        · exact .of_inline (inline hworker hrun) hret
      | false =>
        rcases reachable_queued hworker hearly hreach with rfl | rfl | ⟨records, hrecords, hrun⟩
        · cases hret
        · cases hret
        · refine .of_queued (queued hworker hrun) hret ?_
          by_contra hnot
          obtain ⟨herr, hne⟩ := not_or.1 hnot
          have herr : verdict.isError = true := by simpa using herr
          have hhead : call.head = false := by simpa [herr] using hearly
          exact h ⟨hhead, hworker, headers, chunks, verdict, records, rfl, herr, hrecords, hne⟩

/-- In every interleaving a call returns only when none of its tasks is queued
or running, unless it is a `Get` that queued a record and then came back with
an error. -/
theorem tasksEnd_iff (call : ReadCall) (transfer : Transfer) :
    TasksEnd call transfer ↔ ¬ FailsAfterRecords call transfer :=
  ⟨fun h hfails => not_tasksEnd hfails h, tasksEnd⟩

/-- A v1 response with two records whose connection breaks after one byte. -/
def brokenTransfer : Transfer := .delivered sampleHeaders [bytes "a"] { code := -1 }

omit [StdSort] in
/-- `Get` comes back before the worker has taken a task. -/
theorem tasksEnd_broken :
    ¬ @TasksEnd .insertion ⟨.batchedV1, false, false, readThrough⟩ brokenTransfer := by
  intro hend
  let t := @run .insertion ⟨.batchedV1, false, false, readThrough⟩ (initial brokenTransfer)
    (List.replicate 7 .caller)
  have hret : t.caller = .returned false { code := -1 } :=
    Caller.result?_eq_some.1 (by decide +kernel)
  have htasks : (t.queues .tasks).length = 2 := by decide +kernel
  have hnil := (hend t _ _ (@reaches_run .insertion _ _ _) hret).1
  simp [hnil] at htasks

end ReadState

end Reduct
