-- SUMMARY: `RunCallbacksInline` does what the queued tasks do: the worker simulates the inline loop, and both come to the same end.
import ReductClient.Bucket.Schedule

open Cxx Transition

namespace Reduct

/-! ## The worker simulates the inline loop -/

/-- A state of the inline loop, and the state of the worker that has served the
same records and has the tasks of the other ones in its queue. -/
inductive Serves : RunnerConfig → RunnerConfig → Prop where
  | loop {n rest visits stopped ready ready' q} :
    Serves ⟨⟨.loop rest, visits, stopped, ready⟩, q⟩
      ⟨⟨.idle, visits, stopped, ready'⟩, delivery (taskList n rest) (q .data)⟩
  | active {id n rest record chunks activity visits stopped ready ready' q} :
    Serves ⟨⟨.active record chunks activity (.inline rest), visits, stopped, ready⟩, q⟩
      ⟨⟨.active record chunks activity (.task id), visits, stopped, ready'⟩,
        delivery (taskList n rest) (q .data)⟩
  | finished {visits stopped ready ready' q} :
    Serves ⟨⟨.finished, visits, stopped, ready⟩, q⟩
      ⟨⟨.idle, visits, stopped, ready'⟩, delivery [] (q .data)⟩
  | crashed {visits stopped ready ready' q tasks} :
    Serves ⟨⟨.crashed, visits, stopped, ready⟩, q⟩
      ⟨⟨.crashed, visits, stopped, ready'⟩, delivery tasks (q .data)⟩

theorem serves_step {callback : RecordCallback} (c d c' : RunnerConfig) (h : Serves c c')
    (hstep : RunnerStep callback c d) :
    ∃ d', Reaches (RunnerStep callback) c' d' ∧ Serves d d' := by
  cases h with
  | loop =>
    cases hstep.move with
    | loopEnd => exact ⟨_, .refl, .finished⟩
    | loopStop =>
      obtain ⟨ready', hrun⟩ := reaches_skip_all callback (taskList _ (_ :: _)) _ _ _
      exact ⟨_, hrun, .finished⟩
    | loopCall => exact ⟨_, .head Move.dequeue.step (.single Move.call.step), .active⟩
  | active =>
    cases hstep.move with
    | retInline => exact ⟨_, .single Move.ret.step, .loop⟩
    | readHead h => exact ⟨_, .single (Move.readHead h).step, .active⟩
    | read h => exact ⟨_, .single (Move.read h).step, .active⟩
    | fault h => exact ⟨_, .single (Move.fault h).step, .crashed⟩
    | endOfData h => exact ⟨_, .single (Move.endOfData h).step, .active⟩
    | pause h => exact ⟨_, .single (Move.pause h).step, .active⟩
    | enough h hne hend => exact ⟨_, .single (Move.enough h hne hend).step, .active⟩
    | more h hne hend => exact ⟨_, .single (Move.more h hne hend).step, .active⟩
  | finished => cases hstep.move
  | crashed => cases hstep.move

/-- If the inline loop comes to its end, the worker comes to its end with the
same calls and the same `stopped`. -/
theorem inline_run_queued {callback : RecordCallback} {records : List ReadableRecord}
    {data : List Item} {c : RunnerConfig}
    (h : Reaches (RunnerStep callback) (inlineStart records data) c)
    (hfinished : c.state.phase = .finished) :
    ∃ d, Reaches (RunnerStep callback) (queuedStart records data) d ∧
      Stuck (RunnerStep callback) d ∧
      d.state.visits = c.state.visits ∧ d.state.stopped = c.state.stopped := by
  have hstart : Serves (inlineStart records data) (queuedStart records data) := .loop
  obtain ⟨d, hrun, hserves⟩ := simulation Serves serves_step h hstart
  cases hserves with
  | finished => exact ⟨_, hrun, stuck_idle rfl rfl, rfl, rfl⟩
  | loop | active | crashed => cases hfinished

/-! ## Two calls with the same response -/

namespace ReadState

/-- The inline path refines the queued path: two calls with the same response
and the same callback, one of which queues its records while the other one runs
on the worker thread, make the same callback calls with the same chunks, and
return the same. -/
theorem inline_refines_queued [StdSort] {type : ReadType} {head : Bool} {callback : RecordCallback}
    {headers : Headers} {chunks : List Bytes} {s t : ReadState} {stopped stopped' : Bool}
    {err err' : Error}
    (hqueued : Reachable ⟨type, head, false, callback⟩ (.delivered headers chunks .kOk) s)
    (hs : s.caller = .returned stopped err)
    (hinline : Reachable ⟨type, head, true, callback⟩ (.delivered headers chunks .kOk) t)
    (ht : t.caller = .returned stopped' err') :
    t.runner.visits = s.runner.visits ∧ stopped' = stopped ∧ err' = err := by
  obtain ⟨records, hrecords, rfl, rfl, hidle, htasks, hrun⟩ := queued_returned rfl hqueued hs
  obtain ⟨records', hrecords', rfl, rfl, hfinished, hrun'⟩ := inline_returned rfl hinline ht
  cases hrecords.symm.trans hrecords'
  obtain ⟨d, hd, hstuck, hvisits, hstopped⟩ := inline_run_queued hrun' hfinished
  have hsame : (⟨s.runner, s.queues⟩ : RunnerConfig) = d :=
    stuck_unique (Channel.step_deterministic _) hrun (stuck_idle hidle htasks) hd hstuck
  subst hsame
  exact ⟨hvisits.symm, hstopped.symm, rfl⟩

theorem inline_refines_queued_sample :
    (sampleRun true).runner.visits = (sampleRun false).runner.visits := by
  have hqueued : (sampleRun false).caller = .returned true .kOk :=
    Caller.result?_eq_some.1 (by decide +kernel)
  have hinline : (sampleRun true).caller = .returned true .kOk :=
    Caller.result?_eq_some.1 (by decide +kernel)
  exact (@inline_refines_queued .insertion _ _ _ _ _ _ _ _ _ _ _
    (sampleRun_reachable false) hqueued (sampleRun_reachable true) hinline).1

end ReadState

end Reduct
