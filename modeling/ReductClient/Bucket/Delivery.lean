-- SUMMARY: The order in which one call hands its records to the callback, and how a call comes to its end.
import ReductClient.Bucket.Schedule

open Cxx Transition

namespace Reduct

/-! ## What the callback thread has served -/

/-- The callback has not stopped the request with this call. -/
def Visit.GoesOn (v : Visit) : Prop := v.more = true ∧ v.record.last = false

/-- The record the callback runs on. -/
def Phase.record? : Phase → Option ReadableRecord
  | .active record _ _ _ => some record
  | _ => none

/-- The chunks the running callback has been handed. -/
def Phase.chunks? : Phase → Option (List Bytes)
  | .active _ chunks _ _ => some chunks
  | _ => none

/-- The records the callback has been called with. -/
def Runner.invoked (r : Runner) : List ReadableRecord :=
  r.visits.map Visit.record ++ r.phase.record?.toList

/-- The records that come after a callback call. -/
def Origin.rest : Origin → List Task → List ReadableRecord
  | .task _, tasks => tasks.map Task.record
  | .inline rest, _ => rest

/-- The records the thread has not served yet. A crash loses some of them. -/
def Phase.Outstanding : Phase → List Task → List ReadableRecord → Prop
  | .idle, tasks, l => l = tasks.map Task.record
  | .starting task, tasks, l => l = task.record :: tasks.map Task.record
  | .active record _ _ origin, tasks, l => l = record :: origin.rest tasks
  | .loop rest, _, l => l = rest
  | .finished, _, l => l = []
  | .crashed, _, _ => True

/-- The request goes on: the records served and the outstanding ones are, in
this order, all records. -/
structure Serving (records : List ReadableRecord) (c : RunnerConfig) : Prop where
  goesOn : ∀ v ∈ c.state.visits, v.GoesOn
  records : ∃ l, c.state.phase.Outstanding (c.queues .tasks) l ∧
    c.state.visits.map Visit.record ++ l = records

/-- The last call has stopped the request. -/
structure Stopped (records : List ReadableRecord) (c : RunnerConfig) : Prop where
  visits : ∃ init v, c.state.visits = init ++ [v] ∧ (∀ u ∈ init, u.GoesOn) ∧ ¬ v.GoesOn
  records : c.state.visits.map Visit.record <+: records
  phase : c.state.phase.record? = none ∧ c.state.phase ≠ .crashed

/-- The invariant of the callback thread of one call. -/
def InOrder (records : List ReadableRecord) (c : RunnerConfig) : Prop :=
  if c.state.stopped then Stopped records c else Serving records c

theorem taskList_records (n : Nat) (records : List ReadableRecord) :
    (taskList n records).map Task.record = records := by
  induction records generalizing n with
  | nil => rfl
  | cons record records ih => simp [taskList, ih]

theorem inOrder_queuedStart (records : List ReadableRecord) (data : List Item) :
    InOrder records (queuedStart records data) :=
  ⟨by simp [queuedStart], records, (taskList_records 0 records).symm, rfl⟩

theorem inOrder_inlineStart (records : List ReadableRecord) (data : List Item) :
    InOrder records (inlineStart records data) :=
  ⟨by simp [inlineStart], records, rfl, rfl⟩

theorem not_goesOn_iff (v : Visit) : (!v.more || v.record.last) = true ↔ ¬ v.GoesOn := by
  cases h : v.more <;> simp [Visit.GoesOn, h]

/-- The callback returns, having been called with the first outstanding record. -/
theorem inOrder_ret {records rest : List ReadableRecord} {record : ReadableRecord}
    {chunks : List Bytes} {more : Bool} {visits : List Visit} {phase : Phase} {ready : List Nat}
    {q : Channel.Queues Payload} (hgoes : ∀ v ∈ visits, v.GoesOn)
    (hrecords : visits.map Visit.record ++ record :: rest = records)
    (hrest : phase.Outstanding (q .tasks) rest)
    (hphase : phase.record? = none ∧ phase ≠ .crashed) :
    InOrder records
      ⟨⟨phase, visits ++ [⟨record, chunks, more⟩], !more || record.last, ready⟩, q⟩ := by
  have hserved : (visits ++ [(⟨record, chunks, more⟩ : Visit)]).map Visit.record ++ rest =
      records := by
    simpa using hrecords
  unfold InOrder
  split
  · have hstops : ¬ Visit.GoesOn ⟨record, chunks, more⟩ := (not_goesOn_iff _).1 ‹_›
    exact ⟨⟨visits, _, rfl, hgoes, hstops⟩, ⟨rest, hserved⟩, hphase⟩
  · have hgoesOn : Visit.GoesOn ⟨record, chunks, more⟩ :=
      not_not.1 (mt (not_goesOn_iff _).2 ‹_›)
    refine ⟨fun v hv => ?_, rest, hrest, hserved⟩
    rcases List.mem_append.1 hv with hv | hv
    · exact hgoes v hv
    · exact (List.mem_singleton.1 hv) ▸ hgoesOn

/-- A step of the thread that ends no call. -/
theorem InOrder.of_outstanding {records : List ReadableRecord} {c d : RunnerConfig}
    (h : InOrder records c) (hvisits : d.state.visits = c.state.visits)
    (hstopped : d.state.stopped = c.state.stopped)
    (hphase : c.state.stopped = true → d.state.phase.record? = none ∧ d.state.phase ≠ .crashed)
    (hout : c.state.stopped = false → ∀ l, c.state.phase.Outstanding (c.queues .tasks) l →
      d.state.phase.Outstanding (d.queues .tasks) l) : InOrder records d := by
  unfold InOrder at h ⊢
  rw [hstopped]
  split at h
  · rw [if_pos ‹_›]
    exact ⟨hvisits ▸ h.visits, hvisits ▸ h.records, hphase ‹_›⟩
  · rw [if_neg ‹_›]
    obtain ⟨l, hl, hrecords⟩ := h.records
    exact ⟨hvisits ▸ h.goesOn, l, hout (Bool.eq_false_iff.2 ‹_›) l hl, hvisits ▸ hrecords⟩

/-- While the callback runs, the request goes on. -/
theorem InOrder.serving {records : List ReadableRecord} {c : RunnerConfig} (h : InOrder records c)
    (hrecord : c.state.phase.record? ≠ none) : c.state.stopped = false ∧ Serving records c := by
  unfold InOrder at h
  split at h
  · exact absurd h.phase.1 hrecord
  · exact ⟨Bool.eq_false_iff.2 ‹_›, h⟩

theorem inOrder_step {callback : RecordCallback} {records : List ReadableRecord} (c d : RunnerConfig)
    (h : InOrder records c) (hstep : RunnerStep callback c d) : InOrder records d := by
  cases hstep.move with
  | dequeue => exact h.of_outstanding rfl rfl (fun _ => ⟨rfl, nofun⟩) fun _ _ hl => hl
  | skip => exact h.of_outstanding rfl rfl (fun _ => ⟨rfl, nofun⟩) nofun
  | call | loopCall => exact h.of_outstanding rfl rfl nofun fun _ _ hl => hl
  | ret | retInline =>
    obtain ⟨-, hgoes, l, hl, hrecords⟩ := h.serving nofun
    cases hl
    exact inOrder_ret hgoes hrecords rfl ⟨rfl, nofun⟩
  | readHead | read | endOfData | pause | enough | more =>
    have hgoes := (h.serving nofun).1
    exact h.of_outstanding rfl rfl (fun hstop => absurd (hgoes.symm.trans hstop) nofun)
      fun _ _ hl => hl
  | fault =>
    have hgoes := (h.serving nofun).1
    exact h.of_outstanding rfl rfl (fun hstop => absurd (hgoes.symm.trans hstop) nofun)
      fun _ _ _ => trivial
  | loopEnd => exact h.of_outstanding rfl rfl (fun _ => ⟨rfl, nofun⟩) fun _ _ hl => hl
  | loopStop => exact h.of_outstanding rfl rfl (fun _ => ⟨rfl, nofun⟩) nofun

/-- The callback has been called with the records in order, from the first on. -/
theorem InOrder.invoked {records : List ReadableRecord} {c : RunnerConfig} (h : InOrder records c) :
    c.state.invoked <+: records := by
  obtain ⟨⟨phase, visits, stopped, ready⟩, q⟩ := c
  unfold InOrder at h
  split at h
  · obtain ⟨-, hstarts, hphase, -⟩ := h
    simp only at hphase
    simpa [Runner.invoked, hphase] using hstarts
  · obtain ⟨-, l, hl, rfl⟩ := h
    cases phase with
    | active record chunks activity origin =>
      cases hl
      simp [Runner.invoked, Phase.record?]
    | _ => simp [Runner.invoked, Phase.record?]

theorem InOrder.visits {records : List ReadableRecord} {c : RunnerConfig} (h : InOrder records c) :
    c.state.visits.map Visit.record <+: records :=
  (List.prefix_append _ _).trans h.invoked

/-- A call that stops the request is the last one. -/
theorem InOrder.stops {records : List ReadableRecord} {c : RunnerConfig} (h : InOrder records c) :
    (∀ v ∈ c.state.visits.dropLast, v.GoesOn) ∧
      (c.state.phase.record? ≠ none → ∀ v ∈ c.state.visits, v.GoesOn) := by
  refine ⟨?_, fun hrecord => (h.serving hrecord).2.goesOn⟩
  unfold InOrder at h
  split at h
  · obtain ⟨init, v, hvisits, hinit, -⟩ := h.visits
    simpa [hvisits] using hinit
  · exact fun v hv => h.goesOn v (List.mem_of_mem_dropLast hv)

/-- A call that has stopped the request is on record. -/
theorem InOrder.stopped_iff {records : List ReadableRecord} {c : RunnerConfig}
    (h : InOrder records c) : c.state.stopped = true ↔ ∃ v ∈ c.state.visits, ¬ v.GoesOn := by
  unfold InOrder at h
  split at h
  · obtain ⟨init, v, hvisits, -, hv⟩ := h.visits
    exact ⟨fun _ => ⟨v, by simp [hvisits], hv⟩, fun _ => ‹_›⟩
  · refine ⟨fun hstopped => absurd hstopped ‹_›, ?_⟩
    rintro ⟨v, hv, hstops⟩
    exact absurd (h.goesOn v hv) hstops

/-- The thread has come to its end. -/
def AtEnd (c : RunnerConfig) : Prop :=
  c.state.phase = .idle ∧ c.queues .tasks = [] ∨ c.state.phase = .finished

theorem AtEnd.stuck {callback : RecordCallback} {c : RunnerConfig} (h : AtEnd c) :
    Stuck (RunnerStep callback) c :=
  h.elim (fun h => stuck_idle h.1 h.2) stuck_finished

theorem AtEnd.phase {c : RunnerConfig} (h : AtEnd c) :
    c.state.phase.chunks? = none ∧ c.state.phase ≠ .crashed := by
  rcases h with ⟨h, -⟩ | h <;> simp [h, Phase.chunks?]

/-- A request that has not been stopped has served all records in the end. -/
theorem InOrder.all_served {records : List ReadableRecord} {c : RunnerConfig}
    (h : InOrder records c) (hend : AtEnd c) (hstopped : c.state.stopped = false) :
    c.state.visits.map Visit.record = records ∧ ∀ v ∈ c.state.visits, v.GoesOn := by
  obtain ⟨⟨phase, visits, stopped, ready⟩, q⟩ := c
  cases hstopped
  obtain ⟨hgoes, l, hl, rfl⟩ : Serving records ⟨⟨phase, visits, false, ready⟩, q⟩ := h
  rcases hend with ⟨hphase, htasks⟩ | hphase
  · cases hphase
    have htasks : q .tasks = [] := htasks
    simp only [Phase.Outstanding, htasks] at hl
    exact ⟨by simp [hl], hgoes⟩
  · cases hphase
    cases hl
    exact ⟨by simp, hgoes⟩

theorem InOrder.reaches {callback : RecordCallback} {records : List ReadableRecord}
    {c d : RunnerConfig} (h : InOrder records c) (hrun : Reaches (RunnerStep callback) c d) :
    InOrder records d :=
  invariant (InOrder records) inOrder_step hrun h

/-- Once a callback has stopped the request, the thread comes to its end
without another call. -/
theorem InOrder.skips_rest {callback : RecordCallback} {records : List ReadableRecord}
    {c : RunnerConfig} (h : InOrder records c) (hstopped : c.state.stopped = true) :
    ∃ d, Reaches (RunnerStep callback) c d ∧ AtEnd d ∧ d.state.stopped = true ∧
      d.state.visits = c.state.visits := by
  obtain ⟨⟨phase, visits, stopped, ready⟩, q⟩ := c
  cases hstopped
  obtain ⟨-, -, hphase, hcrash⟩ : Stopped records ⟨⟨phase, visits, true, ready⟩, q⟩ := h
  rw [delivery_eta q]
  cases phase with
  | idle =>
    obtain ⟨ready', hrun⟩ := reaches_skip_all callback (q .tasks) visits ready (q .data)
    exact ⟨_, hrun, .inl ⟨rfl, rfl⟩, rfl, rfl⟩
  | starting task =>
    obtain ⟨ready', hrun⟩ :=
      reaches_skip_all callback (q .tasks) visits (ready ++ [task.id]) (q .data)
    exact ⟨_, .head Move.skip.step hrun, .inl ⟨rfl, rfl⟩, rfl, rfl⟩
  | loop rest =>
    cases rest with
    | nil => exact ⟨_, .single Move.loopEnd.step, .inr rfl, rfl, rfl⟩
    | cons record rest => exact ⟨_, .single Move.loopStop.step, .inr rfl, rfl, rfl⟩
  | finished => exact ⟨_, .refl, .inr rfl, rfl, rfl⟩
  | active => cases hphase
  | crashed => exact absurd rfl hcrash

/-- `RunCallbacksInline` has called the callback. -/
def Origin.IsInline : Origin → Prop
  | .inline _ => True
  | .task _ => False

/-- The phases of `RunCallbacksInline`. -/
def Phase.IsInline : Phase → Prop
  | .active _ _ _ origin => origin.IsInline
  | .loop _ => True
  | .finished => True
  | .crashed => True
  | _ => False

theorem isInline_step {callback : RecordCallback} (c d : RunnerConfig) (h : c.state.phase.IsInline)
    (hstep : RunnerStep callback c d) : d.state.phase.IsInline := by
  cases hstep.move with
  | dequeue | skip | call | ret => exact h.elim
  | retInline | fault | loopEnd | loopStop | loopCall => trivial
  | readHead | read | endOfData | pause | enough | more => exact h

/-! ## The end of a call -/

namespace ReadState

variable [StdSort] {call : ReadCall}

/-- The callback thread can move while the calling thread waits. -/
theorem runner_reaches {s : ReadState} {d : RunnerConfig}
    (h : Reaches (RunnerStep call.callback) ⟨s.runner, s.queues⟩ d) :
    Reaches (Step call) s { s with runner := d.state, queues := d.queues } := by
  induction h with
  | refl => exact .refl
  | tail _ hstep ih => exact ih.tail (.runner hstep)

/-- After a transfer without an error a call off the worker thread waits. -/
theorem finish_waits {s u : ReadState} (hworker : call.onWorker = false)
    (h : Reaches (Step call) s u) (hu : u.caller = .finish .kOk) :
    ∃ t, Reaches (Step call) s t ∧ t.caller = .waiting := by
  have hstep : u.callerStep call = some { u with
      queues := if call.head then u.queues else Channel.push u.queues ⟨.data, none⟩
      caller := .waiting } := by
    simp [callerStep, hu, hworker]
  exact ⟨_, h.tail (.caller hstep), rfl⟩

/-- A call that queues its records has returned or can come to its wait. -/
theorem Queued.drains {n : Nat} {start : RunnerConfig} {s : ReadState}
    (hworker : call.onWorker = false) (h : Queued call n .kOk start s) :
    (∃ stopped err, s.caller = .returned stopped err) ∨
      ∃ t, Reaches (Step call) s t ∧ t.caller = .waiting := by
  have hcaller := h.caller
  unfold QueuedCaller at hcaller
  cases hs : s.caller with
  | enqueue rest chunks verdict =>
    simp only [hs] at hcaller
    obtain ⟨rfl, -⟩ := hcaller
    obtain ⟨future, hrun⟩ := enqueue_drains call rest hs
    exact .inr (finish_waits hworker (hrun.trans (body_drains call chunks rfl)) rfl)
  | body chunks verdict =>
    simp only [hs] at hcaller
    obtain ⟨rfl, -⟩ := hcaller
    exact .inr (finish_waits hworker (body_drains call chunks hs) rfl)
  | finish err =>
    simp only [hs] at hcaller
    obtain ⟨rfl, -⟩ := hcaller
    exact .inr (finish_waits hworker .refl hs)
  | waiting => exact .inr ⟨s, .refl, hs⟩
  | returned stopped err => exact .inl ⟨stopped, err, rfl⟩
  | request | inlining | terminated => simp only [hs] at hcaller

/-- The wait is over when the worker has served all tasks. -/
theorem waiting_returns {records : List ReadableRecord} {start : RunnerConfig} {s : ReadState}
    (h : Queued call records.length .kOk start s) (hs : s.caller = .waiting)
    (hfifo : Fifo records.length ⟨s.runner, s.queues⟩) (hend : AtEnd ⟨s.runner, s.queues⟩) :
    s.callerStep call = some { s with caller := .returned s.runner.stopped .kOk } := by
  have hcaller := h.caller
  simp only [QueuedCaller, hs, nextId] at hcaller
  have hready : s.runner.ready = List.range records.length := by
    obtain ⟨current, hserves, hids⟩ := hfifo
    rcases hend with ⟨hphase, htasks⟩ | hphase
    · simp only at hphase htasks
      simp only [hphase, Phase.Serves] at hserves
      simpa [hserves, htasks] using hids
    · simp only at hphase
      simp [hphase, Phase.Serves] at hserves
  cases hfuture : s.future with
  | none => simp [callerStep, hs, hfuture]
  | some id =>
    have hid : id < records.length := by simp [hfuture] at hcaller; omega
    simp [callerStep, hs, hfuture, hready, hid]

/-- A call that queues its records can return once its worker, given
the whole body, can come to its end. -/
theorem queued_completes {records : List ReadableRecord} {chunks : List Bytes} {s : ReadState}
    {d : RunnerConfig} (hworker : call.onWorker = false)
    (h : Reaches (Step call) (decoded records chunks .kOk) s)
    (hd : Reaches (RunnerStep call.callback) (queuedRun call records chunks .kOk) d)
    (hend : AtEnd d) :
    ∃ t, Reaches (Step call) s t ∧ t.caller = .returned d.state.stopped .kOk ∧
      t.runner = d.state := by
  have hqueued := queued hworker h
  rcases hqueued.drains hworker with ⟨stopped, err, hs⟩ | ⟨t, hrun, ht⟩
  · obtain ⟨hcaller, hreaches⟩ := hqueued
    simp only [QueuedCaller, hs, Error.kOk_isError, Bool.false_eq_true, if_false] at hcaller
    obtain ⟨rfl, rfl, hidle, htasks⟩ := hcaller
    simp only [script, hs, Channel.supply_nil] at hreaches
    have hsame : (⟨s.runner, s.queues⟩ : RunnerConfig) = d :=
      stuck_unique (Channel.step_deterministic _) hreaches (stuck_idle hidle htasks) hd hend.stuck
    subst hsame
    exact ⟨s, .refl, hs, rfl⟩
  · have hreaches := (queued hworker (h.trans hrun)).run
    simp only [script, ht, Channel.supply_nil] at hreaches
    have hserved := runner_reaches (reaches_stuck (Channel.step_deterministic _) hreaches hd hend.stuck)
    have hfifo := (fifo_queuedStart records (arrived call chunks .kOk)).reaches hd
    have hreturn := waiting_returns (queued hworker ((h.trans hrun).trans hserved)) ht hfifo hend
    exact ⟨_, (hrun.trans hserved).tail (.caller hreturn), rfl, rfl⟩

/-- After a transfer without an error a call on the worker thread runs the
callbacks inline. -/
theorem finish_inlines {headers : Headers} {records : List ReadableRecord} {s u : ReadState}
    (hworker : call.onWorker = true)
    (hrecords : buildRecords call.type call.head headers = .ok records)
    (h : Reaches (Step call) s u) (hu : u.caller = .finish .kOk)
    (hheaders : u.responseHeaders = some headers) :
    ∃ t, Reaches (Step call) s t ∧ t.caller = .inlining := by
  have hstep : u.callerStep call = some { u with
      queues := if call.head then u.queues else Channel.push u.queues ⟨.data, none⟩
      runner := { u.runner with phase := .loop records }
      caller := .inlining } := by
    simp [callerStep, hu, hworker, hheaders, hrecords]
  exact ⟨_, h.tail (.caller hstep), rfl⟩

/-- A call on the worker thread has returned or can come to the inline loop. -/
theorem Inline.drains {headers : Headers} {records : List ReadableRecord} {chunks : List Bytes}
    {s : ReadState} (hworker : call.onWorker = true)
    (hrecords : buildRecords call.type call.head headers = .ok records)
    (h : Inline call headers chunks .kOk s) :
    (∃ stopped err, s.caller = .returned stopped err) ∨
      ∃ t, Reaches (Step call) s t ∧ t.caller = .inlining := by
  unfold Inline at h
  cases hs : s.caller with
  | body rest verdict =>
    simp only [hs] at h
    obtain ⟨rfl, htransfer⟩ := h
    exact .inr (finish_inlines hworker hrecords (body_drains call rest hs) rfl htransfer.headers)
  | finish err =>
    simp only [hs] at h
    obtain ⟨rfl, htransfer⟩ := h
    exact .inr (finish_inlines hworker hrecords .refl hs htransfer.headers)
  | inlining => exact .inr ⟨s, .refl, hs⟩
  | returned stopped err => exact .inl ⟨stopped, err, rfl⟩
  | terminated =>
    simp only [hs] at h
    obtain ⟨⟨fault, hfault⟩, -⟩ := h
    cases hrecords.symm.trans hfault
  | request | enqueue | waiting => simp only [hs] at h

/-- A call on the worker thread can return once the inline loop, given the whole
body, can come to its end. -/
theorem inline_completes {headers : Headers} {records : List ReadableRecord} {chunks : List Bytes}
    {s : ReadState} {d : RunnerConfig} (hworker : call.onWorker = true)
    (hrecords : buildRecords call.type call.head headers = .ok records)
    (h : Reaches (Step call) (transferring headers chunks .kOk) s)
    (hd : Reaches (RunnerStep call.callback) (inlineStart records (arrived call chunks .kOk)) d)
    (hfinished : d.state.phase = .finished) :
    ∃ t, Reaches (Step call) s t ∧ t.caller = .returned d.state.stopped .kOk ∧
      t.runner = d.state := by
  have hinline := inline hworker h
  rcases hinline.drains hworker hrecords with ⟨stopped, err, hs⟩ | ⟨t, hrun, ht⟩
  · simp only [Inline, hs, Error.kOk_isError, Bool.false_eq_true, if_false] at hinline
    obtain ⟨rfl, rfl, hfinished', records', hrecords', hreaches⟩ := hinline
    cases hrecords.symm.trans hrecords'
    have hsame : (⟨s.runner, s.queues⟩ : RunnerConfig) = d :=
      stuck_unique (Channel.step_deterministic _) hreaches (stuck_finished hfinished') hd
        (stuck_finished hfinished)
    subst hsame
    exact ⟨s, .refl, hs, rfl⟩
  · have hinlining := inline hworker (h.trans hrun)
    simp only [Inline, ht] at hinlining
    obtain ⟨-, records', hrecords', hreaches⟩ := hinlining
    cases hrecords.symm.trans hrecords'
    have hserved := runner_reaches
      (reaches_stuck (Channel.step_deterministic _) hreaches hd (stuck_finished hfinished))
    have hreturn : callerStep call { t with runner := d.state, queues := d.queues } =
        some { t with
          runner := d.state, queues := d.queues, caller := .returned d.state.stopped .kOk } := by
      simp [callerStep, ht, hfinished]
    exact ⟨_, (hrun.trans hserved).tail (.caller hreturn), rfl, rfl⟩

/-! ## Queued or inline -/

/-- The callback thread of a call, left alone with everything that arrives. -/
def soloStart (call : ReadCall) (records : List ReadableRecord) (chunks : List Bytes) :
    RunnerConfig :=
  if call.onWorker then inlineStart records (arrived call (bodyOf call chunks) .kOk)
  else queuedRun call records (bodyOf call chunks) .kOk

omit [StdSort] in
theorem inOrder_soloStart (call : ReadCall) (records : List ReadableRecord) (chunks : List Bytes) :
    InOrder records (soloStart call records chunks) := by
  unfold soloStart
  split
  · exact inOrder_inlineStart ..
  · exact inOrder_queuedStart ..

variable {headers : Headers} {records : List ReadableRecord} {chunks : List Bytes} {s : ReadState}

/-- The callback thread has not moved, or it is at a point of its solo run. -/
theorem solo_run (hrecords : buildRecords call.type call.head headers = .ok records)
    (h : Reachable call (.delivered headers chunks .kOk) s) :
    s.runner = { phase := .idle } ∨
      ∃ q, Reaches (RunnerStep call.callback) (soloStart call records chunks) ⟨s.runner, q⟩ := by
  cases hworker : call.onWorker with
  | false =>
    rcases reachable_queued hworker (by simp) h with rfl | rfl | ⟨records', hrecords', hrun⟩
    · exact .inl rfl
    · exact .inl rfl
    · cases hrecords.symm.trans hrecords'
      exact .inr ⟨_, by simpa [soloStart, hworker] using (queued hworker hrun).run⟩
  | true =>
    rcases reachable_inline hworker (by simp) h with rfl | hrun
    · exact .inl rfl
    · have hinline := inline hworker hrun
      unfold Inline at hinline
      cases hs : s.caller with
      | body | finish => simp only [hs] at hinline; exact .inl hinline.2.runner
      | inlining =>
        simp only [hs] at hinline
        obtain ⟨-, records', hrecords', hreaches⟩ := hinline
        cases hrecords.symm.trans hrecords'
        exact .inr ⟨_, by simpa [soloStart, hworker] using hreaches⟩
      | returned =>
        simp only [hs, Error.kOk_isError, Bool.false_eq_true, if_false] at hinline
        obtain ⟨-, -, -, records', hrecords', hreaches⟩ := hinline
        cases hrecords.symm.trans hrecords'
        exact .inr ⟨_, by simpa [soloStart, hworker] using hreaches⟩
      | terminated =>
        simp only [hs] at hinline
        obtain ⟨⟨fault, hfault⟩, -⟩ := hinline
        cases hrecords.symm.trans hfault
      | request | enqueue | waiting => simp only [hs] at hinline

theorem exists_inOrder (hrecords : buildRecords call.type call.head headers = .ok records)
    (h : Reachable call (.delivered headers chunks .kOk) s) :
    ∃ q, InOrder records ⟨s.runner, q⟩ := by
  rcases solo_run hrecords h with hrunner | ⟨q, hrun⟩
  · exact ⟨_, by rw [hrunner]; exact inOrder_queuedStart records []⟩
  · exact ⟨q, (inOrder_soloStart ..).reaches hrun⟩

/-- When the call returns, its callback thread is at the end of its solo run. -/
theorem returned_atEnd {stopped : Bool} {err : Error}
    (hrecords : buildRecords call.type call.head headers = .ok records)
    (h : Reachable call (.delivered headers chunks .kOk) s)
    (hret : s.caller = .returned stopped err) :
    err = .kOk ∧ stopped = s.runner.stopped ∧ ∃ q, AtEnd ⟨s.runner, q⟩ ∧
      Reaches (RunnerStep call.callback) (soloStart call records chunks) ⟨s.runner, q⟩ := by
  cases hworker : call.onWorker with
  | false =>
    obtain ⟨records', hrecords', herr, hstopped, hidle, htasks, hrun⟩ :=
      queued_returned hworker h hret
    cases hrecords.symm.trans hrecords'
    exact ⟨herr, hstopped, _, .inl ⟨hidle, htasks⟩, by simpa [soloStart, hworker] using hrun⟩
  | true =>
    obtain ⟨records', hrecords', herr, hstopped, hfinished, hrun⟩ := inline_returned hworker h hret
    cases hrecords.symm.trans hrecords'
    exact ⟨herr, hstopped, _, .inr hfinished, by simpa [soloStart, hworker] using hrun⟩

/-- The call can return once the solo run can come to its end. -/
theorem call_completes {d : RunnerConfig}
    (hrecords : buildRecords call.type call.head headers = .ok records)
    (h : Reachable call (.delivered headers chunks .kOk) s)
    (hd : Reaches (RunnerStep call.callback) (soloStart call records chunks) d) (hend : AtEnd d) :
    ∃ t, Reaches (Step call) s t ∧ t.caller = .returned d.state.stopped .kOk ∧
      t.runner = d.state := by
  have hfirst := callerStep_delivered call headers chunks
    (show (call.head && Error.kOk.isError) = false by simp)
  cases hworker : call.onWorker with
  | false =>
    simp only [soloStart, hworker, Bool.false_eq_true, if_false] at hd
    simp only [hworker, hrecords, Bool.false_eq_true, if_false] at hfirst
    rcases (reachable_iff ..).1 h with rfl | ⟨t, hstep, hrun⟩
    · obtain ⟨t, hrun, ht⟩ := queued_completes hworker .refl hd hend
      exact ⟨t, .head (.caller hfirst) hrun, ht⟩
    · cases hfirst.symm.trans hstep
      exact queued_completes hworker hrun hd hend
  | true =>
    simp only [soloStart, hworker, if_true] at hd
    simp only [hworker, if_true] at hfirst
    have hinline : d.state.phase.IsInline :=
      invariant (fun c => c.state.phase.IsInline) isInline_step hd trivial
    have hfinished : d.state.phase = .finished :=
      hend.resolve_left fun hidle => by simp [hidle.1, Phase.IsInline] at hinline
    rcases (reachable_iff ..).1 h with rfl | ⟨t, hstep, hrun⟩
    · obtain ⟨t, hrun, ht⟩ := inline_completes hworker hrecords .refl hd hfinished
      exact ⟨t, .head (.caller hfirst) hrun, ht⟩
    · cases hfirst.symm.trans hstep
      exact inline_completes hworker hrecords hrun hd hfinished

end ReadState

end Reduct
