-- SUMMARY: Every interleaving of a call is, up to stuttering, the run of its callback thread alone on everything that arrives.
import ReductClient.Bucket.Moves
import ReductClient.Bucket.ReadRecord

open Cxx Transition

namespace Reduct

variable [StdSort] {call : ReadCall}

/-! ## The first step

Until the header block arrives nothing is queued, so the call starts with a
step of the calling thread, and what that step is decides how it goes on. -/

omit [StdSort] in
theorem stuck_idle {callback : RecordCallback} {r : Runner} {q : Channel.Queues Payload}
    (hphase : r.phase = .idle) (htasks : q .tasks = []) : Stuck (RunnerStep callback) ⟨r, q⟩ :=
  Channel.stuck_of_empty (i := .tasks) (by simp only [Runner.act, hphase]; rfl) htasks

omit [StdSort] in
theorem stuck_finished {callback : RecordCallback} {r : Runner} {q : Channel.Queues Payload}
    (hphase : r.phase = .finished) : Stuck (RunnerStep callback) ⟨r, q⟩ :=
  Channel.stuck_of_stop (by simp only [Runner.act, hphase])

namespace ReadState

/-- A step of a call while its callback thread cannot move. -/
theorem Step.callerStep_of_stuck {s s' : ReadState} (h : Step call s s')
    (hstuck : Stuck (RunnerStep call.callback) ⟨s.runner, s.queues⟩) :
    s.callerStep call = some s' := by
  cases h with
  | caller h => exact h
  | runner h => exact absurd h (hstuck _)

theorem reachable_iff (call : ReadCall) (transfer : Transfer) (s : ReadState) :
    Reachable call transfer s ↔ s = initial transfer ∨
      ∃ t, (initial transfer).callerStep call = some t ∧ Reaches (Step call) t s := by
  constructor
  · intro h
    rcases Relation.ReflTransGen.cases_head h with rfl | ⟨t, hstep, hrun⟩
    · exact .inl rfl
    · exact .inr ⟨t, hstep.callerStep_of_stuck (stuck_idle rfl rfl), hrun⟩
  · rintro (rfl | ⟨t, hstep, hrun⟩)
    · exact .refl
    · exact .head (.caller hstep) hrun

/-! ## The calling thread on its own -/

/-- The calling thread can append all records that are left. -/
theorem enqueue_drains (call : ReadCall) (records : List ReadableRecord) {chunks : List Bytes} {verdict : Error}
    {s : ReadState} (hs : s.caller = .enqueue records chunks verdict) :
    ∃ future, Reaches (Step call) s { s with
      caller := .body chunks verdict
      future := future
      queues := delivery (s.queues .tasks ++ taskList s.nextId records) (s.queues .data) } := by
  induction records generalizing s with
  | nil =>
    refine ⟨s.future, .single (.caller ?_)⟩
    simp [callerStep, hs, taskList, ← delivery_eta]
  | cons record records ih =>
    obtain ⟨caller, responseHeaders, future, runner, queues⟩ := s
    cases hs
    let id := (future.map (· + 1)).getD 0
    let pushed := Channel.push queues ⟨.tasks, ⟨id, record⟩⟩
    have hstep : callerStep call ⟨.enqueue (record :: records) chunks verdict, responseHeaders,
        future, runner, queues⟩ = some ⟨.enqueue records chunks verdict, responseHeaders,
          some id, runner, pushed⟩ := rfl
    obtain ⟨future', hrun⟩ := ih (s := ⟨.enqueue records chunks verdict, responseHeaders,
      some id, runner, pushed⟩) rfl
    refine ⟨future', .head (.caller hstep) ?_⟩
    have hdata : pushed .data = queues .data := Channel.push_ne queues (by decide) _
    have htasks : pushed .tasks = queues .tasks ++ [⟨id, record⟩] := Channel.push_self queues _ _
    simpa [hdata, htasks, taskList, nextId, id] using hrun

/-- The calling thread can append all chunks that are left. -/
theorem body_drains (call : ReadCall) (chunks : List Bytes) {verdict : Error} {s : ReadState}
    (hs : s.caller = .body chunks verdict) :
    Reaches (Step call) s { s with
      caller := .finish verdict
      queues := delivery (s.queues .tasks) (s.queues .data ++ chunks.map some) } := by
  induction chunks generalizing s with
  | nil =>
    refine .single (.caller ?_)
    simp [callerStep, hs, ← delivery_eta]
  | cons chunk chunks ih =>
    obtain ⟨caller, responseHeaders, future, runner, queues⟩ := s
    cases hs
    let pushed := Channel.push queues ⟨.data, some chunk⟩
    have hstep : callerStep call ⟨.body (chunk :: chunks) verdict, responseHeaders, future, runner,
        queues⟩ = some ⟨.body chunks verdict, responseHeaders, future, runner, pushed⟩ := rfl
    have hrun := ih (s := ⟨.body chunks verdict, responseHeaders, future, runner, pushed⟩) rfl
    have htasks : pushed .tasks = queues .tasks := Channel.push_ne queues (by decide) _
    have hdata : pushed .data = queues .data ++ [some chunk] := Channel.push_self queues _ _
    refine .head (.caller hstep) ?_
    simpa [htasks, hdata] using hrun

/-! ## A queued call -/

/-- Whether the transfer of a call ends with the end marker. -/
def completes (head : Bool) (verdict : Error) : Bool := !head && !verdict.isError

/-- The items of the data queue after the transfer of a call. -/
abbrev arrived (call : ReadCall) (chunks : List Bytes) (verdict : Error) : List Item :=
  bodyItems (completes call.head verdict) chunks

/-- What the calling thread will still append to the queues. -/
def script (call : ReadCall) (s : ReadState) : List (Sigma Payload) :=
  match s.caller with
  | .enqueue rest chunks verdict =>
    Channel.sends .tasks (taskList s.nextId rest) ++
      Channel.sends .data (bodyItems (completes call.head verdict) chunks)
  | .body chunks verdict => Channel.sends .data (bodyItems (completes call.head verdict) chunks)
  | .finish err => Channel.sends .data (bodyItems (completes call.head err) [])
  | _ => []

/-- The headers are decoded and the records are about to be enqueued. -/
def decoded (records : List ReadableRecord) (chunks : List Bytes) (verdict : Error) : ReadState :=
  { caller := .enqueue records chunks verdict }

/-- The callback thread of a queued call, left alone with everything that arrives. -/
def queuedRun (call : ReadCall) (records : List ReadableRecord) (chunks : List Bytes)
    (verdict : Error) : RunnerConfig :=
  queuedStart records (arrived call chunks verdict)

/-- Where the calling thread of a queued call of `n` records can be. -/
def QueuedCaller (n : Nat) (verdict : Error) (s : ReadState) : Prop :=
  match s.caller with
  | .enqueue rest _ v => v = verdict ∧ s.nextId + rest.length = n
  | .body _ v => v = verdict ∧ s.nextId = n
  | .finish err => err = verdict ∧ s.nextId = n
  | .waiting => verdict.isError = false ∧ s.nextId = n
  | .returned stopped err =>
    if verdict.isError then err = verdict
    else err = .kOk ∧ stopped = s.runner.stopped ∧ s.runner.phase = .idle ∧ s.queues .tasks = []
  | _ => False

/-- The invariant of a queued call: against the supply, its callback thread is
at a point of the run `start`. -/
structure Queued (call : ReadCall) (n : Nat) (verdict : Error) (start : RunnerConfig)
    (s : ReadState) : Prop where
  caller : QueuedCaller n verdict s
  run : Reaches (RunnerStep call.callback) start
    ⟨s.runner, Channel.supply s.queues (script call s)⟩

omit [StdSort] in
theorem queued_decoded (call : ReadCall) (records : List ReadableRecord) (chunks : List Bytes)
    (verdict : Error) :
    Queued call records.length verdict (queuedRun call records chunks verdict)
      (decoded records chunks verdict) where
  caller := ⟨rfl, by simp [decoded, nextId]⟩
  run := by
    have hsupply : Channel.supply (fun _ => []) (script call (decoded records chunks verdict)) =
        delivery (taskList 0 records) (bodyItems (completes call.head verdict) chunks) := by
      funext i
      cases i <;> simp [Channel.supply, script, decoded, nextId, Channel.sentTo_sends_ne, delivery]
    simp only [decoded] at hsupply
    simp only [queuedRun, queuedStart, decoded, hsupply]
    exact .refl

omit [StdSort] in
theorem Queued.runner_step {n : Nat} {verdict : Error} {start : RunnerConfig} {s : ReadState} {r : Runner}
    {q : Channel.Queues Payload} (h : Queued call n verdict start s)
    (hstep : RunnerStep call.callback ⟨s.runner, s.queues⟩ ⟨r, q⟩) :
    Queued call n verdict start { s with runner := r, queues := q } where
  caller := by
    have hc := h.caller
    revert hc
    cases hcaller : s.caller with
    | returned stopped err =>
      simp only [QueuedCaller, hcaller]
      split
      · exact id
      · rintro ⟨-, -, hphase, htasks⟩
        exact absurd hstep (stuck_idle hphase htasks _)
    | _ => simp only [QueuedCaller, hcaller]; exact id
  run := h.run.tail (Channel.step_supply _ hstep)

theorem Queued.caller_step {records : List ReadableRecord} {chunks : List Bytes} {verdict : Error}
    {s s' : ReadState} (hworker : call.onWorker = false)
    (h : Queued call records.length verdict (queuedRun call records chunks verdict) s)
    (hstep : s.callerStep call = some s') :
    Queued call records.length verdict (queuedRun call records chunks verdict) s' := by
  obtain ⟨hcaller, hrun⟩ := h
  obtain ⟨caller, responseHeaders, future, runner, queues⟩ := s
  cases caller with
  | enqueue rest chunks v =>
    obtain ⟨rfl, hid⟩ := hcaller
    cases rest with
    | nil => cases hstep; exact ⟨⟨rfl, hid⟩, hrun⟩
    | cons record rest =>
      cases hstep
      refine ⟨⟨rfl, ?_⟩, ?_⟩
      · simpa [nextId, add_assoc, add_comm 1] using hid
      · simpa [script, taskList, nextId] using hrun
  | body chunks v =>
    obtain ⟨rfl, hid⟩ := hcaller
    cases chunks with
    | nil => cases hstep; exact ⟨⟨rfl, hid⟩, hrun⟩
    | cons chunk chunks =>
      cases hstep
      exact ⟨⟨rfl, hid⟩, by simpa [script, bodyItems_cons] using hrun⟩
  | finish err =>
    obtain ⟨rfl, hid⟩ := hcaller
    cases herr : err.isError with
    | true =>
      simp only [callerStep, herr, if_true] at hstep
      cases hstep
      refine ⟨by simp [QueuedCaller, herr], ?_⟩
      simpa [script, completes, herr, bodyItems] using hrun
    | false =>
      simp only [callerStep, herr, hworker, Bool.false_eq_true, if_false] at hstep
      cases hstep
      refine ⟨⟨herr, hid⟩, ?_⟩
      cases hhead : call.head
      · simpa [script, completes, herr, hhead, bodyItems] using hrun
      · simpa [script, completes, herr, hhead, bodyItems] using hrun
  | waiting =>
    obtain ⟨hok, hid⟩ := hcaller
    have hrun' : Reaches (RunnerStep call.callback) (queuedRun call records chunks verdict)
        ⟨runner, queues⟩ := by simpa [script] using hrun
    have hfifo : Fifo records.length ⟨runner, queues⟩ :=
      (fifo_queuedStart records _).reaches hrun'
    have hdone : s'.caller = .returned runner.stopped .kOk ∧ s'.runner = runner ∧
        s'.queues = queues ∧ (records.length = 0 ∨ records.length - 1 ∈ runner.ready) := by
      simp only [callerStep] at hstep
      cases future with
      | none => cases hstep; exact ⟨rfl, rfl, rfl, .inl (by simpa [nextId] using hid.symm)⟩
      | some id =>
        have hlast : records.length - 1 = id := by simp [← hid, nextId]
        simp only at hstep
        split at hstep
        · cases hstep; exact ⟨rfl, rfl, rfl, .inr (hlast ▸ ‹_›)⟩
        · cases hstep
    obtain ⟨hcaller', hr, hq, hready⟩ := hdone
    obtain ⟨hidle, htasks⟩ := hfifo.all_done hready
    refine ⟨?_, by simpa [script, hcaller', hr, hq] using hrun'⟩
    simpa [QueuedCaller, hcaller', hr, hq, hok] using ⟨hidle, htasks⟩
  | request | inlining | terminated => exact hcaller.elim
  | returned => cases hstep

/-- In every interleaving of a queued call its callback thread is, against the
supply, at a point of the run of the thread alone. -/
theorem queued {records : List ReadableRecord} {chunks : List Bytes} {verdict : Error}
    {s : ReadState} (hworker : call.onWorker = false)
    (h : Reaches (Step call) (decoded records chunks verdict) s) :
    Queued call records.length verdict (queuedRun call records chunks verdict) s := by
  refine invariant _ (fun s t hs hstep => ?_) h (queued_decoded ..)
  cases hstep with
  | caller hstep => exact hs.caller_step hworker hstep
  | runner hstep => exact hs.runner_step hstep

/-! ## A call on the worker thread -/

/-- The headers are stored and the body is about to arrive. -/
def transferring (headers : Headers) (chunks : List Bytes) (verdict : Error) : ReadState :=
  { caller := .body chunks verdict, responseHeaders := some headers }

/-- The transfer runs: the callback thread has not moved, and what has arrived
and what is to come make up `data`. -/
structure Transferring (call : ReadCall) (headers : Headers) (data : List Item) (s : ReadState) :
    Prop where
  headers : s.responseHeaders = some headers
  runner : s.runner = { phase := .idle }
  supply : Channel.supply s.queues (script call s) = delivery [] data

/-- The invariant of a call on the worker thread. -/
def Inline (call : ReadCall) (headers : Headers) (chunks : List Bytes) (verdict : Error)
    (s : ReadState) : Prop :=
  let data := arrived call chunks verdict
  match s.caller with
  | .body _ v => v = verdict ∧ Transferring call headers data s
  | .finish err => err = verdict ∧ Transferring call headers data s
  | .inlining => verdict.isError = false ∧
    ∃ records, buildRecords call.type call.head headers = .ok records ∧
      Reaches (RunnerStep call.callback) (inlineStart records data) ⟨s.runner, s.queues⟩
  | .returned stopped err =>
    if verdict.isError then err = verdict ∧ s.runner.phase = .idle ∧ s.queues .tasks = []
    else err = .kOk ∧ stopped = s.runner.stopped ∧ s.runner.phase = .finished ∧
      ∃ records, buildRecords call.type call.head headers = .ok records ∧
        Reaches (RunnerStep call.callback) (inlineStart records data) ⟨s.runner, s.queues⟩
  | .terminated => (∃ fault, buildRecords call.type call.head headers = .error fault) ∧
    s.runner.phase = .idle ∧ s.queues .tasks = []
  | _ => False

omit [StdSort] in
theorem Transferring.tasks {headers : Headers} {data : List Item} {s : ReadState}
    (h : Transferring call headers data s) : s.queues .tasks = [] := by
  have h := congrFun h.supply .tasks
  simp only [Channel.supply, delivery, List.append_eq_nil_iff] at h
  exact h.1

omit [StdSort] in
theorem Transferring.stuck {headers : Headers} {data : List Item} {s : ReadState}
    (h : Transferring call headers data s) :
    Stuck (RunnerStep call.callback) ⟨s.runner, s.queues⟩ :=
  stuck_idle (by rw [h.runner]) h.tasks

theorem inline_transferring (headers : Headers) (chunks : List Bytes) (verdict : Error) :
    Inline call headers chunks verdict (transferring headers chunks verdict) := by
  refine ⟨rfl, rfl, rfl, ?_⟩
  funext i
  cases i <;> simp [Channel.supply, script, transferring, Channel.sentTo_sends_ne, delivery]

theorem Inline.runner_step {headers : Headers} {chunks : List Bytes} {verdict : Error}
    {s : ReadState} {r : Runner} {q : Channel.Queues Payload}
    (h : Inline call headers chunks verdict s)
    (hstep : RunnerStep call.callback ⟨s.runner, s.queues⟩ ⟨r, q⟩) :
    Inline call headers chunks verdict { s with runner := r, queues := q } := by
  obtain ⟨caller, responseHeaders, future, runner, queues⟩ := s
  cases caller with
  | body | finish => exact absurd hstep (h.2.stuck _)
  | inlining =>
    obtain ⟨hok, records, hrecords, hrun⟩ := h
    exact ⟨hok, records, hrecords, hrun.tail hstep⟩
  | returned stopped err =>
    simp only [Inline] at h
    split at h
    · exact absurd hstep (stuck_idle h.2.1 h.2.2 _)
    · exact absurd hstep (stuck_finished h.2.2.1 _)
  | terminated => exact absurd hstep (stuck_idle h.2.1 h.2.2 _)
  | request | enqueue | waiting => exact h.elim

theorem Inline.caller_step {headers : Headers} {chunks : List Bytes} {verdict : Error}
    {s s' : ReadState} (hworker : call.onWorker = true) (h : Inline call headers chunks verdict s)
    (hstep : s.callerStep call = some s') : Inline call headers chunks verdict s' := by
  obtain ⟨caller, responseHeaders, future, runner, queues⟩ := s
  cases caller with
  | body rest v =>
    obtain ⟨rfl, htransfer⟩ := h
    cases rest with
    | nil => cases hstep; exact ⟨rfl, htransfer.1, htransfer.2, htransfer.3⟩
    | cons chunk rest =>
      cases hstep
      refine ⟨rfl, htransfer.1, htransfer.2, ?_⟩
      simpa [script, bodyItems_cons] using htransfer.supply
  | finish err =>
    obtain ⟨rfl, htransfer⟩ := h
    have hrunner : runner = { phase := .idle } := htransfer.runner
    have hheaders : responseHeaders = some headers := htransfer.headers
    subst hrunner hheaders
    cases herr : err.isError with
    | true =>
      simp only [callerStep, herr, if_true] at hstep
      cases hstep
      simpa [Inline, herr] using htransfer.tasks
    | false =>
      have hqueues : (if call.head then queues else Channel.push queues ⟨.data, none⟩) =
          delivery [] (arrived call chunks err) := by
        rw [← htransfer.supply]
        cases hhead : call.head <;> simp [script, completes, herr, hhead, bodyItems]
      simp only [callerStep, herr, hworker, Bool.false_eq_true, if_false, if_true, hqueues] at hstep
      cases hrecords : buildRecords call.type call.head headers with
      | error e =>
        simp only [hrecords] at hstep
        cases hstep
        exact ⟨⟨e, hrecords⟩, rfl, htransfer.tasks⟩
      | ok records =>
        simp only [hrecords] at hstep
        cases hstep
        exact ⟨herr, records, hrecords, .refl⟩
  | inlining =>
    obtain ⟨hok, records, hrecords, hrun⟩ := h
    simp only [callerStep] at hstep
    split at hstep
    · cases hstep
      simpa [Inline, hok] using ⟨‹_›, records, hrecords, hrun⟩
    · cases hstep
  | returned | terminated => cases hstep
  | request | enqueue | waiting => exact h.elim

/-- In every interleaving of a call on the worker thread the callbacks run
after the transfer, on everything that has arrived. -/
theorem inline {headers : Headers} {chunks : List Bytes} {verdict : Error} {s : ReadState}
    (hworker : call.onWorker = true)
    (h : Reaches (Step call) (transferring headers chunks verdict) s) :
    Inline call headers chunks verdict s := by
  refine invariant _ (fun s t hs hstep => ?_) h (inline_transferring ..)
  cases hstep with
  | caller hstep => exact hs.caller_step hworker hstep
  | runner hstep => exact hs.runner_step hstep

/-! ## A call that fails before any header block -/

/-- A transfer that fails without a 200 header block touches nothing. -/
theorem refused {err : Error} {s : ReadState} (herr : err.isError = true)
    (h : Reaches (Step call) { caller := .finish err } s) :
    s.runner = { phase := .idle } ∧ s.queues .tasks = [] ∧
      (s.caller = .finish err ∨ s.caller = .returned false err) := by
  refine invariant (fun s => s.runner = { phase := .idle } ∧ s.queues .tasks = [] ∧
    (s.caller = .finish err ∨ s.caller = .returned false err)) ?_ h ⟨rfl, rfl, .inl rfl⟩
  rintro s t ⟨hrunner, htasks, hcaller⟩ hstep
  have hstep := hstep.callerStep_of_stuck (stuck_idle (by rw [hrunner]) htasks)
  rcases hcaller with hcaller | hcaller
  · simp only [callerStep, hcaller, herr, if_true, hrunner] at hstep
    cases hstep
    exact ⟨rfl, htasks, .inr rfl⟩
  · simp [callerStep, hcaller] at hstep

theorem reachable_refused {err : Error} {herr : err.isError = true} {s : ReadState}
    (h : Reachable call (.refused err herr) s) :
    s.runner = { phase := .idle } ∧ ∀ stopped err',
      s.caller = .returned stopped err' → stopped = false ∧ err' = err := by
  rcases (reachable_iff ..).1 h with rfl | ⟨t, hfirst, hrun⟩
  · exact ⟨rfl, nofun⟩
  · cases hfirst
    obtain ⟨hrunner, -, hcaller⟩ := refused herr hrun
    refine ⟨hrunner, fun stopped err' hret => ?_⟩
    rcases hcaller with hcaller | hcaller
    · cases hcaller.symm.trans hret
    · cases hcaller.symm.trans hret; exact ⟨rfl, rfl⟩

/-- A call that is refused can return. -/
theorem refused_completes {err : Error} {herr : err.isError = true} {s : ReadState}
    (h : Reachable call (.refused err herr) s) :
    ∃ t, Reaches (Step call) s t ∧ t.caller = .returned false err ∧
      t.runner = { phase := .idle } := by
  have hfinish : ∀ t : ReadState, t.caller = .finish err → t.runner = { phase := .idle } →
      t.callerStep call = some { t with caller := .returned false err } := fun t ht hrunner => by
    simp [callerStep, ht, herr, hrunner]
  rcases (reachable_iff ..).1 h with rfl | ⟨t, hfirst, hrun⟩
  · exact ⟨_, .head (.caller rfl) (.single (.caller (hfinish _ rfl rfl))), rfl, rfl⟩
  · cases hfirst
    obtain ⟨hrunner, -, hcaller | hcaller⟩ := refused herr hrun
    · exact ⟨_, .single (.caller (hfinish s hcaller hrunner)), rfl, hrunner⟩
    · exact ⟨s, .refl, hcaller, hrunner⟩

/-! ## Every call -/

/-- The body of the response as the calling thread gets it. -/
def bodyOf (call : ReadCall) (chunks : List Bytes) : List Bytes := if call.head then [] else chunks

/-- The first step when a 200 header block arrives. -/
theorem callerStep_delivered (call : ReadCall) (headers : Headers) (chunks : List Bytes)
    {verdict : Error}
    (hverdict : (call.head && verdict.isError) = false) :
    (initial (.delivered headers chunks verdict)).callerStep call =
      some (if call.onWorker then transferring headers (bodyOf call chunks) verdict
        else match buildRecords call.type call.head headers with
          | .error _ => { caller := .terminated }
          | .ok records => decoded records (bodyOf call chunks) verdict) := by
  simp only [callerStep, initial, hverdict, Bool.false_eq_true, if_false]
  split
  · rfl
  · cases buildRecords call.type call.head headers <;> rfl

/-- The states of a call that queues its records. -/
theorem reachable_queued {headers : Headers} {chunks : List Bytes} {verdict : Error} {s : ReadState}
    (hworker : call.onWorker = false) (hverdict : (call.head && verdict.isError) = false)
    (h : Reachable call (.delivered headers chunks verdict) s) :
    s = initial (.delivered headers chunks verdict) ∨ s = { caller := .terminated } ∨
      ∃ records, buildRecords call.type call.head headers = .ok records ∧
        Reaches (Step call) (decoded records (bodyOf call chunks) verdict) s := by
  rcases (reachable_iff ..).1 h with rfl | ⟨t, hfirst, hrun⟩
  · exact .inl rfl
  · simp only [callerStep_delivered call headers chunks hverdict, hworker, Bool.false_eq_true, if_false,
      Option.some.injEq] at hfirst
    cases hrecords : buildRecords call.type call.head headers with
    | error e =>
      simp only [hrecords] at hfirst
      subst hfirst
      have hstuck : Stuck (Step call) { caller := .terminated } := fun t hstep => by
        cases hstep.callerStep_of_stuck (stuck_idle rfl rfl)
      exact .inr (.inl (hstuck.eq_of_reaches hrun))
    | ok records =>
      simp only [hrecords] at hfirst
      subst hfirst
      exact .inr (.inr ⟨records, rfl, hrun⟩)

/-- The states of a call on the worker thread. -/
theorem reachable_inline {headers : Headers} {chunks : List Bytes} {verdict : Error} {s : ReadState}
    (hworker : call.onWorker = true) (hverdict : (call.head && verdict.isError) = false)
    (h : Reachable call (.delivered headers chunks verdict) s) :
    s = initial (.delivered headers chunks verdict) ∨
      Reaches (Step call) (transferring headers (bodyOf call chunks) verdict) s := by
  rcases (reachable_iff ..).1 h with rfl | ⟨t, hfirst, hrun⟩
  · exact .inl rfl
  · simp only [callerStep_delivered call headers chunks hverdict, hworker, if_true,
      Option.some.injEq] at hfirst
    exact .inr (hfirst ▸ hrun)

/-- A call that queues its records returns without an error only when its
worker has served all of them. -/
theorem queued_returned {headers : Headers} {chunks : List Bytes} {s : ReadState} {stopped : Bool}
    {err : Error} (hworker : call.onWorker = false)
    (h : Reachable call (.delivered headers chunks .kOk) s)
    (hret : s.caller = .returned stopped err) :
    ∃ records, buildRecords call.type call.head headers = .ok records ∧ err = .kOk ∧
      stopped = s.runner.stopped ∧ s.runner.phase = .idle ∧ s.queues .tasks = [] ∧
      Reaches (RunnerStep call.callback) (queuedRun call records (bodyOf call chunks) .kOk)
        ⟨s.runner, s.queues⟩ := by
  rcases reachable_queued hworker (by simp) h with rfl | rfl | ⟨records, hrecords, hrun⟩
  · cases hret
  · cases hret
  · obtain ⟨hcaller, hreaches⟩ := queued hworker hrun
    simp only [QueuedCaller, hret, Error.kOk_isError, Bool.false_eq_true, if_false] at hcaller
    obtain ⟨herr, hstopped, hidle, htasks⟩ := hcaller
    simp only [script, hret, Channel.supply_nil] at hreaches
    exact ⟨records, hrecords, herr, hstopped, hidle, htasks, hreaches⟩

/-- A call on the worker thread returns without an error only when the inline
loop has come to its end. -/
theorem inline_returned {headers : Headers} {chunks : List Bytes} {s : ReadState} {stopped : Bool}
    {err : Error} (hworker : call.onWorker = true)
    (h : Reachable call (.delivered headers chunks .kOk) s)
    (hret : s.caller = .returned stopped err) :
    ∃ records, buildRecords call.type call.head headers = .ok records ∧ err = .kOk ∧
      stopped = s.runner.stopped ∧ s.runner.phase = .finished ∧
      Reaches (RunnerStep call.callback)
        (inlineStart records (arrived call (bodyOf call chunks) .kOk)) ⟨s.runner, s.queues⟩ := by
  rcases reachable_inline hworker (by simp) h with rfl | hrun
  · cases hret
  · have hinline := inline hworker hrun
    simp only [Inline, hret, Error.kOk_isError, Bool.false_eq_true, if_false] at hinline
    obtain ⟨herr, hstopped, hfinished, records, hrecords, hreaches⟩ := hinline
    exact ⟨records, hrecords, herr, hstopped, hfinished, hreaches⟩

end ReadState

end Reduct
