-- SUMMARY: The callback thread as a transition system of its own, with one constructor for each thing a step of it can be, and the order in which it serves its tasks.
import ReductClient.Bucket.Runner

open Cxx Transition

namespace Reduct

/-! ## The thread with its queues -/

/-- The queues as the callback thread finds them once everything has arrived. -/
def delivery (tasks : List Task) (data : List Item) : Channel.Queues Payload
  | .tasks => tasks
  | .data => data

@[simp] theorem delivery_tasks (tasks : List Task) (data : List Item) :
    delivery tasks data .tasks = tasks := rfl

@[simp] theorem delivery_data (tasks : List Task) (data : List Item) :
    delivery tasks data .data = data := rfl

theorem delivery_eta (q : Channel.Queues Payload) : q = delivery (q .tasks) (q .data) := by
  funext i; cases i <;> rfl

@[simp] theorem update_delivery_data (tasks : List Task) (data data' : List Item) :
    Function.update (delivery tasks data) .data data' = delivery tasks data' := by
  funext i; cases i <;> simp [Function.update]

@[simp] theorem update_delivery_tasks (tasks tasks' : List Task) (data : List Item) :
    Function.update (delivery tasks data) .tasks tasks' = delivery tasks' data := by
  funext i; cases i <;> simp [Function.update]

/-- The steps of the callback thread alone. -/
abbrev RunnerStep (callback : RecordCallback) :=
  Channel.Step (Runner.act callback)

/-- A callback thread with the contents of its queues. -/
abbrev RunnerConfig := Channel.Config Payload Runner

/-- The tasks of the records, with ids from `n` on. -/
def taskList : Nat → List ReadableRecord → List Task
  | _, [] => []
  | n, record :: records => ⟨n, record⟩ :: taskList (n + 1) records

/-- The items that `chunks` and, if the transfer is complete, the end marker
make in the data queue. -/
def bodyItems (complete : Bool) (chunks : List Bytes) : List Item :=
  chunks.map some ++ if complete then [none] else []

theorem bodyItems_cons (complete : Bool) (chunk : Bytes) (chunks : List Bytes) :
    bodyItems complete (chunk :: chunks) = some chunk :: bodyItems complete chunks := rfl

/-- The worker, idle, with the tasks of all records and the whole body queued. -/
def queuedStart (records : List ReadableRecord) (data : List Item) : RunnerConfig :=
  ⟨{ phase := .idle }, delivery (taskList 0 records) data⟩

/-- `RunCallbacksInline` about to run, with the whole body queued. -/
def inlineStart (records : List ReadableRecord) (data : List Item) : RunnerConfig :=
  ⟨{ phase := .loop records }, delivery [] data⟩

/-! ## The moves of the callback thread -/

/-- What a step of the callback thread can be. -/
inductive Move (callback : RecordCallback) : RunnerConfig → RunnerConfig → Prop where
  | dequeue {task tasks data visits stopped ready} :
    Move callback ⟨⟨.idle, visits, stopped, ready⟩, delivery (task :: tasks) data⟩
      ⟨⟨.starting task, visits, stopped, ready⟩, delivery tasks data⟩
  | skip {task visits ready q} :
    Move callback ⟨⟨.starting task, visits, true, ready⟩, q⟩
      ⟨⟨.idle, visits, true, ready ++ [task.id]⟩, q⟩
  | call {task visits ready q} :
    Move callback ⟨⟨.starting task, visits, false, ready⟩, q⟩
      ⟨⟨.active task.record [] (.running (callback visits task.record)) (.task task.id),
        visits, false, ready⟩, q⟩
  | ret {record chunks more id visits stopped ready q} :
    Move callback
      ⟨⟨.active record chunks (.running (.ret more)) (.task id), visits, stopped, ready⟩, q⟩
      ⟨⟨.idle, visits ++ [⟨record, chunks, more⟩], !more || record.last, ready ++ [id]⟩, q⟩
  | retInline {record chunks more rest visits stopped ready q} :
    Move callback
      ⟨⟨.active record chunks (.running (.ret more)) (.inline rest), visits, stopped, ready⟩, q⟩
      ⟨⟨.loop rest, visits ++ [⟨record, chunks, more⟩], !more || record.last, ready⟩, q⟩
  | readHead {record chunks read onChunk k origin visits stopped ready q}
      (h : read.head = true) :
    Move callback
      ⟨⟨.active record chunks (.running (.read read onChunk k)) origin, visits, stopped, ready⟩, q⟩
      ⟨⟨.active record chunks (.running (k [])) origin, visits, stopped, ready⟩, q⟩
  | read {record chunks read onChunk k origin visits stopped ready q}
      (h : read.head = false) :
    Move callback
      ⟨⟨.active record chunks (.running (.read read onChunk k)) origin, visits, stopped, ready⟩, q⟩
      ⟨⟨.active record chunks (.reading read.kind onChunk k 0 []) origin,
        visits, stopped, ready⟩, q⟩
  | fault {record chunks kind onChunk k total got origin visits stopped ready item tasks data}
      (h : ReadKind.fetch total kind item = .fault) :
    Move callback
      ⟨⟨.active record chunks (.reading kind onChunk k total got) origin, visits, stopped, ready⟩,
        delivery tasks (item :: data)⟩
      ⟨⟨.crashed, visits, stopped, ready⟩, delivery tasks data⟩
  | endOfData {record chunks kind onChunk k total got origin visits stopped ready item back tasks
      data} (h : ReadKind.fetch total kind item = .chunk none back) :
    Move callback
      ⟨⟨.active record chunks (.reading kind onChunk k total got) origin, visits, stopped, ready⟩,
        delivery tasks (item :: data)⟩
      ⟨⟨.active record chunks (.running (k got)) origin, visits, stopped, ready⟩,
        delivery tasks (back ++ data)⟩
  | pause {record chunks kind onChunk k total got origin visits stopped ready item back tasks data}
      (h : ReadKind.fetch total kind item = .chunk (some []) back) :
    Move callback
      ⟨⟨.active record chunks (.reading kind onChunk k total got) origin, visits, stopped, ready⟩,
        delivery tasks (item :: data)⟩
      ⟨⟨.active record chunks (.reading kind onChunk k total got) origin, visits, stopped, ready⟩,
        delivery tasks (back ++ data)⟩
  | enough {record chunks kind onChunk k total got origin visits stopped ready item chunk back
      tasks data} (h : ReadKind.fetch total kind item = .chunk (some chunk) back) (hne : chunk ≠ [])
      (hend : (!onChunk (got ++ [chunk]) || kind.reached (total + chunk.length)) = true) :
    Move callback
      ⟨⟨.active record chunks (.reading kind onChunk k total got) origin, visits, stopped, ready⟩,
        delivery tasks (item :: data)⟩
      ⟨⟨.active record (chunks ++ [chunk]) (.running (k (got ++ [chunk]))) origin,
        visits, stopped, ready⟩, delivery tasks (back ++ data)⟩
  | more {record chunks kind onChunk k total got origin visits stopped ready item chunk back
      tasks data} (h : ReadKind.fetch total kind item = .chunk (some chunk) back) (hne : chunk ≠ [])
      (hend : (!onChunk (got ++ [chunk]) || kind.reached (total + chunk.length)) = false) :
    Move callback
      ⟨⟨.active record chunks (.reading kind onChunk k total got) origin, visits, stopped, ready⟩,
        delivery tasks (item :: data)⟩
      ⟨⟨.active record (chunks ++ [chunk])
        (.reading kind onChunk k (total + chunk.length) (got ++ [chunk])) origin,
        visits, stopped, ready⟩, delivery tasks (back ++ data)⟩
  | loopEnd {visits stopped ready q} :
    Move callback ⟨⟨.loop [], visits, stopped, ready⟩, q⟩ ⟨⟨.finished, visits, stopped, ready⟩, q⟩
  | loopStop {record rest visits ready q} :
    Move callback ⟨⟨.loop (record :: rest), visits, true, ready⟩, q⟩
      ⟨⟨.finished, visits, true, ready⟩, q⟩
  | loopCall {record rest visits ready q} :
    Move callback ⟨⟨.loop (record :: rest), visits, false, ready⟩, q⟩
      ⟨⟨.active record [] (.running (callback visits record)) (.inline rest),
        visits, false, ready⟩, q⟩

/-- An iteration of the `Read` loop is one of the moves. -/
theorem Move.afterFetch {callback : RecordCallback} {record : ReadableRecord} {chunks : List Bytes}
    {kind : ReadKind} {onChunk : List Bytes → Bool} {k : List Bytes → CallbackProg} {total : Nat}
    {got : List Bytes} {origin : Origin} {r : Runner} (item : Item) (tasks : List Task)
    (data : List Item)
    (hphase : r.phase = .active record chunks (.reading kind onChunk k total got) origin) :
    Move callback ⟨r, delivery tasks (item :: data)⟩
      ⟨(r.afterFetch record chunks kind onChunk k total got origin (kind.fetch total item)).1,
        delivery tasks ((r.afterFetch record chunks kind onChunk k total got origin
          (kind.fetch total item)).2 ++ data)⟩ := by
  obtain ⟨phase, visits, stopped, ready⟩ := r
  subst hphase
  cases hf : kind.fetch total item with
  | fault => exact .fault hf
  | chunk chunk back =>
    cases chunk with
    | none => exact .endOfData hf
    | some chunk =>
      by_cases hne : chunk = []
      · subst hne
        exact .pause hf
      · cases hend : !onChunk (got ++ [chunk]) || kind.reached (total + chunk.length) with
        | true =>
          simp only [Runner.afterFetch, hne, hend, if_true, if_false, Runner.resume]
          exact .enough hf hne hend
        | false =>
          simp only [Runner.afterFetch, hne, hend, Bool.false_eq_true, if_false]
          exact .more hf hne hend

theorem RunnerStep.move {callback : RecordCallback} {c d : RunnerConfig}
    (h : RunnerStep callback c d) : Move callback c d := by
  cases h with
  | @internal r r' q hact =>
    obtain ⟨phase, visits, stopped, ready⟩ := r
    cases phase with
    | idle => cases hact
    | starting task =>
      cases stopped <;> cases hact
      · exact .call
      · exact .skip
    | active record chunks activity origin =>
      cases activity with
      | running prog =>
        cases prog with
        | ret more =>
          cases origin <;> cases hact
          · exact .ret
          · exact .retInline
        | read read onChunk k =>
          simp only [Runner.act] at hact
          split at hact <;> cases hact
          · exact .readHead ‹_›
          · exact .read (Bool.eq_false_iff.2 ‹_›)
      | reading => cases hact
    | loop rest =>
      cases rest with
      | nil => cases hact; exact .loopEnd
      | cons record rest =>
        cases stopped <;> cases hact
        · exact .loopCall
        · exact .loopStop
    | finished => cases hact
    | crashed => cases hact
  | @receive r q i k b rest hact hq =>
    obtain ⟨phase, visits, stopped, ready⟩ := r
    cases phase with
    | idle =>
      cases hact
      obtain ⟨tasks, data, rfl⟩ : ∃ tasks data, q = delivery tasks data := ⟨_, _, delivery_eta q⟩
      cases hq
      rw [update_delivery_tasks]
      exact .dequeue
    | starting task => simp only [Runner.act] at hact; split at hact <;> cases hact
    | active record chunks activity origin =>
      cases activity with
      | running prog =>
        cases prog with
        | ret more => cases hact
        | read read onChunk k => simp only [Runner.act] at hact; split at hact <;> cases hact
      | reading kind onChunk k total got =>
        cases hact
        obtain ⟨tasks, data, rfl⟩ : ∃ tasks data, q = delivery tasks data := ⟨_, _, delivery_eta q⟩
        cases hq
        rw [update_delivery_data]
        exact .afterFetch b tasks rest rfl
    | loop rest' =>
      cases rest' with
      | nil => cases hact
      | cons record rest' => simp only [Runner.act] at hact; split at hact <;> cases hact
    | finished => cases hact
    | crashed => cases hact

theorem Move.step {callback : RecordCallback} {c d : RunnerConfig} (h : Move callback c d) :
    RunnerStep callback c d := by
  refine Channel.step_of_next ?_
  cases h with
  | dequeue => simp [Channel.next, Runner.act]
  | skip | call | loopEnd | loopStop | loopCall => rfl
  | ret | retInline => rfl
  | readHead h | read h => simp [Channel.next, Runner.act, h, Runner.resume]
  | fault h | endOfData h | pause h =>
    simp [Channel.next, Runner.act, h, Runner.afterFetch, Runner.resume]
  | enough h hne hend | more h hne hend =>
    simp only [Channel.next, Runner.act, delivery_data, h, Runner.afterFetch, hne, hend,
      Runner.resume, if_true, if_false, Bool.false_eq_true, update_delivery_data]

/-- Once a callback has stopped the request, the worker skips the other tasks. -/
theorem reaches_skip_all (callback : RecordCallback) (tasks : List Task) (visits : List Visit)
    (ready : List Nat) (data : List Item) :
    ∃ ready', Reaches (RunnerStep callback)
      ⟨⟨.idle, visits, true, ready⟩, delivery tasks data⟩
      ⟨⟨.idle, visits, true, ready'⟩, delivery [] data⟩ := by
  induction tasks generalizing ready with
  | nil => exact ⟨ready, .refl⟩
  | cons task tasks ih =>
    obtain ⟨ready', hrun⟩ := ih (ready ++ [task.id])
    exact ⟨ready', .head Move.dequeue.step (.head Move.skip.step hrun)⟩

/-! ## Futures -/

/-- The ids of the tasks a callback call belongs to. -/
def Origin.Serves : Origin → List Nat → Prop
  | .task id, current => current = [id]
  | .inline _, _ => False

/-- The task a phase of the worker is busy with. A crash loses its task. -/
def Phase.Serves : Phase → List Nat → Prop
  | .idle, current => current = []
  | .starting task, current => current = [task.id]
  | .active _ _ _ origin, current => origin.Serves current
  | .crashed, current => current ≠ []
  | _, _ => False

/-- The futures that are ready, the task that runs and the tasks that wait are,
in this order, the tasks `0, ..., n - 1`. -/
def Fifo (n : Nat) (c : RunnerConfig) : Prop :=
  ∃ current, c.state.phase.Serves current ∧
    c.state.ready ++ current ++ (c.queues .tasks).map Task.id = List.range n

theorem taskList_ids (n : Nat) (records : List ReadableRecord) :
    (taskList n records).map Task.id = List.range' n records.length := by
  induction records generalizing n with
  | nil => rfl
  | cons record records ih => simp [taskList, ih, List.range'_succ]

theorem fifo_queuedStart (records : List ReadableRecord) (data : List Item) :
    Fifo records.length (queuedStart records data) :=
  ⟨[], rfl, by simp [queuedStart, taskList_ids, List.range_eq_range']⟩

theorem Origin.Serves.ne_nil {origin : Origin} {current : List Nat} (h : origin.Serves current) :
    current ≠ [] := by
  cases origin with
  | task id => exact h ▸ List.cons_ne_nil _ _
  | inline rest => exact h.elim

theorem fifo_step {callback : RecordCallback} {n : Nat} {c d : RunnerConfig} (h : Fifo n c)
    (hstep : RunnerStep callback c d) : Fifo n d := by
  obtain ⟨current, hserves, hids⟩ := h
  cases hstep.move with
  | dequeue =>
    cases hserves
    exact ⟨_, rfl, by simpa using hids⟩
  | skip | ret =>
    cases hserves
    exact ⟨_, rfl, by simpa using hids⟩
  | fault => exact ⟨current, hserves.ne_nil, hids⟩
  | retInline | loopEnd | loopStop | loopCall => exact hserves.elim
  | call | readHead | read | endOfData | pause | enough | more => exact ⟨current, hserves, hids⟩

theorem Fifo.reaches {callback : RecordCallback} {n : Nat} {c d : RunnerConfig} (h : Fifo n c)
    (hrun : Reaches (RunnerStep callback) c d) : Fifo n d :=
  invariant (Fifo n) (fun _ _ => fifo_step) hrun h

/-- The worker is a single thread and the queue is in order: once the last
future is ready, no task waits and none runs. -/
theorem Fifo.all_done {n : Nat} {c : RunnerConfig} (h : Fifo n c)
    (hlast : n = 0 ∨ n - 1 ∈ c.state.ready) :
    c.state.phase = .idle ∧ c.queues .tasks = [] := by
  obtain ⟨current, hserves, hids⟩ := h
  have hrest : current ++ (c.queues .tasks).map Task.id = [] := by
    rcases hlast with rfl | hmem
    · simp only [List.range_zero, List.append_eq_nil_iff] at hids
      simp [hids]
    · -- everything after the ready futures would be larger than the last id
      by_contra hne
      obtain ⟨x, xs, hx⟩ := List.exists_cons_of_ne_nil hne
      have hsorted : (List.range n).Pairwise (· < ·) := List.pairwise_lt_range
      rw [← hids, List.append_assoc, List.pairwise_append] at hsorted
      have hlt := hsorted.2.2 (n - 1) hmem x (by simp [hx])
      have hxn : x ∈ List.range n := by rw [← hids, List.append_assoc, hx]; simp
      have := List.mem_range.1 hxn
      omega
  obtain ⟨rfl, htasks⟩ : current = [] ∧ c.queues .tasks = [] := by simpa using hrest
  refine ⟨?_, htasks⟩
  cases hphase : c.state.phase with
  | idle => rfl
  | active record chunks activity origin =>
    rw [hphase] at hserves
    exact absurd rfl hserves.ne_nil
  | crashed => rw [hphase] at hserves; exact absurd rfl hserves
  | starting task => rw [hphase] at hserves; cases hserves
  | loop rest => rw [hphase] at hserves; exact hserves.elim
  | finished => rw [hphase] at hserves; exact hserves.elim

end Reduct
