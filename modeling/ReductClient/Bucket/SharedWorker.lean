-- SUMMARY: Queries that several threads make on one handle: its worker runs the callbacks of all of them, each query goes as it would alone, and one blocks the others only with a callback that would not come to its end alone.
import ReductClient.Base.Service
import ReductClient.Bucket.Query
import ReductClient.Bucket.TaskLifetime

open Cxx Transition

namespace Reduct

/-- The worker is in a task. -/
def Phase.isBusy : Phase → Bool
  | .idle | .finished => false
  | _ => true

/-- The worker is in a task of the query. -/
def QueryState.busy (s : QueryState) : Bool :=
  match s.phase with
  | .reading r => r.runner.phase.isBusy
  | _ => false

variable [StdSort]

/-! ## The thread and the worker -/

/-- A call off the worker leaves the record callbacks to it. -/
theorem ReadState.runner_callerStep {call : ReadCall} (hoff : call.onWorker = false)
    {s t : ReadState} (h : s.callerStep call = some t) : t.runner = s.runner := by
  unfold callerStep at h
  simp only [hoff, Bool.false_eq_true, if_false] at h
  repeat' split at h
  all_goals first
    | cases h; rfl
    | cases h

namespace Query

/-- A step of the thread that makes the query. -/
inductive ThreadStep (q : Query) (answers : q.Answers) : QueryState → QueryState → Prop where
  | ask {round : Nat} {past : List Visit} {a : Answer q.type q.headOnly}
      (ha : answers round = some a) :
    ThreadStep q answers ⟨round, past, .asking⟩ ⟨round, past, .reading (.initial a.transfer)⟩
  | read {round : Nat} {past : List Visit} {r r' : ReadState}
      (h : r.callerStep (q.readCall past) = some r') :
    ThreadStep q answers ⟨round, past, .reading r⟩ ⟨round, past, .reading r'⟩
  | leave {round : Nat} {past : List Visit} {r : ReadState} {stopped : Bool} {err : Error}
      (h : r.caller = .returned stopped err) :
    ThreadStep q answers ⟨round, past, .reading r⟩
      ⟨round + 1, past ++ r.runner.visits, q.afterRead stopped err⟩
  | wake {round : Nat} {past : List Visit} :
    ThreadStep q answers ⟨round, past, .sleeping⟩ ⟨round, past, .asking⟩

/-- A step of the worker, in a task of the query or to its next one. -/
inductive WorkerStep (q : Query) : QueryState → QueryState → Prop where
  | run {round : Nat} {past : List Visit} {r : ReadState} {runner : Runner}
      {queues : Channel.Queues Payload}
      (h : RunnerStep (q.readCall past).callback ⟨r.runner, r.queues⟩ ⟨runner, queues⟩) :
    WorkerStep q ⟨round, past, .reading r⟩
      ⟨round, past, .reading { r with runner := runner, queues := queues }⟩

/-- A query reads complete responses and errors, so no task of a read is left when it has
returned. -/
theorem idle_of_returned {q : Query} {answers : q.Answers} {round : Nat} {past : List Visit}
    {r : ReadState} {stopped : Bool} {err : Error}
    (hreach : q.Reachable answers ⟨round, past, .reading r⟩)
    (hret : r.caller = .returned stopped err) : r.runner.phase.isBusy = false := by
  obtain ⟨-, a, -, hread⟩ := inv_reachable hreach
  have hcomplete : ¬ ReadState.FailsAfterRecords (q.readCall past) a.transfer := by
    rintro ⟨-, -, headers, chunks, verdict, records, htransfer, herr, -⟩
    cases a with
    | batch headers chunks records decodes =>
      cases htransfer
      cases herr
    | error e he => cases htransfer
  rcases (ReadState.tasksEnd hcomplete r stopped err hread hret).2 with hphase | hphase <;>
    rw [hphase] <;> rfl

/-- The thread of a query makes the worker neither busy nor idle. -/
theorem busy_threadStep {q : Query} {answers : q.Answers} (hoff : q.onWorker = false)
    {s t : QueryState} (hreach : q.Reachable answers s) (h : q.ThreadStep answers s t) :
    t.busy = s.busy := by
  cases h with
  | ask => rfl
  | @read round past r r' h =>
    have hrunner : r'.runner = r.runner :=
      @ReadState.runner_callerStep _ (q.readCall past) hoff _ _ h
    simp only [QueryState.busy, hrunner]
  | @leave round past r stopped err hret =>
    have hidle := idle_of_returned hreach hret
    have hafter : ∀ r', q.afterRead stopped err ≠ .reading r' := by
      intro r'
      unfold afterRead
      split_ifs <;> nofun
    simp only [QueryState.busy, hidle]
  | wake => rfl

end Query

/-! ## Queries that share the worker -/

/-- Queries on one handle, each in a thread of its own. -/
structure SharedQueries (ι : Type) where
  query : ι → Query
  answers : ∀ i, (query i).Answers
  offWorker : ∀ i, (query i).onWorker = false

/-- The query has gone past the response that it was reading, if it was reading one. -/
def QueryState.GonePast (s t : QueryState) : Prop :=
  match s.phase with
  | .reading _ => t.round = s.round + 1 ∧ ∀ r, t.phase ≠ .reading r
  | _ => t = s

omit [StdSort] in
theorem QueryState.GonePast.idle {s t : QueryState} (h : s.GonePast t) : t.busy = false := by
  unfold GonePast at h
  split at h
  · unfold busy
    split
    · exact absurd ‹_› (h.2 _)
    · rfl
  · subst h
    unfold busy
    split
    · exact absurd ‹_› (by simp [*])
    · rfl

omit [StdSort] in
theorem QueryState.gonePast_reading {round : Nat} {past : List Visit} {r : ReadState}
    {t : QueryState} : GonePast ⟨round, past, .reading r⟩ t ↔
      t.round = round + 1 ∧ ∀ r, t.phase ≠ .reading r :=
  Iff.rfl

namespace SharedQueries

variable {ι : Type}

/-- The steps of the thread of a query. -/
abbrev threads (Q : SharedQueries ι) (i : ι) : QueryState → QueryState → Prop :=
  (Q.query i).ThreadStep (Q.answers i)

/-- The steps of the worker for a query. -/
abbrev worker (Q : SharedQueries ι) (i : ι) : QueryState → QueryState → Prop :=
  (Q.query i).WorkerStep

/-- A thread makes a step, or the worker does. The worker takes a task of any query when
it is idle, and is not idle again before the end of the task. -/
def Step [DecidableEq ι] (Q : SharedQueries ι) :
    Service.State ι QueryState → Service.State ι QueryState → Prop :=
  Service.Step Q.threads Q.worker QueryState.busy

/-- The states of the threads and the worker in every interleaving. -/
abbrev Reachable [DecidableEq ι] (Q : SharedQueries ι) (S : Service.State ι QueryState) : Prop :=
  Reaches Q.Step (Service.start fun _ => {}) S

/-- A query with the worker for itself. -/
theorem alone_iff (Q : SharedQueries ι) {i : ι} {s t : QueryState} :
    Service.Alone Q.threads Q.worker i s t ↔ (Q.query i).Step (Q.answers i) s t := by
  constructor
  · rintro (h | h)
    · cases h with
      | ask ha => exact .ask ha
      | read h => exact .read (.caller h)
      | leave h => exact .leave h
      | wake => exact .wake
    · cases h with
      | run h => exact .read (.runner h)
  · intro h
    cases h with
    | ask ha => exact .own (.ask ha)
    | read h =>
      cases h with
      | caller h => exact .own (.read h)
      | runner h => exact .work (.run h)
    | leave h => exact .own (.leave h)
    | wake => exact .own .wake

theorem alone_eq (Q : SharedQueries ι) (i : ι) :
    Service.Alone Q.threads Q.worker i = (Q.query i).Step (Q.answers i) :=
  funext fun _ => funext fun _ => propext Q.alone_iff

theorem orderly (Q : SharedQueries ι) :
    Service.Orderly Q.threads Q.worker QueryState.busy fun _ => {} where
  idle _ := rfl
  own i s t hreach h := by
    rw [alone_eq] at hreach
    exact Query.busy_threadStep (Q.offWorker i) hreach h

/-- What sharing the worker comes to, in one of the states. -/
structure SharesWorker [DecidableEq ι] (Q : SharedQueries ι) (S : Service.State ι QueryState) :
    Prop where
  /-- Each query is where it could be alone. -/
  alone : ∀ i, (Q.query i).Reachable (Q.answers i) (S.clients i)
  /-- The worker is in a task of the query that it serves, and in no other. -/
  worker : ∀ i, (S.clients i).busy = true ↔ S.serves = some i
  /-- It can come to the end of the task exactly if it could with this query alone. -/
  frees : ∀ i, S.serves = some i → ((∃ T, Reaches Q.Step S T ∧ T.serves = none) ↔
    ∃ t, Reaches ((Q.query i).Step (Q.answers i)) (S.clients i) t ∧ t.busy = false)
  /-- All queries can go past their responses exactly if each of them could alone. -/
  goesPast : (∃ T, Reaches Q.Step S T ∧ ∀ i, (S.clients i).GonePast (T.clients i)) ↔
    ∀ i, ∃ t, Reaches ((Q.query i).Step (Q.answers i)) (S.clients i) t ∧ (S.clients i).GonePast t

/-- Sharing the worker changes nothing for a query, and holds nothing up. -/
theorem sharesWorker [DecidableEq ι] [Fintype ι] (Q : SharedQueries ι)
    (S : Service.State ι QueryState) (h : Q.Reachable S) : Q.SharesWorker S where
  alone i := by
    have halone := Service.alone_reaches h i
    rw [Q.alone_eq] at halone
    exact halone
  worker := Service.serves_iff Q.orderly h
  frees i hi := Q.alone_eq i ▸ Service.frees_iff Q.orderly h hi
  goesPast := by
    have hidle : ∀ (_ : ι) (s t : QueryState), s.GonePast t → t.busy = false :=
      fun _ _ _ => QueryState.GonePast.idle
    have hall := Service.all_done_iff Q.orderly hidle h
    simp only [Q.alone_eq] at hall
    exact hall

/-- The read of the sample, `n` steps far. -/
def readSteps (n : Nat) : ReadState :=
  @ReadState.run .insertion ⟨.batchedV1, false, false, readThrough⟩
    (.initial ReadState.sampleTransfer) (ReadState.sampleSchedule.take n)

omit [StdSort] in
/-- From there it can come to its end. -/
theorem reaches_sampleRun (n : Nat) :
    Reaches (@ReadState.Step .insertion ⟨.batchedV1, false, false, readThrough⟩) (readSteps n)
      (ReadState.sampleRun false) := by
  have hrun := @ReadState.reaches_run .insertion ⟨.batchedV1, false, false, readThrough⟩
    (readSteps n) (ReadState.sampleSchedule.drop n)
  have hsame : @ReadState.run .insertion ⟨.batchedV1, false, false, readThrough⟩ (readSteps n)
      (ReadState.sampleSchedule.drop n) = ReadState.sampleRun false := by
    rw [readSteps, ReadState.sampleRun]
    unfold ReadState.run
    rw [← List.foldl_append, List.take_append_drop]
  rwa [hsame] at hrun

/-- A v1 query that is not continuous, answered with two records. -/
def sampleQuery : Query := queryV1 false false false readThrough

omit [StdSort] in
theorem sample_decodes :
    ∃ records, @buildRecords .insertion .batchedV1 false sampleHeaders = .ok records := by
  have hok : (@buildRecords .insertion .batchedV1 false sampleHeaders).toBool = true := by
    decide +kernel
  cases hrecords : @buildRecords .insertion .batchedV1 false sampleHeaders with
  | ok records => exact ⟨records, rfl⟩
  | error fault => simp [hrecords, Except.toBool] at hok

omit [StdSort] in
/-- The records are queued first, then the worker is in one of them. -/
theorem busy_readSteps : QueryState.busy ⟨0, [], .reading (readSteps 4)⟩ = false ∧
    QueryState.busy ⟨0, [], .reading (readSteps 7)⟩ = true := by
  decide +kernel

omit [StdSort] in
/-- The worker is in a record of one query, and the records of another one are queued. -/
theorem sharesWorker_twoQueries :
    ∃ (Q : @SharedQueries .insertion Bool) (S T : Service.State Bool QueryState),
      @Reachable .insertion _ _ Q S ∧ S.serves = some false ∧ Reaches (@Step .insertion _ _ Q) S T ∧
        ∀ i, (T.clients i).round = 1 := by
  let : StdSort := .insertion
  obtain ⟨records, decodes⟩ := sample_decodes
  let a : Answer .batchedV1 false :=
    .batch sampleHeaders [bytes "ab", [], bytes "c"] records decodes
  let Q : SharedQueries Bool := ⟨fun _ => sampleQuery, fun _ _ => some a, fun _ => rfl⟩
  -- a query asks, and its read goes `n` steps
  have hread : ∀ i n, Reaches ((Q.query i).Step (Q.answers i)) {}
      ⟨0, [], .reading (readSteps n)⟩ := fun i n =>
    .head (.ask (q := sampleQuery) (a := a) rfl)
      (Query.read_reaches (q := sampleQuery) (ReadState.reaches_run _ _ _))
  have hret : (ReadState.sampleRun false).caller = .returned true .kOk :=
    Caller.result?_eq_some.1 (by decide +kernel)
  -- and it can go past the response from there
  have hpast : ∀ i n, ∃ t, Reaches ((Q.query i).Step (Q.answers i))
      ⟨0, [], .reading (readSteps n)⟩ t ∧
        QueryState.GonePast ⟨0, [], .reading (readSteps n)⟩ t := by
    intro i n
    have hrun : Reaches ((Q.query i).Step (Q.answers i)) ⟨0, [], .reading (readSteps n)⟩
        ⟨1, [] ++ (ReadState.sampleRun false).runner.visits, .returned .kOk⟩ :=
      (Query.read_reaches (q := sampleQuery) (reaches_sampleRun n)).tail
        (.leave (q := sampleQuery) hret)
    exact ⟨_, hrun, QueryState.gonePast_reading.2 ⟨rfl, fun r h => QueryPhase.noConfusion h⟩⟩
  obtain ⟨U, hU, hUclients, hUserves⟩ := Service.reaches_of_alone QueryState.busy
    (S := Service.start fun _ : Bool => ({} : QueryState)) (.inl rfl)
    (Q.alone_eq true ▸ hread true 4)
  have hUfree : U.serves = none := by
    refine hUserves.resolve_right fun hbusy => ?_
    rw [← (Q.sharesWorker U hU).worker, hUclients, Function.update_self, busy_readSteps.1] at hbusy
    cases hbusy
  have hUother : U.clients false = {} := by
    rw [hUclients]
    rfl
  obtain ⟨S, hS, hSclients, -⟩ := Service.reaches_of_alone QueryState.busy (S := U)
    (i := false) (t := ⟨0, [], .reading (readSteps 7)⟩) (.inl hUfree)
    (by rw [Q.alone_eq, hUother]; exact hread false 7)
  have hreach : Q.Reachable S := hU.trans hS
  have hsound := Q.sharesWorker S hreach
  have hfalse : S.clients false = ⟨0, [], .reading (readSteps 7)⟩ := by
    rw [hSclients, Function.update_self]
  have htrue : S.clients true = ⟨0, [], .reading (readSteps 4)⟩ := by
    rw [hSclients, Function.update_of_ne (by decide), hUclients, Function.update_self]
  have hall : ∀ i, ∃ t, Reaches ((Q.query i).Step (Q.answers i)) (S.clients i) t ∧
      (S.clients i).GonePast t := by
    rintro (_ | _)
    · exact hfalse ▸ hpast false 7
    · exact htrue ▸ hpast true 4
  obtain ⟨T, hT, hgone⟩ := hsound.goesPast.2 hall
  refine ⟨Q, S, T, hreach, (hsound.worker false).1 ?_, hT, ?_⟩
  · rw [hfalse]
    exact busy_readSteps.2
  · rintro (_ | _)
    · have hround := hgone false
      rw [hfalse, QueryState.gonePast_reading] at hround
      exact hround.1
    · have hround := hgone true
      rw [htrue, QueryState.gonePast_reading] at hround
      exact hround.1

end SharedQueries

end Reduct
