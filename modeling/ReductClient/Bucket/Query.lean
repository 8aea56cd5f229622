-- SUMMARY: The read loop of `QueryV1` and `QueryV2` over any sequence of server answers, and the delivery of every record exactly once and in order.
import ReductClient.Bucket.Delivery

open Cxx Transition

namespace Reduct

variable [StdSort]

/-! ## The loop -/

/-- The server's answer to one read request of a query: a complete 200 response
that decodes to records, or an error before any record. -/
inductive Answer (type : ReadType) (head : Bool) where
  | batch (headers : Headers) (chunks : List Bytes) (records : List ReadableRecord)
      (decodes : buildRecords type head headers = .ok records)
  | error (err : Error) (isError : err.isError = true)

/-- What the HTTP client does with the answer. -/
def Answer.transfer {type : ReadType} {head : Bool} : Answer type head → Transfer
  | .batch headers chunks _ _ => .delivered headers chunks .kOk
  | .error err isError => .refused err isError

/-- The records of the answer. -/
def Answer.records {type : ReadType} {head : Bool} : Answer type head → List ReadableRecord
  | .batch _ _ records _ => records
  | .error _ _ => []

/-- A query whose id is known: the protocol of its responses, `head_only` and
`continuous` of its options, the thread it runs on, and the callback, which may
depend on all earlier calls of the query. -/
structure Query where
  type : ReadType
  headOnly : Bool
  continuous : Bool
  onWorker : Bool
  callback : RecordCallback

/-- The loop of `Bucket::QueryV1`. -/
def queryV1 (headOnly continuous onWorker : Bool) (callback : RecordCallback) : Query :=
  ⟨.batchedV1, headOnly, continuous, onWorker, callback⟩

/-- The loop of `Bucket::QueryV2`. -/
def queryV2 (headOnly continuous onWorker : Bool) (callback : RecordCallback) : Query :=
  ⟨.batchedV2, headOnly, continuous, onWorker, callback⟩

/-- The answers of the server, as many as it gives. -/
abbrev Query.Answers (q : Query) := Nat → Option (Answer q.type q.headOnly)

/-- The read of the next response, after the given callback calls. -/
def Query.readCall (q : Query) (past : List Visit) : ReadCall where
  type := q.type
  head := q.headOnly
  onWorker := q.onWorker
  callback visits := q.callback (past ++ visits)

/-- Where the loop stands. -/
inductive QueryPhase where
  /-- At its head. -/
  | asking
  /-- In `ReadRecord` or `ReadRecordV2`. -/
  | reading (s : ReadState)
  /-- In the pause of a continuous query. -/
  | sleeping
  | returned (err : Error)

/-- The loop with the number of answers it has gone past and the callback calls
it has made with their records. -/
structure QueryState where
  round : Nat := 0
  past : List Visit := []
  phase : QueryPhase := .asking

/-- The rest of an iteration, after the read. -/
def Query.afterRead (q : Query) (stopped : Bool) (err : Error) : QueryPhase :=
  if stopped then .returned .kOk
  else if err.isError then
    if err.code = 204 then
      if q.continuous then .sleeping else .returned .kOk
    else .returned err
  else .asking

namespace Query

/-- A step of the query: of its loop, or of a thread of the read that goes on. -/
inductive Step (q : Query) (answers : q.Answers) : QueryState → QueryState → Prop where
  | ask {round : Nat} {past : List Visit} {a : Answer q.type q.headOnly}
      (ha : answers round = some a) :
    Step q answers ⟨round, past, .asking⟩ ⟨round, past, .reading (.initial a.transfer)⟩
  | read {round : Nat} {past : List Visit} {r r' : ReadState}
      (h : ReadState.Step (q.readCall past) r r') :
    Step q answers ⟨round, past, .reading r⟩ ⟨round, past, .reading r'⟩
  | leave {round : Nat} {past : List Visit} {r : ReadState} {stopped : Bool} {err : Error}
      (h : r.caller = .returned stopped err) :
    Step q answers ⟨round, past, .reading r⟩
      ⟨round + 1, past ++ r.runner.visits, q.afterRead stopped err⟩
  | wake {round : Nat} {past : List Visit} :
    Step q answers ⟨round, past, .sleeping⟩ ⟨round, past, .asking⟩

/-- The states of a query in every interleaving. -/
abbrev Reachable (q : Query) (answers : q.Answers) (s : QueryState) : Prop :=
  Reaches (Step q answers) {} s

end Query

/-- The callback calls that have returned. -/
def QueryState.visits (s : QueryState) : List Visit :=
  match s.phase with
  | .reading r => s.past ++ r.runner.visits
  | _ => s.past

/-- The record the callback runs on. -/
def QueryState.record? (s : QueryState) : Option ReadableRecord :=
  match s.phase with
  | .reading r => r.runner.phase.record?
  | _ => none

/-- The records the callback has been called with. -/
def QueryState.invoked (s : QueryState) : List ReadableRecord :=
  s.visits.map Visit.record ++ s.record?.toList

/-- The records of the first `n` answers. -/
def Query.answered (q : Query) (answers : q.Answers) (n : Nat) : List ReadableRecord :=
  (List.range n).flatMap fun i => ((answers i).map Answer.records).getD []

/-! ## What a query does -/

/-- How a query that has returned came to its end: a call stopped it, or the
last answer was an error, and all records before were delivered. -/
def Query.Ended (q : Query) (answers : q.Answers) (s : QueryState) (err : Error) : Prop :=
  err = .kOk ∧ (∃ v ∈ s.visits, ¬ v.GoesOn) ∨
    (∀ v ∈ s.visits, v.GoesOn) ∧ s.invoked = q.answered answers s.round ∧
      ∃ e he, answers (s.round - 1) = some (.error e he) ∧
        if e.code = 204 then q.continuous = false ∧ err = .kOk else err = e

/-- The contract of a query in one of its states. -/
structure Query.Delivers (q : Query) (answers : q.Answers) (s : QueryState) : Prop where
  /-- The callback has been called with the records in order, each once. -/
  inOrder : s.invoked <+: q.answered answers (s.round + 1)
  /-- The loop goes past a response only when all its records are delivered. -/
  complete : (∀ err, s.phase ≠ .returned err) →
    (∀ v ∈ s.past, v.GoesOn) ∧ s.past.map Visit.record = q.answered answers s.round
  /-- A call that stops the query is the last one. -/
  stops : (∀ v ∈ s.visits.dropLast, v.GoesOn) ∧ (s.record? ≠ none → ∀ v ∈ s.visits, v.GoesOn)
  ended : ∀ err, s.phase = .returned err → q.Ended answers s err
  /-- A stopped query can return, with no error. -/
  returnsStopped : (∃ v ∈ s.visits, ¬ v.GoesOn) →
    ∃ t, Reaches (q.Step answers) s t ∧ t.phase = .returned .kOk ∧ t.visits = s.visits
  /-- So can a query that is answered with an error, except that a continuous
  one goes on after a 204, from where it was. -/
  returnsError : ∀ r e he, s.phase = .reading r → answers s.round = some (.error e he) →
    ∃ phase, Reaches (q.Step answers) s ⟨s.round + 1, s.past, phase⟩ ∧
      phase = if e.code = 204 then
        if q.continuous then .sleeping else .returned .kOk
      else .returned e

namespace Query

variable {q : Query} {answers : q.Answers}

theorem answered_succ {n : Nat} {a : Answer q.type q.headOnly} (ha : answers n = some a) :
    q.answered answers (n + 1) = q.answered answers n ++ a.records := by
  simp [answered, List.range_succ, ha]

theorem answered_mono (q : Query) (answers : q.Answers) (n : Nat) :
    q.answered answers n <+: q.answered answers (n + 1) := by
  simp [answered, List.range_succ]

/-- All records of the first `n` answers are delivered and the query goes on. -/
def Served (q : Query) (answers : q.Answers) (n : Nat) (past : List Visit) : Prop :=
  (∀ v ∈ past, v.GoesOn) ∧ past.map Visit.record = q.answered answers n

/-- The invariant of the loop. -/
def Inv (q : Query) (answers : q.Answers) (s : QueryState) : Prop :=
  match s.phase with
  | .asking | .sleeping => q.Served answers s.round s.past
  | .reading r => q.Served answers s.round s.past ∧ ∃ a, answers s.round = some a ∧
      ReadState.Reachable (q.readCall s.past) a.transfer r
  | .returned err => s.invoked <+: q.answered answers s.round ∧ q.Ended answers s err ∧
      ∀ v ∈ s.past.dropLast, v.GoesOn

omit [StdSort] in
theorem dropLast_goesOn {past visits : List Visit} (hpast : ∀ v ∈ past, v.GoesOn)
    (hvisits : ∀ v ∈ visits.dropLast, v.GoesOn) : ∀ v ∈ (past ++ visits).dropLast, v.GoesOn := by
  rcases List.eq_nil_or_concat visits with rfl | ⟨init, v, rfl⟩
  · simpa using fun v hv => hpast v (List.mem_of_mem_dropLast hv)
  · rw [List.concat_eq_append, List.dropLast_concat] at hvisits
    rw [List.concat_eq_append, ← List.append_assoc, List.dropLast_concat]
    exact fun v hv => (List.mem_append.1 hv).elim (hpast v) (hvisits v)

/-- The loop goes past the response of an error. -/
theorem inv_leave_error {round : Nat} {past : List Visit} {e : Error} {he : e.isError = true}
    (ha : answers round = some (.error e he)) (hserved : q.Served answers round past) :
    q.Inv answers ⟨round + 1, past, q.afterRead false e⟩ := by
  obtain ⟨hgoes, hrecords⟩ := hserved
  have hsame : q.answered answers (round + 1) = q.answered answers round := by
    simp [answered_succ ha, Answer.records]
  have hended : ∀ err, (if e.code = 204 then q.continuous = false ∧ err = .kOk else err = e) →
      q.Inv answers ⟨round + 1, past, .returned err⟩ := fun err herr =>
    ⟨by simp [QueryState.invoked, QueryState.visits, QueryState.record?, hrecords, hsame],
      .inr ⟨hgoes, by simp [QueryState.invoked, QueryState.visits, QueryState.record?, hrecords,
        hsame], e, he, ha, herr⟩, fun v hv => hgoes v (List.mem_of_mem_dropLast hv)⟩
  simp only [afterRead, Bool.false_eq_true, if_false, he, if_true]
  split
  · cases hcont : q.continuous with
    | true => exact ⟨hgoes, by rw [hsame]; exact hrecords⟩
    | false => exact hended _ (by simp [*])
  · exact hended _ (by simp [*])

/-- The loop goes past a response with records. -/
theorem inv_leave_batch {round : Nat} {past : List Visit} {headers : Headers} {chunks : List Bytes}
    {records : List ReadableRecord} {decodes : buildRecords q.type q.headOnly headers = .ok records}
    (ha : answers round = some (.batch headers chunks records decodes))
    (hserved : q.Served answers round past) {c : RunnerConfig} (horder : InOrder records c)
    (hend : AtEnd c) :
    q.Inv answers ⟨round + 1, past ++ c.state.visits, q.afterRead c.state.stopped .kOk⟩ := by
  obtain ⟨hgoes, hrecords⟩ := hserved
  have hanswered : q.answered answers (round + 1) = past.map Visit.record ++ records := by
    rw [answered_succ ha, hrecords]; rfl
  cases hstopped : c.state.stopped with
  | false =>
    obtain ⟨hall, hgoes'⟩ := horder.all_served hend hstopped
    refine ⟨fun v hv => (List.mem_append.1 hv).elim (hgoes v) (hgoes' v), ?_⟩
    simp [hanswered, hall]
  | true =>
    obtain ⟨v, hv, hstops⟩ := horder.stopped_iff.1 hstopped
    refine ⟨?_, .inl ⟨rfl, v, List.mem_append_right _ hv, hstops⟩, ?_⟩
    · simpa [QueryState.invoked, QueryState.visits, QueryState.record?, afterRead, hanswered] using
        horder.visits
    · exact dropLast_goesOn hgoes horder.stops.1

theorem inv_step (s t : QueryState) (h : q.Inv answers s) (hstep : q.Step answers s t) :
    q.Inv answers t := by
  cases hstep with
  | ask ha => exact ⟨h, _, ha, .refl⟩
  | read hr =>
    obtain ⟨hserved, a, ha, hreach⟩ := h
    exact ⟨hserved, a, ha, hreach.tail hr⟩
  | @leave round past r stopped err hret =>
    obtain ⟨hserved, a, ha, hreach⟩ := h
    cases a with
    | batch headers chunks records decodes =>
      obtain ⟨rfl, rfl, queues, hend, hrun⟩ := ReadState.returned_atEnd decodes hreach hret
      exact inv_leave_batch ha hserved ((ReadState.inOrder_soloStart ..).reaches hrun) hend
    | error e he =>
      obtain ⟨hrunner, hcaller⟩ := ReadState.reachable_refused hreach
      obtain ⟨rfl, rfl⟩ := hcaller _ _ hret
      simpa [hrunner] using inv_leave_error ha hserved
  | wake => exact h

theorem inv_reachable {s : QueryState} (h : q.Reachable answers s) : q.Inv answers s :=
  invariant (q.Inv answers) inv_step h ⟨by simp, by simp [answered]⟩

/-- The query can move while it reads. -/
theorem read_reaches {round : Nat} {past : List Visit} {r r' : ReadState}
    (h : Reaches (ReadState.Step (q.readCall past)) r r') :
    Reaches (q.Step answers) ⟨round, past, .reading r⟩ ⟨round, past, .reading r'⟩ := by
  induction h with
  | refl => exact .refl
  | tail _ hstep ih => exact ih.tail (.read hstep)

/-- The query can go past a response once the callback thread, given the
whole body, can come to its end. -/
theorem leaves_batch {round : Nat} {past : List Visit} {r : ReadState} {headers : Headers}
    {chunks : List Bytes} {records : List ReadableRecord} {d : RunnerConfig}
    (decodes : buildRecords q.type q.headOnly headers = .ok records)
    (hreach : ReadState.Reachable (q.readCall past) (.delivered headers chunks .kOk) r)
    (hd : Reaches (RunnerStep (q.readCall past).callback)
      (ReadState.soloStart (q.readCall past) records chunks) d) (hend : AtEnd d) :
    Reaches (q.Step answers) ⟨round, past, .reading r⟩
      ⟨round + 1, past ++ d.state.visits, q.afterRead d.state.stopped .kOk⟩ := by
  obtain ⟨t, hrun, hret, hrunner⟩ :=
    @ReadState.call_completes _ (q.readCall past) _ _ _ _ _ decodes hreach hd hend
  have hleave : q.Step answers ⟨round, past, .reading t⟩ _ := .leave hret
  rw [hrunner] at hleave
  exact (read_reaches hrun).tail hleave

/-- A query that is answered with an error goes past the response. -/
theorem leaves_error {round : Nat} {past : List Visit} {r : ReadState} {e : Error}
    {he : e.isError = true}
    (hreach : ReadState.Reachable (q.readCall past) (.refused e he) r) :
    Reaches (q.Step answers) ⟨round, past, .reading r⟩
      ⟨round + 1, past, q.afterRead false e⟩ := by
  obtain ⟨t, hrun, hret, hrunner⟩ := ReadState.refused_completes hreach
  have hleave : q.Step answers ⟨round, past, .reading t⟩ _ := .leave hret
  simp only [hrunner, List.append_nil] at hleave
  exact (read_reaches hrun).tail hleave

/-! ## The contract -/

/-- The calls of a query that is in the middle of a read. -/
theorem reading_inOrder {round : Nat} {past : List Visit} {r : ReadState}
    (h : q.Inv answers ⟨round, past, .reading r⟩) :
    ∃ records queues, InOrder records ⟨r.runner, queues⟩ ∧
      q.answered answers (round + 1) = q.answered answers round ++ records := by
  obtain ⟨-, a, ha, hreach⟩ := h
  cases a with
  | batch headers chunks records decodes =>
    obtain ⟨queues, horder⟩ := ReadState.exists_inOrder decodes hreach
    exact ⟨records, queues, horder, answered_succ ha⟩
  | error e he =>
    rw [(ReadState.reachable_refused hreach).1]
    exact ⟨[], _, inOrder_queuedStart [] [], answered_succ ha⟩

theorem inOrder_of_inv {s : QueryState} (h : q.Inv answers s) :
    s.invoked <+: q.answered answers (s.round + 1) := by
  obtain ⟨round, past, phase⟩ := s
  cases phase with
  | asking | sleeping =>
    simpa [QueryState.invoked, QueryState.visits, QueryState.record?, h.2] using answered_mono ..
  | reading r =>
    obtain ⟨records, queues, horder, hanswered⟩ := reading_inOrder h
    have hinvoked : QueryState.invoked ⟨round, past, .reading r⟩ =
        q.answered answers round ++ r.runner.invoked := by
      simp [QueryState.invoked, QueryState.visits, QueryState.record?, Runner.invoked, ← h.1.2]
    simp only [hinvoked, hanswered]
    exact (List.prefix_append_right_inj _).2 horder.invoked
  | returned err => exact h.1.trans (answered_mono ..)

theorem stops_of_inv {s : QueryState} (h : q.Inv answers s) :
    (∀ v ∈ s.visits.dropLast, v.GoesOn) ∧ (s.record? ≠ none → ∀ v ∈ s.visits, v.GoesOn) := by
  obtain ⟨round, past, phase⟩ := s
  cases phase with
  | asking | sleeping => exact ⟨fun v hv => h.1 v (List.mem_of_mem_dropLast hv), fun _ => h.1⟩
  | reading r =>
    obtain ⟨records, queues, horder, -⟩ := reading_inOrder h
    obtain ⟨hdrop, hactive⟩ := horder.stops
    exact ⟨dropLast_goesOn h.1.1 hdrop, fun hrecord v hv =>
      (List.mem_append.1 hv).elim (h.1.1 v) (hactive hrecord v)⟩
  | returned err => exact ⟨h.2.2, fun hrecord => absurd rfl hrecord⟩

/-- A query that a call has stopped can return. -/
theorem returns_of_stopped {s : QueryState} (h : q.Inv answers s)
    (hstops : ∃ v ∈ s.visits, ¬ v.GoesOn) :
    ∃ t, Reaches (q.Step answers) s t ∧ t.phase = .returned .kOk ∧ t.visits = s.visits := by
  obtain ⟨round, past, phase⟩ := s
  obtain ⟨v, hv, hstops⟩ := hstops
  cases phase with
  | asking | sleeping => exact absurd (h.1 v hv) hstops
  | reading r =>
    obtain ⟨⟨hgoes, -⟩, a, ha, hreach⟩ := h
    have hv : v ∈ r.runner.visits :=
      (List.mem_append.1 hv).resolve_left fun hpast => hstops (hgoes v hpast)
    cases a with
    | error e he => simp [(ReadState.reachable_refused hreach).1] at hv
    | batch headers chunks records decodes =>
      rcases ReadState.solo_run decodes hreach with hrunner | ⟨queues, hrun⟩
      · simp [hrunner] at hv
      · have horder := (ReadState.inOrder_soloStart ..).reaches hrun
        obtain ⟨d, hskip, hend, hstopped, hvisits⟩ :=
          horder.skips_rest (horder.stopped_iff.2 ⟨v, hv, hstops⟩)
        have hleave := @leaves_batch _ q answers round _ _ _ _ _ _ decodes hreach
          (hrun.trans hskip) hend
        exact ⟨_, hleave, by simp [afterRead, hstopped],
          by simp [QueryState.visits, afterRead, hstopped, hvisits]⟩
  | returned err =>
    obtain ⟨-, ⟨rfl, -⟩ | ⟨hgoes, -⟩, -⟩ := h
    · exact ⟨_, .refl, rfl, rfl⟩
    · exact absurd (hgoes v hv) hstops

/-- In every state of every run: the callback has been called with the records
of the responses in order, each exactly once, up to the first call that stops
the query; and the query ends as it should. -/
theorem delivers (q : Query) (answers : q.Answers) (s : QueryState) (h : q.Reachable answers s) :
    q.Delivers answers s := by
  have hinv := inv_reachable h
  refine ⟨inOrder_of_inv hinv, fun hnot => ?_, stops_of_inv hinv, fun err herr => ?_,
    returns_of_stopped hinv, fun r e he hr ha => ?_⟩
  · obtain ⟨round, past, phase⟩ := s
    cases phase with
    | asking | sleeping => exact hinv
    | reading r => exact hinv.1
    | returned err => exact absurd rfl (hnot err)
  · obtain ⟨round, past, phase⟩ := s
    cases herr
    exact hinv.2.1
  · obtain ⟨round, past, phase⟩ := s
    cases hr
    obtain ⟨-, a, ha', hreach⟩ := hinv
    cases ha.symm.trans ha'
    exact ⟨_, leaves_error hreach, by simp [afterRead, he]⟩

end Query

end Reduct
