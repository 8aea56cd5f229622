-- SUMMARY: How far a query gets: it delivers every record of every response and returns, exactly when no `Read` call of its callback hangs.
import ReductClient.Bucket.EndFlag
import ReductClient.Bucket.ReadTermination

open Cxx Transition

namespace Reduct

/-! ## `Read` calls that hang -/

/-- A callback is in a `Read` call that does not return: the call takes an empty part of
a chunk and puts the whole chunk back, for ever; or it has dereferenced the end marker; or
the transfer has `ended` and the queue is empty. -/
inductive Hangs (ended : Bool) : RunnerConfig → Prop where
  | empty {record chunks kind onChunk k total got origin visits stopped ready tasks data}
      {chunk : Bytes} (h : ReadKind.fetch total kind (some chunk) = .chunk (some []) [some chunk]) :
    Hangs ended
      ⟨⟨.active record chunks (.reading kind onChunk k total got) origin, visits, stopped, ready⟩,
        delivery tasks (some chunk :: data)⟩
  | crashed {visits stopped ready q} : Hangs ended ⟨⟨.crashed, visits, stopped, ready⟩, q⟩
  | starved {record chunks kind onChunk k total got origin visits stopped ready tasks}
      (hended : ended = true) :
    Hangs ended
      ⟨⟨.active record chunks (.reading kind onChunk k total got) origin, visits, stopped, ready⟩,
        delivery tasks []⟩

/-- The bytes and items of the data queue. -/
def dataWeight (data : List Item) : Nat := (data.map fun item => (item.getD []).length + 1).sum

@[simp] theorem dataWeight_cons (item : Item) (data : List Item) :
    dataWeight (item :: data) = (item.getD []).length + 1 + dataWeight data := by
  simp [dataWeight]

/-- What is left of a chunk weighs less. -/
theorem dataWeight_drop {chunk : Bytes} {taken : Nat} (hpos : 0 < taken)
    (hlt : taken < chunk.length) (data : List Item) :
    dataWeight (some (chunk.drop taken) :: data) < dataWeight (some chunk :: data) := by
  simp only [dataWeight_cons, Option.getD_some, List.length_drop]
  omega

theorem splitChunk_takes {size total : Nat} {chunk : Bytes} {piece : Item} {back : List Item}
    (h : splitChunk size total chunk = .chunk piece back) (data : List Item) :
    (piece = some [] ∧ back = [some chunk]) ∨
      dataWeight (back ++ data) < dataWeight (some chunk :: data) := by
  by_cases hsplit : wrapSub size total < chunk.length
  · rw [splitChunk, if_pos hsplit] at h
    obtain ⟨rfl, rfl⟩ := Fetched.chunk.inj h
    rcases Nat.eq_zero_or_pos (wrapSub size total) with hzero | hpos
    · rw [hzero]
      exact .inl ⟨rfl, rfl⟩
    · exact .inr (dataWeight_drop hpos hsplit data)
  · rw [splitChunk, if_neg hsplit] at h
    obtain ⟨rfl, rfl⟩ := Fetched.chunk.inj h
    exact .inr (by simp)

/-- An iteration of the `Read` loop takes something off the queue, unless it takes an
empty part of a chunk and puts the whole chunk back. -/
theorem fetch_takes {kind : ReadKind} {total : Nat} {item piece : Item} {back : List Item}
    (h : kind.fetch total item = .chunk piece back) (data : List Item) :
    (∃ chunk, item = some chunk ∧ piece = some [] ∧ back = [some chunk]) ∨
      dataWeight (back ++ data) < dataWeight (item :: data) := by
  have hsplit (size : Nat) (chunk : Bytes) (hitem : item = some chunk)
      (hfetch : splitChunk size total chunk = .chunk piece back) :
      (∃ chunk, item = some chunk ∧ piece = some [] ∧ back = [some chunk]) ∨
        dataWeight (back ++ data) < dataWeight (item :: data) := by
    subst hitem
    exact (splitChunk_takes hfetch data).imp_left fun htakes => ⟨chunk, rfl, htakes⟩
  cases kind with
  | single =>
    cases h
    exact .inr (by simp)
  | v1 size =>
    cases item with
    | none => cases h
    | some chunk => exact hsplit size chunk rfl h
  | v2 size =>
    cases item with
    | none =>
      cases h
      exact .inr (by simp)
    | some chunk => exact hsplit size chunk rfl h

section Thread

variable {callback : RecordCallback} {record : ReadableRecord} {origin : Origin}
  {visits : List Visit} {stopped : Bool} {ready : List Nat} {tasks : List Task}

/-- A `Read` call that is alone with its data returns or comes to hang. -/
theorem read_settles (kind : ReadKind) (onChunk : List Bytes → Bool) (k : List Bytes → CallbackProg)
    (chunks : List Bytes) (total : Nat) (got : List Bytes) (data : List Item) :
    ∃ d, Reaches (RunnerStep callback)
      ⟨⟨.active record chunks (.reading kind onChunk k total got) origin, visits, stopped, ready⟩,
        delivery tasks data⟩ d ∧
      (Hangs true d ∨ ∃ chunks' got' data',
        d = ⟨⟨.active record chunks' (.running (k got')) origin, visits, stopped, ready⟩,
          delivery tasks data'⟩) := by
  induction hn : dataWeight data using Nat.strongRecOn generalizing chunks total got data with
  | ind n ih =>
    cases data with
    | nil => exact ⟨_, .refl, .inl (.starved rfl)⟩
    | cons item data =>
      cases hfetch : kind.fetch total item with
      | fault => exact ⟨_, .single (Move.fault hfetch).step, .inl .crashed⟩
      | chunk piece back =>
        rcases fetch_takes hfetch data with ⟨chunk, rfl, rfl, rfl⟩ | hless
        · exact ⟨_, .refl, .inl (.empty hfetch)⟩
        · rw [hn] at hless
          cases piece with
          | none =>
            exact ⟨_, .single (Move.endOfData hfetch).step, .inr ⟨chunks, got, back ++ data, rfl⟩⟩
          | some piece =>
            by_cases hne : piece = []
            · subst hne
              obtain ⟨d, hd, hsettled⟩ := ih _ hless chunks total got (back ++ data) rfl
              exact ⟨d, .head (Move.pause hfetch).step hd, hsettled⟩
            · cases hend : !onChunk (got ++ [piece]) || kind.reached (total + piece.length) with
              | true => exact ⟨_, .single (Move.enough hfetch hne hend).step, .inr ⟨_, _, _, rfl⟩⟩
              | false =>
                obtain ⟨d, hd, hsettled⟩ := ih _ hless (chunks ++ [piece]) (total + piece.length)
                  (got ++ [piece]) (back ++ data) rfl
                exact ⟨d, .head (Move.more hfetch hne hend).step hd, hsettled⟩

/-- A callback that is alone with its data comes to its return or hangs in a `Read` call. -/
theorem callback_settles (prog : CallbackProg) (chunks : List Bytes) (data : List Item) :
    ∃ d, Reaches (RunnerStep callback)
      ⟨⟨.active record chunks (.running prog) origin, visits, stopped, ready⟩,
        delivery tasks data⟩ d ∧
      (Hangs true d ∨ ∃ chunks' more data',
        d = ⟨⟨.active record chunks' (.running (.ret more)) origin, visits, stopped, ready⟩,
          delivery tasks data'⟩) := by
  induction prog generalizing chunks data with
  | ret more => exact ⟨_, .refl, .inr ⟨chunks, more, data, rfl⟩⟩
  | read read onChunk k ih =>
    cases hhead : read.head with
    | true =>
      obtain ⟨d, hd, hsettled⟩ := ih [] chunks data
      exact ⟨d, .head (Move.readHead hhead).step hd, hsettled⟩
    | false =>
      obtain ⟨c, hc, hhangs | ⟨chunks', got', data', rfl⟩⟩ := @read_settles callback record origin
        visits stopped ready tasks read.kind onChunk k chunks 0 [] data
      · exact ⟨c, .head (Move.read hhead).step hc, .inl hhangs⟩
      · obtain ⟨d, hd, hsettled⟩ := ih got' chunks' data'
        exact ⟨d, .head (Move.read hhead).step (hc.trans hd), hsettled⟩

/-- The worker that is alone with its queues serves them or hangs. -/
theorem idle_settles (tasks : List Task) (visits : List Visit) (stopped : Bool) (ready : List Nat)
    (data : List Item) :
    ∃ d, Reaches (RunnerStep callback) ⟨⟨.idle, visits, stopped, ready⟩, delivery tasks data⟩ d ∧
      (AtEnd d ∨ Hangs true d) := by
  induction tasks generalizing visits stopped ready data with
  | nil => exact ⟨_, .refl, .inl (.inl ⟨rfl, rfl⟩)⟩
  | cons task tasks ih =>
    cases stopped with
    | true =>
      obtain ⟨d, hd, hsettled⟩ := ih visits true (ready ++ [task.id]) data
      exact ⟨d, .head Move.dequeue.step (.head Move.skip.step hd), hsettled⟩
    | false =>
      obtain ⟨c, hc, hhangs | ⟨chunks, more, data', rfl⟩⟩ := @callback_settles callback task.record
        (.task task.id) visits false ready tasks (callback visits task.record) [] data
      · exact ⟨c, .head Move.dequeue.step (.head Move.call.step hc), .inr hhangs⟩
      · obtain ⟨d, hd, hsettled⟩ := ih _ _ _ data'
        exact ⟨d, .head Move.dequeue.step (.head Move.call.step (hc.trans (.head Move.ret.step hd))),
          hsettled⟩

/-- So does `RunCallbacksInline`. -/
theorem loop_settles (rest : List ReadableRecord) (visits : List Visit) (stopped : Bool)
    (data : List Item) :
    ∃ d, Reaches (RunnerStep callback)
      ⟨⟨.loop rest, visits, stopped, ready⟩, delivery tasks data⟩ d ∧ (AtEnd d ∨ Hangs true d) := by
  induction rest generalizing visits stopped data with
  | nil => exact ⟨_, .single Move.loopEnd.step, .inl (.inr rfl)⟩
  | cons record rest ih =>
    cases stopped with
    | true => exact ⟨_, .single Move.loopStop.step, .inl (.inr rfl)⟩
    | false =>
      obtain ⟨c, hc, hhangs | ⟨chunks, more, data', rfl⟩⟩ := @callback_settles callback record
        (.inline rest) visits false ready tasks (callback visits record) [] data
      · exact ⟨c, .head Move.loopCall.step hc, .inr hhangs⟩
      · obtain ⟨d, hd, hsettled⟩ := ih _ _ data'
        exact ⟨d, .head Move.loopCall.step (hc.trans (.head Move.retInline.step hd)), hsettled⟩

/-- A callback that runs comes to its return, or hangs. -/
theorem active_settles (chunks : List Bytes) (activity : Activity) (data : List Item) :
    ∃ d, Reaches (RunnerStep callback)
      ⟨⟨.active record chunks activity origin, visits, stopped, ready⟩, delivery tasks data⟩ d ∧
      (Hangs true d ∨ ∃ chunks' more data',
        d = ⟨⟨.active record chunks' (.running (.ret more)) origin, visits, stopped, ready⟩,
          delivery tasks data'⟩) := by
  cases activity with
  | running prog => exact callback_settles prog chunks data
  | reading kind onChunk k total got =>
    obtain ⟨c, hc, hhangs | ⟨chunks', got', data', rfl⟩⟩ := @read_settles callback record origin
      visits stopped ready tasks kind onChunk k chunks total got data
    · exact ⟨c, hc, .inl hhangs⟩
    · obtain ⟨d, hd, hsettled⟩ := callback_settles (k got') chunks' data'
      exact ⟨d, hc.trans hd, hsettled⟩

end Thread

/-- A callback thread that is alone with its queues comes to its end or hangs. -/
theorem thread_settles (callback : RecordCallback) (c : RunnerConfig) :
    ∃ d, Reaches (RunnerStep callback) c d ∧ (AtEnd d ∨ Hangs true d) := by
  obtain ⟨⟨phase, visits, stopped, ready⟩, q⟩ := c
  rw [delivery_eta q]
  cases phase with
  | idle => exact idle_settles _ visits stopped ready _
  | starting task =>
    -- the task is as good as still queued, and its start is already made
    cases stopped with
    | true =>
      obtain ⟨d, hd, hsettled⟩ := idle_settles (q .tasks) visits true (ready ++ [task.id]) (q .data)
      exact ⟨d, .head Move.skip.step hd, hsettled⟩
    | false =>
      obtain ⟨e, he, hhangs | ⟨chunks, more, data', rfl⟩⟩ := @callback_settles callback task.record
        (.task task.id) visits false ready (q .tasks) (callback visits task.record) [] (q .data)
      · exact ⟨e, .head Move.call.step he, .inr hhangs⟩
      · obtain ⟨d, hd, hsettled⟩ := idle_settles (q .tasks) _ _ _ data'
        exact ⟨d, .head Move.call.step (he.trans (.head Move.ret.step hd)), hsettled⟩
  | active record chunks activity origin =>
    obtain ⟨e, he, hhangs | ⟨chunks', more, data', rfl⟩⟩ := @active_settles callback record origin
      visits stopped ready (q .tasks) chunks activity (q .data)
    · exact ⟨e, he, .inr hhangs⟩
    · cases origin with
      | task id =>
        obtain ⟨d, hd, hsettled⟩ := idle_settles (q .tasks) _ _ _ data'
        exact ⟨d, he.trans (.head Move.ret.step hd), hsettled⟩
      | inline rest =>
        obtain ⟨d, hd, hsettled⟩ := loop_settles rest _ _ data'
        exact ⟨d, he.trans (.head Move.retInline.step hd), hsettled⟩
  | loop rest => exact loop_settles rest visits stopped _
  | finished => exact ⟨_, .refl, .inl (.inr rfl)⟩
  | crashed => exact ⟨_, .refl, .inr .crashed⟩

/-- A thread that hangs stays where it is. -/
theorem Hangs.eq_of_step {callback : RecordCallback} {c d : RunnerConfig} (h : Hangs true c)
    (hstep : RunnerStep callback c d) : d = c := by
  cases h with
  | empty hfetch => exact Channel.step_deterministic _ hstep (Move.pause hfetch).step
  | crashed => cases hstep.move
  | starved => exact absurd hstep (Channel.stuck_of_empty (i := .data) rfl rfl _)

theorem Hangs.not_atEnd {ended : Bool} {c : RunnerConfig} (h : Hangs ended c) : ¬ AtEnd c := by
  intro hend
  cases h with
  | empty | starved => exact nomatch hend.phase.1
  | crashed => exact hend.phase.2 rfl

/-- A thread that hangs does so against the supply as well. -/
theorem Hangs.supply {ended : Bool} {r : Runner} {q : Channel.Queues Payload}
    {script : List (Sigma Payload)} (h : Hangs ended ⟨r, q⟩) (hended : ended = true → script = []) :
    Hangs true ⟨r, Channel.supply q script⟩ := by
  rw [delivery_eta (Channel.supply q script)]
  cases h with
  | empty hfetch => exact .empty hfetch
  | crashed => exact .crashed
  | starved htrue =>
    rw [hended htrue, Channel.supply_nil]
    exact .starved rfl

/-! ## A call that hangs -/

namespace ReadState

variable [StdSort] {call : ReadCall} {headers : Headers} {records : List ReadableRecord}
  {chunks : List Bytes} {s : ReadState}

/-- The client has returned, and the call waits for its callbacks or runs them. -/
def transferOver (s : ReadState) : Bool :=
  match s.caller with
  | .waiting | .inlining => true
  | _ => false

/-- The callback of the call hangs. -/
def Hangs (s : ReadState) : Prop := Reduct.Hangs s.transferOver ⟨s.runner, s.queues⟩

omit [StdSort] in
theorem not_hangs_of_idle (h : s.runner.phase = .idle) : ¬ s.Hangs := by
  obtain ⟨caller, responseHeaders, future, ⟨phase, visits, stopped, ready⟩, queues⟩ := s
  cases h
  exact nofun

/-- The `Read` call of the callback, up to the bytes it has handed over. -/
def reading? (s : ReadState) : Option (ReadKind × Nat) :=
  match s.runner.phase with
  | .active _ _ (.reading kind _ _ total _) _ => some (kind, total)
  | _ => none

omit [StdSort] in
theorem hangs_of_empty {s : ReadState} {kind : ReadKind} {total : Nat} {chunk : Bytes}
    (hreading : reading? s = some (kind, total)) (hdata : (s.queues .data).head? = some (some chunk))
    (hfetch : kind.fetch total (some chunk) = .chunk (some []) [some chunk]) : s.Hangs := by
  obtain ⟨caller, responseHeaders, future, ⟨phase, visits, stopped, ready⟩, q⟩ := s
  obtain ⟨data, hdata⟩ : ∃ data, q .data = some chunk :: data := List.head?_eq_some_iff.1 hdata
  unfold ReadState.Hangs
  rw [delivery_eta q, hdata]
  unfold reading? at hreading
  split at hreading
  · rename_i hphase
    cases hreading
    cases hphase
    exact .empty hfetch
  · cases hreading

/-- A call that hangs is at a point of its solo run that hangs. -/
theorem Hangs.solo (hrecords : buildRecords call.type call.head headers = .ok records)
    (hreach : Reachable call (.delivered headers chunks .kOk) s) (h : s.Hangs) :
    ∃ c, Reaches (RunnerStep call.callback) (soloStart call records chunks) c ∧
      Reduct.Hangs true c := by
  cases hworker : call.onWorker with
  | false =>
    rcases reachable_queued hworker (by simp) hreach with rfl | rfl | ⟨records', hrecords', hrun⟩
    · exact absurd h (not_hangs_of_idle rfl)
    · exact absurd h (not_hangs_of_idle rfl)
    · cases hrecords.symm.trans hrecords'
      have hover : s.transferOver = true → script call s = [] := by
        unfold transferOver script
        split <;> simp_all
      exact ⟨_, by simpa [soloStart, hworker] using (queued hworker hrun).run, h.supply hover⟩
  | true =>
    rcases reachable_inline hworker (by simp) hreach with rfl | hrun
    · exact absurd h (not_hangs_of_idle rfl)
    · have hinline := inline hworker hrun
      unfold Inline at hinline
      cases hs : s.caller with
      | body | finish =>
        simp only [hs] at hinline
        exact absurd h (not_hangs_of_idle (by rw [hinline.2.runner]))
      | inlining =>
        simp only [hs] at hinline
        obtain ⟨-, records', hrecords', hreaches⟩ := hinline
        cases hrecords.symm.trans hrecords'
        have hover : s.transferOver = true := by rw [transferOver, hs]
        rw [Hangs, hover] at h
        exact ⟨_, by simpa [soloStart, hworker] using hreaches, h⟩
      | returned =>
        simp only [hs, Error.kOk_isError, Bool.false_eq_true, if_false] at hinline
        exact absurd (.inr hinline.2.2.1) (Reduct.Hangs.not_atEnd h)
      | terminated =>
        simp only [hs] at hinline
        exact absurd h (not_hangs_of_idle hinline.2.1)
      | request | enqueue | waiting => simp only [hs] at hinline

/-- A call that hangs in one interleaving returns in none. -/
theorem Hangs.not_returned {t : ReadState} {stopped : Bool} {err : Error}
    (hrecords : buildRecords call.type call.head headers = .ok records)
    (hreach : Reachable call (.delivered headers chunks .kOk) s) (h : s.Hangs)
    (ht : Reachable call (.delivered headers chunks .kOk) t) :
    t.caller ≠ .returned stopped err := by
  intro hret
  obtain ⟨c, hc, hhangs⟩ := h.solo hrecords hreach
  obtain ⟨-, -, q, hend, hrun⟩ := returned_atEnd hrecords ht hret
  have hsame := eq_of_reaches_loop (fun _ => hhangs.eq_of_step)
    (reaches_stuck (Channel.step_deterministic _) hc hrun hend.stuck)
  exact hhangs.not_atEnd (hsame ▸ hend)

/-- The call has returned, or its transfer is over and its callback thread is at a point
of its solo run. -/
def Arrived (call : ReadCall) (records : List ReadableRecord) (chunks : List Bytes)
    (s : ReadState) : Prop :=
  (∃ stopped err, s.caller = .returned stopped err) ∨ s.transferOver = true ∧
    Reaches (RunnerStep call.callback) (soloStart call records chunks) ⟨s.runner, s.queues⟩

theorem queued_arrives (hworker : call.onWorker = false)
    (h : Reaches (Step call) (decoded records (bodyOf call chunks) .kOk) s) :
    ∃ t, Reaches (Step call) s t ∧ t.Arrived call records chunks := by
  rcases (queued hworker h).drains hworker with hret | ⟨t, ht, hwaiting⟩
  · exact ⟨s, .refl, .inl hret⟩
  · have hsolo := (queued hworker (h.trans ht)).run
    simp only [script, hwaiting, Channel.supply_nil] at hsolo
    refine ⟨t, ht, .inr ⟨by rw [transferOver, hwaiting], ?_⟩⟩
    simpa [soloStart, hworker] using hsolo

theorem inline_arrives (hworker : call.onWorker = true)
    (hrecords : buildRecords call.type call.head headers = .ok records)
    (h : Reaches (Step call) (transferring headers (bodyOf call chunks) .kOk) s) :
    ∃ t, Reaches (Step call) s t ∧ t.Arrived call records chunks := by
  rcases (inline hworker h).drains hworker hrecords with hret | ⟨t, ht, hinlining⟩
  · exact ⟨s, .refl, .inl hret⟩
  · have hsolo := inline hworker (h.trans ht)
    simp only [Inline, hinlining] at hsolo
    obtain ⟨-, records', hrecords', hreaches⟩ := hsolo
    cases hrecords.symm.trans hrecords'
    refine ⟨t, ht, .inr ⟨by rw [transferOver, hinlining], ?_⟩⟩
    simpa [soloStart, hworker] using hreaches

/-- A call can come to the end of its transfer. -/
theorem call_arrives (hrecords : buildRecords call.type call.head headers = .ok records)
    (h : Reachable call (.delivered headers chunks .kOk) s) :
    ∃ t, Reaches (Step call) s t ∧ t.Arrived call records chunks := by
  obtain ⟨u, hfirst, harrives⟩ : ∃ u,
      (initial (.delivered headers chunks .kOk)).callerStep call = some u ∧
        ∀ s, Reaches (Step call) u s →
          ∃ t, Reaches (Step call) s t ∧ t.Arrived call records chunks := by
    have hfirst := callerStep_delivered call headers chunks
      (show (call.head && Error.kOk.isError) = false by simp)
    cases hworker : call.onWorker with
    | false =>
      simp only [hworker, hrecords, Bool.false_eq_true, if_false] at hfirst
      exact ⟨_, hfirst, fun s hrun => queued_arrives hworker hrun⟩
    | true =>
      simp only [hworker, if_true] at hfirst
      exact ⟨_, hfirst, fun s hrun => inline_arrives hworker hrecords hrun⟩
  rcases (reachable_iff ..).1 h with rfl | ⟨t, hstep, hrun⟩
  · obtain ⟨t, ht, harrived⟩ := harrives u .refl
    exact ⟨t, .head (.caller hfirst) ht, harrived⟩
  · cases hfirst.symm.trans hstep
    exact harrives s hrun

/-- A call can return or come to hang. -/
theorem call_settles (hrecords : buildRecords call.type call.head headers = .ok records)
    (h : Reachable call (.delivered headers chunks .kOk) s) :
    ∃ t, Reaches (Step call) s t ∧ ((∃ stopped err, t.caller = .returned stopped err) ∨ t.Hangs) := by
  obtain ⟨t, ht, hret | ⟨hover, hsolo⟩⟩ := call_arrives hrecords h
  · exact ⟨t, ht, .inl hret⟩
  · obtain ⟨d, hd, hend | hhangs⟩ := thread_settles call.callback ⟨t.runner, t.queues⟩
    · obtain ⟨u, hu, hret, -⟩ := call_completes hrecords h (hsolo.trans hd) hend
      exact ⟨u, hu, .inl ⟨_, _, hret⟩⟩
    · refine ⟨_, ht.trans (runner_reaches hd), .inr ?_⟩
      have hsame : transferOver { t with runner := d.state, queues := d.queues } = true := hover
      rw [Hangs, hsame]
      exact hhangs

end ReadState

/-! ## A query -/

variable [StdSort]

/-- The callback of the query hangs. -/
def QueryState.Hangs (s : QueryState) : Prop := ∃ r, s.phase = .reading r ∧ r.Hangs

namespace Query

variable {q : Query} {answers : q.Answers}

/-- The query can go past all answers that the server gives it, if it does not return. -/
def Proceeds (q : Query) (answers : q.Answers) (s : QueryState) : Prop :=
  ∀ n, (∀ i, s.round ≤ i → i < n → answers i ≠ none) →
    ∃ t, Reaches (q.Step answers) s t ∧ (n ≤ t.round ∨ ∃ err, t.phase = .returned err)

/-- In every state of every run the query keeps its contract, and it can go on: to the end
of the answers, or to its return. -/
def DeliversAll (q : Query) (answers : q.Answers) : Prop :=
  ∀ s, q.Reachable answers s → q.Delivers answers s ∧ q.Proceeds answers s

/-- A read of the query can come to its end, or hangs. -/
theorem read_settles {round : Nat} {past : List Visit} {r : ReadState}
    (h : q.Reachable answers ⟨round, past, .reading r⟩) :
    ∃ t, Reaches (q.Step answers) ⟨round, past, .reading r⟩ t ∧ (t.round = round + 1 ∨ t.Hangs) := by
  obtain ⟨-, a, -, hreach⟩ := inv_reachable h
  cases a with
  | error e he => exact ⟨_, leaves_error hreach, .inl rfl⟩
  | batch headers chunks records decodes =>
    obtain ⟨r', hrun, ⟨stopped, err, hret⟩ | hhangs⟩ := ReadState.call_settles decodes hreach
    · exact ⟨_, (read_reaches hrun).tail (.leave hret), .inl rfl⟩
    · exact ⟨_, read_reaches hrun, .inr ⟨r', rfl, hhangs⟩⟩

/-- A query that has an answer can go past it, unless it has returned or comes to hang. -/
theorem answer_settles {s : QueryState} (h : q.Reachable answers s)
    (hnot : ∀ err, s.phase ≠ .returned err) (ha : answers s.round ≠ none) :
    ∃ t, Reaches (q.Step answers) s t ∧ (t.round = s.round + 1 ∨ t.Hangs) := by
  obtain ⟨a, ha⟩ := Option.ne_none_iff_exists'.1 ha
  obtain ⟨round, past, phase⟩ := s
  have hask : q.Step answers ⟨round, past, .asking⟩ _ := .ask ha
  cases phase with
  | asking =>
    obtain ⟨t, ht, hsettled⟩ := read_settles (h.tail hask)
    exact ⟨t, .head hask ht, hsettled⟩
  | sleeping =>
    obtain ⟨t, ht, hsettled⟩ := read_settles ((h.tail .wake).tail hask)
    exact ⟨t, .head .wake (.head hask ht), hsettled⟩
  | reading r => exact read_settles h
  | returned err => exact absurd rfl (hnot err)

theorem proceeds_of_not_hangs (hnone : ∀ s, q.Reachable answers s → ¬ s.Hangs) {s : QueryState}
    (hs : q.Reachable answers s) : q.Proceeds answers s := by
  intro n hanswers
  induction hn : n - s.round generalizing s with
  | zero => exact ⟨s, .refl, .inl (by omega)⟩
  | succ k ih =>
    by_cases hret : ∃ err, s.phase = .returned err
    · exact ⟨s, .refl, .inr hret⟩
    · have hanswer := hanswers s.round le_rfl (by omega)
      obtain ⟨t, ht, hround | hhangs⟩ := answer_settles hs (not_exists.1 hret) hanswer
      · obtain ⟨u, hu, hend⟩ := ih (hs.trans ht) (fun i hi => hanswers i (by omega)) (by omega)
        exact ⟨u, ht.trans hu, hend⟩
      · exact absurd hhangs (hnone t (hs.trans ht))

/-- A query whose callback hangs reads a response with records. -/
theorem batch_of_hangs {s : QueryState} (hs : q.Reachable answers s) (h : s.Hangs) :
    ∃ r headers chunks records,
      ∃ decodes : buildRecords q.type q.headOnly headers = .ok records,
        s.phase = .reading r ∧ r.Hangs ∧
        answers s.round = some (.batch headers chunks records decodes) ∧
        ReadState.Reachable (q.readCall s.past) (.delivered headers chunks .kOk) r := by
  obtain ⟨r, hr, hhangs⟩ := h
  obtain ⟨round, past, phase⟩ := s
  cases hr
  obtain ⟨-, a, ha, hreach⟩ := inv_reachable hs
  cases a with
  | error e he =>
    have hidle := ReadState.not_hangs_of_idle (by rw [(ReadState.reachable_refused hreach).1])
    exact absurd hhangs hidle
  | batch headers chunks records decodes =>
    exact ⟨r, headers, chunks, records, decodes, rfl, hhangs, ha, hreach⟩

/-- A query whose callback hangs stays with the response it reads. -/
theorem Proceeds.not_hangs {s : QueryState} (hs : q.Reachable answers s)
    (h : q.Proceeds answers s) : ¬ s.Hangs := by
  intro hstate
  obtain ⟨r, headers, chunks, records, decodes, hphase, hhangs, ha, hreach⟩ :=
    batch_of_hangs hs hstate
  obtain ⟨round, past, phase⟩ := s
  cases hphase
  have hanswers : ∀ i, round ≤ i → i < round + 1 → answers i ≠ none := by
    intro i hl hu
    obtain rfl : i = round := by omega
    exact Option.ne_none_iff_exists'.2 ⟨_, ha⟩
  obtain ⟨t, ht, hend⟩ := h (round + 1) hanswers
  have hstays := invariant (fun t => ∃ r', t = ⟨round, past, .reading r'⟩ ∧
    ReadState.Reachable (q.readCall past) (.delivered headers chunks .kOk) r') (by
      rintro _ t ⟨r', rfl, hr'⟩ hstep
      cases hstep with
      | read hread => exact ⟨_, rfl, hr'.tail hread⟩
      | leave hret => exact absurd hret (hhangs.not_returned decodes hreach hr')) ht
    ⟨r, rfl, hreach⟩
  obtain ⟨r', rfl, -⟩ := hstays
  rcases hend with hround | ⟨err, hret⟩
  · exact absurd hround (Nat.not_succ_le_self round)
  · cases hret

theorem deliversAll_of_not_hangs (h : ∀ s, q.Reachable answers s → ¬ s.Hangs) :
    q.DeliversAll answers :=
  fun s hs => ⟨delivers q answers s hs, proceeds_of_not_hangs h hs⟩

/-- A query delivers every record of every response and returns as it should, if and only
if no `Read` call of its callback hangs. -/
theorem deliversAll_iff (q : Query) (answers : q.Answers) :
    q.DeliversAll answers ↔ ∀ s, q.Reachable answers s → ¬ s.Hangs :=
  ⟨fun h s hs => (h s hs).2.not_hangs hs, deliversAll_of_not_hangs⟩

/-- The headers of a v2 response with an empty record and one of one byte. -/
def emptyFirstHeaders : Headers where
  toList := [(bytes "x-reduct-entries", bytes "a"), (bytes "x-reduct-start-ts", bytes "0"),
    (bytes "x-reduct-0-0", bytes "0,text"), (bytes "x-reduct-0-1", bytes "1,text"),
    (bytes "x-reduct-last", bytes "true")]
  nodup := by decide

omit [StdSort] in
/-- The first callback call does not come to its end, and the second record is not
delivered. -/
theorem deliversAll_broken : ∃ answers,
    ¬ @DeliversAll .insertion (queryV2 false false false readThrough) answers := by
  have hok : (@buildRecords .insertion .batchedV2 false emptyFirstHeaders).toBool = true := by
    decide +kernel
  cases hrecords : @buildRecords .insertion .batchedV2 false emptyFirstHeaders with
  | error fault =>
    rw [hrecords] at hok
    cases hok
  | ok records =>
    let q := queryV2 false false false readThrough
    let a := @Answer.batch .insertion .batchedV2 false emptyFirstHeaders [bytes "x"] records hrecords
    let r := @ReadState.run .insertion ⟨.batchedV2, false, false, readThrough⟩
      (.initial (.delivered emptyFirstHeaders [bytes "x"] .kOk))
      (List.replicate 7 .caller ++ List.replicate 3 .runner)
    refine ⟨fun _ => some a, fun h => ?_⟩
    have hreach : @Reachable .insertion q (fun _ => some a) ⟨0, [], .reading r⟩ :=
      .head (@Step.ask .insertion q _ _ _ a rfl)
        (@read_reaches .insertion q _ _ _ _ _ (@ReadState.reaches_run .insertion _ _ _))
    have hhangs : r.Hangs :=
      @ReadState.hangs_of_empty r (.v2 0) 0 (bytes "x") (by decide +kernel) (by decide +kernel) rfl
    exact (@Proceeds.not_hangs .insertion q _ _ hreach (h _ hreach).2) ⟨r, rfl, hhangs⟩

/-- A response that can be read through: its body is as long as its records need, and no
record is empty; the last one may be with v2. -/
def ReadableThrough (version : BatchVersion) (chunks : List Bytes)
    (records : List ReadableRecord) : Prop :=
  chunks.flatten.length = (records.map ReadableRecord.size).sum ∧
    match version with
    | .v1 => ∀ r ∈ records, 0 < r.size
    | .v2 => ∀ r ∈ records.dropLast, 0 < r.size

/-- The callback thread of such a response, left alone, comes to its end. -/
theorem ReadableThrough.ends {version : BatchVersion} {call : ReadCall} {headers : Headers}
    {chunks : List Bytes} {records : List ReadableRecord}
    (h : ReadableThrough version chunks records) (htype : call.type = version.type)
    (hhead : call.head = false) (hcallback : call.callback = readThrough)
    (decodes : buildRecords call.type call.head headers = .ok records) :
    ∃ d, Reaches (RunnerStep call.callback) (ReadState.soloStart call records chunks) d ∧
      AtEnd d := by
  rw [htype, hhead] at decodes
  obtain ⟨hlength, hfilled⟩ := h
  obtain ⟨b, rfl, rfl, rfl⟩ := exists_batchResponse decodes hlength
  have hreads : b.ReadsThrough := by
    refine b.readsThrough_iff.2 ?_
    unfold BatchResponse.filled
    cases hversion : b.version <;> simpa only [hversion] using hfilled
  have hstart : b.Start (ReadState.soloStart call b.records b.chunks) := by
    unfold ReadState.soloStart ReadState.queuedRun ReadState.bodyOf ReadState.arrived
    rw [hhead]
    split
    · exact .inr rfl
    · exact .inl rfl
  obtain ⟨d, hd, hend, -⟩ := hreads.returns _ hstart
  exact ⟨d, hcallback ▸ hd, hend⟩

/-- A query that reads each record through delivers every record and returns, where each
response can be read through. -/
theorem deliversAll_of_readableThrough {version : BatchVersion} {continuous onWorker : Bool}
    {answers : (batchQuery version false continuous onWorker readThrough).Answers}
    (hreadable : ∀ n headers chunks records decodes,
      answers n = some (.batch headers chunks records decodes) →
        ReadableThrough version chunks records) :
    (batchQuery version false continuous onWorker readThrough).DeliversAll answers := by
  refine deliversAll_of_not_hangs fun s hs hstate => ?_
  obtain ⟨r, headers, chunks, records, decodes, -, hhangs, ha, hreach⟩ := batch_of_hangs hs hstate
  let call := (batchQuery version false continuous onWorker readThrough).readCall s.past
  obtain ⟨d, hd, hend⟩ := @ReadableThrough.ends _ version call _ _ _
    (hreadable _ _ _ _ _ ha) rfl rfl rfl decodes
  obtain ⟨t, ht, hret, -⟩ := ReadState.call_completes decodes hreach hd hend
  exact hhangs.not_returned decodes hreach (hreach.trans ht) hret

end Query

end Reduct
