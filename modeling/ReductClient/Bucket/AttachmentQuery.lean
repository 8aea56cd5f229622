-- SUMMARY: `ReadAttachments` as a query with its threads: what it returns in every interleaving, and when that is the fold of the records.
import ReductClient.Bucket.AttachmentFold
import ReductClient.Bucket.DecodedResponse
import ReductClient.Bucket.Query

open Cxx Transition

namespace Reduct

/-! ## The callback and its thread -/

/-- Chunks put together. A string has no more characters than it can count. -/
def joined (chunks : List Bytes) : Blob :=
  ⟨chunks.flatten.take (2 ^ 64 - 1), by rw [List.length_take]; omega⟩

theorem joined_eq {chunks : List Bytes} {payload : Blob} (h : chunks.flatten = payload.bytes) :
    joined chunks = payload := by
  obtain ⟨bytes, hsize⟩ := payload
  simp only [joined, h, Blob.mk.injEq]
  exact List.take_of_length_le (by omega)

namespace ReadAttachments

variable [JsonReader]

/-- The callback of `ReadAttachments` for a record: one with a key is read through by
`ReadAll`. -/
def prog (st : ReadAttachments) (record : ReadableRecord) : CallbackProg :=
  let answer chunks := CallbackProg.ret (st.callback record.labels ⟨joined chunks, .kOk⟩).2
  if record.labels.contains labelKey then .read record.read (fun _ => true) answer else answer []

/-- The variables that the callback captures, after a call. -/
def visit (st : ReadAttachments) (v : Visit) : ReadAttachments :=
  (st.callback v.record.labels ⟨joined v.chunks, .kOk⟩).1

/-- These variables after the calls. -/
def after (visits : List Visit) : ReadAttachments := visits.foldl visit {}

/-- The callback as the query calls it. -/
def recordCallback : RecordCallback := fun visits record => (after visits).prog record

theorem after_concat (visits : List Visit) (v : Visit) :
    after (visits ++ [v]) = (after visits).visit v := by
  rw [after, List.foldl_append]
  rfl

end ReadAttachments

section Thread

variable [JsonReader] {version : BatchVersion} {past : List Visit} {record : ReadableRecord}
  {q : Int × MetaRecord} {c : RunnerConfig} {source : List Bytes} {tail : List Item}

/-- The callback of a call within the query, after the calls of the calls before. -/
def attachmentCallback (past : List Visit) : RecordCallback := fun visits =>
  ReadAttachments.recordCallback (past ++ visits)

/-- The chunks that a record is handed. -/
def handedChunks (source : List Bytes) (record : ReadableRecord) : List Bytes :=
  if record.labels.contains labelKey then (Chunks.read none record.size source).1 else []

/-- The chunks that are left after it. -/
def leftChunks (source : List Bytes) (record : ReadableRecord) : List Bytes :=
  if record.labels.contains labelKey then (Chunks.read none record.size source).2 else source

omit [JsonReader] in
theorem sum_le_leftChunks {more : Nat} (h : record.size + more ≤ source.flatten.length) :
    more ≤ (leftChunks source record).flatten.length := by
  rw [leftChunks]
  split
  · rw [(Chunks.read_none_flatten (show record.size ≤ source.flatten.length by omega)).2,
      List.length_drop]
    omega
  · omega

/-- The callback of a record of positive size comes to its answer. -/
theorem prog_runs {callback : RecordCallback} (st : ReadAttachments) {origin : Origin}
    {visits : List Visit} {ready : List Nat} {tasks : List Task}
    (hread : record.read = ⟨version.kind record.size, false⟩) (hsize : record.size < 2 ^ 64)
    (hpos : 0 < record.size) (havailable : record.size ≤ source.flatten.length) :
    Reaches (RunnerStep callback)
      ⟨⟨.active record [] (.running (st.prog record)) origin, visits, false, ready⟩,
        delivery tasks (source.map some ++ tail)⟩
      ⟨⟨.active record (handedChunks source record) (.running (.ret (st.callback record.labels
        ⟨joined (handedChunks source record), .kOk⟩).2)) origin, visits, false, ready⟩,
        delivery tasks ((leftChunks source record).map some ++ tail)⟩ := by
  rw [ReadAttachments.prog, handedChunks, leftChunks]
  cases record.labels.contains labelKey with
  | false => exact .refl
  | true =>
    have hhead : record.read.head = false := by rw [hread]
    have hkind : record.read.kind.size? = some record.size := by rw [hread, version.size?_kind]
    have hrefuses : Refuses (fun _ => true) none [] := fun _ => rfl
    exact .head (Move.read hhead).step
      (read_runs hkind hsize source (by omega) hpos havailable hrefuses)

/-- The thread serves the next record. -/
theorem AtHead.serves_attachment {rest : List ReadableRecord} (h : AtHead (record :: rest) c)
    (hgoes : c.state.stopped = false) (hdata : c.queues .data = source.map some ++ tail)
    (hread : record.read = ⟨version.kind record.size, false⟩) (hsize : record.size < 2 ^ 64)
    (hpos : 0 < record.size) (havailable : record.size ≤ source.flatten.length) :
    ∃ d more, Reaches (RunnerStep (attachmentCallback past)) c d ∧ AtHead rest d ∧
      more = ((ReadAttachments.after (past ++ c.state.visits)).callback record.labels
        ⟨joined (handedChunks source record), .kOk⟩).2 ∧
      d.state.visits = c.state.visits ++ [⟨record, handedChunks source record, more⟩] ∧
      d.state.stopped = (!more || record.last) ∧
      d.queues .data = (leftChunks source record).map some ++ tail := by
  obtain ⟨origin, tasks, ready, rfl, hcall⟩ := h.call (attachmentCallback past) hgoes
  rw [hdata] at hcall
  let st := ReadAttachments.after (past ++ c.state.visits)
  let more := (st.callback record.labels ⟨joined (handedChunks source record), .kOk⟩).2
  obtain ⟨d, hret, hhead, hvisits, hstopped, hleft⟩ := returns_atHead (attachmentCallback past)
    record (handedChunks source record) more origin c.state.visits ready tasks
    ((leftChunks source record).map some ++ tail)
  exact ⟨d, more, (hcall.trans (prog_runs st hread hsize hpos havailable)).tail hret, hhead, rfl,
    hvisits, hstopped, hleft⟩

/-- What the thread does with a record is what reading it off the chunks means. -/
theorem readRecords_handed (st : ReadAttachments) (h : Describes record q)
    (records : List (Int × MetaRecord)) :
    st.readRecords source (q :: records) =
      let out := st.callback record.labels ⟨joined (handedChunks source record), .kOk⟩
      if out.2 then out.1.readRecords (leftChunks source record) records else (out.1, false) := by
  obtain ⟨-, hlabels, hsize⟩ := h
  obtain ⟨payload, hread, -⟩ := exists_readAll source q.2.payload.size q.2.payload.size_lt
  have hleft : leftChunks source record = ReadAttachments.leftAfter source q.2 := by
    rw [leftChunks, ReadAttachments.leftAfter, hlabels, hsize]
    rfl
  have hcallback : st.callback record.labels ⟨joined (handedChunks source record), .kOk⟩ =
      st.callback q.2.labels ⟨payload, .kOk⟩ := by
    rw [hlabels]
    by_cases hkey : labelKey ∈ q.2.labels
    · have hjoined : joined (handedChunks source record) = payload := by
        refine joined_eq ?_
        rw [handedChunks, hlabels, ReadAttachments.contains_labelKey hkey, if_pos rfl, hsize]
        exact congrArg (fun r : Result Blob => r.result.bytes) hread
      rw [hjoined]
    · rw [st.callback_apply q.2 fun hbinds => absurd hbinds.1 hkey,
        st.callback_apply q.2 fun hbinds => absurd hbinds.1 hkey]
  rw [st.readRecords_cons hread, hcallback, hleft]

/-- The last record carries the flag. -/
def endsQuery (records : List ReadableRecord) : Bool := records.getLast?.any ReadableRecord.last

/-- The thread serves the records of a response, up to one that stops the query. -/
theorem AtHead.serves_attachments {all records : List ReadableRecord}
    {metas : List (Int × MetaRecord)} (h : AtHead records c) (hin : InOrder all c)
    (hgoes : c.state.stopped = false) (hdata : c.queues .data = source.map some ++ tail)
    (hmatch : List.Forall₂ Describes records metas)
    (hread : ∀ r ∈ records, r.read = ⟨version.kind r.size, false⟩)
    (hpos : ∀ r ∈ records, 0 < r.size) (hlast : ∀ r ∈ records.dropLast, r.last = false)
    (havailable : (records.map ReadableRecord.size).sum ≤ source.flatten.length)
    {out : ReadAttachments × Bool}
    (hout : (ReadAttachments.after (past ++ c.state.visits)).readRecords source metas = out) :
    ∃ d, Reaches (RunnerStep (attachmentCallback past)) c d ∧ AtEnd d ∧
      ReadAttachments.after (past ++ d.state.visits) = out.1 ∧
      d.state.stopped = (!out.2 || endsQuery records) := by
  induction hmatch generalizing c source with
  | nil =>
    obtain ⟨d, hrun, hend, hvisits, hstopped, -⟩ := h.ends (attachmentCallback past)
    subst hout
    exact ⟨d, hrun, hend, by rw [hvisits]; rfl, hstopped.trans hgoes⟩
  | @cons record q records metas hdesc hmatch ih =>
    obtain ⟨hreadRecord, hreadRest⟩ := List.forall_mem_cons.1 hread
    obtain ⟨hposRecord, hposRest⟩ := List.forall_mem_cons.1 hpos
    have hsize : record.size < 2 ^ 64 := hdesc.2.2 ▸ q.2.payload.size_lt
    rw [List.map_cons, List.sum_cons] at havailable
    obtain ⟨d, more, hrun, hhead, hmore, hvisits, hstopped, hleft⟩ := @AtHead.serves_attachment
      _ version past record c source tail records h hgoes hdata hreadRecord hsize hposRecord
      (by omega)
    have hafter : ReadAttachments.after (past ++ d.state.visits) =
        ((ReadAttachments.after (past ++ c.state.visits)).callback record.labels
          ⟨joined (handedChunks source record), .kOk⟩).1 := by
      rw [hvisits, ← List.append_assoc, ReadAttachments.after_concat]
      rfl
    rw [readRecords_handed _ hdesc] at hout
    dsimp only at hout
    rw [← hmore, ← hafter] at hout
    cases more with
    | false =>
      -- the callback has stopped the query
      subst hout
      rw [Bool.not_false, Bool.true_or] at hstopped
      obtain ⟨e, hskip, hend, hstopped', hvisits'⟩ := (hin.reaches hrun).skips_rest hstopped
      exact ⟨e, hrun.trans hskip, hend, by rw [hvisits']; rfl, hstopped'⟩
    | true =>
      rw [if_pos rfl] at hout
      rw [Bool.not_true, Bool.false_or] at hstopped
      cases hmatch with
      | nil =>
        subst hout
        obtain ⟨e, hend, hatEnd, hvisits', hstopped', -⟩ := hhead.ends (attachmentCallback past)
        exact ⟨e, hrun.trans hend, hatEnd, by rw [hvisits']; rfl, hstopped'.trans hstopped⟩
      | @cons next q' records metas hdesc' hmatch =>
        rw [List.dropLast_cons_of_ne_nil (List.cons_ne_nil _ _)] at hlast
        obtain ⟨hlastRecord, hlastRest⟩ := List.forall_mem_cons.1 hlast
        obtain ⟨e, hrest, hatEnd, hafter', hstopped'⟩ := ih hhead (hin.reaches hrun)
          (hstopped.trans hlastRecord) hleft hreadRest hposRest hlastRest
          (sum_le_leftChunks havailable) hout
        exact ⟨e, hrun.trans hrest, hatEnd, hafter', hstopped'⟩

end Thread

/-! ## The responses -/

variable [StdSort]

/-- A response with records of the meta entry: the headers, what they decode to, and
the records of the server, whose payloads are the body. -/
structure MetaResponse where
  headers : Headers
  records : List ReadableRecord
  decodes : buildRecords .batchedV2 false headers = .ok records
  page : Page
  describes : List.Forall₂ Describes records page.records
  /-- No payload is empty. -/
  size_pos : ∀ r ∈ records, 0 < r.size

/-- The responses that the server has for the query on the meta entry. -/
structure MetaQuery where
  responses : List MetaResponse
  /-- Only the last response can announce the end. -/
  last_eq : ∀ response ∈ responses.dropLast, announcesEnd response.headers = false
  /-- The text of the error when there are no more records. -/
  noContent : Bytes

namespace MetaResponse

variable (response : MetaResponse)

theorem length_eq : response.page.chunks.flatten.length =
    (response.records.map ReadableRecord.size).sum := by
  have hsizes : ∀ {records metas}, List.Forall₂ Describes records metas →
      (metas.map fun q => q.2.payload.bytes).flatten.length =
        (records.map ReadableRecord.size).sum := by
    intro records metas h
    induction h with
    | nil => rfl
    | cons hdesc _ ih =>
      rw [List.map_cons, List.flatten_cons, List.length_append, ih, List.map_cons, List.sum_cons,
        hdesc.2.2]
      rfl
  rw [response.page.body_eq, hsizes response.describes]

theorem labels_eq : response.page.labels = response.records.map ReadableRecord.labels := by
  refine (List.forall₂_eq_eq_eq ▸ ?_ : _ = _).symm
  rw [List.forall₂_map_left_iff, Page.labels, List.forall₂_map_right_iff]
  exact response.describes.imp fun _ _ h => h.2.1

/-- A response that does not announce the end lets the query go on. -/
theorem endsQuery_eq (h : announcesEnd response.headers = false) :
    endsQuery response.records = false := by
  obtain ⟨decoded, hrecords, hdecoded, -⟩ := @buildRecords_ok _ .v2 _ _ _ response.decodes
  rw [h, flagLast, if_neg Bool.false_ne_true] at hrecords
  rw [endsQuery, hrecords]
  cases hlast : decoded.getLast? with
  | none => rfl
  | some r => exact (hdecoded r (List.mem_of_getLast? hlast)).last

end MetaResponse

/-- The query of `ReadAttachments`. -/
def attachmentQuery [JsonReader] (onWorker : Bool) : Query :=
  queryV2 false false onWorker ReadAttachments.recordCallback

/-! ## A response to the query -/

section Response

variable [JsonReader] (response : MetaResponse) (onWorker : Bool) (past : List Visit)

omit [StdSort] in
/-- The callback thread, left alone with the response. -/
theorem soloStart_atHead (records : List ReadableRecord) (chunks : List Bytes) :
    let c := ReadState.soloStart ((attachmentQuery onWorker).readCall past) records chunks
    AtHead records c ∧ c.state.stopped = false ∧ c.state.visits = [] ∧
      c.queues .data = chunks.map some ++ [none] := by
  cases onWorker with
  | true => exact ⟨atHead_inlineStart .., rfl, rfl, rfl⟩
  | false => exact ⟨atHead_queuedStart .., rfl, rfl, rfl⟩

/-- It comes to its end and has read the records off the body. -/
theorem MetaResponse.served : ∃ d,
    Reaches (RunnerStep (attachmentCallback past)) (ReadState.soloStart
      ((attachmentQuery onWorker).readCall past) response.records response.page.chunks) d ∧
    AtEnd d ∧
    ReadAttachments.after (past ++ d.state.visits) = ((ReadAttachments.after past).readRecords
      response.page.chunks response.page.records).1 ∧
    d.state.stopped = (!((ReadAttachments.after past).readRecords response.page.chunks
      response.page.records).2 || endsQuery response.records) := by
  obtain ⟨b, hversion, hrecords, -⟩ := @exists_batchResponse _ .v2 _ _ response.decodes _
    response.length_eq
  obtain ⟨hhead, hgoes, hvisits, hdata⟩ := soloStart_atHead onWorker past response.records
    response.page.chunks
  have hread : ∀ r ∈ response.records, r.read = ⟨BatchVersion.v2.kind r.size, false⟩ :=
    hversion ▸ hrecords ▸ b.read_eq
  exact hhead.serves_attachments (ReadState.inOrder_soloStart ..) hgoes hdata response.describes
    hread response.size_pos (hrecords ▸ b.last_eq) response.length_eq.ge
    (by rw [hvisits, List.append_nil])

end Response

/-! ## The query -/

namespace MetaQuery

variable (query : MetaQuery)

/-- The responses with records. -/
def pages : List Page := query.responses.map MetaResponse.page

/-- The answers of the server. -/
def answers [JsonReader] (onWorker : Bool) : (attachmentQuery onWorker).Answers := fun i =>
  match query.responses[i]? with
  | some response =>
    some (.batch response.headers response.page.chunks response.records response.decodes)
  | none => some (.error ⟨204, query.noContent⟩ rfl)

/-- A state of `QueryV2` in some interleaving. -/
abbrev Reachable [JsonReader] (onWorker : Bool) (s : QueryState) : Prop :=
  (attachmentQuery onWorker).Reachable (query.answers onWorker) s

/-- In every interleaving `ReadAttachments` can return, and when it does it has made
the fold of the records. -/
structure ReadsFold [JsonReader] (onWorker : Bool) : Prop where
  returns : ∀ s, query.Reachable onWorker s → ∃ t err,
    Reaches ((attachmentQuery onWorker).Step (query.answers onWorker)) s t ∧ t.phase = .returned err
  result : ∀ s err, query.Reachable onWorker s → s.phase = .returned err →
    IsFold (metaRecords query.pages) ((ReadAttachments.after s.visits).finish err)

variable [JsonReader] {query} {onWorker : Bool}

/-- What is left to read, in each state of the loop. -/
def Reading (query : MetaQuery) (s : QueryState) : Prop :=
  match s.phase with
  | .sleeping => False
  | .returned err => err = .kOk ∧
      ReadAttachments.after s.past = ReadAttachments.readPages {} query.pages
  | _ => s.round ≤ query.responses.length ∧
      (ReadAttachments.after s.past).readPages (query.pages.drop s.round) =
        ReadAttachments.readPages {} query.pages

omit [JsonReader] in
theorem drop_pages {round : Nat} {response : MetaResponse}
    (h : query.responses[round]? = some response) :
    query.pages.drop round = response.page :: query.pages.drop (round + 1) := by
  obtain ⟨hround, rfl⟩ := List.getElem?_eq_some_iff.1 h
  rw [pages, ← List.map_drop, List.drop_eq_getElem_cons hround, List.map_cons, List.map_drop]

omit [JsonReader] in
/-- A response that ends the query is the last one. -/
theorem drop_pages_eq_nil {round : Nat} {response : MetaResponse}
    (h : query.responses[round]? = some response) (hends : endsQuery response.records = true) :
    query.pages.drop (round + 1) = [] := by
  obtain ⟨hround, rfl⟩ := List.getElem?_eq_some_iff.1 h
  rw [pages, List.drop_eq_nil_iff, List.length_map]
  by_contra hlt
  have hmem : query.responses[round] ∈ query.responses.dropLast := by
    refine List.mem_iff_getElem?.2 ⟨round, ?_⟩
    rw [List.dropLast_eq_take, List.getElem?_take_of_lt (by omega), h]
  rw [(query.responses[round]).endsQuery_eq (query.last_eq _ hmem)] at hends
  cases hends

/-- The loop goes past a response with records. -/
theorem reading_batch {round : Nat} {past visits : List Visit} {stopped : Bool}
    {response : MetaResponse} (hresponse : query.responses[round]? = some response)
    (h : (ReadAttachments.after past).readPages (query.pages.drop round) =
      ReadAttachments.readPages {} query.pages)
    (hafter : ReadAttachments.after (past ++ visits) = ((ReadAttachments.after past).readRecords
      response.page.chunks response.page.records).1)
    (hstopped : stopped = (!((ReadAttachments.after past).readRecords response.page.chunks
      response.page.records).2 || endsQuery response.records)) :
    query.Reading ⟨round + 1, past ++ visits,
      (attachmentQuery onWorker).afterRead stopped .kOk⟩ := by
  rw [drop_pages hresponse, ReadAttachments.readPages] at h
  dsimp only at h
  rw [← hafter] at h
  cases hmore : ((ReadAttachments.after past).readRecords response.page.chunks
      response.page.records).2 with
  | false =>
    rw [hmore] at h hstopped
    subst hstopped
    exact ⟨rfl, h⟩
  | true =>
    rw [hmore, if_pos rfl] at h
    rw [hmore, Bool.not_true, Bool.false_or] at hstopped
    subst hstopped
    cases hends : endsQuery response.records with
    | true =>
      rw [drop_pages_eq_nil hresponse hends] at h
      exact ⟨rfl, h⟩
    | false =>
      obtain ⟨hround, -⟩ := List.getElem?_eq_some_iff.1 hresponse
      exact ⟨hround, h⟩

/-- It ends when there are no more records. -/
theorem reading_noContent {round : Nat} {past : List Visit}
    (hresponse : query.responses[round]? = none)
    (h : (ReadAttachments.after past).readPages (query.pages.drop round) =
      ReadAttachments.readPages {} query.pages) {err : Error} (herr : err.code = 204) :
    query.Reading ⟨round + 1, past, (attachmentQuery onWorker).afterRead false err⟩ := by
  have hdrop : query.pages.drop round = [] := by
    rw [pages, List.drop_eq_nil_iff, List.length_map]
    exact List.getElem?_eq_none_iff.1 hresponse
  have hisError : err.isError = true := by rw [Error.isError, herr]; rfl
  have hphase : (attachmentQuery onWorker).afterRead false err = .returned .kOk := by
    rw [Query.afterRead, if_neg Bool.false_ne_true, if_pos hisError, if_pos herr]
    rfl
  rw [hdrop] at h
  rw [hphase]
  exact ⟨rfl, h⟩

/-- The answer to the next request, with what the loop makes of it. -/
theorem answer_cases (query : MetaQuery) (onWorker : Bool) (round : Nat) :
    (∃ response, query.responses[round]? = some response ∧ query.answers onWorker round =
      some (.batch response.headers response.page.chunks response.records response.decodes)) ∨
    (query.responses[round]? = none ∧
      query.answers onWorker round = some (.error ⟨204, query.noContent⟩ rfl)) := by
  cases hresponse : query.responses[round]? with
  | some response => exact .inl ⟨response, rfl, by rw [answers, hresponse]⟩
  | none => exact .inr ⟨rfl, by rw [answers, hresponse]⟩

theorem exists_answer (query : MetaQuery) (onWorker : Bool) (round : Nat) :
    ∃ a, query.answers onWorker round = some a := by
  rcases query.answer_cases onWorker round with ⟨response, -, ha⟩ | ⟨-, ha⟩
  · exact ⟨_, ha⟩
  · exact ⟨_, ha⟩

theorem reading_step (s t : QueryState) (hs : query.Reachable onWorker s ∧ query.Reading s)
    (hstep : (attachmentQuery onWorker).Step (query.answers onWorker) s t) :
    query.Reachable onWorker t ∧ query.Reading t := by
  obtain ⟨hreach, h⟩ := hs
  refine ⟨hreach.tail hstep, ?_⟩
  cases hstep with
  | ask ha => exact h
  | read hr => exact h
  | wake => exact h.elim
  | @leave round past r stopped err hret =>
    obtain ⟨-, h⟩ := h
    obtain ⟨-, a, ha, hr⟩ := Query.inv_reachable hreach
    rcases query.answer_cases onWorker round with ⟨response, hresponse, ha'⟩ | ⟨hresponse, ha'⟩
    · cases ha.symm.trans ha'
      obtain ⟨rfl, rfl, queues, hend, hrun⟩ := ReadState.returned_atEnd response.decodes hr hret
      obtain ⟨d, hd, hatEnd, hafter, hstopped⟩ := response.served onWorker past
      have hsame : (⟨r.runner, queues⟩ : RunnerConfig) = d :=
        stuck_unique (Channel.step_deterministic _) hrun hend.stuck hd hatEnd.stuck
      subst hsame
      exact reading_batch hresponse h hafter hstopped
    · cases ha.symm.trans ha'
      obtain ⟨hrunner, hcaller⟩ := ReadState.reachable_refused hr
      obtain ⟨rfl, rfl⟩ := hcaller _ _ hret
      rw [hrunner, List.append_nil]
      exact reading_noContent hresponse h rfl

theorem reading_reachable {s : QueryState} (h : query.Reachable onWorker s) : query.Reading s :=
  (invariant (fun s => query.Reachable onWorker s ∧ query.Reading s) reading_step h
    ⟨.refl, Nat.zero_le _, rfl⟩).2

/-- A query that reads a response can return or ask for the next one. -/
theorem leaves {round : Nat} {past : List Visit} {r : ReadState}
    (h : query.Reachable onWorker ⟨round, past, .reading r⟩) :
    (∃ t err, Reaches ((attachmentQuery onWorker).Step (query.answers onWorker))
      ⟨round, past, .reading r⟩ t ∧ t.phase = .returned err) ∨
    ∃ past', Reaches ((attachmentQuery onWorker).Step (query.answers onWorker))
      ⟨round, past, .reading r⟩ ⟨round + 1, past', .asking⟩ ∧
        round < query.responses.length := by
  obtain ⟨-, a, ha, hr⟩ := Query.inv_reachable h
  have hleave : ∃ past' stopped err,
      Reaches ((attachmentQuery onWorker).Step (query.answers onWorker)) ⟨round, past, .reading r⟩
        ⟨round + 1, past', (attachmentQuery onWorker).afterRead stopped err⟩ := by
    rcases query.answer_cases onWorker round with ⟨response, hresponse, ha'⟩ | ⟨hresponse, ha'⟩
    · cases ha.symm.trans ha'
      obtain ⟨d, hd, hatEnd, -⟩ := response.served onWorker past
      exact ⟨_, _, _, Query.leaves_batch response.decodes hr hd hatEnd⟩
    · cases ha.symm.trans ha'
      exact ⟨_, _, _, Query.leaves_error hr⟩
  obtain ⟨past', stopped, err, hrun⟩ := hleave
  have hreading := reading_reachable (h.trans hrun)
  cases hphase : (attachmentQuery onWorker).afterRead stopped err with
  | reading r => unfold Query.afterRead at hphase; grind
  | sleeping => rw [hphase] at hreading; exact hreading.elim
  | returned err => exact .inl ⟨_, err, hrun, hphase⟩
  | asking =>
    rw [hphase] at hrun hreading
    exact .inr ⟨past', hrun, hreading.1⟩

/-- It comes to its end, however many responses are left. -/
theorem returns_of_reading {more round : Nat} {past : List Visit} {r : ReadState}
    (hmore : query.responses.length = round + more)
    (h : query.Reachable onWorker ⟨round, past, .reading r⟩) : ∃ t err,
    Reaches ((attachmentQuery onWorker).Step (query.answers onWorker)) ⟨round, past, .reading r⟩ t ∧
      t.phase = .returned err := by
  induction more generalizing round past r with
  | zero => exact (leaves h).resolve_right fun ⟨_, _, hround⟩ => by omega
  | succ more ih =>
    rcases leaves h with hreturned | ⟨past', hrun, -⟩
    · exact hreturned
    · obtain ⟨a, ha⟩ := query.exists_answer onWorker (round + 1)
      have hask := hrun.tail (Query.Step.ask ha)
      obtain ⟨t, err, hrest, hreturned⟩ := ih (by omega) (h.trans hask)
      exact ⟨t, err, hask.trans hrest, hreturned⟩

theorem returns {s : QueryState} (h : query.Reachable onWorker s) : ∃ t err,
    Reaches ((attachmentQuery onWorker).Step (query.answers onWorker)) s t ∧
      t.phase = .returned err := by
  have hreading := reading_reachable h
  obtain ⟨round, past, phase⟩ := s
  cases phase with
  | sleeping => exact hreading.elim
  | returned err => exact ⟨_, err, .refl, rfl⟩
  | reading r => exact returns_of_reading (Nat.add_sub_of_le hreading.1).symm h
  | asking =>
    obtain ⟨a, ha⟩ := query.exists_answer onWorker round
    obtain ⟨t, err, hrun, hreturned⟩ := returns_of_reading (Nat.add_sub_of_le hreading.1).symm
      (h.tail (Query.Step.ask ha))
    exact ⟨t, err, .head (.ask ha) hrun, hreturned⟩

/-- The threads return what reading the pages one after the other gives. -/
theorem result_eq {s : QueryState} {err : Error} (h : query.Reachable onWorker s)
    (hreturned : s.phase = .returned err) : (ReadAttachments.after s.visits).finish err =
      (ReadAttachments.readPages {} query.pages).finish .kOk := by
  have hreading := reading_reachable h
  obtain ⟨round, past, phase⟩ := s
  cases hreturned
  obtain ⟨rfl, hafter⟩ := hreading
  rw [← hafter]
  rfl

theorem readsFold_iff_isFold : query.ReadsFold onWorker ↔
    IsFold (metaRecords query.pages) ((ReadAttachments.readPages {} query.pages).finish .kOk) := by
  constructor
  · intro h
    obtain ⟨t, err, hrun, hreturned⟩ := h.returns _ .refl
    rw [← result_eq hrun hreturned]
    exact h.result t err hrun hreturned
  · intro h
    refine ⟨fun s hs => returns hs, fun s err hs hreturned => ?_⟩
    rw [result_eq hs hreturned]
    exact h

theorem readsFold_of_inPlace (h : ∀ page ∈ query.pages, InPlace page.labels) :
    query.ReadsFold onWorker := by
  rw [readsFold_iff_isFold, ReadAttachments.readPages_inPlace {} h]
  exact ReadAttachments.isFold_readOwn _

end MetaQuery

/-! ## Other payloads of the same sizes -/

/-- The response with a body of probes. -/
def MetaResponse.probe (response : MetaResponse) : MetaResponse where
  headers := response.headers
  records := response.records
  decodes := response.decodes
  page := .single (response.page.records.map fun q => (q.1, q.2.probe))
  describes := List.forall₂_map_right_iff.2 (response.describes.imp fun _ q h =>
    ⟨h.1, h.2.1, h.2.2.trans q.2.size_probe.symm⟩)
  size_pos := response.size_pos

theorem MetaResponse.labels_congr {response response' : MetaResponse}
    (h : response.headers = response'.headers) : response.page.labels = response'.page.labels := by
  have hrecords : response.records = response'.records :=
    Except.ok.inj (response.decodes.symm.trans (h ▸ response'.decodes))
  rw [labels_eq, labels_eq, hrecords]

theorem MetaResponse.probes [JsonReader] (hreader : ReadsOnes) (response : MetaResponse) :
    ∀ r ∈ response.probe.page.metaRecords, ReadAttachments.Probes 0x78 r := by
  have hpos : ∀ q ∈ response.page.records, 0 < q.2.payload.size := by
    intro q hq
    obtain ⟨i, hi, rfl⟩ := List.getElem_of_mem hq
    have hrecord : i < response.records.length := response.describes.length_eq ▸ hi
    have hsize := (response.describes.get hrecord hi).2.2
    exact hsize ▸ response.size_pos _ (List.getElem_mem hrecord)
  rw [Page.metaRecords, List.forall_mem_map]
  refine List.forall_mem_map.2 fun q hq => ?_
  exact hreader.probes (hpos q hq)

namespace MetaQuery

variable (query : MetaQuery)

/-- The headers of the responses. -/
def headers : List Headers := query.responses.map MetaResponse.headers

/-- The query with bodies of probes. -/
def probe : MetaQuery where
  responses := query.responses.map MetaResponse.probe
  last_eq := by
    rw [← List.map_dropLast, List.forall_mem_map]
    exact query.last_eq
  noContent := query.noContent

theorem headers_probe : query.probe.headers = query.headers := by
  rw [headers, probe, List.map_map]
  rfl

theorem inPlace_congr {query query' : MetaQuery} (h : query'.headers = query.headers)
    (hplace : ∀ response ∈ query.responses, InPlace response.page.labels) :
    ∀ response ∈ query'.responses, InPlace response.page.labels := by
  intro response hresponse
  have hmem : response.headers ∈ query.headers := h ▸ List.mem_map_of_mem hresponse
  obtain ⟨response', hresponse', hsame⟩ := List.mem_map.1 hmem
  rw [← MetaResponse.labels_congr hsame]
  exact hplace response' hresponse'

/-- An `x` in front is read for a record that binds its key. -/
theorem not_readsFold [JsonReader] {c : UInt8} {onWorker : Bool} {query : MetaQuery}
    (hmalformed : ∀ payload : Blob, payload.bytes.head? = some c → ¬ IsJson payload)
    (hprobes : ∀ page ∈ query.pages, ∀ r ∈ page.metaRecords, ReadAttachments.Probes c r)
    (h : ∃ page ∈ query.pages, ¬ InPlace page.labels) : ¬ query.ReadsFold onWorker := by
  intro hfold
  have hjson : PayloadsJson (metaRecords query.pages) := by
    intro r hr
    obtain ⟨page, hpage, hr⟩ := List.mem_flatMap.1 hr
    exact (hprobes page hpage r hr).json
  -- there is a fold, and yet the callback has met a payload that is not JSON
  have herr := ReadAttachments.readPages_notInPlace {} hmalformed hprobes h
  have hresult := (@ReadAttachments.finish_error _ .kOk herr).1
  rw [(readsFold_iff_isFold.1 hfold).1 hjson] at hresult
  cases hresult

theorem not_readsFold_probe [JsonReader] (hreader : ReadsOnes) {onWorker : Bool}
    (h : ∃ response ∈ query.responses, ¬ InPlace response.page.labels) :
    ¬ query.probe.ReadsFold onWorker := by
  obtain ⟨response, hresponse, hplace⟩ := h
  have hlabels : response.probe.page.labels = response.page.labels := MetaResponse.labels_congr rfl
  refine not_readsFold hreader.not_isJson ?_ ⟨response.probe.page,
    List.mem_map_of_mem (List.mem_map_of_mem hresponse), by rwa [hlabels]⟩
  rw [pages, List.forall_mem_map]
  exact List.forall_mem_map.2 fun response _ => response.probes hreader

end MetaQuery

/-- Whatever JSON and other payloads the records have and however their bodies are cut
into chunks, `ReadAttachments` makes the fold of the records if and only if in no
response a record without a key stands before one that binds its key. -/
theorem readsFold_iff [JsonReader] (hreader : ReadsOnes) (query : MetaQuery) (onWorker : Bool) :
    (∀ query' : MetaQuery, query'.headers = query.headers → query'.ReadsFold onWorker) ↔
      ∀ response ∈ query.responses, InPlace response.page.labels := by
  constructor
  · intro h
    by_contra hplace
    push Not at hplace
    exact query.not_readsFold_probe hreader hplace (h query.probe query.headers_probe)
  · intro h query' hheaders
    refine MetaQuery.readsFold_of_inPlace (List.forall_mem_map.2 ?_)
    exact MetaQuery.inPlace_congr hheaders h

/-- A reader that knows a single number. -/
@[reducible] def numberReader : JsonReader where
  read text :=
    if text.head? = some 0x31 ∧ text.tail.all (· == 0x20) then .of (.int 1) else .empty

omit [StdSort] in
theorem numberReader_readsOnes : @ReadsOnes numberReader :=
  @ReadsOnes.mk numberReader (fun n => ⟨.int 1, if_pos ⟨rfl, by simp⟩⟩)
    fun text => ⟨_, if_neg (by simp)⟩

/-- A record with a key and one whose labels drop it. -/
def keyedFirst : Headers := UnorderedMap.empty.emplaceAll
  [(kHeaderEntries, bytes "e/$meta"), (kHeaderStartTs, bytes "0"),
    (bytes "x-reduct-0-0", bytes "1,text/plain,key=a"), (bytes "x-reduct-0-1", bytes "1,,key=")]

/-- A record without a key and one with a key. -/
def keylessFirst : Headers := UnorderedMap.empty.emplaceAll
  [(kHeaderEntries, bytes "e/$meta"), (kHeaderStartTs, bytes "0"),
    (bytes "x-reduct-0-0", bytes "1,text/plain"), (bytes "x-reduct-0-1", bytes "1,,key=a")]

omit [StdSort] in
/-- A response with two records of one byte that have the given payloads. -/
theorem exists_response {headers : Headers} {labels labels' : LabelMap}
    (h : (@buildRecords .insertion .batchedV2 false headers).toOption.map (List.map fun r =>
      (r.labels.toList, r.size)) = some [(labels.toList, 1), (labels'.toList, 1)]) {p p' : Blob}
    (hp : p.size = 1) (hp' : p'.size = 1) :
    ∃ response : @MetaResponse .insertion, @MetaResponse.headers .insertion response = headers ∧
      (@MetaResponse.page .insertion response).metaRecords = [⟨labels, p⟩, ⟨labels', p'⟩] := by
  cases hrecords : @buildRecords .insertion .batchedV2 false headers with
  | error fault => rw [hrecords] at h; cases h
  | ok records =>
    rw [hrecords] at h
    obtain ⟨r, rest, rfl, hr, hrest⟩ := List.map_eq_cons_iff.1 (Option.some.inj h)
    obtain ⟨r', rest', rfl, hr', hrest'⟩ := List.map_eq_cons_iff.1 hrest
    obtain rfl := List.map_eq_nil_iff.1 hrest'
    obtain ⟨hlabels, hsize⟩ := Prod.mk.inj hr
    obtain ⟨hlabels', hsize'⟩ := Prod.mk.inj hr'
    obtain rfl := Std.ExtTreeMap.toList_inj.1 hlabels
    obtain rfl := Std.ExtTreeMap.toList_inj.1 hlabels'
    let page := Page.single [(toMicroseconds r.timestamp, ⟨r.labels, p⟩),
      (toMicroseconds r'.timestamp, ⟨r'.labels, p'⟩)]
    have hdescribes : List.Forall₂ Describes [r, r'] page.records :=
      .cons ⟨rfl, rfl, hsize.trans hp.symm⟩ (.cons ⟨rfl, rfl, hsize'.trans hp'.symm⟩ .nil)
    have hpos : ∀ q ∈ [r, r'], 0 < q.size := by
      simp only [List.forall_mem_cons, List.not_mem_nil, false_imp_iff, implies_true, and_true]
      omega
    exact ⟨@MetaResponse.mk .insertion headers [r, r'] hrecords page hdescribes hpos, rfl, rfl⟩

/-- The labels of a record with the key `a`. -/
def keyA : LabelMap := (∅ : LabelMap).insert labelKey (bytes "a")

omit [StdSort] in
theorem readsFold_keyedFirst : ∃ query : @MetaQuery .insertion,
    @MetaQuery.headers .insertion query = [keyedFirst] ∧
      ∀ query', @MetaQuery.headers .insertion query' = [keyedFirst] →
        @MetaQuery.ReadsFold .insertion query' numberReader false := by
  obtain ⟨response, hheaders, hrecords⟩ := @exists_response keyedFirst keyA ∅ (by decide +kernel)
    ⟨bytes "1", by decide⟩ ⟨bytes "x", by decide⟩ rfl rfl
  let query := @MetaQuery.mk .insertion [response] (List.forall_mem_nil _) []
  have hquery : @MetaQuery.headers .insertion query = [keyedFirst] :=
    congrArg (fun h => [h]) hheaders
  refine ⟨query, hquery, fun query' hquery' => ?_⟩
  refine (@readsFold_iff .insertion numberReader numberReader_readsOnes query false).2
    (List.forall_mem_singleton.2 ?_) query' (hquery'.trans hquery.symm)
  rw [Page.labels_eq, hrecords]
  decide

omit [StdSort] in
/-- The payload of the record without a key is read for the one with a key. -/
theorem readsFold_keylessFirst : ∃ query : @MetaQuery .insertion,
    @MetaQuery.headers .insertion query = [keylessFirst] ∧
      metaRecords (@MetaQuery.pages .insertion query) =
        [⟨∅, ⟨bytes "x", by decide⟩⟩, ⟨keyA, ⟨bytes "1", by decide⟩⟩] ∧
      ¬ @MetaQuery.ReadsFold .insertion query numberReader false := by
  obtain ⟨response, hheaders, hrecords⟩ := @exists_response keylessFirst ∅ keyA (by decide +kernel)
    ⟨bytes "x", by decide⟩ ⟨bytes "1", by decide⟩ rfl rfl
  let query := @MetaQuery.mk .insertion [response] (List.forall_mem_nil _) []
  refine ⟨query, congrArg (fun h => [h]) hheaders, ?_, ?_⟩
  · exact (List.append_nil _).trans hrecords
  · refine @MetaQuery.not_readsFold .insertion numberReader 0x78 false query
      (@ReadsOnes.not_isJson numberReader numberReader_readsOnes) ?_
      ⟨@MetaResponse.page .insertion response, List.mem_singleton_self _, ?_⟩
    · refine List.forall_mem_singleton.2 ?_
      rw [hrecords]
      have hkeyless : ¬ BindsKey ∅ := by decide
      have hkeyed : BindsKey keyA := by decide
      exact List.forall_mem_cons.2
        ⟨@ReadAttachments.Probes.mk numberReader _ _ (by decide) (fun h => absurd h hkeyless)
          fun _ => rfl,
        List.forall_mem_singleton.2 (@ReadAttachments.Probes.mk numberReader _ _ (by decide)
          (fun _ => ⟨.int 1, if_pos (by decide)⟩) fun h => absurd hkeyed h)⟩
    · rw [Page.labels_eq, hrecords]
      decide

end Reduct
