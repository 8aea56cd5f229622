-- SUMMARY: What the attachment methods need of a server that keeps records, and these methods as calls of such a server.
import ReductClient.Bucket.AttachmentQuery
import ReductClient.Internal.Framing
import ReductClient.Internal.HeaderValues

open Cxx

namespace Reduct

/-! ## What a request conveys -/

/-- The records of an entry among those of a request. -/
def ofEntry (entry : Bytes) (sent : List (Bytes × Int × MetaRecord)) : List (Int × MetaRecord) :=
  (sent.filter (·.1 = entry)).map Prod.snd

variable [StdSort]

/-- A request conveys records with their entries: they are what the decoder of v2 responses
makes of its headers, and its body has the payloads one after the other. -/
structure Conveys (headers : Headers) (body : Bytes) (sent : List (Bytes × Int × MetaRecord)) :
    Prop where
  fieldText : ∀ header ∈ headers.toList, FieldText header.2
  decodes : ∃ records, parseAndBuildBatchedRecordsV2 false headers = .ok records ∧
    List.Forall₂ (fun r q => r.entry = q.1 ∧ Describes r q.2) records sent
  body_eq : body = (sent.map fun q => q.2.2.payload.bytes).flatten

/-- It conveys one list of records at most. -/
theorem Conveys.unique {headers : Headers} {body : Bytes}
    {sent sent' : List (Bytes × Int × MetaRecord)} (h : Conveys headers body sent)
    (h' : Conveys headers body sent') : sent = sent' := by
  obtain ⟨records, hrecords, hdescribes⟩ := h.decodes
  obtain ⟨records', hrecords', hdescribes'⟩ := h'.decodes
  obtain rfl := Except.ok.inj (hrecords.symm.trans hrecords')
  have hbody := h.body_eq.symm.trans h'.body_eq
  clear h h' hrecords hrecords'
  induction hdescribes generalizing sent' with
  | nil =>
    cases hdescribes'
    rfl
  | @cons r q records sent hq hrest ih =>
    cases hdescribes' with
    | @cons _ q' _ sent' hq' hrest' =>
      obtain ⟨hentry, htime, hlabels, hsize⟩ := hq
      obtain ⟨hentry', htime', hlabels', hsize'⟩ := hq'
      rw [List.map_cons, List.map_cons, List.flatten_cons, List.flatten_cons] at hbody
      obtain ⟨hbytes, hbody⟩ := List.append_inj hbody (hsize.symm.trans hsize')
      rw [ih hrest' hbody]
      obtain ⟨entry, time, labels, payload⟩ := q
      obtain ⟨entry', time', labels', payload'⟩ := q'
      obtain ⟨bytes, hlt⟩ := payload
      obtain ⟨bytes', hlt'⟩ := payload'
      dsimp only at *
      subst hbytes
      rw [← hentry, ← htime, ← hlabels, hentry', htime', hlabels']

/-! ## What a response tells -/

/-- A record that a response can tell: its labels can be written into a header. -/
structure Answerable (r : Int × MetaRecord) : Prop where
  range : InRange r.1
  labels : LegibleLabels r.2.labels
  fieldText : FieldLabels r.2.labels
  payload : 0 < r.2.payload.size

/-- The records that are decoded from all responses. -/
def MetaQuery.decoded (query : MetaQuery) : List ReadableRecord :=
  query.responses.flatMap MetaResponse.records

theorem MetaQuery.describes_decoded (query : MetaQuery) :
    List.Forall₂ Describes query.decoded (query.pages.flatMap Page.records) := by
  rw [decoded, pages, List.flatMap_map]
  induction query.responses with
  | nil => exact .nil
  | cons response responses ih => exact List.rel_append response.describes ih

/-- The responses to a query for the records of an entry: those that meet its condition,
in the order of their timestamps and with their labels and payloads. -/
structure Answers (records : EntryRecords) (payload : Json) (entry : Bytes) (query : MetaQuery) :
    Prop where
  records_eq : query.pages.flatMap Page.records = records.toList.filter fun r =>
    meetsCondition (payload.member? (bytes "when")) r.2.labels
  decoded : ∀ r ∈ query.decoded, r.entry = entry ∧ r.timestamp.AfterEpoch

/-! ## The server -/

/-- A server, as far as the attachment methods rely on it. -/
structure MetaServer where
  State : Type
  records : State → Bytes → EntryRecords
  /-- What a request of `ProcessBatchV2Records` does, with its headers and its body. -/
  apply : BatchType → Headers → Bytes → State → State
  /-- The responses that the text of a query leads to. -/
  respond : State → JsonText → MetaQuery
  /-- Records with new timestamps are kept. -/
  records_write : ∀ headers body sent s entry, Conveys headers body sent →
    ((ofEntry entry sent).map Prod.fst).Nodup →
    (∀ r ∈ ofEntry entry sent, r.1 ∉ records s entry) →
    records (apply .kWrite headers body s) entry =
      (ofEntry entry sent).foldl (fun m r => m.insert r.1 r.2) (records s entry)
  /-- The labels of records are updated. -/
  records_update : ∀ headers sent s entry, Conveys headers [] sent → SetsLabels headers →
    ((ofEntry entry sent).map Prod.fst).Nodup →
    records (apply .kUpdate headers [] s) entry =
      (records s entry).modifyAll updateRecord (ofEntry entry sent)
  /-- A query is answered. -/
  respond_eq : ∀ s payload entry, QueriesEntry payload entry → Listable entry →
    (∀ r ∈ (records s entry).toList, Answerable r) →
    Answers (records s entry) payload entry (respond s (.of payload))

/-! ## Batches that are conveyed -/

/-- The records of a batch, as a request is to convey them. -/
def Batch.sent (b : Batch) : List (Bytes × Int × MetaRecord) :=
  b.records.map fun r => (r.entry, toMicroseconds r.timestamp, ⟨r.labels, b.payload r⟩)

omit [StdSort] in
theorem Batch.ofEntry_sent (b : Batch) (entry : Bytes) :
    ofEntry entry b.sent = b.recordsOf entry := by
  rw [ofEntry, sent, recordsOf, List.filter_map, List.map_map]
  rfl

omit [StdSort] in
theorem Batch.payload_bytes (b : Batch) (r : Record) : (b.payload r).bytes = b.data r := by
  rw [payload, data]
  cases r.dataIndex with
  | none => rfl
  | some i => cases h : b.body[i]? <;> simp [h]

omit [StdSort] in
/-- A batch of one entry is as long as its payloads. -/
theorem Batch.total_eq {b : Batch} {entry : Bytes} (h : ∀ r ∈ b.records, r.entry = entry) :
    b.total = ((b.recordsOf entry).map fun r => r.2.payload.size).sum := by
  have hall : b.records.filter (fun r => decide (r.entry = entry)) = b.records :=
    List.filter_eq_self.2 fun r hr => decide_eq_true (h r hr)
  rw [total, List.length_flatten, recordsOf, hall, List.map_map, List.map_map]
  refine congrArg List.sum (List.map_congr_left fun r _ => ?_)
  rw [Function.comp_apply, ← b.payload_bytes]
  rfl

/-- A batch of the attachment methods whose request conveys it: its records are in the order
of their timestamps, have the same labels, and these can be written into headers. -/
structure Batch.Attachable (b : Batch) (entry : Bytes) (type : BatchType) : Prop where
  attached : ∀ r ∈ b.records, r.AttachedTo entry type
  inOrder : b.records.Pairwise fun r r' => toMicroseconds r.timestamp < toMicroseconds r'.timestamp
  legible : ∀ r ∈ b.records, LegibleLabels r.labels ∧ FieldLabels r.labels
  names : ∀ r ∈ b.records, ∀ r' ∈ b.records, ∀ name ∈ r.labels, name ∈ r'.labels
  fits : type = .kWrite → b.total < 2 ^ 64

omit [StdSort] in
theorem Batch.attachable_of_recordsOf {b : Batch} {entry : Bytes} {type : BatchType}
    {records : List (Int × MetaRecord)} (hattached : ∀ r ∈ b.records, r.AttachedTo entry type)
    (hrecords : b.recordsOf entry = records)
    (hsorted : records.Pairwise fun r r' => compare r.1 r'.1 = .lt)
    (hlegible : ∀ r ∈ records, LegibleLabels r.2.labels ∧ FieldLabels r.2.labels)
    (hnames : ∀ r ∈ records, ∀ r' ∈ records, ∀ name ∈ r.2.labels, name ∈ r'.2.labels)
    (hfits : type = .kWrite → (records.map fun r => r.2.payload.size).sum < 2 ^ 64) :
    b.Attachable entry type := by
  have hentries : ∀ r ∈ b.records, r.entry = entry := fun r hr => (hattached r hr).entry_eq
  have hmap : records =
      b.records.map fun r => (toMicroseconds r.timestamp, ⟨r.labels, b.payload r⟩) := by
    have hall : b.records.filter (fun r => decide (r.entry = entry)) = b.records :=
      List.filter_eq_self.2 fun r hr => decide_eq_true (hentries r hr)
    rw [← hrecords, recordsOf, hall]
  have hmem : ∀ r ∈ b.records,
      (toMicroseconds r.timestamp, ⟨r.labels, b.payload r⟩) ∈ records := fun r hr =>
    hmap ▸ List.mem_map_of_mem hr
  refine ⟨hattached, ?_, fun r hr => hlegible _ (hmem r hr),
    fun r hr r' hr' => hnames _ (hmem r hr) _ (hmem r' hr'), ?_⟩
  · rw [hmap, List.pairwise_map] at hsorted
    exact hsorted.imp compare_lt_iff_lt.1
  · rw [total_eq hentries, hrecords]
    exact hfits

namespace Batch.Attachable

variable {b : Batch} {entry : Bytes} {type : BatchType}

section

variable (h : b.Attachable entry type)

include h

omit [StdSort] in
theorem epoch : ∀ r ∈ b.records, r.timestamp.AfterEpoch := fun r hr => (h.attached r hr).epoch

omit [StdSort] in
theorem recordEntry_eq {r : Record} (hr : r ∈ b.records) : recordEntry r [] = entry := by
  rw [recordEntry_nil, (h.attached r hr).entry_eq]

omit [StdSort] in
theorem pairwise_micros : b.records.Pairwise fun r r' => r.timestamp.micros < r'.timestamp.micros :=
  h.inOrder.imp_of_mem fun {r r'} hr hr' hlt => by
    rw [Time.toMicroseconds_eq (h.epoch r hr), Time.toMicroseconds_eq (h.epoch r' hr')] at hlt
    omega

omit [StdSort] in
theorem distinctKeys : DistinctKeys b [] := by
  refine List.pairwise_map.2 (h.pairwise_micros.imp fun {r r'} hlt heq => ?_)
  exact hlt.ne (congrArg Prod.snd heq)

omit [StdSort] in
theorem legible_record (hentry : Listable entry) :
    ∀ r ∈ b.records, Legible [] type r := fun r hr => by
  refine ⟨(h.recordEntry_eq hr).symm ▸ hentry, ?_, (h.legible r hr).1⟩
  rintro rfl
  rw [(h.attached r hr).contentType, if_pos rfl]
  decide

omit [StdSort] in
theorem fieldText_record :
    ∀ r ∈ b.records, FieldLabels r.labels ∧ FieldText r.contentType := fun r hr => by
  refine ⟨(h.legible r hr).2, ?_⟩
  rw [(h.attached r hr).contentType]
  split <;> decide

/-- The request has the records in their order. -/
theorem inOrder_eq : b.inOrder (sortRecords b [] true) = b.records := by
  have hperm := (sortRecords_isOrder b [] true).inOrder_perm
  have hmem : ∀ r ∈ b.inOrder (sortRecords b [] true), r ∈ b.records := fun r => hperm.mem_iff.1
  have hsorted := (sortRecords_byEntry h.epoch []).imp_of_mem fun {r r'} hr hr' hle =>
    hle.2 ((h.recordEntry_eq (hmem r hr)).trans (h.recordEntry_eq (hmem r' hr')).symm)
  have hnodup : (b.records.map (·.timestamp.micros)).Nodup :=
    List.pairwise_map.2 (h.pairwise_micros.imp Nat.ne_of_lt)
  refine List.Perm.eq_of_pairwise ?_ hsorted (h.pairwise_micros.imp Nat.le_of_lt) hperm
  intro r r' hr hr' hle hle'
  exact List.inj_on_of_nodup_map hnodup (hmem r hr) hr' (Nat.le_antisymm hle hle')

omit [StdSort] in
/-- The records come out of the headers with their own labels. -/
theorem decodedFrom_eq (head : Bool) :
    decodedFrom [] type head [] b.records =
      b.records.map fun r => decodedRecord [] head (r.told type) r.labels := by
  refine (decodedFrom_eq_iff [] type head [] b.records).2 ⟨fun r hr => absurd hr List.not_mem_nil, ?_⟩
  exact List.pairwise_iff_forall_sublist.2 fun {r r'} hsub _ =>
    h.names r (hsub.subset List.mem_cons_self) r' (hsub.subset (.tail _ List.mem_cons_self))

omit [StdSort] in
/-- They are those of the batch. -/
theorem describes_sent (head : Bool) :
    List.Forall₂ (fun r q => r.entry = q.1 ∧ Describes r q.2)
      (b.records.map fun r => decodedRecord [] head (r.told type) r.labels) b.sent := by
  rw [Batch.sent, List.forall₂_map_left_iff, List.forall₂_map_right_iff]
  refine List.forall₂_same.2 fun r hr => ⟨?_, ?_, rfl, ?_⟩
  · exact (Record.told_entry type r []).trans (recordEntry_nil r)
  · have hns := timeFromMicroseconds_micros r.timestamp
    simp only [decodedRecord, Record.told_timestamp]
    rw [toMicroseconds, hns, Int.mul_tdiv_cancel _ (by decide)]
  · have hsize : r.size = (b.payload r).size := by
      rw [b.size_eq_length_data hr, ← b.payload_bytes]
      rfl
    cases type with
    | kWrite => exact hsize
    | kUpdate =>
      have hdata := (h.attached r hr).dataIndex (by decide)
      simp [decodedRecord, Record.told, Batch.payload, hdata, Blob.size]
    | kRemove =>
      have hdata := (h.attached r hr).dataIndex (by decide)
      simp [decodedRecord, Record.told, Batch.payload, hdata, Blob.size]

omit [StdSort] in
/-- No two records have the same timestamp. -/
theorem nodup_recordsOf : ((b.recordsOf entry).map Prod.fst).Nodup := by
  rw [recordsOf, List.map_map]
  refine List.pairwise_map.2 (List.Pairwise.imp ?_ (h.inOrder.sublist List.filter_sublist))
  intro r r' hlt
  exact hlt.ne

omit [StdSort] in
/-- Only a write has payloads. -/
theorem body_nil (htype : type ≠ .kWrite) :
    (b.sent.map fun q => q.2.2.payload.bytes).flatten = [] := by
  rw [Batch.sent, List.map_map]
  refine List.flatten_eq_nil_iff.2 (List.forall_mem_map.2 fun r hr => ?_)
  dsimp only [Function.comp_apply]
  rw [b.payload_bytes, Batch.data, (h.attached r hr).dataIndex htype]
  rfl

/-- The body of the request has the payloads in the order of the records. -/
theorem body_eq {request : BatchV2Request} (hordered : request.ordered = sortRecords b [] true) :
    (requestV2 [] type b request).body =
      .ok (b.sent.map fun q => q.2.2.payload.bytes).flatten := by
  cases type with
  | kWrite =>
    have horder := sortRecords_isOrder b [] true
    have hpayloads : (b.sent.map fun q => q.2.2.payload.bytes) = b.records.map b.data := by
      rw [Batch.sent, List.map_map]
      exact List.map_congr_left fun r _ => b.payload_bytes r
    have hdata : (sortRecords b [] true).map b.dataAt = b.records.map b.data := by
      have hdataAt := List.map_congr_left fun idx hidx => b.dataAt_eq (horder.lt hidx)
      rw [hdataAt, ← h.inOrder_eq, Batch.inOrder, List.map_map]
      rfl
    have hall : b.size = (b.records.map b.data).flatten.length := Batch.size_eq_total (h.fits rfl)
    have htransmit := transmit_batchProvider (h.fits rfl) horder 0 [b.size]
    rw [hdata, List.drop_zero, List.sum_singleton, hall, List.take_length, ← hall] at htransmit
    rw [requestV2, hordered, hpayloads]
    exact htransmit
  | kUpdate => rw [h.body_nil (by decide)]; rfl
  | kRemove => rw [h.body_nil (by decide)]; rfl

/-- Its headers are those of the records. -/
theorem exists_built (hentry : Listable entry) (hne : b.records ≠ []) :
    ∃ st, Indexed [] b.records st ∧ buildBatchV2Request [] b type true =
      .ok ⟨sortRecords b [] true, st.entries, st.startTs, requestHeadersV2 [] type st b.records⟩ := by
  rcases buildBatchV2Request_cases [] b type true with
    ⟨hnil, -⟩ | ⟨-, ⟨-, r, hr, hmissing⟩, -⟩ | ⟨-, -, -, st, hindexed, heq⟩
  · exact absurd hnil hne
  · exact absurd ((h.recordEntry_eq hr).symm.trans hmissing) hentry.1
  · rw [h.inOrder_eq] at hindexed heq
    exact ⟨st, hindexed, heq⟩

theorem decodes (hentry : Listable entry) (htype : type ≠ .kRemove) {st : IndexState}
    (hbuilt : buildBatchV2Request [] b type true = .ok ⟨sortRecords b [] true, st.entries,
      st.startTs, requestHeadersV2 [] type st b.records⟩) (head : Bool) :
    parseAndBuildBatchedRecordsV2 head (requestHeadersV2 [] type st b.records) =
      .ok (b.records.map fun r => decodedRecord [] head (r.told type) r.labels) := by
  obtain ⟨request, hrequest, hordered, hdecodes⟩ := exists_decoded htype h.epoch
    (h.legible_record hentry) h.distinctKeys true
  obtain rfl := Except.ok.inj (hrequest.symm.trans hbuilt)
  rw [hdecodes head _ (.refl _), h.inOrder_eq, h.decodedFrom_eq]

/-- The batch is sent in one request, which conveys its records. -/
theorem exists_request (hentry : Listable entry) (htype : type ≠ .kRemove)
    (hne : b.records ≠ []) :
    ∃ request, processBatchV2Records acceptingServer [] b type = ⟨[request], .ok ⟨∅, .kOk⟩⟩ ∧
      request.body = .ok (b.sent.map fun q => q.2.2.payload.bytes).flatten ∧
      Conveys request.headers (b.sent.map fun q => q.2.2.payload.bytes).flatten b.sent ∧
      (type = .kUpdate → SetsLabels request.headers) := by
  obtain ⟨st, hindexed, hbuilt⟩ := h.exists_built hentry hne
  have hsome : sortRecords b [] true ≠ [] := by
    have hlength := (sortRecords_isOrder b [] true).length_eq
    rw [← List.length_pos_iff, hlength, List.length_range]
    exact List.length_pos_iff.2 hne
  refine ⟨requestV2 [] type b ⟨sortRecords b [] true, st.entries, st.startTs,
    requestHeadersV2 [] type st b.records⟩, ?_, h.body_eq rfl, ?_, ?_⟩
  · rw [processBatchV2Records, hbuilt, processRequestV2]
    dsimp only
    rw [if_neg hsome]
    rfl
  · rw [requestV2_headers]
    exact ⟨hindexed.fieldText b.records_lt h.distinctKeys h.fieldText_record,
      ⟨_, h.decodes hentry htype hbuilt false, h.describes_sent false⟩, rfl⟩
  · rintro rfl
    rw [requestV2_headers]
    exact hindexed.setsLabels b.records_lt h.distinctKeys fun r hr => (h.legible r hr).1

end

end Batch.Attachable

/-! ## The attachment methods -/

namespace ReadAttachments

variable [JsonReader]

/-- The callback for the records of a response, with the chunks that are left of its body.
`ReadAll` is called for those with a key. -/
def readDecoded (st : ReadAttachments) (chunks : List Bytes) :
    List ReadableRecord → ReadAttachments × Bool
  | [] => (st, true)
  | record :: records =>
    let (st, more) := st.callback record.labels ⟨joined (handedChunks chunks record), .kOk⟩
    if more then st.readDecoded (leftChunks chunks record) records else (st, false)

/-- The callback for the records of all responses. -/
def readResponses (st : ReadAttachments) : List MetaResponse → ReadAttachments
  | [] => st
  | response :: responses =>
    let (st, more) := st.readDecoded response.page.chunks response.records
    if more then st.readResponses responses else st

omit [StdSort] in
theorem readDecoded_eq {decoded : List ReadableRecord} {records : List (Int × MetaRecord)}
    (h : List.Forall₂ Describes decoded records) (st : ReadAttachments) (chunks : List Bytes) :
    st.readDecoded chunks decoded = st.readRecords chunks records := by
  induction h generalizing st chunks with
  | nil => rfl
  | cons hdescribes _ ih =>
    rw [readDecoded, readRecords_handed st hdescribes]
    simp only [ih]

theorem readResponses_eq (responses : List MetaResponse) (st : ReadAttachments) :
    st.readResponses responses = st.readPages (responses.map MetaResponse.page) := by
  induction responses generalizing st with
  | nil => rfl
  | cons response responses ih =>
    rw [readResponses, readDecoded_eq response.describes, List.map_cons, readPages]
    simp only [ih]

end ReadAttachments

namespace MetaServer

variable (server : MetaServer)

/-- `ProcessBatchV2Records` and `FirstBatchRecordError`, where the request is accepted. -/
def processBatch (s : server.State) (batch : Batch) (type : BatchType) :
    Except Uncaught (server.State × Error) := do
  let outcome := processBatchV2Records acceptingServer [] batch type
  let s ← outcome.sent.foldlM (fun s request => do
    let body ← uncaught request.body
    pure (server.apply type request.headers body s)) s
  let errors ← uncaught outcome.result
  pure (s, if errors.error.isError then errors.error else firstBatchRecordError errors.result)

/-- `QueryV2` on the meta entry, up to the callback calls. -/
def queryV2 (s : server.State) (entryName : Bytes) (options : QueryOptions) :
    Except Uncaught (Except Error MetaQuery) :=
  match queryOptionsToJsonString (bytes "QUERY") [metaEntry entryName] none none options with
  | .error err => pure (.error err)
  | .ok payload =>
    match payload.dump with
    | none => throw .dump
    | some text => pure (.ok (server.respond s text))

/-- `WriteAttachments`, called at the time `now`. -/
def writeAttachments [JsonReader] (s : server.State) (entryName : Bytes)
    (attachments : AttachmentMap) (now : Time) : Except Uncaught (server.State × Error) :=
  if attachments.isEmpty then pure (s, .kOk)
  else do
    match ← uncaught (attachmentBatch entryName attachments now) with
    | .error err => pure (s, err)
    | .ok batch => server.processBatch s batch .kWrite

/-- `ReadAttachments`. -/
def readAttachments [JsonReader] (s : server.State) (entryName : Bytes) :
    Except Uncaught (Result AttachmentMap) := do
  match ← server.queryV2 s entryName {} with
  | .error err => pure ⟨∅, err⟩
  | .ok query => pure ((ReadAttachments.readResponses {} query.responses).finish .kOk)

/-- `RemoveAttachments`. -/
def removeAttachments (s : server.State) (entryName : Bytes) (keys : KeySet) :
    Except Uncaught (server.State × Error) := do
  let options ← Bucket.removalOptions keys
  match ← server.queryV2 s entryName options with
  | .error err => pure (s, err)
  | .ok query =>
    let removeBatch ← uncaught (query.decoded.foldlM (fun batch record =>
      markRemoved batch record.entry record.timestamp record.labels) .empty)
    server.processBatch s removeBatch .kUpdate

/-- An empty batch is not sent. -/
theorem processBatch_nil (s : server.State) {b : Batch} (h : b.records = []) (type : BatchType) :
    server.processBatch s b type = .ok (s, .kOk) := by
  have hbuilt : buildBatchV2Request [] b type true = .ok ⟨[], [], 0, .empty⟩ := by
    rcases buildBatchV2Request_cases [] b type true with
      ⟨-, -, hbuilt⟩ | ⟨hne, -⟩ | ⟨hne, -⟩
    · exact hbuilt
    · exact absurd h hne
    · exact absurd h hne
  rw [processBatch, processBatchV2Records, hbuilt]
  rfl

/-- A batch of the attachment methods is sent as it is. -/
theorem processBatch_eq (s : server.State) {b : Batch} {entry : Bytes} {type : BatchType}
    (h : b.Attachable entry type) (hentry : Listable entry) (htype : type ≠ .kRemove)
    (hne : b.records ≠ []) :
    ∃ headers body, server.processBatch s b type =
        .ok (server.apply type headers body s, .kOk) ∧
      Conveys headers body b.sent ∧ body = (b.sent.map fun q => q.2.2.payload.bytes).flatten ∧
      (type = .kUpdate → SetsLabels headers) := by
  obtain ⟨request, hsent, hbody, hconveys, hsets⟩ := h.exists_request hentry htype hne
  refine ⟨request.headers, _, ?_, hconveys, rfl, hsets⟩
  rw [processBatch, hsent]
  simp only [List.foldlM_cons, hbody, uncaught_ok]
  rfl

/-- A write keeps the records of the batch. -/
theorem processBatch_write (s : server.State) {b : Batch} {entry : Bytes}
    (h : b.Attachable entry .kWrite) (hentry : Listable entry)
    (hnew : ∀ r ∈ b.recordsOf entry, r.1 ∉ server.records s entry) :
    ∃ s', server.processBatch s b .kWrite = .ok (s', .kOk) ∧ server.records s' entry =
      (b.recordsOf entry).foldl (fun m r => m.insert r.1 r.2) (server.records s entry) := by
  by_cases hnil : b.records = []
  · refine ⟨s, server.processBatch_nil s hnil .kWrite, ?_⟩
    rw [Batch.recordsOf, hnil]
    rfl
  · obtain ⟨headers, body, hprocess, hconveys, -, -⟩ :=
      server.processBatch_eq s h hentry (by decide) hnil
    refine ⟨_, hprocess, ?_⟩
    rw [← b.ofEntry_sent] at hnew ⊢
    exact server.records_write headers body b.sent s entry hconveys
      (b.ofEntry_sent entry ▸ h.nodup_recordsOf) hnew

/-- An update updates the labels of these records. -/
theorem processBatch_update (s : server.State) {b : Batch} {entry : Bytes}
    (h : b.Attachable entry .kUpdate) (hentry : Listable entry) :
    ∃ s', server.processBatch s b .kUpdate = .ok (s', .kOk) ∧ server.records s' entry =
      (server.records s entry).modifyAll updateRecord (b.recordsOf entry) := by
  by_cases hnil : b.records = []
  · refine ⟨s, server.processBatch_nil s hnil .kUpdate, ?_⟩
    rw [Batch.recordsOf, hnil]
    rfl
  · obtain ⟨headers, body, hprocess, hconveys, hbody, hsets⟩ :=
      server.processBatch_eq s h hentry (by decide) hnil
    obtain rfl : body = [] := hbody.trans (h.body_nil (by decide))
    refine ⟨_, hprocess, ?_⟩
    rw [← b.ofEntry_sent]
    exact server.records_update headers b.sent s entry hconveys (hsets rfl)
      (b.ofEntry_sent entry ▸ h.nodup_recordsOf)

end MetaServer

/-! ## A server in memory -/

/-- A response can tell an answerable record. -/
theorem exists_metaResponse {entry : Bytes} (hentry : Listable entry) {r : Int × MetaRecord}
    (h : Answerable r) : ∃ response : MetaResponse, response.page.records = [r] ∧
      (∀ record ∈ response.records, record.entry = entry ∧ record.timestamp.AfterEpoch) ∧
      announcesEnd response.headers = false := by
  -- its headers are those of a request that writes the record
  obtain ⟨b, -, hrecords, hstored⟩ := @Batch.addRecord_ok .empty (by decide) entry
    (timeOfMicroseconds r.1) r.2.payload (bytes "application/json") r.2.labels
  rw [show Batch.empty.records = [] from rfl, List.nil_append] at hrecords
  rw [show Batch.empty.recordsOf entry = [] from rfl, List.nil_append] at hstored
  have hattachable : b.Attachable entry .kWrite := by
    refine Batch.attachable_of_recordsOf ?_ hstored (List.pairwise_singleton _ _)
      (List.forall_mem_singleton.2 ⟨h.labels, h.fieldText⟩)
      (List.forall_mem_singleton.2 (List.forall_mem_singleton.2 fun _ => id))
      fun _ => r.2.payload.size_lt
    rw [hrecords]
    exact List.forall_mem_singleton.2
      ⟨rfl, afterEpoch_timeOfMicroseconds h.range, rfl, fun hne => absurd rfl hne⟩
  obtain ⟨st, hindexed, hbuilt⟩ := hattachable.exists_built hentry (by rw [hrecords]; simp)
  have hdecodes := hattachable.decodes hentry (by decide) hbuilt false
  have hdescribes := hattachable.describes_sent false
  have hlast : announcesEnd (requestHeadersV2 [] .kWrite st b.records) = false := by
    rw [announcesEnd, Headers.get, hindexed.find_none b.records_lt hattachable.distinctKeys (.refl _)
      (by decide) (by decide)]
    decide
  have hsent : b.sent = [(entry, r)] := by
    have hpayload : b.payload ⟨entry, timeOfMicroseconds r.1, r.2.payload.size,
        bytes "application/json", r.2.labels, some Batch.empty.body.length⟩ = r.2.payload := by
      simpa [Batch.recordsOf, hrecords] using hstored
    rw [Batch.sent, hrecords, List.map_singleton, hpayload,
      toMicroseconds_timeOfMicroseconds h.range]
  rw [hsent, hrecords, List.map_singleton] at hdescribes
  rw [hrecords, List.map_singleton, ← hrecords] at hdecodes
  obtain ⟨⟨hname, hdescribes⟩, -⟩ := List.forall₂_cons.1 hdescribes
  refine ⟨⟨_, _, hdecodes, .single [r], .cons hdescribes .nil, ?_⟩, rfl, ?_, hlast⟩
  · refine List.forall_mem_singleton.2 ?_
    rw [hdescribes.2.2]
    exact h.payload
  · refine List.forall_mem_singleton.2 ⟨hname, ?_⟩
    have hns := timeFromMicroseconds_micros (timeOfMicroseconds r.1)
    rw [toMicroseconds_timeOfMicroseconds h.range] at hns
    have hlower := h.range.1
    change 0 ≤ (timeFromMicroseconds _).ns
    rw [Record.told_timestamp, hns]
    omega

/-- So there are responses to every query for an entry of such records. -/
theorem exists_answers {records : EntryRecords} {payload : Json} {entry : Bytes}
    (hentry : Listable entry) (h : ∀ r ∈ records.toList, Answerable r) :
    ∃ query, Answers records payload entry query := by
  have hresponses : ∀ l : List (Int × MetaRecord), (∀ r ∈ l, Answerable r) →
      ∃ responses : List MetaResponse,
        (responses.map MetaResponse.page).flatMap Page.records = l ∧
        (∀ record ∈ responses.flatMap MetaResponse.records,
          record.entry = entry ∧ record.timestamp.AfterEpoch) ∧
        ∀ response ∈ responses, announcesEnd response.headers = false := by
    intro l hl
    induction l with
    | nil => exact ⟨[], rfl, List.forall_mem_nil _, List.forall_mem_nil _⟩
    | cons r l ih =>
      obtain ⟨hr, hrest⟩ := List.forall_mem_cons.1 hl
      obtain ⟨response, hrecords, hdecoded, hend⟩ := exists_metaResponse hentry hr
      obtain ⟨responses, hrecords', hdecoded', hends⟩ := ih hrest
      refine ⟨response :: responses, ?_, ?_, List.forall_mem_cons.2 ⟨hend, hends⟩⟩
      · rw [List.map_cons, List.flatMap_cons, hrecords, hrecords']
        rfl
      · rw [List.flatMap_cons]
        exact List.forall_mem_append.2 ⟨hdecoded, hdecoded'⟩
  obtain ⟨responses, hrecords, hdecoded, hends⟩ := hresponses
    (records.toList.filter fun r => meetsCondition (payload.member? (bytes "when")) r.2.labels)
    fun r hr => h r (List.mem_filter.1 hr).1
  exact ⟨⟨responses, fun response hr => hends response (List.mem_of_mem_dropLast hr), []⟩,
    hrecords, hdecoded⟩

open Classical in
/-- The records that a request conveys, if it does. -/
noncomputable def conveyed (headers : Headers) (body : Bytes) : List (Bytes × Int × MetaRecord) :=
  if h : ∃ sent, Conveys headers body sent then h.choose else []

theorem conveyed_eq {headers : Headers} {body : Bytes} {sent : List (Bytes × Int × MetaRecord)}
    (h : Conveys headers body sent) : conveyed headers body = sent := by
  have hsent : ∃ sent, Conveys headers body sent := ⟨sent, h⟩
  rw [conveyed, dif_pos hsent]
  exact hsent.choose_spec.unique h

/-- A query without responses. -/
def MetaQuery.none : MetaQuery := ⟨[], List.forall_mem_nil _, []⟩

open Classical in
/-- Responses to a query, if there are any. -/
noncomputable def answered (s : Bytes → EntryRecords) (payload : Json) : MetaQuery :=
  if h : ∃ query, ∀ entry, QueriesEntry payload entry → Answers (s entry) payload entry query then
    h.choose
  else .none

theorem answered_eq {s : Bytes → EntryRecords} {payload : Json} {entry : Bytes}
    (hquery : QueriesEntry payload entry) (hentry : Listable entry)
    (h : ∀ r ∈ (s entry).toList, Answerable r) :
    Answers (s entry) payload entry (answered s payload) := by
  obtain ⟨query, hanswers⟩ := @exists_answers _ _ payload _ hentry h
  have hquery' : ∃ query, ∀ entry, QueriesEntry payload entry →
      Answers (s entry) payload entry query := by
    refine ⟨query, fun entry' hentry' => ?_⟩
    have hsame := hquery.entries.symm.trans hentry'.entries
    obtain rfl : entry = entry' := by simpa [Json.strings] using hsame
    exact hanswers
  rw [answered, dif_pos hquery']
  exact hquery'.choose_spec entry hquery

/-- A server that keeps the records of all entries. -/
noncomputable def MetaServer.inMemory : MetaServer where
  State := Bytes → EntryRecords
  records := id
  apply type headers body s entry :=
    let own := ofEntry entry (conveyed headers body)
    match type with
    | .kWrite => own.foldl (fun m r => m.insert r.1 r.2) (s entry)
    | .kUpdate => (s entry).modifyAll updateRecord own
    | .kRemove => own.foldl (fun m r => m.erase r.1) (s entry)
  respond s
    | .malformed _ => .none
    | .of payload => answered s payload
  records_write headers body sent s entry h _ _ := by
    dsimp only [id]
    rw [conveyed_eq h]
  records_update headers sent s entry h _ _ := by
    dsimp only [id]
    rw [conveyed_eq h]
  respond_eq s payload entry hquery hentry h := answered_eq hquery hentry h

/-- In every interleaving, the threads of the query return what `ReadAttachments` returns as
a call of the server. -/
theorem MetaQuery.refines_readAttachments [JsonReader] {query : MetaQuery} {onWorker : Bool}
    {server : MetaServer} {state : server.State} {entryName : Bytes}
    (hquery : server.queryV2 state entryName {} = .ok (.ok query)) {s : QueryState} {err : Error}
    (h : query.Reachable onWorker s) (hreturned : s.phase = .returned err) :
    server.readAttachments state entryName = .ok ((ReadAttachments.after s.visits).finish err) := by
  rw [result_eq h hreturned, MetaServer.readAttachments, hquery, Fallible.ok_bind]
  dsimp only
  rw [ReadAttachments.readResponses_eq]
  rfl

end Reduct
