-- SUMMARY: Records that are written as a batch and queried over the same protocol: the callback gets each of them once, as it was written.
import ReductClient.Bucket.BatchUpload
import ReductClient.Bucket.EndFlag
import ReductClient.Internal.DecoderFold
import ReductClient.Internal.ProtocolAgreement
import ReductClient.Internal.RoundTrip

open Cxx Fallible Transition

namespace Reduct

/-! ## Responses that repeat a request -/

/-- The response repeats the record headers of a request, in any order and among others. Over
protocol v2 it repeats what the names of these refer to. -/
def BatchVersion.Repeats : BatchVersion → Headers → Headers → Prop
  | .v1, sent, headers =>
    (recordHeaders isRecordNameV1 headers).Perm (recordHeaders isRecordNameV1 sent)
  | .v2, sent, headers =>
    (recordHeaders isRecordNameV2 headers).Perm (recordHeaders isRecordNameV2 sent) ∧
      ∀ name ∈ [kHeaderEntries, kHeaderStartTs, kHeaderLabels],
        headers.find? name = sent.find? name

/-- The record as it is decoded, before the flag is set. Protocol v1 leaves out the entry. -/
def BatchVersion.returned (version : BatchVersion) (entryName : Bytes) (record : Record) :
    ReadableRecord where
  entry := if version = .v2 then recordEntry record entryName else []
  timestamp := timeFromMicroseconds record.timestamp.micros
  size := record.size
  last := false
  labels := record.labels
  contentType := record.contentType
  read := ⟨version.kind record.size, false⟩

/-- What the protocol needs of a batch. -/
def BatchVersion.Fits : BatchVersion → Batch → Bytes → Prop
  | .v1, batch, entryName => ¬ SeveralEntries batch entryName ∧
    (∀ r ∈ batch.records, r.size < 2 ^ 63) ∧ ∀ r ∈ batch.records, ∀ r' ∈ batch.records,
      (decimal r.timestamp.micros).length = (decimal r'.timestamp.micros).length
  | .v2, batch, entryName => KeepsLabels entryName batch

/-- The records of the batch are made of words and have data, at times at or after the epoch,
the body is not too long, and the protocol can tell the records apart. -/
structure BatchVersion.Plain (version : BatchVersion) (batch : Batch) (entryName : Bytes) :
    Prop where
  epoch : ∀ r ∈ batch.records, r.timestamp.AfterEpoch
  worded : ∀ r ∈ batch.records, Worded entryName r
  size_pos : ∀ r ∈ batch.records, 0 < r.size
  total_lt : batch.total < 2 ^ 64
  distinct : DistinctKeys batch entryName
  fits : version.Fits batch entryName

variable [StdSort]

/-- The write request of the batch. -/
def BatchVersion.Writes : BatchVersion → Batch → Bytes → HttpRequest → Prop
  | .v1, batch, entryName, request =>
    ∃ bucketPath, request = requestV1 bucketPath entryName batch .kWrite
  | .v2, batch, entryName, request => ∃ ioPath requireEntry built,
    buildBatchV2Request entryName batch .kWrite requireEntry = .ok built ∧
      request = requestV2 ioPath .kWrite batch built

/-- The order of the records in the request. -/
def BatchVersion.order (version : BatchVersion) (batch : Batch) (entryName : Bytes) : List Nat :=
  sortRecords batch entryName (version = .v2)

/-- The records in the order of the request. -/
def BatchVersion.written (version : BatchVersion) (batch : Batch) (entryName : Bytes) :
    List Record :=
  batch.inOrder (version.order batch entryName)

/-- The records as the callback sees them. -/
def BatchVersion.readBack (version : BatchVersion) (batch : Batch) (entryName : Bytes)
    (flag : Bool) : List ReadableRecord :=
  flagLast flag ((version.written batch entryName).map (version.returned entryName))

/-! ## Protocol v1 -/

/-- The record as one that a response announces. -/
def QueryRecord.ofRecord (entryName : Bytes) (record : Record)
    (h : Worded entryName record ∧ 0 < record.size) : QueryRecord where
  micros := record.timestamp.micros
  size := record.size
  contentType := record.contentType
  labels := record.labels
  size_pos := h.2
  contentType_word := h.1.contentType
  labels_word := h.1.labels

omit [StdSort] in
/-- The header of a record in a request is that of a response. -/
theorem header_ofRecord {entryName : Bytes} {record : Record}
    (h : Worded entryName record ∧ 0 < record.size) (hepoch : record.timestamp.AfterEpoch) :
    (QueryRecord.ofRecord entryName record h).toV1.header = recordHeaderV1 record .kWrite := by
  refine Prod.ext (recordHeaderV1_name hepoch _).symm ?_
  simp [RecordV1.header, RecordV1.tail, QueryRecord.toV1, QueryRecord.ofRecord, recordHeaderV1]

omit [StdSort] in
/-- It is decoded as the record. -/
theorem decoded_ofRecord {entryName : Bytes} {record : Record}
    (h : Worded entryName record ∧ 0 < record.size) :
    (QueryRecord.ofRecord entryName record h).toV1.decoded false =
      BatchVersion.v1.returned entryName record := by
  have hlabels : csvLabels (QueryRecord.ofRecord entryName record h).toV1.labelFields =
      record.labels := csvLabels_formatLabels h.1.labels
  rw [RecordV1.decoded, hlabels]
  rfl

/-- The record headers of a v1 request are those of the records in order. -/
theorem recordHeaders_requestV1 {batch : Batch} {entryName : Bytes}
    (hepoch : ∀ r ∈ batch.records, r.timestamp.AfterEpoch)
    (hdistinct : (batch.records.map (·.timestamp.micros)).Nodup) (bucketPath : Bytes) :
    recordHeaders isRecordNameV1 (requestV1 bucketPath entryName batch .kWrite).headers =
      (batch.inOrder (sortRecords batch entryName false)).map (recordHeaderV1 · .kWrite) := by
  have hperm := (sortRecords_isOrder batch entryName false).inOrder_perm
  rw [requestV1_headers]
  refine (recordHeaders_emplaceAll (by simp) ?_ (by simp) ?_).2
  · exact List.forall_mem_map.2 fun r _ => isPrefixOf_append _ _
  · rw [List.map_map]
    have hdistinct' := (hperm.map (·.timestamp.micros)).nodup_iff.2 hdistinct
    refine (nodup_map_iff fun r hr r' hr' => ?_).2 hdistinct'
    simp only [Function.comp_apply, recordHeaderV1_name (hepoch r (hperm.mem_iff.1 hr)),
      recordHeaderV1_name (hepoch r' (hperm.mem_iff.1 hr'))]
    exact ⟨recordNameV1_injective, congrArg _⟩

theorem BatchVersion.Plain.decodesV1 {batch : Batch} {entryName : Bytes}
    (h : BatchVersion.v1.Plain batch entryName) {bucketPath : Bytes} {headers : Headers}
    (hrepeats : BatchVersion.v1.Repeats
      (requestV1 bucketPath entryName batch .kWrite).headers headers) :
    parseAndBuildBatchedRecordsV1 false headers =
      .ok (BatchVersion.v1.readBack batch entryName (announcesEnd headers)) := by
  obtain ⟨hone, hsize, hdigits⟩ := h.fits
  have hperm := (sortRecords_isOrder batch entryName false).inOrder_perm
  have hmem : ∀ r ∈ batch.inOrder (sortRecords batch entryName false), r ∈ batch.records :=
    fun r => hperm.mem_iff.1
  have hmicros : (batch.records.map (·.timestamp.micros)).Nodup := by
    refine (nodup_map_iff fun r hr r' hr' => ?_).2 h.distinct
    simp [recordKey, recordEntry_eq_of_one hone hr hr']
  have hwords : ∀ r ∈ batch.inOrder (sortRecords batch entryName false),
      Worded entryName r ∧ 0 < r.size :=
    fun r hr => ⟨h.worded r (hmem r hr), h.size_pos r (hmem r hr)⟩
  let queried := (batch.inOrder (sortRecords batch entryName false)).pmap
    (QueryRecord.ofRecord entryName) hwords
  have hqueried : ∀ q ∈ queried, ∃ r ∈ batch.records, q.size = r.size ∧
      q.micros = r.timestamp.micros := by
    intro q hq
    obtain ⟨r, hr, rfl⟩ := List.mem_pmap.1 hq
    exact ⟨r, hmem r hr, rfl, rfl⟩
  -- the records are announced in the order of their timestamps
  have hannounces : AnnouncesV1 headers (queried.map QueryRecord.toV1) := by
    constructor
    · refine hrepeats.trans (.of_eq ?_)
      rw [recordHeaders_requestV1 h.epoch hmicros, List.map_map, List.map_pmap,
        ← List.pmap_eq_map (H := hwords)]
      exact List.pmap_congr_left _ fun r hr _ _ => (header_ofRecord _ (h.epoch r (hmem r hr))).symm
    · have hdistinct := List.pairwise_map.1 ((hperm.map (·.timestamp.micros)).nodup_iff.2 hmicros)
      have hsorted := (sortRecords_byTime h.epoch entryName).and hdistinct
      refine List.pairwise_map.2 (hsorted.pmap hwords ?_)
      rintro r - r' - ⟨hle, hne⟩
      exact Nat.lt_of_le_of_ne hle hne
  have hwritten : BatchVersion.v1.written batch entryName =
      batch.inOrder (sortRecords batch entryName false) := rfl
  have hrecords : queried.map (fun q => q.toV1.decoded false) =
      (batch.inOrder (sortRecords batch entryName false)).map
        (BatchVersion.v1.returned entryName) := by
    rw [List.map_pmap, ← List.pmap_eq_map (H := hwords)]
    exact List.pmap_congr_left _ fun r _ _ _ => decoded_ofRecord _
  rw [BatchVersion.readBack, hwritten, ← hrecords]
  refine hannounces.decodes_toV1 ?_ ?_ false
  · intro q hq q' hq'
    obtain ⟨r, hr, -, hr'⟩ := hqueried q hq
    obtain ⟨s, hs, -, hs'⟩ := hqueried q' hq'
    rw [hr', hs']
    exact hdigits r hr s hs
  · intro q hq
    obtain ⟨r, hr, hqsize, hqmicros⟩ := hqueried q hq
    rw [hqsize, hqmicros]
    exact ⟨hsize r hr, r.timestamp.micros_lt_size⟩

/-! ## Protocol v2 -/

/-- Headers that are not of records do not matter to the decoder, but for the flag. -/
theorem parse_repeats {sent headers : Headers} (hrepeats : BatchVersion.v2.Repeats sent headers)
    (hdistinct : (headerNames sent).Nodup) (hflag : announcesEnd sent = false) (head : Bool) :
    parseAndBuildBatchedRecordsV2 head headers =
      flagLast (announcesEnd headers) <$> parseAndBuildBatchedRecordsV2 head sent := by
  obtain ⟨hperm, hcommon⟩ := hrepeats
  simp only [List.forall_mem_cons, List.not_mem_nil, false_implies, implies_true,
    and_true] at hcommon
  obtain ⟨hentries, hstart, hlabels⟩ := hcommon
  have hsort : StdSort.sort parsedHeaderLess (parsedHeaders headers) =
      StdSort.sort parsedHeaderLess (parsedHeaders sent) := by
    refine sort_eq parsedHeaderLess_swo ?_ (sort_strict hdistinct)
    rw [parsedHeaders_eq headers]
    refine (hperm.filterMap _).trans ?_
    rw [← parsedHeaders_eq]
    exact (StdSort.perm _ _).symm
  have hnot : ¬ sent.get kHeaderLast = bytes "true" := of_decide_eq_false hflag
  unfold parsedHeaders at hsort
  simp only [parseAndBuildBatchedRecordsV2, hentries, hstart, hlabels, hsort, hnot, if_false]
  split
  · split
    · simp
    · split
      · simp
      · simp only [map_bind, map_pure, flagLast, announcesEnd, decide_eq_true_eq]
  · simp

/-- The names of the record headers of a request are distinct, and it carries no flag. -/
theorem headerNames_requestV2 {batch : Batch} {entryName : Bytes} {requireEntry : Bool}
    {built : BatchV2Request} (hepoch : ∀ r ∈ batch.records, r.timestamp.AfterEpoch)
    (hdistinct : DistinctKeys batch entryName)
    (hbuilt : buildBatchV2Request entryName batch .kWrite requireEntry = .ok built) :
    (headerNames built.headers).Nodup ∧ announcesEnd built.headers = false := by
  rcases buildBatchV2Request_cases entryName batch .kWrite requireEntry with
    ⟨-, -, heq⟩ | ⟨-, -, heq⟩ | ⟨-, -, -, st, hindexed, heq⟩
  · cases heq.symm.trans hbuilt
    exact ⟨List.nodup_nil, rfl⟩
  · cases heq.symm.trans hbuilt
  · cases heq.symm.trans hbuilt
    have horder := sortRecords_isOrder batch entryName true
    have hkeys := (horder.inOrder_perm.map (recordKey entryName)).nodup_iff.2 hdistinct
    have hsame : (requestHeadersV2 entryName .kWrite st
        (batch.inOrder (sortRecords batch entryName true))).Same _ := List.Perm.refl _
    have hsorted := sortRecords_byEntry hepoch entryName
    constructor
    · have hsort := hindexed.sort_parsedHeaders horder.inOrder_lt hsorted hkeys hsame
      rw [headerNames, ← ((StdSort.perm parsedHeaderLess _).map _).nodup_iff, hsort, List.map_map]
      refine List.pairwise_map.2 ((hindexed.name_sorted hsorted hkeys).imp ?_)
      rintro r r' (hlt | ⟨-, hlt⟩) heq
      · exact hlt.ne (congrArg Prod.fst heq)
      · exact hlt.ne (congrArg Prod.snd heq)
    · rw [announcesEnd, Headers.get, hindexed.find_none horder.inOrder_lt hkeys hsame (by decide)
        (by decide)]
      decide

theorem BatchVersion.Plain.decodesV2 {batch : Batch} {entryName : Bytes}
    (h : BatchVersion.v2.Plain batch entryName) {requireEntry : Bool} {built : BatchV2Request}
    (hbuilt : buildBatchV2Request entryName batch .kWrite requireEntry = .ok built)
    {headers : Headers} (hrepeats : BatchVersion.v2.Repeats built.headers headers) :
    parseAndBuildBatchedRecordsV2 false headers =
      .ok (BatchVersion.v2.readBack batch entryName (announcesEnd headers)) := by
  obtain ⟨built', hbuilt', hordered, hparse⟩ :=
    exists_decoded_words h.epoch h.worded h.distinct requireEntry
  obtain rfl : built = built' := Except.ok.inj (hbuilt.symm.trans hbuilt')
  obtain ⟨hnames, hflag⟩ := headerNames_requestV2 h.epoch h.distinct hbuilt
  rw [parse_repeats hrepeats hnames hflag, hparse false _ (.refl _), hordered,
    (keepsLabels_iff h.epoch h.distinct false).1 h.fits]
  rfl

/-! ## Reading the batch -/

omit [StdSort] in
theorem records_zipWith {records : List ReadableRecord} {pieces : List (List Bytes)}
    (h : pieces.length = records.length) :
    (List.zipWith visitOf records pieces).map Visit.record = records := by
  rw [List.map_zipWith]
  induction records generalizing pieces with
  | nil => obtain rfl := List.length_eq_zero_iff.1 h; rfl
  | cons record records ih =>
    cases pieces with
    | nil => cases h
    | cons piece pieces => simpa [visitOf] using ih (by simpa using h)

/-- A call that reads a batch through can always return. When it has, each record has received
its segment of the body. -/
theorem ReadState.returns_batch {version : BatchVersion} {headers : Headers}
    {records : List ReadableRecord} {chunks : List Bytes} {onWorker : Bool} {s : ReadState}
    (hrecords : buildRecords version.type false headers = .ok records)
    (hlength : chunks.flatten.length = (records.map ReadableRecord.size).sum)
    (hpos : ∀ r ∈ records, 0 < r.size)
    (h : Reachable ⟨version.type, false, onWorker, readThrough⟩
      (.delivered headers chunks .kOk) s) :
    (∃ t stopped, Reaches (Step ⟨version.type, false, onWorker, readThrough⟩) s t ∧
      t.caller = .returned stopped .kOk) ∧
    ∀ stopped err, s.caller = .returned stopped err → err = .kOk ∧
      s.runner.visits.map Visit.record = records ∧
      s.runner.visits.map Visit.bytes =
        (records.map ReadableRecord.size).splitLengths chunks.flatten := by
  obtain ⟨b, rfl, rfl, rfl⟩ := exists_batchResponse hrecords hlength
  let call : ReadCall := ⟨b.version.type, false, onWorker, readThrough⟩
  have hstart : b.Start (soloStart call b.records b.chunks) := by
    unfold soloStart
    split
    · exact .inr rfl
    · exact .inl rfl
  obtain ⟨d, hd, hend, hvisits, -⟩ := hstart.ends (fun _ => .full) hpos
  rw [← readThrough_eq] at hd
  constructor
  · obtain ⟨t, hrun, hreturned, -⟩ := call_completes hrecords h hd hend
    exact ⟨t, _, hrun, hreturned⟩
  · intro stopped err hret
    obtain ⟨herr, -, q, hatEnd, hrun⟩ := returned_atEnd hrecords h hret
    have hsame : (⟨s.runner, q⟩ : RunnerConfig) = d :=
      stuck_unique (Channel.step_deterministic _) hrun hatEnd.stuck hd hend.stuck
    rw [← hsame] at hvisits
    rw [hvisits, b.full_bytes]
    exact ⟨herr, records_zipWith (by simp [length_serve, BatchResponse.sizes]), rfl⟩

/-! ## The round trip -/

section RoundTrip

variable {version : BatchVersion} {batch : Batch} {entryName : Bytes}

omit [StdSort] in
/-- The flag leaves the sizes as they are. -/
theorem map_size_flagLast (flag : Bool) {records : List ReadableRecord}
    (h : ∀ r ∈ records, r.last = false) :
    (flagLast flag records).map ReadableRecord.size = records.map ReadableRecord.size := by
  rcases List.eq_nil_or_concat' records with rfl | ⟨init, last, rfl⟩
  · simp
  · rw [flagLast_concat flag init (h last (by simp)), List.map_append, List.map_append]
    rfl

/-- The responses that repeat a write request are decoded to the records. -/
theorem BatchVersion.Plain.decodes (h : version.Plain batch entryName) {request : HttpRequest}
    (hwrites : version.Writes batch entryName request) {headers : Headers}
    (hrepeats : version.Repeats request.headers headers) :
    buildRecords version.type false headers =
      .ok (version.readBack batch entryName (announcesEnd headers)) := by
  cases version with
  | v1 =>
    obtain ⟨bucketPath, rfl⟩ := hwrites
    exact h.decodesV1 hrepeats
  | v2 =>
    obtain ⟨ioPath, requireEntry, built, hbuilt, rfl⟩ := hwrites
    exact h.decodesV2 hbuilt hrepeats

theorem BatchVersion.order_isOrder (version : BatchVersion) (batch : Batch) (entryName : Bytes) :
    batch.IsOrder (version.order batch entryName) :=
  sortRecords_isOrder batch entryName _

/-- A write request posts the data of the records in their order. -/
theorem BatchVersion.Plain.posts (h : version.Plain batch entryName) {request : HttpRequest}
    (hwrites : version.Writes batch entryName request) :
    ∃ path mime, request = .post path mime batch.size request.headers
      (batchProvider batch (version.order batch entryName)) := by
  cases version with
  | v1 =>
    obtain ⟨bucketPath, rfl⟩ := hwrites
    exact ⟨_, _, rfl⟩
  | v2 =>
    obtain ⟨ioPath, requireEntry, built, hbuilt, rfl⟩ := hwrites
    obtain ⟨built', hbuilt', hordered, -⟩ :=
      exists_decoded_words h.epoch h.worded h.distinct requireEntry
    obtain rfl : built = built' := Except.ok.inj (hbuilt.symm.trans hbuilt')
    have horder : BatchVersion.v2.order batch entryName = built.ordered := hordered.symm
    rw [horder]
    exact ⟨_, _, rfl⟩

/-- The sizes of the records are the lengths of their data. -/
theorem map_size_written (version : BatchVersion) (batch : Batch) (entryName : Bytes) :
    (version.written batch entryName).map Record.size =
      ((version.order batch entryName).map batch.dataAt).map List.length := by
  rw [BatchVersion.written, Batch.inOrder, List.map_map, List.map_map]
  exact List.map_congr_left fun idx hidx => (version.order_isOrder batch entryName).size_eq hidx

theorem map_size_readBack (version : BatchVersion) (batch : Batch) (entryName : Bytes)
    (flag : Bool) : (version.readBack batch entryName flag).map ReadableRecord.size =
      (version.written batch entryName).map Record.size := by
  rw [BatchVersion.readBack, map_size_flagLast flag (List.forall_mem_map.2 fun r _ => rfl),
    List.map_map]
  rfl

/-- The response returns a batch that was written: the headers of the request and the body that
was uploaded, whatever chunks it is sent and returned in. -/
structure BatchVersion.SentBack (version : BatchVersion) (entryName : Bytes) (batch : Batch)
    (headers : Headers) (chunks : List Bytes) : Prop where
  plain : version.Plain batch entryName
  written : ∃ path mime contentLength sent callback connection u,
    version.Writes batch entryName (.post path mime contentLength sent callback) ∧
      Upload.Reachable ⟨⟨contentLength, callback⟩, connection⟩ u ∧ u.phase = .sent ∧
      version.Repeats sent headers ∧ chunks.flatten = u.body

/-- Its records are those of the batch, in the order of the request. -/
theorem BatchVersion.SentBack.decodes {headers : Headers} {chunks : List Bytes}
    (h : version.SentBack entryName batch headers chunks) :
    buildRecords version.type false headers =
      .ok (version.readBack batch entryName (announcesEnd headers)) := by
  obtain ⟨_, _, _, _, _, _, _, hwrites, -, -, hrepeats, -⟩ := h.written
  exact h.plain.decodes hwrites hrepeats

/-- Its body is their data. -/
theorem BatchVersion.SentBack.body {headers : Headers} {chunks : List Bytes}
    (h : version.SentBack entryName batch headers chunks) :
    chunks.flatten = ((version.order batch entryName).map batch.dataAt).flatten := by
  obtain ⟨_, _, _, _, _, _, _, hwrites, hupload, hsent, -, hbody⟩ := h.written
  obtain ⟨_, _, hpost⟩ := h.plain.posts hwrites
  cases hpost
  have hserves := serves_batchProvider h.plain.total_lt (version.order_isOrder batch entryName)
  rcases Upload.ended_of_serves hserves hupload (by simp [hsent]) with
    ⟨-, hdata⟩ | ⟨hfailed, -⟩
  · exact hbody.trans hdata
  · cases hsent.symm.trans hfailed

/-- The records with their data. -/
def BatchVersion.contents (version : BatchVersion) (entryName : Bytes) (batch : Batch)
    (headers : Headers) : List (ReadableRecord × Bytes) :=
  (version.readBack batch entryName (announcesEnd headers)).zip
    ((version.written batch entryName).map batch.data)

/-- What a call of the callback was about. -/
def Visit.content (v : Visit) : ReadableRecord × Bytes := (v.record, v.bytes)

/-- A read of the batch can always return. When it has, it has returned no error, and the
callback has been called with each record and has got its data. -/
theorem BatchVersion.SentBack.returnsWritten {headers : Headers} {chunks : List Bytes}
    (h : version.SentBack entryName batch headers chunks) {onWorker : Bool} {s : ReadState}
    (hread : ReadState.Reachable ⟨version.type, false, onWorker, readThrough⟩
      (.delivered headers chunks .kOk) s) :
    (∃ t stopped, Reaches (ReadState.Step ⟨version.type, false, onWorker, readThrough⟩) s t ∧
      t.caller = .returned stopped .kOk) ∧
    ∀ stopped err, s.caller = .returned stopped err → err = .kOk ∧
      s.runner.visits.map Visit.content = version.contents entryName batch headers := by
  have horder := version.order_isOrder batch entryName
  have hsizes := map_size_readBack version batch entryName (announcesEnd headers)
  have hlengths := map_size_written version batch entryName
  have hpos : ∀ r ∈ version.readBack batch entryName (announcesEnd headers), 0 < r.size := by
    intro r hr
    have hsize : r.size ∈ (version.written batch entryName).map Record.size :=
      hsizes ▸ List.mem_map_of_mem hr
    obtain ⟨r', hr', heq⟩ := List.mem_map.1 hsize
    exact heq ▸ h.plain.size_pos r' (horder.inOrder_perm.mem_iff.1 hr')
  obtain ⟨hcompletes, hreturned⟩ := ReadState.returns_batch h.decodes
    (by rw [h.body, hsizes, hlengths, List.length_flatten]) hpos hread
  refine ⟨hcompletes, fun stopped err hret => ?_⟩
  obtain ⟨herr, hrecords, hbytes⟩ := hreturned stopped err hret
  refine ⟨herr, ?_⟩
  have hdata : (version.order batch entryName).map batch.dataAt =
      (version.written batch entryName).map batch.data := by
    rw [BatchVersion.written, Batch.inOrder, List.map_map]
    exact List.map_congr_left fun idx hidx => batch.dataAt_eq (horder.lt hidx)
  rw [hsizes, hlengths, h.body, Chunks.splitLengths_flatten, hdata] at hbytes
  rw [BatchVersion.contents, ← hrecords, ← hbytes, List.zip_map', List.map_congr_left]
  exact fun _ _ => rfl

end RoundTrip

/-! ## Queries for what was written -/

namespace Query

/-- A query that reads every record through. -/
abbrev readQuery (version : BatchVersion) (continuous onWorker : Bool) : Query :=
  batchQuery version false continuous onWorker readThrough

variable {version : BatchVersion} {continuous onWorker : Bool} {entryName : Bytes}
  {answers : (readQuery version continuous onWorker).Answers} {batches : Nat → Batch}

/-- The responses with records return the batches. -/
def ReturnsBatches (answers : (readQuery version continuous onWorker).Answers) (entryName : Bytes)
    (batches : Nat → Batch) : Prop :=
  ∀ i headers chunks records decodes,
    answers i = some (.batch headers chunks records decodes) →
      version.SentBack entryName (batches i) headers chunks

/-- What the response with a number has of its batch. -/
def contentsOf (answers : (readQuery version continuous onWorker).Answers) (entryName : Bytes)
    (batches : Nat → Batch) (i : Nat) : List (ReadableRecord × Bytes) :=
  match answers i with
  | some (.batch headers _ _ _) => version.contents entryName (batches i) headers
  | _ => []

/-- The query has handed over everything of the responses that it has gone past. -/
def HandedOver (answers : (readQuery version continuous onWorker).Answers) (entryName : Bytes)
    (batches : Nat → Batch) (n : Nat) (past : List Visit) : Prop :=
  past.map Visit.content = (List.range n).flatMap (contentsOf answers entryName batches)

/-- The invariant of the loop: the responses that it has gone past are handed over, and the one
it reads is the next. -/
def HandsOver (answers : (readQuery version continuous onWorker).Answers) (entryName : Bytes)
    (batches : Nat → Batch) (s : QueryState) : Prop :=
  HandedOver answers entryName batches s.round s.past ∧
    ∀ r, s.phase = .reading r → ∃ a, answers s.round = some a ∧
      ReadState.Reachable ((readQuery version continuous onWorker).readCall s.past) a.transfer r

theorem handedOver_succ {n : Nat} {past visits : List Visit}
    (h : HandedOver answers entryName batches n past)
    (hvisits : visits.map Visit.content = contentsOf answers entryName batches n) :
    HandedOver answers entryName batches (n + 1) (past ++ visits) := by
  rw [HandedOver, List.map_append, h, hvisits, List.range_succ, List.flatMap_append]
  simp

/-- The loop leaves a response. -/
theorem handedOver_leave (hreturns : ReturnsBatches answers entryName batches) {round : Nat}
    {past : List Visit} {r : ReadState} {stopped : Bool} {err : Error}
    (h : HandsOver answers entryName batches ⟨round, past, .reading r⟩)
    (hret : r.caller = .returned stopped err) :
    HandedOver answers entryName batches (round + 1) (past ++ r.runner.visits) := by
  obtain ⟨hpast, hreading⟩ := h
  obtain ⟨a, ha, hreach⟩ := hreading r rfl
  refine handedOver_succ hpast ?_
  cases a with
  | batch headers chunks records decodes =>
    have hbatch := hreturns round headers chunks records decodes ha
    rw [contentsOf, ha]
    exact ((hbatch.returnsWritten hreach).2 stopped err hret).2
  | error e he =>
    rw [contentsOf, ha, (ReadState.reachable_refused hreach).1]
    rfl

theorem handsOver_step (hreturns : ReturnsBatches answers entryName batches) (s t : QueryState)
    (h : HandsOver answers entryName batches s)
    (hstep : (readQuery version continuous onWorker).Step answers s t) :
    HandsOver answers entryName batches t := by
  cases hstep with
  | @ask round past a ha =>
    refine ⟨h.1, fun r hr => ⟨a, ha, ?_⟩⟩
    cases hr
    exact .refl
  | @read round past r r' hmove =>
    obtain ⟨a, ha, hreach⟩ := h.2 r rfl
    refine ⟨h.1, fun r'' hr => ⟨a, ha, ?_⟩⟩
    cases hr
    exact hreach.tail hmove
  | @leave round past r stopped err hret =>
    refine ⟨handedOver_leave hreturns h hret, fun r' hr => ?_⟩
    unfold afterRead at hr
    dsimp only at hr
    split_ifs at hr
  | wake => exact ⟨h.1, fun r hr => by cases hr⟩

/-- What a query makes of batches that were written. -/
structure BatchesReadBack (answers : (readQuery version continuous onWorker).Answers)
    (entryName : Bytes) (batches : Nat → Batch) (s : QueryState) : Prop where
  /-- The callback has been called with each record of each response that the query has gone
  past, in order, and has got its data. -/
  past : HandedOver answers entryName batches s.round s.past
  /-- It can go past a response with records. -/
  completes : ∀ r headers chunks records decodes, s.phase = .reading r →
    answers s.round = some (.batch headers chunks records decodes) →
      ∃ past phase, Reaches ((readQuery version continuous onWorker).Step answers) s
        ⟨s.round + 1, past, phase⟩
  /-- The records are those of the batches, each once. -/
  once : ∀ i, (version.written (batches i) entryName).Perm (batches i).records

/-- What was written in batches comes back as it was written, over both protocols: whatever
chunks it is sent and returned in, whatever errors come between the responses, and in every
interleaving of the threads. -/
theorem readsBatchesBack (hreturns : ReturnsBatches answers entryName batches) (s : QueryState)
    (h : (readQuery version continuous onWorker).Reachable answers s) :
    BatchesReadBack answers entryName batches s := by
  have hinv : HandsOver answers entryName batches s :=
    invariant _ (handsOver_step hreturns) h ⟨rfl, fun r hr => by cases hr⟩
  refine ⟨hinv.1, ?_, fun i => (version.order_isOrder (batches i) entryName).inOrder_perm⟩
  intro r headers chunks records decodes hphase ha
  obtain ⟨round, past, phase⟩ := s
  cases hphase
  obtain ⟨a, ha', hreach⟩ := hinv.2 r rfl
  cases ha.symm.trans ha'
  have hbatch := hreturns round headers chunks records decodes ha
  obtain ⟨⟨t, stopped, hrun, hret⟩, -⟩ := hbatch.returnsWritten hreach
  have hread := @read_reaches _ (readQuery version continuous onWorker) answers round past _ _ hrun
  exact ⟨_, _, hread.tail (.leave hret)⟩

/-- Two records of an entry in a response with other headers. -/
def twoRecordsResponse : Headers where
  toList := [(bytes "content-type", bytes "application/octet-stream"),
    (bytes "x-reduct-time-2", bytes "1,t,"), (bytes "x-reduct-last", bytes "true"),
    (bytes "x-reduct-time-1", bytes "2,t,")]
  nodup := by decide

omit [StdSort] in
theorem twoRecords_worded : ∀ r ∈ twoRecords.records, Worded (bytes "e") r := by
  have hempty : WordLabels ∅ := by simp [WordLabels]
  have hentry : IsWord (bytes "e") := by decide
  have htype : IsWord (bytes "t") := by decide
  simp only [twoRecords, List.forall_mem_cons, List.not_mem_nil, false_implies, implies_true,
    and_true]
  exact ⟨⟨hentry, htype, hempty⟩, ⟨hentry, htype, hempty⟩⟩

omit [StdSort] in
/-- The response returns them, with a chunk for each byte. -/
theorem twoRecords_returned : @BatchVersion.SentBack .insertion .v1 (bytes "e") twoRecords
    twoRecordsResponse [bytes "b", bytes "c", bytes "a"] := by
  refine @BatchVersion.SentBack.mk .insertion .v1 _ _ _ _ ?_ ?_
  · exact ⟨by decide, twoRecords_worded, by decide, twoRecords_total, by unfold DistinctKeys; decide,
      by unfold SeveralEntries; decide, by decide, by decide⟩
  · exact ⟨bytes "/e/batch", bytes "application/octet-stream", 3,
      (@requestV1 .insertion [] (bytes "e") twoRecords .kWrite).headers,
      batchProvider twoRecords [1, 0], ⟨fun _ => true, [], []⟩,
      { body := bytes "bca", calls := [⟨0, 3⟩], phase := .sent }, ⟨[], by rfl⟩,
      .tail (.tail .refl rfl) rfl, rfl, by unfold BatchVersion.Repeats; decide +kernel, rfl⟩

/-- The answer of the server. -/
def twoRecordsAnswer : @Answer .insertion .batchedV1 false :=
  @Answer.batch .insertion .batchedV1 false twoRecordsResponse [bytes "b", bytes "c", bytes "a"] _
    (@BatchVersion.SentBack.decodes .insertion _ _ _ _ _ twoRecords_returned)

omit [StdSort] in
/-- A query that begins to read such a response, however many of them follow. -/
theorem readsBatchesBack_twoRecords :
    @BatchesReadBack .insertion .v1 false true (fun _ => some twoRecordsAnswer) (bytes "e")
      (fun _ => twoRecords)
      ⟨0, [], .reading (.initial (@Answer.transfer .insertion _ _ twoRecordsAnswer))⟩ := by
  refine @readsBatchesBack .insertion .v1 false true (bytes "e") _ (fun _ => twoRecords) ?_ _
    (.tail .refl (@Step.ask .insertion _ _ _ _ _ rfl))
  intro i headers chunks records decodes ha
  unfold twoRecordsAnswer at ha
  cases ha
  exact twoRecords_returned

end Query

end Reduct
