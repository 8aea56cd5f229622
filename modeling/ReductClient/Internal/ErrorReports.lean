-- SUMMARY: Per-record errors reach their records over both protocols, and when the single-entry call keeps all of them.
import ReductClient.Internal.BatchErrors
import ReductClient.Internal.RecordLoss

open Cxx Fallible

namespace Reduct

variable [StdSort]

/-! ## Calls that send their request -/

theorem processBatchV1_result {server : HttpServer} {bucketPath entryName : Bytes} {batch : Batch}
    {type : BatchType} (hone : ¬ SeveralEntries batch entryName)
    (hok : (server (requestV1 bucketPath entryName batch type)).error = .kOk) :
    (processBatchV1 server bucketPath entryName batch type).result =
      (server (requestV1 bucketPath entryName batch type)).result.2.toList.foldlM errorHeaderV1 ∅ >>=
        fun errors => pure ⟨errors, .kOk⟩ := by
  rw [processBatchV1, if_neg (mt (uniqueEntries_iff ..).1 hone)]
  simp [hok]

omit [StdSort] in
theorem processRequestV2_result {α : Type} {server : HttpServer} {ioPath : Bytes} {batch : Batch}
    {type : BatchType} {request : BatchV2Request} {nothing : α}
    {decode : BatchV2Request → Headers → Except Fault α} (hordered : request.ordered ≠ [])
    (hok : (server (requestV2 ioPath type batch request)).error = .kOk) :
    (processRequestV2 server ioPath batch type (.ok request) nothing decode).result =
      decode request (server (requestV2 ioPath type batch request)).result.2 >>=
        fun errors => pure ⟨errors, .kOk⟩ := by
  simp [processRequestV2, hordered, hok]

/-- The server answers the v2 request of a batch, if there is one, with an error
header for each failed record. -/
def AnswersV2 (server : HttpServer) (ioPath defaultEntry : Bytes) (batch : Batch) (type : BatchType)
    (requireEntry : Bool) (failure : Record → Option Error) : Prop :=
  ∀ request, buildBatchV2Request defaultEntry batch type requireEntry = .ok request →
    request.ordered ≠ [] →
    ReportsErrors (server (requestV2 ioPath type batch request)) (request.errorName defaultEntry)
      (batch.failed failure)

/-- Where the answer is the same for all requests, it need only fit the entries
and the start timestamp of the one that is built. -/
theorem answersV2_of_built {answer : Result (Bytes × Headers)} {ioPath defaultEntry : Bytes}
    {batch : Batch} {type : BatchType} {requireEntry : Bool} {failure : Record → Option Error}
    {entries : List Bytes} {startTs : Nat}
    (hbuilt : (buildBatchV2Request defaultEntry batch type requireEntry).map
      (fun request => (request.entries, request.startTs)) = .ok (entries, startTs))
    (hreports : ReportsErrors answer
      (BatchV2Request.errorName ⟨[], entries, startTs, .empty⟩ defaultEntry) (batch.failed failure)) :
    AnswersV2 (fun _ => answer) ioPath defaultEntry batch type requireEntry failure := by
  intro request hrequest _
  rw [hrequest] at hbuilt
  cases hbuilt
  exact hreports

section Failures

variable {batch : Batch} {failure : Record → Option Error} {defaultEntry : Bytes}

omit [StdSort] in
/-- The failed records are told apart as all records are. -/
theorem nodup_failed (hdistinct : DistinctKeys batch defaultEntry) :
    ((batch.failed failure).map fun f => recordKey defaultEntry f.1).Nodup := by
  have hsub := (batch.failed_sublist failure).map (recordKey defaultEntry)
  rw [List.map_map] at hsub
  exact List.Nodup.sublist hsub hdistinct

omit [StdSort] in
theorem statuses_failed (hstatus : IntStatuses batch failure) {f : Record × Error}
    (hf : f ∈ batch.failed failure) : -2 ^ 31 ≤ f.2.code ∧ f.2.code < 2 ^ 31 := by
  obtain ⟨hr, he⟩ := Batch.mem_failed.1 hf
  exact hstatus f.1 hr f.2 he

/-! ## One map for all entries -/

/-- `ProcessBatchV2` collects the errors by the times of their records. -/
theorem processBatchV2_result {server : HttpServer} {ioPath : Bytes} {type : BatchType}
    (hstatus : IntStatuses batch failure)
    (hanswers : AnswersV2 server ioPath defaultEntry batch type false failure) :
    ∃ failed' : List (Record × Error), failed'.Perm (batch.failed failure) ∧
      (processBatchV2 server ioPath defaultEntry batch type).result =
        .ok ⟨(∅ : BatchErrors).emplaceAll (failed'.map fun f =>
          (timeFromMicroseconds f.1.timestamp.micros, f.2)), .kOk⟩ := by
  rcases buildBatchV2Request_cases defaultEntry batch type false with
    ⟨hnil, -, hbuilt⟩ | ⟨-, ⟨⟨⟩, -⟩, -⟩ | ⟨-, hordered, -, st, hindexed, hbuilt⟩
  · refine ⟨[], by simp [Batch.failed, hnil], ?_⟩
    rw [processBatchV2, hbuilt]
    rfl
  · have hreports := hanswers _ hbuilt hordered
    have horder := sortRecords_isOrder batch defaultEntry true
    obtain ⟨failed', hperm', hfold⟩ := hreports.foldlM_eq
      (fun errors header hname => errorHeaderV2_skip hname st.startTs errors)
      (fun errors f hf => hindexed.errorHeaderV2_errorName horder.inOrder_lt rfl rfl
        (horder.inOrder_perm.mem_iff.2 (Batch.mem_failed.1 hf).1) (statuses_failed hstatus hf) errors) ∅
    refine ⟨failed', hperm', ?_⟩
    rw [processBatchV2, hbuilt, processRequestV2_result hordered hreports.ok, hfold,
      OrderedMap.emplaceAll, List.foldl_map]
    rfl

/-- The call returns as many errors as records failed. -/
def ReturnsAllErrors (outcome : Outcome BatchErrors) (failed : List (Record × Error)) : Prop :=
  ∃ errors, outcome.result = .ok ⟨errors, .kOk⟩ ∧ errors.size = failed.length

omit [StdSort] in
theorem size_errors_eq_iff {failed failed' : List (Record × Error)} (h : failed'.Perm failed) :
    ((∅ : BatchErrors).emplaceAll (failed'.map fun f =>
        (timeFromMicroseconds f.1.timestamp.micros, f.2))).size = failed.length ↔
      (failed.map fun f => f.1.timestamp.micros).Nodup := by
  have hlength : failed.length = (failed'.map fun f =>
      timeFromMicroseconds f.1.timestamp.micros).length := by simp [h.length_eq]
  rw [OrderedMap.size_emplaceAll, List.map_map, hlength]
  refine length_dedup_eq_iff.trans ?_
  rw [← (h.map fun f => f.1.timestamp.micros).nodup_iff]
  exact nodup_map_iff fun f _ f' _ => timeFromMicroseconds_inj

theorem ReturnsAllErrors.nodup_times {entryName : Bytes} {server : HttpServer} {ioPath : Bytes}
    {type : BatchType} (hstatus : IntStatuses batch failure)
    (hanswers : AnswersV2 server ioPath entryName batch type false failure)
    (h : ReturnsAllErrors (processBatchV2 server ioPath entryName batch type) (batch.failed failure)) :
    ((batch.failed failure).map fun f => f.1.timestamp.micros).Nodup := by
  obtain ⟨failed', hperm, hresult⟩ := processBatchV2_result hstatus hanswers
  obtain ⟨errors, herrors, hsize⟩ := h
  rw [hresult] at herrors
  cases herrors
  exact (size_errors_eq_iff hperm).1 hsize

/-- The single-entry call over v2 keeps the errors of all failed records if and
only if no two of them have the same microseconds. -/
theorem returnsAllErrors_iff {entryName : Bytes} (hstatus : IntStatuses batch failure)
    {server : HttpServer} {ioPath : Bytes} {type : BatchType}
    (hanswers : AnswersV2 server ioPath entryName batch type false failure) :
    ReturnsAllErrors (processBatchV2 server ioPath entryName batch type) (batch.failed failure) ↔
      ((batch.failed failure).map fun f => f.1.timestamp.micros).Nodup := by
  constructor
  · exact ReturnsAllErrors.nodup_times hstatus hanswers
  · intro hnodup
    obtain ⟨failed', hperm, hresult⟩ := processBatchV2_result hstatus hanswers
    exact ⟨_, hresult, (size_errors_eq_iff hperm).2 hnodup⟩

end Failures

/-- Two records of different entries with the same time, for an update. -/
def sameTime : Batch where
  records := [⟨bytes "a", .wrap 1000, 0, [], ∅, none⟩, ⟨bytes "b", .wrap 1000, 0, [], ∅, none⟩]
  body := []
  size := 0
  records_lt := by decide
  dataIndex_eq := rfl
  record_size := by simp
  size_eq := Batch.size_nil

/-- Both records are not found. -/
def bothMissing : Headers where
  toList := [(bytes "x-reduct-error-0-0", bytes "404,a, missing"),
    (bytes "x-reduct-error-1-0", bytes "404,b")]
  nodup := by decide

/-- The error of a record of `sameTime`. -/
def missing (record : Record) : Option Error :=
  if record.entry = bytes "a" then some ⟨404, bytes "a, missing"⟩ else some ⟨404, bytes "b"⟩

omit [StdSort] in
theorem sameTime_statuses : IntStatuses sameTime missing := by
  intro r _ e he
  unfold missing at he
  split at he <;> cases he <;> decide

omit [StdSort] in
theorem sameTime_answers (requireEntry : Bool) :
    @AnswersV2 .insertion (fun _ => ⟨([], bothMissing), .kOk⟩) [] [] sameTime .kUpdate requireEntry
      missing := by
  refine @answersV2_of_built .insertion _ _ _ _ _ _ _ [bytes "a", bytes "b"] 1 ?_ ⟨rfl, by decide⟩
  cases requireEntry <;> rfl

omit [StdSort] in
theorem returnsAllErrors_sample :
    @ReturnsAllErrors (@processBatchV2 .insertion (fun _ => ⟨([], bothMissing), .kOk⟩) [] []
        sameTime .kUpdate) (sameTime.failed missing) ↔
      ((sameTime.failed missing).map fun f => f.1.timestamp.micros).Nodup :=
  @returnsAllErrors_iff .insertion _ _ _ sameTime_statuses _ _ _ (sameTime_answers false)

omit [StdSort] in
/-- One of the two errors is dropped. -/
theorem returnsAllErrors_broken : DistinctKeys sameTime [] ∧ IntStatuses sameTime missing ∧
    @AnswersV2 .insertion (fun _ => ⟨([], bothMissing), .kOk⟩) [] [] sameTime .kUpdate false missing ∧
    ¬ @ReturnsAllErrors (@processBatchV2 .insertion (fun _ => ⟨([], bothMissing), .kOk⟩) [] []
      sameTime .kUpdate) (sameTime.failed missing) := by
  refine ⟨by unfold DistinctKeys; decide, sameTime_statuses, sameTime_answers false, ?_⟩
  intro h
  have hnodup := @ReturnsAllErrors.nodup_times .insertion _ _ _ _ _ _ sameTime_statuses
    (sameTime_answers false) h
  exact absurd hnodup (by decide)

/-! ## A map for each entry -/

/-- All records name an entry and are not before the epoch, no two share their
entry and their microseconds, and the statuses of the errors are values of an
`int`. -/
structure Reportable (batch : Batch) (failure : Record → Option Error) : Prop where
  entry : ∀ r ∈ batch.records, r.entry ≠ []
  epoch : ∀ r ∈ batch.records, r.timestamp.AfterEpoch
  distinct : (batch.records.map fun r => (r.entry, r.timestamp.micros)).Nodup
  status : IntStatuses batch failure

section Reportable

variable {batch : Batch} {failure : Record → Option Error}

omit [StdSort] in
/-- The default entry does not matter to records that name an entry. -/
theorem Reportable.recordEntry_eq (h : Reportable batch failure) (entryName : Bytes) {r : Record}
    (hr : r ∈ batch.records) : recordEntry r entryName = r.entry := if_neg (h.entry r hr)

omit [StdSort] in
theorem Reportable.distinctKeys (h : Reportable batch failure) (entryName : Bytes) :
    DistinctKeys batch entryName := by
  have hkeys : batch.records.map (recordKey entryName) =
      batch.records.map fun r => (r.entry, r.timestamp.micros) :=
    List.map_congr_left fun r hr => by rw [recordKey, h.recordEntry_eq entryName hr]
  rw [DistinctKeys, hkeys]
  exact h.distinct

omit [StdSort] in
/-- The time the decoders give a record is its time in microseconds. -/
theorem Reportable.time_eq_iff (h : Reportable batch failure) {r : Record} (hr : r ∈ batch.records)
    (time : Time) :
    time = timeFromMicroseconds r.timestamp.micros ↔ time.ns = r.timestamp.micros * 1000 := by
  have hns := timeFromMicroseconds_micros r.timestamp
  rw [Time.toMicroseconds_eq (h.epoch r hr)] at hns
  rw [← hns]
  exact ⟨congrArg Time.ns, Time.ext⟩

omit [StdSort] in
theorem Reportable.mem_failed_iff (h : Reportable batch failure) {p : Record → Prop} {time : Time}
    {error : Error} :
    (∃ f ∈ batch.failed failure, p f.1 ∧ timeFromMicroseconds f.1.timestamp.micros = time ∧
        f.2 = error) ↔
      ∃ r ∈ batch.records, failure r = some error ∧ p r ∧ time.ns = r.timestamp.micros * 1000 := by
  constructor
  · rintro ⟨⟨r, e⟩, hf, hp, rfl, rfl⟩
    obtain ⟨hr, he⟩ := Batch.mem_failed.1 hf
    exact ⟨r, hr, he, hp, (h.time_eq_iff hr _).1 rfl⟩
  · rintro ⟨r, hr, he, hp, hns⟩
    exact ⟨(r, error), Batch.mem_failed.2 ⟨hr, he⟩, hp, ((h.time_eq_iff hr time).2 hns).symm, rfl⟩

/-- The answer lists no entries and no start timestamp. -/
def OmitsEntries (server : HttpServer) (ioPath : Bytes) (batch : Batch) (type : BatchType) : Prop :=
  ∀ request, buildBatchV2Request [] batch type true = .ok request → request.ordered ≠ [] →
    let headers := (server (requestV2 ioPath type batch request)).result.2
    headers.find? kHeaderEntries = none ∧ headers.find? kHeaderStartTs = none

/-- `ProcessBatchV2Records` collects the errors by the entries and the times of
their records. -/
theorem Reportable.processBatchV2Records_result (h : Reportable batch failure)
    {server : HttpServer} {ioPath : Bytes} {type : BatchType}
    (hanswers : AnswersV2 server ioPath [] batch type true failure)
    (hnames : OmitsEntries server ioPath batch type) :
    ∃ failed' : List (Record × Error), failed'.Perm (batch.failed failure) ∧
      (processBatchV2Records server ioPath batch type).result =
        .ok ⟨(failed'.map fun f => ((f.1.entry, timeFromMicroseconds f.1.timestamp.micros), f.2)).foldl
          (fun errors f => addRecordError errors f.1.1 f.1.2 f.2) ∅, .kOk⟩ := by
  rcases buildBatchV2Request_cases [] batch type true with
    ⟨hnil, -, hbuilt⟩ | ⟨-, ⟨-, r, hr, hentry⟩, -⟩ | ⟨-, hordered, -, st, hindexed, hbuilt⟩
  · refine ⟨[], by simp [Batch.failed, hnil], ?_⟩
    rw [processBatchV2Records, hbuilt]
    rfl
  · rw [h.recordEntry_eq [] hr] at hentry
    exact absurd hentry (h.entry r hr)
  · have hreports := hanswers _ hbuilt hordered
    obtain ⟨hentries, hstart⟩ := hnames _ hbuilt hordered
    have horder := sortRecords_isOrder batch [] true
    obtain ⟨failed', hperm', hfold⟩ := hreports.foldlM_eq
      (fun errors header hname => recordErrorHeaderV2_skip hname st.entries st.startTs errors)
      (fun errors f hf => hindexed.recordErrorHeaderV2_errorName horder.inOrder_lt rfl rfl
        (horder.inOrder_perm.mem_iff.2 (Batch.mem_failed.1 hf).1) (statuses_failed h.status hf) errors) ∅
    refine ⟨failed', hperm', ?_⟩
    simp only [recordEntry_nil] at hfold
    rw [processBatchV2Records, hbuilt, processRequestV2_result hordered hreports.ok]
    simp only [errorEntries, errorStartTs, hentries, hstart, Option.map_none, Option.getD_none,
      if_true]
    rw [hfold, List.foldl_map]
    rfl

/-- `ProcessBatchV1` collects the errors by the times of their records. -/
theorem Reportable.processBatchV1_errors (h : Reportable batch failure) {server : HttpServer}
    {bucketPath entryName : Bytes} {type : BatchType} (hone : ¬ SeveralEntries batch entryName)
    (hreports : ReportsErrors (server (requestV1 bucketPath entryName batch type)) errorNameV1
      (batch.failed failure)) :
    ∃ failed' : List (Record × Error), failed'.Perm (batch.failed failure) ∧
      (processBatchV1 server bucketPath entryName batch type).result =
        .ok ⟨(∅ : BatchErrors).emplaceAll (failed'.map fun f =>
          (timeFromMicroseconds f.1.timestamp.micros, f.2)), .kOk⟩ := by
  obtain ⟨failed', hperm, hfold⟩ := hreports.foldlM_eq
    (fun errors header hname => errorHeaderV1_skip hname errors)
    (fun errors f hf => errorHeaderV1_errorNameV1 errors f.1 (statuses_failed h.status hf)) ∅
  refine ⟨failed', hperm, ?_⟩
  rw [processBatchV1_result hone hreports.ok, hfold, OrderedMap.emplaceAll, List.foldl_map]
  rfl

/-- Per-record errors reach their records: each decoder returns the errors of the
failed records, by entry and time over v2 and by time over v1, and no others. -/
theorem errors_reach_records (h : Reportable batch failure) (type : BatchType) :
    (∀ server ioPath, AnswersV2 server ioPath [] batch type true failure →
      OmitsEntries server ioPath batch type → ∃ errors,
        (processBatchV2Records server ioPath batch type).result = .ok ⟨errors, .kOk⟩ ∧
        (∀ entry time error, errorOf errors entry time = some error ↔ ∃ r ∈ batch.records,
          failure r = some error ∧ r.entry = entry ∧ time.ns = r.timestamp.micros * 1000) ∧
        ∀ entry : Bytes, errors[entry]? ≠ some ∅) ∧
    ∀ server bucketPath entryName, ¬ SeveralEntries batch entryName →
      ReportsErrors (server (requestV1 bucketPath entryName batch type)) errorNameV1
        (batch.failed failure) → ∃ errors,
        (processBatchV1 server bucketPath entryName batch type).result = .ok ⟨errors, .kOk⟩ ∧
        ∀ (time : Time) error, errors[time]? = some error ↔ ∃ r ∈ batch.records,
          failure r = some error ∧ time.ns = r.timestamp.micros * 1000 := by
  constructor
  · intro server ioPath hanswers hnames
    obtain ⟨failed', hperm, hresult⟩ := h.processBatchV2Records_result hanswers hnames
    have hkeys : ((failed'.map fun f =>
        ((f.1.entry, timeFromMicroseconds f.1.timestamp.micros), f.2)).map Prod.fst).Nodup := by
      rw [List.map_map]
      refine (nodup_map_iff fun f _ f' _ => ?_).2
        ((hperm.map _).nodup_iff.2 (nodup_failed (h.distinctKeys [])))
      simp only [Function.comp_apply, recordKey, recordEntry_nil, Prod.mk.injEq,
        timeFromMicroseconds_inj]
    have hnone : ∀ key : Bytes × Time, errorOf ∅ key.1 key.2 = none := fun key => by simp [errorOf]
    refine ⟨_, hresult, ?_, foldl_addRecordError_ne_empty (by simp)⟩
    intro entry time error
    rw [errorOf_foldl hkeys (fun key _ => hnone key), hnone (entry, time),
      ← h.mem_failed_iff (p := fun r => r.entry = entry)]
    simp only [reduceCtorEq, false_or, List.mem_map, Prod.mk.injEq, hperm.mem_iff, and_assoc]
  · intro server bucketPath entryName hone hreports
    obtain ⟨failed', hperm, hresult⟩ := h.processBatchV1_errors hone hreports
    have hkeys : ((failed'.map fun f =>
        (timeFromMicroseconds f.1.timestamp.micros, f.2)).map Prod.fst).Nodup := by
      rw [List.map_map]
      refine (nodup_map_iff fun f hf f' hf' => ?_).2
        ((hperm.map _).nodup_iff.2 (nodup_failed (h.distinctKeys entryName)))
      -- the records have one entry, so their times tell them apart
      have hr := (Batch.mem_failed.1 (hperm.mem_iff.1 hf)).1
      have hr' := (Batch.mem_failed.1 (hperm.mem_iff.1 hf')).1
      have hentry := recordEntry_eq_of_one hone hr hr'
      simp only [Function.comp_apply, recordKey, hentry, Prod.mk.injEq, true_and,
        timeFromMicroseconds_inj]
    refine ⟨_, hresult, ?_⟩
    intro time error
    rw [OrderedMap.getElem?_emplaceAll hkeys (by simp)]
    have hmem := @Reportable.mem_failed_iff _ _ h (fun _ => True) time error
    simp only [true_and] at hmem
    rw [← hmem]
    simp only [Std.ExtTreeMap.getElem?_empty, reduceCtorEq, false_or, List.mem_map, Prod.mk.injEq,
      hperm.mem_iff]

end Reportable

/-- Two records of an entry, for an update. -/
def twoTimes : Batch where
  records := [⟨bytes "a", .wrap 2000, 0, [], ∅, none⟩, ⟨bytes "a", .wrap 1000, 0, [], ∅, none⟩]
  body := []
  size := 0
  records_lt := by decide
  dataIndex_eq := rfl
  record_size := by simp
  size_eq := Batch.size_nil

/-- The later of the two records fails. -/
def laterFails (record : Record) : Option Error :=
  if record.timestamp = .wrap 2000 then some ⟨409, bytes "in use, try later"⟩ else none

/-- The answer to a call that failed for one record. -/
def oneError (name : String) (h : bytes name ≠ bytes "server") : Result (Bytes × Headers) :=
  ⟨([], ⟨[(bytes "server", bytes "s"), (bytes name, bytes "409,in use, try later")],
    by simpa using h.symm⟩), .kOk⟩

omit [StdSort] in
theorem twoTimes_reportable : Reportable twoTimes laterFails where
  entry := by decide
  epoch := by decide
  distinct := by decide
  status := by
    intro r _ e he
    unfold laterFails at he
    split at he <;> cases he
    decide

omit [StdSort] in
theorem errors_reach_records_sample :
    (∃ errors, (@processBatchV2Records .insertion (fun _ => oneError "x-reduct-error-0-1" (by decide))
        [] twoTimes .kUpdate).result = .ok ⟨errors, .kOk⟩ ∧
      (∀ entry time error, errorOf errors entry time = some error ↔ ∃ r ∈ twoTimes.records,
        laterFails r = some error ∧ r.entry = entry ∧ time.ns = r.timestamp.micros * 1000) ∧
      ∀ entry : Bytes, errors[entry]? ≠ some ∅) ∧
    ∃ errors, (@processBatchV1 .insertion (fun _ => oneError "x-reduct-error-2" (by decide)) [] []
        twoTimes .kUpdate).result = .ok ⟨errors, .kOk⟩ ∧
      ∀ (time : Time) error, errors[time]? = some error ↔ ∃ r ∈ twoTimes.records,
        laterFails r = some error ∧ time.ns = r.timestamp.micros * 1000 := by
  have h := @errors_reach_records .insertion _ _ twoTimes_reportable .kUpdate
  refine ⟨h.1 _ _ ?_ ?_, h.2 _ _ _ ?_ ⟨rfl, by decide⟩⟩
  · exact @answersV2_of_built .insertion _ _ _ _ _ _ _ [bytes "a"] 1 rfl ⟨rfl, by decide⟩
  · intro _ _ _
    exact ⟨rfl, rfl⟩
  · unfold SeveralEntries
    decide

end Reduct
