-- SUMMARY: Whether an encoded batch carries all its records: headers are emplaced under their names, so records that share a resolved entry and a microsecond are lost.
import Mathlib.Data.Finset.Card
import ReductClient.Internal.RecordHeaders

open Cxx

namespace Reduct

/-! ## Requests that carry a batch -/

/-- The request has a header for each record of the batch, and the sizes a write
announces make up its body. -/
def Carries (isRecordName : Bytes → Bool) (batch : Batch) (type : BatchType)
    (request : HttpRequest) : Prop :=
  (recordHeaders isRecordName request.headers).length = batch.records.length ∧
    (type = .kWrite →
      ((recordHeaders isRecordName request.headers).map fun h => announcedSize h.2).sum =
        request.contentLength)

/-- The call returns an error and sends nothing, or sends a request that carries
the batch. -/
def KeepsRecords {α : Type} (isRecordName : Bytes → Bool) (batch : Batch) (type : BatchType)
    (outcome : Outcome α) : Prop :=
  (outcome.sent = [] ∧ ∃ result, outcome.result = .ok result ∧ result.error.isError = true) ∨
    ∃ request, outcome.sent = [request] ∧ Carries isRecordName batch type request

/-- The records resolve to more than one entry. -/
def SeveralEntries (batch : Batch) (entryName : Bytes) : Prop :=
  ∃ r ∈ batch.records, ∃ r' ∈ batch.records, recordEntry r entryName ≠ recordEntry r' entryName

/-- In a batch that is not of several entries, all records resolve to one. -/
theorem recordEntry_eq_of_one {batch : Batch} {entryName : Bytes} (h : ¬ SeveralEntries batch entryName)
    {r r' : Record} (hr : r ∈ batch.records) (hr' : r' ∈ batch.records) :
    recordEntry r entryName = recordEntry r' entryName := by
  by_contra hne
  exact h ⟨r, hr, r', hr', hne⟩

/-- No two records share their resolved entry and their microseconds. -/
def DistinctKeys (batch : Batch) (entryName : Bytes) : Prop :=
  (batch.records.map (recordKey entryName)).Nodup

/-- The data of a write is shorter than `2 ^ 64` bytes. -/
def FitsContentLength (batch : Batch) (type : BatchType) : Prop :=
  type = .kWrite → batch.total < 2 ^ 64

section Emplaced

variable {batch : Batch} {defaultEntry : Bytes} {type : BatchType} {isRecordName : Bytes → Bool}
  {order : List Nat}

/-- A request carries the batch if and only if the keys of the records are distinct and
its content length does not wrap, where headers have the same name for the same key only. -/
theorem carries_iff (header : Record → Bytes × Bytes) (others : List (Bytes × Bytes))
    (horder : batch.IsOrder order) {request : HttpRequest}
    (hheaders : request.headers =
      UnorderedMap.empty.emplaceAll (others ++ (batch.inOrder order).map header))
    (hlength : type = .kWrite → request.contentLength = batch.size)
    (hothers : ∀ h ∈ others, isRecordName h.1 = false) (hnames : (others.map Prod.fst).Nodup)
    (hrecords : ∀ r ∈ batch.records, isRecordName (header r).1 = true)
    (hinj : ∀ r ∈ batch.records, ∀ r' ∈ batch.records,
      (header r).1 = (header r').1 ↔ recordKey defaultEntry r = recordKey defaultEntry r')
    (hsize : type = .kWrite → ∀ r ∈ batch.records, announcedSize (header r).2 = r.size) :
    Carries isRecordName batch type request ↔
      DistinctKeys batch defaultEntry ∧ FitsContentLength batch type := by
  have hperm := horder.inOrder_perm
  have hmem : ∀ r ∈ batch.inOrder order, r ∈ batch.records := fun r => hperm.mem_iff.1
  have hrecords' : ∀ h ∈ (batch.inOrder order).map header, isRecordName h.1 = true :=
    List.forall_mem_map.2 fun r hr => hrecords r (hmem r hr)
  have hdistinct : (((batch.inOrder order).map header).map Prod.fst).Nodup ↔
      DistinctKeys batch defaultEntry := by
    rw [List.map_map, DistinctKeys, ← (hperm.map _).nodup_iff]
    exact nodup_map_iff fun r hr r' hr' => hinj r (hmem r hr) r' (hmem r' hr')
  have hsum (htype : type = .kWrite) :
      (((batch.inOrder order).map header).map fun h => announcedSize h.2).sum = batch.total := by
    rw [← horder.sum_sizes, List.map_map]
    exact congrArg List.sum (List.map_congr_left fun r hr => hsize htype r (hmem r hr))
  rw [← hdistinct, Carries, hheaders]
  constructor
  · rintro ⟨hcount, hsizes⟩
    rw [length_recordHeaders hothers hrecords', ← hperm.length_eq] at hcount
    have hnodup : (((batch.inOrder order).map header).map Prod.fst).Nodup :=
      length_dedup_eq_iff.1 (by simpa using hcount)
    refine ⟨hnodup, fun htype => ?_⟩
    have hsizes := hsizes htype
    rw [(recordHeaders_emplaceAll hothers hrecords' hnames hnodup).2, hsum htype,
      hlength htype] at hsizes
    rw [hsizes]
    exact batch.size_lt_limit
  · rintro ⟨hnodup, hfits⟩
    rw [(recordHeaders_emplaceAll hothers hrecords' hnames hnodup).2]
    refine ⟨by simpa using hperm.length_eq, fun htype => ?_⟩
    rw [hsum htype, hlength htype, Batch.size_eq_total (hfits htype)]

end Emplaced

variable [StdSort]

/-! ## Protocol v1 -/

theorem uniqueEntries_iff (batch : Batch) (entryName : Bytes) :
    1 < (uniqueEntries batch entryName).length ↔ SeveralEntries batch entryName := by
  have hmem : ∀ r, r ∈ batch.inOrder (sortRecords batch entryName false) ↔ r ∈ batch.records :=
    fun r => (sortRecords_isOrder batch entryName false).inOrder_perm.mem_iff
  have hentries : uniqueEntries batch entryName =
      ((batch.inOrder (sortRecords batch entryName false)).map (recordEntry · entryName)).dedup := by
    rw [uniqueEntries, Batch.inOrder, List.map_map]
    rfl
  rw [hentries, ← List.card_toFinset, Finset.one_lt_card]
  simp [SeveralEntries, hmem]

omit [StdSort] in
theorem recordHeaderV1_name {record : Record} (h : record.timestamp.AfterEpoch) (type : BatchType) :
    (recordHeaderV1 record type).1 = recordNameV1 record.timestamp.micros := by
  simp [recordHeaderV1, recordNameV1, Time.toMicroseconds_eq h, decimalSigned]

theorem requestV1_headers (bucketPath entryName : Bytes) (batch : Batch) (type : BatchType) :
    (requestV1 bucketPath entryName batch type).headers = UnorderedMap.empty.emplaceAll
      ([] ++ (batch.inOrder (sortRecords batch entryName false)).map (recordHeaderV1 · type)) := by
  rw [List.nil_append, Batch.inOrder, List.map_map]
  cases type <;> rfl

/-- The request of protocol v1 for a batch with one entry. -/
theorem carries_requestV1 {batch : Batch} {entryName : Bytes}
    (hepoch : ∀ r ∈ batch.records, r.timestamp.AfterEpoch) (hone : ¬ SeveralEntries batch entryName)
    (bucketPath : Bytes) (type : BatchType) :
    Carries isRecordNameV1 batch type (requestV1 bucketPath entryName batch type) ↔
      DistinctKeys batch entryName ∧ FitsContentLength batch type := by
  refine carries_iff (recordHeaderV1 · type) [] (sortRecords_isOrder batch entryName false)
    (requestV1_headers ..) ?_ (by simp) (by simp) ?_ ?_ ?_
  · rintro rfl
    rfl
  · intro r hr
    exact isPrefixOf_append _ _
  · intro r hr r' hr'
    have hentry := recordEntry_eq_of_one hone hr hr'
    rw [recordHeaderV1_name (hepoch r hr), recordHeaderV1_name (hepoch r' hr')]
    simp only [recordKey, Prod.mk.injEq, hentry, true_and]
    exact ⟨recordNameV1_injective, congrArg _⟩
  · rintro rfl r hr
    exact announcedSize_recordHeaderV1 (batch.size_lt hr)

theorem keepsRecords_processBatchV1 {batch : Batch}
    (hepoch : ∀ r ∈ batch.records, r.timestamp.AfterEpoch) (server : HttpServer)
    (bucketPath entryName : Bytes) (type : BatchType) :
    KeepsRecords isRecordNameV1 batch type
        (processBatchV1 server bucketPath entryName batch type) ↔
      SeveralEntries batch entryName ∨
        DistinctKeys batch entryName ∧ FitsContentLength batch type := by
  rw [processBatchV1]
  split
  · rename_i hseveral
    have hseveral := (uniqueEntries_iff batch entryName).1 hseveral
    exact iff_of_true (.inl ⟨rfl, _, rfl, rfl⟩) (.inl hseveral)
  · rename_i hone
    rw [uniqueEntries_iff] at hone
    have hcarries := carries_requestV1 hepoch hone bucketPath type
    simp [KeepsRecords, hcarries, hone]

/-! ## Protocol v2 -/

omit [StdSort] in
theorem requestV2_headers (ioPath : Bytes) (type : BatchType) (batch : Batch)
    (request : BatchV2Request) : (requestV2 ioPath type batch request).headers = request.headers := by
  cases type <;> rfl

omit [StdSort] in
/-- The request of protocol v2. -/
theorem carries_requestV2 {batch : Batch} {defaultEntry : Bytes} {st : IndexState}
    {order : List Nat} (horder : batch.IsOrder order)
    (h : Indexed defaultEntry (batch.inOrder order) st) (ioPath : Bytes) (type : BatchType) :
    Carries isRecordNameV2 batch type (requestV2 ioPath type batch ⟨order, st.entries, st.startTs,
        requestHeadersV2 defaultEntry type st (batch.inOrder order)⟩) ↔
      DistinctKeys batch defaultEntry ∧ FitsContentLength batch type := by
  have hmem : ∀ r ∈ batch.records, r ∈ batch.inOrder order := fun r => horder.inOrder_perm.mem_iff.2
  refine carries_iff (recordHeaderV2 defaultEntry type st) (commonHeadersV2 st) horder ?_ ?_
    (commonHeadersV2_names st).1 (commonHeadersV2_names st).2 ?_ ?_ ?_
  · rw [requestV2_headers, requestHeadersV2]
  · rintro rfl
    rfl
  · exact fun r hr => h.isRecordName type horder.inOrder_lt (hmem r hr)
  · exact fun r hr r' hr' => h.recordHeader_inj type horder.inOrder_lt (hmem r hr) (hmem r' hr')
  · rintro rfl r hr
    exact announcedSize_buildHeaderValueV2 (batch.size_lt hr)

/-- The frame of the two v2 calls. -/
theorem keepsRecords_processRequestV2 {α : Type} {batch : Batch} (hne : batch.records ≠ [])
    (defaultEntry : Bytes) (requireEntry : Bool) (server : HttpServer) (ioPath : Bytes)
    (type : BatchType) (nothing : α) (decode : BatchV2Request → Headers → Except Fault α) :
    KeepsRecords isRecordNameV2 batch type (processRequestV2 server ioPath batch type
        (buildBatchV2Request defaultEntry batch type requireEntry) nothing decode) ↔
      (requireEntry = true ∧ ∃ r ∈ batch.records, recordEntry r defaultEntry = []) ∨
        DistinctKeys batch defaultEntry ∧ FitsContentLength batch type := by
  rcases buildBatchV2Request_cases defaultEntry batch type requireEntry with
    ⟨hnil, -⟩ | ⟨-, hmissing, hbuilt⟩ | ⟨-, hordered, hcomplete, st, hindexed, hbuilt⟩
  · exact absurd hnil hne
  · rw [hbuilt]
    exact iff_of_true (.inl ⟨rfl, _, rfl, rfl⟩) (.inl hmissing)
  · have hcarries := carries_requestV2 (sortRecords_isOrder batch defaultEntry true) hindexed
      ioPath type
    rw [hbuilt]
    simp [processRequestV2, KeepsRecords, hordered, hcarries, hcomplete]

omit [StdSort] in
theorem recordEntry_nil (record : Record) : recordEntry record [] = record.entry := by
  unfold recordEntry
  split <;> simp_all

/-- The three calls keep all records of a batch, or refuse it, if and only if no
two records share their resolved entry and their microseconds and the content length of
a write does not wrap; v1 also refuses several entries, and `ProcessBatchV2Records` a
record without an entry. -/
theorem keepsRecords_iff (batch : Batch) (hne : batch.records ≠ [])
    (hepoch : ∀ r ∈ batch.records, r.timestamp.AfterEpoch) (server : HttpServer)
    (path entryName : Bytes) (type : BatchType) :
    (KeepsRecords isRecordNameV1 batch type (processBatchV1 server path entryName batch type) ↔
      SeveralEntries batch entryName ∨
        DistinctKeys batch entryName ∧ FitsContentLength batch type) ∧
    (KeepsRecords isRecordNameV2 batch type (processBatchV2 server path entryName batch type) ↔
      DistinctKeys batch entryName ∧ FitsContentLength batch type) ∧
    (KeepsRecords isRecordNameV2 batch type (processBatchV2Records server path batch type) ↔
      (∃ r ∈ batch.records, r.entry = []) ∨
        DistinctKeys batch [] ∧ FitsContentLength batch type) := by
  refine ⟨keepsRecords_processBatchV1 hepoch server path entryName type, ?_, ?_⟩
  · rw [processBatchV2, keepsRecords_processRequestV2 hne]
    simp
  · rw [processBatchV2Records, keepsRecords_processRequestV2 hne]
    simp [recordEntry_nil]

/-- One byte, and two more. -/
def threeBytes : List Blob := [⟨bytes "a", by decide⟩, ⟨bytes "bc", by decide⟩]

omit [StdSort] in
theorem threeBytes_size : 3 = (threeBytes.map Blob.size).sum % 2 ^ 64 := rfl

/-- Two records of an entry, half a microsecond apart. -/
def halfMicrosecond : Batch where
  records := [⟨bytes "e", .wrap 1000, 1, bytes "t", ∅, some 0⟩,
    ⟨bytes "e", .wrap 1500, 2, bytes "t", ∅, some 1⟩]
  body := threeBytes
  size := 3
  records_lt := by decide
  dataIndex_eq := rfl
  record_size := by simp [threeBytes, Blob.size]; decide
  size_eq := threeBytes_size

example : (do
    let batch ← Batch.empty.addRecord (bytes "e") (.wrap 1000) (some ⟨bytes "a", by decide⟩)
      (bytes "t") ∅
    batch.addRecord (bytes "e") (.wrap 1500) (some ⟨bytes "bc", by decide⟩) (bytes "t") ∅) =
      .ok halfMicrosecond := rfl

/-- A server that accepts everything. -/
def acceptingServer : HttpServer := fun _ => ⟨([], .empty), .kOk⟩

omit [StdSort] in
theorem keepsRecords_iff_sample :
    @KeepsRecords _ isRecordNameV1 halfMicrosecond .kWrite
        (@processBatchV1 .insertion acceptingServer [] (bytes "e") halfMicrosecond .kWrite) ↔
      SeveralEntries halfMicrosecond (bytes "e") ∨
        DistinctKeys halfMicrosecond (bytes "e") ∧ FitsContentLength halfMicrosecond .kWrite :=
  (@keepsRecords_iff .insertion halfMicrosecond (by decide) (by decide) acceptingServer []
    (bytes "e") .kWrite).1

omit [StdSort] in
/-- One header is sent for the two records, with a body of three bytes. -/
theorem keepsRecords_broken :
    halfMicrosecond.records ≠ [] ∧ (∀ r ∈ halfMicrosecond.records, r.timestamp.AfterEpoch) ∧
      ¬ @KeepsRecords _ isRecordNameV2 halfMicrosecond .kWrite
        (@processBatchV2 .insertion acceptingServer [] (bytes "e") halfMicrosecond .kWrite) := by
  refine ⟨by decide, by decide, ?_⟩
  intro hkeeps
  have hcases := (@keepsRecords_processRequestV2 .insertion BatchErrors halfMicrosecond (by decide)
    (bytes "e") false acceptingServer [] .kWrite ∅ _).1 hkeeps
  have hdistinct : DistinctKeys halfMicrosecond (bytes "e") := (hcases.resolve_left (by simp)).1
  exact absurd hdistinct (by unfold DistinctKeys; decide)

end Reduct
