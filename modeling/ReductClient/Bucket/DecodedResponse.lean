-- SUMMARY: The records a batched response decodes to: when there are any, where the flag stands, and the batch they are read from.
import ReductClient.Bucket.BatchResponse
import ReductClient.Internal.DecodingV2

open Cxx Fallible

namespace Reduct

/-- The response has a record header that its decoder keeps. -/
def HasRecord : BatchVersion → Headers → Prop
  | .v1, headers => ∃ h ∈ headers.toList, isRecordNameV1 h.1 = true
  | .v2, headers => HasRecordV2 headers

/-- What a record of a batched response carries before the flag is set. -/
structure DecodedRecord (version : BatchVersion) (head : Bool) (record : ReadableRecord) :
    Prop where
  read_eq : record.read = ⟨version.kind record.size, head⟩
  size_lt : record.size < 2 ^ 64
  last : record.last = false

theorem toUInt64_lt (n : Int) : toUInt64 n < 2 ^ 64 := by
  unfold toUInt64
  omega

theorem decodeRecordV1_decoded {head : Bool} {header : Bytes × Bytes} {record : ReadableRecord}
    (h : decodeRecordV1 head header = .ok record) : DecodedRecord .v1 head record := by
  obtain ⟨⟨size, contentType, labels⟩, -, h⟩ := bind_eq_ok.1 h
  obtain ⟨timestamp, -, h⟩ := bind_eq_ok.1 h
  cases h
  exact ⟨rfl, toUInt64_lt size, rfl⟩

variable [StdSort]

/-- Both decoders make a list of records out of the headers and then flag the
last of them. -/
theorem buildRecords_ok {version : BatchVersion} {head : Bool} {headers : Headers}
    {records : List ReadableRecord} (h : buildRecords version.type head headers = .ok records) :
    ∃ decoded, records = flagLast (announcesEnd headers) decoded ∧
      (∀ r ∈ decoded, DecodedRecord version head r) ∧
      (decoded = [] ↔ ¬ HasRecord version headers) := by
  cases version with
  | v1 =>
    have h : parseAndBuildBatchedRecordsV1 head headers = .ok records := h
    rw [parseAndBuildBatchedRecordsV1_eq] at h
    obtain ⟨decoded, hdecoded, h⟩ := bind_eq_ok.1 h
    cases h
    have hall := mapM_eq_ok.1 hdecoded
    refine ⟨decoded, rfl, ?_, ?_⟩
    · intro r hr
      obtain ⟨i, hi, rfl⟩ := List.getElem_of_mem hr
      have hheader : i < (orderedRecordHeaders headers).length := hall.length_eq ▸ hi
      exact decodeRecordV1_decoded (hall.get hheader hi)
    · have hnil : decoded = [] ↔ orderedRecordHeaders headers = [] := by
        rw [← List.length_eq_zero_iff, ← List.length_eq_zero_iff, hall.length_eq]
      have hperm := orderedRecordHeaders_perm headers
      rw [hnil, ← List.length_eq_zero_iff, hperm.length_eq, List.length_eq_zero_iff, recordHeaders,
        List.filter_eq_nil_iff]
      simp [HasRecord]
  | v2 =>
    obtain ⟨decoded, hrecords, hall, hnil⟩ := parseAndBuildBatchedRecordsV2_ok h
    refine ⟨decoded, hrecords, ?_, hnil⟩
    intro r hr
    exact ⟨(hall r hr).read_eq, (hall r hr).size_lt, (hall r hr).last⟩

section Response

variable {version : BatchVersion} {head : Bool} {headers : Headers} {records : List ReadableRecord}

theorem buildRecords_eq_nil_iff (h : buildRecords version.type head headers = .ok records) :
    records = [] ↔ ¬ HasRecord version headers := by
  obtain ⟨decoded, rfl, -, hnil⟩ := buildRecords_ok h
  rw [← hnil, ← List.length_eq_zero_iff, length_flagLast, List.length_eq_zero_iff]

/-- The end of the query reaches the callback on the last record, if there is one. -/
theorem exists_last (h : buildRecords version.type head headers = .ok records)
    (hflag : announcesEnd headers = true) (hrecord : HasRecord version headers) :
    ∃ r ∈ records, r.last = true := by
  obtain ⟨decoded, rfl, hall, hnil⟩ := buildRecords_ok h
  have hne : decoded ≠ [] := fun h => hnil.1 h hrecord
  obtain ⟨init, last, rfl⟩ := (List.eq_nil_or_concat' decoded).resolve_left hne
  have hlast := (hall last (by simp)).last
  rw [flagLast_concat _ _ hlast]
  exact ⟨{ last with last := announcesEnd headers }, by simp, hflag⟩

/-- A 200 response to a batched read, with a body that is as long as its records
need, is a batch to read from. -/
theorem exists_batchResponse (h : buildRecords version.type false headers = .ok records)
    {chunks : List Bytes}
    (hlength : chunks.flatten.length = (records.map ReadableRecord.size).sum) :
    ∃ b : BatchResponse, b.version = version ∧ b.records = records ∧ b.chunks = chunks := by
  obtain ⟨decoded, rfl, hall, -⟩ := buildRecords_ok h
  have hmem : ∀ r ∈ flagLast (announcesEnd headers) decoded, ∃ d ∈ decoded, ∃ last,
      r = { d with last := last } := by
    intro r hr
    rcases List.eq_nil_or_concat' decoded with rfl | ⟨init, d, rfl⟩
    · simp at hr
    · rw [flagLast_concat _ _ (hall d (by simp)).last, List.mem_append, List.mem_singleton] at hr
      rcases hr with hr | rfl
      · exact ⟨r, List.mem_append_left _ hr, r.last, rfl⟩
      · exact ⟨d, by simp, _, rfl⟩
  refine ⟨⟨version, _, chunks, ?_, ?_, ?_, hlength⟩, rfl, rfl, rfl⟩
  · intro r hr
    obtain ⟨d, hd, last, rfl⟩ := hmem r hr
    exact (hall d hd).read_eq
  · intro r hr
    obtain ⟨d, hd, last, rfl⟩ := hmem r hr
    exact (hall d hd).size_lt
  · intro r hr
    rcases List.eq_nil_or_concat' decoded with rfl | ⟨init, d, rfl⟩
    · simp at hr
    · rw [flagLast_concat _ _ (hall d (by simp)).last, List.dropLast_concat] at hr
      exact (hall r (List.mem_append_left _ hr)).last

/-- In every interleaving of a batched read on a thread of the user, the callback
thread is in a state of that batch. -/
theorem threadReaches_of_reachable (h : buildRecords version.type false headers = .ok records)
    {chunks : List Bytes}
    (hlength : chunks.flatten.length = (records.map ReadableRecord.size).sum) :
    ∃ b : BatchResponse, b.version = version ∧ b.records = records ∧ b.chunks = chunks ∧
      ∀ callback s, ReadState.Reachable (b.call callback) (.delivered headers chunks .kOk) s →
        s.runner = { phase := .idle } ∨ b.ThreadReaches callback s.runner := by
  obtain ⟨b, rfl, rfl, rfl⟩ := exists_batchResponse h hlength
  refine ⟨b, rfl, rfl, rfl, ?_⟩
  intro callback s hreach
  rcases ReadState.reachable_queued rfl rfl hreach with rfl | rfl | ⟨records, hrecords, hrun⟩
  · exact .inl rfl
  · exact .inl rfl
  · have hsame : b.records = records := Except.ok.inj (h.symm.trans hrecords)
    subst hsame
    exact .inr (.inl ⟨s, hrun, rfl⟩)

end Response

end Reduct
