-- SUMMARY: What the v2 decoder makes of any response: which record headers it keeps, and what each of its records carries.
import ReductClient.Internal.DecodingV1

open Cxx Fallible

namespace Reduct

/-! ## Record headers -/

/-- The length in front of the first comma of a record header. -/
def lengthPart (raw : Bytes) : Bytes := trim (((splitFirst comma raw).map Prod.fst).getD raw)

theorem stoull_lt {s : Bytes} {n : Nat} (h : stoull s = .ok n) : n < 2 ^ 64 := by
  unfold stoull at h
  split at h
  · cases h
  · split at h
    · cases h
      split <;> omega
    · cases h

theorem stoull_nil (n : Nat) : stoull [] ≠ .ok n := nofun

/-- A record header is kept if and only if its length can be read. -/
theorem parseRecordHeaderV2_cases {raw : Bytes} {previous : Option RecordHeaderV2}
    {labelNames : Option (List Bytes)} {result : Option RecordHeaderV2}
    (h : parseRecordHeaderV2 raw previous labelNames = .ok result) :
    (result = none ∧ ∀ n, stoull (lengthPart raw) ≠ .ok n) ∨
      ∃ header, result = some header ∧ stoull (lengthPart raw) = .ok header.contentLength := by
  unfold parseRecordHeaderV2 at h
  unfold lengthPart
  generalize splitFirst comma raw = parts at h ⊢
  rcases parts with _ | ⟨slice, rest⟩
  all_goals
    simp only [Option.map_none, Option.map_some, Option.getD_none, Option.getD_some] at h ⊢
    split at h
    · rename_i hnil
      cases h
      exact .inl ⟨rfl, hnil ▸ stoull_nil⟩
    · split at h
      · rename_i fault hfault
        cases h
        exact .inl ⟨rfl, fun n hn => nomatch hfault.symm.trans hn⟩
      · rename_i contentLength hok
        split at h
        · obtain ⟨labels, -, h⟩ := bind_eq_ok.1 h
          cases h
          exact .inr ⟨_, rfl, hok⟩
        · cases h
          exact .inr ⟨_, rfl, hok⟩

/-! ## The loop -/

/-- The decoder makes a record of a parsed header. -/
def KeepsHeader (entries : List Bytes) (parsed : ParsedHeader) : Prop :=
  parsed.1 < entries.length ∧ ∃ n, stoull (lengthPart parsed.2.2) = .ok n

/-- What a record of a v2 response carries before the flag is set. -/
structure DecodedV2 (head : Bool) (entries : List Bytes) (record : ReadableRecord) : Prop where
  entry : record.entry ∈ entries
  read_eq : record.read = ⟨.v2 record.size, head⟩
  size_lt : record.size < 2 ^ 64
  last : record.last = false

theorem decodeHeader_cases {head : Bool} {entries : List Bytes} {startTs : Nat}
    {labelNames : Option (List Bytes)} {st st' : DecodeState} {parsed : ParsedHeader}
    (h : decodeHeader head entries startTs labelNames st parsed = .ok st') :
    (st'.records = st.records ∧ ¬ KeepsHeader entries parsed) ∨
      ∃ record, st'.records = st.records ++ [record] ∧ KeepsHeader entries parsed ∧
        DecodedV2 head entries record ∧
          record.timestamp = timeFromMicroseconds ((startTs + parsed.2.1) % 2 ^ 64) := by
  obtain ⟨entryIdx, delta, value⟩ := parsed
  unfold decodeHeader at h
  dsimp only at h
  split at h
  · rename_i hnone
    cases h
    refine .inl ⟨rfl, fun hkeeps => ?_⟩
    have hlt : entryIdx < entries.length := hkeeps.1
    rw [List.getElem?_eq_getElem hlt] at hnone
    cases hnone
  · rename_i entry hentry
    obtain ⟨result, hresult, h⟩ := bind_eq_ok.1 h
    rcases parseRecordHeaderV2_cases hresult with ⟨rfl, hno⟩ | ⟨header, rfl, hlength⟩
    · cases h
      exact .inl ⟨rfl, fun ⟨_, n, hn⟩ => hno n hn⟩
    · cases h
      have hlt : entryIdx < entries.length := (List.getElem?_eq_some_iff.1 hentry).1
      exact .inr ⟨_, rfl, ⟨hlt, _, hlength⟩,
        ⟨List.mem_of_getElem? hentry, rfl, stoull_lt hlength, rfl⟩, rfl⟩

/-- The records are those of the headers that are kept. -/
theorem foldlM_decodeHeader_records {head : Bool} {entries : List Bytes} {startTs : Nat}
    {labelNames : Option (List Bytes)} {l : List ParsedHeader} {lastHeader : _} {st : DecodeState}
    (h : l.foldlM (decodeHeader head entries startTs labelNames) ⟨lastHeader, []⟩ = .ok st) :
    (∀ r ∈ st.records, DecodedV2 head entries r) ∧
      (st.records = [] ↔ ∀ p ∈ l, ¬ KeepsHeader entries p) := by
  refine foldlM_invariant (fun before st => (∀ r ∈ st.records, DecodedV2 head entries r) ∧
    (st.records = [] ↔ ∀ p ∈ before, ¬ KeepsHeader entries p)) h (by simp) ?_
  rintro before parsed st st' ⟨hrecords, hnil⟩ hstep
  rcases decodeHeader_cases hstep with ⟨hsame, hskip⟩ | ⟨record, hmore, hkeeps, hrecord, -⟩
  · rw [hsame]
    refine ⟨hrecords, hnil.trans ?_⟩
    simp [or_imp, forall_and, hskip]
  · rw [hmore]
    refine ⟨?_, ?_⟩
    · intro r hr
      rcases List.mem_append.1 hr with hr | hr
      · exact hrecords r hr
      · exact List.mem_singleton.1 hr ▸ hrecord
    · refine iff_of_false (by simp) fun hnone => ?_
      exact hnone parsed (by simp) hkeeps

/-! ## The decoder -/

/-- The response has a record header that the decoder keeps. -/
def HasRecordV2 (headers : Headers) : Prop :=
  ∃ rawEntries rawStartTs startTs, headers.find? kHeaderEntries = some rawEntries ∧
    headers.find? kHeaderStartTs = some rawStartTs ∧ stoull rawStartTs = .ok startTs ∧
    ∃ p ∈ parsedHeaders headers, KeepsHeader (parseEncodedList rawEntries) p

/-- The entries a response names. -/
def responseEntries (headers : Headers) : List Bytes :=
  ((headers.find? kHeaderEntries).map parseEncodedList).getD []

variable [StdSort]

/-- There are no records because the response names no entries or has no start timestamp
that can be read, or they are those of the loop, the flag on the last of them. -/
theorem parseAndBuildBatchedRecordsV2_cases {head : Bool} {headers : Headers}
    {records : List ReadableRecord} (h : parseAndBuildBatchedRecordsV2 head headers = .ok records) :
    (records = [] ∧ (responseEntries headers = [] ∨ ∀ rawStartTs startTs,
        headers.find? kHeaderStartTs = some rawStartTs → stoull rawStartTs ≠ .ok startTs)) ∨
      ∃ rawEntries rawStartTs startTs st, headers.find? kHeaderEntries = some rawEntries ∧
        headers.find? kHeaderStartTs = some rawStartTs ∧ stoull rawStartTs = .ok startTs ∧
        (StdSort.sort parsedHeaderLess (parsedHeaders headers)).foldlM
          (decodeHeader head (parseEncodedList rawEntries) startTs
            ((headers.find? kHeaderLabels).map parseEncodedList))
          ⟨List.replicate (parseEncodedList rawEntries).length none, []⟩ = .ok st ∧
        records = flagLast (announcesEnd headers) st.records := by
  unfold parseAndBuildBatchedRecordsV2 at h
  split at h
  · rename_i rawEntries rawStartTs hentries hstart
    dsimp only at h
    split at h
    · rename_i hnil
      cases h
      refine .inl ⟨rfl, .inl ?_⟩
      rw [responseEntries, hentries]
      exact hnil
    · split at h
      · rename_i fault hfault
        cases h
        refine .inl ⟨rfl, .inr fun _ _ hstart' hok => ?_⟩
        cases hstart.symm.trans hstart'
        cases hfault.symm.trans hok
      · rename_i startTs hok
        obtain ⟨st, hst, h⟩ := bind_eq_ok.1 h
        cases h
        exact .inr ⟨rawEntries, rawStartTs, startTs, st, hentries, hstart, hok, hst,
          by simp [flagLast, announcesEnd]⟩
  · rename_i hmissing
    cases h
    refine .inl ⟨rfl, ?_⟩
    cases hentries : headers.find? kHeaderEntries with
    | none =>
      left
      rw [responseEntries, hentries]
      rfl
    | some rawEntries => exact .inr fun _ _ hstart => absurd hstart (hmissing _ _ hentries)

/-- The records of a v2 response, the flag on the last of them. -/
theorem parseAndBuildBatchedRecordsV2_ok {head : Bool} {headers : Headers}
    {records : List ReadableRecord} (h : parseAndBuildBatchedRecordsV2 head headers = .ok records) :
    ∃ decoded, records = flagLast (announcesEnd headers) decoded ∧
      (∀ r ∈ decoded, DecodedV2 head (responseEntries headers) r) ∧
      (decoded = [] ↔ ¬ HasRecordV2 headers) := by
  rcases parseAndBuildBatchedRecordsV2_cases h with
    ⟨rfl, hmissing⟩ | ⟨rawEntries, rawStartTs, startTs, st, hentries, hstart, hok, hst, rfl⟩
  · refine ⟨[], by simp, by simp, iff_of_true rfl ?_⟩
    rintro ⟨rawEntries, rawStartTs, startTs, hentries, hstart, hok, p, -, hlt, -⟩
    rcases hmissing with hnil | hunreadable
    · rw [responseEntries, hentries] at hnil
      rw [show parseEncodedList rawEntries = [] from hnil] at hlt
      exact absurd hlt (Nat.not_lt_zero _)
    · exact hunreadable _ _ hstart hok
  · obtain ⟨hrecords, hnil⟩ := foldlM_decodeHeader_records hst
    refine ⟨st.records, rfl, ?_, hnil.trans ?_⟩
    · simpa [responseEntries, hentries] using hrecords
    · have hmem : ∀ p, p ∈ StdSort.sort parsedHeaderLess (parsedHeaders headers) ↔
          p ∈ parsedHeaders headers := fun p => (StdSort.perm _ _).mem_iff
      constructor
      · rintro hnone ⟨_, _, _, hentries', -, -, p, hp, hkeeps⟩
        cases hentries.symm.trans hentries'
        exact hnone p ((hmem p).2 hp) hkeeps
      · intro hnone p hp hkeeps
        exact hnone ⟨_, _, _, hentries, hstart, hok, p, (hmem p).1 hp, hkeeps⟩

end Reduct
