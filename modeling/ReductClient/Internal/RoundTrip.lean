-- SUMMARY: The v2 request of a batch read by the repository's own v2 decoder, and the exact condition on the labels under which every record comes back as it was.
import ReductClient.Internal.EntryNames
import ReductClient.Internal.QuotedLabels

open Cxx

namespace Reduct

/-! ## One record header -/

/-- The entry, the content type and the labels of a record are words. -/
structure Worded (defaultEntry : Bytes) (record : Record) : Prop where
  entry : IsWord (recordEntry record defaultEntry)
  contentType : IsWord record.contentType
  labels : WordLabels record.labels

/-- The entry and the header of a record are read back: the entry has no percent sign, and
the content type of a write neither blanks at its ends nor a comma. -/
structure Legible (defaultEntry : Bytes) (type : BatchType) (record : Record) : Prop where
  entry : Listable (recordEntry record defaultEntry)
  contentType : type = .kWrite → record.contentType ≠ [] ∧ comma ∉ record.contentType ∧
    trim record.contentType = record.contentType
  labels : LegibleLabels record.labels

theorem IsWord.listable {entry : Bytes} (h : IsWord entry) : Listable entry :=
  ⟨h.1, h.not_mem (by decide)⟩

theorem Worded.legible {defaultEntry : Bytes} {record : Record} (h : Worded defaultEntry record)
    (type : BatchType) : Legible defaultEntry type record where
  entry := h.entry.listable
  contentType _ := ⟨h.contentType.1, h.contentType.not_mem (by decide), h.contentType.trim_eq⟩
  labels := legibleLabels_words h.labels

/-- The content type of a record whose header names none. -/
def kDefaultContentType : Bytes := bytes "application/octet-stream"

/-- The record as its header tells it: only a write tells the size and the content type. -/
def Record.told (type : BatchType) (record : Record) : Record :=
  match type with
  | .kWrite => record
  | _ => { record with size := 0, contentType := kDefaultContentType }

theorem Record.told_entry (type : BatchType) (record : Record) (defaultEntry : Bytes) :
    recordEntry (record.told type) defaultEntry = recordEntry record defaultEntry := by
  cases type <;> rfl

theorem Record.told_timestamp (type : BatchType) (record : Record) :
    (record.told type).timestamp = record.timestamp := by
  cases type <;> rfl

/-- The labels the decoder has kept for an entry. -/
def keptLabels (previous : Option RecordHeaderV2) : LabelMap := (previous.map (·.labels)).getD ∅

/-- The content type it takes for a header that names none. -/
def keptContentType (previous : Option RecordHeaderV2) : Bytes :=
  (previous.map (·.contentType)).getD kDefaultContentType

/-- A header with a size is read field by field. -/
theorem parseRecordHeaderV2_decimal {size : Nat} (hsize : size < 2 ^ 64)
    (previous : Option RecordHeaderV2) {rest contentType : Bytes} {labelsRaw : Option Bytes}
    (hfields : headerFields (some rest) = (contentType, labelsRaw))
    {labelNames : Option (List Bytes)} {labels : LabelMap}
    (hlabels : (match labelsRaw with
      | some raw => applyLabelDelta raw (keptLabels previous) labelNames
      | none => pure (keptLabels previous)) = .ok labels) :
    parseRecordHeaderV2 (decimal size ++ comma :: rest) previous labelNames =
      .ok (some ⟨size, if contentType = [] then keptContentType previous else contentType,
        labels⟩) := by
  simp only [parseRecordHeaderV2, splitFirst_append (decimal_no_comma size), trim_decimal,
    decimal_ne_nil, stoull_decimal_nil hsize, hfields, if_false]
  cases labelsRaw with
  | none =>
    cases hlabels
    rfl
  | some raw =>
    rw [← keptLabels]
    dsimp only at hlabels ⊢
    rw [hlabels]
    rfl

section Header

variable {defaultEntry : Bytes} {record : Record}

/-- The labels of a write are put on top of those that are kept. -/
theorem parseRecordHeaderV2_write (h : Legible defaultEntry .kWrite record)
    (hsize : record.size < 2 ^ 64) (previous : Option RecordHeaderV2) :
    parseRecordHeaderV2 (buildHeaderValueV2 record .kWrite) previous none =
      .ok (some ⟨record.size, record.contentType, keptLabels previous ∪ record.labels⟩) := by
  obtain ⟨hne, hcomma, htrim⟩ := h.contentType rfl
  have hlabels := h.labels.applyLabelDelta_eq (keptLabels previous)
  simp only [buildHeaderValueV2]
  split
  · -- a header without labels leaves them as they are
    rename_i hnone
    have hkept : keptLabels previous ∪ record.labels = keptLabels previous := by
      rw [hnone] at hlabels
      exact (Except.ok.inj hlabels).symm
    have hfields : headerFields (some record.contentType) = (record.contentType, none) := by
      simp only [headerFields, splitFirst_eq_none.2 hcomma, htrim]
    rw [hkept, parseRecordHeaderV2_decimal hsize previous hfields rfl, if_neg hne]
  · have hfields : headerFields (some (record.contentType ++ comma :: formatLabels record.labels)) =
        (record.contentType, some (formatLabels record.labels)) := by
      simp only [headerFields, splitFirst_append hcomma, htrim]
    rw [List.append_assoc, List.cons_append,
      parseRecordHeaderV2_decimal hsize previous hfields hlabels, if_neg hne]

/-- So are those of an update. -/
theorem parseRecordHeaderV2_update (h : LegibleLabels record.labels)
    (previous : Option RecordHeaderV2) :
    parseRecordHeaderV2 (buildHeaderValueV2 record .kUpdate) previous none =
      .ok (some ⟨0, keptContentType previous, keptLabels previous ∪ record.labels⟩) := by
  have hlabels := h.applyLabelDelta_eq (keptLabels previous)
  simp only [buildHeaderValueV2]
  split
  · rename_i hnone
    have hkept : keptLabels previous ∪ record.labels = keptLabels previous := by
      rw [hnone] at hlabels
      exact (Except.ok.inj hlabels).symm
    rw [hkept]
    rfl
  · have hfields : headerFields (some (comma :: formatLabels record.labels)) =
        ([], some (formatLabels record.labels)) := by
      rw [headerFields, ← List.nil_append (comma :: _), splitFirst_append List.not_mem_nil]
      rfl
    have hdecimal : bytes "0,," ++ formatLabels record.labels =
        decimal 0 ++ comma :: comma :: formatLabels record.labels := rfl
    rw [hdecimal, parseRecordHeaderV2_decimal (by decide) previous hfields hlabels, if_pos rfl]

/-- Only a write names a content type. -/
def KeepsDefault (type : BatchType) (previous : Option RecordHeaderV2) : Prop :=
  type ≠ .kWrite → keptContentType previous = kDefaultContentType

theorem parseRecordHeaderV2_buildHeaderValueV2 {type : BatchType} (htype : type ≠ .kRemove)
    (h : Legible defaultEntry type record) (hsize : record.size < 2 ^ 64)
    {previous : Option RecordHeaderV2} (hprevious : KeepsDefault type previous) :
    parseRecordHeaderV2 (buildHeaderValueV2 record type) previous none =
      .ok (some ⟨(record.told type).size, (record.told type).contentType,
        keptLabels previous ∪ record.labels⟩) := by
  cases type with
  | kWrite => exact parseRecordHeaderV2_write h hsize previous
  | kUpdate =>
    have hkept : keptContentType previous = kDefaultContentType := hprevious (by decide)
    rw [parseRecordHeaderV2_update h.labels, hkept]
    rfl
  | kRemove => exact absurd rfl htype

end Header

/-! ## All record headers -/

/-- A decoded record of a v2 response, with the given labels. -/
def decodedRecord (defaultEntry : Bytes) (head : Bool) (record : Record) (labels : LabelMap) :
    ReadableRecord where
  entry := recordEntry record defaultEntry
  timestamp := timeFromMicroseconds record.timestamp.micros
  size := record.size
  last := false
  labels := labels
  contentType := record.contentType
  read := ⟨.v2 record.size, head⟩

/-- The labels of the records of an entry, each on top of those before. -/
def accumulated (defaultEntry : Bytes) (records : List Record) (entry : Bytes) : LabelMap :=
  ((records.filter fun r => recordEntry r defaultEntry = entry).map Record.labels).foldl (· ∪ ·) ∅

theorem accumulated_concat (defaultEntry : Bytes) (records : List Record) (record : Record)
    (entry : Bytes) :
    accumulated defaultEntry (records ++ [record]) entry =
      if recordEntry record defaultEntry = entry then
        accumulated defaultEntry records entry ∪ record.labels
      else accumulated defaultEntry records entry := by
  unfold accumulated
  rw [List.filter_append]
  split_ifs with h <;> simp [h, List.foldl_append]

theorem mem_accumulated {defaultEntry : Bytes} {records : List Record} {entry name : Bytes} :
    name ∈ accumulated defaultEntry records entry ↔
      ∃ r ∈ records, recordEntry r defaultEntry = entry ∧ name ∈ r.labels := by
  induction records using List.reverseRecOn with
  | nil => simp [accumulated]
  | append_singleton records record ih =>
    rw [accumulated_concat]
    split_ifs with h
    · rw [Std.ExtTreeMap.mem_union_iff, ih]
      simp [h, or_and_right, exists_or]
    · rw [ih]
      simp [h, or_and_right, exists_or]

/-- What the decoder makes of the records of a request, from those before on. -/
def decodedFrom (defaultEntry : Bytes) (type : BatchType) (head : Bool) :
    List Record → List Record → List ReadableRecord
  | _, [] => []
  | before, record :: records =>
    decodedRecord defaultEntry head (record.told type)
        (accumulated defaultEntry (before ++ [record]) (recordEntry record defaultEntry)) ::
      decodedFrom defaultEntry type head (before ++ [record]) records

/-- The decoder has kept the labels of the records it has seen. -/
structure Keeps (defaultEntry : Bytes) (type : BatchType) (entries : List Bytes)
    (before : List Record) (lastHeader : List (Option RecordHeaderV2)) : Prop where
  length : lastHeader.length = entries.length
  labels : ∀ (i : Nat) entry, entries[i]? = some entry →
    keptLabels (lastHeader[i]?.join) = accumulated defaultEntry before entry
  contentTypes : ∀ i : Nat, KeepsDefault type lastHeader[i]?.join

section Decode

variable {defaultEntry : Bytes} {type : BatchType} {entries : List Bytes} {startTs : Nat}
  {head : Bool}

/-- One record header is decoded. -/
theorem decodeHeader_parsed (htype : type ≠ .kRemove) {record : Record} {i delta : Nat}
    {before : List Record} {st : DecodeState} (hlegible : Legible defaultEntry type record)
    (hsize : record.size < 2 ^ 64)
    (hentry : entries[i]? = some (recordEntry record defaultEntry)) (hnodup : entries.Nodup)
    (htime : startTs + delta = record.timestamp.micros)
    (hkeeps : Keeps defaultEntry type entries before st.lastHeader) :
    ∃ lastHeader, decodeHeader head entries startTs none st
        (i, delta, buildHeaderValueV2 record type) =
      .ok ⟨lastHeader, st.records ++ [decodedRecord defaultEntry head (record.told type)
        (accumulated defaultEntry (before ++ [record]) (recordEntry record defaultEntry))]⟩ ∧
      Keeps defaultEntry type entries (before ++ [record]) lastHeader := by
  have hmicros : (startTs + delta) % 2 ^ 64 = record.timestamp.micros := by
    rw [htime]
    exact Nat.mod_eq_of_lt record.timestamp.micros_lt_size
  have hlabels := hkeeps.labels i _ hentry
  have hparse := parseRecordHeaderV2_buildHeaderValueV2 htype hlegible hsize (hkeeps.contentTypes i)
  have haccumulated := accumulated_concat defaultEntry before record
    (recordEntry record defaultEntry)
  rw [if_pos rfl, ← hlabels] at haccumulated
  have hi : i < st.lastHeader.length :=
    hkeeps.length ▸ (List.getElem?_eq_some_iff.1 hentry).1
  refine ⟨st.lastHeader.set i (some ⟨(record.told type).size, (record.told type).contentType,
    accumulated defaultEntry (before ++ [record]) (recordEntry record defaultEntry)⟩), ?_, ?_, ?_,
    ?_⟩
  · simp only [decodeHeader, hentry, hparse, hmicros, haccumulated, decodedRecord,
      Record.told_entry, Record.told_timestamp]
    rfl
  · rw [List.length_set, hkeeps.length]
  · intro j entry hj
    by_cases hij : i = j
    · subst hij
      obtain rfl := Option.some.inj (hentry.symm.trans hj)
      rw [List.getElem?_set_self hi]
      rfl
    · have hne : recordEntry record defaultEntry ≠ entry := by
        rintro rfl
        exact hij ((List.getElem?_inj (List.getElem?_eq_some_iff.1 hentry).1 hnodup).1
          (hentry.trans hj.symm))
      rw [List.getElem?_set_ne hij, accumulated_concat, if_neg hne]
      exact hkeeps.labels j entry hj
  · intro j
    by_cases hij : i = j
    · subst hij
      rw [List.getElem?_set_self hi]
      intro hwrite
      cases type with
      | kWrite => exact absurd rfl hwrite
      | kUpdate => rfl
      | kRemove => rfl
    · rw [List.getElem?_set_ne hij]
      exact hkeeps.contentTypes j

end Decode

section ReadBack

variable {defaultEntry : Bytes} {type : BatchType} {records : List Record} {ist : IndexState}

/-- All record headers are decoded, in request order. -/
theorem Indexed.foldlM_decodeHeader (h : Indexed defaultEntry records ist)
    (htype : type ≠ .kRemove) (head : Bool) {before rest : List Record}
    (hrest : ∀ r ∈ rest, r ∈ records) (hlegible : ∀ r ∈ rest, Legible defaultEntry type r)
    (hsize : ∀ r ∈ rest, r.size < 2 ^ 64) {st : DecodeState}
    (hkeeps : Keeps defaultEntry type ist.entries before st.lastHeader) :
    ∃ lastHeader, (rest.map (ist.parsed defaultEntry type)).foldlM
        (decodeHeader head ist.entries ist.startTs none) st =
      .ok ⟨lastHeader, st.records ++ decodedFrom defaultEntry type head before rest⟩ := by
  induction rest generalizing before st with
  | nil => exact ⟨st.lastHeader, by simp [decodedFrom]; rfl⟩
  | cons record rest ih =>
    have hmem := List.mem_cons_self (a := record) (l := rest)
    obtain ⟨i, hentry, hname⟩ := h.name_eq (hrest record hmem)
    have hstart := h.startTs_le record (hrest record hmem)
    obtain ⟨lastHeader, hdecode, hkeeps'⟩ := @decodeHeader_parsed defaultEntry type ist.entries
      ist.startTs head htype record i (record.timestamp.micros - ist.startTs) before st
      (hlegible record hmem) (hsize record hmem) hentry h.nodup (by omega) hkeeps
    obtain ⟨lastHeader', hfold⟩ := @ih (before ++ [record]) (fun r hr => hrest r (.tail _ hr))
      (fun r hr => hlegible r (.tail _ hr)) (fun r hr => hsize r (.tail _ hr)) ⟨lastHeader, _⟩
      hkeeps'
    refine ⟨lastHeader', ?_⟩
    have hparsed : ist.parsed defaultEntry type record =
        (i, record.timestamp.micros - ist.startTs, buildHeaderValueV2 record type) := by
      rw [IndexState.parsed, hname]
    rw [List.map_cons, List.foldlM_cons, hparsed, hdecode]
    refine hfold.trans ?_
    simp [decodedFrom]

/-- The decoder of responses reads a v2 request. -/
theorem Indexed.parseAndBuild [StdSort] (h : Indexed defaultEntry records ist)
    (htype : type ≠ .kRemove) (hne : records ≠ []) (hlength : records.length < 2 ^ 64)
    (hsorted : InRequestOrder defaultEntry records)
    (hdistinct : (records.map (recordKey defaultEntry)).Nodup)
    (hlegible : ∀ r ∈ records, Legible defaultEntry type r)
    (hsize : ∀ r ∈ records, r.size < 2 ^ 64) (head : Bool) {headers : Headers}
    (hsame : (requestHeadersV2 defaultEntry type ist records).Same headers) :
    parseAndBuildBatchedRecordsV2 head headers =
      .ok (decodedFrom defaultEntry type head [] records) := by
  have hentries : headers.find? kHeaderEntries = some (join (ist.entries.map encodeEntryName)) :=
    find_common hsame (by simp [commonHeadersV2])
  have hstart : headers.find? kHeaderStartTs = some (decimal ist.startTs) :=
    find_common hsame (by simp [commonHeadersV2])
  have hlabels : headers.find? kHeaderLabels = none :=
    h.find_none hlength hdistinct hsame (by decide) (by decide)
  have hlast : headers.get kHeaderLast = [] := by
    rw [Headers.get, h.find_none hlength hdistinct hsame (by decide) (by decide)]
    rfl
  have hlistable : ∀ entry ∈ ist.entries, relisted entry = some entry := by
    intro entry hentry
    obtain ⟨r, hr, rfl⟩ := List.mem_map.1 (h.sublist.subset hentry)
    exact (relisted_iff _).2 (hlegible r hr).entry
  have hlist : parseEncodedList (join (ist.entries.map encodeEntryName)) = ist.entries := by
    rw [parseEncodedList_join, filterMap_eq_self_iff.2 hlistable]
  have hnonempty : ist.entries ≠ [] := by
    obtain ⟨r, rest, rfl⟩ := List.exists_cons_of_ne_nil hne
    exact List.ne_nil_of_mem (h.mem r List.mem_cons_self)
  have hsort := h.sort_parsedHeaders hlength hsorted hdistinct hsame
  have hnone : ∀ i : Nat, (List.replicate ist.entries.length
      (none : Option RecordHeaderV2))[i]?.join = none := by
    intro i
    rw [List.getElem?_replicate]
    split <;> rfl
  have hkeeps : Keeps defaultEntry type ist.entries []
      (List.replicate ist.entries.length none) := by
    refine ⟨List.length_replicate, fun i entry _ => ?_, fun i => ?_⟩
    · rw [hnone]
      rfl
    · rw [hnone]
      exact fun _ => rfl
  obtain ⟨lastHeader, hfold⟩ := @Indexed.foldlM_decodeHeader _ _ _ _ h htype head [] records
    (fun _ => id) hlegible hsize ⟨_, []⟩ hkeeps
  have hnot : ([] : Bytes) ≠ bytes "true" := by decide
  rw [parsedHeaders] at hsort
  simp only [parseAndBuildBatchedRecordsV2, hentries, hstart, hlist, hnonempty, if_false,
    stoull_decimal_nil h.startTs_lt, hlabels, Option.map_none, hlast, hnot, hsort, hfold,
    List.nil_append]
  rfl

end ReadBack

/-! ## Which batches come back -/

/-- The record has the label names of an earlier record, if they share the entry. -/
def Inherits (defaultEntry : Bytes) (earlier record : Record) : Prop :=
  recordEntry earlier defaultEntry = recordEntry record defaultEntry →
    ∀ name ∈ earlier.labels, name ∈ record.labels

theorem decodedRecord_inj {defaultEntry : Bytes} {head : Bool} {record : Record}
    {labels labels' : LabelMap} : decodedRecord defaultEntry head record labels =
      decodedRecord defaultEntry head record labels' ↔ labels = labels' :=
  ⟨congrArg ReadableRecord.labels, congrArg _⟩

/-- The records come back with their own labels if and only if each has the label
names of those before. -/
theorem decodedFrom_eq_iff (defaultEntry : Bytes) (type : BatchType) (head : Bool)
    (before records : List Record) :
    decodedFrom defaultEntry type head before records =
        (records.map fun r => decodedRecord defaultEntry head (r.told type) r.labels) ↔
      (∀ r ∈ before, ∀ r' ∈ records, Inherits defaultEntry r r') ∧
        records.Pairwise (Inherits defaultEntry) := by
  induction records generalizing before with
  | nil => simp [decodedFrom]
  | cons record records ih =>
    have hfirst : accumulated defaultEntry (before ++ [record]) (recordEntry record defaultEntry) =
        record.labels ↔ ∀ r ∈ before, Inherits defaultEntry r record := by
      rw [accumulated_concat, if_pos rfl, union_eq_right_iff]
      constructor
      · intro h r hr hentry name hname
        exact h name (mem_accumulated.2 ⟨r, hr, hentry, hname⟩)
      · intro h name hname
        obtain ⟨r, hr, hentry, hmem⟩ := mem_accumulated.1 hname
        exact h r hr hentry name hmem
    rw [decodedFrom, List.map_cons, List.cons.injEq, decodedRecord_inj, hfirst, ih,
      List.pairwise_cons]
    simp only [List.mem_append, List.mem_cons, List.not_mem_nil, or_false]
    constructor
    · rintro ⟨hhead, hbefore, htail⟩
      refine ⟨?_, fun r hr => hbefore record (.inr rfl) r hr, htail⟩
      rintro r hr r' (rfl | hr')
      · exact hhead r hr
      · exact hbefore r (.inl hr) r' hr'
    · rintro ⟨hbefore, hhead, htail⟩
      refine ⟨fun r hr => hbefore r hr record (.inl rfl), ?_, htail⟩
      rintro r (hr | rfl) r' hr'
      · exact hbefore r hr r' (.inr hr')
      · exact hhead r' hr'

/-- Each record has the label names of the earlier records of its entry. -/
def KeepsLabels (defaultEntry : Bytes) (batch : Batch) : Prop :=
  ∀ r ∈ batch.records, ∀ r' ∈ batch.records, r.timestamp.micros < r'.timestamp.micros →
    Inherits defaultEntry r r'

/-- In request order the earlier records of an entry come first. -/
theorem pairwise_inherits_iff {defaultEntry : Bytes} {records : List Record}
    (hsorted : InRequestOrder defaultEntry records)
    (hdistinct : (records.map (recordKey defaultEntry)).Nodup) :
    records.Pairwise (Inherits defaultEntry) ↔ ∀ r ∈ records, ∀ r' ∈ records,
      r.timestamp.micros < r'.timestamp.micros → Inherits defaultEntry r r' := by
  constructor
  · intro h r hr r' hr' hlt hentry
    obtain ⟨i, hi, rfl⟩ := List.getElem_of_mem hr
    obtain ⟨j, hj, rfl⟩ := List.getElem_of_mem hr'
    rcases Nat.lt_trichotomy i j with hij | rfl | hji
    · exact List.pairwise_iff_getElem.1 h i j hi hj hij hentry
    · exact absurd hlt (Nat.lt_irrefl _)
    · have hle := (List.pairwise_iff_getElem.1 hsorted j i hj hi hji).2 hentry.symm
      omega
  · intro h
    refine (hsorted.and (List.pairwise_map.1 hdistinct)).imp_of_mem ?_
    rintro r r' hr hr' ⟨⟨-, hmicros⟩, hne⟩ hentry
    have hlt : r.timestamp.micros ≠ r'.timestamp.micros := fun heq => hne (Prod.ext hentry heq)
    have hle := hmicros hentry
    exact h r hr r' hr' (by omega) hentry

variable [StdSort]

/-- The decoder of responses makes the records of the batch out of the headers of
its request, in request order and whatever the iteration order of the headers. -/
def RoundTrips (defaultEntry : Bytes) (batch : Batch) (requireEntry : Bool) : Prop :=
  ∃ request, buildBatchV2Request defaultEntry batch .kWrite requireEntry = .ok request ∧
    batch.IsOrder request.ordered ∧ ∀ head headers, request.headers.Same headers →
      parseAndBuildBatchedRecordsV2 head headers = .ok ((batch.inOrder request.ordered).map fun r =>
        decodedRecord defaultEntry head r r.labels)

section Batches

variable {batch : Batch} {defaultEntry : Bytes}

/-- What the decoder makes of the request of a batch that is read back. -/
theorem exists_decoded {type : BatchType} (htype : type ≠ .kRemove)
    (hepoch : ∀ r ∈ batch.records, r.timestamp.AfterEpoch)
    (hlegible : ∀ r ∈ batch.records, Legible defaultEntry type r)
    (hdistinct : DistinctKeys batch defaultEntry) (requireEntry : Bool) :
    ∃ request, buildBatchV2Request defaultEntry batch type requireEntry = .ok request ∧
      request.ordered = sortRecords batch defaultEntry true ∧
      ∀ head headers, request.headers.Same headers → parseAndBuildBatchedRecordsV2 head headers =
        .ok (decodedFrom defaultEntry type head [] (batch.inOrder request.ordered)) := by
  have hperm := (sortRecords_isOrder batch defaultEntry true).inOrder_perm
  rcases buildBatchV2Request_cases defaultEntry batch type requireEntry with
    ⟨-, hordered, heq⟩ | ⟨-, ⟨-, r, hr, hentry⟩, -⟩ | ⟨hne, -, -, st, hindexed, heq⟩
  · refine ⟨_, heq, hordered.symm, ?_⟩
    intro head headers hsame
    have hnone : headers.find? kHeaderEntries = none := by rw [← hsame.find?]; rfl
    rw [parseAndBuildBatchedRecordsV2, hnone]
    rfl
  · exact absurd hentry (hlegible r hr).entry.1
  · refine ⟨_, heq, rfl, ?_⟩
    intro head headers hsame
    have hmem : ∀ r ∈ batch.inOrder (sortRecords batch defaultEntry true), r ∈ batch.records :=
      fun r => hperm.mem_iff.1
    refine hindexed.parseAndBuild htype ?_ (sortRecords_isOrder batch defaultEntry true).inOrder_lt
      (sortRecords_byEntry hepoch defaultEntry) ((hperm.map _).nodup_iff.2 hdistinct)
      (fun r hr => hlegible r (hmem r hr)) (fun r hr => batch.size_lt (hmem r hr)) head hsame
    intro hnil
    rw [hnil] at hperm
    exact hne hperm.symm.eq_nil

/-- Words are read back. -/
theorem exists_decoded_words (hepoch : ∀ r ∈ batch.records, r.timestamp.AfterEpoch)
    (hword : ∀ r ∈ batch.records, Worded defaultEntry r)
    (hdistinct : DistinctKeys batch defaultEntry) (requireEntry : Bool) :
    ∃ request, buildBatchV2Request defaultEntry batch .kWrite requireEntry = .ok request ∧
      request.ordered = sortRecords batch defaultEntry true ∧
      ∀ head headers, request.headers.Same headers → parseAndBuildBatchedRecordsV2 head headers =
        .ok (decodedFrom defaultEntry .kWrite head [] (batch.inOrder request.ordered)) :=
  exists_decoded (by decide) hepoch (fun r hr => (hword r hr).legible .kWrite) hdistinct
    requireEntry

theorem keepsLabels_iff (hepoch : ∀ r ∈ batch.records, r.timestamp.AfterEpoch)
    (hdistinct : DistinctKeys batch defaultEntry) (head : Bool) :
    KeepsLabels defaultEntry batch ↔
      decodedFrom defaultEntry .kWrite head []
          (batch.inOrder (sortRecords batch defaultEntry true)) =
        (batch.inOrder (sortRecords batch defaultEntry true)).map fun r =>
          decodedRecord defaultEntry head r r.labels := by
  have hperm := (sortRecords_isOrder batch defaultEntry true).inOrder_perm
  refine Iff.trans ?_ (decodedFrom_eq_iff defaultEntry .kWrite head [] _).symm
  rw [pairwise_inherits_iff (sortRecords_byEntry hepoch defaultEntry)
    ((hperm.map _).nodup_iff.2 hdistinct)]
  simp only [KeepsLabels, hperm.mem_iff, List.not_mem_nil, false_implies, implies_true, true_and]

theorem RoundTrips.keepsLabels {requireEntry : Bool} (h : RoundTrips defaultEntry batch requireEntry)
    (hepoch : ∀ r ∈ batch.records, r.timestamp.AfterEpoch)
    (hword : ∀ r ∈ batch.records, Worded defaultEntry r)
    (hdistinct : DistinctKeys batch defaultEntry) : KeepsLabels defaultEntry batch := by
  obtain ⟨request, hbuilt, -, hparse⟩ := h
  obtain ⟨request', hbuilt', hordered, hparse'⟩ :=
    exists_decoded_words hepoch hword hdistinct requireEntry
  obtain rfl : request = request' := Except.ok.inj (hbuilt.symm.trans hbuilt')
  have hsame : request.headers.Same request.headers := List.Perm.refl _
  rw [keepsLabels_iff hepoch hdistinct false, ← hordered]
  exact Except.ok.inj ((hparse' false _ hsame).symm.trans (hparse false _ hsame))

end Batches

/-- A batch of words comes back from protocol v2 if and only if each record has
the label names of the earlier records of its entry. -/
theorem roundTrips_iff (batch : Batch) (defaultEntry : Bytes)
    (hepoch : ∀ r ∈ batch.records, r.timestamp.AfterEpoch)
    (hword : ∀ r ∈ batch.records, Worded defaultEntry r)
    (hdistinct : DistinctKeys batch defaultEntry) (requireEntry : Bool) :
    RoundTrips defaultEntry batch requireEntry ↔ KeepsLabels defaultEntry batch := by
  refine ⟨fun h => h.keepsLabels hepoch hword hdistinct, ?_⟩
  intro hkeeps
  obtain ⟨request, hbuilt, hordered, hparse⟩ :=
    exists_decoded_words hepoch hword hdistinct requireEntry
  refine ⟨request, hbuilt, hordered ▸ sortRecords_isOrder batch defaultEntry true, ?_⟩
  intro head headers hsame
  rw [hparse head headers hsame, hordered, (keepsLabels_iff hepoch hdistinct head).1 hkeeps]

omit [StdSort] in
theorem wordLabels_insert {labels : LabelMap} {name value : Bytes} (h : WordLabels labels)
    (hname : IsWord name) (hvalue : IsWord value) : WordLabels (labels.insert name value) := by
  rintro ⟨name', value'⟩ hlabel
  rw [Std.ExtTreeMap.mem_toList_iff_getElem?_eq_some, Std.ExtTreeMap.getElem?_insert] at hlabel
  split_ifs at hlabel with heq
  · cases hlabel
    exact ⟨Std.compare_eq_iff_eq.1 heq ▸ hname, hvalue⟩
  · exact h _ (Std.ExtTreeMap.mem_toList_iff_getElem?_eq_some.2 hlabel)

/-- A record with a label and a later one of the same entry without labels. -/
def labelThenNone : Batch where
  records := [⟨bytes "e", .wrap 1000, 1, bytes "t", (∅ : LabelMap).insert (bytes "k") (bytes "v"),
      some 0⟩,
    ⟨bytes "e", .wrap 2000, 2, bytes "t", ∅, some 1⟩]
  body := threeBytes
  size := 3
  records_lt := by decide
  dataIndex_eq := rfl
  record_size := by simp [threeBytes, Blob.size]; decide
  size_eq := threeBytes_size

omit [StdSort] in
theorem labelThenNone_worded : ∀ r ∈ labelThenNone.records, Worded [] r := by
  have hempty : WordLabels ∅ := by simp [WordLabels]
  have hentry : IsWord (bytes "e") := by decide
  have htype : IsWord (bytes "t") := by decide
  simp only [labelThenNone, List.forall_mem_cons, List.not_mem_nil, false_implies, implies_true,
    and_true]
  exact ⟨⟨hentry, htype, wordLabels_insert hempty (by decide) (by decide)⟩, ⟨hentry, htype, hempty⟩⟩

omit [StdSort] in
theorem roundTrips_iff_sample :
    @RoundTrips .insertion [] labelThenNone true ↔ KeepsLabels [] labelThenNone :=
  @roundTrips_iff .insertion labelThenNone [] (by decide) labelThenNone_worded
    (by unfold DistinctKeys; decide) true

omit [StdSort] in
/-- The second record comes back with the label of the first. -/
theorem roundTrips_broken :
    (∀ r ∈ labelThenNone.records, r.timestamp.AfterEpoch ∧ Worded [] r) ∧
      DistinctKeys labelThenNone [] ∧ ¬ @RoundTrips .insertion [] labelThenNone true := by
  have hepoch : ∀ r ∈ labelThenNone.records, r.timestamp.AfterEpoch := by decide
  have hdistinct : DistinctKeys labelThenNone [] := by unfold DistinctKeys; decide
  refine ⟨fun r hr => ⟨hepoch r hr, labelThenNone_worded r hr⟩, hdistinct, ?_⟩
  intro h
  have hkeeps := @RoundTrips.keepsLabels .insertion labelThenNone [] true h hepoch
    labelThenNone_worded hdistinct
  have hname : bytes "k" ∈ (∅ : LabelMap) := by
    refine hkeeps _ List.mem_cons_self _ (.tail _ List.mem_cons_self) (by decide) rfl (bytes "k") ?_
    simp
  simp at hname

end Reduct
