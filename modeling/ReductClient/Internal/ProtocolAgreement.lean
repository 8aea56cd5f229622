-- SUMMARY: The same records announced over both protocols, and what the two decoders make of them.
import ReductClient.Internal.DecodingV2
import ReductClient.Internal.RecordValuesV1
import ReductClient.Internal.RoundTrip

open Cxx Fallible

namespace Reduct

/-! ## Records of a query -/

/-- A record of an entry, with a content type and labels of letters. -/
structure QueryRecord where
  micros : Nat
  size : Nat
  contentType : Bytes
  labels : LabelMap
  size_pos : 0 < size
  contentType_word : IsWord contentType
  labels_word : WordLabels labels

/-- The label operations of a delta. -/
abbrev LabelOps := List (Bytes × Option Bytes)

/-- The labels of each record are those of the record before, changed by the
operations of its delta. -/
def DeltaCoded : LabelMap → List QueryRecord → List LabelOps → Prop
  | _, [], deltas => deltas = []
  | previous, record :: records, deltas =>
    ∃ ops rest, deltas = ops :: rest ∧ (∀ op ∈ ops, WordOp op) ∧
      ops.foldl applyLabelOp previous = record.labels ∧ DeltaCoded record.labels records rest

/-- The header of a record in a v2 response with one entry. -/
def QueryRecord.headerV2 (startTs : Nat) (record : QueryRecord) (ops : LabelOps) : Bytes × Bytes :=
  (recordNameV2 (0, record.micros - startTs),
    decimal record.size ++ comma :: (record.contentType ++ comma :: join (ops.map labelOpItem)))

theorem formatLabels_no_quotation {labels : LabelMap} (h : WordLabels labels) :
    quotation ∉ formatLabels labels := by
  have hcomma : quotation ≠ comma := by decide
  have hequals : quotation ≠ equalsSign := by decide
  rw [formatLabels_eq h]
  intro hquote
  obtain heq | ⟨item, hitem, hquote⟩ := mem_join hquote
  · exact hcomma heq
  · obtain ⟨label, hlabel, rfl⟩ := List.mem_map.1 hitem
    obtain ⟨hkey, hvalue⟩ := h label hlabel
    simp [labelItem, hkey.not_mem (show isLetter quotation = false by decide),
      hvalue.not_mem (show isLetter quotation = false by decide), hequals] at hquote

/-- The record as a v1 response announces it. -/
def QueryRecord.toV1 (record : QueryRecord) : RecordV1 where
  micros := record.micros
  size := record.size
  contentType := record.contentType
  labels := some (formatLabels record.labels)
  size_pos := record.size_pos
  contentType_ne := record.contentType_word.1
  contentType_comma := record.contentType_word.not_mem (by decide)
  contentType_plain := record.contentType_word.not_mem (by decide)
  labels_plain := by
    intro text htext
    cases htext
    exact formatLabels_no_quotation record.labels_word

/-- The csv fields of formatted labels give the labels back. -/
theorem csvLabels_formatLabels {labels : LabelMap} (h : WordLabels labels) :
    csvLabels (getlines comma (formatLabels labels)) = labels := by
  have hitem : ∀ item ∈ labels.toList.map labelItem, comma ∉ item ∧ item ≠ [] := by
    refine List.forall_mem_map.2 fun label hlabel => ?_
    obtain ⟨hkey, hvalue⟩ := h label hlabel
    have hcomma : comma ≠ equalsSign := by decide
    simp [labelItem, hkey.not_mem (show isLetter comma = false by decide),
      hvalue.not_mem (show isLetter comma = false by decide), hcomma]
  rw [formatLabels_eq h, getlines_join (fun i hi => (hitem i hi).1) fun i hi => (hitem i hi).2]
  have hops := foldl_applyLabelOp ∅ labels
  rw [(union_eq_right_iff ∅ labels).2 (by simp), List.foldl_map] at hops
  rw [csvLabels, List.foldl_map]
  refine Eq.trans (List.foldl_ext _ _ _ fun kept label hlabel => ?_) hops
  have hequals : equalsSign ∉ label.1 := (h label hlabel).1.not_mem (by decide)
  rw [labelItem, splitFirst_append hequals]
  rfl

/-! ## The v2 response -/

/-- A v2 response announces the records as those of one entry. -/
structure AnnouncesV2 (headers : Headers) (entry : Bytes) (startTs : Nat) (deltas : List LabelOps)
    (records : List QueryRecord) : Prop where
  entries : ∃ raw, headers.find? kHeaderEntries = some raw ∧ parseEncodedList raw = [entry]
  start : headers.find? kHeaderStartTs = some (decimal startTs)
  startTs_le : ∀ r ∈ records, startTs ≤ r.micros
  deltaCoded : DeltaCoded ∅ records deltas
  perm : (recordHeaders isRecordNameV2 headers).Perm
    ((records.zip deltas).map fun p => p.1.headerV2 startTs p.2)

theorem DeltaCoded.length_eq {previous : LabelMap} {records : List QueryRecord}
    {deltas : List LabelOps} (h : DeltaCoded previous records deltas) :
    deltas.length = records.length := by
  induction records generalizing previous deltas with
  | nil =>
    have hnil : deltas = [] := h
    simp [hnil]
  | cons record records ih =>
    obtain ⟨ops, rest, rfl, -, -, hrest⟩ := h
    simp [ih hrest]

/-- The parsed headers are those of the record headers. -/
theorem parsedHeaders_eq (headers : Headers) :
    parsedHeaders headers = (recordHeaders isRecordNameV2 headers).filterMap fun (key, value) =>
      (parseBatchedHeaderNameV2 key).map fun (entryIdx, delta) => (entryIdx, delta, value) := by
  rw [parsedHeaders, recordHeaders, List.filterMap_filter]
  refine List.filterMap_congr fun header _ => ?_
  cases hname : parseBatchedHeaderNameV2 header.1 <;> simp [isRecordNameV2, hname]

/-- The record the v2 decoder returns, before the flag is set. -/
def QueryRecord.decodedV2 (head : Bool) (entry : Bytes) (record : QueryRecord) : ReadableRecord where
  entry := entry
  timestamp := timeFromMicroseconds record.micros
  size := record.size
  last := false
  labels := record.labels
  contentType := record.contentType
  read := ⟨.v2 record.size, head⟩

/-- The parsed header of a record. -/
def QueryRecord.parsed (startTs : Nat) (record : QueryRecord) (ops : LabelOps) : ParsedHeader :=
  (0, record.micros - startTs, (record.headerV2 startTs ops).2)

/-- The labels of a header are those of the record before, changed by its delta. -/
theorem parseRecordHeaderV2_delta {record : QueryRecord} (hsize : record.size < 2 ^ 64)
    {previous : Option RecordHeaderV2} {ops : LabelOps} (hops : ∀ op ∈ ops, WordOp op)
    (hlabels : ops.foldl applyLabelOp (keptLabels previous) = record.labels) (startTs : Nat)
    (labelNames : Option (List Bytes)) :
    parseRecordHeaderV2 (record.headerV2 startTs ops).2 previous labelNames =
      .ok (some ⟨record.size, record.contentType, record.labels⟩) := by
  have hcomma : comma ∉ record.contentType := record.contentType_word.not_mem (by decide)
  have hfields : headerFields (some (record.contentType ++
      comma :: join (ops.map labelOpItem))) =
      (record.contentType, some (join (ops.map labelOpItem))) := by
    simp only [headerFields, splitFirst_append hcomma, record.contentType_word.trim_eq]
  have hparsed := @parseRecordHeaderV2_decimal _ hsize previous _ _ _ hfields labelNames
    record.labels (by rw [← hlabels]; exact applyLabelDelta_ops hops _ _)
  rwa [if_neg record.contentType_word.1] at hparsed

/-- The loop of the decoder over the records of the entry. -/
theorem foldlM_decodeHeader_deltas {head : Bool} {entry : Bytes} {startTs : Nat}
    {labelNames : Option (List Bytes)} {records : List QueryRecord} {deltas : List LabelOps}
    {previous : Option RecordHeaderV2} (hdeltas : DeltaCoded (keptLabels previous) records deltas)
    (hstart : ∀ r ∈ records, startTs ≤ r.micros)
    (hlt : ∀ r ∈ records, r.size < 2 ^ 64 ∧ r.micros < 2 ^ 64) (decoded : List ReadableRecord) :
    ∃ last, ((records.zip deltas).map fun p => p.1.parsed startTs p.2).foldlM
        (decodeHeader head [entry] startTs labelNames) ⟨[previous], decoded⟩ =
      .ok ⟨[last], decoded ++ records.map (QueryRecord.decodedV2 head entry)⟩ := by
  induction records generalizing previous deltas decoded with
  | nil => exact ⟨previous, by simp [pure, Except.pure]⟩
  | cons record records ih =>
    obtain ⟨ops, rest, rfl, hops, hlabels, hrest⟩ := hdeltas
    simp only [List.forall_mem_cons] at hstart hlt
    have hparse := parseRecordHeaderV2_delta hlt.1.1 hops hlabels startTs labelNames
    have htime : (startTs + (record.micros - startTs)) % 2 ^ 64 = record.micros := by
      rw [Nat.add_sub_cancel' hstart.1, Nat.mod_eq_of_lt hlt.1.2]
    have hstep : decodeHeader head [entry] startTs labelNames ⟨[previous], decoded⟩
        (record.parsed startTs ops) =
        .ok ⟨[some ⟨record.size, record.contentType, record.labels⟩],
          decoded ++ [record.decodedV2 head entry]⟩ := by
      simp only [decodeHeader, QueryRecord.parsed, List.getElem?_cons_zero, Option.join_some, hparse,
        ok_bind, htime]
      rfl
    obtain ⟨last, hlast⟩ := @ih rest (some ⟨record.size, record.contentType, record.labels⟩)
      hrest hstart.2 hlt.2 (decoded ++ [record.decodedV2 head entry])
    refine ⟨last, ?_⟩
    rw [List.zip_cons_cons, List.map_cons, List.foldlM_cons, hstep, ok_bind, hlast]
    simp

variable [StdSort]

section Response

variable {headers : Headers} {entry : Bytes} {startTs : Nat} {deltas : List LabelOps}
  {records : List QueryRecord}

omit [StdSort] in
theorem AnnouncesV2.parsedHeaders_perm (h : AnnouncesV2 headers entry startTs deltas records)
    (hlt : ∀ r ∈ records, r.micros < 2 ^ 64) :
    (parsedHeaders headers).Perm ((records.zip deltas).map fun p => p.1.parsed startTs p.2) := by
  rw [parsedHeaders_eq]
  refine (h.perm.filterMap _).trans (List.Perm.of_eq ?_)
  rw [List.filterMap_map, List.filterMap_eq_map_iff_forall_eq_some]
  intro p hp
  have hmicros := hlt p.1 (List.of_mem_zip hp).1
  have hname : parseBatchedHeaderNameV2 (p.1.headerV2 startTs p.2).1 =
      some (0, p.1.micros - startTs) :=
    parse_recordNameV2 (show 0 < 2 ^ 64 by decide)
      (show p.1.micros - startTs < 2 ^ 64 by omega)
  simp only [Function.comp_apply, hname]
  rfl

/-- Whatever the iteration order, the deltas put the headers in the order of the
records. -/
theorem AnnouncesV2.sort_parsedHeaders (h : AnnouncesV2 headers entry startTs deltas records)
    (hascending : records.Pairwise fun r r' => r.micros < r'.micros)
    (hlt : ∀ r ∈ records, r.micros < 2 ^ 64) :
    StdSort.sort parsedHeaderLess (parsedHeaders headers) =
      (records.zip deltas).map fun p => p.1.parsed startTs p.2 := by
  refine sort_eq parsedHeaderLess_swo (h.parsedHeaders_perm hlt) ?_
  have hfst : (records.zip deltas).map Prod.fst = records :=
    List.map_fst_zip (by rw [h.deltaCoded.length_eq])
  rw [← hfst, List.pairwise_map] at hascending
  rw [List.pairwise_map]
  refine hascending.imp_of_mem ?_
  intro p p' hp hp' hlt
  have hle := h.startTs_le p.1 (List.of_mem_zip hp).1
  have hdelta : p.1.micros - startTs < p'.1.micros - startTs := by omega
  simp [parsedHeaderLess, QueryRecord.parsed, hdelta]

/-- The records come out as they are. -/
theorem AnnouncesV2.decodes (h : AnnouncesV2 headers entry startTs deltas records)
    (hascending : records.Pairwise fun r r' => r.micros < r'.micros)
    (hlt : ∀ r ∈ records, r.size < 2 ^ 64 ∧ r.micros < 2 ^ 64) (head : Bool) :
    parseAndBuildBatchedRecordsV2 head headers =
      .ok (flagLast (announcesEnd headers) (records.map (QueryRecord.decodedV2 head entry))) := by
  obtain ⟨raw, hraw, hentries⟩ := h.entries
  have hsort := h.sort_parsedHeaders hascending fun r hr => (hlt r hr).2
  obtain ⟨last, hloop⟩ := @foldlM_decodeHeader_deltas head entry startTs
    ((headers.find? kHeaderLabels).map parseEncodedList) records deltas none h.deltaCoded
    h.startTs_le hlt []
  have hne : [entry] ≠ [] := List.cons_ne_nil _ _
  have hloop' : (StdSort.sort parsedHeaderLess (parsedHeaders headers)).foldlM
      (decodeHeader head [entry] startTs ((headers.find? kHeaderLabels).map parseEncodedList))
      ⟨List.replicate [entry].length none, []⟩ =
      .ok ⟨[last], records.map (QueryRecord.decodedV2 head entry)⟩ := by
    rw [hsort]
    exact hloop
  unfold parsedHeaders at hsort hloop'
  unfold parseAndBuildBatchedRecordsV2
  rw [hraw, h.start]
  simp only [hentries, hne, if_false]
  by_cases hnil : records = []
  · -- without records nothing depends on the start timestamp
    subst hnil
    cases stoull (decimal startTs) with
    | error fault => simp [pure, Except.pure]
    | ok n =>
      simp only
      rw [hsort, List.zip_nil_left, List.map_nil, List.foldlM_nil, pure_bind]
      simp [flagLast, announcesEnd, pure, Except.pure]
  · have hstart : startTs < 2 ^ 64 := by
      obtain ⟨r, hr⟩ := List.exists_mem_of_ne_nil _ hnil
      exact (h.startTs_le r hr).trans_lt (hlt r hr).2
    rw [stoull_decimal_nil hstart]
    simp only
    rw [hloop', ok_bind]
    simp [flagLast, announcesEnd, pure, Except.pure]

omit [StdSort] in
/-- The records come out as they are, but for the entry. -/
theorem AnnouncesV1.decodes_toV1 (h : AnnouncesV1 headers (records.map QueryRecord.toV1))
    (hdigits : ∀ r ∈ records, ∀ r' ∈ records,
      (decimal r.micros).length = (decimal r'.micros).length)
    (hlt : ∀ r ∈ records, r.size < 2 ^ 63 ∧ r.micros < 2 ^ 64) (head : Bool) :
    parseAndBuildBatchedRecordsV1 head headers =
      .ok (flagLast (announcesEnd headers)
        (records.map fun r => r.toV1.decoded head)) := by
  have hsorted := sorted_of_digits h.ascending
    (List.forall_mem_map.2 fun r hr => List.forall_mem_map.2 fun r' hr' => hdigits r hr r' hr')
  rw [h.decodes hsorted (List.forall_mem_map.2 hlt) head, List.map_map]
  rfl

end Response

/-! ## Agreement -/

/-- What a record shows, apart from its data. -/
def ReadableRecord.visible (record : ReadableRecord) :
    Bytes × Time × Nat × Bytes × LabelMap × Bool :=
  (record.entry, record.timestamp, record.size, record.contentType, record.labels, record.last)

/-- The two responses give the same list of readable records. -/
def ProtocolsAgree (head : Bool) (headersV1 headersV2 : Headers) : Prop :=
  ∃ recordsV1 recordsV2, parseAndBuildBatchedRecordsV1 head headersV1 = .ok recordsV1 ∧
    parseAndBuildBatchedRecordsV2 head headersV2 = .ok recordsV2 ∧
    recordsV1.map ReadableRecord.visible = recordsV2.map ReadableRecord.visible

omit [StdSort] in
/-- A name that is listed is not empty. -/
theorem ne_nil_of_mem_parseEncodedList {raw entry : Bytes} (h : entry ∈ parseEncodedList raw) :
    entry ≠ [] := by
  obtain ⟨item, -, hitem⟩ := List.mem_filterMap.1 h
  split at hitem
  · cases hitem
  · rename_i hne
    rintro rfl
    obtain ⟨c, rest, hcons⟩ := List.exists_cons_of_ne_nil hne
    rw [hcons, decodeEntryName.eq_def] at hitem
    dsimp only at hitem
    split at hitem
    · split at hitem
      · split at hitem
        · obtain ⟨_, -, hnil⟩ := Option.map_eq_some_iff.1 hitem
          cases hnil
        · cases hitem
      · cases hitem
    · obtain ⟨_, -, hnil⟩ := Option.map_eq_some_iff.1 hitem
      cases hnil

omit [StdSort] in
/-- The v1 decoder leaves the entry of a record empty. -/
theorem entry_of_decodedV1 {head : Bool} {headers : Headers} {out : List ReadableRecord}
    (h : parseAndBuildBatchedRecordsV1 head headers = .ok out) :
    out.map ReadableRecord.entry = (orderedRecordHeaders headers).map fun _ => [] := by
  rw [parseAndBuildBatchedRecordsV1_eq] at h
  obtain ⟨decoded, hdecoded, h⟩ := bind_eq_ok.1 h
  cases h
  rw [map_flagLast fun _ _ => rfl]
  have hall := mapM_eq_ok.1 hdecoded
  clear h hdecoded
  generalize orderedRecordHeaders headers = ordered at hall
  induction hall with
  | nil => rfl
  | cons hrecord _ ih =>
    obtain ⟨csv, -, hrecord⟩ := bind_eq_ok.1 hrecord
    obtain ⟨timestamp, -, hrecord⟩ := bind_eq_ok.1 hrecord
    cases hrecord
    rw [List.map_cons, List.map_cons, ih]

section Agreement

variable {headersV1 headersV2 : Headers} {entry : Bytes} {startTs : Nat} {deltas : List LabelOps}
  {records : List QueryRecord}

/-- A record is enough to tell the protocols apart, by its entry. -/
theorem ProtocolsAgree.eq_nil (h₁ : AnnouncesV1 headersV1 (records.map QueryRecord.toV1))
    (h₂ : AnnouncesV2 headersV2 entry startTs deltas records) {head : Bool}
    (h : ProtocolsAgree head headersV1 headersV2) : records = [] := by
  obtain ⟨recordsV1, recordsV2, hrecordsV1, hrecordsV2, hsame⟩ := h
  obtain ⟨raw, hraw, hentries⟩ := h₂.entries
  have hentry : recordsV1.map ReadableRecord.entry = recordsV2.map ReadableRecord.entry := by
    have := congrArg (List.map Prod.fst) hsame
    rwa [List.map_map, List.map_map] at this
  obtain ⟨decoded, rfl, hdecoded, -⟩ := parseAndBuildBatchedRecordsV2_ok hrecordsV2
  rw [entry_of_decodedV1 hrecordsV1, map_flagLast fun _ _ => rfl] at hentry
  have hlength : (orderedRecordHeaders headersV1).length = records.length := by
    rw [((orderedRecordHeaders_perm headersV1).trans h₁.perm).length_eq, List.length_map,
      List.length_map]
  by_contra hnil
  have hpos := List.length_pos_iff.2 hnil
  obtain ⟨header, hheader⟩ := List.exists_mem_of_length_pos (hlength ▸ hpos)
  have hmem : ([] : Bytes) ∈ decoded.map ReadableRecord.entry := by
    rw [← hentry]
    exact List.mem_map_of_mem (f := fun _ => []) hheader
  obtain ⟨r, hr, hempty⟩ := List.mem_map.1 hmem
  have hin := (hdecoded r hr).entry
  rw [responseEntries, hraw, Option.map_some, Option.getD_some, hempty] at hin
  exact ne_nil_of_mem_parseEncodedList hin rfl

/-- The two decoders agree on the records of an entry if and only if there are none:
the v1 decoder leaves the entry empty. All other fields are the same. -/
theorem protocolsAgree_iff (h₁ : AnnouncesV1 headersV1 (records.map QueryRecord.toV1))
    (h₂ : AnnouncesV2 headersV2 entry startTs deltas records)
    (hdigits : ∀ r ∈ records, ∀ r' ∈ records,
      (decimal r.micros).length = (decimal r'.micros).length)
    (hflag : announcesEnd headersV1 = announcesEnd headersV2) (head : Bool) :
    (ProtocolsAgree head headersV1 headersV2 ↔ records = []) ∧
      ((∀ r ∈ records, r.size < 2 ^ 63 ∧ r.micros < 2 ^ 64) → ∃ recordsV1 recordsV2,
        parseAndBuildBatchedRecordsV1 head headersV1 = .ok recordsV1 ∧
        parseAndBuildBatchedRecordsV2 head headersV2 = .ok recordsV2 ∧
        (recordsV1.map fun r => { r with entry := entry }.visible) =
          recordsV2.map ReadableRecord.visible) := by
  have hascending := h₁.ascending
  rw [List.pairwise_map] at hascending
  have hdecodes : (∀ r ∈ records, r.size < 2 ^ 63 ∧ r.micros < 2 ^ 64) →
      parseAndBuildBatchedRecordsV1 head headersV1 =
          .ok (flagLast (announcesEnd headersV1) (records.map fun r => r.toV1.decoded head)) ∧
        parseAndBuildBatchedRecordsV2 head headersV2 =
          .ok (flagLast (announcesEnd headersV1) (records.map (QueryRecord.decodedV2 head entry))) := by
    intro hlt
    refine ⟨h₁.decodes_toV1 hdigits hlt head, ?_⟩
    rw [hflag]
    refine h₂.decodes hascending (fun r hr => ⟨?_, (hlt r hr).2⟩) head
    have := (hlt r hr).1
    omega
  refine ⟨⟨fun h => h.eq_nil h₁ h₂, ?_⟩, ?_⟩
  · rintro rfl
    obtain ⟨hrecordsV1, hrecordsV2⟩ := hdecodes (by simp)
    exact ⟨_, _, hrecordsV1, hrecordsV2, by simp⟩
  · intro hlt
    obtain ⟨hrecordsV1, hrecordsV2⟩ := hdecodes hlt
    refine ⟨_, _, hrecordsV1, hrecordsV2, ?_⟩
    have hsame : ∀ (r : QueryRecord) (last : Bool),
        ReadableRecord.visible { r.toV1.decoded head with last := last, entry := entry } =
          ReadableRecord.visible { r.decodedV2 head entry with last := last } := by
      intro r last
      have hlabels : csvLabels r.toV1.labelFields = r.labels := csvLabels_formatLabels r.labels_word
      simp only [ReadableRecord.visible, RecordV1.decoded, hlabels]
      rfl
    rcases List.eq_nil_or_concat' records with rfl | ⟨init, r, rfl⟩
    · simp
    · rw [List.map_append, List.map_append, List.map_singleton, List.map_singleton,
        flagLast_concat _ _ rfl, flagLast_concat _ _ rfl, List.map_append, List.map_append,
        List.map_map, List.map_map]
      exact congrArg₂ _ (List.map_congr_left fun r _ => hsame r false)
        (congrArg (fun v => [v]) (hsame r (announcesEnd headersV1)))

end Agreement

/-- A record with a label, and a later one without it. -/
def labelThenErased : List QueryRecord :=
  [⟨1000, 1, bytes "t", (∅ : LabelMap).insert (bytes "k") (bytes "v"), Nat.one_pos, by decide,
      wordLabels_insert (by simp [WordLabels]) (by decide) (by decide)⟩,
    ⟨1001, 2, bytes "t", ∅, by decide, by decide, by simp [WordLabels]⟩]

/-- The records over v1. -/
def erasedV1 : Headers where
  toList := [(bytes "x-reduct-time-1001", bytes "2,t,"), (bytes "x-reduct-time-1000", bytes "1,t,k=v"),
    (bytes "x-reduct-last", bytes "true")]
  nodup := by decide

/-- The records over v2: the second one erases the label. -/
def erasedV2 : Headers where
  toList := [(bytes "x-reduct-entries", bytes "e"), (bytes "x-reduct-start-ts", bytes "1000"),
    (bytes "x-reduct-0-1", bytes "2,t,k="), (bytes "x-reduct-0-0", bytes "1,t,k=v"),
    (bytes "x-reduct-last", bytes "true")]
  nodup := by decide

omit [StdSort] in
theorem erasedV1_announces : AnnouncesV1 erasedV1 (labelThenErased.map QueryRecord.toV1) :=
  ⟨by decide, by decide⟩

omit [StdSort] in
theorem erasedV2_announces : AnnouncesV2 erasedV2 (bytes "e") 1000
    [[(bytes "k", some (bytes "v"))], [(bytes "k", none)]] labelThenErased where
  entries := ⟨bytes "e", rfl, rfl⟩
  start := rfl
  startTs_le := by decide
  deltaCoded := by
    have hword : IsWord (bytes "k") ∧ IsWord (bytes "v") := by decide
    refine ⟨_, _, rfl, ?_, rfl, _, _, rfl, ?_, rfl, rfl⟩
    · simpa [WordOp] using hword
    · simpa [WordOp] using hword.1
  perm := by decide

omit [StdSort] in
theorem protocolsAgree_iff_sample :
    (@ProtocolsAgree .insertion false erasedV1 erasedV2 ↔ labelThenErased = []) ∧
      ((∀ r ∈ labelThenErased, r.size < 2 ^ 63 ∧ r.micros < 2 ^ 64) → ∃ recordsV1 recordsV2,
        parseAndBuildBatchedRecordsV1 false erasedV1 = .ok recordsV1 ∧
        @parseAndBuildBatchedRecordsV2 .insertion false erasedV2 = .ok recordsV2 ∧
        (recordsV1.map fun r => { r with entry := bytes "e" }.visible) =
          recordsV2.map ReadableRecord.visible) :=
  @protocolsAgree_iff .insertion _ _ _ _ _ _ erasedV1_announces erasedV2_announces (by decide)
    (by decide) false

omit [StdSort] in
/-- The records come without their entry over v1. -/
theorem protocolsAgree_broken :
    AnnouncesV1 erasedV1 (labelThenErased.map QueryRecord.toV1) ∧
      AnnouncesV2 erasedV2 (bytes "e") 1000
        [[(bytes "k", some (bytes "v"))], [(bytes "k", none)]] labelThenErased ∧
      ¬ @ProtocolsAgree .insertion false erasedV1 erasedV2 := by
  refine ⟨erasedV1_announces, erasedV2_announces, ?_⟩
  intro h
  have hnil := @ProtocolsAgree.eq_nil .insertion _ _ _ _ _ _ erasedV1_announces erasedV2_announces _ h
  cases hnil

end Reduct
