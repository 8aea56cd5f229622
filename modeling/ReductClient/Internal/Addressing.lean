-- SUMMARY: Which records a batch request addresses over each protocol, and when they are those that the records of the batch name.
import ReductClient.Internal.RecordLoss

open Cxx

namespace Reduct

/-! ## Encoded entry names -/

/-- An encoded name has plain characters only, so no comma. -/
theorem isPlainEntryChar_of_mem_encodeEntryName {entry : Bytes} {c : UInt8}
    (h : c ∈ encodeEntryName entry) : isPlainEntryChar c = true := by
  have hhex : ∀ d < 16, isPlainEntryChar (hexDigit d) = true := by decide
  have hpercent : isPlainEntryChar percent = true := by decide
  obtain ⟨b, -, hc⟩ := List.mem_flatMap.1 h
  have hb := b.toNat_lt
  split at hc
  · rename_i hplain
    rwa [List.mem_singleton.1 hc]
  · simp only [List.mem_cons, List.not_mem_nil, or_false] at hc
    rcases hc with rfl | rfl | rfl
    · exact hpercent
    · exact hhex _ (by omega)
    · exact hhex _ (by omega)

theorem encodeEntryName_no_comma (entry : Bytes) : comma ∉ encodeEntryName entry := fun h =>
  absurd (isPlainEntryChar_of_mem_encodeEntryName h) (by decide)

/-- The encoded names are the fields of the list. -/
theorem splitOn_join_encodeEntryName {entries : List Bytes} (h : entries ≠ []) :
    (join (entries.map encodeEntryName)).splitOn comma = entries.map encodeEntryName :=
  List.splitOn_intercalate comma
    (List.forall_mem_map.2 fun entry _ => encodeEntryName_no_comma entry) (by simpa using h)

/-! ## What a request addresses -/

/-- The path of the v1 batch requests for an entry. -/
def batchPath (bucketPath entry : Bytes) : Bytes :=
  bucketPath ++ bytes "/" ++ entry ++ bytes "/batch"

/-- A v1 request addresses the entry in its path, at the times in the names of
its headers. -/
def AddressesV1 (bucketPath : Bytes) (request : HttpRequest) (encodedEntry : Bytes) (micros : Nat) :
    Prop :=
  ∃ entry text, request.path = batchPath bucketPath entry ∧ encodedEntry = encodeEntryName entry ∧
    kHeaderTimePrefix ++ text ∈ request.headers.toList.map Prod.fst ∧ stoull text = .ok micros

/-- A v2 request addresses the entries of its list by the index, and times by the
delta in the names of its record headers. -/
def AddressesV2 (request : HttpRequest) (encodedEntry : Bytes) (micros : Nat) : Prop :=
  ∃ rawEntries rawStartTs startTs entryIdx delta,
    request.headers.find? kHeaderEntries = some rawEntries ∧
    request.headers.find? kHeaderStartTs = some rawStartTs ∧ stoull rawStartTs = .ok startTs ∧
    (∃ name ∈ request.headers.toList.map Prod.fst,
      parseBatchedHeaderNameV2 name = some (entryIdx, delta)) ∧
    (rawEntries.splitOn comma)[entryIdx]? = some encodedEntry ∧ micros = (startTs + delta) % 2 ^ 64

/-- The records the requests of a batch should address. -/
def Names (entryName : Bytes) (batch : Batch) (encodedEntry : Bytes) (micros : Nat) : Prop :=
  ∃ r ∈ batch.records, encodedEntry = encodeEntryName (recordEntry r entryName) ∧
    micros = r.timestamp.micros

variable [StdSort]

/-! ## Protocol v1 -/

theorem requestV1_path (bucketPath entryName : Bytes) (batch : Batch) (type : BatchType) :
    (requestV1 bucketPath entryName batch type).path = batchPath bucketPath entryName := by
  cases type <;> rfl

omit [StdSort] in
theorem batchPath_inj {bucketPath entry entry' : Bytes} :
    batchPath bucketPath entry = batchPath bucketPath entry' ↔ entry = entry' := by
  simp [batchPath]

/-- A v1 request addresses the entry of the call at the times of the records. -/
theorem addressesV1_iff {bucketPath entryName : Bytes} {batch : Batch} {type : BatchType}
    {encodedEntry : Bytes} {micros : Nat} :
    AddressesV1 bucketPath (requestV1 bucketPath entryName batch type) encodedEntry micros ↔
      encodedEntry = encodeEntryName entryName ∧ ∃ r ∈ batch.records, micros = r.timestamp.micros := by
  have hperm := (sortRecords_isOrder batch entryName false).inOrder_perm
  have hnames : ∀ name, name ∈ (requestV1 bucketPath entryName batch type).headers.toList.map Prod.fst ↔
      ∃ r ∈ batch.records, kHeaderTimePrefix ++ decimalSigned (toMicroseconds r.timestamp) = name := by
    intro name
    rw [requestV1_headers, UnorderedMap.mem_keys_emplaceAll, List.nil_append, List.map_map,
      List.mem_map]
    simp [UnorderedMap.empty, hperm.mem_iff, recordHeaderV1]
  have htime : ∀ t : Time, stoull (decimalSigned (toMicroseconds t)) = .ok t.micros := by
    intro t
    have hbounds := toMicroseconds_bounds t
    exact stoull_decimalSigned (by omega) (by omega)
  rw [AddressesV1, requestV1_path]
  simp only [batchPath_inj, hnames, List.append_cancel_left_eq]
  constructor
  · rintro ⟨_, text, rfl, rfl, ⟨r, hr, rfl⟩, hmicros⟩
    rw [htime] at hmicros
    exact ⟨rfl, r, hr, (Except.ok.inj hmicros).symm⟩
  · rintro ⟨rfl, r, hr, rfl⟩
    exact ⟨_, _, rfl, rfl, ⟨r, hr, rfl⟩, htime _⟩

/-! ## Protocol v2 -/

section Indexed

variable {defaultEntry : Bytes} {type : BatchType} {records : List Record} {st : IndexState}

omit [StdSort] in
/-- The record headers are those of the records. -/
theorem Indexed.parsed_names (h : Indexed defaultEntry records st)
    (hlength : records.length < 2 ^ 64) {entryIdx delta : Nat} :
    (∃ name ∈ (requestHeadersV2 defaultEntry type st records).toList.map Prod.fst,
        parseBatchedHeaderNameV2 name = some (entryIdx, delta)) ↔
      ∃ r ∈ records, st.name defaultEntry r = (entryIdx, delta) := by
  have hkeys : ∀ name, name ∈ (requestHeadersV2 defaultEntry type st records).toList.map Prod.fst ↔
      name ∈ (commonHeadersV2 st).map Prod.fst ∨
        ∃ r ∈ records, (recordHeaderV2 defaultEntry type st r).1 = name := by
    intro name
    rw [requestHeadersV2, UnorderedMap.mem_keys_emplaceAll, List.map_append, List.mem_append,
      List.map_map, List.mem_map (l := records)]
    simp [UnorderedMap.empty]
  constructor
  · rintro ⟨name, hname, hparse⟩
    rcases (hkeys name).1 hname with hcommon | ⟨r, hr, rfl⟩
    · obtain ⟨header, hheader, rfl⟩ := List.mem_map.1 hcommon
      have hnone := (commonHeadersV2_names st).1 header hheader
      rw [isRecordNameV2, hparse] at hnone
      cases hnone
    · rw [h.parse_header type hlength hr] at hparse
      exact ⟨r, hr, Option.some.inj hparse⟩
  · rintro ⟨r, hr, hname⟩
    refine ⟨_, (hkeys _).2 (.inr ⟨r, hr, rfl⟩), ?_⟩
    rw [h.parse_header type hlength hr, hname]

omit [StdSort] in
/-- The index and the delta of a record stand for its entry and its time. -/
theorem Indexed.addresses_iff (h : Indexed defaultEntry records st)
    (hlength : records.length < 2 ^ 64) (hne : records ≠ []) {request : HttpRequest}
    (hheaders : request.headers = requestHeadersV2 defaultEntry type st records)
    {encodedEntry : Bytes} {micros : Nat} :
    AddressesV2 request encodedEntry micros ↔
      ∃ r ∈ records, encodedEntry = encodeEntryName (recordEntry r defaultEntry) ∧
        micros = r.timestamp.micros := by
  have hentries : st.entries ≠ [] := by
    obtain ⟨r, hr⟩ := List.exists_mem_of_ne_nil _ hne
    exact List.ne_nil_of_mem (h.mem r hr)
  have hfindEntries : (requestHeadersV2 defaultEntry type st records).find? kHeaderEntries =
      some (join (st.entries.map encodeEntryName)) := find_commonHeadersV2 (by simp [commonHeadersV2])
  have hfindStart : (requestHeadersV2 defaultEntry type st records).find? kHeaderStartTs =
      some (decimal st.startTs) := find_commonHeadersV2 (by simp [commonHeadersV2])
  have htime : ∀ r ∈ records, (st.startTs + (r.timestamp.micros - st.startTs)) % 2 ^ 64 =
      r.timestamp.micros := by
    intro r hr
    rw [Nat.add_sub_cancel' (h.startTs_le r hr), Nat.mod_eq_of_lt r.timestamp.micros_lt_size]
  simp only [AddressesV2, hheaders, hfindEntries, hfindStart,
    h.parsed_names hlength, Option.some.injEq]
  constructor
  · rintro ⟨_, _, startTs, entryIdx, delta, rfl, rfl, hstart, ⟨r, hr, hrname⟩, hentry, rfl⟩
    obtain ⟨i, hi, hname⟩ := h.name_eq hr
    rw [hname] at hrname
    cases hrname
    rw [stoull_decimal_nil h.startTs_lt] at hstart
    cases hstart
    rw [splitOn_join_encodeEntryName hentries, List.getElem?_map, hi] at hentry
    exact ⟨r, hr, (Option.some.inj hentry).symm, htime r hr⟩
  · rintro ⟨r, hr, rfl, rfl⟩
    obtain ⟨i, hi, hname⟩ := h.name_eq hr
    refine ⟨_, _, st.startTs, i, _, rfl, rfl, stoull_decimal_nil h.startTs_lt, ⟨r, hr, hname⟩, ?_,
      (htime r hr).symm⟩
    rw [splitOn_join_encodeEntryName hentries, List.getElem?_map, hi]
    rfl

end Indexed

/-- A v2 request addresses the records of the batch by their own entries. -/
theorem addressesV2_iff {ioPath entryName : Bytes} {batch : Batch} {type : BatchType}
    {requireEntry : Bool} {request : BatchV2Request}
    (hbuilt : buildBatchV2Request entryName batch type requireEntry = .ok request)
    (hordered : request.ordered ≠ []) {encodedEntry : Bytes} {micros : Nat} :
    AddressesV2 (requestV2 ioPath type batch request) encodedEntry micros ↔
      Names entryName batch encodedEntry micros := by
  rcases buildBatchV2Request_cases entryName batch type requireEntry with
    ⟨-, -, hok⟩ | ⟨-, -, herror⟩ | ⟨hne, -, -, st, hindexed, hok⟩
  · rw [hok] at hbuilt
    cases hbuilt
    exact absurd rfl hordered
  · rw [herror] at hbuilt
    cases hbuilt
  · rw [hok] at hbuilt
    cases hbuilt
    have horder := sortRecords_isOrder batch entryName true
    have hperm := horder.inOrder_perm
    have hnil : batch.inOrder (sortRecords batch entryName true) ≠ [] := by
      intro hnil
      exact hne (List.perm_nil.1 (hnil ▸ hperm.symm))
    rw [hindexed.addresses_iff horder.inOrder_lt hnil (by rw [requestV2_headers])]
    simp only [hperm.mem_iff, Names]

/-! ## Both protocols -/

/-- The requests of `ProcessBatchV1` go to the entry of every record of the batch,
and where it sends any they address what those of `ProcessBatchV2` address. -/
def GoesToOwnEntries (bucketPath ioPath entryName : Bytes) (batch : Batch) (type : BatchType) :
    Prop :=
  (∀ server, ∀ request ∈ (processBatchV1 server bucketPath entryName batch type).sent,
    ∀ r ∈ batch.records, request.path = batchPath bucketPath (recordEntry r entryName)) ∧
  ∀ server server', (processBatchV1 server bucketPath entryName batch type).sent ≠ [] →
    ∀ encodedEntry micros,
      (∃ request ∈ (processBatchV1 server bucketPath entryName batch type).sent,
        AddressesV1 bucketPath request encodedEntry micros) ↔
      ∃ request ∈ (processBatchV2 server' ioPath entryName batch type).sent,
        AddressesV2 request encodedEntry micros

theorem sent_processBatchV1 (server : HttpServer) (bucketPath : Bytes) {entryName : Bytes}
    {batch : Batch} (type : BatchType) (hone : ¬ SeveralEntries batch entryName) :
    (processBatchV1 server bucketPath entryName batch type).sent =
      [requestV1 bucketPath entryName batch type] := by
  rw [processBatchV1, if_neg (mt (uniqueEntries_iff ..).1 hone)]

/-- Over v2 the records of every batch are addressed by their own entries. -/
theorem addresses_processBatchV2 (server : HttpServer) (ioPath entryName : Bytes) (batch : Batch)
    (type : BatchType) (encodedEntry : Bytes) (micros : Nat) :
    (∃ request ∈ (processBatchV2 server ioPath entryName batch type).sent,
        AddressesV2 request encodedEntry micros) ↔
      Names entryName batch encodedEntry micros := by
  rcases buildBatchV2Request_cases entryName batch type false with
    ⟨hnil, -, hok⟩ | ⟨-, ⟨⟨⟩, -⟩, -⟩ | ⟨-, hordered, -, st, -, hok⟩
  · simp [processBatchV2, processRequestV2, hok, Names, hnil]
  · have haddresses := @addressesV2_iff _ ioPath entryName batch type false _ hok hordered
    simp [processBatchV2, processRequestV2, hok, hordered, haddresses]

theorem GoesToOwnEntries.default {bucketPath ioPath entryName : Bytes} {batch : Batch}
    {type : BatchType} (h : GoesToOwnEntries bucketPath ioPath entryName batch type)
    (hone : ¬ SeveralEntries batch entryName) :
    ∀ r ∈ batch.records, r.entry = [] ∨ r.entry = entryName := by
  intro r hr
  have hpath := h.1 acceptingServer (requestV1 bucketPath entryName batch type)
    (by simp [sent_processBatchV1 _ _ _ hone]) r hr
  rw [requestV1_path, batchPath_inj, recordEntry] at hpath
  split at hpath
  · rename_i hnil
    exact .inl hnil
  · exact .inr hpath.symm

/-- Records go to the entry they name if and only if v1 refuses the batch or no
record names another entry than that of the call. -/
theorem goesToOwnEntries_iff (bucketPath ioPath entryName : Bytes) (batch : Batch)
    (type : BatchType) :
    GoesToOwnEntries bucketPath ioPath entryName batch type ↔
      SeveralEntries batch entryName ∨ ∀ r ∈ batch.records, r.entry = [] ∨ r.entry = entryName := by
  constructor
  · intro h
    by_cases hseveral : SeveralEntries batch entryName
    · exact .inl hseveral
    · exact .inr (h.default hseveral)
  · intro h
    by_cases hseveral : SeveralEntries batch entryName
    · have hsent : ∀ server, (processBatchV1 server bucketPath entryName batch type).sent = [] := by
        intro server
        rw [processBatchV1, if_pos ((uniqueEntries_iff ..).2 hseveral)]
      exact ⟨fun server => by simp [hsent server], fun server _ hne => absurd (hsent server) hne⟩
    · have hentry : ∀ r ∈ batch.records, recordEntry r entryName = entryName := by
        intro r hr
        unfold recordEntry
        split
        · rfl
        · rename_i hne
          exact (h.resolve_left hseveral r hr).resolve_left hne
      constructor
      · intro server request hrequest r hr
        rw [sent_processBatchV1 _ _ _ hseveral, List.mem_singleton] at hrequest
        rw [hrequest, requestV1_path, hentry r hr]
      · intro server server' _ encodedEntry micros
        rw [addresses_processBatchV2, sent_processBatchV1 _ _ _ hseveral]
        simp only [List.mem_singleton, exists_eq_left, addressesV1_iff, Names]
        constructor
        · rintro ⟨rfl, r, hr, rfl⟩
          exact ⟨r, hr, by rw [hentry r hr], rfl⟩
        · rintro ⟨r, hr, rfl, rfl⟩
          exact ⟨by rw [hentry r hr], r, hr, rfl⟩

/-- A record of the entry `b`. -/
def otherEntry : Batch where
  records := [⟨bytes "b", .wrap 1000, 0, [], ∅, none⟩]
  body := []
  size := 0
  records_lt := by decide
  dataIndex_eq := rfl
  record_size := by simp
  size_eq := Batch.size_nil

omit [StdSort] in
/-- A record of the entry `b` in a batch for the entry `a` goes to `a`. -/
theorem goesToOwnEntries_broken :
    ¬ @GoesToOwnEntries .insertion (bytes "/b/x") (bytes "/io/x") (bytes "a") otherEntry .kUpdate := by
  intro h
  have hdefault := @GoesToOwnEntries.default .insertion _ _ _ _ _ h
    (by unfold SeveralEntries; decide)
  exact absurd hdefault (by decide)

end Reduct
