-- SUMMARY: The headers of a request read back: names of record headers, the sizes they announce, and the headers the two encoders put into a request.
import ReductClient.Internal.BatchIndex

open Cxx

namespace Reduct

/-! ## Names of record headers -/

/-- The name of a v2 record header. -/
def recordNameV2 (name : Nat × Nat) : Bytes :=
  kHeaderPrefix ++ decimal name.1 ++ dash :: decimal name.2

/-- The name of a v1 record header. -/
def recordNameV1 (micros : Nat) : Bytes := kHeaderTimePrefix ++ decimal micros

theorem isPrefixOf_append (a b : Bytes) : a.isPrefixOf (a ++ b) = true :=
  List.isPrefixOf_iff_prefix.2 (List.prefix_append a b)

/-- A digit after the prefix tells a record header from an error header. -/
theorem not_errorName_of_isDigit {d : UInt8} (h : isDigit d = true) (rest : Bytes) :
    kHeaderErrorPrefix.isPrefixOf (kHeaderPrefix ++ d :: rest) = false := by
  rw [Bool.eq_false_iff, ne_eq, List.isPrefixOf_iff_prefix,
    show kHeaderErrorPrefix = kHeaderPrefix ++ bytes "error-" by decide, List.prefix_append_right_inj]
  intro hstarts
  have hhead : d = 0x65 := by
    obtain ⟨tail, htail⟩ := hstarts
    exact (List.cons.inj htail).1.symm
  rw [hhead] at h
  exact absurd h (by decide)

theorem not_errorName (n : Nat) (rest : Bytes) :
    kHeaderErrorPrefix.isPrefixOf (kHeaderPrefix ++ (decimal n ++ rest)) = false := by
  obtain ⟨d, ds, hd⟩ := List.exists_cons_of_ne_nil (decimal_ne_nil n)
  have hdigit := @isDigit_of_mem_decimal n d (by simp [hd])
  rw [hd, List.cons_append]
  exact not_errorName_of_isDigit hdigit (ds ++ rest)

/-- The names that are taken for names of record headers: after the prefix a number can be
read before the last dash and after it. -/
theorem parseBatchedHeaderNameV2_eq_some {name : Bytes} {entryIdx delta : Nat} :
    parseBatchedHeaderNameV2 name = some (entryIdx, delta) ↔
      kHeaderErrorPrefix.isPrefixOf name = false ∧ ∃ entryStr deltaStr,
        name = kHeaderPrefix ++ (entryStr ++ dash :: deltaStr) ∧ dash ∉ deltaStr ∧
          stoul entryStr = .ok entryIdx ∧ stoull deltaStr = .ok delta := by
  unfold parseBatchedHeaderNameV2
  constructor
  · intro h
    split at h
    · cases h
    · rename_i hname
      rw [not_or, Bool.not_eq_false, Bool.not_eq_true] at hname
      split at h
      · cases h
      · rename_i entryStr deltaStr hsplit
        obtain ⟨hsuffix, hdash⟩ := splitLast_eq_some.1 hsplit
        split at h
        · rename_i hentry hdelta
          cases h
          refine ⟨hname.2, entryStr, deltaStr, ?_, hdash, hentry, hdelta⟩
          rw [← hsuffix]
          exact List.prefix_iff_eq_append.1 (List.isPrefixOf_iff_prefix.1 hname.1) |>.symm
        · cases h
  · rintro ⟨herror, entryStr, deltaStr, rfl, hdash, hentry, hdelta⟩
    rw [if_neg (by simp [herror, isPrefixOf_append]), List.drop_left, splitLast_append _ hdash]
    dsimp only
    rw [hentry, hdelta]

theorem parse_recordNameV2 {name : Nat × Nat} (h₁ : name.1 < 2 ^ 64) (h₂ : name.2 < 2 ^ 64) :
    parseBatchedHeaderNameV2 (recordNameV2 name) = some name := by
  rw [recordNameV2, List.append_assoc]
  simp [parseBatchedHeaderNameV2, isPrefixOf_append, not_errorName, splitLast_append _ (decimal_no_dash _), stoul,
    stoull_decimal_nil h₁, stoull_decimal_nil h₂]

theorem parse_kHeaderEntries : parseBatchedHeaderNameV2 kHeaderEntries = none := by decide

theorem parse_kHeaderStartTs : parseBatchedHeaderNameV2 kHeaderStartTs = none := by decide

theorem recordNameV1_injective {m n : Nat} (h : recordNameV1 m = recordNameV1 n) : m = n :=
  decimal_injective (List.append_cancel_left h)

/-! ## Announced sizes -/

/-- The size a record header announces, in front of the first comma. -/
def announcedSize (value : Bytes) : Nat :=
  match stoull (((splitFirst comma value).map Prod.fst).getD value) with
  | .ok size => size
  | .error _ => 0

theorem announcedSize_decimal {size : Nat} (h : size < 2 ^ 64) (rest : Bytes) :
    announcedSize (decimal size ++ comma :: rest) = size := by
  simp [announcedSize, splitFirst_append (decimal_no_comma size), stoull_decimal_nil h]

theorem announcedSize_buildHeaderValueV2 {record : Record} (h : record.size < 2 ^ 64) :
    announcedSize (buildHeaderValueV2 record .kWrite) = record.size := by
  simp only [buildHeaderValueV2]
  split
  · exact announcedSize_decimal h _
  · rw [List.append_assoc, List.cons_append]
    exact announcedSize_decimal h _

theorem announcedSize_recordHeaderV1 {record : Record} (h : record.size < 2 ^ 64) :
    announcedSize (recordHeaderV1 record .kWrite).2 = record.size := by
  simp only [recordHeaderV1, List.append_assoc, List.cons_append]
  exact announcedSize_decimal h _

/-! ## Record headers of a request -/

/-- `name` is the name of a v1 record header. -/
def isRecordNameV1 (name : Bytes) : Bool := kHeaderTimePrefix.isPrefixOf name

/-- `name` is the name of a v2 record header. -/
def isRecordNameV2 (name : Bytes) : Bool := (parseBatchedHeaderNameV2 name).isSome

/-- The record headers of a request. -/
def recordHeaders (isRecordName : Bytes → Bool) (headers : Headers) : List (Bytes × Bytes) :=
  headers.toList.filter fun header => isRecordName header.1

section Emplaced

variable {isRecordName : Bytes → Bool} {others records : List (Bytes × Bytes)}

/-- One record header is left for each name. -/
theorem length_recordHeaders (hothers : ∀ h ∈ others, isRecordName h.1 = false)
    (hrecords : ∀ h ∈ records, isRecordName h.1 = true) :
    (recordHeaders isRecordName (UnorderedMap.empty.emplaceAll (others ++ records))).length =
      (records.map Prod.fst).dedup.length := by
  have hkeys := UnorderedMap.keys_emplaceAll_perm (others ++ records)
  have hfilter : (recordHeaders isRecordName
      (UnorderedMap.empty.emplaceAll (others ++ records))).map Prod.fst =
      ((UnorderedMap.empty.emplaceAll (others ++ records)).toList.map Prod.fst).filter
        isRecordName := List.filter_map.symm
  have hperm : (((UnorderedMap.empty.emplaceAll (others ++ records)).toList.map Prod.fst).filter
      isRecordName).Perm (records.map Prod.fst).dedup := by
    rw [List.perm_ext_iff_of_nodup ((UnorderedMap.nodup _).filter _) (List.nodup_dedup _)]
    intro name
    rw [List.mem_filter, hkeys.mem_iff, List.mem_dedup, List.mem_dedup, List.map_append,
      List.mem_append]
    constructor
    · rintro ⟨hother | hrecord, hname⟩
      · obtain ⟨h, hh, rfl⟩ := List.mem_map.1 hother
        rw [hothers h hh] at hname
        cases hname
      · exact hrecord
    · intro hrecord
      obtain ⟨h, hh, rfl⟩ := List.mem_map.1 hrecord
      exact ⟨.inr hrecord, hrecords h hh⟩
  rw [← hperm.length_eq, ← hfilter, List.length_map]

/-- Record headers with distinct names are all there. -/
theorem recordHeaders_emplaceAll (hothers : ∀ h ∈ others, isRecordName h.1 = false)
    (hrecords : ∀ h ∈ records, isRecordName h.1 = true) (hnames : (others.map Prod.fst).Nodup)
    (hdistinct : (records.map Prod.fst).Nodup) :
    (UnorderedMap.empty.emplaceAll (others ++ records)).toList = others ++ records ∧
      recordHeaders isRecordName (UnorderedMap.empty.emplaceAll (others ++ records)) = records := by
  have hnodup : ((others ++ records).map Prod.fst).Nodup := by
    rw [List.map_append]
    refine hnames.append hdistinct ?_
    intro name hother hrecord
    obtain ⟨h, hh, rfl⟩ := List.mem_map.1 hother
    obtain ⟨h', hh', heq⟩ := List.mem_map.1 hrecord
    have := hrecords h' hh'
    rw [heq, hothers h hh] at this
    cases this
  have htoList : (UnorderedMap.empty.emplaceAll (others ++ records)).toList = others ++ records :=
    UnorderedMap.toList_emplaceAll hnodup (by simp [UnorderedMap.empty])
  have hnone : others.filter (fun h => isRecordName h.1) = [] :=
    List.filter_eq_nil_iff.2 fun h hh => by simpa using hothers h hh
  have hall : records.filter (fun h => isRecordName h.1) = records := List.filter_eq_self.2 hrecords
  refine ⟨htoList, ?_⟩
  rw [recordHeaders, htoList, List.filter_append, hnone, hall]
  rfl

end Emplaced

theorem length_dedup_eq_iff {α : Type} [DecidableEq α] {l : List α} :
    l.dedup.length = l.length ↔ l.Nodup :=
  ⟨fun h => List.dedup_eq_self.1 ((List.dedup_sublist l).eq_of_length h),
    fun h => by rw [List.dedup_eq_self.2 h]⟩

theorem nodup_map_iff {α β γ : Type} {f : α → β} {g : α → γ} {l : List α}
    (h : ∀ a ∈ l, ∀ b ∈ l, f a = f b ↔ g a = g b) : (l.map f).Nodup ↔ (l.map g).Nodup := by
  rw [List.Nodup, List.pairwise_map, List.Nodup, List.pairwise_map]
  exact List.Pairwise.iff_of_mem fun ha hb => not_congr (h _ ha _ hb)

/-! ## The v2 request -/

/-- The headers `BuildBatchV2Request` emplaces before those of the records. -/
def commonHeadersV2 (st : IndexState) : List (Bytes × Bytes) :=
  [(kHeaderEntries, join (st.entries.map encodeEntryName)), (kHeaderStartTs, decimal st.startTs)]

/-- The headers of a v2 request for records in the given order. -/
def requestHeadersV2 (defaultEntry : Bytes) (type : BatchType) (st : IndexState)
    (records : List Record) : Headers :=
  UnorderedMap.empty.emplaceAll (commonHeadersV2 st ++ records.map (recordHeaderV2 defaultEntry type st))

theorem recordHeaderV2_eq (defaultEntry : Bytes) (type : BatchType) (st : IndexState)
    (record : Record) : recordHeaderV2 defaultEntry type st record =
      (recordNameV2 (st.name defaultEntry record), buildHeaderValueV2 record type) := rfl

theorem commonHeadersV2_names (st : IndexState) :
    (∀ h ∈ commonHeadersV2 st, isRecordNameV2 h.1 = false) ∧
      ((commonHeadersV2 st).map Prod.fst).Nodup := by
  constructor
  · simp [commonHeadersV2, isRecordNameV2, parse_kHeaderEntries, parse_kHeaderStartTs]
  · have hne : kHeaderEntries ≠ kHeaderStartTs := by decide
    simpa [commonHeadersV2] using hne

/-- The common headers are there, whatever the records are called. -/
theorem find_commonHeadersV2 {defaultEntry : Bytes} {type : BatchType} {st : IndexState}
    {records : List Record} {name value : Bytes} (h : (name, value) ∈ commonHeadersV2 st) :
    (requestHeadersV2 defaultEntry type st records).find? name = some value := by
  have hcommon : (UnorderedMap.empty.emplaceAll (commonHeadersV2 st)).toList = commonHeadersV2 st :=
    UnorderedMap.toList_emplaceAll (commonHeadersV2_names st).2 (by simp [UnorderedMap.empty])
  have hfind : (UnorderedMap.empty.emplaceAll (commonHeadersV2 st)).find? name = some value := by
    rw [UnorderedMap.find?_eq_some, hcommon]
    exact h
  rw [requestHeadersV2, UnorderedMap.emplaceAll, List.foldl_append]
  exact UnorderedMap.find?_emplaceAll hfind _

/-- What `BuildBatchV2Request` returns: an empty request for an empty batch, an
error if an entry is required and missing, and otherwise a header for each record
after the common ones. -/
theorem buildBatchV2Request_cases [StdSort] (defaultEntry : Bytes) (batch : Batch)
    (type : BatchType) (requireEntry : Bool) :
    let ordered := sortRecords batch defaultEntry true
    let built := buildBatchV2Request defaultEntry batch type requireEntry
    let missing := requireEntry = true ∧ ∃ r ∈ batch.records, recordEntry r defaultEntry = []
    batch.records = [] ∧ ordered = [] ∧ built = .ok ⟨[], [], 0, .empty⟩ ∨
      batch.records ≠ [] ∧ missing ∧ built = .error entryRequired ∨
      batch.records ≠ [] ∧ ordered ≠ [] ∧ ¬ missing ∧ ∃ st,
        Indexed defaultEntry (batch.inOrder ordered) st ∧
        built = .ok ⟨ordered, st.entries, st.startTs,
          requestHeadersV2 defaultEntry type st (batch.inOrder ordered)⟩ := by
  intro ordered built missing
  have horder := sortRecords_isOrder batch defaultEntry true
  have hempty : ordered = [] ↔ batch.records = [] := by
    rw [← List.length_eq_zero_iff, ← List.length_eq_zero_iff, horder.length_eq, List.length_range]
  by_cases hnil : batch.records = []
  · exact .inl ⟨hnil, hempty.2 hnil, if_pos (hempty.2 hnil)⟩
  · have hordered : ordered ≠ [] := mt hempty.1 hnil
    have hbuilt : built = _ := if_neg hordered
    rw [hbuilt]
    rcases indexRecords batch defaultEntry requireEntry ordered with
      ⟨st, hst, hindexed, hentries⟩ | ⟨herr, hrequire, r, hr, hentry⟩
    · refine .inr (.inr ⟨hnil, hordered, ?_, st, hindexed, ?_⟩)
      · rintro ⟨hrequire, r, hr, hentry⟩
        exact hentries hrequire r (horder.inOrder_perm.mem_iff.2 hr) hentry
      · have hheaders : requestHeadersV2 defaultEntry type st (batch.inOrder ordered) =
            UnorderedMap.empty.emplaceAll (commonHeadersV2 st ++
              ordered.map fun idx => recordHeaderV2 defaultEntry type st (batch.recordAt idx)) := by
          rw [requestHeadersV2, Batch.inOrder, List.map_map]
          rfl
        rw [hst, hheaders]
        rfl
    · refine .inr (.inl ⟨hnil, ⟨hrequire, r, horder.inOrder_perm.mem_iff.1 hr, hentry⟩, ?_⟩)
      rw [herr]
      rfl

/-- A request is built unless an entry is required and missing. It has all records. -/
theorem exists_batchV2Request [StdSort] (defaultEntry : Bytes) (batch : Batch) (type : BatchType)
    (requireEntry : Bool) :
    (requireEntry = true ∧ (∃ r ∈ batch.records, recordEntry r defaultEntry = []) ∧
      buildBatchV2Request defaultEntry batch type requireEntry = .error entryRequired) ∨
    ∃ request, buildBatchV2Request defaultEntry batch type requireEntry = .ok request ∧
      batch.IsOrder request.ordered := by
  have horder := sortRecords_isOrder batch defaultEntry true
  rcases buildBatchV2Request_cases defaultEntry batch type requireEntry with
    ⟨-, hordered, heq⟩ | ⟨-, ⟨hrequire, hmissing⟩, heq⟩ | ⟨-, -, -, st, -, heq⟩
  · exact .inr ⟨_, heq, hordered ▸ horder⟩
  · exact .inl ⟨hrequire, hmissing, heq⟩
  · exact .inr ⟨_, heq, horder⟩

/-! ## Reading the v2 headers back -/

/-- The parsed record headers, in iteration order. -/
def parsedHeaders (headers : Headers) : List ParsedHeader :=
  headers.toList.filterMap fun (key, value) =>
    (parseBatchedHeaderNameV2 key).map fun (entryIdx, delta) => (entryIdx, delta, value)

theorem parsedHeaderLess_swo : StrictWeakOrder parsedHeaderLess := by
  refine .of_cmp (compareLex (compareOn Prod.fst) (compareOn fun p => p.2.1)) ?_
  intro a b
  rcases Nat.lt_trichotomy a.1 b.1 with h | h | h
  · simp [parsedHeaderLess, compareLex, compareOn, h, h.ne, Nat.compare_eq_lt.2 h]
  · simp only [parsedHeaderLess, compareLex, compareOn, h, Std.compare_self, Ordering.then, if_true]
    rw [Bool.eq_iff_iff, beq_iff_eq, Nat.compare_eq_lt, decide_eq_true_eq]
  · simp [parsedHeaderLess, compareLex, compareOn, h.ne', h.le, Nat.compare_eq_gt.2 h]

section ReadBack

variable {defaultEntry : Bytes} {type : BatchType} {records : List Record} {st : IndexState}
  {headers : Headers}

/-- The record of a parsed header. -/
def IndexState.parsed (st : IndexState) (defaultEntry : Bytes) (type : BatchType) (record : Record) :
    ParsedHeader :=
  ((st.name defaultEntry record).1, (st.name defaultEntry record).2, buildHeaderValueV2 record type)

theorem Indexed.parse_header (h : Indexed defaultEntry records st) (type : BatchType)
    (hlength : records.length < 2 ^ 64) {r : Record} (hr : r ∈ records) :
    parseBatchedHeaderNameV2 (recordHeaderV2 defaultEntry type st r).1 =
      some (st.name defaultEntry r) := by
  have hlt := h.name_lt hlength hr
  rw [recordHeaderV2_eq]
  exact parse_recordNameV2 hlt.1 hlt.2

theorem Indexed.isRecordName (h : Indexed defaultEntry records st) (type : BatchType)
    (hlength : records.length < 2 ^ 64) {r : Record} (hr : r ∈ records) :
    isRecordNameV2 (recordHeaderV2 defaultEntry type st r).1 = true := by
  rw [isRecordNameV2, h.parse_header type hlength hr]
  rfl

/-- Records share the name of their header if and only if they share their key. -/
theorem Indexed.recordHeader_inj (h : Indexed defaultEntry records st) (type : BatchType)
    (hlength : records.length < 2 ^ 64) {r r' : Record} (hr : r ∈ records) (hr' : r' ∈ records) :
    (recordHeaderV2 defaultEntry type st r).1 = (recordHeaderV2 defaultEntry type st r').1 ↔
      recordKey defaultEntry r = recordKey defaultEntry r' := by
  rw [← h.name_inj hr hr']
  constructor
  · intro hname
    have hparse := h.parse_header type hlength hr
    rw [hname, h.parse_header type hlength hr'] at hparse
    exact (Option.some.inj hparse).symm
  · intro hname
    rw [recordHeaderV2_eq, recordHeaderV2_eq, hname]

/-- Distinct records all have their headers in the request. -/
theorem Indexed.toList_requestHeadersV2 (h : Indexed defaultEntry records st)
    (hlength : records.length < 2 ^ 64)
    (hdistinct : (records.map (recordKey defaultEntry)).Nodup) :
    (requestHeadersV2 defaultEntry type st records).toList =
      commonHeadersV2 st ++ records.map (recordHeaderV2 defaultEntry type st) := by
  obtain ⟨hcommon, hnames⟩ := commonHeadersV2_names st
  refine (@recordHeaders_emplaceAll isRecordNameV2 _ _ hcommon ?_ hnames ?_).1
  · exact List.forall_mem_map.2 fun r hr => h.isRecordName type hlength hr
  · rw [List.map_map]
    exact (nodup_map_iff fun r hr r' hr' => h.recordHeader_inj type hlength hr hr').2 hdistinct

theorem find_common (hsame : (requestHeadersV2 defaultEntry type st records).Same headers)
    {name value : Bytes} (hcommon : (name, value) ∈ commonHeadersV2 st) :
    headers.find? name = some value := by
  rw [← hsame.find?, find_commonHeadersV2 hcommon]

theorem Indexed.find_none (h : Indexed defaultEntry records st)
    (hlength : records.length < 2 ^ 64)
    (hdistinct : (records.map (recordKey defaultEntry)).Nodup)
    (hsame : (requestHeadersV2 defaultEntry type st records).Same headers) {name : Bytes}
    (hcommon : name ∉ [kHeaderEntries, kHeaderStartTs])
    (hname : parseBatchedHeaderNameV2 name = none) : headers.find? name = none := by
  rw [← hsame.find?, UnorderedMap.find?_eq_none, h.toList_requestHeadersV2 hlength hdistinct,
    List.map_append, List.mem_append]
  rintro (hmem | hmem)
  · exact hcommon hmem
  · obtain ⟨header, hheader, rfl⟩ := List.mem_map.1 hmem
    obtain ⟨r, hr, rfl⟩ := List.mem_map.1 hheader
    rw [h.parse_header type hlength hr] at hname
    cases hname

/-- Whatever the iteration order, sorting the parsed headers gives the records in
request order. -/
theorem Indexed.sort_parsedHeaders [StdSort] (h : Indexed defaultEntry records st)
    (hlength : records.length < 2 ^ 64)
    (hsorted : InRequestOrder defaultEntry records)
    (hdistinct : (records.map (recordKey defaultEntry)).Nodup)
    (hsame : (requestHeadersV2 defaultEntry type st records).Same headers) :
    StdSort.sort parsedHeaderLess (parsedHeaders headers) =
      records.map (st.parsed defaultEntry type) := by
  have hparsed : parsedHeaders (requestHeadersV2 defaultEntry type st records) =
      records.map (st.parsed defaultEntry type) := by
    have hcommon : (commonHeadersV2 st).filterMap (fun header =>
        (parseBatchedHeaderNameV2 header.1).map fun name => (name.1, name.2, header.2)) = [] := by
      simp [commonHeadersV2, parse_kHeaderEntries, parse_kHeaderStartTs]
    rw [parsedHeaders, h.toList_requestHeadersV2 hlength hdistinct, List.filterMap_append, hcommon,
      List.nil_append, List.filterMap_map, List.filterMap_eq_map_iff_forall_eq_some]
    intro r hr
    have hname := h.parse_header type hlength hr
    rw [recordHeaderV2_eq] at hname
    simp only [Function.comp_apply, recordHeaderV2_eq, hname]
    rfl
  refine sort_eq parsedHeaderLess_swo ?_ ?_
  · rw [← hparsed]
    exact (List.Perm.filterMap _ hsame).symm
  · rw [List.pairwise_map]
    refine (h.name_sorted hsorted hdistinct).imp ?_
    rintro r r' (hlt | ⟨heq, hlt⟩)
    · simp [parsedHeaderLess, IndexState.parsed, hlt, hlt.ne]
    · simp [parsedHeaderLess, IndexState.parsed, heq, hlt]

end ReadBack

end Reduct
