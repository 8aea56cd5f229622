-- SUMMARY: The v2 decoder as a fold over the record headers of each entry, whatever the order of the headers and whatever the other entries have.
import ReductClient.Internal.DecodingV2
import ReductClient.Internal.LabelDeltas

open Cxx Fallible

namespace Reduct

/-! ## Label keys -/

/-- The keys that the loop of `ParseLabelDeltaOps` comes to. -/
def labelKeysLoop : Nat → Bytes → List Bytes
  | 0, _ => []
  | fuel + 1, raw =>
    match splitFirst equalsSign raw with
    | none => []
    | some (rawKey, rest) =>
      trim rawKey ::
        match labelValue rest with
        | none => []
        | some (_, rest) => labelKeysLoop fuel (skipSeparator rest)

/-- The label keys of a delta. -/
def labelKeys (raw : Bytes) : List Bytes := labelKeysLoop raw.length raw

/-- The key is not a number, or one of 64 bits. -/
def KeyFits (key : Bytes) : Prop := key ≠ [] → key.all isDigit = true → ∃ n, stoul key = .ok n

theorem resolveLabelName_ok {key : Bytes} (h : KeyFits key) (labelNames : Option (List Bytes)) :
    ∃ name, resolveLabelName labelNames key = .ok name := by
  cases labelNames with
  | none => exact ⟨key, rfl⟩
  | some names =>
    rw [resolveLabelName]
    split
    · rename_i hdigits
      obtain ⟨n, hn⟩ := h hdigits.1 hdigits.2
      rw [hn]
      exact ⟨_, rfl⟩
    · exact ⟨key, rfl⟩

theorem labelDeltaLoop_ok {fuel : Nat} {raw : Bytes} (h : ∀ key ∈ labelKeysLoop fuel raw, KeyFits key)
    (labelNames : Option (List Bytes)) : ∃ ops, labelDeltaLoop labelNames fuel raw = .ok ops := by
  induction fuel generalizing raw with
  | zero => exact ⟨[], rfl⟩
  | succ fuel ih =>
    rw [labelDeltaLoop]
    cases hsplit : splitFirst equalsSign raw with
    | none => exact ⟨[], rfl⟩
    | some parts =>
      simp only [labelKeysLoop, hsplit, List.forall_mem_cons] at h
      obtain ⟨name, hname⟩ := resolveLabelName_ok h.1 labelNames
      simp only [hname, ok_bind]
      cases hvalue : labelValue parts.2 with
      | none => exact ⟨[], rfl⟩
      | some read =>
        rw [hvalue] at h
        obtain ⟨ops, hops⟩ := ih h.2
        refine ⟨(name, read.1) :: ops, ?_⟩
        dsimp only
        rw [hops]
        rfl

/-! ## One record header -/

/-- The text after the length of a record header. -/
def headerRest (raw : Bytes) : Option Bytes := (splitFirst comma raw).map Prod.snd

/-- The content type of a record header, which may be left out. -/
def typePart (raw : Bytes) : Bytes := (headerFields (headerRest raw)).1

/-- The labels of a record header, which may be left out. -/
def labelsPart (raw : Bytes) : Option Bytes := (headerFields (headerRest raw)).2

/-- The length field of a record header parses. -/
def hasLength (raw : Bytes) : Bool := (stoull (lengthPart raw)).isOk

theorem isOk_iff {ε α : Type*} {x : Except ε α} : x.isOk = true ↔ ∃ a, x = .ok a := by
  cases x <;> simp [Except.isOk, Except.toBool]

/-- The length in a record header that has one. -/
def announcedLength (raw : Bytes) : Nat := (stoull (lengthPart raw)).toOption.getD 0

/-- The label operations of a record header. -/
def headerOps (labelNames : Option (List Bytes)) (raw : Bytes) : List (Bytes × Option Bytes) :=
  match labelsPart raw with
  | none => []
  | some text => (parseLabelDeltaOps text labelNames).toOption.getD []

/-- All-digit label keys of the record header fit in 64 bits. -/
def KeysFit (raw : Bytes) : Prop := ∀ text ∈ labelsPart raw, ∀ key ∈ labelKeys text, KeyFits key

/-- The labels of a record header, on top of those of the previous one. -/
def headerLabels (raw : Bytes) (labels : LabelMap) (labelNames : Option (List Bytes)) :
    Except Fault LabelMap :=
  match labelsPart raw with
  | some text => applyLabelDelta text labels labelNames
  | none => pure labels

theorem headerLabels_ok {raw : Bytes} (hkeys : KeysFit raw) (labels : LabelMap)
    (labelNames : Option (List Bytes)) :
    headerLabels raw labels labelNames = .ok ((headerOps labelNames raw).foldl applyLabelOp labels) := by
  unfold headerLabels headerOps
  cases htext : labelsPart raw with
  | none => rfl
  | some text =>
    obtain ⟨ops, hops⟩ := labelDeltaLoop_ok (hkeys text htext) labelNames
    simp only [applyLabelDelta, parseLabelDeltaOps, hops, ok_bind]
    rfl

/-- A record header by its parts. -/
theorem parseRecordHeaderV2_parts (raw : Bytes) (previous : Option RecordHeaderV2)
    (labelNames : Option (List Bytes)) :
    parseRecordHeaderV2 raw previous labelNames =
      if lengthPart raw = [] then .ok none
      else
        match stoull (lengthPart raw) with
        | .error _ => .ok none
        | .ok contentLength =>
          headerLabels raw ((previous.map RecordHeaderV2.labels).getD ∅) labelNames >>= fun labels =>
            .ok (some ⟨contentLength,
              if typePart raw = [] then
                (previous.map RecordHeaderV2.contentType).getD (bytes "application/octet-stream")
              else typePart raw, labels⟩) := by
  unfold parseRecordHeaderV2 headerLabels labelsPart typePart headerRest lengthPart
  rcases splitFirst comma raw with _ | ⟨slice, rest⟩
  · rfl
  · simp only [Option.map_some, Option.getD_some]
    rcases headerFields (some rest) with ⟨contentType, _ | text⟩ <;> rfl

theorem parseRecordHeaderV2_eq (raw : Bytes) (previous : Option RecordHeaderV2)
    (labelNames : Option (List Bytes)) (hkeys : KeysFit raw) :
    parseRecordHeaderV2 raw previous labelNames =
      .ok (if hasLength raw then
        some ⟨announcedLength raw,
          if typePart raw = [] then
            (previous.map RecordHeaderV2.contentType).getD (bytes "application/octet-stream")
          else typePart raw,
          (headerOps labelNames raw).foldl applyLabelOp ((previous.map RecordHeaderV2.labels).getD ∅)⟩
      else none) := by
  rw [parseRecordHeaderV2_parts, headerLabels_ok hkeys, hasLength, announcedLength]
  by_cases hnil : lengthPart raw = []
  · rw [if_pos hnil, hnil]
    rfl
  · rw [if_neg hnil]
    cases stoull (lengthPart raw) <;> rfl

/-- The last content type that is given. -/
def lastContentType (raws : List Bytes) : Bytes :=
  ((raws.map typePart).filter (· ≠ [])).getLast?.getD (bytes "application/octet-stream")

/-- All label operations in turn, on no labels. -/
def foldedLabels (labelNames : Option (List Bytes)) (raws : List Bytes) : LabelMap :=
  (raws.flatMap (headerOps labelNames)).foldl applyLabelOp ∅

/-- What the decoder remembers of the headers of an entry. -/
def foldedHeader (labelNames : Option (List Bytes)) (raws : List Bytes) : Option RecordHeaderV2 :=
  raws.getLast?.map fun raw =>
    ⟨announcedLength raw, lastContentType raws, foldedLabels labelNames raws⟩

theorem foldedHeader_concat (labelNames : Option (List Bytes)) (raws : List Bytes) (raw : Bytes) :
    foldedHeader labelNames (raws ++ [raw]) = some ⟨announcedLength raw,
      lastContentType (raws ++ [raw]), foldedLabels labelNames (raws ++ [raw])⟩ := by
  rw [foldedHeader, List.getLast?_concat, Option.map_some]

theorem lastContentType_concat (raws : List Bytes) (raw : Bytes) :
    lastContentType (raws ++ [raw]) =
      if typePart raw = [] then lastContentType raws else typePart raw := by
  rw [lastContentType, List.map_append, List.map_singleton, List.filter_append]
  split_ifs with hnil
  · simp [hnil, lastContentType]
  · simp [hnil]

theorem foldedLabels_concat (labelNames : Option (List Bytes)) (raws : List Bytes) (raw : Bytes) :
    foldedLabels labelNames (raws ++ [raw]) =
      (headerOps labelNames raw).foldl applyLabelOp (foldedLabels labelNames raws) := by
  rw [foldedLabels, List.flatMap_append, List.flatMap_singleton, List.foldl_append]
  rfl

/-- A header is taken with what is remembered of those before it. -/
theorem parseRecordHeaderV2_fold {raw : Bytes} (hkeys : KeysFit raw)
    (labelNames : Option (List Bytes)) (raws : List Bytes) :
    parseRecordHeaderV2 raw (foldedHeader labelNames raws) labelNames =
      .ok (if hasLength raw then foldedHeader labelNames (raws ++ [raw]) else none) := by
  have hprevious :
      ((foldedHeader labelNames raws).map RecordHeaderV2.contentType).getD
          (bytes "application/octet-stream") = lastContentType raws ∧
        ((foldedHeader labelNames raws).map RecordHeaderV2.labels).getD ∅ =
          foldedLabels labelNames raws := by
    rcases List.eq_nil_or_concat' raws with rfl | ⟨raws, last, rfl⟩
    · exact ⟨rfl, rfl⟩
    · rw [foldedHeader_concat]
      exact ⟨rfl, rfl⟩
  rw [parseRecordHeaderV2_eq raw _ labelNames hkeys, hprevious.1, hprevious.2,
    foldedHeader_concat, lastContentType_concat, foldedLabels_concat]

/-- The record of the last of the headers `own` of an entry. -/
def foldedRecord (head : Bool) (entry : Bytes) (startTs : Nat) (labelNames : Option (List Bytes))
    (own : List ParsedHeader) (current : ParsedHeader) : ReadableRecord where
  entry := entry
  timestamp := timeFromMicroseconds ((startTs + current.2.1) % 2 ^ 64)
  size := announcedLength current.2.2
  last := false
  labels := foldedLabels labelNames (own.map fun p => p.2.2)
  contentType := lastContentType (own.map fun p => p.2.2)
  read := ⟨.v2 (announcedLength current.2.2), head⟩

section Loop

variable {head : Bool} {entries : List Bytes} {startTs : Nat} {labelNames : Option (List Bytes)}

/-- A header that is kept adds a record to those of its entry. -/
theorem decodeHeader_keep {p : ParsedHeader} (hkeys : KeysFit p.2.2) (hlt : p.1 < entries.length)
    (hlength : hasLength p.2.2 = true) {st : DecodeState} {own : List ParsedHeader}
    (hlast : st.lastHeader[p.1]? = some (foldedHeader labelNames (own.map fun p => p.2.2))) :
    decodeHeader head entries startTs labelNames st p = .ok {
      lastHeader := st.lastHeader.set p.1 (foldedHeader labelNames ((own ++ [p]).map fun p => p.2.2))
      records := st.records ++
        [foldedRecord head entries[p.1] startTs labelNames (own ++ [p]) p] } := by
  have hmap : (own ++ [p]).map (fun p => p.2.2) = own.map (fun p => p.2.2) ++ [p.2.2] := by simp
  unfold decodeHeader
  dsimp only
  rw [List.getElem?_eq_getElem hlt, hlast]
  dsimp only
  rw [Option.join_some, parseRecordHeaderV2_fold hkeys, if_pos hlength, hmap, foldedHeader_concat,
    foldedRecord, hmap]
  rfl

end Loop

variable [StdSort]

/-- The entry indices and deltas in the names of the record headers. -/
def headerNames (headers : Headers) : List (Nat × Nat) :=
  (parsedHeaders headers).map fun p => (p.1, p.2.1)

section Sorting

variable {headers : Headers}

/-- Headers with different names are strictly sorted. -/
theorem sort_strict (h : (headerNames headers).Nodup) :
    (StdSort.sort parsedHeaderLess (parsedHeaders headers)).Pairwise fun p q =>
      parsedHeaderLess p q = true := by
  have hnames : ((StdSort.sort parsedHeaderLess (parsedHeaders headers)).map
      fun p => (p.1, p.2.1)).Nodup := (((StdSort.perm _ _).map _).nodup_iff).2 h
  rw [List.Nodup, List.pairwise_map] at hnames
  refine ((StdSort.sorted _ _ parsedHeaderLess_swo).and hnames).imp fun {p q} hpq => ?_
  obtain ⟨hle, hne⟩ := hpq
  rw [ne_eq, Prod.mk.injEq] at hne
  unfold parsedHeaderLess at hle ⊢
  by_cases heq : p.1 = q.1
  · rw [if_pos heq.symm, decide_eq_false_iff_not] at hle
    rw [if_pos heq, decide_eq_true_eq]
    omega
  · rw [if_neg (Ne.symm heq), decide_eq_false_iff_not] at hle
    rw [if_neg heq, decide_eq_true_eq]
    omega

end Sorting

section Response

variable {head : Bool} {headers : Headers} {rawEntries rawStartTs : Bytes} {startTs : Nat}

/-- The decoder on a response with a list of entries and a start timestamp. -/
theorem parseAndBuildBatchedRecordsV2_eq (head : Bool)
    (hentries : headers.find? kHeaderEntries = some rawEntries)
    (hstart : headers.find? kHeaderStartTs = some rawStartTs) (hok : stoull rawStartTs = .ok startTs) :
    parseAndBuildBatchedRecordsV2 head headers =
      if parseEncodedList rawEntries = [] then .ok []
      else
        (StdSort.sort parsedHeaderLess (parsedHeaders headers)).foldlM
          (decodeHeader head (parseEncodedList rawEntries) startTs
            ((headers.find? kHeaderLabels).map parseEncodedList))
          ⟨List.replicate (parseEncodedList rawEntries).length none, []⟩ >>= fun st =>
        .ok (flagLast (announcesEnd headers) st.records) := by
  simp only [parseAndBuildBatchedRecordsV2, hentries, hstart, hok]
  simp only [flagLast, announcesEnd, decide_eq_true_eq]
  rfl

end Response

instance (key : Bytes) : Decidable (KeyFits key) :=
  decidable_of_iff (key = [] ∨ key.all isDigit = false ∨ (stoul key).isOk = true) (by
    rw [isOk_iff, KeyFits]
    cases key.all isDigit <;> by_cases hnil : key = [] <;> simp [hnil])

instance (raw : Bytes) : Decidable (KeysFit raw) :=
  inferInstanceAs (Decidable (∀ text ∈ labelsPart raw, ∀ key ∈ labelKeys text, KeyFits key))

end Reduct
