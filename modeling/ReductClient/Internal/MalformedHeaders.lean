-- SUMMARY: Malformed headers of a response: for each decoder of record headers and of error headers, the headers on which it returns.
import ReductClient.Internal.DecoderFold
import ReductClient.Internal.ErrorHeaders
import ReductClient.Internal.ErrorReports
import ReductClient.Internal.LabelPositions
import ReductClient.Internal.RecordValuesV1

open Cxx Fallible

namespace Reduct

theorem returns_fromMicroseconds {s : Bytes} : Returns (fromMicroseconds s) ↔ ReadsUnsigned s := by
  rw [fromMicroseconds, returns_bind_of_forall fun _ => returns_pure _]
  exact stoull_returns

/-! ## Record headers of protocol v1 -/

/-- The fields that `parse_csv` finds in a value. -/
def csvItems (csv : Bytes) : List Bytes := ((getlines comma csv).foldl csvField ⟨[], []⟩).items

/-- There are two fields at least, and the first one is a number of 64 bits. -/
def ReadableCsv (csv : Bytes) : Prop :=
  ∃ size contentType labels, csvItems csv = size :: contentType :: labels ∧
    ReadsSigned (2 ^ 63) size

theorem returns_parseCsv {csv : Bytes} : Returns (parseCsv csv) ↔ ReadableCsv csv := by
  rw [parseCsv, ReadableCsv, csvItems]
  rcases ((getlines comma csv).foldl csvField ⟨[], []⟩).items with _ | ⟨size, _ | ⟨type, labels⟩⟩
  · exact iff_of_false (not_returns_error _) (by simp)
  · refine iff_of_false ?_ (by simp)
    rintro ⟨csv, h⟩
    obtain ⟨n, -, h⟩ := bind_eq_ok.1 h
    cases h
  · dsimp only
    rw [returns_bind_of_forall fun _ => returns_pure _]
    refine stoSigned_returns.trans ⟨fun h => ⟨size, type, labels, rfl, h⟩, ?_⟩
    rintro ⟨_, _, _, heq, h⟩
    cases heq
    exact h

/-- Without quotes, the second field is any text after the first comma. -/
theorem readableCsv_plain {csv : Bytes} (h : quotation ∉ csv) :
    ReadableCsv csv ↔ ∃ size rest, splitFirst comma csv = some (size, rest) ∧ rest ≠ [] ∧
      ReadsSigned (2 ^ 63) size := by
  have hplain : ∀ field ∈ getlines comma csv, field.head? = some quotation → field = [quotation] :=
    fun field hfield hhead => absurd (mem_of_mem_getlines hfield (List.mem_of_head? hhead)) h
  have hitems : csvItems csv = getlines comma csv := by
    rw [csvItems, foldl_csvField hplain, List.nil_append]
  rw [ReadableCsv, hitems]
  cases hsplit : splitFirst comma csv with
  | none =>
    refine iff_of_false ?_ (by simp)
    rintro ⟨size, contentType, labels, heq, -⟩
    simp only [getlines, List.splitOn_eq_singleton (splitFirst_eq_none.1 hsplit)] at heq
    split at heq <;> simp at heq
  | some parts =>
    obtain ⟨hcsv, hcomma⟩ := splitFirst_eq_some.1 hsplit
    rw [hcsv, getlines_cons hcomma]
    constructor
    · rintro ⟨size, contentType, labels, heq, hsize⟩
      rw [List.cons.injEq] at heq
      refine ⟨parts.1, parts.2, rfl, fun hnil => ?_, heq.1 ▸ hsize⟩
      rw [hnil] at heq
      cases heq.2
    · rintro ⟨size, rest, heq, hrest, hsize⟩
      cases heq
      obtain ⟨contentType, labels, hfields⟩ :=
        List.exists_cons_of_ne_nil (@getlines_ne_nil comma rest hrest)
      exact ⟨size, contentType, labels, by rw [hfields], hsize⟩

/-- The value of a v1 record header has its fields, and its name ends with a number. -/
def ReadableHeaderV1 (header : Bytes × Bytes) : Prop :=
  ReadableCsv header.2 ∧ ReadsUnsigned (header.1.drop kHeaderTimePrefix.length)

theorem returns_decodeRecordV1 {head : Bool} {header : Bytes × Bytes} :
    Returns (decodeRecordV1 head header) ↔ ReadableHeaderV1 header := by
  rw [decodeRecordV1, returns_bind, ReadableHeaderV1, ← returns_parseCsv,
    ← returns_fromMicroseconds]
  constructor
  · rintro ⟨csv, hcsv, h⟩
    exact ⟨⟨csv, hcsv⟩, (returns_bind_of_forall fun _ => returns_pure _).1 h⟩
  · rintro ⟨⟨csv, hcsv⟩, h⟩
    exact ⟨csv, hcsv, (returns_bind_of_forall fun _ => returns_pure _).2 h⟩

/-- The v1 decoder returns if and only if all record headers can be read. A value without
quotes can be read if it has a number before the first comma and any text after it. -/
theorem returnsV1_iff (head : Bool) (headers : Headers) :
    (Returns (parseAndBuildBatchedRecordsV1 head headers) ↔
      ∀ h ∈ headers.toList, isRecordNameV1 h.1 = true → ReadableHeaderV1 h) ∧
    ∀ csv : Bytes, quotation ∉ csv → (ReadableCsv csv ↔ ∃ size rest,
      splitFirst comma csv = some (size, rest) ∧ rest ≠ [] ∧ ReadsSigned (2 ^ 63) size) := by
  refine ⟨?_, fun _ => readableCsv_plain⟩
  rw [parseAndBuildBatchedRecordsV1_eq, returns_bind_of_forall fun _ => returns_pure _,
    returns_mapM]
  simp only [(orderedRecordHeaders_perm headers).mem_iff, recordHeaders, List.mem_filter, and_imp,
    returns_decodeRecordV1]

/-- A response with one record header. -/
def oneHeader (name value : Bytes) : Headers := ⟨[(name, value)], by simp⟩

/-- An empty value, a value with one field, a value whose second field is cut off by a
quote that is not closed, a size that is no number, and a timestamp that is none. -/
theorem returnsV1_broken :
    let decode (name value : Bytes) :=
      parseAndBuildBatchedRecordsV1 false (oneHeader (kHeaderTimePrefix ++ name) value)
    decode (bytes "1") [] = .error .undefinedBehaviour ∧
      decode (bytes "1") (bytes "5,") = .error .undefinedBehaviour ∧
      decode (bytes "1") (bytes "5,\"text") = .error .undefinedBehaviour ∧
      decode (bytes "1") (bytes "five,text") = .error .invalidArgument ∧
      decode (bytes "now") (bytes "5,text") = .error .invalidArgument :=
  ⟨rfl, rfl, rfl, rfl, rfl⟩

/-! ## Record headers of protocol v2 -/

/-- Without the header `x-reduct-labels`, keys are not looked at. -/
theorem returns_resolveLabelName {labelNames : Option (List Bytes)} {key : Bytes} :
    Returns (resolveLabelName labelNames key) ↔ (labelNames ≠ none → KeyFits key) := by
  cases labelNames with
  | none => exact iff_of_true (returns_pure key) (fun h => absurd rfl h)
  | some names =>
    rw [resolveLabelName, KeyFits]
    by_cases hdigits : key ≠ [] ∧ key.all isDigit = true
    · rw [if_pos hdigits, returns_bind_of_forall fun _ => returns_pure _]
      exact ⟨fun h _ _ _ => h, fun h => h (Option.some_ne_none names) hdigits.1 hdigits.2⟩
    · rw [if_neg hdigits]
      exact iff_of_true (returns_pure key) fun _ hne hall => absurd ⟨hne, hall⟩ hdigits

/-- The loop returns if and only if the keys that it comes to can be resolved. -/
theorem returns_labelDeltaLoop {labelNames : Option (List Bytes)} {fuel : Nat} {raw : Bytes} :
    Returns (labelDeltaLoop labelNames fuel raw) ↔
      (labelNames ≠ none → ∀ key ∈ labelKeysLoop fuel raw, KeyFits key) := by
  induction fuel generalizing raw with
  | zero => exact iff_of_true (returns_pure []) (by simp [labelKeysLoop])
  | succ fuel ih =>
    rw [labelDeltaLoop, labelKeysLoop]
    cases hsplit : splitFirst equalsSign raw with
    | none => exact iff_of_true (returns_pure []) (by simp)
    | some parts =>
      dsimp only
      rw [List.forall_mem_cons, imp_and, ← returns_resolveLabelName, returns_bind]
      cases hvalue : labelValue parts.2 with
      | none => simp [Returns, pure, Except.pure]
      | some read =>
        dsimp only
        rw [← ih]
        constructor
        · rintro ⟨key, hkey, hrest⟩
          exact ⟨⟨key, hkey⟩, (returns_bind_of_forall fun _ => returns_pure _).1 hrest⟩
        · rintro ⟨⟨key, hkey⟩, hrest⟩
          exact ⟨key, hkey, (returns_bind_of_forall fun _ => returns_pure _).2 hrest⟩

theorem returns_headerLabels {raw : Bytes} {labels : LabelMap} {labelNames : Option (List Bytes)} :
    Returns (headerLabels raw labels labelNames) ↔ (labelNames ≠ none → KeysFit raw) := by
  unfold headerLabels KeysFit
  cases labelsPart raw with
  | none => exact iff_of_true (returns_pure labels) (by simp)
  | some text =>
    dsimp only
    rw [applyLabelDelta, returns_bind_of_forall fun _ => returns_pure _, parseLabelDeltaOps,
      returns_labelDeltaLoop]
    simp [labelKeys]

/-- A record header with a length returns if and only if its label keys do, any other
one is skipped. -/
theorem returns_parseRecordHeaderV2 {raw : Bytes} {previous : Option RecordHeaderV2}
    {labelNames : Option (List Bytes)} :
    Returns (parseRecordHeaderV2 raw previous labelNames) ↔
      ((∃ n, stoull (lengthPart raw) = .ok n) → labelNames ≠ none → KeysFit raw) := by
  rw [parseRecordHeaderV2_parts]
  by_cases hnil : lengthPart raw = []
  · rw [if_pos hnil, hnil]
    exact iff_of_true (returns_ok none) fun ⟨n, hn⟩ => absurd hn (stoull_nil n)
  · rw [if_neg hnil]
    cases hlength : stoull (lengthPart raw) with
    | error fault => exact iff_of_true (returns_ok none) fun ⟨n, hn⟩ => by cases hn
    | ok n =>
      dsimp only
      rw [returns_bind_of_forall fun _ => returns_ok _, returns_headerLabels]
      exact ⟨fun h _ => h, fun h => h ⟨n, rfl⟩⟩

section DecodeHeader

variable {head : Bool} {entries : List Bytes} {startTs : Nat} {labelNames : Option (List Bytes)}

/-- What cannot be parsed is skipped. -/
theorem decodeHeader_of_not_keepsHeader {p : ParsedHeader} (h : ¬ KeepsHeader entries p)
    (st : DecodeState) : decodeHeader head entries startTs labelNames st p = .ok st := by
  unfold decodeHeader
  dsimp only
  cases hentry : entries[p.1]? with
  | none => rfl
  | some entry =>
    have hlt := (List.getElem?_eq_some_iff.1 hentry).1
    obtain ⟨header, hheader⟩ := (@returns_parseRecordHeaderV2 p.2.2 (st.lastHeader[p.1]?.join)
      labelNames).2 fun hlength => absurd ⟨hlt, hlength⟩ h
    dsimp only
    rw [hheader, ok_bind]
    rcases parseRecordHeaderV2_cases hheader with ⟨rfl, -⟩ | ⟨_, -, hlength⟩
    · rfl
    · exact absurd ⟨hlt, _, hlength⟩ h

/-- A header returns unless it is kept and has a key that cannot be resolved. -/
theorem returns_decodeHeader {p : ParsedHeader} {st : DecodeState} :
    Returns (decodeHeader head entries startTs labelNames st p) ↔
      (KeepsHeader entries p → labelNames ≠ none → KeysFit p.2.2) := by
  unfold decodeHeader KeepsHeader
  dsimp only
  cases hentry : entries[p.1]? with
  | none =>
    refine iff_of_true (returns_pure st) fun hkeeps => ?_
    rw [List.getElem?_eq_getElem hkeeps.1] at hentry
    cases hentry
  | some entry =>
    have hlt := (List.getElem?_eq_some_iff.1 hentry).1
    dsimp only
    rw [returns_bind_of_forall, returns_parseRecordHeaderV2]
    · exact ⟨fun h hkeeps => h hkeeps.2, fun h hlength => h ⟨hlt, hlength⟩⟩
    · intro header
      cases header <;> exact returns_pure _

end DecodeHeader

/-- The decoder resolves the label keys of its records: where the response has the
header `x-reduct-labels`, the keys that are numbers fit in 64 bits. -/
def LabelKeysFit (headers : Headers) : Prop :=
  ∀ rawEntries rawStartTs startTs rawLabels, headers.find? kHeaderEntries = some rawEntries →
    headers.find? kHeaderStartTs = some rawStartTs → stoull rawStartTs = .ok startTs →
      headers.find? kHeaderLabels = some rawLabels →
        ∀ p ∈ parsedHeaders headers, KeepsHeader (parseEncodedList rawEntries) p → KeysFit p.2.2

/-- The decoder returns. It skips what it cannot parse, and the loop over the labels of
a header stays within the text and comes to its end. -/
structure HarmlessV2 [StdSort] (head : Bool) (headers : Headers) : Prop where
  returns : Returns (parseAndBuildBatchedRecordsV2 head headers)
  skips : ∀ entries startTs labelNames st p, ¬ KeepsHeader entries p →
    decodeHeader head entries startTs labelNames st p = .ok st
  inRange : ∀ raw labelNames, labelDeltaLoopAt labelNames raw (raw.length + 1) 0 =
    parseLabelDeltaOps raw labelNames >>= fun ops => .ok (some ops)

section Response

variable [StdSort]

theorem returns_parseAndBuildBatchedRecordsV2 (head : Bool) (headers : Headers) :
    Returns (parseAndBuildBatchedRecordsV2 head headers) ↔ LabelKeysFit headers := by
  cases hentries : headers.find? kHeaderEntries with
  | none =>
    refine iff_of_true ?_ fun _ _ _ _ h => by cases hentries.symm.trans h
    rw [parseAndBuildBatchedRecordsV2, hentries]
    exact returns_pure []
  | some rawEntries =>
    cases hstart : headers.find? kHeaderStartTs with
    | none =>
      refine iff_of_true ?_ fun _ _ _ _ _ h => by cases hstart.symm.trans h
      rw [parseAndBuildBatchedRecordsV2, hentries, hstart]
      exact returns_pure []
    | some rawStartTs =>
      cases hok : stoull rawStartTs with
      | error fault =>
        refine iff_of_true ?_ fun _ _ _ _ _ h hok' => by
          cases hstart.symm.trans h
          cases hok.symm.trans hok'
        simp only [parseAndBuildBatchedRecordsV2, hentries, hstart, hok]
        split_ifs <;> exact returns_pure []
      | ok startTs =>
        have hfit : LabelKeysFit headers ↔ ∀ p ∈ parsedHeaders headers,
            KeepsHeader (parseEncodedList rawEntries) p →
              (headers.find? kHeaderLabels).map parseEncodedList ≠ none → KeysFit p.2.2 := by
          constructor
          · intro h p hp hkeeps hlabels
            obtain ⟨names, hnames⟩ := Option.ne_none_iff_exists'.1 hlabels
            obtain ⟨rawLabels, hrawLabels, -⟩ := Option.map_eq_some_iff.1 hnames
            exact h _ _ _ _ hentries hstart hok hrawLabels p hp hkeeps
          · intro h _ _ _ rawLabels hentries' _ _ hrawLabels p hp hkeeps
            cases hentries.symm.trans hentries'
            exact h p hp hkeeps (by simp [hrawLabels])
        rw [parseAndBuildBatchedRecordsV2_eq head hentries hstart hok, hfit]
        by_cases hnil : parseEncodedList rawEntries = []
        · rw [if_pos hnil, hnil]
          exact iff_of_true (returns_ok []) fun p _ hkeeps => absurd hkeeps.1 (Nat.not_lt_zero _)
        · rw [if_neg hnil, returns_bind_of_forall fun _ => returns_ok _]
          refine (returns_foldlM (f := decodeHeader head (parseEncodedList rawEntries) startTs
            ((headers.find? kHeaderLabels).map parseEncodedList))
            (fun _ _ _ => returns_decodeHeader) _).trans ?_
          simp only [(StdSort.perm _ _).mem_iff]

/-- The v2 decoder is harmless if and only if the label keys of its records fit. -/
theorem harmlessV2_iff (head : Bool) (headers : Headers) :
    HarmlessV2 head headers ↔ LabelKeysFit headers := by
  rw [← returns_parseAndBuildBatchedRecordsV2 head headers]
  refine ⟨HarmlessV2.returns, fun h => ⟨h, ?_, fun raw names => labelDeltaLoopAt_start raw names⟩⟩
  exact fun entries startTs labelNames st p hp => decodeHeader_of_not_keepsHeader hp st

/-- A response with a label name that is numbered beyond 64 bits. -/
def numberedHeaders : Headers := UnorderedMap.empty.emplaceAll
  [(kHeaderEntries, bytes "entry"), (kHeaderStartTs, bytes "0"), (kHeaderLabels, bytes "name"),
    (bytes "x-reduct-0-0", bytes "1,,18446744073709551616=value")]

omit [StdSort] in
theorem harmlessV2_broken :
    @parseAndBuildBatchedRecordsV2 .insertion false numberedHeaders = .error .outOfRange ∧
      ¬ @HarmlessV2 .insertion false numberedHeaders := by
  have hfault :
      @parseAndBuildBatchedRecordsV2 .insertion false numberedHeaders = .error .outOfRange := rfl
  refine ⟨hfault, fun h => ?_⟩
  obtain ⟨records, hrecords⟩ := @HarmlessV2.returns .insertion _ _ h
  cases hfault.symm.trans hrecords

end Response

/-! ## Error headers -/

section ErrorHeaders

variable {header : Bytes × Bytes}

/-- What follows a comma in the value has a status before it that an `int` holds. -/
def ReadableStatus (value : Bytes) : Prop :=
  ∀ code message, splitFirst comma value = some (code, message) → ReadsSigned (2 ^ 31) code

/-- A v1 error header without a comma is skipped. In any other one the status and the
timestamp are numbers. -/
def ReadableErrorV1 (header : Bytes × Bytes) : Prop :=
  comma ∈ header.2 → ReadableStatus header.2 ∧
    ReadsUnsigned (header.1.drop kHeaderErrorPrefix.length)

/-- A v2 error header without a dash in its name is skipped. In any other one the delta
is a number, and so is the status if the value has a comma. -/
def ReadableErrorV2 (header : Bytes × Bytes) : Prop :=
  ∀ entryStr deltaStr, splitLast dash (header.1.drop kHeaderErrorPrefix.length) =
    some (entryStr, deltaStr) → ReadsUnsigned deltaStr ∧ ReadableStatus header.2

/-- With the errors by entry, the entry index is a number too. The rest does not matter
if the index is out of range. -/
def ReadableRecordErrorV2 (entries : List Bytes) (header : Bytes × Bytes) : Prop :=
  ∀ entryStr deltaStr, splitLast dash (header.1.drop kHeaderErrorPrefix.length) =
    some (entryStr, deltaStr) → ReadsUnsigned entryStr ∧
      ∀ entryIdx, stoul entryStr = .ok entryIdx → entryIdx < entries.length →
        ReadsUnsigned deltaStr ∧ ReadableStatus header.2

theorem returns_errorHeaderV1 {errors : BatchErrors} :
    Returns (errorHeaderV1 errors header) ↔ (isErrorName header.1 = true → ReadableErrorV1 header) := by
  rw [errorHeaderV1, isErrorName, ReadableErrorV1, ReadableStatus]
  split
  · rename_i hname
    cases hsplit : splitFirst comma header.2 with
    | none =>
      exact iff_of_true (returns_pure errors) fun _ hcomma =>
        absurd hcomma (splitFirst_eq_none.1 hsplit)
    | some parts =>
      have hcomma : comma ∈ header.2 := by simp [(splitFirst_eq_some.1 hsplit).1]
      have hstatus : (∀ code message, some parts = some (code, message) →
          ReadsSigned (2 ^ 31) code) ↔ Returns (stoi parts.1) :=
        ⟨fun h => stoSigned_returns.2 (h _ _ rfl), fun h _ _ heq => by
          cases heq
          exact stoSigned_returns.1 h⟩
      dsimp only
      rw [hstatus, ← returns_fromMicroseconds, returns_bind]
      constructor
      · rintro ⟨status, hok, h⟩ - -
        exact ⟨⟨status, hok⟩, (returns_bind_of_forall fun _ => returns_pure _).1 h⟩
      · intro h
        obtain ⟨⟨status, hok⟩, htime⟩ := h hname hcomma
        exact ⟨status, hok, (returns_bind_of_forall fun _ => returns_pure _).2 htime⟩
  · rename_i hname
    exact iff_of_true (returns_pure errors) fun h => absurd h hname

/-- The end of an iteration of the v2 loops: the status and the time. -/
theorem returns_status {α : Type} {value : Bytes} {skipped : α} {startTs delta : Nat}
    {add : Int → Bytes → Time → α} :
    Returns (match splitFirst comma value with
      | none => (pure skipped : Except Fault α)
      | some (code, message) => do
        let status ← stoi code
        let time ← fromMicroseconds (decimal ((startTs + delta) % 2 ^ 64))
        pure (add status message time)) ↔ ReadableStatus value := by
  rw [ReadableStatus]
  cases hsplit : splitFirst comma value with
  | none => exact iff_of_true (returns_pure skipped) (by simp)
  | some parts =>
    dsimp only
    rw [returns_bind_of_forall]
    · refine stoSigned_returns.trans ⟨fun h _ _ heq => ?_, fun h => h _ _ rfl⟩
      cases heq
      exact h
    · intro status
      rw [fromMicroseconds_errorTime]
      exact returns_pure _

theorem returns_errorHeaderV2 {startTs : Nat} {errors : BatchErrors} :
    Returns (errorHeaderV2 startTs errors header) ↔
      (isErrorName header.1 = true → ReadableErrorV2 header) := by
  rw [errorHeaderV2, isErrorName, ReadableErrorV2]
  split
  · rename_i hname
    cases hsplit : splitLast dash (header.1.drop kHeaderErrorPrefix.length) with
    | none => exact iff_of_true (returns_pure errors) fun _ _ _ h => by cases h
    | some parts =>
      dsimp only
      rw [returns_bind]
      constructor
      · rintro ⟨delta, hdelta, h⟩ - _ _ ⟨⟩
        exact ⟨stoull_returns.1 ⟨delta, hdelta⟩, returns_status.1 h⟩
      · intro h
        obtain ⟨hdelta, hstatus⟩ := h hname _ _ rfl
        obtain ⟨delta, hok⟩ := stoull_returns.2 hdelta
        exact ⟨delta, hok, returns_status.2 hstatus⟩
  · rename_i hname
    exact iff_of_true (returns_pure errors) fun h => absurd h hname

theorem returns_recordErrorHeaderV2 {entries : List Bytes} {startTs : Nat}
    {errors : BatchRecordErrors} :
    Returns (recordErrorHeaderV2 entries startTs errors header) ↔
      (isErrorName header.1 = true → ReadableRecordErrorV2 entries header) := by
  rw [recordErrorHeaderV2, isErrorName, ReadableRecordErrorV2]
  split
  · rename_i hname
    cases hsplit : splitLast dash (header.1.drop kHeaderErrorPrefix.length) with
    | none => exact iff_of_true (returns_pure errors) fun _ _ _ h => by cases h
    | some parts =>
      dsimp only
      rw [returns_bind]
      constructor
      · rintro ⟨entryIdx, hidx, h⟩ - _ _ ⟨⟩
        refine ⟨stoull_returns.1 ⟨entryIdx, hidx⟩, fun entryIdx' hidx' hlt => ?_⟩
        cases hidx.symm.trans hidx'
        rw [List.getElem?_eq_getElem hlt] at h
        obtain ⟨delta, hdelta, h⟩ := returns_bind.1 h
        exact ⟨stoull_returns.1 ⟨delta, hdelta⟩, returns_status.1 h⟩
      · intro h
        obtain ⟨hentry, hrest⟩ := h hname _ _ rfl
        obtain ⟨entryIdx, hidx⟩ := stoull_returns.2 hentry
        refine ⟨entryIdx, hidx, ?_⟩
        by_cases hlt : entryIdx < entries.length
        · obtain ⟨hdelta, hstatus⟩ := hrest entryIdx hidx hlt
          obtain ⟨delta, hok⟩ := stoull_returns.2 hdelta
          rw [List.getElem?_eq_getElem hlt]
          exact returns_bind.2 ⟨delta, hok, returns_status.2 hstatus⟩
        · rw [List.getElem?_eq_none (Nat.le_of_not_lt hlt)]
          exact returns_pure errors
  · rename_i hname
    exact iff_of_true (returns_pure errors) fun h => absurd h hname

end ErrorHeaders

/-- All error headers of the answer can be read. -/
def ErrorsReadable (readable : Bytes × Bytes → Prop) (answer : Headers) : Prop :=
  ∀ h ∈ answer.toList, isErrorName h.1 = true → readable h

theorem returns_errors {α : Type} {decode : α → Bytes × Bytes → Except Fault α}
    {readable : Bytes × Bytes → Prop}
    (h : ∀ errors header,
      Returns (decode errors header) ↔ (isErrorName header.1 = true → readable header))
    (errors : α) (answer : Headers) :
    Returns (answer.toList.foldlM decode errors) ↔ ErrorsReadable readable answer :=
  returns_foldlM (fun errors header _ => h errors header) errors

/-! ## Sending a batch -/

/-- A call of protocol v2 returns unless it decodes an answer and this does not return. -/
theorem returns_processRequestV2 {α : Type} {server : HttpServer} {ioPath : Bytes} {batch : Batch}
    {type : BatchType} {built : Except Error BatchV2Request} {nothing : α}
    {decode : BatchV2Request → Headers → Except Fault α} :
    Returns (processRequestV2 server ioPath batch type built nothing decode).result ↔
      ∀ request, built = .ok request → request.ordered ≠ [] →
        (server (requestV2 ioPath type batch request)).error.isError = false →
          Returns (decode request (server (requestV2 ioPath type batch request)).result.2) := by
  cases built with
  | error err => exact iff_of_true (returns_ok _) fun _ h => by cases h
  | ok request =>
    by_cases hordered : request.ordered = []
    · simp only [processRequestV2, if_pos hordered]
      exact iff_of_true (returns_ok _) fun _ heq hne => by
        cases heq
        exact absurd hordered hne
    · simp only [processRequestV2, if_neg hordered]
      by_cases herror : (server (requestV2 ioPath type batch request)).error.isError = true
      · rw [if_pos herror]
        exact iff_of_true (returns_ok _) fun _ heq _ hno => by
          cases heq
          exact absurd (herror.symm.trans hno) (by decide)
      · rw [if_neg herror, returns_bind_of_forall fun _ => returns_pure _]
        refine ⟨fun h _ heq _ _ => ?_, fun h => h request rfl hordered (Bool.eq_false_iff.2 herror)⟩
        cases heq
        exact h

variable [StdSort]

/-- `ProcessBatchV1` returns. Of the error headers of a 200 answer it takes those that parse,
and skips the others. -/
structure HarmlessErrorsV1 (server : HttpServer) (path entryName : Bytes) (batch : Batch)
    (type : BatchType) : Prop where
  returns : Returns (processBatchV1 server path entryName batch type).result
  skips : ∀ result answer, (processBatchV1 server path entryName batch type).result = .ok result →
    (uniqueEntries batch entryName).length ≤ 1 →
    server (requestV1 path entryName batch type) = answer → answer.error.isError = false →
      TakesErrors parseErrorV1 answer.result.2.toList fun time => result.result[time]?

/-- `ProcessBatchV2` returns, and takes the error headers that parse. -/
structure HarmlessErrorsV2 (server : HttpServer) (path entryName : Bytes) (batch : Batch)
    (type : BatchType) : Prop where
  returns : Returns (processBatchV2 server path entryName batch type).result
  skips : ∀ result request answer,
    (processBatchV2 server path entryName batch type).result = .ok result →
    buildBatchV2Request entryName batch type false = .ok request → request.ordered ≠ [] →
    server (requestV2 path type batch request) = answer → answer.error.isError = false →
      TakesErrors (parseErrorV2 request.startTs) answer.result.2.toList
        fun time => result.result[time]?

/-- `ProcessBatchV2Records` returns, and takes the error headers that parse. -/
structure HarmlessRecordErrors (server : HttpServer) (path : Bytes) (batch : Batch)
    (type : BatchType) : Prop where
  returns : Returns (processBatchV2Records server path batch type).result
  skips : ∀ result request answer,
    (processBatchV2Records server path batch type).result = .ok result →
    buildBatchV2Request [] batch type true = .ok request → request.ordered ≠ [] →
    server (requestV2 path type batch request) = answer → answer.error.isError = false →
      TakesErrors (parseRecordError (errorEntries request answer.result.2)
          (errorStartTs request answer.result.2)) answer.result.2.toList
        fun key => errorOf result.result key.1 key.2

theorem skips_processBatchV1 {server : HttpServer} {path entryName : Bytes} {batch : Batch}
    {type : BatchType} {result : Result BatchErrors}
    (h : (processBatchV1 server path entryName batch type).result = .ok result)
    (hone : (uniqueEntries batch entryName).length ≤ 1)
    (hok : (server (requestV1 path entryName batch type)).error.isError = false) :
    TakesErrors parseErrorV1 (server (requestV1 path entryName batch type)).result.2.toList
      fun time => result.result[time]? := by
  rw [processBatchV1, if_neg (Nat.not_lt.2 hone)] at h
  dsimp only at h
  rw [hok, if_neg Bool.false_ne_true] at h
  obtain ⟨errors, hdecode, h⟩ := bind_eq_ok.1 h
  cases h
  exact takesErrors_of_step (fun errors time => errors[time]?) errorHeaderV1_taken
    (by simp) hdecode

omit [StdSort] in
/-- A v2 call whose request is answered decodes the answer. -/
theorem decode_processRequestV2 {α : Type} {server : HttpServer} {ioPath : Bytes} {batch : Batch}
    {type : BatchType} {built : Except Error BatchV2Request} {nothing : α}
    {decode : BatchV2Request → Headers → Except Fault α} {result : Result α}
    {request : BatchV2Request}
    (h : (processRequestV2 server ioPath batch type built nothing decode).result = .ok result)
    (hbuilt : built = .ok request) (hordered : request.ordered ≠ [])
    (hok : (server (requestV2 ioPath type batch request)).error.isError = false) :
    decode request (server (requestV2 ioPath type batch request)).result.2 = .ok result.result := by
  subst hbuilt
  simp only [processRequestV2, if_neg hordered] at h
  rw [hok, if_neg Bool.false_ne_true] at h
  obtain ⟨errors, hdecode, h⟩ := bind_eq_ok.1 h
  cases h
  exact hdecode

section Calls

variable (server : HttpServer) (path entryName : Bytes) (batch : Batch) (type : BatchType)

theorem harmlessErrorsV1_iff : HarmlessErrorsV1 server path entryName batch type ↔
    ((uniqueEntries batch entryName).length ≤ 1 →
      (server (requestV1 path entryName batch type)).error.isError = false →
        ErrorsReadable ReadableErrorV1
          (server (requestV1 path entryName batch type)).result.2) := by
  have hreturns : HarmlessErrorsV1 server path entryName batch type ↔
      Returns (processBatchV1 server path entryName batch type).result := by
    refine ⟨HarmlessErrorsV1.returns, fun h => ⟨h, ?_⟩⟩
    rintro result answer hresult hone rfl hok
    exact skips_processBatchV1 hresult hone hok
  rw [hreturns, processBatchV1]
  by_cases hmany : 1 < (uniqueEntries batch entryName).length
  · rw [if_pos hmany]
    exact iff_of_true (returns_ok _) fun hle => absurd hmany (Nat.not_lt.2 hle)
  · rw [if_neg hmany]
    dsimp only
    by_cases herror : (server (requestV1 path entryName batch type)).error.isError = true
    · rw [if_pos herror]
      exact iff_of_true (returns_ok _) fun _ hno => absurd (herror.symm.trans hno) (by decide)
    · rw [if_neg herror, returns_bind_of_forall fun _ => returns_pure _,
        returns_errors fun _ _ => returns_errorHeaderV1]
      exact ⟨fun h _ _ => h, fun h => h (Nat.not_lt.1 hmany) (Bool.eq_false_iff.2 herror)⟩

theorem harmlessErrorsV2_iff : HarmlessErrorsV2 server path entryName batch type ↔
    ∀ request, buildBatchV2Request entryName batch type false = .ok request →
      request.ordered ≠ [] → (server (requestV2 path type batch request)).error.isError = false →
        ErrorsReadable ReadableErrorV2 (server (requestV2 path type batch request)).result.2 := by
  have hreturns : HarmlessErrorsV2 server path entryName batch type ↔
      Returns (processBatchV2 server path entryName batch type).result := by
    refine ⟨HarmlessErrorsV2.returns, fun h => ⟨h, ?_⟩⟩
    rintro result request answer hresult hbuilt hordered rfl hok
    exact takesErrors_of_step (fun errors time => errors[time]?) errorHeaderV2_taken
      (by simp) (decode_processRequestV2 hresult hbuilt hordered hok)
  rw [hreturns, processBatchV2, returns_processRequestV2]
  refine forall_congr' fun request => forall_congr' fun _ => forall_congr' fun _ =>
    forall_congr' fun _ => ?_
  exact returns_errors (fun _ _ => returns_errorHeaderV2) _ _

theorem harmlessRecordErrors_iff : HarmlessRecordErrors server path batch type ↔
    ∀ request, buildBatchV2Request [] batch type true = .ok request →
      request.ordered ≠ [] → (server (requestV2 path type batch request)).error.isError = false →
        ErrorsReadable (ReadableRecordErrorV2
          (errorEntries request (server (requestV2 path type batch request)).result.2))
          (server (requestV2 path type batch request)).result.2 := by
  have hreturns : HarmlessRecordErrors server path batch type ↔
      Returns (processBatchV2Records server path batch type).result := by
    refine ⟨HarmlessRecordErrors.returns, fun h => ⟨h, ?_⟩⟩
    rintro result request answer hresult hbuilt hordered rfl hok
    exact takesErrors_of_step (fun errors (key : Bytes × Time) => errorOf errors key.1 key.2)
      recordErrorHeaderV2_taken (by simp [errorOf])
      (decode_processRequestV2 hresult hbuilt hordered hok)
  rw [hreturns, processBatchV2Records, returns_processRequestV2]
  refine forall_congr' fun request => forall_congr' fun _ => forall_congr' fun _ =>
    forall_congr' fun _ => ?_
  exact returns_errors (fun _ _ => returns_recordErrorHeaderV2) _ _

end Calls

/-- Each of the three calls returns and skips what does not parse if and only if the error
headers of a 200 answer can be read. -/
theorem harmlessErrors_iff (server : HttpServer) (path entryName : Bytes) (batch : Batch)
    (type : BatchType) :
    (HarmlessErrorsV1 server path entryName batch type ↔
      ((uniqueEntries batch entryName).length ≤ 1 →
        (server (requestV1 path entryName batch type)).error.isError = false →
          ErrorsReadable ReadableErrorV1
            (server (requestV1 path entryName batch type)).result.2)) ∧
    (HarmlessErrorsV2 server path entryName batch type ↔
      ∀ request, buildBatchV2Request entryName batch type false = .ok request →
        request.ordered ≠ [] → (server (requestV2 path type batch request)).error.isError = false →
          ErrorsReadable ReadableErrorV2 (server (requestV2 path type batch request)).result.2) ∧
    (HarmlessRecordErrors server path batch type ↔
      ∀ request, buildBatchV2Request [] batch type true = .ok request →
        request.ordered ≠ [] → (server (requestV2 path type batch request)).error.isError = false →
          ErrorsReadable (ReadableRecordErrorV2
            (errorEntries request (server (requestV2 path type batch request)).result.2))
            (server (requestV2 path type batch request)).result.2) :=
  ⟨harmlessErrorsV1_iff server path entryName batch type,
    harmlessErrorsV2_iff server path entryName batch type,
    harmlessRecordErrors_iff server path batch type⟩

omit [StdSort] in
/-- A status and a timestamp that are no numbers, a delta that is none in a header
without a status, an entry index that is none, and a status that is no `int`. -/
theorem harmlessErrors_broken :
    let answer (name value : Bytes) : HttpServer := fun _ =>
      ⟨([], oneHeader (kHeaderErrorPrefix ++ name) value), .kOk⟩
    (@processBatchV1 .insertion (answer (bytes "2") (bytes "gone,why")) [] [] twoTimes
        .kUpdate).result = .error .invalidArgument ∧
      (@processBatchV1 .insertion (answer (bytes "now") (bytes "404,why")) [] [] twoTimes
        .kUpdate).result = .error .invalidArgument ∧
      (@processBatchV2 .insertion (answer (bytes "0-now") (bytes "404")) [] [] twoTimes
        .kUpdate).result = .error .invalidArgument ∧
      (@processBatchV2Records .insertion (answer (bytes "a-1") (bytes "404,why")) [] twoTimes
        .kUpdate).result = .error .invalidArgument ∧
      (@processBatchV2Records .insertion (answer (bytes "0-1") (bytes "2147483648,why")) [] twoTimes
        .kUpdate).result = .error .outOfRange :=
  ⟨rfl, rfl, rfl, rfl, rfl⟩

end Reduct
