-- SUMMARY: Batch protocol v1: sorting and formatting shared with v2, the decoder of batched responses, and the sending of batches.
import Mathlib.Data.List.Dedup
import ReductClient.Bucket.Batch
import ReductClient.Bucket.ReadableRecord
import ReductClient.Internal.HttpClient

open Cxx

namespace Reduct

variable [StdSort]

/-! ## Shared with protocol v2 -/

/-- `batch.records()[idx]`. -/
def Batch.recordAt (b : Batch) (idx : Nat) : Record :=
  (b.records[idx]?).getD ⟨[], .wrap 0, 0, [], ∅, none⟩

/-- `RecordEntry`. -/
def recordEntry (record : Record) (defaultEntry : Bytes) : Bytes :=
  if record.entry = [] then defaultEntry else record.entry

/-- `FormatLabels`: a value with a comma is quoted. -/
def formatLabels (labels : LabelMap) : Bytes :=
  join (labels.toList.map fun (key, value) =>
    key ++ equalsSign :: (if comma ∈ value then quotation :: value ++ [quotation] else value))

/-- `operator<` on strings: lexicographic on unsigned bytes. -/
def bytesLess (a b : Bytes) : Bool := compare a b == .lt

/-- The comparison of `SortRecords`. -/
def recordLess (batch : Batch) (defaultEntry : Bytes) (sortByEntry : Bool) (lhs rhs : Nat) : Bool :=
  let left := batch.recordAt lhs
  let right := batch.recordAt rhs
  if sortByEntry && recordEntry left defaultEntry != recordEntry right defaultEntry then
    bytesLess (recordEntry left defaultEntry) (recordEntry right defaultEntry)
  else if left.timestamp = right.timestamp then
    bytesLess (recordEntry left defaultEntry) (recordEntry right defaultEntry)
  else left.timestamp.before right.timestamp

/-- `SortRecords`. -/
def sortRecords (batch : Batch) (defaultEntry : Bytes) (sortByEntry : Bool) : List Nat :=
  StdSort.sort (recordLess batch defaultEntry sortByEntry) (List.range batch.records.length)

/-! ## Decoding a batched response -/

/-- The variables `escaped` and `items` of `parse_csv`. -/
structure CsvState where
  escaped : Bytes
  items : List Bytes

/-- One field in `parse_csv`. The opening quote is stripped and the closing
branch takes two characters off, `size() - 2` being unsigned. -/
def csvField (st : CsvState) (item : Bytes) : CsvState :=
  let escaped :=
    if item.head? = some quotation ∧ st.escaped = [] then item.drop 1 else st.escaped
  if escaped ≠ [] then
    if item.getLast? = some quotation then
      { escaped := [], items := st.items ++ [escaped.take (wrapSub escaped.length 2)] }
    else { st with escaped := escaped ++ item }
  else { escaped := [], items := st.items ++ [item] }

/-- The label fields of `parse_csv`. -/
def csvLabels (items : List Bytes) : LabelMap :=
  items.foldl (fun labels item =>
    match splitFirst equalsSign item with
    | some (key, value) => labels.insert key value
    | none => labels) ∅

/-- The lambda `parse_csv`. -/
def parseCsv (csv : Bytes) : Except Fault (Int × Bytes × LabelMap) := do
  let st := (getlines comma csv).foldl csvField ⟨[], []⟩
  match st.items with
  | sizeItem :: rest =>
    let size ← stoll sizeItem
    match rest with
    | contentType :: labelItems => pure (size, contentType, csvLabels labelItems)
    | [] => throw .undefinedBehaviour
  | [] => throw .undefinedBehaviour

/-- One record header in `ParseAndBuildBatchedRecordsV1`. -/
def buildRecordV1 (head : Bool) (headers : Headers) (totalRecords : Nat)
    (records : List ReadableRecord) (header : Bytes × Bytes) :
    Except Fault (List ReadableRecord) :=
  if kHeaderTimePrefix.isPrefixOf header.1 then do
    let (size, contentType, labels) ← parseCsv header.2
    let timestamp ← fromMicroseconds (header.1.drop kHeaderTimePrefix.length)
    pure (records ++ [{
      entry := []
      timestamp := timestamp
      size := toUInt64 size
      last := decide (records.length = totalRecords - 1) &&
        decide (headers.get kHeaderLast = bytes "true")
      labels := labels
      contentType := contentType
      read := ⟨.v1 (toUInt64 size), head⟩ }])
  else pure records

/-- `ParseAndBuildBatchedRecordsV1`. -/
def parseAndBuildBatchedRecordsV1 (head : Bool) (headers : Headers) :
    Except Fault (List ReadableRecord) :=
  let totalRecords := headers.toList.countP fun h => kHeaderTimePrefix.isPrefixOf h.1
  let orderedHeaders : OrderedMap Bytes Bytes := .ofList headers.toList
  orderedHeaders.toList.foldlM (buildRecordV1 head headers totalRecords) []

/-! ## Sending a batch -/

/-- `IBucket::BatchErrors`. -/
abbrev BatchErrors := OrderedMap Time Error

/-- The header of a record in `ProcessBatchV1`. -/
def recordHeaderV1 (record : Record) (type : BatchType) : Bytes × Bytes :=
  (kHeaderTimePrefix ++ decimalSigned (toMicroseconds record.timestamp),
    match type with
    | .kWrite =>
      decimal record.size ++ comma :: record.contentType ++ comma :: formatLabels record.labels
    | .kUpdate => bytes "0,," ++ formatLabels record.labels
    | .kRemove => bytes "0,")

/-- The content provider of a batch write: the slices of the ordered batch. -/
def batchProvider (batch : Batch) (ordered : List Nat) : WriteCallback := fun offset size => do
  let data ← batch.slice (some ordered) offset size
  pure (true, data)

/-- The request `ProcessBatchV1` sends. -/
def requestV1 (bucketPath entryName : Bytes) (batch : Batch) (type : BatchType) : HttpRequest :=
  let ordered := sortRecords batch entryName false
  let headers : Headers := UnorderedMap.empty.emplaceAll
    (ordered.map fun idx => recordHeaderV1 (batch.recordAt idx) type)
  let path := bucketPath ++ bytes "/" ++ entryName ++ bytes "/batch"
  match type with
  | .kWrite =>
    .post path (bytes "application/octet-stream") batch.size headers (batchProvider batch ordered)
  | .kUpdate => .patch path [] headers
  | .kRemove => .delete path headers

/-- One response header in the error loop of `ProcessBatchV1`. -/
def errorHeaderV1 (errors : BatchErrors) (header : Bytes × Bytes) : Except Fault BatchErrors :=
  if kHeaderErrorPrefix.isPrefixOf header.1 then
    match splitFirst comma header.2 with
    | none => pure errors
    | some (code, message) => do
      let status ← stoi code
      let time ← fromMicroseconds (header.1.drop kHeaderErrorPrefix.length)
      pure (errors.insertIfNew time ⟨status, message⟩)
  else pure errors

/-- The resolved entries of a batch, each once: the set `unique_entries`. -/
def uniqueEntries (batch : Batch) (entryName : Bytes) : List Bytes :=
  ((sortRecords batch entryName false).map fun idx =>
    recordEntry (batch.recordAt idx) entryName).dedup

/-- `ProcessBatchV1`. -/
def processBatchV1 (server : HttpServer) (bucketPath entryName : Bytes) (batch : Batch)
    (type : BatchType) : Outcome BatchErrors :=
  if 1 < (uniqueEntries batch entryName).length then
    ⟨[], .ok ⟨∅, ⟨-1,
      bytes "Batch protocol v2 is required to target multiple entries in one request"⟩⟩⟩
  else
    let request := requestV1 bucketPath entryName batch type
    let resp := server request
    ⟨[request],
      if resp.error.isError then .ok ⟨∅, resp.error⟩
      else do
        let errors ← resp.result.2.toList.foldlM errorHeaderV1 ∅
        pure ⟨errors, .kOk⟩⟩

end Reduct
