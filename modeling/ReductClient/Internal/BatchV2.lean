-- SUMMARY: Batch protocol v2: entry names, record headers with label deltas, the decoder of batched responses, and the sending of batches.
import ReductClient.Internal.BatchV1

open Cxx

namespace Reduct

variable [StdSort]

/-! ## Entry names -/

/-- A character `EncodeEntryName` leaves as it is. -/
def isPlainEntryChar (c : UInt8) : Bool := isAlnum c || (bytes "!#$%&'*+-.^_`|~").contains c

/-- An upper case hexadecimal digit. -/
def hexDigit (d : Nat) : UInt8 := if d < 10 then digitByte d else UInt8.ofNat (0x37 + d)

/-- `EncodeEntryName`. -/
def encodeEntryName (entry : Bytes) : Bytes :=
  entry.flatMap fun c =>
    if isPlainEntryChar c then [c]
    else [percent, hexDigit (c.toNat / 16), hexDigit (c.toNat % 16)]

/-- `DecodeEntryName`. The two characters after a percent sign go to `std::stoi`,
whose result is cast to `char`. -/
def decodeEntryName : Bytes → Option Bytes
  | [] => some []
  | c :: rest =>
    if c = percent then
      match rest with
      | h₁ :: h₂ :: rest =>
        match stoi [h₁, h₂] 16 with
        | .ok value => (decodeEntryName rest).map (UInt8.ofNat (value % 256).toNat :: ·)
        | .error _ => none
      | _ => none
    else (decodeEntryName rest).map (c :: ·)

/-- `ParseEncodedList`: empty and undecodable fields are dropped. -/
def parseEncodedList (raw : Bytes) : List Bytes :=
  (getlines comma raw).filterMap fun item =>
    if trim item = [] then none else decodeEntryName (trim item)

/-! ## Record headers -/

/-- `ParseBatchedHeaderNameV2`: the entry index and the delta. -/
def parseBatchedHeaderNameV2 (name : Bytes) : Option (Nat × Nat) :=
  if kHeaderPrefix.isPrefixOf name = false ∨ kHeaderErrorPrefix.isPrefixOf name = true then none
  else
    match splitLast dash (name.drop kHeaderPrefix.length) with
    | none => none
    | some (entryStr, deltaStr) =>
      match stoul entryStr, stoull deltaStr with
      | .ok entryIdx, .ok delta => some (entryIdx, delta)
      | _, _ => none

/-- A label name in a delta: a number is an index into the label names. -/
def resolveLabelName (labelNames : Option (List Bytes)) (key : Bytes) : Except Fault Bytes :=
  match labelNames with
  | none => pure key
  | some names =>
    if key ≠ [] ∧ key.all isDigit then do
      let idx ← stoul key
      pure (names[idx]?.getD key)
    else pure key

/-- The end of an iteration in `ParseLabelDeltaOps`: a comma and blanks. -/
def skipSeparator (raw : Bytes) : Bytes :=
  (if raw.head? = some comma then raw.drop 1 else raw).dropWhile isSpace

/-- The value at the front of a label delta with the text after it. Without a
value the label is to be erased. There is no result if a quote is not closed. -/
def labelValue (raw : Bytes) : Option (Option Bytes × Bytes) :=
  if raw.head? = some quotation then
    (splitFirst quotation (raw.drop 1)).map fun (value, rest) => (some value, rest)
  else
    let (slice, rest) :=
      match splitFirst comma raw with
      | some (slice, rest) => (slice, comma :: rest)
      | none => (raw, [])
    some (if trim slice = [] then none else some (trim slice), rest)

/-- The loop of `ParseLabelDeltaOps` from the current position on. Every
iteration passes an equals sign, so the length of the text is enough fuel. -/
def labelDeltaLoop (labelNames : Option (List Bytes)) :
    Nat → Bytes → Except Fault (List (Bytes × Option Bytes))
  | 0, _ => pure []
  | fuel + 1, raw =>
    match splitFirst equalsSign raw with
    | none => pure []
    | some (rawKey, rest) => do
      let key ← resolveLabelName labelNames (trim rawKey)
      match labelValue rest with
      | none => pure []
      | some (value, rest) =>
        let ops ← labelDeltaLoop labelNames fuel (skipSeparator rest)
        pure ((key, value) :: ops)

/-- `ParseLabelDeltaOps`. -/
def parseLabelDeltaOps (raw : Bytes) (labelNames : Option (List Bytes)) :
    Except Fault (List (Bytes × Option Bytes)) :=
  labelDeltaLoop labelNames raw.length raw

/-- Set or erase one label. -/
def applyLabelOp (labels : LabelMap) (op : Bytes × Option Bytes) : LabelMap :=
  match op.2 with
  | some value => labels.insert op.1 value
  | none => labels.erase op.1

/-- `ApplyLabelDelta`. -/
def applyLabelDelta (raw : Bytes) (base : LabelMap) (labelNames : Option (List Bytes)) :
    Except Fault LabelMap := do
  let ops ← parseLabelDeltaOps raw labelNames
  pure (ops.foldl applyLabelOp base)

/-- `RecordHeaderV2`. -/
structure RecordHeaderV2 where
  contentLength : Nat
  contentType : Bytes
  labels : LabelMap

/-- The content type and the labels of a record header, as they stand in the
text after the first comma. -/
def headerFields : Option Bytes → Bytes × Option Bytes
  | none => ([], none)
  | some rest =>
    match splitFirst comma rest with
    | none => (trim rest, none)
    | some (contentType, labels) => (trim contentType, some labels)

/-- `ParseRecordHeaderV2`. What the header leaves out is taken from the previous
header of the same entry. -/
def parseRecordHeaderV2 (raw : Bytes) (previous : Option RecordHeaderV2)
    (labelNames : Option (List Bytes)) : Except Fault (Option RecordHeaderV2) :=
  let (lengthPart, rest) :=
    match splitFirst comma raw with
    | some (lengthPart, rest) => (lengthPart, some rest)
    | none => (raw, none)
  if trim lengthPart = [] then pure none
  else
    match stoull (trim lengthPart) with
    | .error _ => pure none
    | .ok contentLength => do
      let (contentType, labelsRaw) := headerFields rest
      let contentType :=
        if contentType = [] then
          (previous.map (·.contentType)).getD (bytes "application/octet-stream")
        else contentType
      let labels := (previous.map (·.labels)).getD ∅
      let labels ←
        match labelsRaw with
        | some raw => applyLabelDelta raw labels labelNames
        | none => pure labels
      pure (some ⟨contentLength, contentType, labels⟩)

/-! ## Decoding a batched response -/

/-- A parsed record header: entry index, delta and value. -/
abbrev ParsedHeader := Nat × Nat × Bytes

/-- The comparison of the parsed headers. -/
def parsedHeaderLess (lhs rhs : ParsedHeader) : Bool :=
  if lhs.1 = rhs.1 then decide (lhs.2.1 < rhs.2.1) else decide (lhs.1 < rhs.1)

/-- The variables `last_header` and `records` of the decoder. -/
structure DecodeState where
  lastHeader : List (Option RecordHeaderV2)
  records : List ReadableRecord

/-- One parsed header in the loop of `ParseAndBuildBatchedRecordsV2`. -/
def decodeHeader (head : Bool) (entries : List Bytes) (startTs : Nat)
    (labelNames : Option (List Bytes)) (st : DecodeState) (parsed : ParsedHeader) :
    Except Fault DecodeState :=
  let (entryIdx, delta, value) := parsed
  match entries[entryIdx]? with
  | none => pure st
  | some entry => do
    match ← parseRecordHeaderV2 value (st.lastHeader[entryIdx]?.join) labelNames with
    | none => pure st
    | some header =>
      pure {
        lastHeader := st.lastHeader.set entryIdx (some header)
        records := st.records ++ [{
          entry := entry
          timestamp := timeFromMicroseconds ((startTs + delta) % 2 ^ 64)
          size := header.contentLength
          last := false
          labels := header.labels
          contentType := header.contentType
          read := ⟨.v2 header.contentLength, head⟩ }] }

/-- `records.back().last = true`. -/
def markLast (records : List ReadableRecord) : List ReadableRecord :=
  match records.getLast? with
  | none => records
  | some record => records.dropLast ++ [{ record with last := true }]

/-- `ParseAndBuildBatchedRecordsV2`. -/
def parseAndBuildBatchedRecordsV2 (head : Bool) (headers : Headers) :
    Except Fault (List ReadableRecord) :=
  match headers.find? kHeaderEntries, headers.find? kHeaderStartTs with
  | some rawEntries, some rawStartTs =>
    let entries := parseEncodedList rawEntries
    if entries = [] then pure []
    else
      match stoull rawStartTs with
      | .error _ => pure []
      | .ok startTs => do
        let labelNames := (headers.find? kHeaderLabels).map parseEncodedList
        let parsedHeaders : List ParsedHeader := headers.toList.filterMap fun (key, value) =>
          (parseBatchedHeaderNameV2 key).map fun (entryIdx, delta) => (entryIdx, delta, value)
        let st ← (StdSort.sort parsedHeaderLess parsedHeaders).foldlM
          (decodeHeader head entries startTs labelNames)
          ⟨List.replicate entries.length none, []⟩
        pure (if headers.get kHeaderLast = bytes "true" then markLast st.records else st.records)
  | _, _ => pure []

/-! ## Building a request -/

/-- `BuildHeaderValueV2`. -/
def buildHeaderValueV2 (record : Record) (type : BatchType) : Bytes :=
  match type with
  | .kRemove => []
  | .kUpdate =>
    let labels := formatLabels record.labels
    if labels = [] then bytes "0" else bytes "0,," ++ labels
  | .kWrite =>
    let labels := formatLabels record.labels
    if labels = [] then decimal record.size ++ comma :: record.contentType
    else decimal record.size ++ comma :: record.contentType ++ comma :: labels

/-- `BatchV2Request`. -/
structure BatchV2Request where
  ordered : List Nat
  entries : List Bytes
  startTs : Nat
  headers : Headers

/-- The variables of the first loop of `BuildBatchV2Request`. -/
structure IndexState where
  startTs : Nat
  entryIndices : UnorderedMap Bytes Nat
  entries : List Bytes

/-- One record in the first loop: the smallest timestamp so far, and an index
for each entry at its first occurrence. -/
def indexRecord (batch : Batch) (defaultEntry : Bytes) (requireEntry : Bool) (st : IndexState)
    (idx : Nat) : Except Error IndexState :=
  let record := batch.recordAt idx
  let entry := recordEntry record defaultEntry
  if requireEntry ∧ entry = [] then .error ⟨400, bytes "Entry name is required"⟩
  else
    let startTs := min st.startTs record.timestamp.micros
    .ok (if st.entryIndices.contains entry then { st with startTs := startTs }
      else {
        startTs := startTs
        entryIndices := st.entryIndices.emplace entry st.entries.length
        entries := st.entries ++ [entry] })

/-- The header of a record in the second loop of `BuildBatchV2Request`. -/
def recordHeaderV2 (defaultEntry : Bytes) (type : BatchType) (st : IndexState) (record : Record) :
    Bytes × Bytes :=
  let entryIdx := (st.entryIndices.find? (recordEntry record defaultEntry)).getD 0
  let delta := wrapSub record.timestamp.micros st.startTs
  (kHeaderPrefix ++ decimal entryIdx ++ dash :: decimal delta, buildHeaderValueV2 record type)

/-- `BuildBatchV2Request`. -/
def buildBatchV2Request (defaultEntry : Bytes) (batch : Batch) (type : BatchType)
    (requireEntry : Bool) : Except Error BatchV2Request :=
  let ordered := sortRecords batch defaultEntry true
  if ordered = [] then .ok ⟨[], [], 0, .empty⟩
  else do
    let st ← ordered.foldlM (indexRecord batch defaultEntry requireEntry)
      ⟨2 ^ 64 - 1, .empty, []⟩
    let headers : Headers := UnorderedMap.empty.emplaceAll
      ([(kHeaderEntries, join (st.entries.map encodeEntryName)),
        (kHeaderStartTs, decimal st.startTs)] ++
        ordered.map fun idx => recordHeaderV2 defaultEntry type st (batch.recordAt idx))
    pure ⟨ordered, st.entries, st.startTs, headers⟩

/-! ## Sending a batch -/

/-- The request `SendBatchV2` sends. -/
def requestV2 (ioPath : Bytes) (type : BatchType) (batch : Batch) (request : BatchV2Request) :
    HttpRequest :=
  match type with
  | .kWrite =>
    .post (ioPath ++ bytes "/write") (bytes "application/octet-stream") batch.size
      request.headers (batchProvider batch request.ordered)
  | .kUpdate => .patch (ioPath ++ bytes "/update") [] request.headers
  | .kRemove => .delete (ioPath ++ bytes "/remove") request.headers

/-- The frame of `ProcessBatchV2` and `ProcessBatchV2Records`: build the request,
send it if there is something to send, and decode the response. -/
def processRequestV2 {α : Type} (server : HttpServer) (ioPath : Bytes) (batch : Batch)
    (type : BatchType) (built : Except Error BatchV2Request) (nothing : α)
    (decode : BatchV2Request → Headers → Except Fault α) : Outcome α :=
  match built with
  | .error err => ⟨[], .ok ⟨nothing, err⟩⟩
  | .ok request =>
    if request.ordered = [] then ⟨[], .ok ⟨nothing, .kOk⟩⟩
    else
      let sent := requestV2 ioPath type batch request
      let resp := server sent
      ⟨[sent],
        if resp.error.isError then .ok ⟨nothing, resp.error⟩
        else do
          let errors ← decode request resp.result.2
          pure ⟨errors, .kOk⟩⟩

/-- One response header in the error loop of `ProcessBatchV2`. -/
def errorHeaderV2 (startTs : Nat) (errors : BatchErrors) (header : Bytes × Bytes) :
    Except Fault BatchErrors :=
  if kHeaderErrorPrefix.isPrefixOf header.1 then
    match splitLast dash (header.1.drop kHeaderErrorPrefix.length) with
    | none => pure errors
    | some (_, deltaStr) => do
      let delta ← stoull deltaStr
      match splitFirst comma header.2 with
      | none => pure errors
      | some (code, message) =>
        let status ← stoi code
        let time ← fromMicroseconds (decimal ((startTs + delta) % 2 ^ 64))
        pure (errors.insertIfNew time ⟨status, message⟩)
  else pure errors

/-- `ProcessBatchV2`. -/
def processBatchV2 (server : HttpServer) (ioPath entryName : Bytes) (batch : Batch)
    (type : BatchType) : Outcome BatchErrors :=
  processRequestV2 server ioPath batch type (buildBatchV2Request entryName batch type false) ∅
    fun request headers => headers.toList.foldlM (errorHeaderV2 request.startTs) ∅

/-- `IBucket::BatchRecordErrors`. -/
abbrev BatchRecordErrors := OrderedMap Bytes BatchErrors

/-- One response header in the error loop of `ProcessBatchV2Records`. -/
def recordErrorHeaderV2 (entries : List Bytes) (startTs : Nat) (errors : BatchRecordErrors)
    (header : Bytes × Bytes) : Except Fault BatchRecordErrors :=
  if kHeaderErrorPrefix.isPrefixOf header.1 then
    match splitLast dash (header.1.drop kHeaderErrorPrefix.length) with
    | none => pure errors
    | some (entryStr, deltaStr) => do
      let entryIdx ← stoul entryStr
      match entries[entryIdx]? with
      | none => pure errors
      | some entry =>
        let delta ← stoull deltaStr
        match splitFirst comma header.2 with
        | none => pure errors
        | some (code, message) =>
          let status ← stoi code
          let time ← fromMicroseconds (decimal ((startTs + delta) % 2 ^ 64))
          let errorsOfEntry : BatchErrors := errors[entry]?.getD ∅
          pure (errors.insert entry (errorsOfEntry.insertIfNew time ⟨status, message⟩))
  else pure errors

/-- The entries the error indices refer to: those of the response if it lists
any, otherwise those of the request. -/
def errorEntries (request : BatchV2Request) (headers : Headers) : List Bytes :=
  let entries := ((headers.find? kHeaderEntries).map parseEncodedList).getD []
  if entries = [] then request.entries else entries

/-- The start timestamp the error deltas refer to. -/
def errorStartTs (request : BatchV2Request) (headers : Headers) : Nat :=
  match headers.find? kHeaderStartTs with
  | none => request.startTs
  | some raw =>
    match stoull raw with
    | .ok startTs => startTs
    | .error _ => request.startTs

/-- `ProcessBatchV2Records`. -/
def processBatchV2Records (server : HttpServer) (ioPath : Bytes) (batch : Batch)
    (type : BatchType) : Outcome BatchRecordErrors :=
  processRequestV2 server ioPath batch type (buildBatchV2Request [] batch type true) ∅
    fun request headers => headers.toList.foldlM
      (recordErrorHeaderV2 (errorEntries request headers) (errorStartTs request headers)) ∅

end Reduct
