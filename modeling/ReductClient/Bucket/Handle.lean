-- SUMMARY: `Bucket`: the identity fields of a handle, and its methods as programs that send requests.
import ReductClient.Bucket.Attachments
import ReductClient.Internal.HttpSession

open Cxx

namespace Reduct

variable [StdSort]

/-- The members of a `Bucket` that name the bucket. The other ones are its HTTP
client, which is the session, and the worker with its queue. -/
structure Bucket where
  name : Bytes
  path : Bytes
  ioPath : Bytes
  deriving DecidableEq

/-- What the callback calls of a query come to. They stop it or not, depending on
the round and the response, and `rounds` bounds the number of reads that are looked
at, since a continuous query need not end. -/
structure Reading where
  rounds : Nat
  stopped : Nat → Result HttpAnswer → Bool

/-- `IBucket::WriteOptions`. -/
structure WriteOptions where
  timestamp : Option Time := none
  labels : LabelMap := ∅
  contentType : Bytes := []

/-- `IBucket::WritableRecord`, as the callback of `Write` leaves it. -/
structure WritableRecord where
  contentLength : Nat
  callback : WriteCallback

namespace Bucket

/-- The constructor. -/
def build (name : Bytes) : Bucket := ⟨name, bytes "/b/" ++ name, bytes "/io/" ++ name⟩

/-- The path of an entry. -/
def entryPath (b : Bucket) (entryName : Bytes) : Bytes := b.path ++ bytes "/" ++ entryName

/-! ## The API version -/

/-- `SupportsBatchProtocolV2`. -/
def supportsBatchProtocolV2 : Http Bool := do
  match ← Http.apiVersion with
  | none => pure false
  | some version => Http.isCompatible (bytes "1.18") version

/-- `EnsureApiVersion`. -/
def ensureApiVersion : Http (Result Bytes) := do
  match ← Http.apiVersion with
  | some version => pure ⟨version, .kOk⟩
  | none =>
    let info ← Http.get (bytes "/info")
    if info.error.isError then pure ⟨[], info.error⟩
    else
      match ← Http.apiVersion with
      | some version => pure ⟨version, .kOk⟩
      | none => pure ⟨[], ⟨-1, bytes "Failed to determine ReductStore API version"⟩⟩

/-- The error of the methods with several entries, which need protocol v2. -/
def protocolV2Error : Error := ⟨-1, bytes "Batch protocol v2 not supported"⟩

/-! ## The bucket and its entries

`GetSettings`, `GetInfo` and `GetEntryList` send the same request, and each of
them reads another part of the body. -/

/-- The request of `GetSettings`, `GetInfo` and `GetEntryList`. -/
def getBody (b : Bucket) : Http (Result JsonText) := Http.get b.path

/-- `UpdateSettings`. -/
def updateSettings (b : Bucket) (settings : Settings) : Http Error := do
  let body ← Http.dump (bucketSettingToJsonString settings)
  Http.put b.path body

/-- `Remove`. -/
def remove (b : Bucket) : Http Error := Http.transfer (.delete b.path .empty)

/-- `RemoveEntry`. -/
def removeEntry (b : Bucket) (entryName : Bytes) : Http Error :=
  Http.transfer (.delete (b.entryPath entryName) .empty)

/-- `RenameEntry`. -/
def renameEntry (b : Bucket) (oldName newName : Bytes) : Http Error := do
  let body ← Http.dump (JsonKind.sorted.build [(bytes "new_name", .str newName)])
  Http.put (b.entryPath oldName ++ bytes "/rename") body

/-- `Rename`. -/
def rename (b : Bucket) (newName : Bytes) : Http (Error × Bucket) := do
  let body ← Http.dump (JsonKind.sorted.build [(bytes "new_name", .str newName)])
  let err ← Http.put (b.path ++ bytes "/rename") body
  if err.isError then pure (err, b)
  else pure (.kOk, { b with path := bytes "/b/" ++ newName, ioPath := bytes "/io/" ++ newName })

/-! ## Single records -/

/-- The path of a record. -/
def recordPath (b : Bucket) (entryName : Bytes) (ts : Time) : Bytes :=
  b.entryPath entryName ++ bytes "?ts=" ++ decimalSigned (toMicroseconds ts)

/-- `MakeHeadersFromLabels`. -/
def makeHeadersFromLabels (labels : LabelMap) : Headers :=
  UnorderedMap.empty.emplaceAll (labels.toList.map fun (key, value) =>
    (kHeaderLabelPrefix ++ key, value))

/-- `RemoveRecord`. -/
def removeRecord (b : Bucket) (entryName : Bytes) (ts : Time) : Http Error :=
  Http.transfer (.delete (b.recordPath entryName ts) .empty)

/-- `Write`, called at the time `now`. -/
def write (b : Bucket) (entryName : Bytes) (options : WriteOptions) (record : WritableRecord)
    (now : Time) : Http Error :=
  let contentType :=
    if options.contentType = [] then bytes "application/octet-stream" else options.contentType
  Http.transfer (.post (b.recordPath entryName (options.timestamp.getD now)) contentType
    record.contentLength (makeHeadersFromLabels options.labels) record.callback)

/-- `Update`. -/
def update (b : Bucket) (entryName : Bytes) (options : WriteOptions) : Http Error :=
  match options.timestamp with
  | none => pure ⟨400, bytes "Timestamp is required"⟩
  | some ts =>
    Http.transfer (.patch (b.recordPath entryName ts) [] (makeHeadersFromLabels options.labels))

/-- The request of `ReadRecord` or `ReadRecordV2` and what it returns. -/
def readRecord (head : Bool) (path : Bytes) (headers : Headers)
    (stopped : Result HttpAnswer → Bool) : Http (Bool × Error) := do
  let resp ← Dialogue.send (if head then .head path headers else .get path headers)
  pure (stopped resp, resp.error)

/-- `Read` and `Head`. -/
def read (b : Bucket) (head : Bool) (entryName : Bytes) (ts : Option Time) : Http Error := do
  let path :=
    match ts with
    | none => b.entryPath entryName
    | some ts => b.recordPath entryName ts
  let (_, err) ← readRecord head path .empty fun _ => false
  pure err

/-! ## Batches -/

/-- `ProcessBatchV1`: `WriteBatch`, `UpdateBatch` and `RemoveBatch` on one entry. -/
def processBatchV1 (b : Bucket) (entryName : Bytes) (batch : Batch) (type : BatchType) :
    Http (Result BatchErrors) := do
  if ← supportsBatchProtocolV2 then
    Http.ofCall fun server => Reduct.processBatchV2 server b.ioPath entryName batch type
  else Http.ofCall fun server => Reduct.processBatchV1 server b.path entryName batch type

/-- The first entry that a record of the batch names. -/
def firstEntry (batch : Batch) : Bytes :=
  ((batch.records.map Record.entry).find? (· ≠ [])).getD []

/-- The way over protocol v1 in `ProcessBatchV2`. -/
def processBatchFallback (b : Bucket) (batch : Batch) (type : BatchType) :
    Http (Result BatchRecordErrors) := do
  let entryName := firstEntry batch
  if entryName = [] then pure ⟨∅, ⟨400, bytes "Entry name is required"⟩⟩
  else
    let errors ← Http.ofCall fun server =>
      Reduct.processBatchV1 server b.path entryName batch type
    if errors.error.isError then pure ⟨∅, errors.error⟩
    else pure ⟨(∅ : BatchRecordErrors).insert entryName errors.result, .kOk⟩

/-- `ProcessBatchV2`: `WriteBatch`, `UpdateBatch` and `RemoveBatch` on several entries. -/
def processBatchV2 (b : Bucket) (batch : Batch) (type : BatchType) :
    Http (Result BatchRecordErrors) := do
  if batch.records = [] then pure ⟨∅, .kOk⟩
  else if ← supportsBatchProtocolV2 then
    Http.ofCall fun server => processBatchV2Records server b.ioPath batch type
  else b.processBatchFallback batch type

/-! ## Queries -/

/-- The loop of `QueryV1` and `QueryV2`, which sends the same request in each round.
It returns nothing if it has not ended within the rounds looked at. -/
def readLoop (options : QueryOptions) (path : Bytes) (headers : Headers) (reading : Reading) :
    Nat → Http (Option Error)
  | 0 => pure none
  | rounds + 1 => do
    let (stopped, err) ← readRecord options.headOnly path headers (reading.stopped rounds)
    if stopped then pure (some .kOk)
    else if err.isError then
      if err.code = 204 then
        if options.continuous then readLoop options path headers reading rounds
        else pure (some .kOk)
      else pure (some err)
    else readLoop options path headers reading rounds

/-- The id of a query in the response of the server. -/
def queryId (body : JsonText) : Except Error Nat :=
  (do
    let data ← body.parse .sorted
    let id ← data.index (bytes "id")
    id.getUInt64).mapError exceptionError

/-- Post a query, and go on with the body of the response. -/
def postQuery {α : Type} (path : Bytes) (payload : Except Error Json) (failed : Error → α)
    (next : JsonText → Http α) : Http α :=
  match payload with
  | .error err => pure (failed err)
  | .ok payload => do
    let text ← Http.dump payload
    let resp ← Http.postWithResponse path text
    if resp.error.isError then pure (failed resp.error) else next resp.result

/-- `QueryV1`. -/
def queryV1 (b : Bucket) (entryName : Bytes) (start stop : Option Time) (options : QueryOptions)
    (reading : Reading) : Http (Option Error) :=
  postQuery (b.entryPath entryName ++ bytes "/q")
    (queryOptionsToJsonString (bytes "QUERY") [] start stop options) some fun body =>
    match queryId body with
    | .error err => pure (some err)
    | .ok id =>
      readLoop options (b.entryPath entryName ++ bytes "/batch?q=" ++ decimal id) .empty reading
        reading.rounds

/-- `QueryV2`. -/
def queryV2 (b : Bucket) (entries : List Bytes) (start stop : Option Time)
    (options : QueryOptions) (reading : Reading) : Http (Option Error) :=
  postQuery (b.ioPath ++ bytes "/q")
    (queryOptionsToJsonString (bytes "QUERY") entries start stop options) some fun body =>
    match queryId body with
    | .error err => pure (some err)
    | .ok id =>
      readLoop options (b.ioPath ++ bytes "/read")
        (UnorderedMap.empty.emplace kHeaderQueryId (decimal id)) reading reading.rounds

/-- `Query` on one entry. -/
def query (b : Bucket) (entryName : Bytes) (start stop : Option Time) (options : QueryOptions)
    (reading : Reading) : Http (Option Error) := do
  if ← supportsBatchProtocolV2 then b.queryV2 [entryName] start stop options reading
  else b.queryV1 entryName start stop options reading

/-- `Query` on several entries. -/
def queryEntries (b : Bucket) (entryNames : List Bytes) (start stop : Option Time)
    (options : QueryOptions) (reading : Reading) : Http (Option Error) := do
  if ← supportsBatchProtocolV2 then
    if entryNames = [] then pure (some ⟨-1, bytes "No entry names provided"⟩)
    else b.queryV2 entryNames start stop options reading
  else pure (some protocolV2Error)

/-! ## Removal queries -/

/-- The result of a removal query in the response of the server. -/
def removedRecords (body : JsonText) : Result Nat :=
  let removed := do
    let data ← body.parse .sorted
    let removed ← data.at? (bytes "removed_records")
    removed.getUInt64
  match removed with
  | .ok n => ⟨n, .kOk⟩
  | .error what => ⟨0, exceptionError what⟩

/-- `RemoveQueryV1`. -/
def removeQueryV1 (b : Bucket) (entryName : Bytes) (start stop : Option Time)
    (options : QueryOptions) : Http (Result Nat) :=
  postQuery (b.entryPath entryName ++ bytes "/q")
    (queryOptionsToJsonString (bytes "REMOVE") [] start stop options) (fun err => ⟨0, err⟩)
    fun body => pure (removedRecords body)

/-- `RemoveQueryV2`. -/
def removeQueryV2 (b : Bucket) (entries : List Bytes) (start stop : Option Time)
    (options : QueryOptions) : Http (Result Nat) :=
  let payload :=
    match queryOptionsToJsonString (bytes "REMOVE") entries start stop options with
    | .error err => .error err
    | .ok payload =>
      if entries = [] then .error ⟨-1, bytes "At least one entry name is required"⟩ else .ok payload
  postQuery (b.ioPath ++ bytes "/q") payload (fun err => ⟨0, err⟩)
    fun body => pure (removedRecords body)

/-- `RemoveQuery` on one entry. -/
def removeQuery (b : Bucket) (entryName : Bytes) (start stop : Option Time)
    (options : QueryOptions) : Http (Result Nat) := do
  if ← supportsBatchProtocolV2 then b.removeQueryV2 [entryName] start stop options
  else b.removeQueryV1 entryName start stop options

/-- `RemoveQuery` on several entries. -/
def removeQueryEntries (b : Bucket) (entryNames : List Bytes) (start stop : Option Time)
    (options : QueryOptions) : Http (Result Nat) := do
  if ← supportsBatchProtocolV2 then
    if entryNames = [] then pure ⟨0, ⟨-1, bytes "No entry names provided"⟩⟩
    else b.removeQueryV2 entryNames start stop options
  else pure ⟨0, protocolV2Error⟩

/-! ## Query links -/

/-- `HasWildcard`. -/
def hasWildcard (entry : Bytes) : Bool :=
  entry.any fun c => c = 0x2A || c = 0x3F || c = 0x5B

/-- The record a link refers to, as far as `NormalizeAndValidateQueryLinkOptions`
looks at the options only. -/
def normalizeRecord (entries : List Bytes) (options : QueryLinkOptions) :
    Except Error QueryLinkOptions :=
  match options.recordTimestamp, options.recordEntry, entries with
  | some _, none, [entry] =>
    if hasWildcard entry then
      .error ⟨-1, bytes "record_entry must be provided with record_timestamp"⟩
    else .ok { options with recordEntry := some entry }
  | some _, none, _ =>
    .error ⟨-1, bytes "record_entry must be provided with record_timestamp"⟩
  | none, some _, _ =>
    .error ⟨-1, bytes "record_timestamp must be provided with record_entry"⟩
  | _, _, _ => .ok options

/-- `NormalizeAndValidateQueryLinkOptions`. -/
def normalizeAndValidateQueryLinkOptions (entries : List Bytes) (options : QueryLinkOptions) :
    Http (Except Error QueryLinkOptions) :=
  match normalizeRecord entries options with
  | .error err => pure (.error err)
  | .ok options => do
    let version ← ensureApiVersion
    if version.error.isError then pure (.error version.error)
    else if (← Http.isCompatible (bytes "1.19") version.result) && options.recordEntry.isNone then
      pure (.error ⟨-1, bytes ("record entry and timestamp must be provided for ReductStore API "
        ++ "v1.19+; use record_entry and record_timestamp")⟩)
    else pure (.ok options)

/-- The number in the default file name of a link. -/
def linkSelector (options : QueryLinkOptions) : Int :=
  match options.recordTimestamp with
  | some ts => toMicroseconds ts
  | none => Int.bmod options.recordIndex (2 ^ 64)

/-- The link in the response of the server. -/
def linkOf (body : JsonText) : Result Bytes :=
  let link := do
    let data ← body.parse .sorted
    let link ← data.at? (bytes "link")
    link.getString
  match link with
  | .ok link => ⟨link, .kOk⟩
  | .error what => ⟨[], exceptionError what⟩

/-- The two `CreateQueryLink` methods, called at the time `now`, which differ in
the name the default file name starts with. -/
def createLink (b : Bucket) (fileStem : Bytes) (entries : List Bytes) (options : QueryLinkOptions)
    (now : Time) : Http (Result Bytes) := do
  match ← normalizeAndValidateQueryLinkOptions entries options with
  | .error err => pure ⟨[], err⟩
  | .ok options => do
    let payload ← Dialogue.ofExcept
      (uncaught (queryLinkOptionsToJsonString now b.name entries options))
    let fileName := options.fileName.getD
      (fileStem ++ bytes "_" ++ decimalSigned (linkSelector options) ++ bytes ".bin")
    postQuery (bytes "/links/" ++ fileName) payload (fun err => ⟨[], err⟩)
      fun body => pure (linkOf body)

/-- `CreateQueryLink` on one entry. -/
def createQueryLink (b : Bucket) (entryName : Bytes) (options : QueryLinkOptions) (now : Time) :
    Http (Result Bytes) :=
  b.createLink entryName [entryName] options now

/-- `CreateQueryLink` on several entries. -/
def createQueryLinkEntries (b : Bucket) (entries : List Bytes) (options : QueryLinkOptions)
    (now : Time) : Http (Result Bytes) := do
  if ← supportsBatchProtocolV2 then
    if entries = [] then pure ⟨[], ⟨-1, bytes "At least one entry name is required"⟩⟩
    else b.createLink b.name entries options now
  else pure ⟨[], protocolV2Error⟩

/-! ## Attachments -/

/-- Send a batch of the attachment methods. -/
def sendAttachments (b : Bucket) (batch : Batch) (type : BatchType) : Http Error := do
  let errors ← Http.ofCall fun server => processBatchV2Records server b.ioPath batch type
  if errors.error.isError then pure errors.error
  else pure (firstBatchRecordError errors.result)

/-- `WriteAttachments`, called at the time `now`. -/
def writeAttachments [JsonReader] (b : Bucket) (entryName : Bytes) (attachments : AttachmentMap)
    (now : Time) : Http Error :=
  if attachments.isEmpty then pure .kOk
  else do
    match ← Dialogue.ofExcept (uncaught (attachmentBatch entryName attachments now)) with
    | .error err => pure err
    | .ok batch => b.sendAttachments batch .kWrite

/-- The query of `ReadAttachments`. -/
def readAttachments (b : Bucket) (entryName : Bytes) (reading : Reading) : Http (Option Error) :=
  b.queryV2 [metaEntry entryName] none none {} reading

/-- The options of the query of `RemoveAttachments`. -/
def removalOptions (keys : KeySet) : Except Uncaught QueryOptions :=
  if keys.isEmpty then pure {}
  else
    match (attachmentsCondition keys).dump with
    | none => throw .dump
    | some condition => pure { when := some condition }

/-- `RemoveAttachments`, where the callback has built the given batch. -/
def removeAttachments (b : Bucket) (entryName : Bytes) (keys : KeySet) (reading : Reading)
    (removeBatch : Batch) : Http (Option Error) := do
  let options ← Dialogue.ofExcept (removalOptions keys)
  match ← b.queryV2 [metaEntry entryName] none none options reading with
  | none => pure none
  | some err =>
    if err.isError then pure (some err)
    else
      let err ← b.sendAttachments removeBatch .kUpdate
      pure (some err)

end Bucket

end Reduct
