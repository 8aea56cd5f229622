-- SUMMARY: What the three attachment methods put into their batches and queries, and the callbacks they read records with.
import Std.Data.ExtTreeSet
import ReductClient.Bucket.Batch
import ReductClient.Internal.BatchV2
import ReductClient.Internal.Serialisation

open Cxx

namespace Reduct

/-- How the JSON library reads a text. -/
class JsonReader where
  read : Bytes → JsonText

/-- `IBucket::AttachmentMap`: the JSON payload of each key. -/
abbrev AttachmentMap := OrderedMap Bytes Blob

/-- A `std::set<std::string>`. -/
abbrev KeySet := Std.ExtTreeSet Bytes compare

/-- The entry that holds the attachments of an entry. -/
def metaEntry (entryName : Bytes) : Bytes := entryName ++ bytes "/$meta"

def labelKey : Bytes := bytes "key"
def labelRemove : Bytes := bytes "remove"

/-! ## Writing -/

/-- A time point that counts microseconds, as the clock's own time point. -/
def timeOfMicroseconds (us : Int) : Time := .wrap (us * 1000)

/-- The variables `batch` and `timestamp` of `WriteAttachments`. -/
structure AttachmentBatch where
  batch : Batch
  timestamp : Int

/-- One attachment in the loop of `WriteAttachments`, unless the loop has been
left with an error. -/
def addAttachment [JsonReader] (metaEntry : Bytes) (st : Except Error AttachmentBatch)
    (attachment : Bytes × Blob) : Except Fault (Except Error AttachmentBatch) :=
  match st with
  | .error err => pure (.error err)
  | .ok st =>
    match (JsonReader.read attachment.2.bytes).parse .sorted with
    | .error what => pure (.error (exceptionError what))
    | .ok _ => do
      let batch ← st.batch.addRecord metaEntry (timeOfMicroseconds st.timestamp) attachment.2
        (bytes "application/json") ((∅ : LabelMap).insert labelKey attachment.1)
      pure (.ok ⟨batch, st.timestamp + 1⟩)

/-- The batch of `WriteAttachments`, called at the time `now`. -/
def attachmentBatch [JsonReader] (entryName : Bytes) (attachments : AttachmentMap) (now : Time) :
    Except Fault (Except Error Batch) := do
  let st ← attachments.toList.foldlM (addAttachment (metaEntry entryName))
    (.ok ⟨.empty, toMicroseconds now⟩)
  pure (st.map AttachmentBatch.batch)

/-! ## Reading -/

/-- The variables `attachments` and `callback_err` of `ReadAttachments`. -/
structure ReadAttachments where
  attachments : AttachmentMap := ∅
  callbackErr : Error := .kOk

/-- The callback of `ReadAttachments`, for a record with the given labels and what
`ReadAll` returns for it. The flag tells whether the query goes on. -/
def ReadAttachments.callback [JsonReader] (st : ReadAttachments) (labels : LabelMap)
    (readAll : Result Blob) : ReadAttachments × Bool :=
  match labels[labelKey]? with
  | none => (st, true)
  | some key =>
    if readAll.error.isError then ({ st with callbackErr := readAll.error }, false)
    else if labels[labelRemove]? = some (bytes "true") then
      ({ st with attachments := st.attachments.erase key }, true)
    else
      match (JsonReader.read readAll.result.bytes).parse .sorted with
      | .error what => ({ st with callbackErr := exceptionError what }, false)
      | .ok _ => ({ st with attachments := st.attachments.insert key readAll.result }, true)

/-! ## Removing -/

/-- The operand that stands for a key: a `$` at its start is doubled. -/
def escapeKey (key : Bytes) : Bytes :=
  if key.head? = some 0x24 then 0x24 :: key else key

/-- The left operand of the condition of `RemoveAttachments`: the label `key` as a
string. -/
def keyReference : Json :=
  JsonKind.sorted.build
    [(bytes "&key", JsonKind.sorted.build [(bytes "$cast", .str (bytes "string"))])]

/-- The condition of `RemoveAttachments` for a set of keys that is not empty. -/
def attachmentsCondition (keys : KeySet) : Json :=
  JsonKind.sorted.build
    [(bytes "$in", .arr (keyReference :: (keys.toList.map escapeKey).map .str))]

/-- The callback of `RemoveAttachments`: the record is marked in the batch. -/
def markRemoved (removeBatch : Batch) (entry : Bytes) (timestamp : Time) (labels : LabelMap) :
    Except Fault Batch :=
  removeBatch.addOnlyLabels entry timestamp (labels.insert labelRemove (bytes "true"))

/-! ## Results -/

/-- `FirstBatchRecordError`. -/
def firstBatchRecordError (errors : BatchRecordErrors) : Error :=
  (errors.toList.findSome? fun e => (e.2.toList.head?).map Prod.snd).getD .kOk

end Reduct
