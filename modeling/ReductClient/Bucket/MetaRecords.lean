-- SUMMARY: The records of attachments: those a batch holds, those a query asks for, and what the callback of `ReadAttachments` reads off a body.
import ReductClient.Base.Chunks
import ReductClient.Bucket.Attachments

open Cxx

namespace Reduct

/-! ## Records -/

/-- A record as the server keeps it. -/
structure MetaRecord where
  labels : LabelMap
  payload : Blob

theorem MetaRecord.payload_lt (r : MetaRecord) : r.payload.size < 2 ^ 64 := r.payload.size_lt

/-- The records of an entry by their timestamps in microseconds. -/
abbrev EntryRecords := OrderedMap Int MetaRecord

/-- The data of a record of a batch. -/
def Batch.payload (b : Batch) (r : Record) : Blob :=
  (r.dataIndex.bind (b.body[·]?)).getD ⟨[], Blob.nil_lt⟩

/-- The records that a batch holds for an entry. -/
def Batch.recordsOf (b : Batch) (entry : Bytes) : List (Int × MetaRecord) :=
  (b.records.filter (·.entry = entry)).map fun r =>
    (toMicroseconds r.timestamp, ⟨r.labels, b.payload r⟩)

/-- A batch that has grown by a record holds one more record for the entry of it. -/
theorem Batch.recordsOf_grown {b b' : Batch} {r : Record} (more : List Blob)
    (hrecords : b'.records = b.records ++ [r]) (hbody : b'.body = b.body ++ more) {entry : Bytes}
    (hentry : r.entry = entry) {data : Blob} (hdata : b'.payload r = data) :
    b'.recordsOf entry = b.recordsOf entry ++
      [(toMicroseconds r.timestamp, ⟨r.labels, data⟩)] := by
  have hpayload : ∀ q ∈ b.records, b'.payload q = b.payload q := by
    intro q hq
    rw [payload, payload, hbody]
    cases hi : q.dataIndex with
    | none => rfl
    | some i => rw [Option.bind_some, Option.bind_some,
        List.getElem?_append_left (b.dataIndex_lt hq hi)]
  rw [recordsOf, hrecords, List.filter_append, List.map_append, recordsOf]
  congr 1
  · refine List.map_congr_left fun q hq => ?_
    rw [hpayload q (List.mem_filter.1 hq).1]
  · simp [hentry, hdata]

/-- What `AddRecord` does to the records of the entry. -/
theorem Batch.addRecord_ok {b : Batch} (h : b.records.length + 1 < 2 ^ 64) (entry : Bytes)
    (timestamp : Time) (data : Blob) (contentType : Bytes) (labels : LabelMap) :
    ∃ b', b.addRecord entry timestamp data contentType labels = .ok b' ∧
      b'.records = b.records ++
        [⟨entry, timestamp, data.size, contentType, labels, some b.body.length⟩] ∧
      b'.recordsOf entry = b.recordsOf entry ++ [(toMicroseconds timestamp, ⟨labels, data⟩)] := by
  refine ⟨_, dif_pos h, rfl, ?_⟩
  refine recordsOf_grown [data] (r := ⟨entry, timestamp, data.size, contentType, labels,
    some b.body.length⟩) rfl rfl rfl ?_
  simp [payload]

/-- What `AddOnlyLabels` does to them. -/
theorem Batch.addOnlyLabels_ok {b : Batch} (h : b.records.length + 1 < 2 ^ 64) (entry : Bytes)
    (timestamp : Time) (labels : LabelMap) :
    ∃ b', b.addOnlyLabels entry timestamp labels = .ok b' ∧
      b'.records = b.records ++ [⟨entry, timestamp, 0, [], labels, none⟩] ∧
      b'.recordsOf entry = b.recordsOf entry ++
        [(toMicroseconds timestamp, ⟨labels, ⟨[], by decide⟩⟩)] := by
  refine ⟨_, dif_pos h, rfl, ?_⟩
  refine recordsOf_grown [] (r := ⟨entry, timestamp, 0, [], labels, none⟩) ?_ ?_ rfl ?_
  · rfl
  · exact (List.append_nil _).symm
  · rfl

/-- A stored record after an update, which sets labels. -/
def updateRecord (update stored : MetaRecord) : MetaRecord :=
  { stored with labels := stored.labels ∪ update.labels }

/-! ## Queries -/

/-- An operand of a condition as a literal: of two `$` at its start one is dropped. -/
def readOperand : Bytes → Bytes
  | 0x24 :: 0x24 :: rest => 0x24 :: rest
  | operand => operand

/-- The operand is the label `key` as a string. -/
def refersToKey (operand : Json) : Bool :=
  match (operand.member? (bytes "&key")).bind (·.member? (bytes "$cast")) with
  | some (.str type) => type = bytes "string"
  | _ => false

/-- The operand stands for the key. -/
def denotesKey (key : Bytes) : Json → Bool
  | .str operand => readOperand operand = key
  | _ => false

/-- A record with the labels meets the condition of a query, if it has one. -/
def meetsCondition (when : Option Json) (labels : LabelMap) : Bool :=
  match when with
  | none => true
  | some condition =>
    match condition.member? (bytes "$in"), labels[labelKey]? with
    | some (.arr (reference :: operands)), some key =>
      refersToKey reference && operands.any (denotesKey key)
    | _, _ => false

/-- The payload of a query for the records of one entry, with no restriction other
than a condition. -/
structure QueriesEntry (payload : Json) (entry : Bytes) : Prop where
  queryType : payload.member? (bytes "query_type") = some (.str (bytes "QUERY"))
  entries : payload.member? (bytes "entries") = some (.strings [entry])
  others : ∀ name, name ∉ [bytes "query_type", bytes "entries", bytes "when"] →
    payload.member? name = none

/-- A response with records of a query, whose body has the payloads one after the
other. -/
structure Page where
  records : List (Int × MetaRecord)
  chunks : List Bytes
  body_eq : chunks.flatten = (records.map fun r => r.2.payload.bytes).flatten

/-- All records in one response. -/
def Page.single (records : List (Int × MetaRecord)) : Page where
  records := records
  chunks := [(records.map fun r => r.2.payload.bytes).flatten]
  body_eq := by simp

/-! ## Reading -/

/-- What `ReadAll` returns for a record of the given size, and the chunks it leaves. -/
def readAll (chunks : List Bytes) (size : Nat) (h : size < 2 ^ 64) : Result Blob × List Bytes :=
  let pieces := (Chunks.read none size chunks).1
  (⟨⟨pieces.flatten, (Chunks.length_read_le none size chunks).trans_lt h⟩, .kOk⟩,
    (Chunks.read none size chunks).2)

namespace ReadAttachments

variable [JsonReader]

/-- The callback for the records of a response, with the chunks that are left of its
body. A record without a key is not read. -/
def readRecords (st : ReadAttachments) (chunks : List Bytes) :
    List (Int × MetaRecord) → ReadAttachments × Bool
  | [] => (st, true)
  | (_, record) :: records =>
    let (result, left) := readAll chunks record.payload.size record.payload_lt
    let (st, more) := st.callback record.labels result
    if more then
      st.readRecords (if record.labels.contains labelKey then left else chunks) records
    else (st, false)

/-- The callback for the records of all responses. -/
def readPages (st : ReadAttachments) : List Page → ReadAttachments
  | [] => st
  | page :: pages =>
    let (st, more) := st.readRecords page.chunks page.records
    if more then st.readPages pages else st

end ReadAttachments

end Reduct
