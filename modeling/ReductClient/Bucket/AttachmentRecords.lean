-- SUMMARY: The parts of the attachment methods: the queries and conditions they send, the records their batches write or mark, and a single record read off a body.
import Mathlib.Data.Int.Interval
import ReductClient.Base.Tombstones
import ReductClient.Bucket.Handle
import ReductClient.Bucket.MetaRecords
import ReductClient.Internal.LabelDeltas

open Cxx

namespace Reduct

/-! ## The query on the meta entry -/

theorem metaEntry_ne_nil (entryName : Bytes) : metaEntry entryName ≠ [] :=
  List.append_ne_nil_of_right_ne_nil _ (by decide)

theorem isUtf8_metaEntry (entryName : Bytes) : isUtf8 (metaEntry entryName) = isUtf8 entryName := by
  have hascii : (bytes "$meta").all (fun c => decide (c ≤ 0x7F)) = true := by decide
  exact isUtf8_append_ascii entryName (c := 0x2F) (t := bytes "$meta") (by decide) fun c hc =>
    of_decide_eq_true (List.all_eq_true.1 hascii c hc)

/-- The payload of a query with a condition. -/
def metaQuery (entryName : Bytes) (when : Option Json) : Json :=
  JsonKind.ordered.build
    ([(bytes "query_type", .str (bytes "QUERY")), (bytes "entries", .strings [metaEntry entryName])]
      ++ optionalMember (bytes "when") when id)

theorem metaQuery_eq (entryName : Bytes) (when : Option Json) :
    metaQuery entryName when = .obj
      ([(bytes "query_type", .str (bytes "QUERY")),
        (bytes "entries", .strings [metaEntry entryName])] ++
        optionalMember (bytes "when") when id) := by
  cases when <;> rfl

theorem queriesEntry_metaQuery (entryName : Bytes) (when : Option Json) :
    QueriesEntry (metaQuery entryName when) (metaEntry entryName) := by
  rw [metaQuery_eq]
  refine ⟨rfl, rfl, fun name h => ?_⟩
  simp only [List.mem_cons, List.not_mem_nil, or_false, not_or] at h
  cases when <;> simp [Json.member?, optionalMember, Ne.symm h.1, Ne.symm h.2.1, Ne.symm h.2.2]

theorem member?_metaQuery (entryName : Bytes) (when : Option Json) :
    (metaQuery entryName when).member? (bytes "when") = when := by
  rw [metaQuery_eq]
  cases when <;> rfl

theorem isUtf8_metaQuery (entryName : Bytes) (when : Option Json) :
    (metaQuery entryName when).isUtf8 = (isUtf8 entryName && when.all Json.isUtf8) := by
  have hnames : isUtf8 (bytes "query_type") = true ∧ isUtf8 (bytes "QUERY") = true ∧
      isUtf8 (bytes "entries") = true ∧ isUtf8 (bytes "when") = true := by decide
  rw [metaQuery_eq, Json.isUtf8, Json.membersUtf8_eq_all]
  cases when with
  | none =>
    simp [optionalMember, hnames, Json.isUtf8_strings, isUtf8_metaEntry, Json.isUtf8]
  | some condition =>
    simp [optionalMember, hnames, Json.isUtf8_strings, isUtf8_metaEntry, Json.isUtf8]

/-! ## The condition of a removal -/

theorem readOperand_escapeKey (key : Bytes) : readOperand (escapeKey key) = key := by
  rw [escapeKey]
  cases key with
  | nil => rfl
  | cons c key =>
    rw [List.head?_cons]
    by_cases hc : c = 0x24
    · rw [hc, if_pos rfl]
      rfl
    · rw [if_neg (by simpa using hc), readOperand]
      rintro rest h
      exact hc (List.cons.inj h).1

theorem isUtf8_escapeKey (key : Bytes) : isUtf8 (escapeKey key) = isUtf8 key := by
  rw [escapeKey]
  split
  · exact isUtf8_cons_ascii (by decide) key
  · rfl

/-- The operands of the condition. -/
theorem attachmentsCondition_eq (keys : KeySet) :
    attachmentsCondition keys = .obj [(bytes "$in",
      .arr (keyReference :: (keys.toList.map escapeKey).map .str))] := rfl

theorem rebuildItems_str (kind : JsonKind) (operands : List Bytes) :
    Json.rebuildItems kind (operands.map .str) = operands.map .str := by
  induction operands with
  | nil => rfl
  | cons operand operands ih => exact congrArg (Json.str operand :: ·) ih

/-- `QueryOptionsToJsonString` keeps the condition as it is. -/
theorem rebuild_attachmentsCondition (keys : KeySet) :
    (attachmentsCondition keys).rebuild .ordered = attachmentsCondition keys := by
  have hitems : Json.rebuildItems .ordered
      (keyReference :: (keys.toList.map escapeKey).map Json.str) =
        keyReference :: (keys.toList.map escapeKey).map Json.str :=
    congrArg (keyReference :: ·) (rebuildItems_str .ordered _)
  rw [attachmentsCondition_eq]
  exact congrArg (fun items => Json.obj [(bytes "$in", .arr items)]) hitems

theorem isUtf8_attachmentsCondition (keys : KeySet) :
    (attachmentsCondition keys).isUtf8 = keys.toList.all isUtf8 := by
  have hin : isUtf8 (bytes "$in") = true := by decide
  have hreference : keyReference.isUtf8 = true := by decide
  have hoperands : Json.itemsUtf8 ((keys.toList.map escapeKey).map .str) = keys.toList.all isUtf8 := by
    rw [Json.itemsUtf8_eq_all, List.all_map, List.all_map]
    exact congrArg keys.toList.all (funext fun key => (Json.isUtf8.eq_1 _).trans (isUtf8_escapeKey key))
  rw [attachmentsCondition_eq, Json.isUtf8, Json.membersUtf8_eq_all, List.all_cons, hin, Json.isUtf8,
    Json.itemsUtf8, hreference, hoperands]
  simp

/-- The condition selects the records of the keys. -/
theorem meetsCondition_attachmentsCondition (keys : KeySet) {labels : LabelMap} {key : Bytes}
    (h : labels[labelKey]? = some key) :
    meetsCondition (some (attachmentsCondition keys)) labels = decide (key ∈ keys) := by
  have hreference : refersToKey keyReference = true := by decide
  have hoperand : ∀ key' : Bytes, denotesKey key (.str (escapeKey key')) = decide (key' = key) := by
    intro key'
    rw [denotesKey, readOperand_escapeKey]
  have hoperands : ((keys.toList.map escapeKey).map Json.str).any (denotesKey key) =
      decide (key ∈ keys) := by
    rw [List.any_map, List.any_map, Bool.eq_iff_iff, List.any_eq_true, decide_eq_true_eq,
      ← Std.ExtTreeSet.mem_toList]
    simp [hoperand]
  have hin : (attachmentsCondition keys).member? (bytes "$in") =
      some (.arr (keyReference :: (keys.toList.map escapeKey).map .str)) := rfl
  simp only [meetsCondition, hin, h, hreference, hoperands, Bool.true_and]

/-- The keys that a removal is for: all if none are listed. -/
def selectsKey (keys : KeySet) (key : Bytes) : Bool := keys.isEmpty || decide (key ∈ keys)

/-- The condition of a removal, if it has one. -/
def removalCondition (keys : KeySet) : Option Json :=
  if keys.isEmpty then none else some (attachmentsCondition keys)

theorem rebuild_removalCondition (keys : KeySet) :
    ∀ condition ∈ removalCondition keys, condition.rebuild .ordered = condition := by
  intro condition h
  rw [removalCondition] at h
  split at h
  · cases h
  · cases h
    exact rebuild_attachmentsCondition keys

theorem isUtf8_removalCondition (keys : KeySet) :
    (removalCondition keys).all Json.isUtf8 = keys.toList.all isUtf8 := by
  rw [removalCondition]
  cases hempty : keys.isEmpty with
  | true =>
    have hkeys : keys.toList = [] := by
      rw [← List.isEmpty_iff, Std.ExtTreeSet.isEmpty_toList, hempty]
    rw [if_pos rfl, hkeys]
    rfl
  | false => exact isUtf8_attachmentsCondition keys

/-- It selects the records of the keys. -/
theorem meetsCondition_removalCondition (keys : KeySet) {labels : LabelMap} {key : Bytes}
    (h : labels[labelKey]? = some key) :
    meetsCondition (removalCondition keys) labels = selectsKey keys key := by
  rw [removalCondition, selectsKey]
  cases keys.isEmpty with
  | true => rfl
  | false => exact meetsCondition_attachmentsCondition keys h

/-! ## What a query gives -/

/-- The condition as the options of a query carry it. -/
def conditionOptions (when : Option Json) : QueryOptions := { when := when.map .of }

theorem queryOptionsToJsonString_eq (entryName : Bytes) {when : Option Json}
    (h : ∀ condition ∈ when, condition.rebuild .ordered = condition) :
    queryOptionsToJsonString (bytes "QUERY") [metaEntry entryName] none none
      (conditionOptions when) = .ok (metaQuery entryName when) := by
  cases when with
  | none => rfl
  | some condition =>
    have hparse : parseOption (conditionOptions (some condition)).when = .ok (some condition) :=
      congrArg (fun c => Except.ok (some c)) (h condition rfl)
    rw [queryOptionsToJsonString, hparse]
    rfl

theorem removalOptions_eq (keys : KeySet) :
    Bucket.removalOptions keys =
      if keys.toList.all isUtf8 then .ok (conditionOptions (removalCondition keys))
      else .error .dump := by
  rw [← isUtf8_removalCondition, Bucket.removalOptions, removalCondition]
  cases keys.isEmpty with
  | true => rfl
  | false =>
    rw [if_neg Bool.false_ne_true, if_neg Bool.false_ne_true, Json.dump, Option.all_some]
    cases (attachmentsCondition keys).isUtf8 <;> rfl

/-! ## The batch of a write -/

/-- A count of microseconds from the epoch on that the clock's own time points reach. -/
def InRange (us : Int) : Prop := 0 ≤ us ∧ us * 1000 < 2 ^ 63

/-- There are not more of them than a batch can have records. -/
theorem length_lt_of_inRange {timestamps : List Int} (hnodup : timestamps.Nodup)
    (h : ∀ us ∈ timestamps, InRange us) : timestamps.length < 2 ^ 64 := by
  have hsubset : timestamps.toFinset ⊆ Finset.Ico 0 (2 ^ 62) := by
    intro us hus
    obtain ⟨hlower, hupper⟩ := h us (List.mem_toFinset.1 hus)
    rw [Finset.mem_Ico]
    omega
  have hcard := Finset.card_le_card hsubset
  rw [List.toFinset_card_of_nodup hnodup, Int.card_Ico] at hcard
  exact lt_of_le_of_lt hcard (by decide)

theorem timeOfMicroseconds_ns {us : Int} (h : InRange us) :
    (timeOfMicroseconds us).ns = us * 1000 := by
  obtain ⟨hlower, hupper⟩ := h
  exact Time.wrap_ns (by omega) hupper

theorem afterEpoch_timeOfMicroseconds {us : Int} (h : InRange us) :
    (timeOfMicroseconds us).AfterEpoch := by
  have hlower := h.1
  rw [Time.AfterEpoch, timeOfMicroseconds_ns h]
  omega

theorem toMicroseconds_timeOfMicroseconds {us : Int} (h : InRange us) :
    toMicroseconds (timeOfMicroseconds us) = us := by
  rw [toMicroseconds, timeOfMicroseconds_ns h, Int.mul_tdiv_cancel us (by decide)]

/-- The JSON library reads the payload as a value. -/
def IsJson [JsonReader] (payload : Blob) : Prop := ∃ value, JsonReader.read payload.bytes = .of value

theorem parse_of_isJson [JsonReader] {payload : Blob} (h : IsJson payload) (kind : JsonKind) :
    ∃ value, (JsonReader.read payload.bytes).parse kind = .ok value := by
  obtain ⟨value, hvalue⟩ := h
  exact ⟨value.rebuild kind, by rw [hvalue]; rfl⟩

theorem parse_of_not_isJson [JsonReader] {payload : Blob} (h : ¬ IsJson payload) (kind : JsonKind) :
    ∃ what, (JsonReader.read payload.bytes).parse kind = .error what := by
  cases hread : JsonReader.read payload.bytes with
  | of value => exact absurd ⟨value, hread⟩ h
  | malformed what => exact ⟨what, rfl⟩

/-- The binding that a record stands for, or the tombstone. -/
def MetaRecord.entry (r : MetaRecord) : Tombstones.Entry Bytes Blob :=
  ⟨(r.labels[labelKey]?).getD [], r.payload, r.labels[labelRemove]? = some (bytes "true")⟩

/-- The records that a write stores, from the given timestamp on. -/
def attachmentRecords (us : Int) : List (Bytes × Blob) → List (Int × MetaRecord)
  | [] => []
  | (key, payload) :: attachments =>
    (us, ⟨(∅ : LabelMap).insert labelKey key, payload⟩) :: attachmentRecords (us + 1) attachments

/-- A record of the attachment methods in a batch of the type: a write has JSON, and an
update neither data nor a content type. -/
structure Record.AttachedTo (entry : Bytes) (type : BatchType) (r : Record) : Prop where
  entry_eq : r.entry = entry
  epoch : r.timestamp.AfterEpoch
  contentType : r.contentType = if type = .kWrite then bytes "application/json" else []
  dataIndex : type ≠ .kWrite → r.dataIndex = none

section

variable [JsonReader] {entry : Bytes}

/-- A loop that has been left with an error stays there. -/
theorem foldlM_addAttachment_error (err : Error) (attachments : List (Bytes × Blob)) :
    attachments.foldlM (addAttachment entry) (.error err) = .ok (.error err) := by
  induction attachments with
  | nil => rfl
  | cons attachment attachments ih => exact ih

/-- A step of the loop on a payload that is JSON. -/
theorem addAttachment_ok {key : Bytes} {payload : Blob} (hjson : IsJson payload) {b : Batch}
    (hroom : b.records.length + 1 < 2 ^ 64) (us : Int) :
    ∃ b', addAttachment entry (.ok ⟨b, us⟩) (key, payload) = .ok (.ok ⟨b', us + 1⟩) ∧
      b'.records.length = b.records.length + 1 ∧
      (InRange us → ∀ r ∈ b'.records, r ∈ b.records ∨ r.AttachedTo entry .kWrite) ∧
      b'.recordsOf entry = b.recordsOf entry ++
        [(toMicroseconds (timeOfMicroseconds us),
          ⟨(∅ : LabelMap).insert labelKey key, payload⟩)] := by
  obtain ⟨value, hparse⟩ := parse_of_isJson hjson .sorted
  obtain ⟨b', hadd, hrecords, hstored⟩ := Batch.addRecord_ok hroom entry (timeOfMicroseconds us)
    payload (bytes "application/json") ((∅ : LabelMap).insert labelKey key)
  refine ⟨b', ?_, ?_, fun hus r hr => ?_, hstored⟩
  · simp only [addAttachment, hparse, hadd]
    rfl
  · rw [hrecords, List.length_append, List.length_singleton]
  · rw [hrecords, List.mem_append, List.mem_singleton] at hr
    refine hr.imp_right ?_
    rintro rfl
    exact ⟨rfl, afterEpoch_timeOfMicroseconds hus, rfl, fun h => absurd rfl h⟩

theorem foldlM_addAttachment {attachments : List (Bytes × Blob)}
    (hjson : ∀ a ∈ attachments, IsJson a.2) {b : Batch} {us : Int}
    (hroom : b.records.length + attachments.length < 2 ^ 64)
    (hlower : 0 ≤ us) (hupper : (us + attachments.length - 1) * 1000 < 2 ^ 63) :
    ∃ b' us', attachments.foldlM (addAttachment entry) (.ok ⟨b, us⟩) = .ok (.ok ⟨b', us'⟩) ∧
      b'.records.length = b.records.length + attachments.length ∧
      (∀ r ∈ b'.records, r ∈ b.records ∨ r.AttachedTo entry .kWrite) ∧
      b'.recordsOf entry = b.recordsOf entry ++ attachmentRecords us attachments := by
  induction attachments generalizing b us with
  | nil => exact ⟨b, us, rfl, rfl, fun r hr => .inl hr, (List.append_nil _).symm⟩
  | cons attachment attachments ih =>
    rw [List.length_cons] at hroom hupper
    push_cast at hupper
    have hus : InRange us := ⟨hlower, by omega⟩
    obtain ⟨b₁, hstep, hlength, hentries, hstored⟩ := @addAttachment_ok _ entry attachment.1 _
      (hjson attachment List.mem_cons_self) b (by omega) us
    obtain ⟨b', us', hrest, hlength', hentries', hstored'⟩ := @ih
      (fun a ha => hjson a (List.mem_cons_of_mem _ ha)) b₁ (us + 1) (by omega) (by omega) (by omega)
    refine ⟨b', us', ?_, ?_, fun r hr => ?_, ?_⟩
    · rw [List.foldlM_cons, hstep]
      exact hrest
    · rw [hlength', hlength, List.length_cons]
      omega
    · exact (hentries' r hr).elim (hentries hus r) .inr
    · rw [hstored', hstored, toMicroseconds_timeOfMicroseconds hus, List.append_assoc]
      rfl

/-- A payload that is not JSON leaves the loop. -/
theorem foldlM_addAttachment_malformed {attachments : List (Bytes × Blob)}
    (hjson : ∃ a ∈ attachments, ¬ IsJson a.2) {b : Batch} {us : Int}
    (hroom : b.records.length + attachments.length < 2 ^ 64) :
    ∃ err, attachments.foldlM (addAttachment entry) (.ok ⟨b, us⟩) = .ok (.error err) ∧
      err.isError = true := by
  induction attachments generalizing b us with
  | nil => simp at hjson
  | cons attachment attachments ih =>
    rw [List.length_cons] at hroom
    by_cases hpayload : IsJson attachment.2
    · obtain ⟨b₁, hstep, hlength, -⟩ := @addAttachment_ok _ entry attachment.1 _ hpayload b
        (by omega) us
      have hrest : ∃ a ∈ attachments, ¬ IsJson a.2 := by
        obtain ⟨a, ha, hmalformed⟩ := hjson
        rcases List.mem_cons.1 ha with rfl | ha
        · exact absurd hpayload hmalformed
        · exact ⟨a, ha, hmalformed⟩
      rw [List.foldlM_cons, hstep]
      exact ih hrest (by omega)
    · obtain ⟨what, hparse⟩ := parse_of_not_isJson hpayload .sorted
      have hstep : addAttachment entry (.ok ⟨b, us⟩) attachment =
          .ok (.error (exceptionError what)) := by
        simp only [addAttachment, hparse]
        rfl
      rw [List.foldlM_cons, hstep]
      exact ⟨_, foldlM_addAttachment_error _ attachments, rfl⟩

variable {entryName : Bytes} {attachments : AttachmentMap} {now : Time}

/-- The batch of a write whose payloads are all JSON. -/
theorem attachmentBatch_json (hjson : ∀ a ∈ attachments.toList, IsJson a.2)
    (hlower : 0 ≤ toMicroseconds now)
    (hupper : (toMicroseconds now + attachments.size - 1) * 1000 < 2 ^ 63) :
    ∃ batch, attachmentBatch entryName attachments now = .ok (.ok batch) ∧
      batch.records.length = attachments.size ∧
      (∀ r ∈ batch.records, r.AttachedTo (metaEntry entryName) .kWrite) ∧
      batch.recordsOf (metaEntry entryName) =
        attachmentRecords (toMicroseconds now) attachments.toList := by
  have hbounds := toMicroseconds_bounds now
  have hsize : attachments.toList.length = attachments.size := Std.ExtTreeMap.length_toList
  obtain ⟨batch, us, hloop, hlength, hentries, hrecords⟩ :=
    @foldlM_addAttachment _ (metaEntry entryName) attachments.toList hjson .empty
      (toMicroseconds now) (by rw [hsize, Batch.empty, List.length_nil]; omega) hlower
      (by rw [hsize]; exact hupper)
  refine ⟨batch, ?_, ?_, fun r hr => (hentries r hr).resolve_left List.not_mem_nil, hrecords⟩
  · rw [attachmentBatch, hloop]
    rfl
  · rw [hlength, hsize, Batch.empty, List.length_nil, Nat.zero_add]

theorem attachmentBatch_malformed (hjson : ∃ a ∈ attachments.toList, ¬ IsJson a.2)
    (hupper : (toMicroseconds now + attachments.size - 1) * 1000 < 2 ^ 63) :
    ∃ err, attachmentBatch entryName attachments now = .ok (.error err) ∧ err.isError = true := by
  have hbounds := toMicroseconds_bounds now
  have hsize : attachments.toList.length = attachments.size := Std.ExtTreeMap.length_toList
  obtain ⟨err, hloop, herr⟩ :=
    @foldlM_addAttachment_malformed _ (metaEntry entryName) attachments.toList hjson .empty
      (toMicroseconds now) (by rw [hsize, Batch.empty, List.length_nil]; omega)
  refine ⟨err, ?_, herr⟩
  rw [attachmentBatch, hloop]
  rfl

end

/-- The records of a write have the timestamps from its first one on. -/
theorem mem_attachmentRecords {us : Int} {attachments : List (Bytes × Blob)} {r : Int × MetaRecord}
    (h : r ∈ attachmentRecords us attachments) :
    us ≤ r.1 ∧ r.1 ≤ us + attachments.length - 1 ∧ ∃ a ∈ attachments,
      r.2 = ⟨(∅ : LabelMap).insert labelKey a.1, a.2⟩ := by
  induction attachments generalizing us with
  | nil => cases h
  | cons a attachments ih =>
    rw [List.length_cons]
    push_cast
    rcases List.mem_cons.1 h with rfl | h
    · exact ⟨le_refl us, by dsimp only; omega, a, List.mem_cons_self, rfl⟩
    · obtain ⟨hlow, hhigh, a', ha', hr⟩ := ih h
      exact ⟨by omega, by omega, a', List.mem_cons_of_mem a ha', hr⟩

/-- They bind the keys to the payloads. -/
theorem entry_attachmentRecord (key : Bytes) (payload : Blob) :
    (⟨(∅ : LabelMap).insert labelKey key, payload⟩ : MetaRecord).entry = ⟨key, payload, false⟩ := by
  have hne : labelKey ≠ labelRemove := by decide
  simp [MetaRecord.entry, hne]

theorem entries_attachmentRecords (us : Int) (attachments : List (Bytes × Blob)) :
    (attachmentRecords us attachments).map (fun r => r.2.entry) =
      attachments.map fun a => ⟨a.1, a.2, false⟩ := by
  induction attachments generalizing us with
  | nil => rfl
  | cons a attachments ih =>
    rw [attachmentRecords, List.map_cons, List.map_cons, ih, entry_attachmentRecord]

theorem pairwise_attachmentRecords (us : Int) (attachments : List (Bytes × Blob)) :
    (attachmentRecords us attachments).Pairwise fun a b => compare a.1 b.1 = .lt := by
  induction attachments generalizing us with
  | nil => exact .nil
  | cons a attachments ih =>
    refine .cons (fun r hr => ?_) (ih (us + 1))
    have hlow := (mem_attachmentRecords hr).1
    exact compare_lt_iff_lt.2 (by omega)

/-! ## Reading -/

/-- The labels that a record is kept with. -/
def attachmentLabels (e : Tombstones.Entry Bytes Blob) : LabelMap :=
  let labels := (∅ : LabelMap).insert labelKey e.key
  if e.removed then labels.insert labelRemove (bytes "true") else labels

/-- A record that the attachment methods have written. -/
structure Attached [JsonReader] (r : Int × MetaRecord) : Prop where
  labels : r.2.labels = attachmentLabels r.2.entry
  json : IsJson r.2.payload
  range : InRange r.1

/-- They are the key and, on a tombstone, the mark. -/
theorem mem_attachmentLabels {e : Tombstones.Entry Bytes Blob} {label : Bytes × Bytes}
    (h : label ∈ (attachmentLabels e).toList) :
    label = (labelKey, e.key) ∨ label = (labelRemove, bytes "true") := by
  have hkey : ∀ labels : LabelMap, ∀ name value, label ∈ (labels.insert name value).toList →
      label = (name, value) ∨ label ∈ labels.toList := by
    intro labels name value hlabel
    rw [Std.ExtTreeMap.mem_toList_iff_getElem?_eq_some, Std.ExtTreeMap.getElem?_insert] at hlabel
    split at hlabel
    · rename_i heq
      exact .inl (Prod.ext (Std.compare_eq_iff_eq.1 heq).symm (Option.some.inj hlabel).symm)
    · exact .inr (Std.ExtTreeMap.mem_toList_iff_getElem?_eq_some.2 hlabel)
  have hnone : label ∉ (∅ : LabelMap).toList := by
    rw [Std.ExtTreeMap.mem_toList_iff_getElem?_eq_some]
    simp
  unfold attachmentLabels at h
  split at h
  · rcases hkey _ _ _ h with h | h
    · exact .inr h
    · exact .inl ((hkey _ _ _ h).resolve_right hnone)
  · exact .inl ((hkey _ _ _ h).resolve_right hnone)

/-- Their names do not depend on the key. -/
theorem names_attachmentLabels {e e' : Tombstones.Entry Bytes Blob} (h : e.removed = e'.removed)
    {name : Bytes} (hname : name ∈ attachmentLabels e) : name ∈ attachmentLabels e' := by
  rw [attachmentLabels] at hname ⊢
  rw [h] at hname
  cases hremoved : e'.removed with
  | true => simpa [hremoved] using hname
  | false => simpa [hremoved] using hname

theorem getElem?_attachmentLabels (e : Tombstones.Entry Bytes Blob) :
    (attachmentLabels e)[labelKey]? = some e.key := by
  have hne : labelRemove ≠ labelKey := by decide
  unfold attachmentLabels
  split
  · rw [Std.ExtTreeMap.getElem?_insert, if_neg (mt Std.compare_eq_iff_eq.1 hne),
      Std.ExtTreeMap.getElem?_insert_self]
  · exact Std.ExtTreeMap.getElem?_insert_self

theorem Attached.key [JsonReader] {r : Int × MetaRecord} (h : Attached r) :
    r.2.labels[labelKey]? = some r.2.entry.key := by
  rw [h.labels, getElem?_attachmentLabels]

/-- A record is read where its payload comes next. -/
theorem readAll_eq {chunks : List Bytes} {payload : Blob} {rest : Bytes}
    (h : chunks.flatten = payload.bytes ++ rest) :
    (readAll chunks payload.size payload.size_lt).1 = ⟨payload, .kOk⟩ ∧
      (readAll chunks payload.size payload.size_lt).2.flatten = rest := by
  have havailable : payload.size ≤ chunks.flatten.length := by
    rw [h, List.length_append, Blob.size]
    omega
  obtain ⟨hread, hleft⟩ := Chunks.read_none_flatten havailable
  have hbytes : (Chunks.read none payload.size chunks).1.flatten = payload.bytes := by
    rw [hread, h, Blob.size, List.take_left]
  constructor
  · simp only [readAll, hbytes]
  · change (Chunks.read none payload.size chunks).2.flatten = rest
    rw [hleft, h, Blob.size, List.drop_left]

/-! ## Marking -/

/-- What the batch of a removal has for a record. -/
def markedRecord (r : MetaRecord) : MetaRecord :=
  ⟨r.labels.insert labelRemove (bytes "true"), ⟨[], Blob.nil_lt⟩⟩

/-- A record after the removal of the given keys. -/
def MetaRecord.afterRemoval (keys : KeySet) (r : MetaRecord) : MetaRecord :=
  if selectsKey keys r.entry.key then updateRecord (markedRecord r) r else r

theorem labels_markedRecord [JsonReader] {r : Int × MetaRecord} (h : Attached r) :
    (markedRecord r.2).labels = attachmentLabels { r.2.entry with removed := true } := by
  rw [markedRecord, h.labels, attachmentLabels, attachmentLabels, if_pos rfl]
  split
  · apply Std.ExtTreeMap.ext_getElem?
    intro name
    simp only [Std.ExtTreeMap.getElem?_insert]
    split <;> rfl
  · rfl

/-- The binding of a record becomes a tombstone. -/
theorem attached_updateRecord [JsonReader] {r : Int × MetaRecord} (h : Attached r) :
    Attached (r.1, updateRecord (markedRecord r.2) r.2) ∧
      (updateRecord (markedRecord r.2) r.2).entry = { r.2.entry with removed := true } := by
  have hne : labelRemove ≠ labelKey := by decide
  have hlabels : (updateRecord (markedRecord r.2) r.2).labels =
      attachmentLabels { r.2.entry with removed := true } := by
    rw [← labels_markedRecord h]
    exact (union_eq_right_iff _ _).2 fun name hname => Std.ExtTreeMap.mem_insert.2 (.inr hname)
  have hentry : (updateRecord (markedRecord r.2) r.2).entry =
      { r.2.entry with removed := true } := by
    rw [MetaRecord.entry, hlabels, getElem?_attachmentLabels, attachmentLabels, if_pos rfl]
    simp [updateRecord, MetaRecord.entry]
  exact ⟨⟨hlabels.trans (congrArg attachmentLabels hentry.symm), h.json, h.range⟩, hentry⟩

/-- After a removal, it is marked if its key is among those removed. -/
theorem attached_afterRemoval [JsonReader] (keys : KeySet) {r : Int × MetaRecord}
    (h : Attached r) :
    Attached (r.1, r.2.afterRemoval keys) ∧ (r.2.afterRemoval keys).entry =
      { r.2.entry with removed := r.2.entry.removed || selectsKey keys r.2.entry.key } := by
  rw [MetaRecord.afterRemoval]
  cases selectsKey keys r.2.entry.key with
  | true =>
    rw [if_pos rfl, Bool.or_true]
    exact attached_updateRecord h
  | false =>
    rw [if_neg Bool.false_ne_true, Bool.or_false]
    exact ⟨h, rfl⟩

/-- A record of a page, as its response decodes it. -/
def Describes (record : ReadableRecord) (q : Int × MetaRecord) : Prop :=
  toMicroseconds record.timestamp = q.1 ∧ record.labels = q.2.labels ∧
    record.size = q.2.payload.size

/-- The callback of a removal marks the records that are decoded. -/
theorem foldlM_markRemoved {entry : Bytes} {decoded : List ReadableRecord}
    {records : List (Int × MetaRecord)} (h : List.Forall₂ Describes decoded records)
    (hentry : ∀ r ∈ decoded, r.entry = entry ∧ r.timestamp.AfterEpoch) {b : Batch}
    (hroom : b.records.length + records.length < 2 ^ 64) :
    ∃ b', decoded.foldlM (fun batch r => markRemoved batch r.entry r.timestamp r.labels) b =
        .ok b' ∧
      b'.records.length = b.records.length + records.length ∧
      (∀ r ∈ b'.records, r ∈ b.records ∨ r.AttachedTo entry .kUpdate) ∧
      b'.recordsOf entry = b.recordsOf entry ++ records.map fun r => (r.1, markedRecord r.2) := by
  induction h generalizing b with
  | nil => exact ⟨b, rfl, rfl, fun r hr => .inl hr, (List.append_nil _).symm⟩
  | @cons r q decoded records hdescribes _ ih =>
    rw [List.length_cons] at hroom
    obtain ⟨⟨hname, hepoch⟩, hrest⟩ := List.forall_mem_cons.1 hentry
    obtain ⟨b₁, hadd, hrecords, hstored⟩ := @Batch.addOnlyLabels_ok b (by omega) entry
      r.timestamp (r.labels.insert labelRemove (bytes "true"))
    have hlength : b₁.records.length = b.records.length + 1 := by
      rw [hrecords, List.length_append, List.length_singleton]
    obtain ⟨b', hrun, hlength', hentries', hstored'⟩ := @ih hrest b₁ (by omega)
    refine ⟨b', ?_, ?_, fun p hp => ?_, ?_⟩
    · rw [List.foldlM_cons, hname]
      change (b.addOnlyLabels _ _ _ >>= _) = _
      rw [hadd]
      exact hrun
    · rw [hlength', hlength, List.length_cons]
      omega
    · refine (hentries' p hp).elim (fun hp => ?_) .inr
      rw [hrecords, List.mem_append, List.mem_singleton] at hp
      refine hp.imp_right ?_
      rintro rfl
      exact ⟨rfl, hepoch, rfl, fun _ => rfl⟩
    · rw [hstored', hstored, hdescribes.1, hdescribes.2.1, List.append_assoc]
      rfl

end Reduct
