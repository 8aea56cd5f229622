-- SUMMARY: Attachments as a map: what the attachment methods do to the records of a server, and when every sequence of calls behaves as the operations of a map.
import ReductClient.Bucket.MetaServer

open Cxx

namespace Reduct

/-! ## Keys -/

/-- A key that a header can carry: `FormatLabels` writes it so that it is read back. -/
def LegibleKey (key : Bytes) : Prop := LegibleValue key ∧ FieldText key

instance (key : Bytes) : Decidable (LegibleKey key) :=
  inferInstanceAs (Decidable (LegibleValue key ∧ FieldText key))

theorem legible_attachmentLabels {e : Tombstones.Entry Bytes Blob} (h : LegibleKey e.key) :
    LegibleLabels (attachmentLabels e) ∧ FieldLabels (attachmentLabels e) := by
  have hkey : IsWord labelKey := by decide
  have hremove : IsWord labelRemove := by decide
  constructor
  · intro label hlabel
    rcases mem_attachmentLabels hlabel with rfl | rfl
    · exact ⟨writtenKey_word hkey, h.1⟩
    · exact ⟨writtenKey_word hremove, by decide⟩
  · intro label hlabel
    rcases mem_attachmentLabels hlabel with rfl | rfl
    · exact ⟨(by decide : FieldText labelKey), h.2⟩
    · exact ⟨(by decide : FieldText labelRemove), by decide⟩

theorem listable_metaEntry {entryName : Bytes} (h : percent ∉ entryName) :
    Listable (metaEntry entryName) := by
  have hmeta : percent ∉ bytes "/$meta" := by decide
  exact ⟨metaEntry_ne_nil entryName, by simp [metaEntry, h, hmeta]⟩

/-! ## The calls on the records of the server -/

namespace MetaServer

variable [StdSort] (server : MetaServer)

/-- The attachment records of an entry in the order of their timestamps. -/
def stored (s : server.State) (entryName : Bytes) : List (Int × MetaRecord) :=
  (server.records s (metaEntry entryName)).toList

/-- The records are those of attachments, with keys and payloads that can be told. -/
structure Holds [JsonReader] (s : server.State) (entryName : Bytes) : Prop where
  attached : ∀ r ∈ server.stored s entryName, Attached r
  keys : ∀ r ∈ server.stored s entryName, LegibleKey r.2.entry.key
  payloads : ∀ r ∈ server.stored s entryName, 0 < r.2.payload.size

variable {server} {s : server.State} {entryName : Bytes}

theorem Holds.answerable [JsonReader] (h : server.Holds s entryName) :
    ∀ r ∈ server.stored s entryName, Answerable r := by
  intro r hr
  have hlabels := (h.attached r hr).labels
  obtain ⟨hlegible, hfield⟩ := legible_attachmentLabels (h.keys r hr)
  exact ⟨(h.attached r hr).range, hlabels ▸ hlegible, hlabels ▸ hfield, h.payloads r hr⟩

theorem queryV2_eq (s : server.State) (entryName : Bytes) {when : Option Json}
    (h : ∀ condition ∈ when, condition.rebuild .ordered = condition) :
    server.queryV2 s entryName (conditionOptions when) =
      if isUtf8 entryName && when.all Json.isUtf8 then
        .ok (.ok (server.respond s (.of (metaQuery entryName when))))
      else .error .dump := by
  rw [queryV2, queryOptionsToJsonString_eq entryName h]
  dsimp only
  rw [Json.dump, isUtf8_metaQuery]
  cases isUtf8 entryName && when.all Json.isUtf8 <;> rfl

/-- The responses have the records that meet the condition. -/
theorem Holds.answers [JsonReader] (h : server.Holds s entryName) (hpercent : percent ∉ entryName)
    (when : Option Json) :
    let query := server.respond s (.of (metaQuery entryName when))
    query.pages.flatMap Page.records =
        (server.stored s entryName).filter (fun r => meetsCondition when r.2.labels) ∧
      ∀ r ∈ query.decoded, r.entry = metaEntry entryName ∧ r.timestamp.AfterEpoch := by
  obtain ⟨hrecords, hdecoded⟩ := server.respond_eq s _ _ (queriesEntry_metaQuery entryName when)
    (listable_metaEntry hpercent) h.answerable
  rw [member?_metaQuery] at hrecords
  exact ⟨hrecords, hdecoded⟩

/-- Reading gives the map that the records stand for. -/
theorem Holds.readAttachments_eq [JsonReader] (h : server.Holds s entryName)
    (hutf8 : isUtf8 entryName = true) (hpercent : percent ∉ entryName) :
    server.readAttachments s entryName =
      .ok ⟨Tombstones.replay ((server.stored s entryName).map fun r => r.2.entry), .kOk⟩ := by
  have hquery := @queryV2_eq _ server s entryName none (by simp)
  rw [hutf8, Option.all_none, Bool.and_self, if_pos rfl] at hquery
  have hrecords : (server.respond s (.of (metaQuery entryName none))).pages.flatMap Page.records =
      server.stored s entryName := (h.answers hpercent none).1.trans (List.filter_true _)
  have hread := ReadAttachments.readPages_attached {} (hrecords ▸ h.attached)
  rw [hrecords] at hread
  have hoptions : conditionOptions none = {} := rfl
  rw [hoptions] at hquery
  rw [readAttachments, hquery, Fallible.ok_bind]
  dsimp only
  rw [ReadAttachments.readResponses_eq, ← MetaQuery.pages, hread]
  rfl

section Write

variable [JsonReader] {attachments : AttachmentMap} {now : Time}

omit [StdSort] in
/-- The batch of a write is conveyed. -/
theorem exists_attachmentBatch (hjson : ∀ a ∈ attachments.toList, IsJson a.2)
    (hkeys : ∀ a ∈ attachments.toList, LegibleKey a.1)
    (htotal : (attachments.toList.map fun a => a.2.size).sum < 2 ^ 64)
    (hlower : 0 ≤ toMicroseconds now)
    (hupper : (toMicroseconds now + attachments.size - 1) * 1000 < 2 ^ 63) :
    ∃ batch, attachmentBatch entryName attachments now = .ok (.ok batch) ∧
      batch.Attachable (metaEntry entryName) .kWrite ∧
      batch.recordsOf (metaEntry entryName) =
        attachmentRecords (toMicroseconds now) attachments.toList := by
  obtain ⟨batch, hbatch, -, hattached, hrecords⟩ :=
    @attachmentBatch_json _ entryName attachments now hjson hlower hupper
  have hlabels : ∀ r ∈ attachmentRecords (toMicroseconds now) attachments.toList,
      ∃ a ∈ attachments.toList, r.2.labels = attachmentLabels ⟨a.1, a.2, false⟩ := by
    intro r hr
    obtain ⟨-, -, a, ha, hrecord⟩ := mem_attachmentRecords hr
    exact ⟨a, ha, congrArg MetaRecord.labels hrecord⟩
  refine ⟨batch, hbatch, Batch.attachable_of_recordsOf hattached hrecords
    (pairwise_attachmentRecords _ _) ?_ ?_ fun _ => ?_, hrecords⟩
  · intro r hr
    obtain ⟨a, ha, heq⟩ := hlabels r hr
    exact heq ▸ legible_attachmentLabels (hkeys a ha)
  · intro r hr r' hr' name hname
    obtain ⟨a, -, heq⟩ := hlabels r hr
    obtain ⟨a', -, heq'⟩ := hlabels r' hr'
    rw [heq] at hname
    rw [heq']
    exact names_attachmentLabels rfl hname
  · have hsizes := congrArg (List.map fun e => e.value.size)
      (entries_attachmentRecords (toMicroseconds now) attachments.toList)
    rw [List.map_map, List.map_map] at hsizes
    exact (congrArg List.sum hsizes).trans_lt htotal

/-- A write of JSON payloads adds its records at the end. -/
theorem writeAttachments_json (hpercent : percent ∉ entryName)
    (hjson : ∀ a ∈ attachments.toList, IsJson a.2)
    (hkeys : ∀ a ∈ attachments.toList, LegibleKey a.1)
    (htotal : (attachments.toList.map fun a => a.2.size).sum < 2 ^ 64)
    (hlower : 0 ≤ toMicroseconds now)
    (hlater : ∀ r ∈ server.stored s entryName, r.1 < toMicroseconds now)
    (hupper : (toMicroseconds now + attachments.size - 1) * 1000 < 2 ^ 63) :
    ∃ s', server.writeAttachments s entryName attachments now = .ok (s', .kOk) ∧
      server.stored s' entryName = server.stored s entryName ++
        attachmentRecords (toMicroseconds now) attachments.toList := by
  rw [writeAttachments]
  cases hempty : attachments.isEmpty with
  | true =>
    have hnil : attachments.toList = [] := by
      rw [← List.isEmpty_iff, Std.ExtTreeMap.isEmpty_toList, hempty]
    exact ⟨s, rfl, by rw [hnil]; exact (List.append_nil _).symm⟩
  | false =>
    obtain ⟨batch, hbatch, hattachable, hrecords⟩ :=
      @exists_attachmentBatch entryName _ attachments now hjson hkeys htotal hlower hupper
    have hlast : ∀ r ∈ server.stored s entryName, ∀ q ∈ batch.recordsOf (metaEntry entryName),
        r.1 < q.1 := by
      intro r hr q hq
      rw [hrecords] at hq
      exact (hlater r hr).trans_le (mem_attachmentRecords hq).1
    have hnew : ∀ q ∈ batch.recordsOf (metaEntry entryName),
        q.1 ∉ server.records s (metaEntry entryName) := by
      intro q hq hmem
      have hr := Std.ExtTreeMap.mem_toList_iff_getElem?_eq_some.2
        (Std.ExtTreeMap.getElem?_eq_some_getElem hmem)
      exact lt_irrefl _ (hlast _ hr q hq)
    obtain ⟨s', hprocess, hs'⟩ := server.processBatch_write s hattachable
      (listable_metaEntry hpercent) hnew
    refine ⟨s', ?_, ?_⟩
    · rw [if_neg Bool.false_ne_true, hbatch, ← hprocess]
      rfl
    · rw [stored, hs', OrderedMap.toList_foldl_insert, hrecords]
      · rfl
      · rw [hrecords]
        exact pairwise_attachmentRecords _ _
      · exact fun r hr q hq => compare_lt_iff_lt.2 (hlast r hr q hq)

/-- A write with a payload that is not JSON changes nothing. -/
theorem writeAttachments_malformed (hjson : ∃ a ∈ attachments.toList, ¬ IsJson a.2)
    (hupper : (toMicroseconds now + attachments.size - 1) * 1000 < 2 ^ 63) :
    ∃ err, server.writeAttachments s entryName attachments now = .ok (s, err) ∧
      err.isError = true := by
  obtain ⟨err, hbatch, herr⟩ := @attachmentBatch_malformed _ entryName attachments now hjson hupper
  have hempty : attachments.isEmpty = false := by
    rw [← Std.ExtTreeMap.isEmpty_toList]
    obtain ⟨a, ha, -⟩ := hjson
    exact List.isEmpty_eq_false_iff_exists_mem.2 ⟨a, ha⟩
  refine ⟨err, ?_, herr⟩
  rw [writeAttachments, hempty, if_neg Bool.false_ne_true, hbatch]
  rfl

end Write

/-- The batch of a removal is conveyed. -/
theorem Holds.exists_removeBatch [JsonReader] (h : server.Holds s entryName)
    (hpercent : percent ∉ entryName) (keys : KeySet) :
    let query := server.respond s (.of (metaQuery entryName (removalCondition keys)))
    ∃ batch, query.decoded.foldlM (fun batch record =>
        markRemoved batch record.entry record.timestamp record.labels) .empty = .ok batch ∧
      batch.Attachable (metaEntry entryName) .kUpdate ∧
      batch.recordsOf (metaEntry entryName) = ((server.stored s entryName).filter fun r =>
        selectsKey keys r.2.entry.key).map fun r => (r.1, markedRecord r.2) := by
  intro query
  obtain ⟨hrecords, hdecoded⟩ := h.answers hpercent (removalCondition keys)
  have hselected : (server.stored s entryName).filter
      (fun r => meetsCondition (removalCondition keys) r.2.labels) =
        (server.stored s entryName).filter fun r => selectsKey keys r.2.entry.key :=
    List.filter_congr fun r hr => meetsCondition_removalCondition keys (h.attached r hr).key
  rw [hselected] at hrecords
  have hdescribes := query.describes_decoded
  rw [hrecords] at hdescribes
  have hmem : ∀ r ∈ (server.stored s entryName).filter (fun r => selectsKey keys r.2.entry.key),
      r ∈ server.stored s entryName := fun r hr => (List.mem_filter.1 hr).1
  have hsorted : (server.stored s entryName).Pairwise fun r r' => compare r.1 r'.1 = .lt :=
    Std.ExtTreeMap.ordered_keys_toList
  have hlength : ((server.stored s entryName).filter
      fun r => selectsKey keys r.2.entry.key).length < 2 ^ 64 := by
    have hnodup : ((server.stored s entryName).map Prod.fst).Nodup := by
      rw [stored, Std.ExtTreeMap.map_fst_toList_eq_keys]
      exact Std.ExtTreeMap.nodup_keys
    have hall := length_lt_of_inRange hnodup
      (List.forall_mem_map.2 fun r hr => (h.attached r hr).range)
    rw [List.length_map] at hall
    exact (List.length_filter_le _ _).trans_lt hall
  obtain ⟨batch, hmarked, -, hattached, hbatch⟩ := @foldlM_markRemoved (metaEntry entryName) _ _
    hdescribes hdecoded .empty (by simpa [Batch.empty] using hlength)
  refine ⟨batch, hmarked, Batch.attachable_of_recordsOf
    (fun r hr => (hattached r hr).resolve_left List.not_mem_nil) hbatch ?_ ?_ ?_
    (fun h => by cases h), hbatch⟩
  · exact List.pairwise_map.2 (hsorted.sublist List.filter_sublist)
  · refine List.forall_mem_map.2 fun r hr => ?_
    dsimp only
    rw [labels_markedRecord (h.attached r (hmem r hr))]
    exact legible_attachmentLabels (h.keys r (hmem r hr))
  · refine List.forall_mem_map.2 fun r hr => List.forall_mem_map.2 fun r' hr' => ?_
    dsimp only
    rw [labels_markedRecord (h.attached r (hmem r hr)),
      labels_markedRecord (h.attached r' (hmem r' hr'))]
    exact fun _ => names_attachmentLabels rfl

/-- A removal of keys that are UTF-8 marks their records. -/
theorem Holds.removeAttachments_eq [JsonReader] (h : server.Holds s entryName)
    (hutf8 : isUtf8 entryName = true) (hpercent : percent ∉ entryName) {keys : KeySet}
    (hkeys : keys.toList.all isUtf8 = true) :
    ∃ s', server.removeAttachments s entryName keys = .ok (s', .kOk) ∧
      server.stored s' entryName =
        (server.stored s entryName).map fun r => (r.1, r.2.afterRemoval keys) := by
  have hquery := @queryV2_eq _ server s entryName _ (rebuild_removalCondition keys)
  rw [hutf8, isUtf8_removalCondition, hkeys, Bool.and_self, if_pos rfl] at hquery
  obtain ⟨batch, hmarked, hattachable, hbatch⟩ := h.exists_removeBatch hpercent keys
  obtain ⟨s', hprocess, hs'⟩ := server.processBatch_update s hattachable
    (listable_metaEntry hpercent)
  refine ⟨s', ?_, ?_⟩
  · rw [removeAttachments, removalOptions_eq, hkeys, if_pos rfl, Fallible.ok_bind, hquery,
      Fallible.ok_bind]
    dsimp only
    rw [hmarked, ← hprocess]
    rfl
  · rw [stored, hs', hbatch]
    exact OrderedMap.toList_modifyAll updateRecord (fun r => markedRecord r.2)
      (fun r => selectsKey keys r.2.entry.key) _

end MetaServer

/-! ## Sequences of calls -/

instance [JsonReader] (payload : Blob) : Decidable (IsJson payload) :=
  match h : JsonReader.read payload.bytes with
  | .of value => isTrue ⟨value, h⟩
  | .malformed _ => isFalse fun ⟨_, hvalue⟩ => nomatch h.symm.trans hvalue

/-- A call that writes or removes attachments. -/
inductive AttachmentCall where
  | write (attachments : AttachmentMap) (now : Time)
  | remove (keys : KeySet)

namespace AttachmentCall

variable [JsonReader]

/-- All payloads are JSON. -/
def Valid : AttachmentCall → Prop
  | write attachments _ => ∀ a ∈ attachments.toList, IsJson a.2
  | remove _ => True

instance : (call : AttachmentCall) → Decidable call.Valid
  | write attachments _ => inferInstanceAs (Decidable (∀ a ∈ attachments.toList, IsJson a.2))
  | remove _ => inferInstanceAs (Decidable True)

/-- The operation on a map. A later binding of a key wins, and a removal without
keys removes all. -/
def apply (call : AttachmentCall) (map : AttachmentMap) : AttachmentMap :=
  match call with
  | write attachments _ => map ∪ attachments
  | remove keys => map.filter fun key _ => !selectsKey keys key

/-- The call can be made: the keys of a write can be told in headers, its payloads are
shorter than `2 ^ 64` bytes altogether, and the keys of a removal are UTF-8. -/
def Safe : AttachmentCall → Prop
  | write attachments _ => (∀ a ∈ attachments.toList, LegibleKey a.1) ∧
      (attachments.toList.map fun a => a.2.size).sum < 2 ^ 64
  | remove keys => ∀ key ∈ keys, isUtf8 key = true

end AttachmentCall

namespace MetaServer

section

variable [StdSort] [JsonReader] (server : MetaServer) (entryName : Bytes)

/-- `ReadAttachments` returns the map, as a call of the server and in every interleaving of the
threads of its query, which can always return. -/
structure Reads (s : server.State) (map : AttachmentMap) : Prop where
  call : server.readAttachments s entryName = .ok ⟨map, .kOk⟩
  returns : ∀ query onWorker state, server.queryV2 s entryName {} = .ok (.ok query) →
    query.Reachable onWorker state → ∃ t err,
      Transition.Reaches ((attachmentQuery onWorker).Step (query.answers onWorker)) state t ∧
        t.phase = .returned err
  threads : ∀ query onWorker state err, server.queryV2 s entryName {} = .ok (.ok query) →
    query.Reachable onWorker state → state.phase = .returned err →
      (ReadAttachments.after state.visits).finish err = ⟨map, .kOk⟩

/-- The records of the server stand for the map. -/
structure StandsFor (s : server.State) (map : AttachmentMap) : Prop where
  holds : server.Holds s entryName
  replay_eq : Tombstones.replay ((server.stored s entryName).map fun r => r.2.entry) = map

theorem StandsFor.read {server : MetaServer} {entryName : Bytes} {s : server.State}
    {map : AttachmentMap} (h : server.StandsFor entryName s map) (hutf8 : isUtf8 entryName = true)
    (hpercent : percent ∉ entryName) : server.Reads entryName s map := by
  have hcall : server.readAttachments s entryName = .ok ⟨map, .kOk⟩ := by
    rw [h.holds.readAttachments_eq hutf8 hpercent, h.replay_eq]
  refine ⟨hcall, fun _ _ _ _ hstate => MetaQuery.returns hstate, ?_⟩
  intro query onWorker state err hquery hstate hreturned
  exact Except.ok.inj ((MetaQuery.refines_readAttachments hquery hstate hreturned).symm.trans hcall)

end

variable [StdSort] [JsonReader] (server : MetaServer) (entryName : Bytes)

/-- Make the call. -/
def perform (s : server.State) : AttachmentCall → Except Uncaught (server.State × Error)
  | .write attachments now => server.writeAttachments s entryName attachments now
  | .remove keys => server.removeAttachments s entryName keys

/-- In every state of the sequence of calls, `ReadAttachments` returns the map that
the operations make, and a write with a payload that is not JSON fails and changes
nothing. -/
def BehavesAsMap : server.State → AttachmentMap → List AttachmentCall → Prop
  | s, map, [] => server.Reads entryName s map
  | s, map, call :: calls =>
    server.Reads entryName s map ∧
      if call.Valid then
        ∃ s', server.perform entryName s call = .ok (s', .kOk) ∧
          BehavesAsMap s' (call.apply map) calls
      else
        ∃ err, err.isError = true ∧ server.perform entryName s call = .ok (s, err) ∧
          BehavesAsMap s map calls

/-- Each reading of the clock, in microseconds, is later than every timestamp that is
stored, and the timestamps of the call are times of the clock from the epoch on. -/
def InClockOrder : server.State → List AttachmentCall → Prop
  | _, [] => True
  | s, call :: calls =>
    (∀ attachments now, call = .write attachments now →
      0 ≤ toMicroseconds now ∧ (∀ r ∈ server.stored s entryName, r.1 < toMicroseconds now) ∧
        (toMicroseconds now + attachments.size - 1) * 1000 < 2 ^ 63) ∧
      ∀ s' err, server.perform entryName s call = .ok (s', err) → InClockOrder s' calls

variable {server entryName} {s : server.State} {map : AttachmentMap}

/-- The JSON library does not read the empty text. -/
def RefusesEmpty : Prop := ¬ IsJson ⟨[], Blob.nil_lt⟩

omit [StdSort] in
theorem size_pos_of_isJson (hreader : RefusesEmpty) {payload : Blob} (h : IsJson payload) :
    0 < payload.size := by
  obtain ⟨bytes, hsize⟩ := payload
  refine List.length_pos_iff.2 ?_
  rintro rfl
  exact hreader h

/-- A write of JSON payloads. -/
theorem StandsFor.write (h : server.StandsFor entryName s map) (hreader : RefusesEmpty)
    (hpercent : percent ∉ entryName) {attachments : AttachmentMap} {now : Time}
    (hjson : ∀ a ∈ attachments.toList, IsJson a.2)
    (hsafe : (AttachmentCall.write attachments now).Safe)
    (hlower : 0 ≤ toMicroseconds now)
    (hlater : ∀ r ∈ server.stored s entryName, r.1 < toMicroseconds now)
    (hupper : (toMicroseconds now + attachments.size - 1) * 1000 < 2 ^ 63) :
    ∃ s', server.writeAttachments s entryName attachments now = .ok (s', .kOk) ∧
      server.StandsFor entryName s' (map ∪ attachments) := by
  obtain ⟨s', hwrite, hstored⟩ :=
    writeAttachments_json hpercent hjson hsafe.1 hsafe.2 hlower hlater hupper
  have hnew : ∀ r ∈ attachmentRecords (toMicroseconds now) attachments.toList,
      Attached r ∧ LegibleKey r.2.entry.key ∧ 0 < r.2.payload.size := by
    intro r hr
    obtain ⟨hlow, hhigh, a, ha, hrecord⟩ := mem_attachmentRecords hr
    have hentry : r.2.entry = ⟨a.1, a.2, false⟩ := by rw [hrecord, entry_attachmentRecord]
    rw [Std.ExtTreeMap.length_toList] at hhigh
    rw [hentry, hrecord]
    refine ⟨⟨?_, ?_, ?_⟩, hsafe.1 a ha, size_pos_of_isJson hreader (hjson a ha)⟩
    · rw [hentry, hrecord]
      rfl
    · rw [hrecord]
      exact hjson a ha
    · exact ⟨by omega, by omega⟩
  refine ⟨s', hwrite, ⟨?_, ?_, ?_⟩, ?_⟩
  · rw [hstored, List.forall_mem_append]
    exact ⟨h.holds.attached, fun r hr => (hnew r hr).1⟩
  · rw [hstored, List.forall_mem_append]
    exact ⟨h.holds.keys, fun r hr => (hnew r hr).2.1⟩
  · rw [hstored, List.forall_mem_append]
    exact ⟨h.holds.payloads, fun r hr => (hnew r hr).2.2⟩
  · rw [hstored, List.map_append, entries_attachmentRecords, Tombstones.replay_append_bindings,
      h.replay_eq, OrderedMap.insertMany_toList]

/-- A removal. -/
theorem StandsFor.remove (h : server.StandsFor entryName s map) (hutf8 : isUtf8 entryName = true)
    (hpercent : percent ∉ entryName) {keys : KeySet} (hkeys : ∀ key ∈ keys, isUtf8 key = true) :
    ∃ s', server.removeAttachments s entryName keys = .ok (s', .kOk) ∧
      server.StandsFor entryName s' (map.filter fun key _ => !selectsKey keys key) := by
  have hall : keys.toList.all isUtf8 = true := List.all_eq_true.2 fun key hkey =>
    hkeys key (Std.ExtTreeSet.mem_toList.1 hkey)
  obtain ⟨s', hremove, hstored⟩ := h.holds.removeAttachments_eq hutf8 hpercent hall
  have hafter := fun r hr => attached_afterRemoval keys (h.holds.attached r hr)
  refine ⟨s', hremove, ⟨?_, ?_, ?_⟩, ?_⟩
  · rw [hstored]
    exact List.forall_mem_map.2 fun r hr => (hafter r hr).1
  · rw [hstored]
    refine List.forall_mem_map.2 fun r hr => ?_
    dsimp only
    rw [(hafter r hr).2]
    exact h.holds.keys r hr
  · rw [hstored]
    refine List.forall_mem_map.2 fun r hr => ?_
    have hpayload : (r.2.afterRemoval keys).payload = r.2.payload :=
      congrArg Tombstones.Entry.value (hafter r hr).2
    exact hpayload ▸ h.holds.payloads r hr
  · have hlog : (server.stored s' entryName).map (fun r => r.2.entry) =
        Tombstones.mark (selectsKey keys) ((server.stored s entryName).map fun r => r.2.entry) := by
      rw [hstored, Tombstones.mark, List.map_map, List.map_map]
      exact List.map_congr_left fun r hr => (hafter r hr).2
    rw [hlog, Tombstones.replay_mark, h.replay_eq]

theorem StandsFor.behavesAsMap (hreader : RefusesEmpty) (hutf8 : isUtf8 entryName = true)
    (hpercent : percent ∉ entryName) {calls : List AttachmentCall}
    (h : server.StandsFor entryName s map) (hclock : server.InClockOrder entryName s calls)
    (hsafe : ∀ call ∈ calls, call.Valid → call.Safe) :
    server.BehavesAsMap entryName s map calls := by
  induction calls generalizing s map with
  | nil => exact h.read hutf8 hpercent
  | cons call calls ih =>
    refine ⟨h.read hutf8 hpercent, ?_⟩
    obtain ⟨hcall, hrest⟩ := hclock
    obtain ⟨hcallSafe, hrestSafe⟩ := List.forall_mem_cons.1 hsafe
    by_cases hvalid : call.Valid
    · rw [if_pos hvalid]
      have hstep : ∃ s', server.perform entryName s call = .ok (s', .kOk) ∧
          server.StandsFor entryName s' (call.apply map) := by
        cases call with
        | write attachments now =>
          obtain ⟨hlower, hlater, hupper⟩ := hcall attachments now rfl
          exact h.write hreader hpercent hvalid (hcallSafe hvalid) hlower hlater hupper
        | remove keys => exact h.remove hutf8 hpercent (hcallSafe hvalid)
      obtain ⟨s', hperform, hs'⟩ := hstep
      exact ⟨s', hperform, ih hs' (hrest s' .kOk hperform) hrestSafe⟩
    · rw [if_neg hvalid]
      cases call with
      | write attachments now =>
        have hmalformed : ∃ a ∈ attachments.toList, ¬ IsJson a.2 := by
          simpa [AttachmentCall.Valid] using hvalid
        obtain ⟨err, hperform, herr⟩ := @writeAttachments_malformed _ server s entryName _
          attachments now hmalformed (hcall attachments now rfl).2.2
        exact ⟨err, herr, hperform, ih h (hrest s err hperform) hrestSafe⟩
      | remove keys => exact absurd trivial hvalid

end MetaServer

/-- On an entry whose name is UTF-8 and has no percent sign, attachments behave as a map over
every sequence of calls that can be made. -/
theorem attachments_behaveAsMap [StdSort] [JsonReader] (hreader : MetaServer.RefusesEmpty)
    (server : MetaServer) (entryName : Bytes) (hutf8 : isUtf8 entryName = true)
    (hpercent : percent ∉ entryName) (s : server.State)
    (hempty : server.stored s entryName = []) (calls : List AttachmentCall)
    (hclock : server.InClockOrder entryName s calls)
    (hsafe : ∀ call ∈ calls, call.Valid → call.Safe) :
    server.BehavesAsMap entryName s ∅ calls := by
  have hstands : server.StandsFor entryName s ∅ := by
    refine ⟨⟨?_, ?_, ?_⟩, ?_⟩ <;> rw [hempty]
    · exact List.forall_mem_nil _
    · exact List.forall_mem_nil _
    · exact List.forall_mem_nil _
    · rfl
  exact hstands.behavesAsMap hreader hutf8 hpercent hclock hsafe

/-- A payload that is JSON. -/
def onePayload : Blob := ⟨bytes "1", by decide⟩

/-- A reader that knows a single text. -/
@[reducible] def oneReader : JsonReader where
  read text := if text = bytes "1" then .of (.int 1) else .empty

theorem oneReader_refusesEmpty : @MetaServer.RefusesEmpty oneReader := by
  rintro ⟨value, hvalue⟩
  have hempty : ([] : Bytes) ≠ bytes "1" := by decide
  rw [show @JsonReader.read oneReader [] = .empty from if_neg hempty] at hvalue
  cases hvalue

theorem attachments_behaveAsMap_sample :
    @MetaServer.BehavesAsMap .insertion oneReader (@MetaServer.inMemory .insertion) (bytes "e")
      (fun _ => ∅) ∅ [.write ((∅ : AttachmentMap).insert (bytes "a") onePayload) (.wrap 1000),
        .remove ((∅ : KeySet).insert (bytes "a"))] := by
  refine @attachments_behaveAsMap .insertion oneReader oneReader_refusesEmpty
    (@MetaServer.inMemory .insertion) (bytes "e") (by decide) (by decide) _ rfl _
    ⟨fun attachments now h => ?_, fun _ _ _ =>
      ⟨fun _ _ h => AttachmentCall.noConfusion h, fun _ _ _ => trivial⟩⟩ ?_
  · cases h
    refine ⟨by decide, fun r hr => ?_, ?_⟩
    · cases hr
    · rw [Std.ExtTreeMap.size_insert]
      decide
  · refine List.forall_mem_cons.2 ⟨fun _ => ?_, List.forall_mem_singleton.2 fun _ key hkey => ?_⟩
    · exact ⟨by decide, by decide⟩
    · rw [Std.ExtTreeSet.mem_insert] at hkey
      rcases hkey with hkey | hkey
      · rw [← Std.compare_eq_iff_eq.1 hkey]
        decide
      · simp at hkey

/-- A removal of a key that is not UTF-8 ends the process. -/
theorem attachments_broken : ∃ reader : JsonReader, @MetaServer.RefusesEmpty reader ∧
    ¬ ∀ (server : @MetaServer .insertion) (entryName : Bytes)
      (s : @MetaServer.State .insertion server) (calls : List AttachmentCall),
      @MetaServer.stored .insertion server s entryName = [] →
      @MetaServer.InClockOrder .insertion reader server entryName s calls →
      @MetaServer.BehavesAsMap .insertion reader server entryName s ∅ calls := by
  refine ⟨oneReader, oneReader_refusesEmpty, fun h => ?_⟩
  obtain ⟨-, hcall⟩ := h (@MetaServer.inMemory .insertion) (bytes "e") (fun _ => ∅)
    [.remove ((∅ : KeySet).insert [0xFF])] rfl
    ⟨fun _ _ h => AttachmentCall.noConfusion h, fun _ _ _ => trivial⟩
  have hvalid : @AttachmentCall.Valid oneReader (.remove ((∅ : KeySet).insert [0xFF])) := trivial
  rw [if_pos hvalid] at hcall
  obtain ⟨s', hremove, -⟩ := hcall
  have hkeys : ¬ ((∅ : KeySet).insert [0xFF]).toList.all isUtf8 = true := by
    intro hall
    have hutf8 : isUtf8 [0xFF] = true := List.all_eq_true.1 hall _
      (Std.ExtTreeSet.mem_toList.2 Std.ExtTreeSet.mem_insert_self)
    exact absurd hutf8 (by decide)
  have hfailed : @MetaServer.removeAttachments .insertion (@MetaServer.inMemory .insertion)
      (fun _ => ∅) (bytes "e") ((∅ : KeySet).insert [0xFF]) = .error .dump := by
    change (Bucket.removalOptions _ >>= _) = _
    rw [removalOptions_eq, if_neg hkeys]
    rfl
  cases hfailed.symm.trans hremove

end Reduct
