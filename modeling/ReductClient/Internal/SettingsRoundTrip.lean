-- SUMMARY: Settings of buckets, replications and lifecycles are read back from the JSON they are written to.
import ReductClient.Internal.Conditions

open Cxx Fallible

namespace Reduct

/-! ## Settings of a bucket -/

/-- The numbers are of type `size_t`. -/
def Settings.InRange (settings : Settings) : Prop :=
  (∀ n ∈ settings.maxBlockSize, n < 2 ^ 64) ∧ (∀ n ∈ settings.quotaSize, n < 2 ^ 64) ∧
    ∀ n ∈ settings.maxBlockRecords, n < 2 ^ 64

/-- The members of the payload. -/
def Settings.fields (settings : Settings) : List (Bytes × Option Json) :=
  [(bytes "max_block_size", settings.maxBlockSize.map jsonNat),
    (bytes "quota_type", settings.quotaType.map fun t => .str t.name),
    (bytes "quota_size", settings.quotaSize.map jsonNat),
    (bytes "max_block_records", settings.maxBlockRecords.map jsonNat)]

theorem bucketSettingToJsonString_eq (settings : Settings) :
    bucketSettingToJsonString settings = JsonKind.sorted.build (writtenMembers settings.fields) := by
  obtain ⟨maxBlockSize, quotaType, quotaSize, maxBlockRecords⟩ := settings
  cases maxBlockSize <;> cases quotaType <;> cases quotaSize <;> cases maxBlockRecords <;> rfl

theorem find?_quotaType (t : QuotaType) :
    [QuotaType.kNone, .kFifo, .kHard].find? (fun t' => t'.name = t.name) = some t := by
  cases t <;> decide

/-- Settings are read from any value that has their members. -/
theorem bucketSettings_written {settings : Settings} {v : Json} (h : settings.InRange)
    (hfields : ∀ field ∈ settings.fields, v.member? field.1 = field.2) :
    parseBucketSettings v = .ok settings := by
  obtain ⟨hsize, hquota, hrecords⟩ := h
  simp only [Settings.fields, List.forall_mem_cons, List.not_mem_nil, false_implies, implies_true,
    and_true] at hfields
  obtain ⟨hmaxBlockSize, hquotaType, hquotaSize, hmaxBlockRecords⟩ := hfields
  have hread : ∀ {option : Option Nat}, (∀ n ∈ option, n < 2 ^ 64) →
      ∀ n ∈ option, (jsonNat n).getUInt64 = .ok n := fun h n hn => Json.getUInt64_int (h n hn)
  rw [parseBucketSettings, containedMember_written hmaxBlockSize (hread hsize), ok_bind,
    hquotaType, containedMember_written hquotaSize (hread hquota), ok_bind,
    containedMember_written hmaxBlockRecords (hread hrecords), ok_bind]
  obtain ⟨maxBlockSize, quotaType, quotaSize, maxBlockRecords⟩ := settings
  cases quotaType with
  | none => rfl
  | some t =>
    dsimp only [Option.map_some]
    rw [find?_quotaType]
    rfl

theorem parseBucketSettings_toJson {settings : Settings} (h : settings.InRange) :
    parseBucketSettings (bucketSettingToJsonString settings) = .ok settings := by
  have hnodup : (settings.fields.map Prod.fst).Nodup := by
    change [bytes "max_block_size", bytes "quota_type", bytes "quota_size",
      bytes "max_block_records"].Nodup
    decide
  rw [bucketSettingToJsonString_eq]
  exact bucketSettings_written h (member?_writtenMembers .sorted hnodup)

/-! ## Conditions -/

/-- The text of a JSON object. Its strings are UTF-8, as in every JSON text. -/
def IsObjectText (text : JsonText) : Prop :=
  ∃ members, text = .of (.obj members) ∧ (Json.obj members).isUtf8 = true

/-- The conditions are both absent, or equal as JSON values. -/
def SameCondition (when when' : Option JsonText) : Prop :=
  when'.map (JsonText.parse .sorted) = when.map (JsonText.parse .sorted)

/-- The condition is parsed, and what is written of it is read back. -/
theorem condition_written {when : Option JsonText} (h : ∀ text ∈ when, IsObjectText text) :
    ∃ value when', parseWhen when = .ok value ∧ SameCondition when when' ∧
      ∀ v : Json, v.member? (bytes "when") = value →
        nonNullMember v (bytes "when") dumpWhen = .ok when' := by
  cases when with
  | none => exact ⟨none, none, rfl, rfl, fun v hv => memberOr_of_none hv none⟩
  | some text =>
    obtain ⟨members, rfl, hutf8⟩ := h text rfl
    have hvalue := Json.rebuild_obj .sorted members
    have hutf8 := Json.isUtf8_rebuild .sorted hutf8
    have hagain := Json.rebuild_rebuild .sorted (.obj members)
    refine ⟨some ((Json.obj members).rebuild .sorted),
      some (.of ((Json.obj members).rebuild .sorted)), rfl, ?_, fun v hv => ?_⟩
    · exact congrArg (fun value => some (Except.ok value)) hagain
    · rw [nonNullMember, memberOr_of_member? hv, hvalue]
      rw [hvalue] at hutf8
      simp only [dumpWhen, Json.dump, hutf8, if_true]
      rfl

/-! ## Settings of a replication -/

/-- The settings are equal in every field, the condition as a JSON value. -/
structure ReplicationSettings.Same (settings settings' : ReplicationSettings) : Prop where
  fields : settings' = { settings with when := settings'.when }
  when : SameCondition settings.when settings'.when

theorem replicationSettings_written {settings : ReplicationSettings} {value : Option Json}
    {when : Option JsonText} {json : Json}
    (h : ∀ field ∈ settings.fields value, json.member? field.1 = field.2)
    (hwhen : nonNullMember json (bytes "when") dumpWhen = .ok when) :
    ReplicationSettings.ofJson json = .ok { settings with when := when } := by
  simp only [ReplicationSettings.fields, List.forall_mem_cons, List.not_mem_nil, false_implies,
    implies_true, and_true] at h
  obtain ⟨hsrc, hdst, hhost, htoken, hcopied, hentries, hmode, hcompression, -⟩ := h
  have hcopied : nonNullMember json (bytes "dst_prefix") Json.getString =
      .ok (if settings.dstPrefix = [] then none else some settings.dstPrefix) := by
    refine @nonNullMember_written _ _ _ _ _ .str ?_ (fun _ _ => rfl) (fun _ _ h => Json.noConfusion h)
    rw [hcopied]
    split <;> rfl
  have hcompression : memberOr json (bytes "compression") parseReplicationCompression .kNone =
      .ok settings.compression :=
    @memberOr_written _ _ _ _ _ _ _ (fun c => .str (replicationCompressionToString c))
      hcompression (parseReplicationCompression_toString _)
  have hgetD : (if settings.dstPrefix = [] then none else some settings.dstPrefix).getD [] =
      settings.dstPrefix := by
    split
    · exact Eq.symm ‹_›
    · rfl
  rw [ReplicationSettings.ofJson, memberAt_of_member? hsrc, memberAt_of_member? hdst,
    memberAt_of_member? hhost, memberAt_of_member? hentries, Json.getStrings_strings,
    memberOr_of_member? hmode, parseReplicationMode_toString,
    hcompression, nonNullMember_written htoken (fun _ _ => rfl) (fun _ _ h => Json.noConfusion h), hcopied, hwhen]
  simp only [Json.getString, ok_bind, hgetD]
  rfl

/-- A response about a replication has these settings, and its other parts can be read. -/
structure ReplicationResponse (data settings : Json) : Prop where
  settings : data.member? (bytes "settings") = some settings
  info : Returns (memberAt data (bytes "info") ReplicationInfo.ofJson)
  diagnostics : Returns (memberAt data (bytes "diagnostics") Diagnostics.ofJson)

/-- The settings are read back from any response with what is written of them. -/
def ReplicationSettings.ReadBack (settings : ReplicationSettings) : Prop :=
  ∃ payload, replicationSettingsToJsonString settings = .ok payload ∧
    ∀ data, ReplicationResponse data payload →
      ∃ full, parseFullReplicationInfo data = .ok full ∧ settings.Same full.settings

theorem ReplicationSettings.readBack {settings : ReplicationSettings}
    (h : ∀ text ∈ settings.when, IsObjectText text) : settings.ReadBack := by
  obtain ⟨value, when, hparse, hsame, hread⟩ := condition_written h
  refine ⟨JsonKind.sorted.build (writtenMembers (settings.fields value)), ?_, ?_⟩
  · rw [replicationSettingsToJsonString, hparse]
    rfl
  · rintro data ⟨hsettings, ⟨info, hinfo⟩, diagnostics, hdiagnostics⟩
    have hmember := member?_writtenMembers .sorted (settings.fields_nodup value)
    have hwritten := replicationSettings_written hmember
      (hread _ (hmember (bytes "when", value) (by simp [ReplicationSettings.fields])))
    rw [parseFullReplicationInfo, hinfo, ok_bind, memberAt_of_member? hsettings, hwritten, ok_bind,
      hdiagnostics, ok_bind]
    exact ⟨_, rfl, rfl, hsame⟩

/-! ## Settings of a lifecycle -/

/-- The settings are equal in every field, the condition as a JSON value. -/
structure LifecycleSettings.Same (settings settings' : LifecycleSettings) : Prop where
  fields : settings' = { settings with when := settings'.when }
  when : SameCondition settings.when settings'.when

theorem lifecycleSettings_written {settings : LifecycleSettings} {value : Option Json}
    {when : Option JsonText} {json : Json}
    (h : ∀ field ∈ settings.fields value, json.member? field.1 = field.2)
    (hwhen : nonNullMember json (bytes "when") dumpWhen = .ok when) :
    LifecycleSettings.ofJson json = .ok { settings with when := when } := by
  simp only [LifecycleSettings.fields, List.forall_mem_cons, List.not_mem_nil, false_implies,
    implies_true, and_true] at h
  obtain ⟨htype, hbucket, hentries, holder, hinterval, hmode, hprocessing, -⟩ := h
  rw [LifecycleSettings.ofJson, memberOr_of_member? htype, parseLifecycleType_toString,
    memberAt_of_member? hbucket, memberAt_of_member? hentries, Json.getStrings_strings,
    memberAt_of_member? holder, memberOr_of_member? hmode, parseLifecycleMode_toString,
    nonNullMember_written hinterval (fun _ _ => rfl) (fun _ _ h => Json.noConfusion h), hwhen,
    nonNullMember_written hprocessing (fun _ _ => rfl) (fun _ _ h => Json.noConfusion h)]
  rfl

/-- A response about a lifecycle has these settings, and its other part can be read. -/
structure LifecycleResponse (data settings : Json) : Prop where
  settings : data.member? (bytes "settings") = some settings
  info : Returns (memberAt data (bytes "info") LifecycleInfo.ofJson)

/-- The settings are read back from any response with what is written of them. -/
def LifecycleSettings.ReadBack (settings : LifecycleSettings) : Prop :=
  ∃ payload, lifecycleSettingsToJsonString settings = .ok payload ∧
    ∀ data, LifecycleResponse data payload →
      ∃ full, parseFullLifecycleInfo data = .ok full ∧ settings.Same full.settings

theorem LifecycleSettings.readBack {settings : LifecycleSettings}
    (h : ∀ text ∈ settings.when, IsObjectText text) : settings.ReadBack := by
  obtain ⟨value, when, hparse, hsame, hread⟩ := condition_written h
  refine ⟨JsonKind.sorted.build (writtenMembers (settings.fields value)), ?_, ?_⟩
  · rw [lifecycleSettingsToJsonString, hparse]
    rfl
  · rintro data ⟨hsettings, info, hinfo⟩
    have hmember := member?_writtenMembers .sorted (settings.fields_nodup value)
    have hwritten := lifecycleSettings_written hmember
      (hread _ (hmember (bytes "when", value) (by simp [LifecycleSettings.fields])))
    rw [parseFullLifecycleInfo, hinfo, ok_bind, memberAt_of_member? hsettings, hwritten, ok_bind]
    exact ⟨_, rfl, rfl, hsame⟩

/-! ## All settings -/

/-- Settings are read back from what is written of them: those of a bucket from the
JSON itself, those of a policy from any response that they are a part of. -/
theorem settings_roundTrip :
    (∀ settings : Settings, settings.InRange →
      parseBucketSettings (bucketSettingToJsonString settings) = .ok settings) ∧
    (∀ settings : ReplicationSettings, (∀ text ∈ settings.when, IsObjectText text) →
      settings.ReadBack) ∧
    (∀ settings : LifecycleSettings, (∀ text ∈ settings.when, IsObjectText text) →
      settings.ReadBack) :=
  ⟨fun _ => parseBucketSettings_toJson, fun _ => ReplicationSettings.readBack,
    fun _ => LifecycleSettings.readBack⟩

/-- A response of the server about a replication. -/
def replicationResponse (settings : Json) : Json :=
  .obj [(bytes "info", .obj [(bytes "name", .str (bytes "test")), (bytes "mode", .null),
      (bytes "is_active", .bool true), (bytes "is_provisioned", .bool false),
      (bytes "pending_records", .int 0)]),
    (bytes "settings", settings),
    (bytes "diagnostics", .obj [(bytes "hourly", .obj [(bytes "ok", .int 0),
      (bytes "errored", .int 1), (bytes "errors", .obj [(bytes "404",
        .obj [(bytes "count", .int 1), (bytes "last_message", .str (bytes "Not found"))])])])])]

/-- A response of the server about a lifecycle. -/
def lifecycleResponse (settings : Json) : Json :=
  .obj [(bytes "info", .obj [(bytes "name", .str (bytes "test")),
      (bytes "is_provisioned", .bool false), (bytes "is_running", .bool true),
      (bytes "last_run", .str (bytes "2026-05-27T20:31:14.5Z"))]),
    (bytes "settings", settings)]

/-- Settings with a prefix, a compression and a condition. -/
def prefixedReplication : ReplicationSettings :=
  { dstPrefix := bytes "copy", when := some (.of notThenLimit), compression := .kZstd }

/-- Settings with an interval and a condition. -/
def hourlyLifecycle : LifecycleSettings :=
  { interval := some (bytes "1h"), when := some (.of notThenLimit), mode := .kDryRun }

theorem settings_readBack :
    parseBucketSettings (bucketSettingToJsonString ⟨some 1024, some .kFifo, none, some 0⟩) =
      .ok ⟨some 1024, some .kFifo, none, some 0⟩ ∧
    (∃ payload full, replicationSettingsToJsonString prefixedReplication = .ok payload ∧
      parseFullReplicationInfo (replicationResponse payload) = .ok full ∧
      prefixedReplication.Same full.settings) ∧
    (∃ payload full, lifecycleSettingsToJsonString hourlyLifecycle = .ok payload ∧
      parseFullLifecycleInfo (lifecycleResponse payload) = .ok full ∧
      hourlyLifecycle.Same full.settings) := by
  have hobject : ∀ text ∈ some (JsonText.of notThenLimit), IsObjectText text := by
    rintro _ ⟨⟩
    exact ⟨_, rfl, by decide⟩
  refine ⟨settings_roundTrip.1 _ (by simp [Settings.InRange]), ?_, ?_⟩
  · obtain ⟨payload, hpayload, hread⟩ := settings_roundTrip.2.1 prefixedReplication hobject
    obtain ⟨full, hfull, hsame⟩ := hread (replicationResponse payload) ⟨rfl, ⟨_, rfl⟩, ⟨_, rfl⟩⟩
    exact ⟨payload, full, hpayload, hfull, hsame⟩
  · obtain ⟨payload, hpayload, hread⟩ := settings_roundTrip.2.2 hourlyLifecycle hobject
    obtain ⟨full, hfull, hsame⟩ := hread (lifecycleResponse payload) ⟨rfl, ⟨_, rfl⟩⟩
    exact ⟨payload, full, hpayload, hfull, hsame⟩

end Reduct
