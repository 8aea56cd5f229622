-- SUMMARY: Reports about replications and lifecycles: what the server says of one, its error codes included, is what the client returns.
import ReductClient.Internal.ReportMembers

open Cxx Fallible

namespace Reduct

/-! ## Errors

The errors of an hour are kept by their codes. In JSON a code is the name of a member, and
the members come in the order of their names. -/

/-- An error as a member of the table. Its code is of type `int16_t`. -/
structure DiagnosticsError.ReportedIn (item : Bytes × Json) (entry : Int × DiagnosticsError) :
    Prop where
  code : item.1 = decimalSigned entry.1
  lower : -2 ^ 15 ≤ entry.1
  upper : entry.1 < 2 ^ 15
  count : HasMember item.2 (bytes "count") (IsCount entry.2.count)
  lastMessage : item.2.member? (bytes "last_message") = some (.str entry.2.lastMessage)

theorem addError_reported {errors : OrderedMap Int DiagnosticsError} {item : Bytes × Json}
    {entry : Int × DiagnosticsError} (h : DiagnosticsError.ReportedIn item entry) :
    DiagnosticsItem.addError errors item = .ok (errors.insert entry.1 entry.2) := by
  have hl := h.lower
  have hu := h.upper
  have hread : stoi (decimalSigned entry.1) = .ok entry.1 :=
    stoi_decimalSigned (by omega) (by omega)
  -- the code is not changed by the conversion to `int16_t`
  have hnarrow : Int.bmod entry.1 (2 ^ 16) = entry.1 := Int.bmod_eq_of_le (by omega) (by omega)
  rw [DiagnosticsItem.addError, h.count.reads fun _ => IsCount.reads, ok_bind,
    memberAt_of_member? h.lastMessage, h.code, hread]
  simp only [Json.getString, ok_bind, Except.mapError, hnarrow]
  rfl

/-- The table is read entry by entry. -/
theorem foldlM_addError {members : List (Bytes × Json)} {entries : List (Int × DiagnosticsError)}
    (h : List.Forall₂ DiagnosticsError.ReportedIn members entries)
    (errors : OrderedMap Int DiagnosticsError) :
    members.foldlM DiagnosticsItem.addError errors =
      .ok (entries.foldl (fun errors entry => errors.insert entry.1 entry.2) errors) := by
  induction h generalizing errors with
  | nil => rfl
  | cons hreported _ ih =>
    rw [List.foldlM_cons, addError_reported hreported, ok_bind, List.foldl_cons]
    exact ih _

/-- The report of an hour. Its errors may come in any order. -/
structure DiagnosticsItem.ReportedIn (item : DiagnosticsItem) (hourly : Json) : Prop where
  ok : HasMember hourly (bytes "ok") (IsCount item.ok)
  errored : HasMember hourly (bytes "errored") (IsCount item.errored)
  errors : ∃ members entries, hourly.member? (bytes "errors") = some (.obj members) ∧
    List.Forall₂ DiagnosticsError.ReportedIn members entries ∧ entries.Perm item.errors.toList

theorem diagnostics_reported {diagnostics : Diagnostics} {data : Json}
    (h : HasMember data (bytes "hourly") diagnostics.hourly.ReportedIn) :
    Diagnostics.ofJson data = .ok diagnostics := by
  obtain ⟨hourly, hmember, hitem⟩ := h
  obtain ⟨members, entries, herrors, hreported, hperm⟩ := hitem.errors
  have htable := foldlM_addError hreported ∅
  rw [OrderedMap.foldl_insert_perm hperm] at htable
  rw [Diagnostics.ofJson, memberAt_of_member? hmember, hitem.ok.reads fun _ => IsCount.reads,
    ok_bind, hitem.errored.reads fun _ => IsCount.reads, ok_bind, Json.at?_of_member? herrors,
    ok_bind]
  dsimp only [jsonItems]
  rw [htable]
  rfl

/-! ## Replications -/

/-- The information about a replication. -/
structure ReplicationInfo.ReportedIn (info : ReplicationInfo) (v : Json) : Prop where
  name : v.member? (bytes "name") = some (.str info.name)
  mode : HasNamed v (bytes "mode") replicationModeToString .kEnabled info.mode
  isActive : v.member? (bytes "is_active") = some (.bool info.isActive)
  isProvisioned : v.member? (bytes "is_provisioned") = some (.bool info.isProvisioned)
  pendingRecords : HasMember v (bytes "pending_records") (IsCount info.pendingRecords)

theorem ReplicationInfo.ReportedIn.reads {info : ReplicationInfo} {v : Json}
    (h : info.ReportedIn v) : ReplicationInfo.ofJson v = .ok info := by
  rw [ReplicationInfo.ofJson, memberAt_of_member? h.name,
    h.mode.reads (parseReplicationMode_toString _) rfl, memberAt_of_member? h.isActive,
    memberAt_of_member? h.isProvisioned, h.pendingRecords.reads fun _ => IsCount.reads]
  rfl

/-- The settings of a replication. An empty prefix is the default. -/
structure ReplicationSettings.ReportedIn (settings : ReplicationSettings) (v : Json) : Prop where
  srcBucket : v.member? (bytes "src_bucket") = some (.str settings.srcBucket)
  dstBucket : v.member? (bytes "dst_bucket") = some (.str settings.dstBucket)
  dstHost : v.member? (bytes "dst_host") = some (.str settings.dstHost)
  dstToken : HasOptional v (bytes "dst_token") IsText settings.dstToken
  dstPrefix : HasNamed v (bytes "dst_prefix") id [] settings.dstPrefix
  entries : v.member? (bytes "entries") = some (.strings settings.entries)
  mode : HasNamed v (bytes "mode") replicationModeToString .kEnabled settings.mode
  compression : HasNamed v (bytes "compression") replicationCompressionToString .kNone
    settings.compression
  when : HasOptional v (bytes "when") IsCondition settings.when

theorem dstPrefix_reported {v : Json} {dstPrefix : Bytes}
    (h : HasNamed v (bytes "dst_prefix") id [] dstPrefix) :
    ∃ option, nonNullMember v (bytes "dst_prefix") Json.getString = .ok option ∧
      option.getD [] = dstPrefix := by
  rcases h with h | ⟨rfl, h⟩
  · exact ⟨some dstPrefix, HasOptional.readsText ⟨_, h, rfl⟩, rfl⟩
  · exact ⟨none, HasOptional.readsText h, rfl⟩

theorem ReplicationSettings.ReportedIn.reads {settings : ReplicationSettings} {v : Json}
    (h : settings.ReportedIn v) :
    ∃ settings', ReplicationSettings.ofJson v = .ok settings' ∧ settings.Same settings' := by
  obtain ⟨when, hwhen, hsame⟩ := condition_reported h.when
  obtain ⟨option, hoption, hcopied⟩ := dstPrefix_reported h.dstPrefix
  refine ⟨{ settings with when := when }, ?_, rfl, hsame⟩
  rw [ReplicationSettings.ofJson, memberAt_of_member? h.srcBucket, memberAt_of_member? h.dstBucket,
    memberAt_of_member? h.dstHost, memberAt_of_member? h.entries, Json.getStrings_strings,
    h.mode.reads (parseReplicationMode_toString _) rfl,
    h.compression.reads (parseReplicationCompression_toString _) rfl, h.dstToken.readsText,
    hoption, hwhen]
  simp only [Json.getString, ok_bind, hcopied]
  rfl

/-- The report of the server about a replication. -/
structure FullReplicationInfo.ReportedIn (full : FullReplicationInfo) (data : Json) : Prop where
  info : HasMember data (bytes "info") full.info.ReportedIn
  settings : HasMember data (bytes "settings") full.settings.ReportedIn
  diagnostics : HasMember data (bytes "diagnostics") fun v =>
    HasMember v (bytes "hourly") full.diagnostics.hourly.ReportedIn

/-- The replications differ in the text of their condition at most. -/
structure FullReplicationInfo.Same (full full' : FullReplicationInfo) : Prop where
  info : full'.info = full.info
  settings : full.settings.Same full'.settings
  diagnostics : full'.diagnostics = full.diagnostics

theorem FullReplicationInfo.ReportedIn.reads {full : FullReplicationInfo} {data : Json}
    (h : full.ReportedIn data) :
    ∃ full', parseFullReplicationInfo data = .ok full' ∧ full.Same full' := by
  obtain ⟨settings, hsettings, hreported⟩ := h.settings
  obtain ⟨settings', hread, hsame⟩ := hreported.reads
  obtain ⟨diagnostics, hdiagnostics, hhourly⟩ := h.diagnostics
  rw [parseFullReplicationInfo, h.info.reads fun _ => ReplicationInfo.ReportedIn.reads, ok_bind,
    memberAt_of_member? hsettings, hread, ok_bind, memberAt_of_member? hdiagnostics,
    diagnostics_reported hhourly, ok_bind]
  exact ⟨_, rfl, rfl, hsame, rfl⟩

/-! ## Lifecycles -/

/-- The information about a lifecycle. -/
structure LifecycleInfo.ReportedIn (info : LifecycleInfo) (v : Json) : Prop where
  name : v.member? (bytes "name") = some (.str info.name)
  type : HasNamed v (bytes "type") lifecycleTypeToString .kDelete info.type
  mode : HasNamed v (bytes "mode") lifecycleModeToString .kEnabled info.mode
  isProvisioned : v.member? (bytes "is_provisioned") = some (.bool info.isProvisioned)
  isRunning : v.member? (bytes "is_running") = some (.bool info.isRunning)
  lastRun : HasOptional v (bytes "last_run") IsTimeText info.lastRun

theorem LifecycleInfo.ReportedIn.reads {info : LifecycleInfo} {v : Json} (h : info.ReportedIn v) :
    LifecycleInfo.ofJson v = .ok info := by
  have hlast : nonNullMember v (bytes "last_run") (fun v => do
      let text ← v.getString
      parseIso8601Utc text) = .ok info.lastRun :=
    h.lastRun.reads fun _ _ _ => IsTimeText.parse
  rw [LifecycleInfo.ofJson, memberAt_of_member? h.name,
    h.type.reads (parseLifecycleType_toString _) rfl,
    h.mode.reads (parseLifecycleMode_toString _) rfl, memberAt_of_member? h.isProvisioned,
    memberAt_of_member? h.isRunning, hlast]
  rfl

/-- The settings of a lifecycle. -/
structure LifecycleSettings.ReportedIn (settings : LifecycleSettings) (v : Json) : Prop where
  type : HasNamed v (bytes "type") lifecycleTypeToString .kDelete settings.type
  bucket : v.member? (bytes "bucket") = some (.str settings.bucket)
  entries : v.member? (bytes "entries") = some (.strings settings.entries)
  olderThan : v.member? (bytes "older_than") = some (.str settings.olderThan)
  interval : HasOptional v (bytes "interval") IsText settings.interval
  when : HasOptional v (bytes "when") IsCondition settings.when
  mode : HasNamed v (bytes "mode") lifecycleModeToString .kEnabled settings.mode
  processingInterval : HasOptional v (bytes "processing_interval") IsText
    settings.processingInterval

theorem LifecycleSettings.ReportedIn.reads {settings : LifecycleSettings} {v : Json}
    (h : settings.ReportedIn v) :
    ∃ settings', LifecycleSettings.ofJson v = .ok settings' ∧ settings.Same settings' := by
  obtain ⟨when, hwhen, hsame⟩ := condition_reported h.when
  refine ⟨{ settings with when := when }, ?_, rfl, hsame⟩
  rw [LifecycleSettings.ofJson, h.type.reads (parseLifecycleType_toString _) rfl,
    memberAt_of_member? h.bucket, memberAt_of_member? h.entries, Json.getStrings_strings,
    memberAt_of_member? h.olderThan, h.mode.reads (parseLifecycleMode_toString _) rfl,
    h.interval.readsText, hwhen, h.processingInterval.readsText]
  rfl

/-- The report of the server about a lifecycle. -/
structure FullLifecycleInfo.ReportedIn (full : FullLifecycleInfo) (data : Json) : Prop where
  info : HasMember data (bytes "info") full.info.ReportedIn
  settings : HasMember data (bytes "settings") full.settings.ReportedIn

/-- The lifecycles differ in the text of their condition at most. -/
structure FullLifecycleInfo.Same (full full' : FullLifecycleInfo) : Prop where
  info : full'.info = full.info
  settings : full.settings.Same full'.settings

theorem FullLifecycleInfo.ReportedIn.reads {full : FullLifecycleInfo} {data : Json}
    (h : full.ReportedIn data) :
    ∃ full', parseFullLifecycleInfo data = .ok full' ∧ full.Same full' := by
  obtain ⟨settings, hsettings, hreported⟩ := h.settings
  obtain ⟨settings', hread, hsame⟩ := hreported.reads
  rw [parseFullLifecycleInfo, h.info.reads fun _ => LifecycleInfo.ReportedIn.reads, ok_bind,
    memberAt_of_member? hsettings, hread, ok_bind]
  exact ⟨_, rfl, rfl, hsame⟩

/-! ## Reports of both kinds -/

/-- Reports about replications and lifecycles are read as they say. -/
theorem policyReports_readBack :
    (∀ (full : FullReplicationInfo) (data : Json), full.ReportedIn data →
      ∃ full', parseFullReplicationInfo data = .ok full' ∧ full.Same full') ∧
    ∀ (full : FullLifecycleInfo) (data : Json), full.ReportedIn data →
      ∃ full', parseFullLifecycleInfo data = .ok full' ∧ full.Same full' :=
  ⟨fun _ _ => FullReplicationInfo.ReportedIn.reads, fun _ _ => FullLifecycleInfo.ReportedIn.reads⟩

/-- A replication that has failed in two ways, with a condition that is no object. -/
def failingReplication : FullReplicationInfo where
  info := ⟨bytes "test", .kPaused, true, false, 7⟩
  settings := { srcBucket := bytes "src", dstBucket := bytes "dst", dstHost := bytes "http://dst",
                entries := [bytes "entry"], when := some (.of (.bool true)) }
  diagnostics := ⟨⟨3, 5, .ofList [((404 : Int), DiagnosticsError.mk 1 (bytes "Not found")),
    (-1, DiagnosticsError.mk 4 (bytes "Timeout"))]⟩⟩

/-- Its report, with a null in place of the compression and without the mode of the settings. -/
def failingReport : Json :=
  .obj [(bytes "diagnostics", .obj [(bytes "hourly", .obj [(bytes "errored", .int 5),
      (bytes "errors", .obj [
        (bytes "-1", .obj [(bytes "count", .int 4), (bytes "last_message", .str (bytes "Timeout"))]),
        (bytes "404", .obj [(bytes "count", .int 1),
          (bytes "last_message", .str (bytes "Not found"))])]),
      (bytes "ok", .int 3)])]),
    (bytes "info", .obj [(bytes "is_active", .bool true), (bytes "is_provisioned", .bool false),
      (bytes "mode", .str (bytes "paused")), (bytes "name", .str (bytes "test")),
      (bytes "pending_records", .int 7)]),
    (bytes "settings", .obj [(bytes "compression", .null), (bytes "dst_bucket", .str (bytes "dst")),
      (bytes "dst_host", .str (bytes "http://dst")), (bytes "dst_token", .null),
      (bytes "entries", .arr [.str (bytes "entry")]), (bytes "src_bucket", .str (bytes "src")),
      (bytes "when", .bool true)])]

theorem reportedIn_failingReport : failingReplication.ReportedIn failingReport where
  info := ⟨_, rfl, rfl, .inl rfl, rfl, rfl, _, rfl, rfl, by decide⟩
  settings := ⟨_, rfl,
    { srcBucket := rfl
      dstBucket := rfl
      dstHost := rfl
      dstToken := .inr rfl
      dstPrefix := .inr ⟨rfl, .inl rfl⟩
      entries := rfl
      mode := .inr ⟨rfl, .inl rfl⟩
      compression := .inr ⟨rfl, .inr rfl⟩
      when := ⟨_, rfl, rfl, nofun, rfl⟩ }⟩
  diagnostics := by
    refine ⟨_, rfl, _, rfl, ⟨_, rfl, rfl, by decide⟩, ⟨_, rfl, rfl, by decide⟩, _,
      [(-1, ⟨4, bytes "Timeout"⟩), (404, ⟨1, bytes "Not found"⟩)], rfl, ?_, by decide +kernel⟩
    exact .cons ⟨rfl, by decide, by decide, ⟨_, rfl, rfl, by decide⟩, rfl⟩
      (.cons ⟨rfl, by decide, by decide, ⟨_, rfl, rfl, by decide⟩, rfl⟩ .nil)

/-- A lifecycle that has run half a second before the end of a minute. -/
def runLifecycle : FullLifecycleInfo where
  info := ⟨bytes "test", .kCompress, .kEnabled, false, true, some (.wrap 59500000000)⟩
  settings := { type := .kCompress, bucket := bytes "bucket", olderThan := bytes "1d" }

/-- Its report, with nulls in place of a mode and an interval. -/
def runReport : Json :=
  .obj [(bytes "info", .obj [(bytes "is_provisioned", .bool false),
      (bytes "is_running", .bool true),
      (bytes "last_run", .str (bytes "1970-01-01T00:00:59.5Z")), (bytes "name", .str (bytes "test")),
      (bytes "type", .str (bytes "compress"))]),
    (bytes "settings", .obj [(bytes "bucket", .str (bytes "bucket")), (bytes "entries", .arr []),
      (bytes "mode", .null), (bytes "older_than", .str (bytes "1d")),
      (bytes "processing_interval", .null), (bytes "type", .str (bytes "compress"))])]

theorem reportedIn_runReport : runLifecycle.ReportedIn runReport where
  info := ⟨_, rfl,
    { name := rfl
      type := .inl rfl
      mode := .inr ⟨rfl, .inl rfl⟩
      isProvisioned := rfl
      isRunning := rfl
      lastRun := by
        refine ⟨_, rfl, _, ⟨1970, 1, 1, 0, 0, 59⟩, 500000, rfl, ?_, by decide, by decide⟩
        exact ⟨⟨by decide, by decide, by decide, by decide, by decide⟩, by decide, 0x5A, rfl,
          .inr ⟨[5], by decide, by decide, rfl, by decide⟩⟩ }⟩
  settings := ⟨_, rfl,
    { type := .inl rfl
      bucket := rfl
      entries := rfl
      olderThan := rfl
      interval := .inl rfl
      when := .inl rfl
      mode := .inr ⟨rfl, .inr rfl⟩
      processingInterval := .inr rfl }⟩

theorem policyReports_sample :
    (∃ full, parseFullReplicationInfo failingReport = .ok full ∧ failingReplication.Same full) ∧
      ∃ full, parseFullLifecycleInfo runReport = .ok full ∧ runLifecycle.Same full :=
  ⟨policyReports_readBack.1 _ _ reportedIn_failingReport,
    policyReports_readBack.2 _ _ reportedIn_runReport⟩

end Reduct
