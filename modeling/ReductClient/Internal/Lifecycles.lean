-- SUMMARY: The settings of lifecycles as JSON, and the parser of the full information about one.
import ReductClient.Internal.Serialisation
import ReductClient.Internal.TimeParse

open Cxx

namespace Reduct

/-! ## Types and modes -/

/-- `IClient::LifecycleType`. -/
inductive LifecycleType where
  | kDelete
  | kCompress
  deriving DecidableEq

/-- `IClient::LifecycleMode`. -/
inductive LifecycleMode where
  | kEnabled
  | kDisabled
  | kDryRun
  deriving DecidableEq

/-- `LifecycleTypeToString`. -/
def lifecycleTypeToString : LifecycleType → Bytes
  | .kDelete => bytes "delete"
  | .kCompress => bytes "compress"

/-- `LifecycleModeToString`. -/
def lifecycleModeToString : LifecycleMode → Bytes
  | .kEnabled => bytes "enabled"
  | .kDisabled => bytes "disabled"
  | .kDryRun => bytes "dry_run"

/-- `ParseLifecycleType`. -/
def parseLifecycleType : Json → Except Bytes LifecycleType :=
  parseEnum [.kDelete, .kCompress] lifecycleTypeToString .kDelete
    (bytes "Invalid lifecycle type: ")

/-- `ParseLifecycleMode`. -/
def parseLifecycleMode : Json → Except Bytes LifecycleMode :=
  parseEnum [.kEnabled, .kDisabled, .kDryRun] lifecycleModeToString .kEnabled
    (bytes "Invalid lifecycle mode: ")

theorem parseLifecycleType_toString (type : LifecycleType) :
    parseLifecycleType (.str (lifecycleTypeToString type)) = .ok type :=
  parseEnum_name (by cases type <;> decide) fun other _ => by
    cases type <;> cases other <;> decide

theorem parseLifecycleMode_toString (mode : LifecycleMode) :
    parseLifecycleMode (.str (lifecycleModeToString mode)) = .ok mode :=
  parseEnum_name (by cases mode <;> decide) fun other _ => by
    cases mode <;> cases other <;> decide

/-! ## Settings -/

/-- `IClient::LifecycleSettings`. -/
structure LifecycleSettings where
  type : LifecycleType := .kDelete
  bucket : Bytes := []
  entries : List Bytes := []
  olderThan : Bytes := []
  interval : Option Bytes := none
  when : Option JsonText := none
  mode : LifecycleMode := .kEnabled
  processingInterval : Option Bytes := none

/-- The members of the payload, with the condition that has been parsed. -/
def LifecycleSettings.fields (settings : LifecycleSettings) (when : Option Json) :
    List (Bytes × Option Json) :=
  [(bytes "type", some (.str (lifecycleTypeToString settings.type))),
    (bytes "bucket", some (.str settings.bucket)),
    (bytes "entries", some (.strings settings.entries)),
    (bytes "older_than", some (.str settings.olderThan)),
    (bytes "interval", settings.interval.map .str),
    (bytes "mode", some (.str (lifecycleModeToString settings.mode))),
    (bytes "processing_interval", settings.processingInterval.map .str),
    (bytes "when", when)]

/-- `LifecycleSettingsToJsonString`. -/
def lifecycleSettingsToJsonString (settings : LifecycleSettings) : Except Error Json := do
  let when ← parseWhen settings.when
  pure (JsonKind.sorted.build (writtenMembers (settings.fields when)))

/-- The settings of a response. -/
def LifecycleSettings.ofJson (settings : Json) : Except Bytes LifecycleSettings := do
  let type ← memberOr settings (bytes "type") parseLifecycleType .kDelete
  let bucket ← memberAt settings (bytes "bucket") Json.getString
  let entries ← memberAt settings (bytes "entries") Json.getStrings
  let olderThan ← memberAt settings (bytes "older_than") Json.getString
  let mode ← memberOr settings (bytes "mode") parseLifecycleMode .kEnabled
  let interval ← nonNullMember settings (bytes "interval") Json.getString
  let when ← nonNullMember settings (bytes "when") dumpWhen
  let processingInterval ← nonNullMember settings (bytes "processing_interval") Json.getString
  pure ⟨type, bucket, entries, olderThan, interval, when, mode, processingInterval⟩

/-! ## Information -/

/-- `IClient::LifecycleInfo`. -/
structure LifecycleInfo where
  name : Bytes
  type : LifecycleType
  mode : LifecycleMode
  isProvisioned : Bool
  isRunning : Bool
  lastRun : Option Time

/-- The `info` of a response. -/
def LifecycleInfo.ofJson (info : Json) : Except Bytes LifecycleInfo := do
  let name ← memberAt info (bytes "name") Json.getString
  let type ← memberOr info (bytes "type") parseLifecycleType .kDelete
  let mode ← memberOr info (bytes "mode") parseLifecycleMode .kEnabled
  let isProvisioned ← memberAt info (bytes "is_provisioned") Json.getBool
  let isRunning ← memberAt info (bytes "is_running") Json.getBool
  let lastRun ← nonNullMember info (bytes "last_run") fun v => do
    let text ← v.getString
    parseIso8601Utc text
  pure ⟨name, type, mode, isProvisioned, isRunning, lastRun⟩

/-- `IClient::FullLifecycleInfo`. -/
structure FullLifecycleInfo where
  info : LifecycleInfo
  settings : LifecycleSettings

/-- `ParseFullLifecycleInfo`. -/
def parseFullLifecycleInfo (data : Json) : Except Error FullLifecycleInfo :=
  let parsed : Except Bytes FullLifecycleInfo := do
    let info ← memberAt data (bytes "info") LifecycleInfo.ofJson
    let settings ← memberAt data (bytes "settings") LifecycleSettings.ofJson
    pure ⟨info, settings⟩
  parsed.mapError exceptionError

end Reduct
