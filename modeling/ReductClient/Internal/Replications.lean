-- SUMMARY: The settings of replications as JSON, and the parser of the full information about one.
import ReductClient.Cxx.Containers
import ReductClient.Internal.Serialisation

open Cxx

namespace Reduct

/-! ## Modes and compressions -/

/-- `IClient::ReplicationMode`. -/
inductive ReplicationMode where
  | kEnabled
  | kPaused
  | kDisabled
  deriving DecidableEq

/-- `IClient::ReplicationCompression`. -/
inductive ReplicationCompression where
  | kNone
  | kZstd
  | kGzip
  deriving DecidableEq

/-- `ReplicationModeToString`. -/
def replicationModeToString : ReplicationMode → Bytes
  | .kEnabled => bytes "enabled"
  | .kPaused => bytes "paused"
  | .kDisabled => bytes "disabled"

/-- `ReplicationCompressionToString`. -/
def replicationCompressionToString : ReplicationCompression → Bytes
  | .kNone => bytes "none"
  | .kZstd => bytes "zstd"
  | .kGzip => bytes "gzip"

/-- `ParseReplicationMode`. -/
def parseReplicationMode : Json → Except Bytes ReplicationMode :=
  parseEnum [.kEnabled, .kPaused, .kDisabled] replicationModeToString .kEnabled
    (bytes "Invalid replication mode: ")

/-- `ParseReplicationCompression`. -/
def parseReplicationCompression : Json → Except Bytes ReplicationCompression :=
  parseEnum [.kNone, .kZstd, .kGzip] replicationCompressionToString .kNone
    (bytes "Invalid replication compression: ")

theorem parseReplicationMode_toString (mode : ReplicationMode) :
    parseReplicationMode (.str (replicationModeToString mode)) = .ok mode :=
  parseEnum_name (by cases mode <;> decide) fun other _ => by
    cases mode <;> cases other <;> decide

theorem parseReplicationCompression_toString (compression : ReplicationCompression) :
    parseReplicationCompression (.str (replicationCompressionToString compression)) =
      .ok compression :=
  parseEnum_name (by cases compression <;> decide) fun other _ => by
    cases compression <;> cases other <;> decide

/-! ## Settings -/

/-- `IClient::ReplicationSettings`. -/
structure ReplicationSettings where
  srcBucket : Bytes := []
  dstBucket : Bytes := []
  dstHost : Bytes := []
  dstToken : Option Bytes := none
  dstPrefix : Bytes := []
  entries : List Bytes := []
  when : Option JsonText := none
  mode : ReplicationMode := .kEnabled
  compression : ReplicationCompression := .kNone

/-- The members of the payload, with the condition that has been parsed. -/
def ReplicationSettings.fields (settings : ReplicationSettings) (when : Option Json) :
    List (Bytes × Option Json) :=
  [(bytes "src_bucket", some (.str settings.srcBucket)),
    (bytes "dst_bucket", some (.str settings.dstBucket)),
    (bytes "dst_host", some (.str settings.dstHost)),
    (bytes "dst_token", settings.dstToken.map .str),
    (bytes "dst_prefix", if settings.dstPrefix = [] then none else some (.str settings.dstPrefix)),
    (bytes "entries", some (.strings settings.entries)),
    (bytes "mode", some (.str (replicationModeToString settings.mode))),
    (bytes "compression",
      if settings.compression ≠ .kNone then
        some (.str (replicationCompressionToString settings.compression))
      else none),
    (bytes "when", when)]

/-- `ReplicationSettingsToJsonString`. -/
def replicationSettingsToJsonString (settings : ReplicationSettings) : Except Error Json := do
  let when ← parseWhen settings.when
  pure (JsonKind.sorted.build (writtenMembers (settings.fields when)))

/-- The settings of a response. -/
def ReplicationSettings.ofJson (settings : Json) : Except Bytes ReplicationSettings := do
  let srcBucket ← memberAt settings (bytes "src_bucket") Json.getString
  let dstBucket ← memberAt settings (bytes "dst_bucket") Json.getString
  let dstHost ← memberAt settings (bytes "dst_host") Json.getString
  let entries ← memberAt settings (bytes "entries") Json.getStrings
  let mode ← memberOr settings (bytes "mode") parseReplicationMode .kEnabled
  let compression ← memberOr settings (bytes "compression") parseReplicationCompression .kNone
  let dstToken ← nonNullMember settings (bytes "dst_token") Json.getString
  let dstPrefix ← nonNullMember settings (bytes "dst_prefix") Json.getString
  let when ← nonNullMember settings (bytes "when") dumpWhen
  pure ⟨srcBucket, dstBucket, dstHost, dstToken, dstPrefix.getD [], entries, when, mode,
    compression⟩

/-! ## Information and diagnostics -/

/-- `IClient::ReplicationInfo`. -/
structure ReplicationInfo where
  name : Bytes
  mode : ReplicationMode
  isActive : Bool
  isProvisioned : Bool
  pendingRecords : Nat

/-- The `info` of a response. -/
def ReplicationInfo.ofJson (info : Json) : Except Bytes ReplicationInfo := do
  let name ← memberAt info (bytes "name") Json.getString
  let mode ← memberOr info (bytes "mode") parseReplicationMode .kEnabled
  let isActive ← memberAt info (bytes "is_active") Json.getBool
  let isProvisioned ← memberAt info (bytes "is_provisioned") Json.getBool
  let pendingRecords ← memberAt info (bytes "pending_records") Json.getUInt64
  pure ⟨name, mode, isActive, isProvisioned, pendingRecords⟩

/-- `DiagnosticsError`. -/
structure DiagnosticsError where
  count : Nat
  lastMessage : Bytes
  deriving DecidableEq

/-- `DiagnosticsItem`. The codes are of type `int16_t`. -/
structure DiagnosticsItem where
  ok : Nat
  errored : Nat
  errors : OrderedMap Int DiagnosticsError

/-- `Diagnostics`. -/
structure Diagnostics where
  hourly : DiagnosticsItem

/-- `items()`: the elements of an array have their positions as keys, and another
value is the only item of its own, with an empty key. -/
def jsonItems : Json → List (Bytes × Json)
  | .null => []
  | .obj members => members
  | .arr items => items.zipIdx.map fun (v, i) => (decimal i, v)
  | v => [([], v)]

/-- One of the `errors`, which is assigned to its code. -/
def DiagnosticsItem.addError (errors : OrderedMap Int DiagnosticsError) (item : Bytes × Json) :
    Except Bytes (OrderedMap Int DiagnosticsError) := do
  let count ← memberAt item.2 (bytes "count") Json.getUInt64
  let lastMessage ← memberAt item.2 (bytes "last_message") Json.getString
  let code ← (stoi item.1).mapError fun _ => bytes "stoi"
  pure (errors.insert (Int.bmod code (2 ^ 16)) ⟨count, lastMessage⟩)

/-- The `diagnostics` of a response. -/
def Diagnostics.ofJson (diagnostics : Json) : Except Bytes Diagnostics :=
  memberAt diagnostics (bytes "hourly") fun hourly => do
    let ok ← memberAt hourly (bytes "ok") Json.getUInt64
    let errored ← memberAt hourly (bytes "errored") Json.getUInt64
    let errors ← hourly.at? (bytes "errors")
    let errors ← (jsonItems errors).foldlM DiagnosticsItem.addError ∅
    pure ⟨⟨ok, errored, errors⟩⟩

/-- `IClient::FullReplicationInfo`. -/
structure FullReplicationInfo where
  info : ReplicationInfo
  settings : ReplicationSettings
  diagnostics : Diagnostics

/-- `ParseFullReplicationInfo`. -/
def parseFullReplicationInfo (data : Json) : Except Error FullReplicationInfo :=
  let parsed : Except Bytes FullReplicationInfo := do
    let info ← memberAt data (bytes "info") ReplicationInfo.ofJson
    let settings ← memberAt data (bytes "settings") ReplicationSettings.ofJson
    let diagnostics ← memberAt data (bytes "diagnostics") Diagnostics.ofJson
    pure ⟨info, settings, diagnostics⟩
  parsed.mapError exceptionError

end Reduct
