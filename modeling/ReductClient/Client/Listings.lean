-- SUMMARY: What the server tells about itself, its buckets, entries, tokens and policies: the parsers of the responses, and that a list is returned as a whole or not at all.
import ReductClient.Bucket.Handle
import ReductClient.Client.Tokens
import ReductClient.Internal.Acceptance
import ReductClient.Internal.Lifecycles
import ReductClient.Internal.Replications

open Cxx Fallible

namespace Reduct

/-! ## Members with defaults, numbers and times -/

/-- `value(key, missing)`. -/
def memberValue {α : Type} (v : Json) (key : Bytes) (read : Json → Except Bytes α) (missing : α) :
    Except Bytes α :=
  match v with
  | .obj _ => memberOr v key read missing
  | _ => .error (bytes "[json.exception.type_error.306] cannot use value() with " ++ v.typeName)

/-- `std::chrono::seconds(json)`: the number of seconds, an `int64_t`. -/
def readSeconds (v : Json) : Except Bytes Int := do
  let n ← v.getUInt64
  pure (Int.bmod n (2 ^ 64))

/-- `Time() + std::chrono::microseconds(json)`. -/
def readMicroseconds (v : Json) : Except Bytes Time := do
  let n ← v.getUInt64
  pure (timeFromMicroseconds n)

/-- `parse_iso8601_utc(json.get<std::string>())`. -/
def readIso8601 (v : Json) : Except Bytes Time := do
  let text ← v.getString
  parseIso8601Utc text

/-! ## Buckets and entries -/

/-- `IBucket::Status`. -/
inductive Status where
  | kReady
  | kDeleting
  deriving DecidableEq

/-- `ParseStatus`. -/
def parseStatus (json : Json) : Except Bytes Status :=
  memberOr json (bytes "status") (fun v => do
    let status ← v.getString
    pure (if status = bytes "DELETING" then .kDeleting else .kReady)) .kReady

/-- `IBucket::BucketInfo`. -/
structure BucketInfo where
  name : Bytes
  entryCount : Nat
  size : Nat
  oldestRecord : Time
  latestRecord : Time
  isProvisioned : Bool
  status : Status

/-- The information on a bucket. -/
def BucketInfo.ofJson (info : Json) : Except Bytes BucketInfo := do
  let name ← memberAt info (bytes "name") Json.getString
  let entryCount ← memberAt info (bytes "entry_count") Json.getUInt64
  let size ← memberAt info (bytes "size") Json.getUInt64
  let oldestRecord ← memberAt info (bytes "oldest_record") readMicroseconds
  let latestRecord ← memberAt info (bytes "latest_record") readMicroseconds
  let isProvisioned ← memberValue info (bytes "is_provisioned") Json.getBool false
  let status ← parseStatus info
  pure ⟨name, entryCount, size, oldestRecord, latestRecord, isProvisioned, status⟩

/-- `IBucket::EntryInfo`. -/
structure EntryInfo where
  name : Bytes
  recordCount : Nat
  blockCount : Nat
  size : Nat
  oldestRecord : Time
  latestRecord : Time
  status : Status

/-- The information on an entry. -/
def EntryInfo.ofJson (entry : Json) : Except Bytes EntryInfo := do
  let name ← memberAt entry (bytes "name") Json.getString
  let recordCount ← memberAt entry (bytes "record_count") Json.getUInt64
  let blockCount ← memberAt entry (bytes "block_count") Json.getUInt64
  let size ← memberAt entry (bytes "size") Json.getUInt64
  let oldestRecord ← memberAt entry (bytes "oldest_record") readMicroseconds
  let latestRecord ← memberAt entry (bytes "latest_record") readMicroseconds
  let status ← parseStatus entry
  pure ⟨name, recordCount, blockCount, size, oldestRecord, latestRecord, status⟩

/-! ## Tokens -/

/-- `IClient::Token`. -/
structure Token where
  name : Bytes
  createdAt : Time
  isProvisioned : Bool
  expiresAt : Option Time
  ttl : Option Nat
  lastAccess : Option Time
  ipAllowlist : List Bytes
  isExpired : Bool

/-- A token of the list of tokens. -/
def Token.ofJson (token : Json) : Except Bytes Token := do
  let createdAt ← memberAt token (bytes "created_at") readIso8601
  let expiresAt ← nonNullMember token (bytes "expires_at") readIso8601
  let lastAccess ← nonNullMember token (bytes "last_access") readIso8601
  let ttl ← nonNullMember token (bytes "ttl") Json.getUInt64
  let name ← memberAt token (bytes "name") Json.getString
  let isProvisioned ← memberValue token (bytes "is_provisioned") Json.getBool false
  let ipAllowlist ← memberValue token (bytes "ip_allowlist") Json.getStrings []
  let isExpired ← memberValue token (bytes "is_expired") Json.getBool false
  pure ⟨name, createdAt, isProvisioned, expiresAt, ttl, lastAccess, ipAllowlist, isExpired⟩

/-- `IClient::FullTokenInfo`. -/
structure FullTokenInfo extends Token where
  permissions : Permissions

/-- The permissions of a token. -/
def Permissions.ofJson (permissions : Json) : Except Bytes Permissions := do
  let fullAccess ← memberAt permissions (bytes "full_access") Json.getBool
  let read ← memberAt permissions (bytes "read") Json.getStrings
  let write ← memberAt permissions (bytes "write") Json.getStrings
  pure ⟨fullAccess, read, write⟩

/-- `ParseTokenInfo`. What it reads before the permissions is what a list has. -/
def parseTokenInfo (json : Json) : Except Bytes FullTokenInfo := do
  let token ← Token.ofJson json
  let permissions ← memberAt json (bytes "permissions") Permissions.ofJson
  pure ⟨token, permissions⟩

/-! ## The server -/

/-- `IClient::ServerInfo::License`. -/
structure License where
  licensee : Bytes
  invoice : Bytes
  expiryDate : Time
  plan : Bytes
  deviceNumber : Nat
  diskQuota : Nat
  fingerprint : Bytes

/-- The license of the server. The expiry date is read last. -/
def License.ofJson (license : Json) : Except Bytes License := do
  let licensee ← memberAt license (bytes "licensee") Json.getString
  let invoice ← memberAt license (bytes "invoice") Json.getString
  let plan ← memberAt license (bytes "plan") Json.getString
  let deviceNumber ← memberAt license (bytes "device_number") Json.getUInt64
  let diskQuota ← memberAt license (bytes "disk_quota") Json.getUInt64
  let fingerprint ← memberAt license (bytes "fingerprint") Json.getString
  let expiryDate ← memberAt license (bytes "expiry_date") readIso8601
  pure ⟨licensee, invoice, expiryDate, plan, deviceNumber, diskQuota, fingerprint⟩

/-- `IClient::ServerInfo`. -/
structure ServerInfo where
  version : Bytes
  bucketCount : Nat
  usage : Nat
  uptime : Int
  oldestRecord : Time
  latestRecord : Time
  license : Option License
  defaults : Settings

/-- The information on the server, after the settings of its buckets. -/
def ServerInfo.ofJson (data : Json) (defaults : Settings) : Except Bytes ServerInfo := do
  let version ← memberAt data (bytes "version") Json.getString
  let bucketCount ← memberAt data (bytes "bucket_count") Json.getUInt64
  let usage ← memberAt data (bytes "usage") Json.getUInt64
  let uptime ← memberAt data (bytes "uptime") readSeconds
  let oldestRecord ← memberAt data (bytes "oldest_record") readMicroseconds
  let latestRecord ← memberAt data (bytes "latest_record") readMicroseconds
  let license ← nonNullMember data (bytes "license") License.ofJson
  pure ⟨version, bucketCount, usage, uptime, oldestRecord, latestRecord, license, defaults⟩

/-- What `GetInfo` makes of a response. -/
def parseServerInfo (data : Json) : Except Error ServerInfo := do
  let bucket ← (memberAt data (bytes "defaults") (Json.at? · (bytes "bucket"))).mapError
    exceptionError
  let defaults ← parseBucketSettings bucket
  (ServerInfo.ofJson data defaults).mapError exceptionError

/-! ## Lists -/

/-- What a loop over a value runs through. -/
def jsonValues : Json → List Json
  | .null => []
  | .arr items => items
  | .obj members => members.map Prod.snd
  | v => [v]

/-- What a loop over the indices below `size()` runs through. -/
def indexedValues : Json → Except Bytes (List Json)
  | .null => .ok []
  | .arr items => .ok items
  | .obj [] => .ok []
  | v => .error (bytes "[json.exception.type_error.305] cannot use operator[] with a numeric " ++
      bytes "argument with " ++ v.typeName)

/-- A list that the server gives: where it is, and how its elements are read. -/
structure Listing (α : Type) where
  path : Bytes
  key : Bytes
  elements : Json → Except Bytes (List Json)
  item : Json → Except Bytes α

namespace Listing

variable {α : Type}

/-- The elements of a response. -/
def elementsOf (l : Listing α) (body : JsonText) : Except Bytes (List Json) := do
  let data ← body.parse .sorted
  memberAt data l.key l.elements

/-- Read a response. -/
def read (l : Listing α) (body : JsonText) : Except Bytes (List α) := do
  let elements ← l.elementsOf body
  elements.mapM l.item

/-- The method that returns the list. -/
def get (l : Listing α) : Http (Result (List α)) := do
  let resp ← Http.get l.path
  if resp.error.isError then pure ⟨[], resp.error⟩
  else
    match l.read resp.result with
    | .ok items => pure ⟨items, .kOk⟩
    | .error what => pure ⟨[], exceptionError what⟩

end Listing

/-- `GetBucketList`. -/
def Client.getBucketList : Listing BucketInfo where
  path := bytes "/list"
  key := bytes "buckets"
  elements := fun v => .ok (jsonValues v)
  item := BucketInfo.ofJson

/-- `GetTokenList`. -/
def Client.getTokenList : Listing Token where
  path := bytes "/tokens"
  key := bytes "tokens"
  elements := fun v => .ok (jsonValues v)
  item := Token.ofJson

/-- `GetReplicationList` with `ParseReplicationList`. -/
def Client.getReplicationList : Listing ReplicationInfo where
  path := bytes "/replications"
  key := bytes "replications"
  elements := fun v => .ok (jsonValues v)
  item := ReplicationInfo.ofJson

/-- `GetLifecycleList` with `ParseLifecycleList`. -/
def Client.getLifecycleList : Listing LifecycleInfo where
  path := bytes "/lifecycles"
  key := bytes "lifecycles"
  elements := fun v => .ok (jsonValues v)
  item := LifecycleInfo.ofJson

/-- `GetEntryList`. -/
def Bucket.getEntryList (b : Bucket) : Listing EntryInfo where
  path := b.path
  key := bytes "entries"
  elements := indexedValues
  item := EntryInfo.ofJson

/-! ## Lists as a whole -/

namespace Listing

variable {α : Type}

theorem read_eq_ok {l : Listing α} {body : JsonText} {items : List α} :
    l.read body = .ok items ↔
      ∃ elements, l.elementsOf body = .ok elements ∧
        List.Forall₂ (fun v a => l.item v = .ok a) elements items := by
  rw [read, bind_eq_ok]
  simp only [mapM_eq_ok]

/-- What the method returns of each response: from an accepted one, an item for each element,
in their order; no item, but the error of the reading, if there are no elements to be found or
one of them cannot be read; and from any other response the error that the client makes of it. -/
structure Whole (l : Listing α) (replies : Nat → HttpReply) (s : HttpSession) : Prop where
  returned : ∀ elements items, (replies s.log.length).Accepted →
    l.elementsOf (replies s.log.length).answer.body = .ok elements →
      List.Forall₂ (fun v a => l.item v = .ok a) elements items →
        (l.get.run replies s).2 = .ok ⟨items, .kOk⟩
  missing : ∀ what, (replies s.log.length).Accepted →
    l.elementsOf (replies s.log.length).answer.body = .error what →
      (l.get.run replies s).2 = .ok ⟨[], exceptionError what⟩
  unreadable : ∀ before v after items what, (replies s.log.length).Accepted →
    l.elementsOf (replies s.log.length).answer.body = .ok (before ++ v :: after) →
      List.Forall₂ (fun v a => l.item v = .ok a) before items → l.item v = .error what →
        (l.get.run replies s).2 = .ok ⟨[], exceptionError what⟩
  rejected : ∀ err stored, ¬ (replies s.log.length).Accepted →
    checkRequest s.state (replies s.log.length) = .ok (err, stored) →
      err.isError = true ∧ (l.get.run replies s).2 = .ok ⟨[], err⟩

section

variable {l : Listing α} {replies : Nat → HttpReply} {s : HttpSession}

theorem run_get_ok {items : List α} (haccepted : (replies s.log.length).Accepted)
    (hread : l.read (replies s.log.length).answer.body = .ok items) :
    (l.get.run replies s).2 = .ok ⟨items, .kOk⟩ := by
  obtain ⟨s', hrun⟩ := Http.run_get_bind _ haccepted
  rw [get, hrun, if_neg Error.not_isError_kOk, hread]
  rfl

theorem run_get_error {what : Bytes} (haccepted : (replies s.log.length).Accepted)
    (hread : l.read (replies s.log.length).answer.body = .error what) :
    (l.get.run replies s).2 = .ok ⟨[], exceptionError what⟩ := by
  obtain ⟨s', hrun⟩ := Http.run_get_bind _ haccepted
  rw [get, hrun, if_neg Error.not_isError_kOk, hread]
  rfl

theorem run_get_rejected {err : Error} {stored : Option Bytes}
    (hno : ¬ (replies s.log.length).Accepted)
    (hcheck : checkRequest s.state (replies s.log.length) = .ok (err, stored)) :
    err.isError = true ∧ (l.get.run replies s).2 = .ok ⟨[], err⟩ := by
  obtain ⟨herr, body, s', hrun⟩ := Http.run_get_bind_rejected _ hno hcheck
  refine ⟨herr, ?_⟩
  rw [get, hrun, if_pos herr]
  rfl

end

theorem whole (l : Listing α) (replies : Nat → HttpReply) (s : HttpSession) :
    l.Whole replies s where
  returned _ _ haccepted helements hitems :=
    run_get_ok haccepted (read_eq_ok.2 ⟨_, helements, hitems⟩)
  missing _ haccepted helements := by
    refine run_get_error haccepted ?_
    rw [read, helements]
    rfl
  unreadable _ _ _ _ _ haccepted helements hbefore hitem := by
    refine run_get_error haccepted ?_
    rw [read, helements, ok_bind, mapM_eq_error hbefore hitem]
  rejected _ _ := run_get_rejected

/-- What a server tells of its only replication. -/
def onlyReplication : Json :=
  .obj [(bytes "is_active", .bool true), (bytes "is_provisioned", .bool false),
    (bytes "name", .str (bytes "r")), (bytes "pending_records", .int 3)]

theorem whole_onlyReplication :
    (Client.getReplicationList.get.run (fun _ => .response .ok []
      (.of (.obj [(bytes "replications", .arr [onlyReplication])]))) ⟨none, []⟩).2 =
        .ok ⟨[⟨bytes "r", .kEnabled, true, false, 3⟩], .kOk⟩ := by
  have hitem : Client.getReplicationList.item onlyReplication =
      .ok ⟨bytes "r", .kEnabled, true, false, 3⟩ := rfl
  exact (whole Client.getReplicationList _ ⟨none, []⟩).returned [onlyReplication] _
    ⟨rfl, by rintro _ ⟨⟩⟩ rfl (.cons hitem .nil)

end Listing

end Reduct
