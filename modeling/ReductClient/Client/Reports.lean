-- SUMMARY: Reports of the server about itself, its buckets, entries, tokens and policies: what a report says, in members of any order and among others, is what the method that reads it returns.
import ReductClient.Client.Methods
import ReductClient.Client.TokenTimes
import ReductClient.Internal.PolicyReports

open Cxx Fallible

namespace Reduct

/-! ## The information on a bucket -/

/-- `GetSettings`. -/
def Bucket.getSettings (b : Bucket) : Http (Result (Option Settings)) :=
  Client.fetch b.getBody fun data => do
    let settings ← (data.at? (bytes "settings")).mapError exceptionError
    parseBucketSettings settings

/-- `GetInfo`. -/
def Bucket.getInfo (b : Bucket) : Http (Result (Option BucketInfo)) :=
  Client.fetch b.getBody fun data =>
    (memberAt data (bytes "info") BucketInfo.ofJson).mapError exceptionError

/-! ## Times and defaults -/

/-- The time in microseconds. -/
def IsMicroseconds (t : Time) (v : Json) : Prop := ∃ us : Nat, v = jsonNat us ∧ t.ns = us * 1000

theorem IsMicroseconds.reads {t : Time} {v : Json} (h : IsMicroseconds t v) :
    readMicroseconds v = .ok t := by
  obtain ⟨us, rfl, hns⟩ := h
  have hu := t.upper
  have htime : timeFromMicroseconds us = t :=
    Time.ext ((timeFromMicroseconds_ns (by omega) (by omega)).trans hns.symm)
  rw [readMicroseconds, jsonNat, Json.getUInt64_int (by omega), ok_bind, htime]
  rfl

theorem IsTimeText.reads {t : Time} {v : Json} (h : IsTimeText t v) :
    readIso8601 v = .ok t ∧ v ≠ .null :=
  h.parse

/-- A value that has a member is an object, as `value()` requires. -/
theorem memberValue_eq {α : Type} {data v : Json} {key key' : Bytes} {read : Json → Except Bytes α}
    (h : data.member? key' = some v) (missing : α) :
    memberValue data key read missing = memberOr data key read missing := by
  cases data with
  | obj members => rfl
  | null => cases h
  | bool b => cases h
  | int n => cases h
  | float d => cases h
  | str s => cases h
  | arr items => cases h

/-! ## Buckets and entries -/

/-- What is not being deleted is ready, whatever its status is called. -/
def HasStatus (v : Json) (status : Status) : Prop :=
  match status with
  | .kDeleting => v.member? (bytes "status") = some (.str (bytes "DELETING"))
  | .kReady => v.member? (bytes "status") = none ∨
      ∃ text, v.member? (bytes "status") = some (.str text) ∧ text ≠ bytes "DELETING"

theorem HasStatus.reads {status : Status} {v : Json} (h : HasStatus v status) :
    parseStatus v = .ok status := by
  cases status with
  | kDeleting =>
    rw [parseStatus, memberOr_of_member? h]
    rfl
  | kReady =>
    rcases h with h | ⟨text, h, hne⟩
    · exact memberOr_of_none h _
    · rw [parseStatus, memberOr_of_member? h]
      simp only [Json.getString, ok_bind, if_neg hne]
      rfl

/-- The information on a bucket. -/
structure BucketInfo.ReportedIn (info : BucketInfo) (v : Json) : Prop where
  name : v.member? (bytes "name") = some (.str info.name)
  entryCount : HasMember v (bytes "entry_count") (IsCount info.entryCount)
  size : HasMember v (bytes "size") (IsCount info.size)
  oldestRecord : HasMember v (bytes "oldest_record") (IsMicroseconds info.oldestRecord)
  latestRecord : HasMember v (bytes "latest_record") (IsMicroseconds info.latestRecord)
  isProvisioned : HasDefaulted v (bytes "is_provisioned") .bool false info.isProvisioned
  status : HasStatus v info.status

theorem BucketInfo.ReportedIn.reads {info : BucketInfo} {v : Json} (h : info.ReportedIn v) :
    BucketInfo.ofJson v = .ok info := by
  rw [BucketInfo.ofJson, memberAt_of_member? h.name, h.entryCount.reads fun _ => IsCount.reads,
    h.size.reads fun _ => IsCount.reads, h.oldestRecord.reads fun _ => IsMicroseconds.reads,
    h.latestRecord.reads fun _ => IsMicroseconds.reads, memberValue_eq h.name,
    h.isProvisioned.reads rfl, h.status.reads]
  rfl

/-- The information on an entry. -/
structure EntryInfo.ReportedIn (info : EntryInfo) (v : Json) : Prop where
  name : v.member? (bytes "name") = some (.str info.name)
  recordCount : HasMember v (bytes "record_count") (IsCount info.recordCount)
  blockCount : HasMember v (bytes "block_count") (IsCount info.blockCount)
  size : HasMember v (bytes "size") (IsCount info.size)
  oldestRecord : HasMember v (bytes "oldest_record") (IsMicroseconds info.oldestRecord)
  latestRecord : HasMember v (bytes "latest_record") (IsMicroseconds info.latestRecord)
  status : HasStatus v info.status

theorem EntryInfo.ReportedIn.reads {info : EntryInfo} {v : Json} (h : info.ReportedIn v) :
    EntryInfo.ofJson v = .ok info := by
  rw [EntryInfo.ofJson, memberAt_of_member? h.name, h.recordCount.reads fun _ => IsCount.reads,
    h.blockCount.reads fun _ => IsCount.reads, h.size.reads fun _ => IsCount.reads,
    h.oldestRecord.reads fun _ => IsMicroseconds.reads,
    h.latestRecord.reads fun _ => IsMicroseconds.reads, h.status.reads]
  rfl

/-! ## Tokens -/

/-- A token, in a list or on its own. -/
structure Token.ReportedIn (token : Token) (v : Json) : Prop where
  name : v.member? (bytes "name") = some (.str token.name)
  createdAt : HasMember v (bytes "created_at") (IsTimeText token.createdAt)
  isProvisioned : HasDefaulted v (bytes "is_provisioned") .bool false token.isProvisioned
  expiresAt : HasOptional v (bytes "expires_at") IsTimeText token.expiresAt
  ttl : HasOptional v (bytes "ttl") IsCount token.ttl
  lastAccess : HasOptional v (bytes "last_access") IsTimeText token.lastAccess
  ipAllowlist : HasDefaulted v (bytes "ip_allowlist") .strings [] token.ipAllowlist
  isExpired : HasDefaulted v (bytes "is_expired") .bool false token.isExpired

theorem Token.ReportedIn.reads {token : Token} {v : Json} (h : token.ReportedIn v) :
    Token.ofJson v = .ok token := by
  rw [Token.ofJson, h.createdAt.reads fun _ hv => hv.reads.1,
    h.expiresAt.reads fun _ _ _ => IsTimeText.reads,
    h.lastAccess.reads fun _ _ _ => IsTimeText.reads,
    h.ttl.reads fun _ _ _ hv => ⟨hv.reads, hv.ne_null⟩, memberAt_of_member? h.name, memberValue_eq h.name,
    h.isProvisioned.reads rfl, memberValue_eq h.name,
    h.ipAllowlist.reads (Json.getStrings_strings _), memberValue_eq h.name, h.isExpired.reads rfl]
  rfl

/-- A token with its permissions. -/
structure FullTokenInfo.ReportedIn (info : FullTokenInfo) (v : Json) : Prop where
  token : info.toToken.ReportedIn v
  permissions : HasMember v (bytes "permissions") info.permissions.HeldBy

theorem FullTokenInfo.ReportedIn.reads {info : FullTokenInfo} {v : Json} (h : info.ReportedIn v) :
    parseTokenInfo v = .ok info := by
  rw [parseTokenInfo, h.token.reads, ok_bind,
    h.permissions.reads fun _ => Permissions.HeldBy.ofJson]
  rfl

/-! ## The server -/

/-- The license of the server. -/
structure License.ReportedIn (license : License) (v : Json) : Prop where
  licensee : v.member? (bytes "licensee") = some (.str license.licensee)
  invoice : v.member? (bytes "invoice") = some (.str license.invoice)
  expiryDate : HasMember v (bytes "expiry_date") (IsTimeText license.expiryDate)
  plan : v.member? (bytes "plan") = some (.str license.plan)
  deviceNumber : HasMember v (bytes "device_number") (IsCount license.deviceNumber)
  diskQuota : HasMember v (bytes "disk_quota") (IsCount license.diskQuota)
  fingerprint : v.member? (bytes "fingerprint") = some (.str license.fingerprint)

theorem License.ReportedIn.reads {license : License} {v : Json} (h : license.ReportedIn v) :
    License.ofJson v = .ok license := by
  rw [License.ofJson, memberAt_of_member? h.licensee, memberAt_of_member? h.invoice,
    memberAt_of_member? h.plan, h.deviceNumber.reads fun _ => IsCount.reads,
    h.diskQuota.reads fun _ => IsCount.reads, memberAt_of_member? h.fingerprint,
    h.expiryDate.reads fun _ hv => hv.reads.1]
  rfl

/-- A quota type by its name. Anything else than a name stands for none. -/
def HasQuotaType (v : Json) (quotaType : Option QuotaType) : Prop :=
  match quotaType with
  | some t => v.member? (bytes "quota_type") = some (.str t.name)
  | none => ∀ t : QuotaType, v.member? (bytes "quota_type") ≠ some (.str t.name)

/-- The settings of a bucket. -/
structure Settings.ReportedIn (settings : Settings) (v : Json) : Prop where
  maxBlockSize : HasContained v (bytes "max_block_size") IsCount settings.maxBlockSize
  quotaType : HasQuotaType v settings.quotaType
  quotaSize : HasContained v (bytes "quota_size") IsCount settings.quotaSize
  maxBlockRecords : HasContained v (bytes "max_block_records") IsCount settings.maxBlockRecords

theorem Settings.ReportedIn.reads {settings : Settings} {v : Json} (h : settings.ReportedIn v) :
    parseBucketSettings v = .ok settings := by
  have hquota := h.quotaType
  rw [parseBucketSettings, h.maxBlockSize.reads fun _ _ => IsCount.reads, ok_bind,
    h.quotaSize.reads fun _ _ => IsCount.reads, ok_bind,
    h.maxBlockRecords.reads fun _ _ => IsCount.reads, ok_bind]
  obtain ⟨maxBlockSize, quotaType, quotaSize, maxBlockRecords⟩ := settings
  cases quotaType with
  | some t =>
    dsimp only [HasQuotaType] at hquota
    rw [hquota]
    dsimp only
    rw [find?_quotaType]
    rfl
  | none =>
    have hnone : ∀ name, v.member? (bytes "quota_type") = some (.str name) →
        [QuotaType.kNone, .kFifo, .kHard].find? (fun t => t.name = name) = none := by
      intro name hname
      rw [List.find?_eq_none]
      intro t _ ht
      rw [decide_eq_true_eq] at ht
      exact hquota t (ht ▸ hname)
    dsimp only
    split
    · rename_i name hname
      rw [hnone name hname]
      rfl
    · rfl

/-- The server itself. Its uptime is a number of seconds that an `int64_t` holds. -/
structure ServerInfo.ReportedIn (info : ServerInfo) (data : Json) : Prop where
  version : data.member? (bytes "version") = some (.str info.version)
  bucketCount : HasMember data (bytes "bucket_count") (IsCount info.bucketCount)
  usage : HasMember data (bytes "usage") (IsCount info.usage)
  uptime : ∃ seconds : Nat, info.uptime = seconds ∧ seconds < 2 ^ 63 ∧
    data.member? (bytes "uptime") = some (jsonNat seconds)
  oldestRecord : HasMember data (bytes "oldest_record") (IsMicroseconds info.oldestRecord)
  latestRecord : HasMember data (bytes "latest_record") (IsMicroseconds info.latestRecord)
  license : HasOptional data (bytes "license") License.ReportedIn info.license
  defaults : HasMember data (bytes "defaults") fun v =>
    HasMember v (bytes "bucket") info.defaults.ReportedIn

theorem ServerInfo.ReportedIn.reads {info : ServerInfo} {data : Json} (h : info.ReportedIn data) :
    parseServerInfo data = .ok info := by
  obtain ⟨defaults, hdefaults, bucket, hbucket, hreported⟩ := h.defaults
  obtain ⟨seconds, huptime, hseconds, hmember⟩ := h.uptime
  have hread : memberAt data (bytes "uptime") readSeconds = .ok info.uptime := by
    rw [memberAt_of_member? hmember, readSeconds, jsonNat, Json.getUInt64_int (by omega), ok_bind,
      Int.bmod_eq_of_le (by omega) (by omega), huptime]
    rfl
  have hlicense : nonNullMember data (bytes "license") License.ofJson = .ok info.license := by
    refine h.license.reads fun license _ v hv => ⟨hv.reads, ?_⟩
    rintro rfl
    cases hv.licensee
  rw [parseServerInfo, memberAt_of_member? hdefaults, Json.at?_of_member? hbucket]
  change (parseBucketSettings bucket >>= fun defaults =>
    (ServerInfo.ofJson data defaults).mapError exceptionError) = _
  rw [hreported.reads, ok_bind, ServerInfo.ofJson,
    memberAt_of_member? h.version, h.bucketCount.reads fun _ => IsCount.reads,
    h.usage.reads fun _ => IsCount.reads, hread,
    h.oldestRecord.reads fun _ => IsMicroseconds.reads,
    h.latestRecord.reads fun _ => IsMicroseconds.reads, hlicense]
  rfl

/-! ## The methods -/

/-- The response is accepted, and its body is a text of the value. -/
structure HttpReply.Reports (reply : HttpReply) (data : Json) : Prop where
  accepted : reply.Accepted
  body : reply.answer.body.parse .sorted = .ok data

/-- From a response that reports a value, the method returns the same value, and from one
that is not accepted, the error that the client makes of it. -/
structure ReturnsReported {α : Type} (method : Http (Result (Option α)))
    (Report : α → Json → Prop) (Same : α → α → Prop) : Prop where
  reported : ∀ (replies : Nat → HttpReply) (s : HttpSession) (a : α) (data : Json),
    (replies s.log.length).Reports data → Report a data →
      ∃ a', (method.run replies s).2 = .ok ⟨some a', .kOk⟩ ∧ Same a a'
  rejected : ∀ (replies : Nat → HttpReply) (s : HttpSession) (err : Error) (stored : Option Bytes),
    ¬ (replies s.log.length).Accepted →
      checkRequest s.state (replies s.log.length) = .ok (err, stored) →
        err.isError = true ∧ (method.run replies s).2 = .ok ⟨none, err⟩

/-- From a response that reports values, the method returns all of them in their order, and
from one that is not accepted, the error that the client makes of it. -/
structure Listing.ReturnsReported {α : Type} (l : Listing α) (Report : α → Json → Prop) : Prop where
  reported : ∀ (replies : Nat → HttpReply) (s : HttpSession) (values : List α) (items : List Json)
    (data : Json), (replies s.log.length).Reports data →
      data.member? l.key = some (.arr items) → List.Forall₂ Report values items →
        (l.get.run replies s).2 = .ok ⟨values, .kOk⟩
  rejected : ∀ (replies : Nat → HttpReply) (s : HttpSession) (err : Error) (stored : Option Bytes),
    ¬ (replies s.log.length).Accepted →
      checkRequest s.state (replies s.log.length) = .ok (err, stored) →
        err.isError = true ∧ (l.get.run replies s).2 = .ok ⟨[], err⟩

section

variable {α : Type} {Report : α → Json → Prop} {Same : α → α → Prop}

theorem Client.fetch_reported {path : Bytes} {read : Json → Except Error α}
    (hread : ∀ a data, Report a data → ∃ a', read data = .ok a' ∧ Same a a') :
    ReturnsReported (Client.fetch (Http.get path) read) Report Same where
  reported := by
    intro replies s a data hreports ha
    obtain ⟨a', hok, hsame⟩ := hread a data ha
    obtain ⟨s', hrun⟩ := Http.run_get_bind _ hreports.accepted
    have hresult : ((replies s.log.length).answer.body.parse .sorted).mapError exceptionError >>=
        read = .ok a' := by
      rw [hreports.body]
      exact hok
    refine ⟨a', ?_, hsame⟩
    rw [Client.fetch, hrun, if_neg Error.not_isError_kOk, hresult]
    rfl
  rejected := by
    intro replies s err stored hno hcheck
    obtain ⟨herr, body, s', hrun⟩ := Http.run_get_bind_rejected _ hno hcheck
    refine ⟨herr, ?_⟩
    rw [Client.fetch, hrun, if_pos herr]
    rfl

/-- A parser that reads exactly what is reported. -/
theorem Client.fetch_reported_eq {path : Bytes} {read : Json → Except Error α}
    (hread : ∀ a data, Report a data → read data = .ok a) :
    ReturnsReported (Client.fetch (Http.get path) read) Report Eq :=
  Client.fetch_reported fun a data ha => ⟨a, hread a data ha, rfl⟩

theorem Listing.get_reported {l : Listing α}
    (helements : ∀ items, l.elements (.arr items) = .ok items)
    (hitem : ∀ a v, Report a v → l.item v = .ok a) : l.ReturnsReported Report where
  reported := by
    intro replies s values items data hreports hmember hvalues
    refine run_get_ok hreports.accepted (read_eq_ok.2 ⟨items, ?_, ?_⟩)
    · rw [elementsOf, hreports.body, ok_bind, memberAt_of_member? hmember, helements]
    · exact hvalues.flip.imp fun v a => hitem a v
  rejected _ _ _ _ := run_get_rejected

end

/-- The response of `GetSettings`. -/
def Settings.DescribedIn (settings : Settings) (data : Json) : Prop :=
  HasMember data (bytes "settings") settings.ReportedIn

/-- The response of `GetInfo` of a bucket. -/
def BucketInfo.DescribedIn (info : BucketInfo) (data : Json) : Prop :=
  HasMember data (bytes "info") info.ReportedIn

theorem Bucket.getSettings_reported (b : Bucket) :
    ReturnsReported b.getSettings Settings.DescribedIn Eq := by
  refine Client.fetch_reported_eq ?_
  rintro settings data ⟨v, hmember, hreported⟩
  rw [Json.at?_of_member? hmember]
  exact hreported.reads

theorem Bucket.getInfo_reported (b : Bucket) :
    ReturnsReported b.getInfo BucketInfo.DescribedIn Eq := by
  refine Client.fetch_reported_eq ?_
  intro info data h
  rw [HasMember.reads h fun _ => BucketInfo.ReportedIn.reads]
  rfl

theorem Client.getToken_reported {path : Bytes} :
    ReturnsReported
      (Client.fetch (Http.get path) fun data => (parseTokenInfo data).mapError exceptionError)
      FullTokenInfo.ReportedIn Eq := by
  refine Client.fetch_reported_eq fun info data h => ?_
  rw [h.reads]
  rfl

/-- The methods of a handle return what is reported. -/
structure Bucket.ReturnsReports (b : Bucket) : Prop where
  getSettings : ReturnsReported b.getSettings Settings.DescribedIn Eq
  getInfo : ReturnsReported b.getInfo BucketInfo.DescribedIn Eq
  getEntryList : b.getEntryList.ReturnsReported EntryInfo.ReportedIn

/-- So do those of a client. -/
structure Client.ReturnsReports : Prop where
  getInfo : ReturnsReported Client.getInfo ServerInfo.ReportedIn Eq
  getBucketList : Client.getBucketList.ReturnsReported BucketInfo.ReportedIn
  getTokenList : Client.getTokenList.ReturnsReported Token.ReportedIn
  getToken : ∀ name, ReturnsReported (Client.getToken name) FullTokenInfo.ReportedIn Eq
  me : ReturnsReported Client.me FullTokenInfo.ReportedIn Eq
  getReplicationList : Client.getReplicationList.ReturnsReported ReplicationInfo.ReportedIn
  getReplication : ∀ name, ReturnsReported (Client.getReplication name)
    FullReplicationInfo.ReportedIn FullReplicationInfo.Same
  getLifecycleList : Client.getLifecycleList.ReturnsReported LifecycleInfo.ReportedIn
  getLifecycle : ∀ name, ReturnsReported (Client.getLifecycle name)
    FullLifecycleInfo.ReportedIn FullLifecycleInfo.Same

theorem Bucket.returnsReports (b : Bucket) : b.ReturnsReports where
  getSettings := b.getSettings_reported
  getInfo := b.getInfo_reported
  getEntryList := Listing.get_reported (fun _ => rfl) fun _ _ => EntryInfo.ReportedIn.reads

theorem Client.returnsReports : Client.ReturnsReports where
  getInfo := Client.fetch_reported_eq fun _ _ => ServerInfo.ReportedIn.reads
  getBucketList := Listing.get_reported (fun _ => rfl) fun _ _ => BucketInfo.ReportedIn.reads
  getTokenList := Listing.get_reported (fun _ => rfl) fun _ _ => Token.ReportedIn.reads
  getToken _ := Client.getToken_reported
  me := Client.getToken_reported
  getReplicationList :=
    Listing.get_reported (fun _ => rfl) fun _ _ => ReplicationInfo.ReportedIn.reads
  getReplication _ := Client.fetch_reported fun _ _ => FullReplicationInfo.ReportedIn.reads
  getLifecycleList := Listing.get_reported (fun _ => rfl) fun _ _ => LifecycleInfo.ReportedIn.reads
  getLifecycle _ := Client.fetch_reported fun _ _ => FullLifecycleInfo.ReportedIn.reads

/-- Whatever the server reports is what the methods return, in any session and after any
other calls, and a response that is not accepted is an error of theirs. -/
theorem reportsReturned : Client.ReturnsReports ∧ ∀ b : Bucket, b.ReturnsReports :=
  ⟨Client.returnsReports, Bucket.returnsReports⟩

/-- A server with a license and a quota for its buckets. -/
def licensedServer : ServerInfo where
  version := bytes "1.19.0"
  bucketCount := 2
  usage := 4096
  uptime := 60
  oldestRecord := .wrap 1000
  latestRecord := .wrap 2000000
  license := some ⟨bytes "Company", bytes "---", .wrap 1728654330500000000, bytes "PRO", 3, 0,
    bytes "abc"⟩
  defaults := ⟨none, some .kFifo, some 1024, none⟩

/-- Its report. -/
def licensedReport : Json :=
  .obj [(bytes "bucket_count", .int 2),
    (bytes "defaults", .obj [(bytes "bucket", .obj [(bytes "quota_size", .int 1024),
      (bytes "quota_type", .str (bytes "FIFO"))])]),
    (bytes "latest_record", .int 2000),
    (bytes "license", .obj [(bytes "device_number", .int 3), (bytes "disk_quota", .int 0),
      (bytes "expiry_date", .str (bytes "2024-10-11T13:45:30.5Z")),
      (bytes "fingerprint", .str (bytes "abc")), (bytes "invoice", .str (bytes "---")),
      (bytes "licensee", .str (bytes "Company")), (bytes "plan", .str (bytes "PRO"))]),
    (bytes "oldest_record", .int 1),
    (bytes "uptime", .int 60),
    (bytes "usage", .int 4096),
    (bytes "version", .str (bytes "1.19.0"))]

theorem reportedIn_licensedReport : licensedServer.ReportedIn licensedReport where
  version := rfl
  bucketCount := ⟨_, rfl, rfl, by decide⟩
  usage := ⟨_, rfl, rfl, by decide⟩
  uptime := ⟨60, rfl, by decide, rfl⟩
  oldestRecord := ⟨_, rfl, 1, rfl, by decide⟩
  latestRecord := ⟨_, rfl, 2000, rfl, by decide⟩
  license := ⟨_, rfl,
    { licensee := rfl
      invoice := rfl
      expiryDate := by
        refine ⟨_, rfl, _, ⟨2024, 10, 11, 13, 45, 30⟩, 500000, rfl, ?_, by decide, by decide⟩
        exact ⟨⟨by decide, by decide, by decide, by decide, by decide⟩, by decide, 0x5A, rfl,
          .inr ⟨[5], by decide, by decide, rfl, by decide⟩⟩
      plan := rfl
      deviceNumber := ⟨_, rfl, rfl, by decide⟩
      diskQuota := ⟨_, rfl, rfl, by decide⟩
      fingerprint := rfl }⟩
  defaults := ⟨_, rfl, _, rfl,
    { maxBlockSize := rfl
      quotaType := rfl
      quotaSize := ⟨_, rfl, rfl, by decide⟩
      maxBlockRecords := rfl }⟩

/-- The reply to the first request of a new client. -/
theorem reportsReturned_licensedServer :
    (Client.getInfo.run
      (fun _ => .response .ok [(bytes "x-reduct-api", bytes "1.19")] (.of licensedReport))
      ⟨none, []⟩).2 = .ok ⟨some licensedServer, .kOk⟩ := by
  obtain ⟨info, hrun, rfl⟩ := reportsReturned.1.getInfo.reported
    (fun _ => .response .ok [(bytes "x-reduct-api", bytes "1.19")] (.of licensedReport)) ⟨none, []⟩
    licensedServer licensedReport ⟨by decide, rfl⟩ reportedIn_licensedReport
  exact hrun

end Reduct
