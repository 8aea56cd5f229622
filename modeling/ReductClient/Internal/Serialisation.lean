-- SUMMARY: The JSON of bucket settings, queries and query links, and what the parsers of responses do with a member.
import ReductClient.Base.Fallible
import ReductClient.Cxx.Json
import ReductClient.Bucket.Types

open Cxx

namespace Reduct

/-- `Error{.code = -1, .message = ex.what()}`. -/
def exceptionError (what : Bytes) : Error := ⟨-1, what⟩

/-! ## Writing members -/

/-- A member that is written if the option is set. -/
def optionalMember {α : Type} (key : Bytes) (value : Option α) (toJson : α → Json) :
    List (Bytes × Json) :=
  (value.map fun v => (key, toJson v)).toList

/-- It has the given name, if it is there. -/
theorem keys_optionalMember {α : Type} (key : Bytes) (value : Option α) (toJson : α → Json) :
    ((optionalMember key value toJson).map Prod.fst).Sublist [key] := by
  cases value with
  | none => exact List.nil_sublist _
  | some v => exact List.Sublist.refl _

/-- Members that are written if they are set, under different names. -/
def writtenMembers (fields : List (Bytes × Option Json)) : List (Bytes × Json) :=
  fields.filterMap fun field => field.2.map (field.1, ·)

/-- Each is found with what it is set to. -/
theorem member?_writtenMembers (kind : JsonKind) {fields : List (Bytes × Option Json)}
    (hnodup : (fields.map Prod.fst).Nodup) :
    ∀ field ∈ fields, (kind.build (writtenMembers fields)).member? field.1 = field.2 := by
  rintro ⟨key, value⟩ hfield
  have hwritten : ∀ m ∈ writtenMembers fields, m.1 = key → value = some m.2 := by
    intro m hm hkey
    obtain ⟨field, hmem, hmap⟩ := List.mem_filterMap.1 hm
    obtain ⟨v, hv, rfl⟩ := Option.map_eq_some_iff.1 hmap
    rw [← hv, List.inj_on_of_nodup_map hnodup hmem hfield hkey]
  cases value with
  | none =>
    refine kind.member?_build_of_not_mem fun hmem => ?_
    obtain ⟨m, hm, hkey⟩ := List.mem_map.1 hmem
    cases hwritten m hm hkey
  | some v =>
    refine kind.member?_build_of_mem (List.mem_filterMap.2 ⟨_, hfield, rfl⟩) fun m hm hkey => ?_
    exact (Option.some.inj (hwritten m hm hkey)).symm

/-! ## Reading members

What the parsers of responses do with a member. An exception is modelled by its message. -/

/-- `at(key)`, converted. -/
def memberAt {α : Type} (v : Json) (key : Bytes) (read : Json → Except Bytes α) :
    Except Bytes α := do
  let value ← v.at? key
  read value

/-- `contains(key) ? read(at(key)) : missing`. -/
def memberOr {α : Type} (v : Json) (key : Bytes) (read : Json → Except Bytes α) (missing : α) :
    Except Bytes α :=
  if v.contains key then memberAt v key read else .ok missing

/-- A member that is read if it is there. -/
def containedMember {α : Type} (v : Json) (key : Bytes) (read : Json → Except Bytes α) :
    Except Bytes (Option α) :=
  memberOr v key (fun value => (read value).map some) none

/-- A member that is read if it is there and not null. -/
def nonNullMember {α : Type} (v : Json) (key : Bytes) (read : Json → Except Bytes α) :
    Except Bytes (Option α) :=
  memberOr v key (fun value =>
    match value with
    | .null => .ok none
    | value => (read value).map some) none

/-- A value of an enumeration by its name. Null stands for the default. -/
def parseEnum {α : Type} (values : List α) (name : α → Bytes) (missing : α) (invalid : Bytes)
    (v : Json) : Except Bytes α :=
  match v with
  | .null => .ok missing
  | v => do
    let text ← v.getString
    match values.find? (name · = text) with
    | some value => .ok value
    | none => .error (invalid ++ text)

section

variable {α : Type} {v value : Json} {key : Bytes} {read : Json → Except Bytes α}

theorem memberAt_of_member? (h : v.member? key = some value) :
    memberAt v key read = read value := by
  rw [memberAt, Json.at?_of_member? h, Fallible.ok_bind]

theorem memberOr_of_member? (h : v.member? key = some value) (missing : α) :
    memberOr v key read missing = read value := by
  rw [memberOr, Json.contains, h, Option.isSome_some, if_pos rfl, memberAt_of_member? h]

theorem memberOr_of_none (h : v.member? key = none) (missing : α) :
    memberOr v key read missing = .ok missing := by
  rw [memberOr, Json.contains, h]
  rfl

/-- An option that has been written is read back. -/
theorem containedMember_written {option : Option α} {toJson : α → Json}
    (h : v.member? key = option.map toJson) (hread : ∀ a ∈ option, read (toJson a) = .ok a) :
    containedMember v key read = .ok option := by
  cases option with
  | none => exact memberOr_of_none h none
  | some a =>
    rw [containedMember, memberOr_of_member? h, hread a rfl]
    rfl

/-- So is one that is not written as null. -/
theorem nonNullMember_written {option : Option α} {toJson : α → Json}
    (h : v.member? key = option.map toJson) (hread : ∀ a ∈ option, read (toJson a) = .ok a)
    (hnull : ∀ a ∈ option, toJson a ≠ .null) : nonNullMember v key read = .ok option := by
  cases option with
  | none => exact memberOr_of_none h none
  | some a =>
    rw [nonNullMember, memberOr_of_member? h]
    split
    · rename_i heq
      exact absurd heq (hnull a rfl)
    · rw [hread a rfl]
      rfl

/-- A value that is left out as the default is read back. -/
theorem memberOr_written [DecidableEq α] {a missing : α} {toJson : α → Json}
    (h : v.member? key = if a ≠ missing then some (toJson a) else none)
    (hread : read (toJson a) = .ok a) : memberOr v key read missing = .ok a := by
  by_cases ha : a = missing
  · rw [if_neg (not_not_intro ha)] at h
    rw [memberOr_of_none h, ha]
  · rw [if_pos ha] at h
    rw [memberOr_of_member? h, hread]

/-- A name is read back. -/
theorem parseEnum_name {values : List α} {name : α → Bytes} {missing a : α} {invalid : Bytes}
    (hmem : a ∈ values) (hname : ∀ b ∈ values, name b = name a → b = a) :
    parseEnum values name missing invalid (.str (name a)) = .ok a := by
  have hfind : values.find? (name · = name a) = some a := by
    have hsome : (values.find? (name · = name a)).isSome := by
      rw [List.find?_isSome]
      exact ⟨a, hmem, by simp⟩
    obtain ⟨b, hb⟩ := Option.isSome_iff_exists.1 hsome
    have hsame := List.find?_some hb
    rw [decide_eq_true_eq] at hsame
    rw [hb, hname b (List.mem_of_find?_eq_some hb) hsame]
  simp only [parseEnum, Json.getString, Fallible.ok_bind, hfind]

end

/-- An unsigned number. -/
def jsonNat (n : Nat) : Json := .int n

/-! ## Bucket settings -/

/-- `IBucket::QuotaType`. -/
inductive QuotaType where
  | kNone
  | kFifo
  | kHard
  deriving DecidableEq

/-- The names in the `switch` of `BucketSettingToJsonString`. -/
def QuotaType.name : QuotaType → Bytes
  | .kNone => bytes "NONE"
  | .kFifo => bytes "FIFO"
  | .kHard => bytes "HARD"

/-- `IBucket::Settings`. -/
structure Settings where
  maxBlockSize : Option Nat := none
  quotaType : Option QuotaType := none
  quotaSize : Option Nat := none
  maxBlockRecords : Option Nat := none
  deriving DecidableEq

/-- `BucketSettingToJsonString`. -/
def bucketSettingToJsonString (settings : Settings) : Json :=
  JsonKind.sorted.build
    (optionalMember (bytes "max_block_size") settings.maxBlockSize jsonNat ++
      optionalMember (bytes "quota_type") settings.quotaType (fun t => .str t.name) ++
      optionalMember (bytes "quota_size") settings.quotaSize jsonNat ++
      optionalMember (bytes "max_block_records") settings.maxBlockRecords jsonNat)

/-- `ParseBucketSettings`. An unknown name of a quota type is passed over. -/
def parseBucketSettings (json : Json) : Except Error Settings :=
  let settings : Except Bytes Settings := do
    let maxBlockSize ← containedMember json (bytes "max_block_size") Json.getUInt64
    let quotaType :=
      match json.member? (bytes "quota_type") with
      | some (.str name) => [QuotaType.kNone, .kFifo, .kHard].find? fun t => t.name = name
      | _ => none
    let quotaSize ← containedMember json (bytes "quota_size") Json.getUInt64
    let maxBlockRecords ← containedMember json (bytes "max_block_records") Json.getUInt64
    pure ⟨maxBlockSize, quotaType, quotaSize, maxBlockRecords⟩
  settings.mapError exceptionError

/-! ## Queries -/

/-- `IBucket::QueryOptions`. The time to live is in milliseconds. The poll
interval, which only says how long the client sleeps, is left out. -/
structure QueryOptions where
  when : Option JsonText := none
  strict : Option Bool := none
  ext : Option JsonText := none
  ttl : Option Int := none
  continuous : Bool := false
  headOnly : Bool := false

/-- `ordered_json::parse` of an option, if it is set. -/
def parseOption (text : Option JsonText) : Except Error (Option Json) :=
  match text with
  | none => .ok none
  | some text => ((text.parse .ordered).map some).mapError exceptionError

/-- `QueryOptionsToJsonString`. -/
def queryOptionsToJsonString (type : Bytes) (entries : List Bytes) (start stop : Option Time)
    (options : QueryOptions) : Except Error Json := do
  let when ← parseOption options.when
  let ext ← parseOption options.ext
  pure (JsonKind.ordered.build
    ([(bytes "query_type", .str type), (bytes "entries", .strings entries)] ++
      optionalMember (bytes "start") start (fun t => .int (toMicroseconds t)) ++
      optionalMember (bytes "stop") stop (fun t => .int (toMicroseconds t)) ++
      optionalMember (bytes "ttl") options.ttl (fun ttl => .int (ttl.tdiv 1000)) ++
      (if options.continuous then [(bytes "continuous", .bool true)] else []) ++
      optionalMember (bytes "when") when id ++
      optionalMember (bytes "strict") options.strict .bool ++
      optionalMember (bytes "ext") ext id))

/-! ## Conditions of policies

Replications and lifecycles parse their condition to a `nlohmann::json`. -/

/-- `json::parse` of a condition, if it is set. -/
def parseWhen (text : Option JsonText) : Except Error (Option Json) :=
  match text with
  | none => .ok none
  | some text => ((text.parse .sorted).map some).mapError exceptionError

/-- `dump()` of a condition inside a `try` block. -/
def dumpWhen (v : Json) : Except Bytes JsonText :=
  match v.dump with
  | some text => .ok text
  | none => .error (bytes "[json.exception.type_error.316] invalid UTF-8 byte")

/-! ## Query links -/

/-- `IBucket::QueryLinkOptions`. -/
structure QueryLinkOptions where
  start : Option Time := none
  stop : Option Time := none
  queryOptions : QueryOptions := {}
  recordIndex : Nat := 0
  recordEntry : Option Bytes := none
  recordTimestamp : Option Time := none
  expireAt : Option Time := none
  fileName : Option Bytes := none
  baseUrl : Option Bytes := none

/-- `duration_cast<seconds>` of a time since the epoch. -/
def toSeconds (ts : Time) : Int := ts.ns.tdiv 1000000000

/-- `QueryLinkOptionsToJsonString`, called at the time `now`. On an empty list
`entries.at(0)` throws. -/
def queryLinkOptionsToJsonString (now : Time) (bucket : Bytes) (entries : List Bytes)
    (options : QueryLinkOptions) : Except Fault (Except Error Json) :=
  match entries with
  | [] => throw .outOfRange
  | entry :: _ => pure do
    let query ← queryOptionsToJsonString (bytes "QUERY") entries options.start options.stop
      options.queryOptions
    let expireAt := options.expireAt.getD (.wrap (now.ns + 24 * 3600 * 1000000000))
    pure (JsonKind.ordered.build
      ((bytes "bucket", .str bucket) ::
        ((if options.recordEntry.isNone ∧ options.recordTimestamp.isNone then
            [(bytes "index", jsonNat options.recordIndex)] else []) ++
          optionalMember (bytes "record_entry") options.recordEntry .str ++
          optionalMember (bytes "record_timestamp") options.recordTimestamp
            (fun t => .int (toMicroseconds t)) ++
          [(bytes "entry", .str entry), (bytes "query", query),
            (bytes "expire_at", .int (toSeconds expireAt))] ++
          optionalMember (bytes "file_name") options.fileName .str ++
          optionalMember (bytes "base_url") options.baseUrl .str)))

/-- The payload names the bucket it is given. -/
theorem bucket_of_queryLinkOptions {now : Time} {bucket : Bytes} {entries : List Bytes}
    {options : QueryLinkOptions} {payload : Json}
    (h : queryLinkOptionsToJsonString now bucket entries options = .ok (.ok payload)) :
    payload.member? (bytes "bucket") = some (.str bucket) := by
  cases entries with
  | nil => cases h
  | cons entry entries => ?_
  obtain ⟨query, -, hpayload⟩ := Fallible.bind_eq_ok.1 (Except.ok.inj h)
  cases hpayload
  have hindex : ((if options.recordEntry.isNone ∧ options.recordTimestamp.isNone then
      [(bytes "index", jsonNat options.recordIndex)] else []).map Prod.fst).Sublist
      [bytes "index"] := by
    split
    · exact List.Sublist.refl _
    · exact List.nil_sublist _
  -- the names of all members that the payload may have
  have hkeys : ([bytes "bucket", bytes "index", bytes "record_entry", bytes "record_timestamp",
      bytes "entry", bytes "query", bytes "expire_at", bytes "file_name", bytes "base_url"] :
      List Bytes).Nodup := by decide
  refine JsonKind.ordered.member?_build_of_nodup (hkeys.sublist ?_) List.mem_cons_self
  simp only [List.map_cons, List.map_append]
  exact .cons_cons _ (.append (.append (.append (.append (.append hindex
    (keys_optionalMember _ _ _)) (keys_optionalMember _ _ _)) (.refl _))
    (keys_optionalMember _ _ _)) (keys_optionalMember _ _ _))

end Reduct
