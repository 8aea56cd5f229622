-- SUMMARY: What `CreateToken` posts is read back in the description of the token, with the time of expiry to the second.
import ReductClient.Client.Listings
import ReductClient.Cxx.CalendarDays

open Cxx

namespace Reduct

/-! ## Dates of the clock -/

/-- A number of four digits is printed with these. -/
theorem decimal_eq_fourDigits {n : Nat} (hl : 1000 ≤ n) (hu : n ≤ 9999) :
    decimal n = fourDigits n := by
  have hdigits : Nat.digits 10 n = [n % 10, n / 10 % 10, n / 100 % 10, n / 1000] := by
    rw [Nat.digits_def' (by decide) (by omega), Nat.digits_def' (by decide) (by omega),
      Nat.digits_def' (by decide) (by omega), Nat.digits_of_lt 10 _ (by omega) (by omega)]
    simp only [Nat.div_div_eq_div_mul]
  have hne : n ≠ 0 := by omega
  have htens : n / 100 / 10 = n / 1000 := by omega
  have hunits : n % 100 / 10 = n / 10 % 10 ∧ n % 100 % 10 = n % 10 := by omega
  rw [decimal, hdigits, fourDigits, twoDigits, twoDigits, htens, hunits.1, hunits.2]
  simp [hne]

/-- The seconds of a time. -/
theorem toSeconds_range (t : Time) :
    -9223372036 ≤ toSeconds t ∧ toSeconds t ≤ 9223372036 ∧
      -2 ^ 63 ≤ toSeconds t * 1000000000 ∧ toSeconds t * 1000000000 < 2 ^ 63 := by
  have hl := t.lower
  have hu := t.upper
  unfold toSeconds
  rcases Int.le_total 0 t.ns with hns | hns
  · rw [Int.tdiv_eq_ediv_of_nonneg hns]
    omega
  · have hneg : t.ns.tdiv 1000000000 = -((-t.ns).tdiv 1000000000) := by
      rw [Int.neg_tdiv, Int.neg_neg]
    rw [hneg, Int.tdiv_eq_ediv_of_nonneg (by omega)]
    omega

/-- The dates of the clock have years of four digits. -/
theorem year_range (t : Time) :
    1000 ≤ (gmtime (toSeconds t)).year ∧ (gmtime (toSeconds t)).year ≤ 9999 := by
  obtain ⟨hl, hu, -, -⟩ := toSeconds_range t
  generalize toSeconds t = seconds at *
  have hera : 4 ≤ (seconds / 86400 + 719468) / 146097 ∧
      (seconds / 86400 + 719468) / 146097 ≤ 5 := by omega
  have hdayOfEra : ((seconds / 86400 + 719468) % 146097).toNat < 146097 := by omega
  rw [gmtime, civilDate]
  dsimp only
  generalize ((seconds / 86400 + 719468) % 146097).toNat = dayOfEra at *
  generalize (seconds / 86400 + 719468) / 146097 = era at *
  split_ifs <;> omega

/-! ## Reading back -/

/-- What `ToIso8601Utc` writes is a timestamp. -/
theorem isTimestamp_toIso8601Utc (t : Time) :
    IsTimestamp (toIso8601Utc t) (gmtime (toSeconds t)) 0 := by
  obtain ⟨hl, hu⟩ := year_range t
  have hvalid := (gmtime_spec (toSeconds t)).1
  refine ⟨hvalid, by omega, 0x5A, by decide, .inl ⟨?_, rfl⟩⟩
  have hyear : decimalSigned (gmtime (toSeconds t)).year =
      fourDigits (gmtime (toSeconds t)).year.toNat := by
    rw [decimalSigned, if_neg (by omega), decimal_eq_fourDigits (by omega) (by omega)]
  rw [toIso8601Utc, formatIso8601, hyear, dateTimeText]
  simp only [List.append_assoc, List.cons_append]
  rfl

/-- A time without its part of a second, counted towards the epoch. -/
def wholeSeconds (t : Time) : Time where
  ns := toSeconds t * 1000000000
  lower := (toSeconds_range t).2.2.1
  upper := (toSeconds_range t).2.2.2

theorem fromTimeT_toSeconds (t : Time) : fromTimeT (toSeconds t) = wholeSeconds t :=
  Time.ext (Time.wrap_ns (wholeSeconds t).lower (wholeSeconds t).upper)

/-- A time that is written is read back as its second. The last second before the epoch
is not read back. -/
theorem parse_toIso8601Utc (t : Time) :
    parseIso8601Utc (toIso8601Utc t) =
      if toSeconds t = -1 then .error (bytes "Invalid time value: 1969-12-31T23:59:59Z")
      else .ok (wholeSeconds t) := by
  have hseconds := (gmtime_spec (toSeconds t)).2
  rw [parse_of_reads (isTimestamp_toIso8601Utc t).reads, timestampNs, hseconds,
    ← fromTimeT_toSeconds, fromTimeT, Int.natCast_zero, Int.zero_mul, Int.add_zero]
  by_cases hlast : toSeconds t = -1
  · rw [if_pos hlast, if_pos hlast, toIso8601Utc, hlast]
    rfl
  · rw [if_neg hlast, if_neg hlast]

/-! ## Tokens -/

/-- The members of the payload. -/
def TokenCreateRequest.fields (request : TokenCreateRequest) : List (Bytes × Option Json) :=
  [(bytes "permissions", some (JsonKind.sorted.build request.permissions.members)),
    (bytes "expires_at", request.expiresAt.map fun t => .str (toIso8601Utc t)),
    (bytes "ttl", request.ttl.map jsonNat),
    (bytes "ip_allowlist", some (.strings request.ipAllowlist))]

theorem TokenCreateRequest.payload_eq (request : TokenCreateRequest) :
    request.payload = JsonKind.sorted.build (writtenMembers request.fields) := by
  obtain ⟨permissions, expiresAt, ttl, ipAllowlist⟩ := request
  cases expiresAt <;> cases ttl <;> rfl

/-- The permissions of a token are those it holds. -/
theorem Permissions.HeldBy.ofJson {p : Permissions} {holder : Json} (h : p.HeldBy holder) :
    Permissions.ofJson holder = .ok p := by
  rw [Permissions.ofJson, memberAt_of_member? h.fullAccess, memberAt_of_member? h.read,
    memberAt_of_member? h.write, Json.getStrings_strings, Json.getStrings_strings]
  rfl

/-- A server describes a new token by what it was created with. What is not set may be
left out or not. -/
structure TokenCreateRequest.StoredAs (request : TokenCreateRequest) (name : Bytes)
    (createdAt : Time) (token : Json) : Prop where
  isObject : ∃ members, token = .obj members
  name : token.member? (bytes "name") = some (.str name)
  createdAt : memberAt token (bytes "created_at") readIso8601 = .ok createdAt
  payload : ∀ field ∈ request.fields, token.member? field.1 = request.payload.member? field.1
  lastAccess : token.member? (bytes "last_access") = none ∨
    token.member? (bytes "last_access") = some .null
  flags : ∀ key ∈ [bytes "is_provisioned", bytes "is_expired"],
    token.member? key = none ∨ token.member? key = some (.bool false)

/-- The information on a new token. -/
def TokenCreateRequest.info (request : TokenCreateRequest) (name : Bytes) (createdAt : Time) :
    FullTokenInfo :=
  ⟨⟨name, createdAt, false, request.expiresAt.map wholeSeconds, request.ttl, none,
    request.ipAllowlist, false⟩, request.permissions⟩

section

variable {request : TokenCreateRequest} {name : Bytes} {createdAt : Time} {token : Json}

/-- The members of the payload are found in the description. -/
theorem TokenCreateRequest.StoredAs.members (h : request.StoredAs name createdAt token) :
    token.member? (bytes "permissions") =
      some (JsonKind.sorted.build request.permissions.members) ∧
    token.member? (bytes "expires_at") =
      request.expiresAt.map (fun t => .str (toIso8601Utc t)) ∧
    token.member? (bytes "ttl") = request.ttl.map jsonNat ∧
    token.member? (bytes "ip_allowlist") = some (.strings request.ipAllowlist) := by
  have hkeys : (request.fields.map Prod.fst).Nodup := by
    change [bytes "permissions", bytes "expires_at", bytes "ttl", bytes "ip_allowlist"].Nodup
    decide
  have hmember : ∀ field ∈ request.fields, token.member? field.1 = field.2 := by
    intro field hfield
    rw [h.payload field hfield, request.payload_eq,
      member?_writtenMembers .sorted hkeys field hfield]
  exact ⟨hmember _ (.head _), hmember _ (.tail _ (.head _)),
    hmember _ (.tail _ (.tail _ (.head _))), hmember _ (.tail _ (.tail _ (.tail _ (.head _))))⟩

/-- A flag that is not set. -/
theorem memberValue_notSet {members : List (Bytes × Json)} {key : Bytes}
    (h : (Json.obj members).member? key = none ∨
      (Json.obj members).member? key = some (.bool false)) :
    memberValue (.obj members) key Json.getBool false = .ok false := by
  rw [memberValue]
  rcases h with h | h
  · rw [memberOr_of_none h]
  · rw [memberOr_of_member? h]
    rfl

/-- A new token has not been used. -/
theorem TokenCreateRequest.StoredAs.neverAccessed (h : request.StoredAs name createdAt token) :
    nonNullMember token (bytes "last_access") readIso8601 = .ok none := by
  rw [nonNullMember]
  rcases h.lastAccess with h | h
  · rw [memberOr_of_none h]
  · rw [memberOr_of_member? h]

/-- The time of expiry in the description, to the second. -/
theorem TokenCreateRequest.StoredAs.expiresAt (h : request.StoredAs name createdAt token) :
    nonNullMember token (bytes "expires_at") readIso8601 =
      if request.expiresAt.map toSeconds = some (-1) then
        .error (bytes "Invalid time value: 1969-12-31T23:59:59Z")
      else .ok (request.expiresAt.map wholeSeconds) := by
  have hmember := h.members.2.1
  cases hexpires : request.expiresAt with
  | none =>
    rw [hexpires] at hmember
    rw [nonNullMember, memberOr_of_none hmember]
    rfl
  | some t =>
    rw [hexpires] at hmember
    rw [nonNullMember, memberOr_of_member? hmember]
    simp only [readIso8601, Json.getString, Fallible.ok_bind, parse_toIso8601Utc]
    by_cases hlast : toSeconds t = -1
    · rw [if_pos hlast, if_pos (by rw [Option.map_some, hlast])]
      rfl
    · rw [if_neg hlast, if_neg (by simpa using hlast)]
      rfl

/-- The description of a new token is read as what the token was created with, with the
time of expiry to the second. The last second before the epoch cannot be read. -/
theorem parseTokenInfo_storedAs (httl : ∀ n ∈ request.ttl, n < 2 ^ 64)
    (h : request.StoredAs name createdAt token) :
    parseTokenInfo token =
      if request.expiresAt.map toSeconds = some (-1) then
        .error (bytes "Invalid time value: 1969-12-31T23:59:59Z")
      else .ok (request.info name createdAt) := by
  obtain ⟨members, rfl⟩ := h.isObject
  obtain ⟨hpermissions, -, hwritten, hallowlist⟩ := h.members
  have hread : nonNullMember (.obj members) (bytes "ttl") Json.getUInt64 = .ok request.ttl :=
    nonNullMember_written hwritten (fun n hn => Json.getUInt64_int (httl n hn))
      fun n _ hnull => by cases hnull
  have hlist : memberValue (.obj members) (bytes "ip_allowlist") Json.getStrings [] =
      .ok request.ipAllowlist := by
    rw [memberValue, memberOr_of_member? hallowlist, Json.getStrings_strings]
  rw [parseTokenInfo, Token.ofJson, h.createdAt, h.expiresAt, Fallible.ok_bind]
  by_cases hlast : request.expiresAt.map toSeconds = some (-1)
  · rw [if_pos hlast, if_pos hlast]
    rfl
  · rw [if_neg hlast, if_neg hlast, hread, h.neverAccessed, memberAt_of_member? h.name,
      memberValue_notSet (h.flags _ (.head _)), memberValue_notSet (h.flags _ (.tail _ (.head _))),
      hlist, memberAt_of_member? hpermissions, request.permissions.heldBy_build.ofJson]
    rfl

end

/-- A token that expires half a second after a whole one. -/
def expiringRequest : TokenCreateRequest where
  permissions := ⟨false, [bytes "sensors"], []⟩
  expiresAt := some ⟨1728654330500000000, by decide, by decide⟩
  ttl := some 60

def expiringToken : Json :=
  .obj [(bytes "created_at", .str (bytes "2024-10-11T13:45:30.5Z")),
    (bytes "expires_at", .str (bytes "2024-10-11T13:45:30Z")),
    (bytes "ip_allowlist", .arr []),
    (bytes "is_expired", .bool false),
    (bytes "last_access", .null),
    (bytes "name", .str (bytes "reader")),
    (bytes "permissions", JsonKind.sorted.build expiringRequest.permissions.members),
    (bytes "ttl", .int 60)]

theorem storedAs_expiringToken : expiringRequest.StoredAs (bytes "reader")
    ⟨1728654330500000000, by decide, by decide⟩ expiringToken where
  isObject := ⟨_, rfl⟩
  name := rfl
  createdAt := rfl
  payload := List.forall_mem_cons.2 ⟨rfl, List.forall_mem_cons.2 ⟨rfl,
    List.forall_mem_cons.2 ⟨rfl, List.forall_mem_singleton.2 rfl⟩⟩⟩
  lastAccess := .inr rfl
  flags := List.forall_mem_cons.2 ⟨.inl rfl, List.forall_mem_singleton.2 (.inr rfl)⟩

theorem parseTokenInfo_expiringToken :
    parseTokenInfo expiringToken = .ok (expiringRequest.info (bytes "reader")
      ⟨1728654330500000000, by decide, by decide⟩) := by
  have httl : ∀ n ∈ expiringRequest.ttl, n < 2 ^ 64 := by
    rintro n ⟨⟩
    decide
  rw [parseTokenInfo_storedAs httl storedAs_expiringToken]
  exact if_neg (by decide)

end Reduct
