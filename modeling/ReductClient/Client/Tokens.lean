-- SUMMARY: `Client::CreateToken` against any answers of the server: the payloads it posts, and when a token is no broader than requested.
import ReductClient.Cxx.Calendar
import ReductClient.Internal.HttpSession
import ReductClient.Internal.Serialisation

open Cxx

namespace Reduct

/-! ## The request -/

/-- `IClient::Permissions`. -/
structure Permissions where
  fullAccess : Bool := false
  read : List Bytes := []
  write : List Bytes := []

/-- `IClient::TokenCreateRequest`. -/
structure TokenCreateRequest where
  permissions : Permissions := {}
  expiresAt : Option Time := none
  ttl : Option Nat := none
  ipAllowlist : List Bytes := []

/-- `ToIso8601Utc`. -/
def toIso8601Utc (time : Time) : Bytes := formatIso8601 (gmtime (toSeconds time))

/-- The three members for the permissions. -/
def Permissions.members (p : Permissions) : List (Bytes × Json) :=
  [(bytes "full_access", .bool p.fullAccess), (bytes "read", .strings p.read),
    (bytes "write", .strings p.write)]

/-- The payload for servers of version 1.19 and later. -/
def TokenCreateRequest.payload (request : TokenCreateRequest) : Json :=
  JsonKind.sorted.build
    ((bytes "permissions", JsonKind.sorted.build request.permissions.members) ::
      (optionalMember (bytes "expires_at") request.expiresAt (fun t => .str (toIso8601Utc t)) ++
        optionalMember (bytes "ttl") request.ttl jsonNat ++
        [(bytes "ip_allowlist", .strings request.ipAllowlist)]))

/-- The payload for older servers. -/
def TokenCreateRequest.legacyPayload (request : TokenCreateRequest) : Json :=
  JsonKind.sorted.build request.permissions.members

/-! ## Creating a token -/

namespace Client

/-- The version of the server, which is asked for if the client does not know it. -/
def negotiateVersion : Http (Except Error (Option Bytes)) := do
  match ← Http.apiVersion with
  | some version => pure (.ok (some version))
  | none =>
    let info ← Http.get (bytes "/info")
    if info.error.isError then pure (.error info.error)
    else
      let version ← Http.apiVersion
      pure (.ok version)

/-- `api_version && IsCompatible("1.19", *api_version)`. -/
def supportsTokenV2 (version : Option Bytes) : Except Fault Bool :=
  match version with
  | none => pure false
  | some version => isCompatible (bytes "1.19") version

/-- The token in the response of the server. -/
def tokenValue (body : JsonText) : Result Bytes :=
  let value := do
    let data ← body.parse .sorted
    let value ← data.at? (bytes "value")
    value.getString
  match value with
  | .ok value => ⟨value, .kOk⟩
  | .error what => ⟨[], exceptionError what⟩

def tokenPath (name : Bytes) : Bytes := bytes "/tokens/" ++ name

/-- `dump` a payload and post it. -/
def postToken (name : Bytes) (payload : Json) : Http (Result JsonText) := do
  let text ← Http.dump payload
  Http.postWithResponse (tokenPath name) text

/-- The requests of `CreateToken` once the version is known. -/
def postRequest (name : Bytes) (request : TokenCreateRequest) (supportsV2 : Bool) :
    Http (Result JsonText) := do
  let resp ← postToken name (if supportsV2 then request.payload else request.legacyPayload)
  -- `std::move` has left the permissions as they are: JSON copies a vector of strings
  if resp.error.isError && supportsV2 && resp.error.code == 422 then
    postToken name request.legacyPayload
  else pure resp

/-- `CreateToken` once the version is known. -/
def createWithVersion (name : Bytes) (request : TokenCreateRequest) (version : Option Bytes) :
    Http (Result Bytes) := do
  let supportsV2 ← Dialogue.ofExcept (uncaught (supportsTokenV2 version))
  let resp ← postRequest name request supportsV2
  if resp.error.isError then pure ⟨[], resp.error⟩ else pure (tokenValue resp.result)

/-- `CreateToken`. -/
def createToken (name : Bytes) (request : TokenCreateRequest) : Http (Result Bytes) := do
  match ← negotiateVersion with
  | .error err => pure ⟨[], err⟩
  | .ok version => createWithVersion name request version

end Client

/-! ## What a payload carries -/

/-- The value has the requested permissions as its members. -/
structure Permissions.HeldBy (p : Permissions) (holder : Json) : Prop where
  fullAccess : holder.member? (bytes "full_access") = some (.bool p.fullAccess)
  read : holder.member? (bytes "read") = some (.strings p.read)
  write : holder.member? (bytes "write") = some (.strings p.write)

/-- The payload carries the permissions, in one of the two places a server looks
for them, and every restriction that is set. -/
structure TokenCreateRequest.CarriedBy (request : TokenCreateRequest) (payload : Json) : Prop where
  permissions : request.permissions.HeldBy payload ∨
    ∃ holder, payload.member? (bytes "permissions") = some holder ∧
      request.permissions.HeldBy holder
  expiresAt : ∀ t, request.expiresAt = some t →
    payload.member? (bytes "expires_at") = some (.str (toIso8601Utc t))
  ttl : ∀ ttl, request.ttl = some ttl → payload.member? (bytes "ttl") = some (jsonNat ttl)
  ipAllowlist : request.ipAllowlist ≠ [] →
    payload.member? (bytes "ip_allowlist") = some (.strings request.ipAllowlist)

/-- The request sets a restriction. -/
def TokenCreateRequest.Restricted (request : TokenCreateRequest) : Prop :=
  request.expiresAt ≠ none ∨ request.ttl ≠ none ∨ request.ipAllowlist ≠ []

theorem Permissions.heldBy_build (p : Permissions) :
    p.HeldBy (JsonKind.sorted.build p.members) := by
  have hkeys : (p.members.map Prod.fst).Nodup := by
    change [bytes "full_access", bytes "read", bytes "write"].Nodup
    decide
  exact ⟨JsonKind.sorted.member?_build_of_nodup hkeys (by simp [members]),
    JsonKind.sorted.member?_build_of_nodup hkeys (by simp [members]),
    JsonKind.sorted.member?_build_of_nodup hkeys (by simp [members])⟩

/-- The payload for servers of version 1.19 carries all that is requested. -/
theorem TokenCreateRequest.carriedBy_payload (request : TokenCreateRequest) :
    request.CarriedBy request.payload := by
  have hkeys : [bytes "permissions", bytes "expires_at", bytes "ttl", bytes "ip_allowlist"].Nodup :=
    by decide
  have hmember : ∀ {key value}, (key, value) ∈ _ → request.payload.member? key = some value :=
    JsonKind.sorted.member?_build_of_nodup (hkeys.sublist (.cons_cons _
      (by
        rw [List.map_append, List.map_append]
        exact .append (.append (keys_optionalMember _ _ _) (keys_optionalMember _ _ _)) (.refl _))))
  refine ⟨.inr ⟨_, hmember List.mem_cons_self, request.permissions.heldBy_build⟩,
    fun t ht => hmember ?_, fun ttl httl => hmember ?_, fun _ => hmember ?_⟩
  · simp [optionalMember, ht]
  · simp [optionalMember, httl]
  · simp

/-- The payload for older servers has no place for a restriction. -/
theorem TokenCreateRequest.carriedBy_legacyPayload_iff (request : TokenCreateRequest) :
    request.CarriedBy request.legacyPayload ↔ ¬ request.Restricted := by
  have hmissing : ∀ {key}, key ∉ [bytes "full_access", bytes "read", bytes "write"] →
      request.legacyPayload.member? key = none := fun h =>
    JsonKind.sorted.member?_build_of_not_mem h
  constructor
  · rintro h (hrestricted | hrestricted | hrestricted)
    · obtain ⟨t, ht⟩ := Option.ne_none_iff_exists'.1 hrestricted
      exact absurd ((hmissing (by decide)).symm.trans (h.expiresAt t ht)) (by simp)
    · obtain ⟨ttl, httl⟩ := Option.ne_none_iff_exists'.1 hrestricted
      exact absurd ((hmissing (by decide)).symm.trans (h.ttl ttl httl)) (by simp)
    · exact absurd ((hmissing (by decide)).symm.trans (h.ipAllowlist hrestricted)) (by simp)
  · intro h
    simp only [Restricted, not_or, not_not] at h
    obtain ⟨hexpires, httl, hip⟩ := h
    exact ⟨.inl request.permissions.heldBy_build, fun t ht => by simp [hexpires] at ht,
      fun ttl ht => by simp [httl] at ht, fun hne => absurd hip hne⟩

/-! ## What is posted -/

namespace Client

variable {replies : Nat → HttpReply} {s : HttpSession} {name : Bytes}

/-- The request that posts a payload. -/
def tokenRequest (name : Bytes) (payload : Json) : ClientRequest :=
  .post (tokenPath name) (.of payload)

/-- The payloads that `postRequest` sends with the replies to them, where the first
of them gets the reply `n`. -/
def postedTokens (request : TokenCreateRequest) (supportsV2 : Bool) (replies : Nat → HttpReply)
    (n : Nat) : List (Json × HttpReply) :=
  if supportsV2 then
    if request.payload.isUtf8 then
      (request.payload, replies n) ::
        (if (replies n).status? = some 422 ∧ request.legacyPayload.isUtf8 then
          [(request.legacyPayload, replies (n + 1))] else [])
    else []
  else if request.legacyPayload.isUtf8 then [(request.legacyPayload, replies n)] else []

/-- The exchanges of the posts. -/
def exchanges (name : Bytes) (posted : List (Json × HttpReply)) :
    List (ClientRequest × HttpReply) :=
  posted.map fun p => (tokenRequest name p.1, p.2)

theorem run_postToken_bind {α : Type} {payload : Json} (h : payload.isUtf8 = true)
    (f : Result JsonText → Http α) :
    Http.run replies (postToken name payload >>= f) s =
      Http.run replies (.ask (tokenRequest name payload) fun resp =>
        f ⟨resp.result.body, if resp.error.isError then resp.error else .kOk⟩) s := by
  rw [postToken, Http.dump, Json.dump, if_pos h]
  rfl

theorem run_postToken_bind_dump {α : Type} {payload : Json} (h : ¬ payload.isUtf8 = true)
    (f : Result JsonText → Http α) :
    Http.run replies (postToken name payload >>= f) s = (s, .error .dump) := by
  rw [postToken, Http.dump, Json.dump, if_neg h]
  rfl

/-- A single post makes one exchange, if its payload can be dumped, and ends without
an error only if the response has status 200. -/
theorem run_postToken (payload : Json) :
    (Http.run replies (postToken name payload) s).1.log = s.log ++ exchanges name
      (if payload.isUtf8 then [(payload, replies s.log.length)] else []) ∧
    ∀ resp, (Http.run replies (postToken name payload) s).2 = .ok resp →
      payload.isUtf8 = true ∧
        (resp.error.isError = false → (replies s.log.length).status? = some 200) := by
  rw [← Dialogue.bind_pure (postToken name payload)]
  by_cases h : payload.isUtf8 = true
  · rw [run_postToken_bind h, Http.run, if_pos h]
    cases hreceive : receive s.state (replies s.log.length) with
    | error e =>
      rw [Dialogue.run_ask_error hreceive]
      exact ⟨rfl, fun _ hresp => by cases hresp⟩
    | ok r =>
      have hstatus := (receive_status hreceive).1
      rw [Dialogue.run_ask_ok hreceive]
      refine ⟨rfl, fun resp hresp => ⟨h, fun herr => hstatus ?_⟩⟩
      cases hresp
      exact (Http.isError_passedOn _).symm.trans herr
  · rw [run_postToken_bind_dump h, if_neg h]
    exact ⟨(List.append_nil _).symm, fun _ hresp => by cases hresp⟩

/-- A response with status 422 is received, as an error. -/
theorem receive_unprocessable {version : Option Bytes} {reply : HttpReply}
    (h : reply.status? = some 422) :
    ∃ resp, receive version reply = .ok (resp, version) ∧
      (resp.error.isError && resp.error.code == 422) = true := by
  obtain ⟨err, hcheck, herr, hcode⟩ := @checkRequest_of_ne version reply (by simp [h])
  exact ⟨_, receive_eq hcheck, by simp [herr, hcode.2 h]⟩

/-- The exchanges of `postRequest`. It ends without an error only if one of the posts
is answered with status 200. -/
theorem run_postRequest (request : TokenCreateRequest) (supportsV2 : Bool) :
    (Http.run replies (postRequest name request supportsV2) s).1.log = s.log ++
      exchanges name (postedTokens request supportsV2 replies s.log.length) ∧
    ∀ resp, (Http.run replies (postRequest name request supportsV2) s).2 = .ok resp →
      resp.error.isError = false →
        ∃ p ∈ postedTokens request supportsV2 replies s.log.length, p.2.status? = some 200 := by
  cases supportsV2 with
  | false =>
    have hpost : postRequest name request false = postToken name request.legacyPayload := by
      rw [← Dialogue.bind_pure (postToken name request.legacyPayload), postRequest]
      simp only [Bool.and_false, Bool.false_and, Bool.false_eq_true, if_false]
    obtain ⟨hlog, hresult⟩ := @run_postToken replies s name request.legacyPayload
    rw [hpost]
    refine ⟨hlog, fun resp hresp herr => ?_⟩
    obtain ⟨hutf8, hstatus⟩ := hresult resp hresp
    exact ⟨(request.legacyPayload, replies s.log.length), by simp [postedTokens, hutf8],
      hstatus herr⟩
  | true =>
    rw [postRequest, if_pos rfl, postedTokens, if_pos rfl]
    by_cases hutf8 : request.payload.isUtf8 = true
    · rw [run_postToken_bind hutf8, if_pos hutf8, Http.run]
      cases hreceive : receive s.state (replies s.log.length) with
      | error e =>
        have hno : ¬ ((replies s.log.length).status? = some 422 ∧
            request.legacyPayload.isUtf8 = true) := by
          rintro ⟨h422, -⟩
          obtain ⟨resp, hresp, -⟩ := @receive_unprocessable s.state _ h422
          cases hreceive.symm.trans hresp
        rw [Dialogue.run_ask_error hreceive, if_neg hno]
        exact ⟨rfl, fun _ hresp => by cases hresp⟩
      | ok r =>
        rw [Dialogue.run_ask_ok hreceive]
        by_cases h422 : (replies s.log.length).status? = some 422
        · -- the server rejects the payload, and gets the one for older servers
          obtain ⟨resp, hresp, hcode⟩ := @receive_unprocessable s.state _ h422
          cases hreceive.symm.trans hresp
          rw [Bool.and_eq_true] at hcode
          rw [if_pos hcode.1, if_pos (by simp [hcode.1, hcode.2])]
          obtain ⟨hlog, hresult⟩ := @run_postToken replies
            (s.exchange (tokenRequest name request.payload) (replies s.log.length) s.state) name
            request.legacyPayload
          rw [Http.run] at hlog hresult
          simp only [Session.exchange_log, List.length_append, List.length_singleton] at hlog hresult
          constructor
          · rw [hlog, List.append_assoc]
            by_cases hlegacy : request.legacyPayload.isUtf8 = true
            · rw [if_pos hlegacy, if_pos ⟨h422, hlegacy⟩]
              rfl
            · rw [if_neg hlegacy, if_neg fun h => hlegacy h.2]
              rfl
          · intro resp hresp herr
            obtain ⟨hlegacy, hstatus⟩ := hresult resp hresp
            rw [if_pos ⟨h422, hlegacy⟩]
            exact ⟨_, List.mem_cons_of_mem _ List.mem_cons_self, hstatus herr⟩
        · have hcode : ¬ r.1.error.code = 422 := fun hcode =>
            h422 ((receive_status hreceive).2.1 hcode)
          rw [if_neg fun h : _ ∧ _ => h422 h.1, if_neg]
          · refine ⟨rfl, fun resp hresp herr => ⟨_, List.mem_cons_self, ?_⟩⟩
            cases hresp
            exact (receive_status hreceive).1 ((Http.isError_passedOn _).symm.trans herr)
          · rw [Bool.and_true, Http.isError_passedOn, Bool.and_eq_true]
            rintro ⟨herr, h422⟩
            rw [if_pos herr] at h422
            exact hcode (beq_iff_eq.1 h422)
    · rw [run_postToken_bind_dump hutf8, if_neg hutf8]
      exact ⟨(List.append_nil _).symm, fun _ hresp => by cases hresp⟩

/-! ## What is negotiated -/

/-- The server and the client come to a version in `n` requests. It may remain
unknown, since a response need not carry it. -/
def Negotiated (version : Option Bytes) (replies : Nat → HttpReply) (n : Nat)
    (negotiated : Option Bytes) : Prop :=
  match version with
  | some version => n = 0 ∧ negotiated = some version
  | none => n = 1 ∧ ∃ resp, receive none (replies 0) = .ok (resp, negotiated) ∧
      resp.error.isError = false

/-- No payload is among the exchanges. -/
def NothingPosted (log : List (ClientRequest × HttpReply)) : Prop :=
  ∀ x ∈ log, ∀ path body, x.1 ≠ .post path body

/-- The negotiation comes to a version, or the call ends with it. -/
theorem run_negotiateVersion (version : Option Bytes) (replies : Nat → HttpReply) :
    ∃ s result, Http.run replies negotiateVersion ⟨version, []⟩ = (s, result) ∧
      NothingPosted s.log ∧ (∀ err, result = .ok (.error err) → err.isError = true) ∧
      ∀ n negotiated, Negotiated version replies n negotiated ↔
        n = s.log.length ∧ result = .ok (.ok negotiated) := by
  cases version with
  | some version =>
    refine ⟨⟨some version, []⟩, .ok (.ok (some version)), rfl, by simp [NothingPosted], nofun,
      fun n negotiated => ?_⟩
    rw [Negotiated, Except.ok.injEq, Except.ok.injEq, eq_comm (a := some version)]
    rfl
  | none =>
    have hget : ∀ state, NothingPosted
        [(.get (bytes "/info") .empty, replies ((⟨state, []⟩ : HttpSession).log.length))] := by
      intro state x hx path body
      rw [List.mem_singleton.1 hx]
      exact ClientRequest.noConfusion
    have hrun : Http.run replies negotiateVersion ⟨none, []⟩ =
        Http.run replies (.ask (.get (bytes "/info") .empty) fun resp =>
          let err := if resp.error.isError then resp.error else .kOk
          if err.isError then .done (.error err) else .look fun version => .done (.ok version))
          ⟨none, []⟩ := rfl
    rw [hrun, Http.run]
    cases hreceive : receive none (replies 0) with
    | error e =>
      rw [Dialogue.run_ask_error hreceive]
      refine ⟨_, _, rfl, hget none, nofun, fun n negotiated => ?_⟩
      constructor
      · rintro ⟨-, resp, hresp, -⟩
        cases hreceive.symm.trans hresp
      · rintro ⟨-, ⟨⟩⟩
    | ok r =>
      rw [Dialogue.run_ask_ok hreceive]
      dsimp only
      rw [Http.isError_passedOn]
      by_cases herr : r.1.error.isError = true
      · rw [if_pos herr, if_pos herr]
        refine ⟨_, _, rfl, hget none, fun err h => ?_, fun n negotiated => ?_⟩
        · cases h
          exact herr
        · constructor
          · rintro ⟨-, resp, hresp, hok⟩
            cases hreceive.symm.trans hresp
            exact absurd (herr.symm.trans hok) (by decide)
          · rintro ⟨-, ⟨⟩⟩
      · rw [if_neg herr]
        refine ⟨_, _, rfl, hget none, nofun, fun n negotiated => ?_⟩
        constructor
        · rintro ⟨rfl, resp, hresp, -⟩
          cases hreceive.symm.trans hresp
          exact ⟨rfl, rfl⟩
        · rintro ⟨rfl, ⟨⟩⟩
          exact ⟨rfl, r.1, hreceive, Bool.eq_false_iff.2 herr⟩

/-! ## Tokens are no broader than requested -/

/-- The payload for older servers reaches the server and is accepted. -/
def AcceptsLegacy (request : TokenCreateRequest) (supportsV2 : Bool) (replies : Nat → HttpReply)
    (n : Nat) : Prop :=
  request.legacyPayload.isUtf8 = true ∧
    if supportsV2 then
      request.payload.isUtf8 = true ∧ (replies n).status? = some 422 ∧
        (replies (n + 1)).status? = some 200
    else (replies n).status? = some 200

/-- The server accepts the payload for older servers: because its version is old
or unknown, or after it has answered 422 to the other payload. -/
def LegacyAccepted (request : TokenCreateRequest) (version : Option Bytes)
    (replies : Nat → HttpReply) : Prop :=
  ∃ n negotiated supportsV2, Negotiated version replies n negotiated ∧
    supportsTokenV2 negotiated = .ok supportsV2 ∧ AcceptsLegacy request supportsV2 replies n

/-- All payloads that the server accepts carry what is requested, and a call that
ends without an error has had one accepted. -/
def NeverBroader (name : Bytes) (request : TokenCreateRequest) (version : Option Bytes)
    (replies : Nat → HttpReply) : Prop :=
  let call := Http.run replies (createToken name request) ⟨version, []⟩
  (∀ body reply, (ClientRequest.post (tokenPath name) body, reply) ∈ call.1.log →
    reply.status? = some 200 → ∃ payload, body = .of payload ∧ request.CarriedBy payload) ∧
  ∀ token, call.2 = .ok token → token.error.isError = false →
    ∃ body reply, (ClientRequest.post (tokenPath name) body, reply) ∈ call.1.log ∧
      reply.status? = some 200

/-- The accepted ones among the posted payloads carry the request unless one of them
is that for older servers. -/
theorem posted_carriedBy_iff (request : TokenCreateRequest) (supportsV2 : Bool)
    (replies : Nat → HttpReply) (n : Nat) :
    (∀ p ∈ postedTokens request supportsV2 replies n, p.2.status? = some 200 →
        request.CarriedBy p.1) ↔
      ¬ request.Restricted ∨ ¬ AcceptsLegacy request supportsV2 replies n := by
  rw [← request.carriedBy_legacyPayload_iff]
  cases supportsV2 with
  | false =>
    simp only [postedTokens, AcceptsLegacy, Bool.false_eq_true, if_false]
    by_cases hlegacy : request.legacyPayload.isUtf8 = true
    · rw [if_pos hlegacy, List.forall_mem_singleton, or_iff_not_imp_right, not_not]
      exact ⟨fun h hs => h hs.2, fun h hs => h ⟨hlegacy, hs⟩⟩
    · rw [if_neg hlegacy]
      exact iff_of_true (by simp) (.inr fun h => hlegacy h.1)
  | true =>
    simp only [postedTokens, AcceptsLegacy, if_true]
    by_cases hutf8 : request.payload.isUtf8 = true
    · have hpayload := request.carriedBy_payload
      rw [if_pos hutf8, List.forall_mem_cons]
      by_cases hretry : (replies n).status? = some 422 ∧ request.legacyPayload.isUtf8 = true
      · rw [if_pos hretry, List.forall_mem_singleton, or_iff_not_imp_right, not_not]
        constructor
        · intro h hs
          exact h.2 hs.2.2.2
        · intro h
          exact ⟨fun _ => hpayload, fun hs => h ⟨hretry.2, hutf8, hretry.1, hs⟩⟩
      · rw [if_neg hretry]
        exact iff_of_true ⟨fun _ => hpayload, by simp⟩ (.inr fun h => hretry ⟨h.2.2.1, h.1⟩)
    · rw [if_neg hutf8]
      exact iff_of_true (by simp) (.inr fun h => hutf8 h.2.1)

/-- The posts among the exchanges of a call are those of `postRequest`. -/
theorem mem_exchanges {log : List (ClientRequest × HttpReply)} (hlog : NothingPosted log)
    {posted : List (Json × HttpReply)} {body : JsonText} {reply : HttpReply} :
    (ClientRequest.post (tokenPath name) body, reply) ∈ log ++ exchanges name posted ↔
      ∃ payload, body = .of payload ∧ (payload, reply) ∈ posted := by
  rw [List.mem_append, exchanges, List.mem_map]
  constructor
  · rintro (h | ⟨p, hp, heq⟩)
    · exact absurd rfl (hlog _ h _ _)
    · cases heq
      exact ⟨p.1, rfl, hp⟩
  · rintro ⟨payload, rfl, hp⟩
    exact .inr ⟨(payload, reply), hp, rfl⟩

/-- The rest of a call makes the exchanges of `postRequest`. -/
theorem run_createWithVersion {request : TokenCreateRequest} {version : Option Bytes}
    {supportsV2 : Bool} (h : supportsTokenV2 version = .ok supportsV2) :
    (Http.run replies (createWithVersion name request version) s).1.log = s.log ++
      exchanges name (postedTokens request supportsV2 replies s.log.length) ∧
    ∀ token, (Http.run replies (createWithVersion name request version) s).2 = .ok token →
      token.error.isError = false →
        ∃ p ∈ postedTokens request supportsV2 replies s.log.length, p.2.status? = some 200 := by
  have hcall : createWithVersion name request version = (postRequest name request supportsV2 >>=
      fun resp => if resp.error.isError then pure ⟨[], resp.error⟩
        else pure (tokenValue resp.result)) := by
    rw [createWithVersion, h]
    rfl
  obtain ⟨hlog, hresult⟩ := @run_postRequest replies s name request supportsV2
  rw [hcall, Http.run, Dialogue.run_bind]
  rw [Http.run] at hlog hresult
  cases hpost : Dialogue.run receive replies (postRequest name request supportsV2) s with
  | mk s' result =>
    rw [hpost] at hlog hresult
    cases result with
    | error e => exact ⟨hlog, nofun⟩
    | ok resp =>
      dsimp only
      by_cases herr : resp.error.isError = true
      · rw [if_pos herr]
        refine ⟨hlog, fun token htoken hok => ?_⟩
        cases htoken
        exact absurd (herr.symm.trans hok) (by decide)
      · rw [if_neg herr]
        exact ⟨hlog, fun _ _ _ => hresult resp rfl (Bool.eq_false_iff.2 herr)⟩

/-- A call is the negotiation and, if that comes to a version, the rest. -/
theorem run_createToken {request : TokenCreateRequest} {version : Option Bytes} {s : HttpSession}
    {result : Except Uncaught (Except Error (Option Bytes))}
    (h : Http.run replies negotiateVersion ⟨version, []⟩ = (s, result)) :
    Http.run replies (createToken name request) ⟨version, []⟩ =
      match result with
      | .error e => (s, .error e)
      | .ok (.error err) => (s, .ok ⟨[], err⟩)
      | .ok (.ok negotiated) => Http.run replies (createWithVersion name request negotiated) s := by
  rw [Http.run] at h
  rw [createToken, Http.run, Dialogue.run_bind, h]
  match result with
  | .error e => rfl
  | .ok (.error err) => rfl
  | .ok (.ok negotiated) => rfl

/-- The legacy payload is accepted after the negotiation. -/
theorem legacyAccepted_iff {request : TokenCreateRequest} {version : Option Bytes} {n : Nat}
    {result : Except Uncaught (Except Error (Option Bytes))}
    (h : ∀ m negotiated, Negotiated version replies m negotiated ↔
      m = n ∧ result = .ok (.ok negotiated)) :
    LegacyAccepted request version replies ↔ ∃ negotiated supportsV2,
      result = .ok (.ok negotiated) ∧ supportsTokenV2 negotiated = .ok supportsV2 ∧
        AcceptsLegacy request supportsV2 replies n := by
  constructor
  · rintro ⟨m, negotiated, supportsV2, hnegotiated, hsupports, haccepts⟩
    obtain ⟨rfl, hresult⟩ := (h m negotiated).1 hnegotiated
    exact ⟨negotiated, supportsV2, hresult, hsupports, haccepts⟩
  · rintro ⟨negotiated, supportsV2, hresult, hsupports, haccepts⟩
    exact ⟨n, negotiated, supportsV2, (h n negotiated).2 ⟨rfl, hresult⟩, hsupports, haccepts⟩

/-- A call that posts nothing and returns no token. -/
theorem neverBroader_of_nothingPosted {request : TokenCreateRequest} {version : Option Bytes}
    {s : HttpSession} {result : Except Uncaught (Result Bytes)}
    (h : Http.run replies (createToken name request) ⟨version, []⟩ = (s, result))
    (hnothing : NothingPosted s.log)
    (herror : ∀ token, result = .ok token → token.error.isError = true) :
    NeverBroader name request version replies := by
  rw [NeverBroader, h]
  refine ⟨fun body reply hmem => absurd rfl (hnothing _ hmem _ _), fun token htoken hok => ?_⟩
  exact absurd ((herror token htoken).symm.trans hok) (by decide)

/-- A call that comes to the posts of `postRequest`. -/
theorem neverBroader_iff_posted {request : TokenCreateRequest} {version negotiated : Option Bytes}
    {supportsV2 : Bool} (hnothing : NothingPosted s.log)
    (hcall : Http.run replies (createToken name request) ⟨version, []⟩ =
      Http.run replies (createWithVersion name request negotiated) s)
    (hsupports : supportsTokenV2 negotiated = .ok supportsV2) :
    NeverBroader name request version replies ↔
      ∀ p ∈ postedTokens request supportsV2 replies s.log.length, p.2.status? = some 200 →
        request.CarriedBy p.1 := by
  obtain ⟨hlog, hresult⟩ := @run_createWithVersion replies s name request negotiated supportsV2
    hsupports
  simp only [NeverBroader, hcall, hlog, mem_exchanges hnothing]
  constructor
  · rintro ⟨h, -⟩ p hp hstatus
    obtain ⟨payload, hbody, hcarried⟩ := h (.of p.1) p.2 ⟨p.1, rfl, hp⟩ hstatus
    cases hbody
    exact hcarried
  · intro h
    refine ⟨?_, fun token htoken hok => ?_⟩
    · rintro body reply ⟨payload, rfl, hp⟩ hstatus
      exact ⟨payload, rfl, h _ hp hstatus⟩
    · obtain ⟨p, hp, hstatus⟩ := hresult token htoken hok
      exact ⟨.of p.1, p.2, ⟨p.1, rfl, hp⟩, hstatus⟩

/-- A token is never broader than requested if and only if no restriction is requested
or the server does not accept the payload for older servers. -/
theorem neverBroader_iff (name : Bytes) (request : TokenCreateRequest) (version : Option Bytes)
    (replies : Nat → HttpReply) :
    NeverBroader name request version replies ↔
      ¬ request.Restricted ∨ ¬ LegacyAccepted request version replies := by
  obtain ⟨s, result, hrun, hnothing, herror, hnegotiated⟩ := run_negotiateVersion version replies
  have hcall := @run_createToken replies name request version s result hrun
  rw [legacyAccepted_iff hnegotiated]
  match result with
  | .error e =>
    exact iff_of_true (neverBroader_of_nothingPosted hcall hnothing nofun) (.inr nofun)
  | .ok (.error err) =>
    refine iff_of_true (neverBroader_of_nothingPosted hcall hnothing fun token htoken => ?_)
      (.inr nofun)
    cases htoken
    exact herror err rfl
  | .ok (.ok negotiated) =>
    cases hsupports : supportsTokenV2 negotiated with
    | error fault =>
      have hfault : Http.run replies (createWithVersion name request negotiated) s =
          (s, .error (.fault fault)) := by
        rw [createWithVersion, hsupports]
        rfl
      refine iff_of_true (neverBroader_of_nothingPosted (hcall.trans hfault) hnothing nofun)
        (.inr ?_)
      rintro ⟨_, supportsV2, ⟨⟩, hok, -⟩
      cases hsupports.symm.trans hok
    | ok supportsV2 =>
      rw [neverBroader_iff_posted hnothing hcall hsupports, posted_carriedBy_iff]
      refine or_congr_right (not_congr ⟨fun h => ⟨_, supportsV2, rfl, hsupports, h⟩, ?_⟩)
      rintro ⟨_, supportsV2', ⟨⟩, hok, haccepts⟩
      cases hsupports.symm.trans hok
      exact haccepts

/-- A server of version 1.18 creates a token for ever although it is requested for a
minute. -/
theorem neverBroader_broken :
    ¬ ∀ (name : Bytes) (request : TokenCreateRequest) (version : Option Bytes)
      (replies : Nat → HttpReply), NeverBroader name request version replies := by
  intro h
  have h := h (bytes "sensor") ⟨{}, none, some 60, []⟩ (some (bytes "1.18")) fun _ =>
    .response .ok [(kHeaderApi, bytes "1.18")] (.of (.obj [(bytes "value", .str (bytes "t"))]))
  have hsupports : supportsTokenV2 (some (bytes "1.18")) = .ok false := by decide
  have hposted := (neverBroader_iff_posted (s := ⟨some (bytes "1.18"), []⟩) nofun
    (run_createToken rfl) hsupports).1 h
  rcases (posted_carriedBy_iff _ _ _ _).1 hposted with hrestricted | haccepts
  · exact hrestricted (.inr (.inl (by simp)))
  · exact haccepts ⟨by decide, rfl⟩

end Client

end Reduct
