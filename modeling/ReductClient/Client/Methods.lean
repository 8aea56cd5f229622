-- SUMMARY: The methods of `Client` as programs: the requests that each of them may send, and the two cases in which one goes on after an error.
import ReductClient.Client.Buckets
import ReductClient.Client.Listings
import ReductClient.Internal.HttpPolicies

open Cxx

namespace Reduct

namespace Client

/-! ## Requests and their responses -/

/-- A method that reads one value from the response to its request. -/
def fetch {α : Type} (request : Http (Result JsonText)) (read : Json → Except Error α) :
    Http (Result (Option α)) := do
  let resp ← request
  if resp.error.isError then pure ⟨none, resp.error⟩
  else
    match (resp.result.parse .sorted).mapError exceptionError >>= read with
    | .ok value => pure ⟨some value, .kOk⟩
    | .error err => pure ⟨none, err⟩

/-- `GetInfo`. -/
def getInfo : Http (Result (Option ServerInfo)) := fetch (Http.get (bytes "/info")) parseServerInfo

/-! ## Tokens -/

/-- `GetToken`. -/
def getToken (name : Bytes) : Http (Result (Option FullTokenInfo)) :=
  fetch (Http.get (tokenPath name)) fun data => (parseTokenInfo data).mapError exceptionError

/-- `Me`. -/
def me : Http (Result (Option FullTokenInfo)) :=
  fetch (Http.get (bytes "/me")) fun data => (parseTokenInfo data).mapError exceptionError

/-- `RemoveToken`. -/
def removeToken (name : Bytes) : Http Error := Http.transfer (.delete (tokenPath name) .empty)

/-- `RotateToken`. -/
def rotateToken (name : Bytes) : Http (Result Bytes) := do
  let resp ← Http.postWithResponse (tokenPath name ++ bytes "/rotate") (.of (.obj []))
  if resp.error.isError then pure ⟨[], resp.error⟩ else pure (tokenValue resp.result)

/-! ## Replications and lifecycles -/

/-- The settings of a policy, sent with the given request if they can be written. -/
def sendSettings (settings : Except Error Json) (send : JsonText → Http Error) : Http Error :=
  match settings with
  | .error err => pure err
  | .ok data => do
    let body ← Http.dump data
    send body

/-- `Post(path, body)`. -/
def post (path : Bytes) (body : JsonText) : Http Error := do
  let resp ← Http.postWithResponse path body
  pure resp.error

/-- The request that sets a mode. Its payload is `dump()` of an object with the name. -/
def patchMode (path mode : Bytes) : Http Error :=
  Http.transfer (.patch (path ++ bytes "/mode")
    (bytes "\x7b\"mode\":\"" ++ mode ++ bytes "\"\x7d")
    (UnorderedMap.empty.assign (bytes "Content-Type") (bytes "application/json")))

def replicationPath (name : Bytes) : Bytes := bytes "/replications/" ++ name

/-- `GetReplication`. -/
def getReplication (name : Bytes) : Http (Result (Option FullReplicationInfo)) :=
  fetch (Http.get (replicationPath name)) parseFullReplicationInfo

/-- `CreateReplication`. -/
def createReplication (name : Bytes) (settings : ReplicationSettings) : Http Error :=
  sendSettings (replicationSettingsToJsonString settings) (post (replicationPath name))

/-- `UpdateReplication`. -/
def updateReplication (name : Bytes) (settings : ReplicationSettings) : Http Error :=
  sendSettings (replicationSettingsToJsonString settings) (Http.put (replicationPath name))

/-- `SetReplicationMode`. -/
def setReplicationMode (name : Bytes) (mode : ReplicationMode) : Http Error :=
  patchMode (replicationPath name) (replicationModeToString mode)

/-- `RemoveReplication`. -/
def removeReplication (name : Bytes) : Http Error :=
  Http.transfer (.delete (replicationPath name) .empty)

def lifecyclePath (name : Bytes) : Bytes := bytes "/lifecycles/" ++ name

/-- `GetLifecycle`. -/
def getLifecycle (name : Bytes) : Http (Result (Option FullLifecycleInfo)) :=
  fetch (Http.get (lifecyclePath name)) parseFullLifecycleInfo

/-- `CreateLifecycle`. -/
def createLifecycle (name : Bytes) (settings : LifecycleSettings) : Http Error :=
  sendSettings (lifecycleSettingsToJsonString settings) (post (lifecyclePath name))

/-- `UpdateLifecycle`. -/
def updateLifecycle (name : Bytes) (settings : LifecycleSettings) : Http Error :=
  sendSettings (lifecycleSettingsToJsonString settings) (Http.put (lifecyclePath name))

/-- `SetLifecycleMode`. -/
def setLifecycleMode (name : Bytes) (mode : LifecycleMode) : Http Error :=
  patchMode (lifecyclePath name) (lifecycleModeToString mode)

/-- `RemoveLifecycle`. -/
def removeLifecycle (name : Bytes) : Http Error :=
  Http.transfer (.delete (lifecyclePath name) .empty)

end Client

/-! ## All methods -/

/-- A method of `Client`, with its arguments. -/
inductive ClientMethod where
  | getInfo
  | getBucketList
  | getBucket (name : Bytes)
  | createBucket (name : Bytes) (settings : Settings)
  | getOrCreateBucket (name : Bytes) (settings : Settings)
  | getTokenList
  | getToken (name : Bytes)
  | createToken (name : Bytes) (request : TokenCreateRequest)
  | removeToken (name : Bytes)
  | rotateToken (name : Bytes)
  | me
  | getReplicationList
  | getReplication (name : Bytes)
  | createReplication (name : Bytes) (settings : ReplicationSettings)
  | updateReplication (name : Bytes) (settings : ReplicationSettings)
  | setReplicationMode (name : Bytes) (mode : ReplicationMode)
  | removeReplication (name : Bytes)
  | getLifecycleList
  | getLifecycle (name : Bytes)
  | createLifecycle (name : Bytes) (settings : LifecycleSettings)
  | updateLifecycle (name : Bytes) (settings : LifecycleSettings)
  | setLifecycleMode (name : Bytes) (mode : LifecycleMode)
  | removeLifecycle (name : Bytes)

namespace ClientMethod

/-- The error of a result. -/
def errorOf {α : Type} (program : Http (Result α)) : Http Error := do
  let ret ← program
  pure ret.error

/-- Call the method. -/
def call : ClientMethod → Http Error
  | getInfo => errorOf Client.getInfo
  | getBucketList => errorOf Client.getBucketList.get
  | getBucket name => errorOf (Client.getBucket name)
  | createBucket name settings => errorOf (Client.createBucket name settings)
  | getOrCreateBucket name settings => errorOf (Client.getOrCreateBucket name settings)
  | getTokenList => errorOf Client.getTokenList.get
  | getToken name => errorOf (Client.getToken name)
  | createToken name request => errorOf (Client.createToken name request)
  | removeToken name => Client.removeToken name
  | rotateToken name => errorOf (Client.rotateToken name)
  | me => errorOf Client.me
  | getReplicationList => errorOf Client.getReplicationList.get
  | getReplication name => errorOf (Client.getReplication name)
  | createReplication name settings => Client.createReplication name settings
  | updateReplication name settings => Client.updateReplication name settings
  | setReplicationMode name mode => Client.setReplicationMode name mode
  | removeReplication name => Client.removeReplication name
  | getLifecycleList => errorOf Client.getLifecycleList.get
  | getLifecycle name => errorOf (Client.getLifecycle name)
  | createLifecycle name settings => Client.createLifecycle name settings
  | updateLifecycle name settings => Client.updateLifecycle name settings
  | setLifecycleMode name mode => Client.setLifecycleMode name mode
  | removeLifecycle name => Client.removeLifecycle name

/-! ## What a method may send -/

/-- `BucketSettingToJsonString`, or an empty object in place of `null`. -/
def settingsText (settings : Settings) : JsonText :=
  match bucketSettingToJsonString settings with
  | .null => .of (.obj [])
  | data => .of data

/-- The request posts the settings of a policy, which can be written. -/
def PostsSettings (path : Bytes) (settings : Except Error Json) (q : ClientRequest) : Prop :=
  ∃ data, settings = .ok data ∧ q = .post path (.of data)

/-- The request puts the settings of a policy, which can be written. -/
def PutsSettings (path : Bytes) (settings : Except Error Json) (q : ClientRequest) : Prop :=
  ∃ data, settings = .ok data ∧ q = .put path (.of data)

/-- The request that `SetReplicationMode` and `SetLifecycleMode` send. -/
def modeRequest (path mode : Bytes) : ClientRequest :=
  .transfer (.patch (path ++ bytes "/mode") (bytes "\x7b\"mode\":\"" ++ mode ++ bytes "\"\x7d")
    (UnorderedMap.empty.assign (bytes "Content-Type") (bytes "application/json")))

/-- The requests of the method: their kinds, paths, headers and payloads. `CreateToken` may
ask for the version, and has two payloads. -/
def Sends (m : ClientMethod) (q : ClientRequest) : Prop :=
  match m with
  | getInfo => q = .get (bytes "/info") .empty
  | getBucketList => q = .get (bytes "/list") .empty
  | getBucket name => q = .head (Client.bucketPath name) .empty
  | createBucket name settings => q = .post (Client.bucketPath name) (settingsText settings)
  | getOrCreateBucket name settings =>
    q = .head (Client.bucketPath name) .empty ∨
      q = .post (Client.bucketPath name) (settingsText settings)
  | getTokenList => q = .get (bytes "/tokens") .empty
  | getToken name => q = .get (Client.tokenPath name) .empty
  | createToken name request =>
    q = .get (bytes "/info") .empty ∨ q = Client.tokenRequest name request.payload ∨
      q = Client.tokenRequest name request.legacyPayload
  | removeToken name => q = .transfer (.delete (Client.tokenPath name) .empty)
  | rotateToken name => q = .post (Client.tokenPath name ++ bytes "/rotate") (.of (.obj []))
  | me => q = .get (bytes "/me") .empty
  | getReplicationList => q = .get (bytes "/replications") .empty
  | getReplication name => q = .get (Client.replicationPath name) .empty
  | createReplication name settings =>
    PostsSettings (Client.replicationPath name) (replicationSettingsToJsonString settings) q
  | updateReplication name settings =>
    PutsSettings (Client.replicationPath name) (replicationSettingsToJsonString settings) q
  | setReplicationMode name mode =>
    q = modeRequest (Client.replicationPath name) (replicationModeToString mode)
  | removeReplication name => q = .transfer (.delete (Client.replicationPath name) .empty)
  | getLifecycleList => q = .get (bytes "/lifecycles") .empty
  | getLifecycle name => q = .get (Client.lifecyclePath name) .empty
  | createLifecycle name settings =>
    PostsSettings (Client.lifecyclePath name) (lifecycleSettingsToJsonString settings) q
  | updateLifecycle name settings =>
    PutsSettings (Client.lifecyclePath name) (lifecycleSettingsToJsonString settings) q
  | setLifecycleMode name mode =>
    q = modeRequest (Client.lifecyclePath name) (lifecycleModeToString mode)
  | removeLifecycle name => q = .transfer (.delete (Client.lifecyclePath name) .empty)

/-- What the method sends after an error with the given code. `GetOrCreateBucket` creates
a bucket that is missing, and `CreateToken` falls back to the payload for older servers. -/
def GoesOn (m : ClientMethod) (q : ClientRequest) (code : Int) (q' : ClientRequest) : Prop :=
  match m with
  | getOrCreateBucket name settings =>
    code = 404 ∧ q = .head (Client.bucketPath name) .empty ∧
      q' = .post (Client.bucketPath name) (settingsText settings)
  | createToken name request =>
    code = 422 ∧ q = Client.tokenRequest name request.payload ∧
      q' = Client.tokenRequest name request.legacyPayload
  | _ => False

/-- The requests of the method. -/
def policy (m : ClientMethod) : Policy ClientRequest (Result HttpAnswer) LastExchange :=
  failFast m.Sends m.GoesOn

/-! ## Rules for the parts of a method -/

section Rules

variable {m : ClientMethod} {last : LastExchange}

theorem keeps_errorOf {α : Type} {program : Http (Result α)} {Post : LastExchange → Result α → Prop}
    (h : program.Keeps m.policy Post last) :
    (errorOf program).Keeps m.policy (fun _ _ => True) last :=
  h.bind fun _ _ _ => trivial

theorem keeps_fetch {α : Type} {path : Bytes} {read : Json → Except Error α}
    (h : m.Sends (.get path .empty)) :
    (errorOf (Client.fetch (Http.get path) read)).Keeps m.policy (fun _ _ => True) none := by
  have hfetch : (Client.fetch (Http.get path) read).Keeps m.policy (fun _ _ => True) none := by
    refine (Http.keeps_call h succeeded_none _).bind fun _ resp _ => ?_
    split
    · trivial
    · split <;> trivial
  exact keeps_errorOf hfetch

theorem keeps_listing {α : Type} {l : Listing α} (h : m.Sends (.get l.path .empty)) :
    (errorOf l.get).Keeps m.policy (fun _ _ => True) none := by
  have hget : l.get.Keeps m.policy (fun _ _ => True) none := by
    refine (Http.keeps_call h succeeded_none _).bind fun _ resp _ => ?_
    split
    · trivial
    · split <;> trivial
  exact keeps_errorOf hget

theorem keeps_transfer {request : HttpRequest} (h : m.Sends (.transfer request)) :
    (Http.transfer request).Keeps m.policy (fun _ _ => True) none :=
  (Http.keeps_transfer h succeeded_none).mono fun _ _ _ => trivial

theorem keeps_sendSettings {settings : Except Error Json} {send : JsonText → Http Error}
    (h : ∀ data, settings = .ok data → (send (.of data)).Keeps m.policy (fun _ _ => True) none) :
    (Client.sendSettings settings send).Keeps m.policy (fun _ _ => True) none := by
  cases settings with
  | error err => trivial
  | ok data =>
    refine (Http.keeps_dump data).bind ?_
    rintro _ text ⟨rfl, rfl⟩
    exact h data rfl

theorem keeps_postSettings {path : Bytes} {settings : Except Error Json}
    (h : ∀ q, PostsSettings path settings q → m.Sends q) :
    (Client.sendSettings settings (Client.post path)).Keeps m.policy (fun _ _ => True) none :=
  keeps_sendSettings fun data hdata =>
    (Http.keeps_call (h _ ⟨data, hdata, rfl⟩) succeeded_none _).bind fun _ _ _ => trivial

theorem keeps_putSettings {path : Bytes} {settings : Except Error Json}
    (h : ∀ q, PutsSettings path settings q → m.Sends q) :
    (Client.sendSettings settings (Http.put path)).Keeps m.policy (fun _ _ => True) none :=
  keeps_sendSettings fun data hdata =>
    (Http.keeps_put (h _ ⟨data, hdata, rfl⟩) succeeded_none).mono fun _ _ _ => trivial

/-! ## Buckets -/

theorem keeps_settingsBody (settings : Settings) :
    (Client.settingsBody settings).Keeps m.policy
      (fun last' body => last' = last ∧ body = settingsText settings) last := by
  cases hdata : bucketSettingToJsonString settings with
  | null =>
    rw [Client.settingsBody, settingsText, hdata]
    exact ⟨rfl, rfl⟩
  | _ =>
    rw [Client.settingsBody, settingsText, hdata]
    exact Http.keeps_dump _

theorem keeps_createBucket {name : Bytes} {settings : Settings}
    (hallows : m.policy.Allows last (.post (Client.bucketPath name) (settingsText settings))) :
    (Client.createBucket name settings).Keeps m.policy (fun _ _ => True) last := by
  refine (keeps_settingsBody settings).bind ?_
  rintro _ _ ⟨rfl, rfl⟩
  refine ⟨hallows, fun resp => ?_⟩
  change Dialogue.Keeps _ _ _ (if resp.error.isError = true then _ else _)
  split
  · trivial
  · exact fun _ => trivial

theorem keeps_getBucket {name : Bytes} (h : m.Sends (.head (Client.bucketPath name) .empty)) :
    (Client.getBucket name).Keeps m.policy (fun last ret => ret.error.code = 404 →
      ∃ resp, last = some (.head (Client.bucketPath name) .empty, resp) ∧
        resp.error.code = 404) none := by
  refine Http.keeps_ask h succeeded_none fun resp => ?_
  change Dialogue.Keeps _ _ _ (if resp.error.isError = true then _ else _)
  split
  · intro hcode
    refine ⟨resp, rfl, ?_⟩
    unfold Client.getBucketError at hcode
    split at hcode
    · assumption
    · exact hcode
  · rintro _ ⟨⟩

theorem keeps_getOrCreateBucket (name : Bytes) (settings : Settings) :
    (Client.getOrCreateBucket name settings).Keeps (getOrCreateBucket name settings).policy
      (fun _ _ => True) none := by
  have hsends : (getOrCreateBucket name settings).Sends (.head (Client.bucketPath name) .empty) :=
    Or.inl rfl
  refine (keeps_getBucket hsends).bind fun last ret hret => ?_
  by_cases hcode : ret.error.code = 404
  · obtain ⟨resp, rfl, hresp⟩ := hret hcode
    rw [if_pos hcode]
    refine keeps_createBucket ⟨Or.inr rfl, ?_⟩
    rintro _ ⟨⟩ -
    exact ⟨hresp, rfl, rfl⟩
  · rw [if_neg hcode]
    trivial

/-! ## Tokens -/

theorem keeps_negotiateVersion (h : m.Sends (.get (bytes "/info") .empty)) :
    Client.negotiateVersion.Keeps m.policy
      (fun last version => ∀ v, version = .ok v → last.Succeeded) none := by
  rintro (_ | version)
  · refine (Http.keeps_call h succeeded_none _).bind fun last info hinfo => ?_
    by_cases herr : info.error.isError = true
    · rw [if_pos herr]
      rintro v ⟨⟩
    · rw [if_neg herr]
      exact fun _ _ _ => hinfo (Bool.eq_false_iff.2 herr)
  · exact fun _ _ => succeeded_none

theorem keeps_postToken {name : Bytes} {payload : Json}
    (hallows : m.policy.Allows last (Client.tokenRequest name payload)) :
    (Client.postToken name payload).Keeps m.policy (fun last ret => ∃ resp,
      last = some (Client.tokenRequest name payload, resp) ∧
        ret.error = if resp.error.isError then resp.error else .kOk) last := by
  refine (Http.keeps_dump payload).bind ?_
  rintro _ _ ⟨rfl, rfl⟩
  exact ⟨hallows, fun resp => ⟨resp, rfl, rfl⟩⟩

theorem keeps_postRequest (name : Bytes) (request : TokenCreateRequest) (supportsV2 : Bool)
    (hlast : last.Succeeded) :
    (Client.postRequest name request supportsV2).Keeps (createToken name request).policy
      (fun _ _ => True) last := by
  have hlegacy : (createToken name request).Sends
      (Client.tokenRequest name request.legacyPayload) := Or.inr (.inr rfl)
  have hsends : (createToken name request).Sends (Client.tokenRequest name
      (if supportsV2 then request.payload else request.legacyPayload)) := by
    split
    · exact Or.inr (.inl rfl)
    · exact hlegacy
  refine (keeps_postToken (Http.allows_failFast hsends hlast)).bind ?_
  rintro _ ret ⟨resp, rfl, hret⟩
  by_cases hfallback : (ret.error.isError && supportsV2 && ret.error.code == 422) = true
  · rw [if_pos hfallback]
    simp only [Bool.and_eq_true, beq_iff_eq] at hfallback
    obtain ⟨⟨-, rfl⟩, hcode⟩ := hfallback
    refine (keeps_postToken ⟨hlegacy, ?_⟩).mono fun _ _ _ => trivial
    rintro _ ⟨⟩ herr
    rw [hret, if_pos herr] at hcode
    exact ⟨hcode, rfl, rfl⟩
  · rw [if_neg hfallback]
    trivial

theorem keeps_createToken (name : Bytes) (request : TokenCreateRequest) :
    (Client.createToken name request).Keeps (createToken name request).policy
      (fun _ _ => True) none := by
  have hsends : (createToken name request).Sends (.get (bytes "/info") .empty) := Or.inl rfl
  refine (keeps_negotiateVersion hsends).bind fun last version hversion => ?_
  cases version with
  | error err => trivial
  | ok version =>
    refine (Http.keeps_ofExcept _).bind ?_
    rintro _ supportsV2 rfl
    refine (keeps_postRequest name request supportsV2 (hversion version rfl)).bind fun _ _ _ => ?_
    split <;> trivial

theorem keeps_rotateToken (name : Bytes) :
    (Client.rotateToken name).Keeps (rotateToken name).policy (fun _ _ => True) none := by
  have hsends : (rotateToken name).Sends
      (.post (Client.tokenPath name ++ bytes "/rotate") (.of (.obj []))) := rfl
  refine (Http.keeps_call hsends succeeded_none _).bind fun _ _ _ => ?_
  split <;> trivial

end Rules

/-! ## Every method -/

theorem keeps_call (m : ClientMethod) : m.call.Keeps m.policy (fun _ _ => True) none := by
  cases m with
  | getInfo => exact keeps_fetch rfl
  | getBucketList => exact keeps_listing rfl
  | getBucket name => exact keeps_errorOf (keeps_getBucket rfl)
  | createBucket name settings =>
    exact keeps_errorOf (keeps_createBucket (Http.allows_failFast rfl succeeded_none))
  | getOrCreateBucket name settings => exact keeps_errorOf (keeps_getOrCreateBucket name settings)
  | getTokenList => exact keeps_listing rfl
  | getToken name => exact keeps_fetch rfl
  | createToken name request => exact keeps_errorOf (keeps_createToken name request)
  | removeToken name => exact keeps_transfer rfl
  | rotateToken name => exact keeps_errorOf (keeps_rotateToken name)
  | me => exact keeps_fetch rfl
  | getReplicationList => exact keeps_listing rfl
  | getReplication name => exact keeps_fetch rfl
  | createReplication name settings => exact keeps_postSettings fun _ hq => hq
  | updateReplication name settings => exact keeps_putSettings fun _ hq => hq
  | setReplicationMode name mode => exact keeps_transfer rfl
  | removeReplication name => exact keeps_transfer rfl
  | getLifecycleList => exact keeps_listing rfl
  | getLifecycle name => exact keeps_fetch rfl
  | createLifecycle name settings => exact keeps_postSettings fun _ hq => hq
  | updateLifecycle name settings => exact keeps_putSettings fun _ hq => hq
  | setLifecycleMode name mode => exact keeps_transfer rfl
  | removeLifecycle name => exact keeps_transfer rfl

/-- What a call sends, with the replies to it. -/
def exchanges (m : ClientMethod) (replies : Nat → HttpReply) (s : HttpSession) :
    List (ClientRequest × HttpReply) :=
  (m.call.run replies s).1.log.drop s.log.length

/-- The requests are those of the method, and after a response that is not accepted there
is only the one that the method goes on with. -/
structure OwnExchanges (m : ClientMethod) (sent : List (ClientRequest × HttpReply)) : Prop where
  sends : ∀ x ∈ sent, m.Sends x.1
  goesOn : ∀ before x y rest, sent = before ++ x :: y :: rest →
    x.2.Accepted ∨ ∃ code : Nat, x.2.status? = some code ∧ m.GoesOn x.1 code y.1

/-- The errors after which a method goes on have the code of a status. -/
theorem GoesOn.code {m : ClientMethod} {q q' : ClientRequest} {code : Int}
    (h : m.GoesOn q code q') : ∃ n : Nat, n ≠ 0 ∧ code = n := by
  cases m with
  | getOrCreateBucket name settings => exact ⟨404, by decide, h.1⟩
  | createToken name request => exact ⟨422, by decide, h.1⟩
  | _ => cases h

theorem ownExchanges_of_accepts {m : ClientMethod} {sent : List (ClientRequest × HttpReply)}
    (h : m.policy.Accepts receive none sent) : m.OwnExchanges sent := by
  obtain ⟨hsends, hnext⟩ := Http.accepts_failFast h
  refine ⟨hsends, fun before x y rest heq => ?_⟩
  rcases hnext before x y rest heq with haccepted | ⟨version, resp, stored, hreceive, hgoes⟩
  · exact .inl haccepted
  · obtain ⟨code, hne, hcode⟩ := hgoes.code
    exact .inr ⟨code, receive_code hreceive hcode hne, hcode ▸ hgoes⟩

/-- Whatever the client has sent before and whatever the server replies, a method sends its
own requests only, and stops at errors but for the two it goes on from. -/
theorem exchanges_own (m : ClientMethod) (replies : Nat → HttpReply) (s : HttpSession) :
    m.OwnExchanges (m.exchanges replies s) := by
  obtain ⟨sent, hlog, haccepts⟩ := m.keeps_call.accepts_run receive replies s
  have hsent : m.exchanges replies s = sent := by
    rw [exchanges, Http.run, hlog, List.drop_left]
  rw [hsent]
  exact ownExchanges_of_accepts haccepts

end ClientMethod

end Reduct
