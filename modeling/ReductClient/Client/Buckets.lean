-- SUMMARY: `Client::GetBucket`, `CreateBucket` and `GetOrCreateBucket` against a server that several clients use at once: when every call returns a bucket.
import ReductClient.Base.Interleaving
import ReductClient.Bucket.Handle

open Cxx Transition

namespace Reduct

/-! ## The calls -/

/-- `IBucket::Build(url, name, options, api_version)`: the bucket, and the version
its own client starts with. -/
structure BucketHandle where
  bucket : Bucket
  apiVersion : Option Bytes

namespace Client

def bucketPath (name : Bytes) : Bytes := bytes "/b/" ++ name

/-- Build a handle with the version that the client knows. -/
def buildBucket (name : Bytes) : Http (Result (Option BucketHandle)) := do
  let version ← Http.apiVersion
  pure ⟨some ⟨.build name, version⟩, .kOk⟩

/-- The error of `GetBucket`. -/
def getBucketError (name : Bytes) (err : Error) : Error :=
  if err.code = 404 then { err with message := bytes "Bucket '" ++ name ++ bytes "' is not found" }
  else err

/-- `GetBucket`. -/
def getBucket (name : Bytes) : Http (Result (Option BucketHandle)) := do
  let resp ← Dialogue.send (.head (bucketPath name) .empty)
  if resp.error.isError then pure ⟨none, getBucketError name resp.error⟩ else buildBucket name

/-- `json_data.is_null() ? "{}" : json_data.dump()`. -/
def settingsBody (settings : Settings) : Http JsonText :=
  match bucketSettingToJsonString settings with
  | .null => pure (.of (.obj []))
  | data => Http.dump data

/-- `CreateBucket`. -/
def createBucket (name : Bytes) (settings : Settings) : Http (Result (Option BucketHandle)) := do
  let body ← settingsBody settings
  let resp ← Dialogue.send (.post (bucketPath name) body)
  if resp.error.isError then pure ⟨none, resp.error⟩ else buildBucket name

/-- `GetOrCreateBucket`. -/
def getOrCreateBucket (name : Bytes) (settings : Settings) :
    Http (Result (Option BucketHandle)) := do
  let ret ← getBucket name
  if ret.error.code = 404 then createBucket name settings else pure ret

/-- `CreateBucket` after the response to its request. -/
def afterPost (name : Bytes) (resp : Result HttpAnswer) : Http (Result (Option BucketHandle)) :=
  if resp.error.isError then pure ⟨none, resp.error⟩ else buildBucket name

/-- `GetOrCreateBucket` after the response to its first request. -/
def afterHead (name : Bytes) (settings : Settings) (resp : Result HttpAnswer) :
    Http (Result (Option BucketHandle)) :=
  (if resp.error.isError then pure ⟨none, getBucketError name resp.error⟩
    else buildBucket name) >>= fun ret =>
  if ret.error.code = 404 then createBucket name settings else pure ret

/-- Settings are numbers and the name of a quota, so they can be dumped. -/
theorem createBucket_eq (name : Bytes) (settings : Settings) : ∃ body,
    createBucket name settings = .ask (.post (bucketPath name) body) (afterPost name) := by
  have hutf8 : (bucketSettingToJsonString settings).isUtf8 = true := by
    rcases settings with ⟨_ | _, _ | (_ | _ | _), _ | _, _ | _⟩ <;> rfl
  unfold createBucket settingsBody
  split
  · exact ⟨_, rfl⟩
  · rw [Http.dump, Json.dump, if_pos hutf8]
    exact ⟨_, rfl⟩

theorem afterHead_found {name : Bytes} {settings : Settings} {resp : Result HttpAnswer}
    (h : resp.error = .kOk) : afterHead name settings resp = buildBucket name := by
  rw [afterHead, h]
  rfl

theorem afterHead_missing {name : Bytes} {settings : Settings} {resp : Result HttpAnswer}
    (h : resp.error.code = 404) : afterHead name settings resp = createBucket name settings := by
  have herror : resp.error.isError = true := by rw [Error.isError, h]; decide
  have hcode : (getBucketError name resp.error).code = 404 := by rw [getBucketError, if_pos h, h]
  rw [afterHead, if_pos herror, Dialogue.pure_eq_done, Dialogue.done_bind]
  exact if_pos hcode

end Client

/-! ## The server -/

/-- A response that gives a version gives one that the client supports. -/
def SupportedVersion (headers : List (Bytes × Bytes)) : Prop :=
  ∀ value, findHeader headers kHeaderApi = some value →
    ∃ v : ServerVersion, v.major = 1 ∧ value = v.text

def HttpStatus.notFound : HttpStatus := ⟨404, by decide, by decide⟩

def HttpStatus.conflict : HttpStatus := ⟨409, by decide, by decide⟩

/-- How a server that has the bucket, or does not have it, serves a request. Once
created the bucket stays. -/
inductive ServesBucket (name : Bytes) : Bool → ClientRequest → HttpReply → Bool → Prop where
  | headFound {headers : List (Bytes × Bytes)} {body : JsonText}
      (hversion : SupportedVersion headers) :
      ServesBucket name true (.head (Client.bucketPath name) .empty)
        (.response .ok headers body) true
  | headMissing {headers : List (Bytes × Bytes)} {body : JsonText} :
      ServesBucket name false (.head (Client.bucketPath name) .empty)
        (.response .notFound headers body) false
  | postCreates {settings : JsonText} {headers : List (Bytes × Bytes)} {body : JsonText}
      (hversion : SupportedVersion headers) :
      ServesBucket name false (.post (Client.bucketPath name) settings)
        (.response .ok headers body) true
  | postConflicts {settings : JsonText} {headers : List (Bytes × Bytes)} {body : JsonText} :
      ServesBucket name true (.post (Client.bucketPath name) settings)
        (.response .conflict headers body) true

/-- The request is not one to create a bucket that exists. -/
def Unrivalled (created : Bool) (request : ClientRequest) : Prop :=
  ∀ path body, request = .post path body → created = false

/-- The server, as long as nobody asks it to create the bucket again. -/
def ServesUnrivalled (name : Bytes) (created : Bool) (request : ClientRequest) (reply : HttpReply)
    (created' : Bool) : Prop :=
  ServesBucket name created request reply created' ∧ Unrivalled created request

theorem receive_supported {headers : List (Bytes × Bytes)} (h : SupportedVersion headers)
    (version : Option Bytes) (body : JsonText) :
    ∃ resp stored, receive version (.response .ok headers body) = .ok (resp, stored) ∧
      resp.error = .kOk := by
  suffices hcheck : ∃ stored, checkRequest version (.response .ok headers body) =
      .ok (.kOk, stored) by
    obtain ⟨stored, hcheck⟩ := hcheck
    exact ⟨_, _, receive_eq hcheck, rfl⟩
  have hok : ¬ HttpStatus.ok.code ≠ 200 := by decide
  rw [checkRequest, if_neg hok]
  cases hfind : findHeader headers kHeaderApi with
  | none => exact ⟨_, rfl⟩
  | some value =>
    obtain ⟨v, hmajor, rfl⟩ := h value hfind
    refine ⟨(some v.text).or version, ?_⟩
    dsimp only
    rw [v.checkApiVersion_eq, if_pos hmajor]
    rfl

theorem receive_error (status : HttpStatus) (h : status.code ≠ 200)
    (headers : List (Bytes × Bytes)) (version : Option Bytes) (body : JsonText) :
    ∃ resp, receive version (.response status headers body) = .ok (resp, version) ∧
      resp.error.code = status.code := by
  refine ⟨_, receive_eq (by rw [checkRequest, if_pos h]; rfl), rfl⟩

/-! ## The clients -/

/-- A call of a client. -/
abbrev BucketCall :=
  Dialogue.Party ClientRequest HttpReply (Result HttpAnswer) (Option Bytes) Uncaught
    (Result (Option BucketHandle))

/-- The server and the calls of the clients `ι`. -/
abbrev BucketWorld (ι : Type) :=
  Dialogue.World Bool ι ClientRequest HttpReply (Result HttpAnswer) (Option Bytes) Uncaught
    (Result (Option BucketHandle))

/-- All clients call `GetOrCreateBucket`, whatever they have done before. -/
def allCalling {ι : Type} (name : Bytes) (settings : ι → Settings) (created : Bool)
    (sessions : ι → HttpSession) : BucketWorld ι where
  peer := created
  parties i := .start (Client.getOrCreateBucket name (settings i)) (sessions i)

/-- How far a call has come, after `n` requests of the client before it. It fails
only if the bucket has been created by another client meanwhile. -/
inductive CallStage (name : Bytes) (settings : Settings) (n : Nat) (rival : Prop)
    (p : BucketCall) : Prop where
  | head (hrest : p.rest = .ask (.head (Client.bucketPath name) .empty)
        (Client.afterHead name settings)) (hlog : p.session.log.length = n)
  | post (body : JsonText) (hrest : p.rest = .ask (.post (Client.bucketPath name) body)
        (Client.afterPost name)) (hlog : p.session.log.length = n + 1)
  | bucket (handle : BucketHandle) (hrest : p.rest = .done ⟨some handle, .kOk⟩)
  | conflict (err : Error) (hrest : p.rest = .done ⟨none, err⟩) (hcode : err.code = 409)
      (hrival : rival)

section Stages

variable {name : Bytes} {settings : Settings} {n : Nat} {rival : Prop} {p : BucketCall}

theorem callStage_start (name : Bytes) (settings : Settings) (s : HttpSession) :
    CallStage name settings s.log.length rival
      (.start (Client.getOrCreateBucket name settings) s) :=
  .head rfl rfl

/-- The answer that the bucket exists is the error of the call. -/
theorem answered_conflict (p : BucketCall) (q : ClientRequest) (headers : List (Bytes × Bytes))
    (body : JsonText) : ∃ err, err.code = 409 ∧
      (p.answered receive q (Client.afterPost name) (.response .conflict headers body)).rest =
        .done ⟨none, err⟩ := by
  obtain ⟨resp, hreceive, hcode⟩ :=
    receive_error .conflict (by decide) headers p.session.state body
  have herror : resp.error.isError = true := by rw [Error.isError, hcode]; decide
  refine ⟨resp.error, hcode, ?_⟩
  rw [Dialogue.Party.answered_ok hreceive, Client.afterPost, if_pos herror]
  rfl

/-- One answer takes a call to its next stage. -/
theorem CallStage.answered (h : CallStage name settings n rival p) {q : ClientRequest}
    {next : Result HttpAnswer → Http (Result (Option BucketHandle))} (hask : p.rest = .ask q next)
    {created created' : Bool} {reply : HttpReply} (hserve : ServesBucket name created q reply created')
    (hrival : ¬ Unrivalled created q → rival) :
    CallStage name settings n rival (p.answered receive q next reply) := by
  cases h with
  | head hrest hlog =>
    cases hrest.symm.trans hask
    cases hserve with
    | headFound hversion =>
      obtain ⟨resp, stored, hreceive, hok⟩ := receive_supported hversion p.session.state _
      refine .bucket ⟨.build name, stored⟩ ?_
      rw [Dialogue.Party.answered_ok hreceive, Client.afterHead_found hok]
      rfl
    | headMissing =>
      obtain ⟨resp, hreceive, hcode⟩ :=
        receive_error .notFound (by decide) _ p.session.state _
      obtain ⟨body, hpost⟩ := Client.createBucket_eq name settings
      refine .post body ?_ ?_
      · rw [Dialogue.Party.answered_ok hreceive, Client.afterHead_missing hcode, hpost]
        rfl
      · rw [Dialogue.Party.answered_log, List.length_append, hlog]
        rfl
  | post body hrest hlog =>
    cases hrest.symm.trans hask
    cases hserve with
    | postCreates hversion =>
      obtain ⟨resp, stored, hreceive, hok⟩ := receive_supported hversion p.session.state _
      refine .bucket ⟨.build name, stored⟩ ?_
      rw [Dialogue.Party.answered_ok hreceive, Client.afterPost, hok]
      rfl
    | postConflicts =>
      obtain ⟨err, hcode, hdone⟩ := answered_conflict p _ _ _
      refine .conflict err hdone hcode (hrival fun h => ?_)
      exact absurd (h _ _ rfl) (by decide)
  | bucket handle hrest => cases hrest.symm.trans hask
  | conflict err hrest => cases hrest.symm.trans hask

/-- A call that asks for a bucket that exists by then returns the error of the server. -/
theorem CallStage.answered_rivalled (h : CallStage name settings n rival p) {q : ClientRequest}
    {next : Result HttpAnswer → Http (Result (Option BucketHandle))} (hask : p.rest = .ask q next)
    {created created' : Bool} {reply : HttpReply} (hserve : ServesBucket name created q reply created')
    (hrivalled : ¬ Unrivalled created q) :
    ∃ err, err.code = 409 ∧ (p.answered receive q next reply).rest = .done ⟨none, err⟩ := by
  cases h with
  | head hrest =>
    cases hrest.symm.trans hask
    exact absurd (fun _ _ h => by cases h) hrivalled
  | post body hrest =>
    cases hrest.symm.trans hask
    cases hserve with
    | postCreates => exact absurd (fun _ _ _ => rfl) hrivalled
    | postConflicts => exact answered_conflict p _ _ _
  | bucket handle hrest => cases hrest.symm.trans hask
  | conflict err hrest => cases hrest.symm.trans hask

/-- The server has an answer to the next request of a call, which is its first or
its second one. -/
theorem CallStage.goes_on (h : CallStage name settings n rival p) {q : ClientRequest}
    {next : Result HttpAnswer → Http (Result (Option BucketHandle))} (hask : p.rest = .ask q next)
    (created : Bool) :
    p.session.log.length < n + 2 ∧ ∃ reply created', ServesBucket name created q reply created' := by
  have hversion : SupportedVersion [] := by rintro _ ⟨⟩
  cases h with
  | head hrest hlog =>
    cases hrest.symm.trans hask
    refine ⟨by omega, ?_⟩
    cases created with
    | true => exact ⟨.response .ok [] .empty, true, .headFound hversion⟩
    | false => exact ⟨.response .notFound [] .empty, false, .headMissing⟩
  | post body hrest hlog =>
    cases hrest.symm.trans hask
    refine ⟨by omega, ?_⟩
    cases created with
    | true => exact ⟨.response .conflict [] .empty, true, .postConflicts⟩
    | false => exact ⟨.response .ok [] .empty, true, .postCreates hversion⟩
  | bucket handle hrest => cases hrest.symm.trans hask
  | conflict err hrest => cases hrest.symm.trans hask

end Stages

/-! ## All interleavings -/

/-- The call goes on, or has returned a bucket. -/
def ReturnsBucket (p : BucketCall) : Prop :=
  (∃ q next, p.rest = .ask q next) ∨ ∃ handle, p.rest = .done ⟨some handle, .kOk⟩

theorem CallStage.returnsBucket {name : Bytes} {settings : Settings} {n : Nat} {p : BucketCall}
    (h : CallStage name settings n False p) : ReturnsBucket p := by
  cases h with
  | head hrest | post body hrest => exact .inl ⟨_, _, hrest⟩
  | bucket handle hrest => exact .inr ⟨handle, hrest⟩
  | conflict err hrest hcode hrival => exact hrival.elim

section Runs

variable {ι : Type} [DecidableEq ι] {name : Bytes} {settings : ι → Settings} {created : Bool}
  {sessions : ι → HttpSession} {w : BucketWorld ι}

/-- In a run without rivals no call comes to the conflict. -/
theorem callStage_unrivalled
    (hrun : Reaches (Dialogue.Turns receive (ServesUnrivalled name))
      (allCalling name settings created sessions) w) (i : ι) :
    CallStage name (settings i) (sessions i).log.length False (w.parties i) := by
  refine Dialogue.parties_invariant
    (fun i p => CallStage name (settings i) (sessions i).log.length False p) ?_ hrun ?_ i
  · intro i p q next created reply created' hstage hask hserve
    exact hstage.answered hask hserve.1 fun hrivalled => hrivalled hserve.2
  · intro i
    exact callStage_start name (settings i) (sessions i)

theorem callStage_run
    (hrun : Reaches (Dialogue.Turns receive (ServesBucket name))
      (allCalling name settings created sessions) w) (i : ι) :
    CallStage name (settings i) (sessions i).log.length True (w.parties i) := by
  refine Dialogue.parties_invariant
    (fun i p => CallStage name (settings i) (sessions i).log.length True p) ?_ hrun ?_ i
  · intro i p q next created reply created' hstage hask hserve
    exact hstage.answered hask hserve fun _ => trivial
  · intro i
    exact callStage_start name (settings i) (sessions i)

end Runs

/-- As long as nobody asks the server to create the bucket again, no call returns
an error; one that asks for it returns the error of the server. In every run, a call
that has not returned goes on, and it sends two requests at most. -/
theorem getOrCreateBucket_races {ι : Type} [DecidableEq ι] (name : Bytes) (settings : ι → Settings)
    (created : Bool) (sessions : ι → HttpSession) :
    let start := allCalling name settings created sessions
    (∀ w, Reaches (Dialogue.Turns receive (ServesUnrivalled name)) start w →
      ∀ i, ReturnsBucket (w.parties i)) ∧
    ∀ w, Reaches (Dialogue.Turns receive (ServesBucket name)) start w →
      ∀ i q next, (w.parties i).rest = .ask q next →
        (w.parties i).session.log.length < (sessions i).log.length + 2 ∧
        (∃ w', Dialogue.Turn receive (ServesBucket name) i w w') ∧
        (¬ Unrivalled w.peer q → ∀ w', Dialogue.Turn receive (ServesBucket name) i w w' →
          ∃ err, err.code = 409 ∧ (w'.parties i).rest = .done ⟨none, err⟩) := by
  intro start
  refine ⟨fun w hrun i => (callStage_unrivalled hrun i).returnsBucket, ?_⟩
  intro w hrun i q next hask
  have hstage := callStage_run hrun i
  obtain ⟨hlog, reply, created', hserve⟩ := hstage.goes_on hask w.peer
  refine ⟨hlog, ⟨_, .ask hask hserve⟩, ?_⟩
  rintro hrivalled _ ⟨hask', hserve⟩
  cases hask.symm.trans hask'
  rw [Dialogue.answer_self hask]
  exact hstage.answered_rivalled hask hserve hrivalled

/-- Two clients find no bucket; the one that comes second to create it gets the error. -/
theorem getOrCreateBucket_conflict : ∃ w : BucketWorld Bool,
    Reaches (Dialogue.Turns receive (ServesBucket (bytes "bucket")))
      (allCalling (bytes "bucket") (fun _ => {}) false fun _ => ⟨none, []⟩) w ∧
    ∃ err, (w.parties true).rest = .done ⟨none, err⟩ ∧ err.code = 409 := by
  let Step : Bool → BucketWorld Bool → BucketWorld Bool → Prop :=
    Dialogue.Turn receive (ServesBucket (bytes "bucket"))
  let w₀ : BucketWorld Bool := allCalling (bytes "bucket") (fun _ => {}) false fun _ => ⟨none, []⟩
  let w₁ := w₀.answer receive false (.response .notFound [] .empty) false
  let w₂ := w₁.answer receive true (.response .notFound [] .empty) false
  let w₃ := w₂.answer receive false (.response .ok [] .empty) true
  let w₄ := w₃.answer receive true (.response .conflict [] .empty) true
  have h₁ : Step false w₀ w₁ := .ask rfl .headMissing
  have h₂ : Step true w₁ w₂ := .ask rfl .headMissing
  have h₃ : Step false w₂ w₃ := .ask rfl (.postCreates (by rintro _ ⟨⟩))
  have h₄ : Step true w₃ w₄ := .ask rfl .postConflicts
  exact ⟨w₄, .tail (.tail (.tail (.tail .refl ⟨_, h₁⟩) ⟨_, h₂⟩) ⟨_, h₃⟩) ⟨_, h₄⟩, _, rfl, rfl⟩

end Reduct
