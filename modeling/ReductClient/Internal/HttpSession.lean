-- SUMMARY: The client side of HTTP: requests and replies, `CheckRequest` with the API version it learns, and `IsCompatible`.
import ReductClient.Base.Dialogue
import ReductClient.Base.Fallible
import ReductClient.Cxx.Json
import ReductClient.Internal.HttpClient

open Cxx

namespace Reduct

def kHeaderError : Bytes := bytes "x-reduct-error"
def kHeaderApi : Bytes := bytes "x-reduct-api"
def kHeaderQueryId : Bytes := bytes "x-reduct-query-id"

/-- `REDUCT_CPP_MAJOR_VERSION`. -/
def majorVersion : Int := 1

/-! ## Requests and replies -/

/-- A call of `IHttpClient` that sends a request. The body of a `post` or a `put`
is JSON. -/
inductive ClientRequest where
  | get (path : Bytes) (headers : Headers)
  | head (path : Bytes) (headers : Headers)
  | post (path : Bytes) (body : JsonText)
  | put (path : Bytes) (body : JsonText)
  /-- A request with headers and a body of bytes. -/
  | transfer (request : HttpRequest)

/-- A status code has three digits. -/
structure HttpStatus where
  code : Nat
  lower : 100 ≤ code
  upper : code < 1000
  deriving DecidableEq

/-- The status of a request that has succeeded. -/
def HttpStatus.ok : HttpStatus := ⟨200, by decide, by decide⟩

/-- `httplib::Result`. The headers are a multimap without regard to case. -/
inductive HttpReply where
  /-- `error() != Success`, with its text. -/
  | failed (message : Bytes)
  | response (status : HttpStatus) (headers : List (Bytes × Bytes)) (body : JsonText)

/-- The status of a response. -/
def HttpReply.status? : HttpReply → Option Nat
  | failed _ => none
  | response status _ _ => some status.code

/-- What the caller of the client gets from a response. -/
structure HttpAnswer where
  headers : Headers
  body : JsonText

/-- The `HttpAnswer` of a request that failed. -/
def HttpAnswer.none : HttpAnswer := ⟨.empty, .empty⟩

/-- `res->headers.find(name)`, for a name in lower case. -/
def findHeader (headers : List (Bytes × Bytes)) (name : Bytes) : Option Bytes :=
  (headers.find? fun h => h.1.map toLower = name).map Prod.snd

/-- `NormalizeHeaders`. -/
def normalizeHeaders (headers : List (Bytes × Bytes)) : Headers :=
  headers.foldl (fun normalized h => normalized.assign (h.1.map toLower) h.2) .empty

/-! ## The API version -/

/-- What leaves a `noexcept` function: the process ends. -/
inductive Uncaught where
  | fault (fault : Fault)
  /-- `dump` of a string that is not UTF-8. -/
  | dump
  deriving DecidableEq

/-- An exception of the standard library. -/
def uncaught {α : Type} (x : Except Fault α) : Except Uncaught α := x.mapError .fault

@[simp] theorem uncaught_ok {α : Type} (a : α) : uncaught (.ok a) = .ok a := rfl

theorem uncaught_eq_ok {α : Type} {x : Except Fault α} {a : α} :
    uncaught x = .ok a ↔ x = .ok a := by
  cases x <;> simp [uncaught, Except.mapError]

/-- What `CheckRequest` makes of the header `x-reduct-api` of a 200 response:
the error, and the version to store. -/
def checkApiVersion (value : Bytes) : Except Fault (Error × Option Bytes) :=
  match splitFirst dot value with
  | none => pure (⟨-1, bytes "Invalid API version"⟩, none)
  | some (majorText, minorText) => do
    let major ← stoi majorText
    let minor ← stoi minorText
    if major ≠ majorVersion then
      pure (⟨-1, bytes "Unsupported API version: " ++ decimalSigned major ++ dot ::
        decimalSigned minor⟩, none)
    else pure (.kOk, some value)

/-- `HttpClient::CheckRequest`, with `api_version_` before and after it. -/
def checkRequest (version : Option Bytes) : HttpReply → Except Fault (Error × Option Bytes)
  | .failed message => pure (⟨-1, message⟩, version)
  | .response status headers _ =>
    if status.code ≠ 200 then
      pure (⟨status.code, (findHeader headers kHeaderError).getD (bytes "Unknown error")⟩, version)
    else
      match findHeader headers kHeaderApi with
      | none => pure (.kOk, version)
      | some value => do
        let (err, stored) ← checkApiVersion value
        pure (err, stored.or version)

/-- The response as the caller gets it. -/
def HttpReply.answer : HttpReply → HttpAnswer
  | .failed _ => .none
  | .response _ headers body => ⟨normalizeHeaders headers, body⟩

/-- What a method of `HttpClient` does with a reply. -/
def receive (version : Option Bytes) (reply : HttpReply) :
    Except Uncaught (Result HttpAnswer × Option Bytes) := do
  let (err, version) ← uncaught (checkRequest version reply)
  pure (⟨if err.isError then .none else reply.answer, err⟩, version)

theorem receive_eq {version stored : Option Bytes} {reply : HttpReply} {err : Error}
    (h : checkRequest version reply = .ok (err, stored)) :
    receive version reply = .ok (⟨if err.isError then .none else reply.answer, err⟩, stored) := by
  rw [receive, h]
  rfl

/-- Any other status than 200 is the code of the error. -/
theorem checkRequest_of_ne {version : Option Bytes} {reply : HttpReply}
    (h : reply.status? ≠ some 200) :
    ∃ err : Error, checkRequest version reply = .ok (err, version) ∧ err.isError = true ∧
      (err.code = 422 ↔ reply.status? = some 422) := by
  cases reply with
  | failed message => exact ⟨_, rfl, rfl, by simp [HttpReply.status?]⟩
  | response status headers body =>
    have hne : status.code ≠ 200 := fun heq => h (congrArg some heq)
    have hpos : status.code ≠ 0 := Nat.ne_of_gt (Nat.lt_of_lt_of_le (by decide) status.lower)
    rw [checkRequest, if_pos hne]
    exact ⟨_, rfl, by simpa [Error.isError] using hpos, by simp [HttpReply.status?]; omega⟩

/-- A 200 response is accepted, or rejected for its version. -/
theorem checkApiVersion_code {value : Bytes} {err : Error} {stored : Option Bytes}
    (h : checkApiVersion value = .ok (err, stored)) : err.code = 0 ∨ err.code = -1 := by
  rw [checkApiVersion] at h
  split at h
  · cases h
    exact .inr rfl
  · obtain ⟨major, -, h⟩ := Fallible.bind_eq_ok.1 h
    obtain ⟨minor, -, h⟩ := Fallible.bind_eq_ok.1 h
    split at h
    · cases h
      exact .inr rfl
    · cases h
      exact .inl rfl

theorem checkRequest_of_ok {version stored : Option Bytes} {reply : HttpReply} {err : Error}
    (hstatus : reply.status? = some 200) (h : checkRequest version reply = .ok (err, stored)) :
    err.code = 0 ∨ err.code = -1 := by
  cases reply with
  | failed message => cases hstatus
  | response status headers body =>
    have hcode : ¬ status.code ≠ 200 := fun hne => hne (Option.some.inj hstatus)
    rw [checkRequest, if_neg hcode] at h
    split at h
    · cases h
      exact .inl rfl
    · obtain ⟨r, hr, h⟩ := Fallible.bind_eq_ok.1 h
      cases h
      exact checkApiVersion_code hr

/-- What a caller learns of the status of a response that the client has looked at. -/
theorem receive_status {version stored : Option Bytes} {reply : HttpReply}
    {resp : Result HttpAnswer} (h : receive version reply = .ok (resp, stored)) :
    (resp.error.isError = false → reply.status? = some 200) ∧
      (resp.error.code = 422 ↔ reply.status? = some 422) := by
  by_cases hstatus : reply.status? = some 200
  · cases hcheck : checkRequest version reply with
    | error fault =>
      rw [receive, hcheck] at h
      cases h
    | ok r =>
      have hcode := checkRequest_of_ok hstatus hcheck
      rw [receive_eq hcheck] at h
      cases h
      refine ⟨fun _ => hstatus, ?_⟩
      rw [hstatus]
      constructor
      · intro h422
        dsimp only at h422
        omega
      · rintro ⟨⟩
  · obtain ⟨err, hcheck, herr, hcode⟩ := @checkRequest_of_ne version _ hstatus
    rw [receive_eq hcheck] at h
    cases h
    exact ⟨fun hno => absurd (herr.symm.trans hno) (by decide), hcode⟩

/-- `IsCompatible`. -/
def isCompatible (min version : Bytes) : Except Fault Bool :=
  if version = [] then pure false
  else do
    let minVersion ← (getlines dot min).mapM stoi
    let currentVersion ← (getlines dot version).mapM stoi
    match minVersion, currentVersion with
    | [minMajor, minMinor], [major, minor] => pure (minMajor == major && decide (minMinor ≤ minor))
    | _, _ => pure false

/-- The version of a server: its major and minor number, which are `int`s. -/
structure ServerVersion where
  major : Nat
  minor : Nat
  major_lt : major < 2 ^ 31
  minor_lt : minor < 2 ^ 31

namespace ServerVersion

/-- The value of `x-reduct-api`. -/
def text (v : ServerVersion) : Bytes := decimal v.major ++ dot :: decimal v.minor

theorem stoi_decimal {n : Nat} (h : n < 2 ^ 31) : stoi (decimal n) = .ok (n : Int) := by
  have hsigned : decimalSigned (n : Int) = decimal n := by
    rw [decimalSigned, if_neg (by omega), Int.toNat_natCast]
  rw [← hsigned]
  exact stoi_decimalSigned (by omega) (by omega)

theorem decimal_no_dot (n : Nat) : dot ∉ decimal n := by
  intro h
  have hdigit := isDigit_of_mem_decimal h
  exact absurd hdigit (by decide)

theorem text_ne_nil (v : ServerVersion) : v.text ≠ [] := by
  simp [text]

/-- The two numbers of a version are read back. -/
theorem mapM_stoi_text (v : ServerVersion) :
    (getlines dot v.text).mapM stoi = .ok [(v.major : Int), (v.minor : Int)] := by
  have hfields : getlines dot v.text = [decimal v.major, decimal v.minor] := by
    rw [text, getlines_cons (decimal_no_dot _),
      getlines_singleton (decimal_no_dot _) (decimal_ne_nil _)]
  have hmajor := stoi_decimal v.major_lt
  have hminor := stoi_decimal v.minor_lt
  rw [hfields, Fallible.mapM_eq_ok]
  exact .cons hmajor (.cons hminor .nil)

theorem isCompatible_text (min v : ServerVersion) :
    isCompatible min.text v.text =
      .ok (decide (min.major = v.major) && decide (min.minor ≤ v.minor)) := by
  have hmajor : ((min.major : Int) == v.major) = decide (min.major = v.major) := by
    rw [Bool.eq_iff_iff, beq_iff_eq, decide_eq_true_eq]
    omega
  have hminor : decide ((min.minor : Int) ≤ v.minor) = decide (min.minor ≤ v.minor) := by
    simp
  rw [isCompatible, if_neg v.text_ne_nil, mapM_stoi_text, Fallible.ok_bind, mapM_stoi_text,
    Fallible.ok_bind]
  dsimp only
  rw [hmajor, hminor]
  rfl

theorem checkApiVersion_eq (v : ServerVersion) :
    checkApiVersion v.text =
      if v.major = 1 then .ok (.kOk, some v.text)
      else .ok (⟨-1, bytes "Unsupported API version: " ++ decimalSigned v.major ++ dot ::
        decimalSigned v.minor⟩, none) := by
  have hsplit : splitFirst dot v.text = some (decimal v.major, decimal v.minor) :=
    splitFirst_append (decimal_no_dot _) _
  simp only [checkApiVersion, hsplit, stoi_decimal v.major_lt, stoi_decimal v.minor_lt,
    Fallible.ok_bind]
  by_cases h : v.major = 1
  · have hmajor : ¬ (v.major : Int) ≠ majorVersion := fun hne => hne (congrArg Nat.cast h)
    rw [if_neg hmajor, if_pos h]
    rfl
  · have hmajor : (v.major : Int) ≠ majorVersion := fun heq => h (Int.ofNat.inj heq)
    rw [if_pos hmajor, if_neg h]
    rfl

end ServerVersion

/-! ## Programs of the client

A method of `Bucket` or `Client` is a dialogue: it sends requests through its
`IHttpClient`, and it may ask for the API version. -/

/-- A program that uses an `IHttpClient`. -/
abbrev Http (α : Type) := Dialogue ClientRequest (Result HttpAnswer) (Option Bytes) Uncaught α

/-- An `IHttpClient` in use. -/
abbrev HttpSession := Session ClientRequest HttpReply (Option Bytes)

namespace Http

/-- Run a program against the replies of the server. -/
def run {α : Type} (replies : Nat → HttpReply) (program : Http α) (s : HttpSession) :
    HttpSession × Except Uncaught α :=
  Dialogue.run receive replies program s

/-- `ApiVersion()`. -/
def apiVersion : Http (Option Bytes) := Dialogue.get

/-- Send a request, and take the part of the answer that the method returns. -/
def call {α : Type} (request : ClientRequest) (part : HttpAnswer → α) : Http (Result α) := do
  let resp ← Dialogue.send request
  pure ⟨part resp.result, if resp.error.isError then resp.error else .kOk⟩

/-- An error that `call` passes on is one exactly if the client has reported one. -/
theorem isError_passedOn (err : Error) :
    (if err.isError then err else .kOk).isError = err.isError := by
  by_cases h : err.isError
  · rw [if_pos h]
  · rw [if_neg h, Bool.eq_false_iff.2 h]
    rfl

/-- `Get(path)`. -/
def get (path : Bytes) : Http (Result JsonText) := call (.get path .empty) HttpAnswer.body

/-- `PostWithResponse(path, body)`. -/
def postWithResponse (path : Bytes) (body : JsonText) : Http (Result JsonText) :=
  call (.post path body) HttpAnswer.body

/-- `Put(path, body)`. -/
def put (path : Bytes) (body : JsonText) : Http Error := do
  let resp ← Dialogue.send (.put path body)
  pure resp.error

/-- `Post`, `Patch` and `Delete` with headers, where only the error is of interest. -/
def transfer (request : HttpRequest) : Http Error := do
  let resp ← Dialogue.send (.transfer request)
  pure resp.error

/-- `dump()` outside a `try` block. -/
def dump (v : Json) : Http JsonText :=
  match v.dump with
  | some text => pure text
  | none => .fail .dump

/-- A call of the batch code, which sends at most one request. -/
def ofCall {α : Type} (call : HttpServer → Outcome α) : Http (Result α) :=
  let nothing : Result (Bytes × Headers) := ⟨([], .empty), .kOk⟩
  match (call fun _ => nothing).sent with
  | [] => .ofExcept (uncaught (call fun _ => nothing).result)
  | request :: _ => do
    let resp ← Dialogue.send (.transfer request)
    .ofExcept (uncaught (call fun _ => ⟨([], resp.result.headers), resp.error⟩).result)

/-- `IsCompatible` inside a `noexcept` method. -/
def isCompatible (min version : Bytes) : Http Bool :=
  .ofExcept (uncaught (Reduct.isCompatible min version))

end Http

end Reduct
