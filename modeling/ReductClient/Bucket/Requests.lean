-- SUMMARY: What the methods of a bucket handle may send: where to, to which effect, and what after an error, over any history.
import ReductClient.Bucket.Capability
import ReductClient.Bucket.Identity
import ReductClient.Internal.HttpPolicies
import ReductClient.Internal.QueryPayloads

open Cxx

namespace Reduct

/-! ## What a method may send -/

namespace Bucket

/-- The path is that of the bucket, or below one of its two paths. -/
def Owns (b : Bucket) (path : Bytes) : Prop :=
  path = b.path ∨ b.path ++ bytes "/" <+: path ∨ b.ioPath ++ bytes "/" <+: path

/-- The request goes to the bucket, asks for the version of the server, or makes a link. -/
def Permits (b : Bucket) (q : ClientRequest) : Prop :=
  b.Owns q.path ∨ q = .get (bytes "/info") .empty ∨
    ∃ fileName body, q = .post (bytes "/links/" ++ fileName) body

/-- `RemoveAttachments` sends its batch after a query that its callback has stopped,
whatever the last read of the query came to. -/
def MarksAfterRead (b : Bucket) (q q' : ClientRequest) : Prop :=
  (∃ headers, q = .get (b.ioPath ++ bytes "/read") headers) ∧
    ∃ headers, q' = .transfer (.patch (b.ioPath ++ bytes "/update") [] headers)

/-- The request of each round of a query. -/
def readRequest (options : QueryOptions) (path : Bytes) (headers : Headers) : ClientRequest :=
  if options.headOnly then .head path headers else .get path headers

/-- Where the rounds of a query read, over either protocol. -/
def QueriesAt (b : Bucket) (path : Bytes) : Prop :=
  path = b.ioPath ++ bytes "/read" ∨
    ∃ entryName id, path = b.entryPath entryName ++ bytes "/batch?q=" ++ decimal id

/-- A continuous query reads again, with the same request. -/
def ReadsAgain (b : Bucket) (q q' : ClientRequest) : Prop :=
  (∃ options path headers, b.QueriesAt path ∧ q = readRequest options path headers) ∧ q' = q

/-- A request that a method of the given effect may send. -/
def Sends (b : Bucket) (effect : Effect) (q : ClientRequest) : Prop :=
  b.Permits q ∧ (q.effect = .reads ∨ q.effect = effect)

/-- The requests of a method. After an error there are none, but a query that has read the
status 204 may read again and `RemoveAttachments` marks records in any case. -/
def policy (b : Bucket) (effect : Effect) (marks : Bool) :
    Policy ClientRequest (Result HttpAnswer) LastExchange :=
  failFast (b.Sends effect) fun q code q' =>
    code = 204 ∧ b.ReadsAgain q q' ∨ marks = true ∧ b.MarksAfterRead q q'

/-- The name of a handle does not matter for what it may send. -/
theorem sends_congr {b b' : Bucket} (hpath : b.path = b'.path) (hioPath : b.ioPath = b'.ioPath) :
    b.Sends = b'.Sends := by
  funext effect q
  rw [Sends, Sends, Permits, Permits, Owns, Owns, hpath, hioPath]

theorem readsAgain_congr {b b' : Bucket} (hpath : b.path = b'.path) (hioPath : b.ioPath = b'.ioPath) :
    b.ReadsAgain = b'.ReadsAgain := by
  funext q q'
  simp only [ReadsAgain, QueriesAt, entryPath, hpath, hioPath]

theorem marksAfterRead_congr {b b' : Bucket} (hioPath : b.ioPath = b'.ioPath) :
    b.MarksAfterRead = b'.MarksAfterRead := by
  funext q q'
  rw [MarksAfterRead, MarksAfterRead, hioPath]

end Bucket

/-- The effect of a batch. -/
def BatchType.effect : BatchType → Effect
  | .kWrite => .writes
  | .kUpdate => .writes
  | .kRemove => .removes

/-- The effect of a method. `RemoveAttachments` marks records. -/
def ConstMethod.effect : ConstMethod → Effect
  | .getSettings | .getInfo | .getEntryList | .readAttachments .. | .read .. | .query ..
  | .queryEntries .. => .reads
  | .remove | .removeEntry _ | .removeRecord .. | .removeQuery .. | .removeQueryEntries .. =>
    .removes
  | .processBatchV1 _ _ type | .processBatchV2 _ type => type.effect
  | .updateSettings _ | .write .. | .writeAttachments .. | .removeAttachments .. | .update ..
  | .renameEntry .. | .createQueryLink .. | .createQueryLinkEntries .. => .writes

/-- The method marks records after a query. -/
def ConstMethod.marks : ConstMethod → Bool
  | .removeAttachments .. => true
  | _ => false

/-- The effect of an operation. -/
def Operation.effect : Operation → Effect
  | .const method => method.effect
  | .rename _ => .writes

/-- The operation marks records after a query. -/
def Operation.marks : Operation → Bool
  | .const method => method.marks
  | .rename _ => false

namespace Bucket

variable {b : Bucket} {effect : Effect} {marks : Bool} {last : LastExchange}

/-! ## Paths -/

theorem owns_path (b : Bucket) : b.Owns b.path := .inl rfl

theorem owns_below (b : Bucket) {path : Bytes} (h : b.path ++ bytes "/" <+: path) : b.Owns path :=
  .inr (.inl h)

theorem owns_entryPath (b : Bucket) (entryName rest : Bytes) :
    b.Owns (b.entryPath entryName ++ rest) :=
  b.owns_below ⟨entryName ++ rest, by simp [entryPath]⟩

theorem owns_entry (b : Bucket) (entryName : Bytes) : b.Owns (b.entryPath entryName) := by
  simpa using b.owns_entryPath entryName []

theorem owns_recordPath (b : Bucket) (entryName : Bytes) (ts : Time) :
    b.Owns (b.recordPath entryName ts) := by
  rw [recordPath, List.append_assoc]
  exact b.owns_entryPath entryName _

theorem owns_ioPath (b : Bucket) (rest : Bytes) : b.Owns (b.ioPath ++ (bytes "/" ++ rest)) :=
  .inr (.inr ⟨rest, by simp⟩)

theorem owns_queriesAt {path : Bytes} (h : b.QueriesAt path) : b.Owns path := by
  rcases h with rfl | ⟨entryName, id, rfl⟩
  · exact b.owns_ioPath (bytes "read")
  · rw [List.append_assoc]
    exact b.owns_entryPath entryName _

/-! ## Single requests -/

theorem sends_get {path : Bytes} {headers : Headers} (h : b.Owns path) :
    b.Sends effect (.get path headers) :=
  ⟨.inl h, .inl rfl⟩

theorem sends_head {path : Bytes} {headers : Headers} (h : b.Owns path) :
    b.Sends effect (.head path headers) :=
  ⟨.inl h, .inl rfl⟩

theorem sends_put {path : Bytes} {body : JsonText} (h : b.Owns path) :
    b.Sends .writes (.put path body) :=
  ⟨.inl h, .inr rfl⟩

theorem sends_transfer {request : HttpRequest} (h : b.Owns request.path) :
    b.Sends (ClientRequest.transfer request).effect (.transfer request) :=
  ⟨.inl h, .inr rfl⟩

/-- What the version is asked for with. -/
theorem sends_info : b.Sends effect (.get (bytes "/info") .empty) := ⟨.inr (.inl rfl), .inl rfl⟩

/-- A result does not matter at the end of a method. -/
theorem keeps_resultError {α : Type} {program : Http (Result α)}
    {Post : LastExchange → Result α → Prop} (h : program.Keeps (b.policy effect marks) Post last) :
    (resultError program).Keeps (b.policy effect marks) (fun _ _ => True) last :=
  h.bind fun _ _ _ => trivial

theorem keeps_ended {program : Http Error} {Post : LastExchange → Error → Prop}
    (h : program.Keeps (b.policy effect marks) Post last) :
    (ended program).Keeps (b.policy effect marks) (fun _ _ => True) last :=
  h.bind fun _ _ _ => trivial

theorem keeps_putDump {path : Bytes} {v : Json} (hpath : b.Owns path) (hlast : last.Succeeded) :
    (do
      let body ← Http.dump v
      Http.put path body).Keeps (b.policy .writes marks) (Reports id) last := by
  refine (Http.keeps_dump v).bind ?_
  rintro _ text ⟨rfl, -⟩
  exact Http.keeps_put (sends_put hpath) hlast

/-! ## The version -/

theorem keeps_supports :
    supportsBatchProtocolV2.Keeps (b.policy effect marks) (fun m _ => m = last) last := by
  intro version
  cases version with
  | none => rfl
  | some version => exact Http.keeps_ofExcept _

/-- A choice between the protocols. -/
theorem keeps_choice {α : Type} {Post : LastExchange → α → Prop} {v2 v1 : Http α}
    (h2 : v2.Keeps (b.policy effect marks) Post last)
    (h1 : v1.Keeps (b.policy effect marks) Post last) :
    (do if ← supportsBatchProtocolV2 then v2 else v1).Keeps (b.policy effect marks) Post last := by
  refine keeps_supports.bind ?_
  rintro _ supports rfl
  cases supports with
  | true => exact h2
  | false => exact h1

/-- A call that sends nothing but the requests of a batch. -/
theorem keeps_ofBatchCall {α : Type} {call : HttpServer → Outcome α}
    (hsent : ∀ server, ∀ request ∈ (call server).sent, b.Sends effect (.transfer request))
    (hlast : last.Succeeded) :
    (Http.ofCall call).Keeps (b.policy effect marks) (fun _ _ => True) last :=
  Http.keeps_ofCall fun server request hrequest =>
    Http.allows_failFast (hsent server request hrequest) hlast

/-- A call that is refused over protocol v1. -/
theorem keeps_supported {α : Type} {v2 : Http α} {refused : α}
    (h : v2.Keeps (b.policy effect marks) (fun _ _ => True) last) :
    (do if ← supportsBatchProtocolV2 then v2 else pure refused).Keeps (b.policy effect marks)
      (fun _ _ => True) last :=
  keeps_choice h trivial

theorem keeps_ensureApiVersion (hlast : last.Succeeded) :
    ensureApiVersion.Keeps (b.policy effect marks) (Reports Result.error) last := by
  intro version
  cases version with
  | some version => exact fun _ => hlast
  | none =>
    refine (Http.keeps_call sends_info hlast _).bind fun m info hinfo => ?_
    by_cases herr : info.error.isError = true
    · rw [if_pos herr]
      exact hinfo
    · rw [if_neg herr]
      intro version
      cases version with
      | none => exact fun _ => hinfo (Bool.eq_false_iff.2 herr)
      | some version => exact fun _ => hinfo (Bool.eq_false_iff.2 herr)

/-! ## Batches -/

theorem sends_requestV2 (b : Bucket) (batch : Batch) (type : BatchType) (request : BatchV2Request) :
    b.Sends type.effect (.transfer (requestV2 b.ioPath type batch request)) := by
  have hpath : b.Owns (requestV2 b.ioPath type batch request).path := by
    cases type with
    | kWrite => exact b.owns_ioPath (bytes "write")
    | kUpdate => exact b.owns_ioPath (bytes "update")
    | kRemove => exact b.owns_ioPath (bytes "remove")
  have heffect : (ClientRequest.transfer (requestV2 b.ioPath type batch request)).effect =
      type.effect := by
    cases type <;> rfl
  rw [← heffect]
  exact sends_transfer hpath

theorem sent_processRequestV2 {α : Type} {server : HttpServer} {batch : Batch} {type : BatchType}
    {built : Except Error BatchV2Request} {nothing : α}
    {decode : BatchV2Request → Headers → Except Fault α} :
    ∀ request ∈ (processRequestV2 server b.ioPath batch type built nothing decode).sent,
      b.Sends type.effect (.transfer request) := by
  intro request hrequest
  unfold processRequestV2 at hrequest
  split at hrequest
  · cases hrequest
  · split at hrequest
    · cases hrequest
    · cases List.mem_singleton.1 hrequest
      exact b.sends_requestV2 batch type _

section

variable [StdSort]

theorem sends_requestV1 (b : Bucket) (entryName : Bytes) (batch : Batch) (type : BatchType) :
    b.Sends type.effect (.transfer (requestV1 b.path entryName batch type)) := by
  have hpath : (requestV1 b.path entryName batch type).path =
      b.entryPath entryName ++ bytes "/batch" := by
    cases type <;> rfl
  have heffect : (ClientRequest.transfer (requestV1 b.path entryName batch type)).effect =
      type.effect := by
    cases type <;> rfl
  rw [← heffect]
  exact sends_transfer (hpath ▸ b.owns_entryPath entryName _)

theorem sent_processBatchV1 {server : HttpServer} {entryName : Bytes} {batch : Batch}
    {type : BatchType} :
    ∀ request ∈ (Reduct.processBatchV1 server b.path entryName batch type).sent,
      b.Sends type.effect (.transfer request) := by
  intro request hrequest
  unfold Reduct.processBatchV1 at hrequest
  split at hrequest
  · cases hrequest
  · cases List.mem_singleton.1 hrequest
    exact b.sends_requestV1 entryName batch type

theorem keeps_processBatchV1 (entryName : Bytes) (batch : Batch) (type : BatchType)
    (hlast : last.Succeeded) :
    (b.processBatchV1 entryName batch type).Keeps (b.policy type.effect marks)
      (fun _ _ => True) last :=
  keeps_choice (keeps_ofBatchCall (fun _ => sent_processRequestV2) hlast)
    (keeps_ofBatchCall (fun _ => sent_processBatchV1) hlast)

theorem keeps_fallback (batch : Batch) (type : BatchType) (hlast : last.Succeeded) :
    (b.processBatchFallback batch type).Keeps (b.policy type.effect marks)
      (fun _ _ => True) last := by
  unfold processBatchFallback
  dsimp only
  split
  · trivial
  · refine (keeps_ofBatchCall (fun _ => sent_processBatchV1) hlast).bind fun _ errors _ => ?_
    split <;> trivial

theorem keeps_processBatchV2 (batch : Batch) (type : BatchType) (hlast : last.Succeeded) :
    (b.processBatchV2 batch type).Keeps (b.policy type.effect marks) (fun _ _ => True) last := by
  unfold processBatchV2
  split
  · trivial
  · exact keeps_choice (keeps_ofBatchCall (fun _ => sent_processRequestV2) hlast)
      (keeps_fallback batch type hlast)

end

/-! ## Queries -/

/-- A query may be sent by a method of its effect. -/
theorem sends_query {type : Bytes} {path : Bytes} {entries : List Bytes} {start stop : Option Time}
    {options : QueryOptions} {payload : Json} (hpath : b.Owns path)
    (hpayload : queryOptionsToJsonString type entries start stop options = .ok payload)
    (htype : type = bytes "QUERY" ∨ type = bytes "REMOVE" ∧ effect = .removes) :
    b.Sends effect (.post path (.of payload)) := by
  rw [queryOptionsToJsonString_spec] at hpayload
  obtain ⟨spec, hspec, rfl⟩ : ∃ spec, QuerySpec.ofQuery type entries start stop options = .ok spec ∧
      spec.toJson = payload := by
    cases hspec : QuerySpec.ofQuery type entries start stop options with
    | error err => rw [hspec] at hpayload; cases hpayload
    | ok spec => rw [hspec] at hpayload; exact ⟨spec, rfl, Except.ok.inj hpayload⟩
  have hspecType : spec.type = type := by
    obtain ⟨when, -, hspec⟩ := Fallible.bind_eq_ok.1 hspec
    obtain ⟨ext, -, hspec⟩ := Fallible.bind_eq_ok.1 hspec
    cases hspec
    rfl
  have hquery : queryType (.of spec.toJson) = some type := by
    rw [queryType, spec.member?_queryType, hspecType]
  refine ⟨.inl hpath, ?_⟩
  rw [ClientRequest.effect, hquery]
  rcases htype with rfl | ⟨rfl, rfl⟩
  · exact .inl rfl
  · exact .inr rfl

theorem keeps_postQuery {α : Type} {Post : LastExchange → α → Prop} {path : Bytes}
    {payload : Except Error Json} {failed : Error → α} {next : JsonText → Http α}
    (hsends : ∀ p, payload = .ok p → b.Sends effect (.post path (.of p)))
    (hlast : last.Succeeded) (hfailed : ∀ m err, err.isError = true → Post m (failed err))
    (hpayload : ∀ err, payload = .error err → err.isError = true)
    (hnext : ∀ m body, LastExchange.Succeeded m →
      (next body).Keeps (b.policy effect marks) Post m) :
    (postQuery path payload failed next).Keeps (b.policy effect marks) Post last := by
  unfold postQuery
  cases hp : payload with
  | error err => exact hfailed last err (hpayload err hp)
  | ok p =>
    refine (Http.keeps_dump p).bind ?_
    rintro _ text ⟨rfl, rfl⟩
    refine (Http.keeps_call (hsends p hp) hlast _).bind fun m resp hresp => ?_
    by_cases herr : resp.error.isError = true
    · rw [if_pos herr]
      exact hfailed m _ herr
    · rw [if_neg herr]
      exact hnext m _ (hresp (Bool.eq_false_iff.2 herr))

theorem readLoop_succ (options : QueryOptions) (path : Bytes) (headers : Headers)
    (reading : Reading) (rounds : Nat) :
    readLoop options path headers reading (rounds + 1) =
      .ask (readRequest options path headers) fun resp =>
        if reading.stopped rounds resp then pure (some .kOk)
        else if resp.error.isError then
          if resp.error.code = 204 then
            if options.continuous then readLoop options path headers reading rounds
            else pure (some .kOk)
          else pure (some resp.error)
        else readLoop options path headers reading rounds := rfl

/-- What the loop of a query ends with: if there is no error, the last exchange was a
success or a read. -/
def AfterRead (q : ClientRequest) (last : LastExchange) (result : Option Error) : Prop :=
  ∀ err, result = some err → err.isError = false → last.Succeeded ∨ ∃ resp, last = some (q, resp)

/-- Each round sends the same request, after a success or the status 204. -/
theorem keeps_readLoop {options : QueryOptions} {path : Bytes} {headers : Headers}
    {reading : Reading} (hpath : b.QueriesAt path) (rounds : Nat)
    (hlast : last.Succeeded ∨ ∃ resp, resp.error.code = 204 ∧
      last = some (readRequest options path headers, resp)) :
    (readLoop options path headers reading rounds).Keeps (b.policy effect marks)
      (AfterRead (readRequest options path headers)) last := by
  induction rounds generalizing last with
  | zero =>
    rintro err ⟨⟩
  | succ rounds ih =>
    have hsends : b.Sends effect (readRequest options path headers) := by
      unfold readRequest
      split
      · exact sends_head (owns_queriesAt hpath)
      · exact sends_get (owns_queriesAt hpath)
    rw [readLoop_succ]
    refine ⟨⟨hsends, fun x hx herr => ?_⟩, fun resp => ?_⟩
    · rcases hlast with hlast | ⟨resp, hcode, rfl⟩
      · rw [hlast x hx] at herr
        cases herr
      · cases hx
        exact .inl ⟨hcode, ⟨options, path, headers, hpath, rfl⟩, rfl⟩
    · dsimp only
      by_cases hstopped : reading.stopped rounds resp = true
      · rw [if_pos hstopped]
        exact fun _ _ _ => .inr ⟨resp, rfl⟩
      rw [if_neg hstopped]
      by_cases herr : resp.error.isError = true
      · rw [if_pos herr]
        by_cases hcode : resp.error.code = 204
        · rw [if_pos hcode]
          split
          · exact ih (.inr ⟨resp, hcode, rfl⟩)
          · exact fun _ _ _ => .inr ⟨resp, rfl⟩
        · rw [if_neg hcode]
          rintro err ⟨⟩ hno
          rw [herr] at hno
          cases hno
      · rw [if_neg herr]
        exact ih (.inl (succeeded_some.2 (Bool.eq_false_iff.2 herr)))

/-- The error of an exception is one. -/
theorem isError_of_mapError {α : Type} {x : Except Bytes α} {err : Error}
    (h : x.mapError exceptionError = .error err) : err.isError = true := by
  cases x with
  | error what =>
    cases h
    rfl
  | ok a => cases h

theorem isError_of_parseOption {text : Option JsonText} {err : Error}
    (h : parseOption text = .error err) : err.isError = true := by
  cases text with
  | none => cases h
  | some text => exact isError_of_mapError h

/-- A payload that cannot be built is an error. -/
theorem isError_of_queryOptions {type : Bytes} {entries : List Bytes} {start stop : Option Time}
    {options : QueryOptions} {err : Error}
    (h : queryOptionsToJsonString type entries start stop options = .error err) :
    err.isError = true := by
  rw [queryOptionsToJsonString] at h
  cases hwhen : parseOption options.when with
  | error err' =>
    rw [hwhen] at h
    cases h
    exact isError_of_parseOption hwhen
  | ok when =>
    rw [hwhen, Fallible.ok_bind] at h
    cases hext : parseOption options.ext with
    | error err' =>
      rw [hext] at h
      cases h
      exact isError_of_parseOption hext
    | ok ext =>
      rw [hext] at h
      cases h

theorem keeps_queryV1 (entryName : Bytes) (start stop : Option Time) (options : QueryOptions)
    (reading : Reading) (hlast : last.Succeeded) :
    (b.queryV1 entryName start stop options reading).Keeps (b.policy effect marks) (fun _ _ => True)
      last := by
  refine keeps_postQuery (fun p hp => sends_query (b.owns_entryPath _ _) hp (.inl rfl)) hlast
    (fun _ _ _ => trivial) (fun _ => isError_of_queryOptions) fun m body hm => ?_
  cases queryId body with
  | error err => trivial
  | ok id =>
    exact (keeps_readLoop (.inr ⟨entryName, id, rfl⟩) _ (.inl hm)).mono fun _ _ _ => trivial

/-- The headers of the reads of a query. -/
def queryHeaders (id : Nat) : Headers := UnorderedMap.empty.emplace kHeaderQueryId (decimal id)

theorem isError_of_queryId {body : JsonText} {err : Error} (h : queryId body = .error err) :
    err.isError = true :=
  isError_of_mapError h

theorem keeps_queryV2 (entries : List Bytes) (start stop : Option Time) (options : QueryOptions)
    (reading : Reading) (hlast : last.Succeeded) :
    (b.queryV2 entries start stop options reading).Keeps (b.policy effect marks)
      (fun m result => ∃ headers,
        AfterRead (readRequest options (b.ioPath ++ bytes "/read") headers) m result) last := by
  have hfailed : ∀ (m : LastExchange) (err : Error), err.isError = true →
      ∃ headers,
        AfterRead (readRequest options (b.ioPath ++ bytes "/read") headers) m (some err) := by
    intro m err herr
    refine ⟨.empty, ?_⟩
    rintro _ ⟨⟩ hno
    rw [herr] at hno
    cases hno
  refine keeps_postQuery (fun p hp => sends_query (b.owns_ioPath (bytes "q")) hp (.inl rfl)) hlast
    hfailed (fun _ => isError_of_queryOptions) fun m body hm => ?_
  cases hid : queryId body with
  | error err => exact hfailed m err (isError_of_queryId hid)
  | ok id =>
    exact (keeps_readLoop (.inl rfl) _ (.inl hm)).mono
      fun _ _ h => ⟨queryHeaders id, h⟩

theorem keeps_removeQueryV1 (entryName : Bytes) (start stop : Option Time) (options : QueryOptions)
    (hlast : last.Succeeded) :
    (b.removeQueryV1 entryName start stop options).Keeps (b.policy .removes marks) (fun _ _ => True)
      last :=
  keeps_postQuery (fun _ hp => sends_query (b.owns_entryPath _ _) hp (.inr ⟨rfl, rfl⟩)) hlast
    (fun _ _ _ => trivial) (fun _ => isError_of_queryOptions) fun _ _ _ => trivial

theorem keeps_removeQueryV2 (entries : List Bytes) (start stop : Option Time)
    (options : QueryOptions) (hlast : last.Succeeded) :
    (b.removeQueryV2 entries start stop options).Keeps (b.policy .removes marks) (fun _ _ => True)
      last := by
  unfold removeQueryV2
  cases hp : queryOptionsToJsonString (bytes "REMOVE") entries start stop options with
  | error err =>
    exact keeps_postQuery (fun _ h => by cases h) hlast (fun _ _ _ => trivial)
      (fun _ h => Except.error.inj h ▸ isError_of_queryOptions hp) fun _ _ _ => trivial
  | ok payload =>
    dsimp only
    split
    · exact keeps_postQuery (fun _ h => by cases h) hlast (fun _ _ _ => trivial)
        (fun _ h => Except.error.inj h ▸ rfl) fun _ _ _ => trivial
    · refine keeps_postQuery ?_ hlast (fun _ _ _ => trivial) (fun _ h => by cases h)
        fun _ _ _ => trivial
      rintro p ⟨⟩
      exact sends_query (b.owns_ioPath (bytes "q")) hp (.inr ⟨rfl, rfl⟩)

/-! ## Query links -/

theorem sends_link {fileName : Bytes} {now : Time} {bucket : Bytes} {entries : List Bytes}
    {options : QueryLinkOptions} {payload : Json}
    (h : queryLinkOptionsToJsonString now bucket entries options = .ok (.ok payload)) :
    b.Sends .writes (.post (bytes "/links/" ++ fileName) (.of payload)) := by
  obtain ⟨spec, -, rfl⟩ := LinkSpec.of_payload h
  have hquery : queryType (.of spec.toJson) = none := by rw [queryType, spec.member?_queryType]
  refine ⟨.inr (.inr ⟨fileName, _, rfl⟩), .inr ?_⟩
  rw [ClientRequest.effect, hquery]
  rfl

theorem isError_of_queryLinkOptions {now : Time} {bucket : Bytes} {entries : List Bytes}
    {options : QueryLinkOptions} {err : Error}
    (h : queryLinkOptionsToJsonString now bucket entries options = .ok (.error err)) :
    err.isError = true := by
  cases entries with
  | nil => cases h
  | cons entry entries => ?_
  simp only [queryLinkOptionsToJsonString] at h
  cases hquery : queryOptionsToJsonString (bytes "QUERY") (entry :: entries) options.start
      options.stop options.queryOptions with
  | error err' =>
    rw [hquery] at h
    cases h
    exact isError_of_queryOptions hquery
  | ok query =>
    rw [hquery] at h
    cases h

theorem keeps_normalize (entries : List Bytes) (options : QueryLinkOptions)
    (hlast : last.Succeeded) :
    (normalizeAndValidateQueryLinkOptions entries options).Keeps (b.policy effect marks)
      (fun m normalized => ∀ options, normalized = .ok options → m.Succeeded) last := by
  unfold normalizeAndValidateQueryLinkOptions
  cases normalizeRecord entries options with
  | error err => rintro options ⟨⟩
  | ok options =>
    refine (keeps_ensureApiVersion hlast).bind fun m version hversion => ?_
    by_cases herr : version.error.isError = true
    · rw [if_pos herr]
      rintro options ⟨⟩
    · rw [if_neg herr]
      refine (Http.keeps_ofExcept _).bind ?_
      rintro _ compatible rfl
      split
      · rintro options ⟨⟩
      · exact fun _ _ => hversion (Bool.eq_false_iff.2 herr)

theorem keeps_createLink (fileStem : Bytes) (entries : List Bytes) (options : QueryLinkOptions)
    (now : Time) (hlast : last.Succeeded) :
    (b.createLink fileStem entries options now).Keeps (b.policy .writes marks)
      (fun _ _ => True) last := by
  refine (keeps_normalize entries options hlast).bind fun m normalized hm => ?_
  cases normalized with
  | error err => trivial
  | ok options =>
    have hkeeps : Dialogue.Keeps (b.policy .writes marks) (fun m' payload => m' = m ∧
        queryLinkOptionsToJsonString now b.name entries options = .ok payload) m
        (.ofExcept (uncaught (queryLinkOptionsToJsonString now b.name entries options)) :
          Http (Except Error Json)) :=
      Dialogue.keeps_ofExcept fun _ h => ⟨rfl, uncaught_eq_ok.1 h⟩
    refine hkeeps.bind ?_
    rintro _ payload ⟨rfl, hpayload⟩
    exact keeps_postQuery (fun _ h => sends_link (h ▸ hpayload)) (hm options rfl)
      (fun _ _ _ => trivial) (fun _ h => isError_of_queryLinkOptions (h ▸ hpayload))
      fun _ _ _ => trivial

/-! ## Attachments -/

/-- The query of a removal asks for more than the headers. -/
theorem headOnly_removalOptions {keys : KeySet} {options : QueryOptions}
    (h : removalOptions keys = .ok options) : options.headOnly = false := by
  unfold removalOptions at h
  split at h
  · cases h
    rfl
  · split at h
    · cases h
    · cases h
      rfl

theorem keeps_removalOptions (keys : KeySet) :
    Dialogue.Keeps (b.policy effect marks) (fun m options => m = last ∧ options.headOnly = false)
      last (.ofExcept (removalOptions keys) : Http QueryOptions) :=
  Dialogue.keeps_ofExcept fun _ h => ⟨rfl, headOnly_removalOptions h⟩

section

variable [StdSort]

theorem keeps_sendAttachments {batch : Batch} {type : BatchType}
    (hallows : ∀ request, (b.policy effect marks).Allows last
      (.transfer (requestV2 b.ioPath type batch request))) :
    (b.sendAttachments batch type).Keeps (b.policy effect marks) (fun _ _ => True) last := by
  refine (Http.keeps_ofCall fun server request hrequest => ?_).bind fun _ errors _ => ?_
  · unfold processBatchV2Records processRequestV2 at hrequest
    split at hrequest
    · cases hrequest
    · split at hrequest
      · cases hrequest
      · cases List.mem_singleton.1 hrequest
        exact hallows _
  · split <;> trivial

theorem keeps_writeAttachments [JsonReader] (entryName : Bytes) (attachments : AttachmentMap)
    (now : Time) (hlast : last.Succeeded) :
    (b.writeAttachments entryName attachments now).Keeps (b.policy .writes marks) (fun _ _ => True)
      last := by
  unfold writeAttachments
  split
  · trivial
  · refine (Http.keeps_ofExcept _).bind ?_
    rintro _ built rfl
    cases built with
    | error err => trivial
    | ok batch =>
      exact keeps_sendAttachments fun request =>
        Http.allows_failFast (b.sends_requestV2 batch .kWrite request) hlast

theorem keeps_removeAttachments (entryName : Bytes) (keys : KeySet) (reading : Reading)
    (removeBatch : Batch) (hlast : last.Succeeded) :
    (b.removeAttachments entryName keys reading removeBatch).Keeps (b.policy .writes true)
      (fun _ _ => True) last := by
  refine (keeps_removalOptions keys).bind ?_
  rintro _ options ⟨rfl, hhead⟩
  refine (keeps_queryV2 _ none none options reading hlast).bind ?_
  rintro m result ⟨headers, hread⟩
  cases result with
  | none => trivial
  | some err =>
    by_cases herr : err.isError = true
    · simp only [herr, if_true]
      trivial
    · simp only [herr]
      refine (keeps_sendAttachments fun request =>
        ⟨b.sends_requestV2 removeBatch .kUpdate request, fun x hx hfailed => ?_⟩).bind
          fun _ _ _ => trivial
      rcases hread err rfl (Bool.eq_false_iff.2 herr) with hsucceeded | ⟨resp, rfl⟩
      · rw [hsucceeded x hx] at hfailed
        cases hfailed
      · cases hx
        refine .inr ⟨rfl, ⟨headers, ?_⟩, _, rfl⟩
        rw [readRequest, hhead]
        rfl

end

/-! ## Single records -/

theorem keeps_readRecord {head : Bool} {path : Bytes} {headers : Headers}
    {stopped : Result HttpAnswer → Bool} (hpath : b.Owns path) (hlast : last.Succeeded) :
    (readRecord head path headers stopped).Keeps (b.policy effect marks)
      (fun _ _ => True) last := by
  refine Http.keeps_ask ?_ hlast fun _ => trivial
  split
  · exact sends_head hpath
  · exact sends_get hpath

theorem keeps_read (head : Bool) (entryName : Bytes) (ts : Option Time) (hlast : last.Succeeded) :
    (b.read head entryName ts).Keeps (b.policy effect marks) (fun _ _ => True) last := by
  unfold read
  refine (keeps_readRecord ?_ hlast).bind fun _ _ _ => trivial
  cases ts with
  | none => exact b.owns_entry entryName
  | some ts => exact b.owns_recordPath entryName ts

theorem keeps_update (entryName : Bytes) (options : WriteOptions) (hlast : last.Succeeded) :
    (b.update entryName options).Keeps (b.policy .writes marks) (Reports id) last := by
  unfold update
  cases options.timestamp with
  | none => exact fun _ => hlast
  | some ts => exact Http.keeps_transfer (sends_transfer (b.owns_recordPath entryName ts)) hlast

end Bucket

/-! ## All methods -/

variable [StdSort] [JsonReader]

open Bucket in
/-- A call of a `const` method keeps the policy of its effect. -/
theorem ConstMethod.keeps_call (b : Bucket) (method : ConstMethod) :
    (method.call b).Keeps (b.policy method.effect method.marks) (fun _ _ => True) none := by
  have hnone := succeeded_none
  cases method with
  | getSettings => exact keeps_resultError (Http.keeps_call (sends_get b.owns_path) hnone _)
  | getInfo => exact keeps_resultError (Http.keeps_call (sends_get b.owns_path) hnone _)
  | getEntryList => exact keeps_resultError (Http.keeps_call (sends_get b.owns_path) hnone _)
  | updateSettings settings => exact keeps_ended (keeps_putDump b.owns_path hnone)
  | remove => exact keeps_ended (Http.keeps_transfer (sends_transfer b.owns_path) hnone)
  | removeEntry entryName =>
    exact keeps_ended (Http.keeps_transfer (sends_transfer (b.owns_entry entryName)) hnone)
  | removeRecord entryName ts =>
    exact keeps_ended (Http.keeps_transfer (sends_transfer (b.owns_recordPath entryName ts)) hnone)
  | write entryName options record now =>
    exact keeps_ended (Http.keeps_transfer (sends_transfer (b.owns_recordPath entryName _)) hnone)
  | processBatchV1 entryName batch type =>
    exact keeps_resultError (keeps_processBatchV1 entryName batch type hnone)
  | processBatchV2 batch type => exact keeps_resultError (keeps_processBatchV2 batch type hnone)
  | writeAttachments entryName attachments now =>
    exact keeps_ended (keeps_writeAttachments entryName attachments now hnone)
  | readAttachments entryName reading =>
    exact (keeps_queryV2 _ none none {} reading hnone).mono fun _ _ _ => trivial
  | removeAttachments entryName keys reading removeBatch =>
    exact keeps_removeAttachments entryName keys reading removeBatch hnone
  | update entryName options => exact keeps_ended (keeps_update entryName options hnone)
  | read head entryName ts => exact keeps_ended (keeps_read head entryName ts hnone)
  | query entryName start stop options reading =>
    exact keeps_choice
      ((keeps_queryV2 _ start stop options reading hnone).mono fun _ _ _ => trivial)
      (keeps_queryV1 entryName start stop options reading hnone)
  | queryEntries entryNames start stop options reading =>
    refine keeps_supported ?_
    split
    · trivial
    · exact (keeps_queryV2 _ start stop options reading hnone).mono fun _ _ _ => trivial
  | removeQuery entryName start stop options =>
    exact keeps_resultError (keeps_choice (keeps_removeQueryV2 _ start stop options hnone)
      (keeps_removeQueryV1 entryName start stop options hnone))
  | removeQueryEntries entryNames start stop options =>
    refine keeps_resultError (keeps_supported ?_)
    split
    · trivial
    · exact keeps_removeQueryV2 _ start stop options hnone
  | renameEntry oldName newName =>
    exact keeps_ended (keeps_putDump (b.owns_entryPath oldName _) hnone)
  | createQueryLink entryName options now =>
    exact keeps_resultError (keeps_createLink entryName _ options now hnone)
  | createQueryLinkEntries entries options now =>
    refine keeps_resultError (keeps_supported ?_)
    split
    · trivial
    · exact keeps_createLink b.name entries options now hnone

open Bucket in
theorem Operation.keeps_perform (b : Bucket) (op : Operation) :
    (op.perform b).Keeps (b.policy op.effect op.marks) (fun _ _ => True) none := by
  cases op with
  | const method => exact (method.keeps_call b).bind fun _ _ _ => trivial
  | rename newName =>
    have hput : (b.rename newName).Keeps (b.policy .writes false) (fun _ _ => True) none := by
      unfold Bucket.rename
      refine (Http.keeps_dump _).bind ?_
      rintro _ text ⟨rfl, -⟩
      refine (Http.keeps_put (sends_put (b.owns_below ?_)) succeeded_none).bind fun _ err _ => ?_
      · exact ⟨bytes "rename", by rw [List.append_assoc]; rfl⟩
      · split <;> trivial
    exact hput.bind fun _ _ _ => trivial

/-! ## Histories -/

/-- A handle follows the renames with its two paths. -/
theorem paths_after (name : Bytes) (replies : Nat → HttpReply) (s : HttpSession)
    (ops : List Operation) :
    let past := history replies (.build name) s ops
    (afterHistory replies (.build name) s ops).1.path = (Bucket.build (nameAfter name past)).path ∧
      (afterHistory replies (.build name) s ops).1.ioPath =
        (Bucket.build (nameAfter name past)).ioPath := by
  intro past
  rw [afterHistory]
  cases hlast : past.getLast? with
  | none =>
    rw [List.getLast?_eq_none_iff.1 hlast]
    exact ⟨rfl, rfl⟩
  | some p =>
    obtain ⟨before, hpast⟩ := List.getLast?_eq_some_iff.1 hlast
    have hbucket := bucket_of_history hpast
    rw [Bucket.build, foldl_afterRename, ← hpast] at hbucket
    rw [Option.map_some, Option.getD_some, hbucket]
    exact ⟨rfl, rfl⟩

/-- What a call sends that follows the calls of a history, with the replies to it. -/
def exchangesOf (replies : Nat → HttpReply) (name : Bytes) (s : HttpSession) (ops : List Operation)
    (op : Operation) : List (ClientRequest × HttpReply) :=
  let before := afterHistory replies (.build name) s ops
  ((op.perform before.1).run replies before.2).1.log.drop before.2.log.length

omit [StdSort] [JsonReader] in
/-- What the policy of a handle accepts. -/
theorem Bucket.accepts_policy {b : Bucket} {effect : Effect} {marks : Bool}
    {sent : List (ClientRequest × HttpReply)}
    (h : (b.policy effect marks).Accepts receive none sent) :
    (∀ x ∈ sent, b.Sends effect x.1) ∧
      ∀ before x y rest, sent = before ++ x :: y :: rest →
        x.2.Accepted ∨ x.2.status? = some 204 ∧ b.ReadsAgain x.1 y.1 ∨
          marks = true ∧ b.MarksAfterRead x.1 y.1 := by
  obtain ⟨hsends, hnext⟩ := Http.accepts_failFast h
  refine ⟨hsends, fun before x y rest heq => ?_⟩
  rcases hnext before x y rest heq with haccepted | ⟨version, resp, stored, hreceive, hexempt⟩
  · exact .inl haccepted
  · rcases hexempt with ⟨hcode, hagain⟩ | hmarks
    · exact .inr (.inl ⟨receive_code hreceive hcode (by decide), hagain⟩)
    · exact .inr (.inr hmarks)

/-- The policies of a handle are those of the bucket it was last renamed to. -/
theorem policy_after (name : Bytes) (replies : Nat → HttpReply) (s : HttpSession)
    (ops : List Operation) (effect : Effect) (marks : Bool) :
    (afterHistory replies (.build name) s ops).1.policy effect marks =
      (Bucket.build (nameAfter name (history replies (.build name) s ops))).policy effect
        marks := by
  obtain ⟨hpath, hioPath⟩ := paths_after name replies s ops
  rw [Bucket.policy, Bucket.policy, Bucket.sends_congr hpath hioPath,
    Bucket.readsAgain_congr hpath hioPath, Bucket.marksAfterRead_congr hioPath]

/-- What the policy of the call makes of its exchanges. -/
theorem exchangesOf_spec (name : Bytes) (replies : Nat → HttpReply) (s : HttpSession)
    (ops : List Operation) (op : Operation) :
    let bucket := Bucket.build (nameAfter name (history replies (.build name) s ops))
    (∀ x ∈ exchangesOf replies name s ops op, bucket.Sends op.effect x.1) ∧
      ∀ before x y rest, exchangesOf replies name s ops op = before ++ x :: y :: rest →
        x.2.Accepted ∨ x.2.status? = some 204 ∧ bucket.ReadsAgain x.1 y.1 ∨
          op.marks = true ∧ bucket.MarksAfterRead x.1 y.1 := by
  intro bucket
  let state := afterHistory replies (.build name) s ops
  have hkeeps := op.keeps_perform state.1
  rw [policy_after] at hkeeps
  obtain ⟨sent, hlog, haccepts⟩ := hkeeps.accepts_run receive replies state.2
  have hsent : exchangesOf replies name s ops op = sent := by
    dsimp only [exchangesOf, Http.run]
    rw [hlog, List.drop_left]
  rw [hsent]
  exact Bucket.accepts_policy haccepts

/-- The requests go to the bucket `n`, or to one of the two places of the server that
belong to no bucket. -/
def ConfinedTo (n : Bytes) (sent : List (ClientRequest × HttpReply)) : Prop :=
  ∀ x ∈ sent, (Bucket.build n).Permits x.1

/-- Whatever was called before and whatever the server has replied, a call stays within
the bucket that the handle was last renamed to. -/
theorem exchanges_confined (name : Bytes) (replies : Nat → HttpReply) (s : HttpSession)
    (ops : List Operation) (op : Operation) :
    ConfinedTo (nameAfter name (history replies (.build name) s ops))
      (exchangesOf replies name s ops op) :=
  fun x hx => ((exchangesOf_spec name replies s ops op).1 x hx).1

/-- The requests read, or do what the effect says. -/
def LimitedTo (effect : Effect) (sent : List (ClientRequest × HttpReply)) : Prop :=
  ∀ x ∈ sent, x.1.effect = .reads ∨ x.1.effect = effect

/-- A method that reads only reads, one that writes does not remove, and one that removes
does not write. -/
theorem exchanges_limited (name : Bytes) (replies : Nat → HttpReply) (s : HttpSession)
    (ops : List Operation) (op : Operation) :
    LimitedTo op.effect (exchangesOf replies name s ops op) :=
  fun x hx => ((exchangesOf_spec name replies s ops op).1 x hx).2

/-- A response that is not accepted is the last one, but for the 204 to the read of a query,
which may be read again, and the batch that `RemoveAttachments` sends after reading. -/
def StopsAtErrors (n : Bytes) (op : Operation) (sent : List (ClientRequest × HttpReply)) : Prop :=
  ∀ before x y rest, sent = before ++ x :: y :: rest →
    x.2.Accepted ∨ x.2.status? = some 204 ∧ (Bucket.build n).ReadsAgain x.1 y.1 ∨
      op.marks = true ∧ (Bucket.build n).MarksAfterRead x.1 y.1

/-- No call goes on after a response that it has not accepted. -/
theorem exchanges_stop (name : Bytes) (replies : Nat → HttpReply) (s : HttpSession)
    (ops : List Operation) (op : Operation) :
    StopsAtErrors (nameAfter name (history replies (.build name) s ops)) op
      (exchangesOf replies name s ops op) :=
  (exchangesOf_spec name replies s ops op).2

end Reduct
