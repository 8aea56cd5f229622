-- SUMMARY: The choice between the protocols on a bucket handle: how it depends on the requests made before, and when it follows the version of the server.
import ReductClient.Bucket.Operations

open Cxx

namespace Reduct

variable [StdSort] [JsonReader]

/-! ## A server of one version -/

/-- The replies of a server of version `v`: each 200 response carries it. -/
structure ServerReplies (v : ServerVersion) where
  reply : Nat → HttpReply
  version : ∀ n status headers body, reply n = .response status headers body →
    status.code = 200 → findHeader headers kHeaderApi = some v.text

/-- The version is at least 1.18. -/
def ServerVersion.AtLeast118 (v : ServerVersion) : Prop :=
  1 < v.major ∨ v.major = 1 ∧ 18 ≤ v.minor

instance (v : ServerVersion) : Decidable v.AtLeast118 :=
  inferInstanceAs (Decidable (1 < v.major ∨ v.major = 1 ∧ 18 ≤ v.minor))

/-- The client of a handle that is built with the version of the server, or without
a version. -/
def ServerVersion.newSession (v : ServerVersion) (built : Bool) : HttpSession :=
  ⟨if built then some v.text else none, []⟩

/-- The client has been told the version, when it was built or by a response that
it accepted. -/
def ServerVersion.Known (v : ServerVersion) (built : Bool) (s : HttpSession) : Prop :=
  built = true ∨ v.major = 1 ∧ ∃ x ∈ s.log, x.2.status? = some 200

/-- What the client knows of the version. -/
def ServerVersion.Learned (v : ServerVersion) (built : Bool) (s : HttpSession) : Prop :=
  (v.Known built s → s.state = some v.text) ∧ (¬ v.Known built s → s.state = none)

section Learning

variable {v : ServerVersion} {built : Bool}

omit [StdSort] [JsonReader]

theorem known_exchange {s : HttpSession} {q : ClientRequest} {a : HttpReply}
    {state : Option Bytes} :
    v.Known built (s.exchange q a state) ↔
      v.Known built s ∨ v.major = 1 ∧ a.status? = some 200 := by
  simp only [ServerVersion.Known, Session.exchange_log, List.mem_append, List.mem_singleton]
  constructor
  · rintro (h | ⟨h, x, hx | rfl, hsuccess⟩)
    · exact .inl (.inl h)
    · exact .inl (.inr ⟨h, x, hx, hsuccess⟩)
    · exact .inr ⟨h, hsuccess⟩
  · rintro ((h | ⟨h, x, hx, hsuccess⟩) | ⟨h, hsuccess⟩)
    · exact .inl h
    · exact .inr ⟨h, x, .inl hx, hsuccess⟩
    · exact .inr ⟨h, _, .inr rfl, hsuccess⟩

/-- What `CheckRequest` stores of a reply of the server. -/
theorem receive_version (server : ServerReplies v) (n : Nat) (version : Option Bytes) :
    ∃ resp, receive version (server.reply n) =
      .ok (resp, if v.major = 1 ∧ (server.reply n).status? = some 200 then some v.text
        else version) := by
  suffices h : ∃ err, checkRequest version (server.reply n) =
      .ok (err, if v.major = 1 ∧ (server.reply n).status? = some 200 then some v.text
        else version) by
    obtain ⟨err, hcheck⟩ := h
    exact ⟨_, receive_eq hcheck⟩
  by_cases hstatus : (server.reply n).status? = some 200
  · have hversion := server.version n
    cases hreply : server.reply n with
    | failed message =>
      rw [hreply] at hstatus
      cases hstatus
    | response status headers body =>
      have hcode : status.code = 200 := by
        rw [hreply] at hstatus
        exact Option.some.inj hstatus
      simp only [checkRequest, HttpReply.status?, hcode, hversion status headers body hreply hcode,
        v.checkApiVersion_eq, ne_eq, not_true_eq_false, if_false, and_true]
      by_cases hmajor : v.major = 1
      · rw [if_pos hmajor, if_pos hmajor]
        exact ⟨.kOk, rfl⟩
      · rw [if_neg hmajor, if_neg hmajor]
        exact ⟨_, rfl⟩
  · obtain ⟨err, hcheck, -⟩ := checkRequest_of_ne hstatus
    rw [hcheck, if_neg fun h => hstatus h.2]
    exact ⟨err, rfl⟩

/-- One exchange teaches the client the version if it accepts the response. -/
theorem learned_exchange (server : ServerReplies v) {s : HttpSession} (h : v.Learned built s)
    (q : ClientRequest) {resp : Result HttpAnswer} {state : Option Bytes}
    (hreceive : receive s.state (server.reply s.log.length) = .ok (resp, state)) :
    v.Learned built (s.exchange q (server.reply s.log.length) state) := by
  obtain ⟨_, hstored⟩ := receive_version server s.log.length s.state
  cases hreceive.symm.trans hstored
  rw [ServerVersion.Learned, known_exchange, Session.exchange_state]
  by_cases haccepted : v.major = 1 ∧ (server.reply s.log.length).status? = some 200
  · rw [if_pos haccepted]
    exact ⟨fun _ => rfl, fun hnot => absurd (.inr haccepted) hnot⟩
  · rw [if_neg haccepted]
    refine ⟨fun hknown => h.1 (hknown.resolve_right haccepted), fun hnot => ?_⟩
    exact h.2 fun hknown => hnot (.inl hknown)

/-- So does a whole program. -/
theorem learned_run {α : Type} (server : ServerReplies v) (program : Http α) {s : HttpSession}
    (h : v.Learned built s) : v.Learned built (program.run server.reply s).1 := by
  refine Dialogue.run_invariant (v.Learned built) ?_ ?_ program h
  · intro s q resp state hs hreceive
    exact learned_exchange server hs q hreceive
  · intro s q e _ herror
    obtain ⟨_, hstored⟩ := receive_version server s.log.length s.state
    cases herror.symm.trans hstored

theorem learned_newSession : v.Learned built (v.newSession built) := by
  have hknown : v.Known built (v.newSession built) ↔ built = true := by
    simp [ServerVersion.Known, ServerVersion.newSession]
  rw [ServerVersion.Learned, hknown, ServerVersion.newSession]
  cases built with
  | true => exact ⟨fun _ => rfl, fun h => absurd rfl h⟩
  | false => exact ⟨fun h => absurd h (by decide), fun _ => rfl⟩

end Learning

/-! ## Histories -/

/-- The handle and the client after a history. -/
def afterHistory (replies : Nat → HttpReply) (b : Bucket) (s : HttpSession)
    (ops : List Operation) : Bucket × HttpSession :=
  (((history replies b s ops).getLast?).map fun p => (p.bucket, p.session)).getD (b, s)

/-- Over a history the client learns the version from the responses it accepts. -/
theorem learned_afterHistory {v : ServerVersion} {built : Bool} (server : ServerReplies v)
    (b : Bucket) (ops : List Operation) :
    v.Learned built (afterHistory server.reply b (v.newSession built) ops).2 := by
  have hall := history_invariant (fun _ s => v.Learned built s)
    (fun b s p hs hrun => by
      have hlearned := learned_run server (p.op.perform b) hs
      rwa [hrun] at hlearned)
    (b := b) learned_newSession ops
  unfold afterHistory
  cases hlast : (history server.reply b (v.newSession built) ops).getLast? with
  | none => exact learned_newSession
  | some p => exact hall p (List.mem_of_getLast? hlast)

/-! ## The choice -/

/-- `SupportsBatchProtocolV2`, from what the client knows. -/
def ServerVersion.Supports (v : ServerVersion) (built : Bool) (s : HttpSession) : Prop :=
  v.Known built s ∧ v.major = 1 ∧ 18 ≤ v.minor

omit [StdSort] [JsonReader] in
theorem run_supportsBatchProtocolV2 {v : ServerVersion} {built : Bool} {s : HttpSession}
    (h : v.Learned built s) (replies : Nat → HttpReply) :
    ∃ supports, (supports = true ↔ v.Supports built s) ∧
      Bucket.supportsBatchProtocolV2.run replies s = (s, .ok supports) := by
  by_cases hknown : v.Known built s
  · have hmin : (⟨1, 18, by decide, by decide⟩ : ServerVersion).text = bytes "1.18" := by decide
    have hcompatible := ServerVersion.isCompatible_text ⟨1, 18, by decide, by decide⟩ v
    rw [hmin] at hcompatible
    refine ⟨decide (1 = v.major) && decide (18 ≤ v.minor), ?_, ?_⟩
    · rw [Bool.and_eq_true, decide_eq_true_eq, decide_eq_true_eq]
      exact ⟨fun hs => ⟨hknown, hs.1.symm, hs.2⟩, fun hs => ⟨hs.2.1.symm, hs.2.2⟩⟩
    · have hversion : Http.apiVersion.run replies s = (s, .ok (some v.text)) := by
        rw [← h.1 hknown]
        rfl
      have hrun : Bucket.supportsBatchProtocolV2.run replies s =
          (Http.isCompatible (bytes "1.18") v.text).run replies s := Dialogue.run_bind_ok hversion
      rw [hrun, Http.isCompatible, hcompatible]
      rfl
  · refine ⟨false, ?_, ?_⟩
    · simp [ServerVersion.Supports, hknown]
    · have hversion : Http.apiVersion.run replies s = (s, .ok none) := by
        rw [← h.2 hknown]
        rfl
      exact Dialogue.run_bind_ok hversion

/-- What a call comes to over protocol v2 and otherwise, if it depends on the
version of the server: all batches, queries and removal queries, and links to
several entries. Only calls with a list of entries can be refused. -/
def ConstMethod.versions (b : Bucket) :
    ConstMethod → Option (Http (Option Error) × Http (Option Error))
  | .processBatchV1 entryName batch type => some
    (resultError (Http.ofCall fun server =>
      Reduct.processBatchV2 server b.ioPath entryName batch type),
    resultError (Http.ofCall fun server => Reduct.processBatchV1 server b.path entryName batch type))
  | .processBatchV2 batch type =>
    if batch.records = [] then none
    else some
      (resultError (Http.ofCall fun server => processBatchV2Records server b.ioPath batch type),
      resultError (b.processBatchFallback batch type))
  | .query entryName start stop options reading => some
    (b.queryV2 [entryName] start stop options reading,
    b.queryV1 entryName start stop options reading)
  | .queryEntries entryNames start stop options reading =>
    if entryNames = [] then none
    else some (b.queryV2 entryNames start stop options reading,
      pure (some Bucket.protocolV2Error))
  | .removeQuery entryName start stop options => some
    (resultError (b.removeQueryV2 [entryName] start stop options),
    resultError (b.removeQueryV1 entryName start stop options))
  | .removeQueryEntries entryNames start stop options =>
    if entryNames = [] then none
    else some (resultError (b.removeQueryV2 entryNames start stop options),
      pure (some Bucket.protocolV2Error))
  | .createQueryLinkEntries entries options now =>
    if entries = [] then none
    else some (resultError (b.createLink b.name entries options now),
      pure (some Bucket.protocolV2Error))
  | _ => none

omit [StdSort] [JsonReader] in
theorem resultError_choice {α : Type} (p q : Http (Result α)) :
    resultError (do
      let supports ← Bucket.supportsBatchProtocolV2
      if supports then p else q) = (do
    let supports ← Bucket.supportsBatchProtocolV2
    if supports then resultError p else resultError q) := by
  rw [resultError, Dialogue.bind_assoc]
  refine congrArg _ (funext fun supports => ?_)
  cases supports <;> rfl

/-- A call that depends on the version asks `SupportsBatchProtocolV2` first. -/
theorem call_of_versions {b : Bucket} {method : ConstMethod}
    {versions : Http (Option Error) × Http (Option Error)} (h : method.versions b = some versions) :
    method.call b = (do
      let supports ← Bucket.supportsBatchProtocolV2
      if supports then versions.1 else versions.2) := by
  cases method with
  | processBatchV1 | removeQuery =>
    cases h
    exact resultError_choice _ _
  | query =>
    cases h
    rfl
  | processBatchV2 batch type =>
    rw [ConstMethod.versions, Option.ite_none_left_eq_some] at h
    obtain ⟨hrecords, hversions⟩ := h
    cases hversions
    rw [ConstMethod.call, Bucket.processBatchV2, if_neg hrecords]
    exact resultError_choice _ _
  | queryEntries entryNames =>
    rw [ConstMethod.versions, Option.ite_none_left_eq_some] at h
    obtain ⟨hnames, hversions⟩ := h
    cases hversions
    rw [ConstMethod.call, Bucket.queryEntries, if_neg hnames]
  | removeQueryEntries entryNames =>
    rw [ConstMethod.versions, Option.ite_none_left_eq_some] at h
    obtain ⟨hnames, hversions⟩ := h
    cases hversions
    rw [ConstMethod.call, Bucket.removeQueryEntries, if_neg hnames]
    exact resultError_choice _ _
  | createQueryLinkEntries entries =>
    rw [ConstMethod.versions, Option.ite_none_left_eq_some] at h
    obtain ⟨hentries, hversions⟩ := h
    cases hversions
    rw [ConstMethod.call, Bucket.createQueryLinkEntries, if_neg hentries]
    exact resultError_choice _ _
  | _ => cases h

/-- The calls on the handle choose the protocol by the version of the server: each
does what it does over v2 exactly if the version is at least 1.18. -/
def ChoosesByVersion (v : ServerVersion) (replies : Nat → HttpReply) (b : Bucket)
    (s : HttpSession) : Prop :=
  ∀ (method : ConstMethod) (versions : Http (Option Error) × Http (Option Error)),
    method.versions b = some versions →
      (method.call b).run replies s =
        (if v.AtLeast118 then versions.1 else versions.2).run replies s

/-- A call chooses by what the client knows. -/
theorem run_call_of_versions {v : ServerVersion} {built : Bool} {s : HttpSession}
    (h : v.Learned built s) (replies : Nat → HttpReply) {b : Bucket} {method : ConstMethod}
    {versions : Http (Option Error) × Http (Option Error)} (hm : method.versions b = some versions)
    [Decidable (v.Supports built s)] :
    (method.call b).run replies s =
      (if v.Supports built s then versions.1 else versions.2).run replies s := by
  obtain ⟨supports, hiff, hrun⟩ := run_supportsBatchProtocolV2 h replies
  rw [call_of_versions hm, Http.run, Dialogue.run_bind_ok hrun]
  cases supports with
  | true => rw [if_pos (hiff.1 rfl)]; rfl
  | false => rw [if_neg fun hs => absurd (hiff.2 hs) (by decide)]; rfl

/-- After any history on a handle, the calls choose the protocol by the version of
the server if and only if it is below 1.18, or it is 1.18 or a later version 1 and
the client knows it: the handle was built with it, or has accepted a response. -/
theorem choosesByVersion_iff (v : ServerVersion) (built : Bool) (server : ServerReplies v)
    (name : Bytes) (ops : List Operation) :
    let after := afterHistory server.reply (.build name) (v.newSession built) ops
    ChoosesByVersion v server.reply after.1 after.2 ↔
      ¬ v.AtLeast118 ∨ v.major = 1 ∧ v.Known built after.2 := by
  intro after
  classical
  have hlearned : v.Learned built after.2 := learned_afterHistory server _ ops
  have hsupports : v.Supports built after.2 ↔ v.AtLeast118 ∧ v.major = 1 ∧ v.Known built after.2 := by
    simp only [ServerVersion.Supports, ServerVersion.AtLeast118]
    constructor
    · rintro ⟨hknown, hmajor, hminor⟩
      exact ⟨.inr ⟨hmajor, hminor⟩, hmajor, hknown⟩
    · rintro ⟨hleast, hmajor, hknown⟩
      exact ⟨hknown, hmajor, by omega⟩
  constructor
  · intro h
    by_contra hnot
    rw [not_or, not_not] at hnot
    obtain ⟨hleast, hunknown⟩ := hnot
    have hno : ¬ v.Supports built after.2 := fun hs => hunknown (hsupports.1 hs).2
    -- a query of two entries is refused, though it could be made
    let method : ConstMethod := .queryEntries [bytes "a", bytes "b"] none none {} ⟨0, fun _ _ => false⟩
    have hversions : method.versions after.1 = some _ := rfl
    have hcall := run_call_of_versions hlearned server.reply hversions
    rw [if_neg hno, h method _ rfl, if_pos hleast] at hcall
    have hlength := congrArg (fun r => r.1.log.length) hcall
    exact absurd hlength (Nat.ne_of_gt (Dialogue.length_lt_run_ask _ _ _))
  · intro h method versions hm
    rw [run_call_of_versions hlearned server.reply hm]
    by_cases hleast : v.AtLeast118
    · have hs : v.Supports built after.2 :=
        hsupports.2 ⟨hleast, h.resolve_left (not_not.2 hleast)⟩
      rw [if_pos hs, if_pos hleast]
    · have hs : ¬ v.Supports built after.2 := fun hs => hleast (hsupports.1 hs).1
      rw [if_neg hs, if_neg hleast]

/-! ## A fresh handle -/

/-- A server of version 1.18. -/
def version118 : ServerVersion := ⟨1, 18, by decide, by decide⟩

/-- It answers each request with a response without a body. -/
def server118 : ServerReplies version118 where
  reply _ := .response .ok [(bytes "x-reduct-api", bytes "1.18")] .empty
  version _ _ _ _ h _ := by
    cases h
    decide

omit [StdSort] [JsonReader] in
/-- A handle built without a version refuses a query of several entries that the
server supports. -/
theorem choosesByVersion_broken : ∃ reader : JsonReader,
    ¬ @ChoosesByVersion .insertion reader version118 server118.reply (.build (bytes "bucket"))
      (version118.newSession false) := by
  refine ⟨⟨fun _ => .empty⟩, fun h => ?_⟩
  let method : ConstMethod := .queryEntries [bytes "a", bytes "b"] none none {} ⟨0, fun _ _ => false⟩
  have hrefused := h method _ rfl
  rw [if_pos (by decide)] at hrefused
  have hlength := congrArg (fun r => r.1.log.length) hrefused
  exact absurd hlength (Nat.ne_of_lt (Dialogue.length_lt_run_ask _ _ _))

end Reduct
