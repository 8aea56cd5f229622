-- SUMMARY: Which responses a client accepts, what it makes of the other ones, and which API version it knows after any run of a program.
import ReductClient.Internal.VersionParsers

open Cxx Fallible

namespace Reduct

/-! ## Accepted responses -/

/-- The client accepts the response: its status is 200, and if it gives a version, the
major number is the one of the client. -/
structure HttpReply.Accepted (reply : HttpReply) : Prop where
  status : reply.status? = some 200
  version : ∀ value ∈ reply.version?, ∃ minor, ReadsVersion value majorVersion minor

/-- What the client makes of the version of a response, if it makes anything of it. -/
theorem checkApiVersion_cases {value : Bytes} {err : Error} {stored : Option Bytes}
    (h : checkApiVersion value = .ok (err, stored)) :
    ((∃ minor, ReadsVersion value majorVersion minor) ∧ err = .kOk ∧ stored = some value) ∨
      (¬ ∃ minor, ReadsVersion value majorVersion minor) ∧ err.isError = true ∧ stored = none := by
  cases hsplit : splitFirst dot value with
  | none =>
    rw [checkApiVersion_of_no_dot hsplit] at h
    cases h
    refine .inr ⟨?_, rfl, rfl⟩
    rintro ⟨minor, majorText, minorText, hsplit', -⟩
    cases hsplit.symm.trans hsplit'
  | some parts =>
    obtain ⟨majorText, minorText⟩ := parts
    have hchecked := h
    simp only [checkApiVersion, hsplit] at h
    obtain ⟨major, hmajor, h⟩ := bind_eq_ok.1 h
    obtain ⟨minor, hminor, -⟩ := bind_eq_ok.1 h
    have hreads : ReadsVersion value major minor := ⟨majorText, minorText, hsplit, hmajor, hminor⟩
    rw [checkApiVersion_of_reads hreads] at hchecked
    by_cases heq : major = majorVersion
    · rw [if_neg (not_not_intro heq)] at hchecked
      cases hchecked
      exact .inl ⟨⟨minor, heq ▸ hreads⟩, rfl, rfl⟩
    · rw [if_pos heq] at hchecked
      cases hchecked
      refine .inr ⟨?_, rfl, rfl⟩
      rintro ⟨minor', hreads'⟩
      exact heq (ReadsVersion.unique hreads hreads').1

/-- The client passes an accepted response on, and stores its version. -/
theorem HttpReply.Accepted.checkRequest {reply : HttpReply} (h : reply.Accepted)
    (version : Option Bytes) :
    Reduct.checkRequest version reply = .ok (.kOk, reply.version?.or version) := by
  cases hvalue : reply.version? with
  | some value =>
    obtain ⟨minor, hreads⟩ := h.version value hvalue
    rw [checkRequest_of_version hvalue, checkApiVersion_of_reads hreads,
      if_neg (not_not_intro rfl)]
    rfl
  | none =>
    have hstatus := h.status
    cases reply with
    | failed message => cases hstatus
    | response status headers body =>
      have hcode : status.code = 200 := Option.some.inj hstatus
      rw [version?, if_pos hcode] at hvalue
      rw [Reduct.checkRequest, if_neg (not_not_intro hcode), hvalue]
      rfl

/-- It makes an error of any other response, and stores nothing. -/
theorem checkRequest_rejected {version stored : Option Bytes} {reply : HttpReply} {err : Error}
    (h : checkRequest version reply = .ok (err, stored)) (hno : ¬ reply.Accepted) :
    err.isError = true ∧ stored = version := by
  by_cases hstatus : reply.status? = some 200
  · cases hvalue : reply.version? with
    | none => exact absurd ⟨hstatus, by simp [hvalue]⟩ hno
    | some value =>
      rw [checkRequest_of_version hvalue] at h
      obtain ⟨⟨err', stored'⟩, hchecked, h⟩ := bind_eq_ok.1 h
      cases h
      rcases checkApiVersion_cases hchecked with ⟨hreads, -, -⟩ | ⟨-, herr, rfl⟩
      · refine absurd ⟨hstatus, fun value' hvalue' => ?_⟩ hno
        rw [hvalue] at hvalue'
        cases hvalue'
        exact hreads
      · exact ⟨herr, rfl⟩
  · obtain ⟨err', hcheck, herr, -⟩ := @checkRequest_of_ne version reply hstatus
    cases hcheck.symm.trans h
    exact ⟨herr, rfl⟩

instance (reply : HttpReply) : Decidable reply.Accepted :=
  decidable_of_iff ((checkRequest none reply).toOption = some (.kOk, reply.version?)) <| by
    constructor
    · intro h
      by_contra hno
      cases hcheck : checkRequest none reply with
      | error fault =>
        rw [hcheck] at h
        cases h
      | ok r =>
        rw [hcheck] at h
        cases h
        exact absurd (checkRequest_rejected hcheck hno).1 (by decide)
    · intro h
      rw [h.checkRequest, Option.or_none]
      rfl

/-- What a program gets of a response that has been received. -/
theorem receive_cases {version stored : Option Bytes} {reply : HttpReply}
    {resp : Result HttpAnswer} (h : receive version reply = .ok (resp, stored)) :
    (reply.Accepted ∧ resp = ⟨reply.answer, .kOk⟩ ∧ stored = reply.version?.or version) ∨
      ¬ reply.Accepted ∧ resp.error.isError = true ∧ stored = version := by
  by_cases haccepted : reply.Accepted
  · rw [receive_eq (haccepted.checkRequest version)] at h
    cases h
    exact .inl ⟨haccepted, rfl, rfl⟩
  · cases hcheck : checkRequest version reply with
    | error fault =>
      rw [receive, hcheck] at h
      cases h
    | ok r =>
      obtain ⟨herr, hstored⟩ := checkRequest_rejected hcheck haccepted
      rw [receive_eq hcheck] at h
      cases h
      exact .inr ⟨haccepted, herr, hstored⟩

/-- A response that is not even received is none that is accepted. -/
theorem not_accepted_of_receive {version : Option Bytes} {reply : HttpReply} {e : Uncaught}
    (h : receive version reply = .error e) : ¬ reply.Accepted := by
  intro haccepted
  rw [receive_eq (haccepted.checkRequest version)] at h
  cases h

/-- A program sees an accepted response as a success, and any other one as an error. -/
theorem receive_isError {version stored : Option Bytes} {reply : HttpReply}
    {resp : Result HttpAnswer} (h : receive version reply = .ok (resp, stored)) :
    resp.error.isError = false ↔ reply.Accepted := by
  rcases receive_cases h with ⟨haccepted, rfl, -⟩ | ⟨haccepted, herr, -⟩
  · exact iff_of_true rfl haccepted
  · exact iff_of_false (by simp [herr]) haccepted

/-- An error that has the code of another status is the one of a response with it. -/
theorem receive_code {version stored : Option Bytes} {reply : HttpReply} {resp : Result HttpAnswer}
    (h : receive version reply = .ok (resp, stored)) {code : Nat} (hcode : resp.error.code = code)
    (hne : code ≠ 0) : reply.status? = some code := by
  by_cases hstatus : reply.status? = some 200
  · cases hcheck : checkRequest version reply with
    | error fault =>
      rw [receive, hcheck] at h
      cases h
    | ok r =>
      have hchecked := checkRequest_of_ok hstatus hcheck
      rw [receive_eq hcheck] at h
      cases h
      dsimp only at hcode
      omega
  · cases reply with
    | failed message =>
      cases h
      dsimp only at hcode
      omega
    | response status headers body =>
      have hne200 : status.code ≠ 200 := fun heq => hstatus (congrArg some heq)
      rw [receive, checkRequest, if_pos hne200] at h
      cases h
      exact congrArg some (Int.ofNat.inj hcode)

theorem Error.not_isError_kOk : ¬ Error.kOk.isError = true := by decide

/-- After `Get`, a program goes on with the body of an accepted response. -/
theorem Http.run_get_bind {α : Type} {path : Bytes} (next : Result JsonText → Http α)
    {replies : Nat → HttpReply} {s : HttpSession} (h : (replies s.log.length).Accepted) :
    ∃ s', (Http.get path >>= next).run replies s =
      (next ⟨(replies s.log.length).answer.body, .kOk⟩).run replies s' :=
  ⟨_, Dialogue.run_ask_ok (receive_eq (h.checkRequest s.state))⟩

/-- After any other response it goes on with the error that the client makes of it. -/
theorem Http.run_get_bind_rejected {α : Type} {path : Bytes} (next : Result JsonText → Http α)
    {replies : Nat → HttpReply} {s : HttpSession} {err : Error} {stored : Option Bytes}
    (hno : ¬ (replies s.log.length).Accepted)
    (hcheck : checkRequest s.state (replies s.log.length) = .ok (err, stored)) :
    err.isError = true ∧ ∃ body s', (Http.get path >>= next).run replies s =
      (next ⟨body, err⟩).run replies s' := by
  have herr := (checkRequest_rejected hcheck hno).1
  have hget : (Http.get path >>= next) = .ask (.get path .empty) fun resp =>
      next ⟨resp.result.body, if resp.error.isError then resp.error else .kOk⟩ := rfl
  refine ⟨herr, HttpAnswer.none.body,
    s.exchange (.get path .empty) (replies s.log.length) stored, ?_⟩
  rw [hget, Http.run, Dialogue.run_ask_ok (receive_eq hcheck)]
  simp only [if_pos herr]
  rfl

/-! ## What the client knows -/

/-- The version after some exchanges: that of the last accepted response that gives one. -/
def versionAfter (version : Option Bytes) (sent : List (ClientRequest × HttpReply)) :
    Option Bytes :=
  sent.foldl (fun known x => if x.2.Accepted then x.2.version?.or known else known) version

theorem versionAfter_concat (version : Option Bytes) (sent : List (ClientRequest × HttpReply))
    (q : ClientRequest) (reply : HttpReply) :
    versionAfter version (sent ++ [(q, reply)]) =
      if reply.Accepted then reply.version?.or (versionAfter version sent)
      else versionAfter version sent := by
  rw [versionAfter, List.foldl_append]
  rfl

/-- After any program, the version that the client knows is that of the last accepted
response that gave one, and the one from before if there was none. -/
theorem version_run {α : Type} (program : Http α) (replies : Nat → HttpReply) (s : HttpSession) :
    ∃ sent, (program.run replies s).1.log = s.log ++ sent ∧
      (program.run replies s).1.state = versionAfter s.state sent := by
  refine Dialogue.run_invariant
    (fun s' => ∃ sent, s'.log = s.log ++ sent ∧ s'.state = versionAfter s.state sent)
    ?_ ?_ program ⟨[], (List.append_nil _).symm, rfl⟩
  · rintro s' q resp stored ⟨sent, hlog, hstate⟩ hreceive
    refine ⟨sent ++ [(q, replies s'.log.length)], ?_, ?_⟩
    · rw [Session.exchange_log, hlog, List.append_assoc]
    · rw [Session.exchange_state, versionAfter_concat, ← hstate]
      rcases receive_cases hreceive with ⟨haccepted, -, hstored⟩ | ⟨haccepted, -, hstored⟩
      · rw [if_pos haccepted, hstored]
      · rw [if_neg haccepted, hstored]
  · rintro s' q e ⟨sent, hlog, hstate⟩ hreceive
    refine ⟨sent ++ [(q, replies s'.log.length)], ?_, ?_⟩
    · rw [Session.exchange_log, hlog, List.append_assoc]
    · rw [Session.exchange_state, versionAfter_concat, ← hstate,
        if_neg (not_accepted_of_receive hreceive)]

end Reduct
