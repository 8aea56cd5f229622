-- SUMMARY: Query links: the record that a link is made for, which servers from version 1.19 on are always told by its entry and time, over any history.
import ReductClient.Bucket.Requests

open Cxx

namespace Reduct

/-! ## The record of a link -/

/-- From version 1.19 on a link needs the entry and the time of its record. -/
def ServerVersion.NeedsRecord (v : ServerVersion) : Prop := v.major = 1 ∧ 19 ≤ v.minor

instance (v : ServerVersion) : Decidable v.NeedsRecord :=
  inferInstanceAs (Decidable (v.major = 1 ∧ 19 ≤ v.minor))

/-- The entry of the record: the one that is given, or the only one of the link if it is no
pattern. -/
def QueryLinkOptions.IsEntry (options : QueryLinkOptions) (entries : List Bytes) (entry : Bytes) :
    Prop :=
  options.recordEntry = some entry ∨
    options.recordEntry = none ∧ entries = [entry] ∧ Bucket.hasWildcard entry = false

/-- How a link tells its record: by the entry and the time, or, where the server does not
need them, by the index in the result of the query. -/
inductive LinkSpec.Selects (spec : LinkSpec) (v : ServerVersion) (entries : List Bytes)
    (options : QueryLinkOptions) : Prop where
  | record {entry : Bytes} {ts : Time} (hentry : options.IsEntry entries entry)
      (hts : options.recordTimestamp = some ts) (hspec : spec.recordEntry = some entry)
      (hspecTs : spec.recordTimestamp = some (toMicroseconds ts)) (hindex : spec.index = none)
  | index (hentry : options.recordEntry = none) (hts : options.recordTimestamp = none)
      (hold : ¬ v.NeedsRecord) (hspec : spec.recordEntry = none)
      (hspecTs : spec.recordTimestamp = none) (hindex : spec.index = some options.recordIndex)

/-- What `NormalizeAndValidateQueryLinkOptions` makes of the options. -/
theorem normalizeRecord_ok {entries : List Bytes} {options normalized : QueryLinkOptions}
    (h : Bucket.normalizeRecord entries options = .ok normalized) :
    (∃ entry ts, options.IsEntry entries entry ∧ options.recordTimestamp = some ts ∧
      normalized = { options with recordEntry := some entry }) ∨
    options.recordEntry = none ∧ options.recordTimestamp = none ∧ normalized = options := by
  unfold Bucket.normalizeRecord at h
  cases hts : options.recordTimestamp with
  | none =>
    cases hentry : options.recordEntry with
    | none =>
      simp only [hts, hentry] at h
      cases h
      exact .inr ⟨rfl, rfl, rfl⟩
    | some entry =>
      simp only [hts, hentry] at h
      cases h
  | some ts =>
    cases hentry : options.recordEntry with
    | some entry =>
      simp only [hts, hentry] at h
      cases h
      exact .inl ⟨entry, ts, .inl hentry, rfl, by rw [← hentry, ← hts]⟩
    | none =>
      rcases entries with _ | ⟨entry, _ | ⟨other, rest⟩⟩
      · simp only [hts, hentry] at h
        cases h
      · simp only [hts, hentry] at h
        split at h
        · cases h
        · rename_i hwildcard
          cases h
          exact .inl ⟨entry, ts, .inr ⟨hentry, rfl, Bool.eq_false_iff.2 hwildcard⟩, rfl, rfl⟩
      · simp only [hts, hentry] at h
        cases h

/-- The request of a link tells the record that the options select, and the query of the
options. -/
def TellsRecord (v : ServerVersion) (entries : List Bytes) (options : QueryLinkOptions)
    (request : ClientRequest) : Prop :=
  ∃ fileName spec, request = .post (bytes "/links/" ++ fileName) (.of (LinkSpec.toJson spec)) ∧
    spec.Selects v entries options ∧
    QuerySpec.ofQuery (bytes "QUERY") entries options.start options.stop options.queryOptions =
      .ok spec.query

/-- The payload of options that have been checked. -/
theorem tellsRecord_of_payload {v : ServerVersion} {entries : List Bytes}
    {options normalized : QueryLinkOptions} {fileName bucket : Bytes} {now : Time} {payload : Json}
    (h : Bucket.normalizeRecord entries options = .ok normalized)
    (hversion : v.NeedsRecord → normalized.recordEntry ≠ none)
    (hpayload : queryLinkOptionsToJsonString now bucket entries normalized = .ok (.ok payload)) :
    TellsRecord v entries options (.post (bytes "/links/" ++ fileName) (.of payload)) := by
  obtain ⟨spec, hspec, rfl⟩ := LinkSpec.of_payload hpayload
  refine ⟨fileName, spec, rfl, ?_⟩
  cases entries with
  | nil => cases hspec
  | cons first others => ?_
  obtain ⟨query, hquery, hbuilt⟩ := Fallible.bind_eq_ok.1 (Except.ok.inj hspec)
  cases hbuilt
  rcases normalizeRecord_ok h with ⟨entry, ts, hentry, hts, rfl⟩ | ⟨hentry, hts, rfl⟩
  · refine ⟨.record hentry hts rfl ?_ rfl, hquery⟩
    simp only [hts, Option.map_some]
  · refine ⟨.index hentry hts (fun hneeds => hversion hneeds hentry) hentry ?_ ?_, hquery⟩
    · simp only [hts, Option.map_none]
    · simp only [hentry, hts, Option.isNone_none, and_self, if_true]

/-! ## The requests of a link -/

/-- A link is made by at most one request, after the client may have asked for the version. -/
def LinkRequests (v : ServerVersion) (entries : List Bytes) (options : QueryLinkOptions)
    (sent : List (ClientRequest × HttpReply)) : Prop :=
  ∃ asked posted, sent = asked ++ posted ∧ asked.length ≤ 1 ∧ posted.length ≤ 1 ∧
    (∀ x ∈ asked, x.1 = .get (bytes "/info") .empty) ∧
    ∀ x ∈ posted, TellsRecord v entries options x.1

section

variable {v : ServerVersion} {built : Bool} {s : HttpSession}

/-- The client comes to the version of the server, or to an error. -/
theorem run_ensureApiVersion (server : ServerReplies v) (h : v.Learned built s) :
    ∃ s' asked version, Bucket.ensureApiVersion.run server.reply s = (s', .ok version) ∧
      s'.log = s.log ++ asked ∧ asked.length ≤ 1 ∧
      (∀ x ∈ asked, x.1 = .get (bytes "/info") .empty) ∧
      (version.error.isError = false → version.result = v.text) := by
  by_cases hknown : v.Known built s
  · have hversion : Http.apiVersion.run server.reply s = (s, .ok (some v.text)) := by
      rw [← h.1 hknown]
      rfl
    exact ⟨s, [], ⟨v.text, .kOk⟩, Dialogue.run_bind_ok hversion, by simp, by simp, by simp,
      fun _ => rfl⟩
  · have hversion : Http.apiVersion.run server.reply s = (s, .ok none) := by
      rw [← h.2 hknown]
      rfl
    obtain ⟨resp, hreceive⟩ := receive_version server s.log.length none
    rw [← h.2 hknown] at hreceive
    rw [Bucket.ensureApiVersion, Http.run, Dialogue.run_bind_ok hversion]
    simp only [Http.get, Http.call, Dialogue.send, Dialogue.ask_bind, Dialogue.done_bind,
      Dialogue.pure_eq_done]
    rw [Dialogue.run_ask_ok hreceive]
    have hasked : ∀ x ∈ [((.get (bytes "/info") .empty : ClientRequest),
        server.reply s.log.length)], x.1 = .get (bytes "/info") .empty := by simp
    rw [Http.isError_passedOn]
    by_cases herr : resp.error.isError = true
    · rw [if_pos herr]
      refine ⟨_, _, _, rfl, rfl, Nat.le_refl 1, hasked, fun hno => ?_⟩
      rw [if_pos herr, herr] at hno
      cases hno
    · rw [if_neg herr]
      -- the client knows the version if the response has told it
      by_cases htold : v.major = 1 ∧ (server.reply s.log.length).status? = some 200
      · rw [if_pos htold]
        exact ⟨_, _, _, rfl, rfl, Nat.le_refl 1, hasked, fun _ => rfl⟩
      · rw [if_neg htold, h.2 hknown]
        exact ⟨_, _, _, rfl, rfl, Nat.le_refl 1, hasked, fun hno => by cases hno⟩

/-- The client checks the options against the version of the server. -/
theorem run_normalize (server : ServerReplies v) (h : v.Learned built s) (entries : List Bytes)
    (options : QueryLinkOptions) :
    ∃ s' asked result,
      (Bucket.normalizeAndValidateQueryLinkOptions entries options).run server.reply s =
        (s', .ok result) ∧
      s'.log = s.log ++ asked ∧ asked.length ≤ 1 ∧
      (∀ x ∈ asked, x.1 = .get (bytes "/info") .empty) ∧
      ∀ normalized, result = .ok normalized →
        Bucket.normalizeRecord entries options = .ok normalized ∧
          (v.NeedsRecord → normalized.recordEntry ≠ none) := by
  unfold Bucket.normalizeAndValidateQueryLinkOptions
  cases hrecord : Bucket.normalizeRecord entries options with
  | error err =>
    refine ⟨s, [], .error err, rfl, by simp, by simp, by simp, ?_⟩
    rintro normalized ⟨⟩
  | ok checked =>
    obtain ⟨s', asked, version, hrun, hlog, hlength, hasked, hversion⟩ :=
      run_ensureApiVersion server h
    rw [Http.run, Dialogue.run_bind_ok hrun]
    by_cases herr : version.error.isError = true
    · rw [if_pos herr]
      refine ⟨s', asked, _, rfl, hlog, hlength, hasked, ?_⟩
      rintro normalized ⟨⟩
    · have hmin : (⟨1, 19, by decide, by decide⟩ : ServerVersion).text = bytes "1.19" := by decide
      have hcompatible := ServerVersion.isCompatible_text ⟨1, 19, by decide, by decide⟩ v
      rw [hmin] at hcompatible
      rw [if_neg herr, hversion (Bool.eq_false_iff.2 herr), Http.isCompatible, hcompatible]
      simp only [uncaught, Except.mapError, Dialogue.ofExcept_ok, Dialogue.done_bind]
      by_cases hrefused : (decide (1 = v.major) && decide (19 ≤ v.minor) &&
          checked.recordEntry.isNone) = true
      · rw [if_pos hrefused]
        refine ⟨s', asked, _, rfl, hlog, hlength, hasked, ?_⟩
        rintro normalized ⟨⟩
      · rw [if_neg hrefused]
        refine ⟨s', asked, _, rfl, hlog, hlength, hasked, ?_⟩
        rintro normalized ⟨⟩
        refine ⟨rfl, fun hneeds hnone => hrefused ?_⟩
        rw [hnone, hneeds.1, decide_eq_true hneeds.2]
        rfl

/-- A payload is posted at most once. -/
theorem log_postQuery {α : Type} (replies : Nat → HttpReply) (s : HttpSession) (path : Bytes)
    (payload : Except Error Json) (failed : Error → α) (f : JsonText → α) :
    ∃ posted,
      ((Bucket.postQuery path payload failed fun body => pure (f body)).run replies s).1.log =
        s.log ++ posted ∧ posted.length ≤ 1 ∧
      ∀ x ∈ posted, ∃ p, payload = .ok p ∧ x.1 = .post path (.of p) := by
  cases payload with
  | error err => exact ⟨[], (List.append_nil _).symm, by simp, by simp⟩
  | ok p =>
    rw [Bucket.postQuery, Http.dump, Json.dump]
    by_cases hutf8 : p.isUtf8 = true
    · rw [if_pos hutf8]
      refine ⟨[(.post path (.of p), replies s.log.length)], ?_, by simp, by simp⟩
      refine Dialogue.run_ask_log (fun resp s' => ?_) s
      simp only [Dialogue.bind, Dialogue.pure_eq_done]
      split <;> rfl
    · rw [if_neg hutf8]
      exact ⟨[], (List.append_nil _).symm, by simp, by simp⟩

/-- The requests of the two methods that make a link. -/
theorem log_createLink (server : ServerReplies v) (h : v.Learned built s) (b : Bucket)
    (fileStem : Bytes) (entries : List Bytes) (options : QueryLinkOptions) (now : Time) :
    ∃ sent, ((b.createLink fileStem entries options now).run server.reply s).1.log =
      s.log ++ sent ∧ LinkRequests v entries options sent := by
  obtain ⟨s', asked, result, hrun, hlog, hasked, hinfo, hresult⟩ :=
    run_normalize server h entries options
  rw [Bucket.createLink, Http.run, Dialogue.run_bind_ok hrun]
  cases result with
  | error err =>
    exact ⟨asked, hlog, asked, [], (List.append_nil _).symm, hasked, by simp, hinfo, by simp⟩
  | ok normalized =>
    obtain ⟨hnormalized, hversion⟩ := hresult normalized rfl
    cases hpayload : queryLinkOptionsToJsonString now b.name entries normalized with
    | error fault =>
      -- `entries.at(0)` has thrown
      refine ⟨asked, ?_, asked, [], (List.append_nil _).symm, hasked, by simp, hinfo, by simp⟩
      simp only [hpayload]
      exact hlog
    | ok payload =>
      obtain ⟨posted, hposted, hlength, htells⟩ := log_postQuery server.reply s'
        (bytes "/links/" ++ normalized.fileName.getD
          (fileStem ++ bytes "_" ++ decimalSigned (Bucket.linkSelector normalized) ++
            bytes ".bin"))
        payload (fun err => ⟨[], err⟩) Bucket.linkOf
      refine ⟨asked ++ posted, ?_, asked, posted, rfl, hasked, hlength, hinfo, fun x hx => ?_⟩
      · simp only [hpayload]
        rw [← List.append_assoc, ← hlog]
        exact hposted
      · obtain ⟨p, hp, hrequest⟩ := htells x hx
        rw [hrequest]
        exact tellsRecord_of_payload hnormalized hversion (hp ▸ hpayload)

end

/-! ## Histories -/

/-- The entries and the options of a call that makes a link. -/
def Operation.link? : Operation → Option (List Bytes × QueryLinkOptions)
  | .const (.createQueryLink entryName options _) => some ([entryName], options)
  | .const (.createQueryLinkEntries entries options _) => some (entries, options)
  | _ => none

/-- A call that makes a link posts at most one, which tells the record. -/
def MakesLink (v : ServerVersion) (op : Operation) (sent : List (ClientRequest × HttpReply)) :
    Prop :=
  ∀ link ∈ op.link?, LinkRequests v link.1 link.2 sent

variable [StdSort] [JsonReader]

/-- Whatever has been called on the handle before, a link tells its record by the entry and
the time where the server needs them, and nothing is posted otherwise. -/
theorem exchanges_makeLink (v : ServerVersion) (built : Bool) (server : ServerReplies v)
    (name : Bytes) (ops : List Operation) (op : Operation) :
    MakesLink v op (exchangesOf server.reply name (v.newSession built) ops op) := by
  rintro ⟨entries, options⟩ hlink
  let state := afterHistory server.reply (.build name) (v.newSession built) ops
  have hlearned : v.Learned built state.2 := learned_afterHistory server _ ops
  obtain ⟨sent, hlog, hrequests⟩ :
      ∃ sent, ((op.perform state.1).run server.reply state.2).1.log = state.2.log ++ sent ∧
        LinkRequests v entries options sent := by
    cases op with
    | rename newName => cases hlink
    | const method =>
      rw [Operation.perform, Http.run, Dialogue.run_map_session]
      cases method with
      | createQueryLink entryName options now =>
        cases hlink
        rw [ConstMethod.call, resultError, Dialogue.run_map_session]
        exact log_createLink server hlearned state.1 entryName [entryName] options now
      | createQueryLinkEntries entries options now =>
        cases hlink
        rw [ConstMethod.call, resultError, Dialogue.run_map_session, Bucket.createQueryLinkEntries]
        obtain ⟨supports, -, hrun⟩ := run_supportsBatchProtocolV2 hlearned server.reply
        rw [Dialogue.run_bind_ok hrun]
        have hnothing : LinkRequests v entries options [] :=
          ⟨[], [], rfl, by simp, by simp, by simp, by simp⟩
        cases supports with
        | false => exact ⟨[], (List.append_nil _).symm, hnothing⟩
        | true =>
          rw [if_pos rfl]
          split
          · exact ⟨[], (List.append_nil _).symm, hnothing⟩
          · exact log_createLink server hlearned state.1 state.1.name entries options now
      | _ => cases hlink
  have hsent : exchangesOf server.reply name (v.newSession built) ops op = sent := by
    dsimp only [exchangesOf]
    rw [hlog, List.drop_left]
  rw [hsent]
  exact hrequests

end Reduct
