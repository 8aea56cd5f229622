-- SUMMARY: The condition `when` in the payloads of queries, replications and lifecycles, and which conditions reach the server as they are written.
import ReductClient.Cxx.JsonOrder
import ReductClient.Internal.Lifecycles
import ReductClient.Internal.Replications

open Cxx Fallible

namespace Reduct

/-- A payload has been made, with the given condition in it. -/
def CarriesWhen (payload : Except Error Json) (v : Json) : Prop :=
  ∃ json, payload = .ok json ∧ json.member? (bytes "when") = some v

/-- There is an error in place of a payload. -/
def Rejected (payload : Except Error Json) : Prop :=
  ∃ err, payload = .error err ∧ err.isError = true

/-! ## The condition of a query -/

theorem parseOption_of {v : Json} : parseOption (some (.of v)) = .ok (some (v.rebuild .ordered)) :=
  rfl

theorem parseOption_returns {text : Option JsonText}
    (h : ∀ what, text ≠ some (.malformed what)) : Returns (parseOption text) := by
  match text, h with
  | none, _ => exact returns_ok _
  | some (.of v), _ => exact returns_ok _
  | some (.malformed what), h => exact absurd rfl (h what)

/-- An `ordered_json` keeps the members in the order of the text. -/
theorem carriesWhen_query {v : Json} (type : Bytes) (entries : List Bytes)
    (start stop : Option Time) {options : QueryOptions} (hwhen : options.when = some (.of v))
    (hext : ∀ what, options.ext ≠ some (.malformed what)) :
    CarriesWhen (queryOptionsToJsonString type entries start stop options) (v.rebuild .ordered) := by
  obtain ⟨ext, hext⟩ := parseOption_returns hext
  rw [queryOptionsToJsonString, hwhen, parseOption_of, ok_bind, hext, ok_bind]
  refine ⟨_, rfl, ?_⟩
  -- the names of all members that the payload may have
  have hkeys : ([bytes "query_type", bytes "entries", bytes "start", bytes "stop", bytes "ttl",
      bytes "continuous", bytes "when", bytes "strict", bytes "ext"] : List Bytes).Nodup := by
    decide
  have hcontinuous : ((if options.continuous then [(bytes "continuous", Json.bool true)] else
      []).map Prod.fst).Sublist [bytes "continuous"] := by
    split
    · exact List.Sublist.refl _
    · exact List.nil_sublist _
  refine JsonKind.ordered.member?_build_of_nodup (hkeys.sublist ?_) (by simp [optionalMember])
  simp only [List.map_append]
  exact .append (.append (.append (.append (.append (.append (.append (.refl _)
    (keys_optionalMember _ _ _)) (keys_optionalMember _ _ _)) (keys_optionalMember _ _ _))
    hcontinuous) (keys_optionalMember _ _ _)) (keys_optionalMember _ _ _))
    (keys_optionalMember _ _ _)

/-! ## The condition of a policy -/

theorem ReplicationSettings.fields_nodup (settings : ReplicationSettings) (when : Option Json) :
    ((settings.fields when).map Prod.fst).Nodup := by
  change [bytes "src_bucket", bytes "dst_bucket", bytes "dst_host", bytes "dst_token",
    bytes "dst_prefix", bytes "entries", bytes "mode", bytes "compression", bytes "when"].Nodup
  decide

theorem LifecycleSettings.fields_nodup (settings : LifecycleSettings) (when : Option Json) :
    ((settings.fields when).map Prod.fst).Nodup := by
  change [bytes "type", bytes "bucket", bytes "entries", bytes "older_than", bytes "interval",
    bytes "mode", bytes "processing_interval", bytes "when"].Nodup
  decide

/-- A `nlohmann::json` sorts the members. -/
theorem carriesWhen_replication {v : Json} {settings : ReplicationSettings}
    (hwhen : settings.when = some (.of v)) :
    CarriesWhen (replicationSettingsToJsonString settings) (v.rebuild .sorted) := by
  rw [replicationSettingsToJsonString, hwhen]
  exact ⟨_, rfl, member?_writtenMembers .sorted (settings.fields_nodup _) (bytes "when", _)
    (by simp [ReplicationSettings.fields])⟩

theorem carriesWhen_lifecycle {v : Json} {settings : LifecycleSettings}
    (hwhen : settings.when = some (.of v)) :
    CarriesWhen (lifecycleSettingsToJsonString settings) (v.rebuild .sorted) := by
  rw [lifecycleSettingsToJsonString, hwhen]
  exact ⟨_, rfl, member?_writtenMembers .sorted (settings.fields_nodup _) (bytes "when", _)
    (by simp [LifecycleSettings.fields])⟩

theorem CarriesWhen.unique {payload : Except Error Json} {v v' : Json} (h : CarriesWhen payload v)
    (h' : CarriesWhen payload v') : v = v' := by
  obtain ⟨json, hjson, hv⟩ := h
  obtain ⟨json', hjson', hv'⟩ := h'
  cases hjson.symm.trans hjson'
  exact Option.some.inj (hv.symm.trans hv')

/-! ## Conditions that are kept -/

/-- Whether in a query, a replication or a lifecycle, the condition is in the payload
as it is written, and a text that is not JSON is rejected. -/
structure WhenKept (v : Json) : Prop where
  query : ∀ type entries start stop options, options.when = some (.of v) →
    (∀ what, options.ext ≠ some (.malformed what)) →
      CarriesWhen (queryOptionsToJsonString type entries start stop options) v
  replication : ∀ settings, settings.when = some (.of v) →
    CarriesWhen (replicationSettingsToJsonString settings) v
  lifecycle : ∀ settings, settings.when = some (.of v) →
    CarriesWhen (lifecycleSettingsToJsonString settings) v
  malformedQuery : ∀ what type entries start stop options,
    options.when = some (.malformed what) →
      Rejected (queryOptionsToJsonString type entries start stop options)
  malformedReplication : ∀ what settings, settings.when = some (.malformed what) →
    Rejected (replicationSettingsToJsonString settings)
  malformedLifecycle : ∀ what settings, settings.when = some (.malformed what) →
    Rejected (lifecycleSettingsToJsonString settings)

/-- These are the conditions whose objects have their members in the order of their keys. -/
theorem whenKept_iff (v : Json) : WhenKept v ↔ v.Arranged .sorted := by
  constructor
  · intro h
    have hkept := h.replication { when := some (.of v) } rfl
    exact Json.rebuild_eq_self.1 ((carriesWhen_replication rfl).unique hkept)
  · intro h
    have hsorted := Json.rebuild_of_arranged h
    have hordered := Json.rebuild_of_arranged h.ordered
    refine ⟨fun type entries start stop options hwhen hext => ?_, fun settings hwhen => ?_,
      fun settings hwhen => ?_, fun what type entries start stop options hwhen => ?_,
      fun what settings hwhen => ?_, fun what settings hwhen => ?_⟩
    · exact hordered ▸ carriesWhen_query type entries start stop hwhen hext
    · exact hsorted ▸ carriesWhen_replication hwhen
    · exact hsorted ▸ carriesWhen_lifecycle hwhen
    · rw [queryOptionsToJsonString, hwhen]
      exact ⟨_, rfl, rfl⟩
    · rw [replicationSettingsToJsonString, hwhen]
      exact ⟨_, rfl, rfl⟩
    · rw [lifecycleSettingsToJsonString, hwhen]
      exact ⟨_, rfl, rfl⟩

/-- `{"$not": [{"$has": "score"}], "$limit": 2}`. -/
def notThenLimit : Json :=
  .obj [(bytes "$not", .arr [.obj [(bytes "$has", .str (bytes "score"))]]),
    (bytes "$limit", .int 2)]

/-- A policy takes the limit before the negation. -/
theorem whenKept_broken : notThenLimit.Arranged .ordered ∧ ¬ WhenKept notThenLimit := by
  constructor
  · refine Json.arranged_obj.2 ⟨show [bytes "$not", bytes "$limit"].Nodup by decide, ?_⟩
    rw [List.forall_mem_cons, List.forall_mem_singleton, Json.arranged_arr,
      List.forall_mem_singleton, Json.arranged_obj, List.forall_mem_singleton]
    exact ⟨⟨show [bytes "$has"].Nodup by decide, trivial⟩, trivial⟩
  · intro h
    have hkept := h.replication { when := some (.of notThenLimit) } rfl
    have hsorted := Json.rebuild_eq_self.1 ((carriesWhen_replication rfl).unique hkept)
    have hkeys : [bytes "$not", bytes "$limit"].Pairwise fun a b => compare a b = .lt :=
      (Json.arranged_obj.1 hsorted).1
    exact absurd hkeys (by decide)

end Reduct
