-- SUMMARY: What the payloads of queries and query links tell the server: two of them are equal exactly if the same is asked.
import ReductClient.Internal.Serialisation

open Cxx Fallible

namespace Reduct

/-! ## Members and payloads -/

/-- A member of another name is not written. -/
theorem member?_writtenMembers_none (kind : JsonKind) {fields : List (Bytes × Option Json)}
    {key : Bytes} (h : key ∉ fields.map Prod.fst) :
    (kind.build (writtenMembers fields)).member? key = none := by
  refine kind.member?_build_of_not_mem fun hmem => h ?_
  obtain ⟨m, hm, rfl⟩ := List.mem_map.1 hmem
  obtain ⟨field, hfield, hmap⟩ := List.mem_filterMap.1 hm
  obtain ⟨v, -, rfl⟩ := Option.map_eq_some_iff.1 hmap
  exact List.mem_map_of_mem hfield

/-- The members that are written determine what they are set to. -/
theorem build_writtenMembers_inj (kind : JsonKind) {fields fields' : List (Bytes × Option Json)}
    (hkeys : fields.map Prod.fst = fields'.map Prod.fst) (hnodup : (fields.map Prod.fst).Nodup) :
    kind.build (writtenMembers fields) = kind.build (writtenMembers fields') ↔
      fields = fields' := by
  constructor
  · intro heq
    have hmember := member?_writtenMembers kind hnodup
    have hmember' := member?_writtenMembers kind (hkeys ▸ hnodup)
    have hlength : fields.length = fields'.length := by simpa using congrArg List.length hkeys
    refine List.ext_getElem hlength fun i hi hi' => ?_
    have hkey : fields[i].1 = fields'[i].1 := by
      have hget := congrArg (fun keys => keys[i]?) hkeys
      simpa [hi, hi'] using hget
    refine Prod.ext hkey ?_
    rw [← hmember _ (List.getElem_mem hi), ← hmember' _ (List.getElem_mem hi'), heq, hkey]
  · exact congrArg fun fields => kind.build (writtenMembers fields)

/-! ## Queries -/

/-- What the server is told of a query: times in microseconds, the time to live in
seconds, conditions as they have been parsed. -/
structure QuerySpec where
  type : Bytes
  entries : List Bytes
  start : Option Int
  stop : Option Int
  ttl : Option Int
  continuous : Bool
  when : Option Json
  strict : Option Bool
  ext : Option Json

namespace QuerySpec

/-- What a query tells the server. -/
def ofQuery (type : Bytes) (entries : List Bytes) (start stop : Option Time)
    (options : QueryOptions) : Except Error QuerySpec := do
  let when ← parseOption options.when
  let ext ← parseOption options.ext
  pure ⟨type, entries, start.map toMicroseconds, stop.map toMicroseconds,
    options.ttl.map (·.tdiv 1000), options.continuous, when, options.strict, ext⟩

/-- The members of the payload. -/
def fields (spec : QuerySpec) : List (Bytes × Option Json) :=
  [(bytes "query_type", some (.str spec.type)), (bytes "entries", some (.strings spec.entries)),
    (bytes "start", spec.start.map .int), (bytes "stop", spec.stop.map .int),
    (bytes "ttl", spec.ttl.map .int),
    (bytes "continuous", if spec.continuous then some (.bool true) else none),
    (bytes "when", spec.when), (bytes "strict", spec.strict.map .bool), (bytes "ext", spec.ext)]

/-- The payload. -/
def toJson (spec : QuerySpec) : Json := JsonKind.ordered.build (writtenMembers spec.fields)

theorem keys_fields (spec : QuerySpec) :
    spec.fields.map Prod.fst = [bytes "query_type", bytes "entries", bytes "start", bytes "stop",
      bytes "ttl", bytes "continuous", bytes "when", bytes "strict", bytes "ext"] := rfl

theorem nodup_fields (spec : QuerySpec) : (spec.fields.map Prod.fst).Nodup := by
  rw [keys_fields]
  decide

end QuerySpec

theorem strings_inj {items items' : List Bytes} :
    Json.strings items = Json.strings items' ↔ items = items' := by
  constructor
  · intro h
    have hread := congrArg Json.getStrings h
    rw [Json.getStrings_strings, Json.getStrings_strings] at hread
    exact Except.ok.inj hread
  · exact congrArg Json.strings

namespace QuerySpec

/-- The payload determines what is asked. -/
theorem toJson_inj {spec spec' : QuerySpec} : spec.toJson = spec'.toJson ↔ spec = spec' := by
  constructor
  · intro h
    have hfields := (build_writtenMembers_inj .ordered
      (spec.keys_fields.trans spec'.keys_fields.symm) spec.nodup_fields).1 h
    obtain ⟨type, entries, start, stop, ttl, continuous, when, strict, ext⟩ := spec
    obtain ⟨type', entries', start', stop', ttl', continuous', when', strict', ext'⟩ := spec'
    simp only [fields, List.cons.injEq, Prod.mk.injEq, true_and, and_true, Option.some.injEq,
      Json.str.injEq, strings_inj] at hfields
    obtain ⟨rfl, rfl, hstart, hstop, httl, hcontinuous, rfl, hstrict, rfl⟩ := hfields
    have hint : Function.Injective Json.int := fun _ _ => Json.int.inj
    have hbool : Function.Injective Json.bool := fun _ _ => Json.bool.inj
    obtain rfl := Option.map_injective hint hstart
    obtain rfl := Option.map_injective hint hstop
    obtain rfl := Option.map_injective hint httl
    obtain rfl := Option.map_injective hbool hstrict
    have hflag : continuous = continuous' := by
      cases continuous <;> cases continuous' <;> simp at hcontinuous ⊢
    rw [hflag]
  · exact congrArg toJson

/-- The member with the type of the query. -/
theorem member?_queryType (spec : QuerySpec) :
    spec.toJson.member? (bytes "query_type") = some (.str spec.type) :=
  member?_writtenMembers .ordered spec.nodup_fields _ List.mem_cons_self

end QuerySpec

/-- The payload is that of what the query tells the server. -/
theorem queryOptionsToJsonString_spec (type : Bytes) (entries : List Bytes)
    (start stop : Option Time) (options : QueryOptions) :
    queryOptionsToJsonString type entries start stop options =
      (QuerySpec.ofQuery type entries start stop options).map QuerySpec.toJson := by
  rw [queryOptionsToJsonString, QuerySpec.ofQuery]
  cases parseOption options.when with
  | error err => rfl
  | ok when =>
    cases parseOption options.ext with
    | error err => rfl
    | ok ext =>
      obtain ⟨_, strict, _, ttl, continuous, _⟩ := options
      simp only [ok_bind]
      cases start <;> cases stop <;> cases ttl <;> cases continuous <;> cases when <;>
        cases strict <;> cases ext <;> rfl

/-! ## Query links -/

/-- What the server is told of a query link: the record by its position or by its entry
and time, the time it expires at in seconds. -/
structure LinkSpec where
  bucket : Bytes
  index : Option Nat
  recordEntry : Option Bytes
  recordTimestamp : Option Int
  entry : Bytes
  query : QuerySpec
  expireAt : Int
  fileName : Option Bytes
  baseUrl : Option Bytes

namespace LinkSpec

/-- What a query link, made at the time `now`, tells the server. -/
def ofLink (now : Time) (bucket : Bytes) (entries : List Bytes) (options : QueryLinkOptions) :
    Except Fault (Except Error LinkSpec) :=
  match entries with
  | [] => throw .outOfRange
  | entry :: _ => pure do
    let query ← QuerySpec.ofQuery (bytes "QUERY") entries options.start options.stop
      options.queryOptions
    pure ⟨bucket,
      if options.recordEntry.isNone ∧ options.recordTimestamp.isNone then some options.recordIndex
      else none,
      options.recordEntry, options.recordTimestamp.map toMicroseconds, entry, query,
      toSeconds (options.expireAt.getD (.wrap (now.ns + 24 * 3600 * 1000000000))),
      options.fileName, options.baseUrl⟩

/-- The members of the payload. -/
def fields (spec : LinkSpec) : List (Bytes × Option Json) :=
  [(bytes "bucket", some (.str spec.bucket)), (bytes "index", spec.index.map jsonNat),
    (bytes "record_entry", spec.recordEntry.map .str),
    (bytes "record_timestamp", spec.recordTimestamp.map .int),
    (bytes "entry", some (.str spec.entry)), (bytes "query", some spec.query.toJson),
    (bytes "expire_at", some (.int spec.expireAt)), (bytes "file_name", spec.fileName.map .str),
    (bytes "base_url", spec.baseUrl.map .str)]

/-- The payload. -/
def toJson (spec : LinkSpec) : Json := JsonKind.ordered.build (writtenMembers spec.fields)

theorem keys_fields (spec : LinkSpec) :
    spec.fields.map Prod.fst = [bytes "bucket", bytes "index", bytes "record_entry",
      bytes "record_timestamp", bytes "entry", bytes "query", bytes "expire_at",
      bytes "file_name", bytes "base_url"] := rfl

theorem nodup_fields (spec : LinkSpec) : (spec.fields.map Prod.fst).Nodup := by
  rw [keys_fields]
  decide

/-- The payload determines the link. -/
theorem toJson_inj {spec spec' : LinkSpec} : spec.toJson = spec'.toJson ↔ spec = spec' := by
  constructor
  · intro h
    have hfields := (build_writtenMembers_inj .ordered
      (spec.keys_fields.trans spec'.keys_fields.symm) spec.nodup_fields).1 h
    obtain ⟨bucket, index, recordEntry, recordTimestamp, entry, query, expireAt, fileName,
      baseUrl⟩ := spec
    obtain ⟨bucket', index', recordEntry', recordTimestamp', entry', query', expireAt', fileName',
      baseUrl'⟩ := spec'
    simp only [fields, List.cons.injEq, Prod.mk.injEq, true_and, and_true, Option.some.injEq,
      Json.str.injEq, Json.int.injEq, QuerySpec.toJson_inj] at hfields
    obtain ⟨rfl, hindex, hentry, htimestamp, rfl, rfl, rfl, hfile, hurl⟩ := hfields
    have hnat : Function.Injective jsonNat := fun _ _ h => Int.ofNat.inj (Json.int.inj h)
    have hint : Function.Injective Json.int := fun _ _ => Json.int.inj
    have hstr : Function.Injective Json.str := fun _ _ => Json.str.inj
    obtain rfl := Option.map_injective hnat hindex
    obtain rfl := Option.map_injective hstr hentry
    obtain rfl := Option.map_injective hint htimestamp
    obtain rfl := Option.map_injective hstr hfile
    obtain rfl := Option.map_injective hstr hurl
    rfl
  · exact congrArg toJson

/-- It is none of a query. -/
theorem member?_queryType (spec : LinkSpec) : spec.toJson.member? (bytes "query_type") = none :=
  member?_writtenMembers_none .ordered (by rw [keys_fields]; decide)

end LinkSpec

/-- The payload is that of what the link tells the server. -/
theorem queryLinkOptionsToJsonString_spec (now : Time) (bucket : Bytes) (entries : List Bytes)
    (options : QueryLinkOptions) :
    queryLinkOptionsToJsonString now bucket entries options =
      (LinkSpec.ofLink now bucket entries options).map (Except.map LinkSpec.toJson) := by
  cases entries with
  | nil => rfl
  | cons entry entries => ?_
  simp only [queryLinkOptionsToJsonString, LinkSpec.ofLink, queryOptionsToJsonString_spec]
  cases QuerySpec.ofQuery (bytes "QUERY") (entry :: entries) options.start options.stop
      options.queryOptions with
  | error err => rfl
  | ok query =>
    obtain ⟨_, _, _, index, recordEntry, recordTimestamp, expireAt, fileName, baseUrl⟩ := options
    cases recordEntry <;> cases recordTimestamp <;> cases fileName <;> cases baseUrl <;> rfl

/-- A payload is that of a link. -/
theorem LinkSpec.of_payload {now : Time} {bucket : Bytes} {entries : List Bytes}
    {options : QueryLinkOptions} {payload : Json}
    (h : queryLinkOptionsToJsonString now bucket entries options = .ok (.ok payload)) :
    ∃ spec, LinkSpec.ofLink now bucket entries options = .ok (.ok spec) ∧
      spec.toJson = payload := by
  rw [queryLinkOptionsToJsonString_spec] at h
  rcases hspec : LinkSpec.ofLink now bucket entries options with e | err | spec
  · rw [hspec] at h
    cases h
  · rw [hspec] at h
    cases h
  · rw [hspec] at h
    exact ⟨spec, rfl, Except.ok.inj (Except.ok.inj h)⟩

/-! ## The same payload -/

theorem map_injective {ε α β : Type} {f : α → β} (hf : Function.Injective f) :
    Function.Injective (Except.map f : Except ε α → Except ε β) := by
  intro x y h
  cases x with
  | error e =>
    cases y with
    | error e' => exact congrArg _ (Except.error.inj h)
    | ok b => cases h
  | ok a =>
    cases y with
    | error e => cases h
    | ok b => exact congrArg _ (hf (Except.ok.inj h))

/-- Two queries have the same payload, or the same error, exactly if they tell the
server the same: what is lost are fractions of a microsecond of a time and of a second of
the time to live. So it is for two query links. -/
theorem samePayload_iff :
    (∀ (type type' : Bytes) (entries entries' : List Bytes) (start stop start' stop' : Option Time)
        (options options' : QueryOptions),
      queryOptionsToJsonString type entries start stop options =
          queryOptionsToJsonString type' entries' start' stop' options' ↔
        QuerySpec.ofQuery type entries start stop options =
          QuerySpec.ofQuery type' entries' start' stop' options') ∧
    ∀ (now now' : Time) (bucket bucket' : Bytes) (entries entries' : List Bytes)
        (options options' : QueryLinkOptions),
      queryLinkOptionsToJsonString now bucket entries options =
          queryLinkOptionsToJsonString now' bucket' entries' options' ↔
        LinkSpec.ofLink now bucket entries options =
          LinkSpec.ofLink now' bucket' entries' options' := by
  constructor
  · intros
    rw [queryOptionsToJsonString_spec, queryOptionsToJsonString_spec]
    exact (map_injective fun _ _ => QuerySpec.toJson_inj.1).eq_iff
  · intros
    rw [queryLinkOptionsToJsonString_spec, queryLinkOptionsToJsonString_spec]
    exact (map_injective (map_injective fun _ _ => LinkSpec.toJson_inj.1)).eq_iff

end Reduct
