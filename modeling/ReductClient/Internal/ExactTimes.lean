-- SUMMARY: The times of records and of errors as sums of microseconds: which sums are converted exactly, by each decoder.
import ReductClient.Internal.HeaderIndices

open Cxx Fallible

namespace Reduct

/-! ## Moments -/

/-- A point in time as a response gives it: a start timestamp, with the sign that it is
written with, and a delta, which has none. The timestamps of protocol v1 have no delta. -/
structure Moment where
  start : Int
  delta : Nat
  deriving DecidableEq

/-- The unsigned number of 64 bits that the decoders read for the start timestamp. -/
def Moment.startTs (m : Moment) : Nat := (m.start % 2 ^ 64).toNat

/-- The time is exactly as many microseconds after the epoch, the unsigned sum does not wrap,
and its nanoseconds are in the range of the clock. -/
structure Moment.Exact (m : Moment) (time : Time) : Prop where
  time_eq : time.ns = (m.start + m.delta) * 1000
  sum_lt : m.startTs + m.delta < 2 ^ 64
  ns_lt : (m.startTs + m.delta) * 1000 < 2 ^ 63

/-- The start is not negative, and the clock can represent the sum. -/
def Moment.Fits (m : Moment) : Prop := 0 ≤ m.start ∧ (m.start + m.delta) * 1000 < 2 ^ 63

instance (m : Moment) : Decidable m.Fits := inferInstanceAs (Decidable (_ ∧ _))

theorem Moment.Exact.fits {m : Moment} {time : Time} (h : m.Exact time) : m.Fits := by
  obtain ⟨htime, -, hns⟩ := h
  have hlower := time.lower
  have hupper := time.upper
  rw [htime] at hlower hupper
  refine ⟨?_, hupper⟩
  -- a negative start that the clock can represent is read as a number close to 2^64
  unfold Moment.startTs at hns
  omega

/-- A sum that fits is converted exactly. -/
theorem Moment.Fits.exact {m : Moment} (h : m.Fits) {startTs : Nat}
    (hread : m.start < 2 ^ 64 → m.startTs = startTs) : m.Exact (errorTime startTs m.delta) := by
  obtain ⟨hnonneg, hlt⟩ := h
  have hread := hread (by omega)
  have hstart : m.start = startTs := by
    unfold Moment.startTs at hread
    omega
  have hsum : (startTs + m.delta) % 2 ^ 64 = startTs + m.delta := Nat.mod_eq_of_lt (by omega)
  refine ⟨?_, by omega, by omega⟩
  rw [errorTime, hsum, timeFromMicroseconds_ns (by omega) (by omega), hstart]
  push_cast
  rfl

/-- Times that are exact if their moments fit are exact if and only if all of them fit. -/
theorem forall₂_exact_iff {moments : List Moment} {times : List Time}
    (h : List.Forall₂ (fun m time => m.Fits → m.Exact time) moments times) :
    List.Forall₂ Moment.Exact moments times ↔ ∀ m ∈ moments, m.Fits := by
  induction h with
  | nil => simp
  | cons hexact _ ih =>
    rw [List.forall₂_cons, List.forall_mem_cons, ih]
    exact and_congr_left fun _ => ⟨Moment.Exact.fits, hexact⟩

/-! ## Records of protocol v1 -/

/-- The timestamps in the names of the record headers, in the order of the records. -/
def momentsV1 (headers : Headers) : List Moment :=
  (orderedRecordHeaders headers).map fun h =>
    ⟨(signedNumeral (h.1.drop kHeaderTimePrefix.length)).getD 0, 0⟩

/-- A timestamp in microseconds is converted like a sum without a delta. -/
theorem fromMicroseconds_eq_ok {ts : Bytes} {time : Time} (h : fromMicroseconds ts = .ok time) :
    ∃ us, stoul ts = .ok us ∧ time = errorTime us 0 := by
  obtain ⟨us, hus, htime⟩ := bind_eq_ok.1 h
  refine ⟨us, hus, (Except.ok.inj htime).symm.trans ?_⟩
  rw [errorTime, Nat.add_zero, Nat.mod_eq_of_lt (stoull_lt hus)]

theorem decodeRecordV1_time {head : Bool} {header : Bytes × Bytes} {record : ReadableRecord}
    (h : decodeRecordV1 head header = .ok record) :
    fromMicroseconds (header.1.drop kHeaderTimePrefix.length) = .ok record.timestamp := by
  obtain ⟨csv, -, h⟩ := bind_eq_ok.1 h
  obtain ⟨time, htime, h⟩ := bind_eq_ok.1 h
  cases h
  exact htime

theorem times_decodedV1 {head : Bool} {headers : Headers} {records : List ReadableRecord}
    (h : parseAndBuildBatchedRecordsV1 head headers = .ok records) :
    List.Forall₂ (fun m time => Moment.Fits m → m.Exact time) (momentsV1 headers)
      (records.map fun r => r.timestamp) := by
  rw [parseAndBuildBatchedRecordsV1_eq] at h
  obtain ⟨decoded, hdecoded, h⟩ := bind_eq_ok.1 h
  cases h
  rw [map_flagLast fun _ _ => rfl, momentsV1, List.forall₂_map_left_iff, List.forall₂_map_right_iff]
  refine (mapM_eq_ok.1 hdecoded).imp fun header record hrecord hfits => ?_
  obtain ⟨us, hus, htime⟩ := fromMicroseconds_eq_ok (decodeRecordV1_time hrecord)
  obtain ⟨start, hstart, hread⟩ := stoull_signedNumeral hus
  rw [htime]
  refine hfits.exact fun _ => ?_
  rw [hstart]
  exact hread

/-! ## Records of protocol v2 -/

variable [StdSort]

/-- The sums for the records of a response, in their order: those of the headers that
the decoder keeps, if it can read the start timestamp. -/
def momentsV2 (headers : Headers) : List Moment :=
  match headers.find? kHeaderStartTs with
  | none => []
  | some rawStartTs =>
    if (stoull rawStartTs).isOk then
      ((StdSort.sort parsedHeaderLess (parsedHeaders headers)).filter
        (keepsHeader (responseEntries headers).length)).map fun p =>
          ⟨(signedNumeral rawStartTs).getD 0, p.2.1⟩
    else []

omit [StdSort] in
theorem foldlM_decodeHeader_times {head : Bool} {entries : List Bytes} {startTs : Nat}
    {labelNames : Option (List Bytes)} {l : List ParsedHeader} {lastHeader : _} {st : DecodeState}
    (h : l.foldlM (decodeHeader head entries startTs labelNames) ⟨lastHeader, []⟩ = .ok st) :
    st.records.map (fun r => r.timestamp) =
      (l.filter (keepsHeader entries.length)).map fun p => errorTime startTs p.2.1 := by
  refine foldlM_invariant (fun before st => st.records.map (fun r => r.timestamp) =
    (before.filter (keepsHeader entries.length)).map fun p => errorTime startTs p.2.1) h rfl ?_
  intro before p st st' ih hstep
  rw [List.filter_append, List.filter_singleton, List.map_append, ← ih]
  rcases decodeHeader_cases hstep with ⟨hsame, hskip⟩ | ⟨record, hmore, hkeeps, -, htime⟩
  · have hkeep : keepsHeader entries.length p = false :=
      Bool.eq_false_iff.2 fun hkeep => hskip (keepsHeader_iff.1 hkeep)
    rw [hsame, hkeep]
    simp
  · rw [hmore, keepsHeader_iff.2 hkeeps, List.map_append, List.map_singleton, htime]
    rfl

theorem momentsV2_eq {headers : Headers} {rawStartTs : Bytes} {startTs : Nat}
    (hstart : headers.find? kHeaderStartTs = some rawStartTs) (hok : stoull rawStartTs = .ok startTs) :
    momentsV2 headers = ((StdSort.sort parsedHeaderLess (parsedHeaders headers)).filter
      (keepsHeader (responseEntries headers).length)).map fun p =>
        ⟨(signedNumeral rawStartTs).getD 0, p.2.1⟩ := by
  rw [momentsV2, hstart]
  exact if_pos (isOk_iff.2 ⟨startTs, hok⟩)

/-- A response without entries or without a start timestamp has no moments. -/
theorem momentsV2_nil {headers : Headers} (h : responseEntries headers = [] ∨ ∀ rawStartTs startTs,
      headers.find? kHeaderStartTs = some rawStartTs → stoull rawStartTs ≠ .ok startTs) :
    momentsV2 headers = [] := by
  cases hstart : headers.find? kHeaderStartTs with
  | none => rw [momentsV2, hstart]
  | some rawStartTs =>
    cases hok : stoull rawStartTs with
    | error fault =>
      rw [momentsV2, hstart]
      dsimp only
      rw [hok]
      rfl
    | ok startTs =>
      rcases h with hnil | hunreadable
      · rw [momentsV2_eq hstart hok, hnil, List.filter_eq_nil_iff.2, List.map_nil]
        simp [keepsHeader]
      · exact absurd hok (hunreadable _ _ hstart)

theorem times_decodedV2 {head : Bool} {headers : Headers} {records : List ReadableRecord}
    (h : parseAndBuildBatchedRecordsV2 head headers = .ok records) :
    List.Forall₂ (fun m time => Moment.Fits m → m.Exact time) (momentsV2 headers)
      (records.map fun r => r.timestamp) := by
  rcases parseAndBuildBatchedRecordsV2_cases h with
    ⟨rfl, hmissing⟩ | ⟨rawEntries, rawStartTs, startTs, st, hentries, hstart, hok, hst, rfl⟩
  · rw [momentsV2_nil hmissing]
    exact .nil
  · have hentriesEq : responseEntries headers = parseEncodedList rawEntries := by
      rw [responseEntries, hentries]
      rfl
    obtain ⟨start, hsigned, hread⟩ := stoull_signedNumeral hok
    rw [map_flagLast fun _ _ => rfl, foldlM_decodeHeader_times hst, momentsV2_eq hstart hok,
      hentriesEq, hsigned, List.forall₂_map_left_iff, List.forall₂_map_right_iff]
    exact List.forall₂_same.2 fun p _ hfits => hfits.exact fun _ => hread

/-! ## Errors -/

/-- The keys of an error map are the moments, exactly. -/
structure KeysExact (moments : List Moment) (isKey : Time → Prop) : Prop where
  given : ∀ m ∈ moments, ∃ time, isKey time ∧ m.Exact time
  only : ∀ time, isKey time → ∃ m ∈ moments, m.Exact time

omit [StdSort] in
/-- The keys that a loop over the deltas gives. -/
theorem keysExact_iff {start : Int} {startTs : Nat} {deltas : List Nat} {isKey : Time → Prop}
    (hread : start < 2 ^ 64 → (start % 2 ^ 64).toNat = startTs)
    (hkeys : ∀ time, isKey time ↔ time ∈ deltas.map (errorTime startTs)) :
    KeysExact (deltas.map (Moment.mk start)) isKey ↔ ∀ m ∈ deltas.map (Moment.mk start), m.Fits := by
  constructor
  · intro h m hm
    obtain ⟨time, -, hexact⟩ := h.given m hm
    exact hexact.fits
  · intro h
    have hexact : ∀ delta ∈ deltas, (Moment.mk start delta).Exact (errorTime startTs delta) :=
      fun delta hdelta => (h _ (List.mem_map_of_mem hdelta)).exact hread
    refine ⟨List.forall_mem_map.2 fun delta hdelta => ?_, fun time htime => ?_⟩
    · exact ⟨_, (hkeys _).2 (List.mem_map_of_mem hdelta), hexact delta hdelta⟩
    · obtain ⟨delta, hdelta, rfl⟩ := List.mem_map.1 ((hkeys time).1 htime)
      exact ⟨_, List.mem_map_of_mem hdelta, hexact delta hdelta⟩

omit [StdSort] in
theorem mem_errorHeaderV2 {startTs : Nat} {header : Bytes × Bytes} {errors errors' : BatchErrors}
    (h : errorHeaderV2 startTs errors header = .ok errors') (time : Time) :
    time ∈ errors' ↔ time ∈ errors ∨ (errorDelta header).map (errorTime startTs) = some time := by
  rcases errorHeaderV2_cases h with ⟨rfl, hnone⟩ | ⟨delta, error, hdelta, rfl⟩
  · simp [hnone]
  · rw [Std.ExtTreeMap.mem_insertIfNew, Std.compare_eq_iff_eq, hdelta, Option.map_some,
      Option.some.injEq, or_comm]

omit [StdSort] in
theorem mem_addRecordError {errors : BatchRecordErrors} {entry entry' : Bytes} {time time' : Time}
    {error : Error} :
    time' ∈ (addRecordError errors entry time error)[entry']?.getD ∅ ↔
      time' ∈ errors[entry']?.getD ∅ ∨ (entry = entry' ∧ time = time') := by
  rw [getElem?_addRecordError]
  by_cases hentry : entry = entry'
  · subst hentry
    rw [if_pos rfl, Option.getD_some, Std.ExtTreeMap.mem_insertIfNew, Std.compare_eq_iff_eq, or_comm]
    simp
  · rw [if_neg hentry]
    simp [hentry]

omit [StdSort] in
/-- A header whose index is in range counts for one entry. -/
theorem entryErrorDelta_eq {entries : List Bytes} {entry : Bytes} {header : Bytes × Bytes}
    {entryIdx delta : Nat} (hname : errorIndices header.1 = some (entryIdx, delta))
    (hentry : entries[entryIdx]? = some entry) (hcomma : comma ∈ header.2) (entry' : Bytes) :
    entryErrorDelta entries entry' header = if entry = entry' then some delta else none := by
  rw [entryErrorDelta, hname, Option.bind_some]
  dsimp only
  rw [hentry]
  simp [hcomma]

omit [StdSort] in
theorem mem_recordErrorHeaderV2 {entries : List Bytes} {startTs : Nat} {header : Bytes × Bytes}
    {errors errors' : BatchRecordErrors}
    (h : recordErrorHeaderV2 entries startTs errors header = .ok errors') (entry : Bytes)
    (time : Time) :
    time ∈ errors'[entry]?.getD ∅ ↔ time ∈ errors[entry]?.getD ∅ ∨
      (entryErrorDelta entries entry header).map (errorTime startTs) = some time := by
  rcases recordErrorHeaderV2_cases h with
    ⟨rfl, hnone⟩ | ⟨entryIdx, delta, entry', error, hname, hentry, hvalue, rfl⟩
  · simp [hnone]
  · have hcomma : comma ∈ header.2 := by
      obtain ⟨code, hsplit, -⟩ := parseErrorValue_eq_some.1 hvalue
      simp [(splitFirst_eq_some.1 hsplit).1]
    rw [mem_addRecordError, entryErrorDelta_eq hname hentry hcomma]
    by_cases hsame : entry' = entry
    · simp [hsame]
    · simp [hsame]

/-- The sums for the errors that `ProcessBatchV2` takes from an answer. -/
def errorMomentsV2 (request : BatchV2Request) (answer : Headers) : List Moment :=
  (answer.toList.filterMap errorDelta).map (Moment.mk request.startTs)

/-- The start timestamp that the error deltas refer to, with its sign. -/
def signedErrorStartTs (request : BatchV2Request) (answer : Headers) : Int :=
  match answer.find? kHeaderStartTs with
  | none => request.startTs
  | some raw => if (stoull raw).isOk then (signedNumeral raw).getD 0 else request.startTs

/-- The sums for the errors of an entry that `ProcessBatchV2Records` takes from an answer. -/
def entryErrorMoments (request : BatchV2Request) (answer : Headers) (entry : Bytes) : List Moment :=
  (answer.toList.filterMap (entryErrorDelta (errorEntries request answer) entry)).map
    (Moment.mk (signedErrorStartTs request answer))

omit [StdSort] in
theorem signedErrorStartTs_read {request : BatchV2Request} {answer : Headers}
    (h : signedErrorStartTs request answer < 2 ^ 64) :
    (signedErrorStartTs request answer % 2 ^ 64).toNat = errorStartTs request answer := by
  unfold signedErrorStartTs errorStartTs at *
  cases hstart : answer.find? kHeaderStartTs with
  | none =>
    rw [hstart] at h
    dsimp only at h ⊢
    omega
  | some raw =>
    rw [hstart] at h
    dsimp only at h ⊢
    cases hok : stoull raw with
    | error fault =>
      have hno : ¬ (Except.error fault : Except Fault Nat).isOk = true := Bool.false_ne_true
      rw [hok, if_neg hno] at h
      rw [if_neg hno]
      dsimp only
      omega
    | ok startTs =>
      obtain ⟨start, hsigned, hread⟩ := stoull_signedNumeral hok
      rw [hsigned]
      exact hread

omit [StdSort] in
/-- The errors of a call that has sent its request are those of the answer. -/
theorem processRequestV2_decode {α : Type} {server : HttpServer} {ioPath : Bytes} {batch : Batch}
    {type : BatchType} {request : BatchV2Request} {nothing errors : α}
    {decode : BatchV2Request → Headers → Except Fault α} (hordered : request.ordered ≠ [])
    (h : (processRequestV2 server ioPath batch type (.ok request) nothing decode).result =
      .ok ⟨errors, .kOk⟩) :
    decode request (server (requestV2 ioPath type batch request)).result.2 = .ok errors := by
  rcases processRequestV2_cases h with ⟨-, hnil | herror⟩ | hdecode
  · exact absurd hnil hordered
  · cases herror
  · exact hdecode

/-! ## All decoders -/

/-- Times are given exactly if and only if the sums fit: for the records of both protocols,
in their order, and for the keys of both error maps. -/
theorem exactTimes_iff :
    (∀ head headers records, parseAndBuildBatchedRecordsV1 head headers = .ok records →
      (List.Forall₂ Moment.Exact (momentsV1 headers) (records.map fun r => r.timestamp) ↔
        ∀ m ∈ momentsV1 headers, m.Fits)) ∧
    (∀ head headers records, parseAndBuildBatchedRecordsV2 head headers = .ok records →
      (List.Forall₂ Moment.Exact (momentsV2 headers) (records.map fun r => r.timestamp) ↔
        ∀ m ∈ momentsV2 headers, m.Fits)) ∧
    (∀ (server : HttpServer) ioPath entryName batch type request errors,
      buildBatchV2Request entryName batch type false = .ok request → request.ordered ≠ [] →
      (processBatchV2 server ioPath entryName batch type).result = .ok ⟨errors, .kOk⟩ →
        let moments := errorMomentsV2 request (server (requestV2 ioPath type batch request)).result.2
        (KeysExact moments (· ∈ errors) ↔ ∀ m ∈ moments, m.Fits)) ∧
    (∀ (server : HttpServer) ioPath batch type request errors entry,
      buildBatchV2Request [] batch type true = .ok request → request.ordered ≠ [] →
      (processBatchV2Records server ioPath batch type).result = .ok ⟨errors, .kOk⟩ →
        let moments :=
          entryErrorMoments request (server (requestV2 ioPath type batch request)).result.2 entry
        (KeysExact moments (· ∈ errors[entry]?.getD ∅) ↔ ∀ m ∈ moments, m.Fits)) := by
  refine ⟨fun head headers records h => ?_, fun head headers records h => ?_, ?_, ?_⟩
  · exact forall₂_exact_iff (times_decodedV1 h)
  · exact forall₂_exact_iff (times_decodedV2 h)
  · intro server ioPath entryName batch type request errors hbuilt hordered h
    rw [processBatchV2, hbuilt] at h
    have hdecode := processRequestV2_decode hordered h
    refine @keysExact_iff _ request.startTs _ _ (fun _ => by omega) fun time => ?_
    rw [List.map_filterMap]
    exact foldlM_collects (fun errors time => time ∈ errors) _ hdecode (by simp)
      (fun _ _ _ hstep => mem_errorHeaderV2 hstep) time
  · intro server ioPath batch type request errors entry hbuilt hordered h
    rw [processBatchV2Records, hbuilt] at h
    have hdecode := processRequestV2_decode hordered h
    refine keysExact_iff signedErrorStartTs_read fun time => ?_
    rw [List.map_filterMap]
    exact foldlM_collects (fun errors time => time ∈ errors[entry]?.getD ∅) _ hdecode (by simp)
      (fun _ _ _ hstep => mem_recordErrorHeaderV2 hstep entry) time

/-- A response with one record. -/
def startingAt (rawStartTs rawDelta : Bytes) : Headers := UnorderedMap.empty.emplaceAll
  [(kHeaderEntries, bytes "a"), (kHeaderStartTs, rawStartTs),
    (kHeaderPrefix ++ (bytes "0-" ++ rawDelta), bytes "0")]

/-- A response of protocol v1 with one record. -/
def recordAtV1 (rawTime : Bytes) : Headers := UnorderedMap.empty.emplaceAll
  [(kHeaderTimePrefix ++ rawTime, bytes "0,text")]

/-- An answer that reports one error. -/
def answerAfter (rawDelta : Bytes) : Headers := UnorderedMap.empty.emplaceAll
  [(kHeaderErrorPrefix ++ (bytes "0-" ++ rawDelta), bytes "404,why")]

def errorAfter (rawDelta : Bytes) : HttpServer := fun _ => ⟨([], answerAfter rawDelta), .kOk⟩

omit [StdSort] in
/-- Times close to the epoch: a record of each protocol, and an error reported by each call. -/
theorem exactTimes_early :
    (∃ records, parseAndBuildBatchedRecordsV1 false (recordAtV1 (bytes "5")) = .ok records ∧
      List.Forall₂ Moment.Exact (momentsV1 (recordAtV1 (bytes "5")))
        (records.map fun r => r.timestamp)) ∧
    (∃ records, @parseAndBuildBatchedRecordsV2 .insertion false
        (startingAt (bytes "5") (bytes "1")) = .ok records ∧
      List.Forall₂ Moment.Exact (@momentsV2 .insertion (startingAt (bytes "5") (bytes "1")))
        (records.map fun r => r.timestamp)) ∧
    (∃ request errors, @buildBatchV2Request .insertion [] twoTimes .kUpdate false = .ok request ∧
      (@processBatchV2 .insertion (errorAfter (bytes "1")) [] [] twoTimes .kUpdate).result =
        .ok ⟨errors, .kOk⟩ ∧
      KeysExact (errorMomentsV2 request (answerAfter (bytes "1"))) (· ∈ errors)) ∧
    ∃ request errors, @buildBatchV2Request .insertion [] twoTimes .kUpdate true = .ok request ∧
      (@processBatchV2Records .insertion (errorAfter (bytes "1")) [] twoTimes .kUpdate).result =
        .ok ⟨errors, .kOk⟩ ∧
      KeysExact (entryErrorMoments request (answerAfter (bytes "1")) (bytes "a"))
        (· ∈ errors[bytes "a"]?.getD ∅) := by
  obtain ⟨hv1, hv2, herrors, hentries⟩ := @exactTimes_iff .insertion
  refine ⟨?_, ?_, ?_, ?_⟩
  · obtain ⟨records, hrecords⟩ := isOk_iff.1
      (by decide +kernel : (parseAndBuildBatchedRecordsV1 false (recordAtV1 (bytes "5"))).isOk)
    exact ⟨records, hrecords, (hv1 _ _ _ hrecords).2 (by decide +kernel)⟩
  · obtain ⟨records, hrecords⟩ := isOk_iff.1 (by decide +kernel :
      (@parseAndBuildBatchedRecordsV2 .insertion false (startingAt (bytes "5") (bytes "1"))).isOk)
    exact ⟨records, hrecords, (hv2 _ _ _ hrecords).2 (by decide +kernel)⟩
  · exact ⟨_, _, rfl, rfl, (herrors (errorAfter (bytes "1")) [] [] twoTimes .kUpdate _ _ rfl
      (by decide) rfl).2 (by decide +kernel)⟩
  · exact ⟨_, _, rfl, rfl, (hentries (errorAfter (bytes "1")) [] twoTimes .kUpdate _ _ (bytes "a") rfl
      (by decide) rfl).2 (by decide +kernel)⟩

omit [StdSort] in
/-- A sum that wraps to the epoch, a start timestamp beyond the clock that comes out before
the epoch, the same in protocol v1, and an error whose delta makes its sum wrap. -/
theorem exactTimes_broken :
    let times (decoded : Except Fault (List ReadableRecord)) :=
      decoded.map fun records => records.map fun r => r.timestamp.ns
    let wrapped := startingAt (bytes "18446744073709551615") (bytes "1")
    times (@parseAndBuildBatchedRecordsV2 .insertion false wrapped) = .ok [0] ∧
      times (@parseAndBuildBatchedRecordsV2 .insertion false
        (startingAt (bytes "9223372036854776") (bytes "0"))) = .ok [-9223372036854775616] ∧
      times (parseAndBuildBatchedRecordsV1 false (recordAtV1 (bytes "9223372036854776"))) =
        .ok [-9223372036854775616] ∧
      (@processBatchV2 .insertion (errorAfter (bytes "18446744073709551615")) [] [] twoTimes
        .kUpdate).result.map (fun r => r.result.keys.map Time.ns) = .ok [0] ∧
      ∀ records, @parseAndBuildBatchedRecordsV2 .insertion false wrapped = .ok records →
        ¬ List.Forall₂ Moment.Exact (@momentsV2 .insertion wrapped)
          (records.map fun r => r.timestamp) := by
  refine ⟨by decide +kernel, by decide +kernel, by decide +kernel, by decide +kernel, ?_⟩
  intro records hrecords hexact
  have hfits := (forall₂_exact_iff (@times_decodedV2 .insertion _ _ _ hrecords)).1 hexact
  have hmem : (⟨2 ^ 64 - 1, 1⟩ : Moment) ∈ @momentsV2 .insertion
      (startingAt (bytes "18446744073709551615") (bytes "1")) := by decide +kernel
  exact absurd (hfits _ hmem).2 (by decide)

end Reduct
