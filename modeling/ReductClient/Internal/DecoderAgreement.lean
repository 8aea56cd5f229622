-- SUMMARY: The two error decoders of protocol v2 on a batch of one entry: when they return the same errors.
import ReductClient.Internal.Addressing
import ReductClient.Internal.ErrorHeaders
import ReductClient.Internal.ErrorReports

open Cxx Fallible

namespace Reduct

/-! ## Well-formed error headers -/

/-- A string of decimal digits. -/
def IsNumeral (s : Bytes) : Prop := s ≠ [] ∧ ∀ c ∈ s, isDigit c = true

/-- Decimal digits, with or without a minus sign. -/
def IsInteger (s : Bytes) : Prop := IsNumeral s ∨ ∃ digits, IsNumeral digits ∧ s = dash :: digits

/-- The name has two numbers, and the value has a status and a message. -/
structure WellFormedError (header : Bytes × Bytes) : Prop where
  name : ∃ entryStr deltaStr entryIdx delta,
    header.1 = kHeaderErrorPrefix ++ (entryStr ++ dash :: deltaStr) ∧ IsNumeral entryStr ∧
      IsNumeral deltaStr ∧ stoul entryStr = .ok entryIdx ∧ stoull deltaStr = .ok delta
  value : ∃ code message status, header.2 = code ++ comma :: message ∧ IsInteger code ∧
    stoi code = .ok status

def WellFormedErrors (headers : Headers) : Prop :=
  ∀ h ∈ headers.toList, isErrorName h.1 = true → WellFormedError h

theorem IsNumeral.no_dash {s : Bytes} (h : IsNumeral s) : dash ∉ s := fun hmem =>
  (isDigit_cases (h.2 _ hmem)).2.2.2.2.1 rfl

theorem IsInteger.no_comma {s : Bytes} (h : IsInteger s) : comma ∉ s := by
  have hdigits : ∀ digits, IsNumeral digits → comma ∉ digits := fun digits h hmem =>
    (isDigit_cases (h.2 _ hmem)).2.2.2.1 rfl
  rcases h with h | ⟨digits, h, rfl⟩
  · exact hdigits s h
  · rw [List.mem_cons, not_or]
    exact ⟨by decide, hdigits digits h⟩

section WellFormed

variable {header : Bytes × Bytes}

theorem WellFormedError.indices (h : WellFormedError header) :
    ∃ p, errorIndices header.1 = some p := by
  obtain ⟨entryStr, deltaStr, entryIdx, delta, hname, -, hdelta, hidx, hok⟩ := h.name
  refine ⟨(entryIdx, delta), errorIndices_eq_some.2 ⟨?_, entryStr, deltaStr, ?_, hidx, hok⟩⟩
  · rw [hname, isPrefixOf_append]
  · rw [hname, List.drop_left, splitLast_append _ hdelta.no_dash]

theorem WellFormedError.error (h : WellFormedError header) :
    ∃ error, parseErrorValue header.2 = some error := by
  obtain ⟨code, message, status, hvalue, hcode, hok⟩ := h.value
  refine ⟨⟨status, message⟩, parseErrorValue_eq_some.2 ⟨code, ?_, hok⟩⟩
  rw [hvalue, splitFirst_append hcode.no_comma]

/-- Only error headers have indices. -/
theorem isErrorName_of_indices {name : Bytes} {p : Nat × Nat} (h : errorIndices name = some p) :
    isErrorName name = true := (errorIndices_eq_some.1 h).1

end WellFormed

/-! ## The loops over well-formed headers -/

/-- The indices and the errors of the error headers, in iteration order. -/
def errorReports (headers : List (Bytes × Bytes)) : List ((Nat × Nat) × Error) :=
  headers.filterMap fun h => (errorIndices h.1).bind fun p => (parseErrorValue h.2).map (p, ·)

/-- The errors by the entries at their indices. -/
def attributedErrors (entries : List Bytes) (startTs : Nat) (headers : List (Bytes × Bytes)) :
    List ((Bytes × Time) × Error) :=
  (errorReports headers).filterMap fun f =>
    entries[f.1.1]?.map fun entry => ((entry, errorTime startTs f.1.2), f.2)

section Loops

variable {headers : List (Bytes × Bytes)}

theorem mem_errorReports {p : Nat × Nat} {error : Error} : (p, error) ∈ errorReports headers ↔
    ∃ h ∈ headers, errorIndices h.1 = some p ∧ parseErrorValue h.2 = some error := by
  simp only [errorReports, List.mem_filterMap, Option.bind_eq_some_iff, Option.map_eq_some_iff,
    Prod.mk.injEq]
  constructor
  · rintro ⟨h, hmem, p, hp, error, herror, rfl, rfl⟩
    exact ⟨h, hmem, hp, herror⟩
  · rintro ⟨h, hmem, hp, herror⟩
    exact ⟨h, hmem, p, hp, error, herror, rfl, rfl⟩

/-- What one header does to both loops. -/
theorem errorReports_cons {header : Bytes × Bytes}
    (hwf : isErrorName header.1 = true → WellFormedError header) :
    (isErrorName header.1 = false ∧ errorReports (header :: headers) = errorReports headers) ∨
      ∃ p error, errorIndices header.1 = some p ∧ parseErrorValue header.2 = some error ∧
        errorReports (header :: headers) = (p, error) :: errorReports headers := by
  cases hname : isErrorName header.1 with
  | false =>
    refine .inl ⟨rfl, ?_⟩
    have hnone : errorIndices header.1 = none := by
      rw [errorIndices, hname]
      rfl
    rw [errorReports, List.filterMap_cons_none (by rw [hnone]; rfl)]
    rfl
  | true =>
    obtain ⟨p, hp⟩ := (hwf hname).indices
    obtain ⟨error, herror⟩ := (hwf hname).error
    refine .inr ⟨p, error, hp, herror, ?_⟩
    rw [errorReports, List.filterMap_cons_some (by rw [hp, herror]; rfl)]
    rfl

/-- A loop that passes over the other headers and takes the report of each error
header folds the reports. -/
theorem foldlM_reports {σ : Type} {step : σ → Bytes × Bytes → Except Fault σ}
    {report : σ → (Nat × Nat) × Error → σ}
    (hskip : ∀ errors header, isErrorName header.1 = false → step errors header = .ok errors)
    (hreport : ∀ errors header p error, errorIndices header.1 = some p →
      parseErrorValue header.2 = some error → step errors header = .ok (report errors (p, error)))
    (hwf : ∀ h ∈ headers, isErrorName h.1 = true → WellFormedError h) (errors : σ) :
    headers.foldlM step errors = .ok ((errorReports headers).foldl report errors) := by
  induction headers generalizing errors with
  | nil => rfl
  | cons header headers ih =>
    rw [List.forall_mem_cons] at hwf
    rw [List.foldlM_cons]
    rcases errorReports_cons hwf.1 with ⟨hname, hreports⟩ | ⟨p, error, hp, herror, hreports⟩
    · rw [hskip errors header hname, ok_bind, ih hwf.2, hreports]
    · rw [hreport errors header p error hp herror, ok_bind, ih hwf.2, hreports, List.foldl_cons]

theorem foldlM_errorHeaderV2 (hwf : ∀ h ∈ headers, isErrorName h.1 = true → WellFormedError h)
    (startTs : Nat) (errors : BatchErrors) :
    headers.foldlM (errorHeaderV2 startTs) errors =
      .ok (errors.emplaceAll ((errorReports headers).map fun f => (errorTime startTs f.1.2, f.2))) := by
  rw [OrderedMap.emplaceAll, List.foldl_map]
  exact foldlM_reports (fun errors _ hname => errorHeaderV2_skip hname startTs errors)
    (fun errors _ _ _ hp herror => errorHeaderV2_eq hp herror startTs errors) hwf errors

theorem foldlM_recordErrorHeaderV2 (hwf : ∀ h ∈ headers, isErrorName h.1 = true → WellFormedError h)
    (entries : List Bytes) (startTs : Nat) (errors : BatchRecordErrors) :
    headers.foldlM (recordErrorHeaderV2 entries startTs) errors =
      .ok ((attributedErrors entries startTs headers).foldl
        (fun errors f => addRecordError errors f.1.1 f.1.2 f.2) errors) := by
  rw [attributedErrors, List.foldl_filterMap]
  refine foldlM_reports (fun errors _ hname => recordErrorHeaderV2_skip hname entries startTs errors)
    (fun errors _ p _ hp herror => ?_) hwf errors
  rw [recordErrorHeaderV2_eq hp herror]
  cases entries[p.1]? <;> rfl

end Loops

/-! ## The errors of one entry -/

section Entry

variable {l : List ((Bytes × Time) × Error)} {errors : BatchRecordErrors} {entry : Bytes}

theorem mem_foldl_addRecordError :
    entry ∈ l.foldl (fun errors f => addRecordError errors f.1.1 f.1.2 f.2) errors ↔
      entry ∈ errors ∨ ∃ f ∈ l, f.1.1 = entry := by
  induction l generalizing errors with
  | nil => simp
  | cons f l ih =>
    rw [List.foldl_cons, ih, addRecordError, Std.ExtTreeMap.mem_insert, Std.compare_eq_iff_eq,
      List.exists_mem_cons_iff]
    tauto

/-- An entry has the errors that were added to it, in their order. -/
theorem getD_foldl_addRecordError :
    (l.foldl (fun errors f => addRecordError errors f.1.1 f.1.2 f.2) errors)[entry]?.getD ∅ =
      (errors[entry]?.getD ∅).emplaceAll
        ((l.filter fun f => f.1.1 = entry).map fun f => (f.1.2, f.2)) := by
  induction l generalizing errors with
  | nil => rfl
  | cons f l ih =>
    rw [List.foldl_cons, ih, getElem?_addRecordError]
    split_ifs with hentry
    · rw [List.filter_cons_of_pos (by simpa using hentry), hentry]
      rfl
    · rw [List.filter_cons_of_neg (by simpa using hentry)]

end Entry

/-! ## Times -/

/-- Microseconds are scaled to nanoseconds in 64 bits, which drops the upper ones. -/
theorem timeFromMicroseconds_eq_iff {us us' : Nat} :
    timeFromMicroseconds us = timeFromMicroseconds us' ↔ us % 2 ^ 61 = us' % 2 ^ 61 := by
  have hns : ∀ us : Nat, (timeFromMicroseconds us).ns = Int.bmod (us * 1000) (2 ^ 64) := by
    intro us
    simp only [timeFromMicroseconds, Time.wrap, Int.bmod_mul_bmod]
  have htime : timeFromMicroseconds us = timeFromMicroseconds us' ↔
      (timeFromMicroseconds us).ns = (timeFromMicroseconds us').ns := ⟨congrArg Time.ns, Time.ext⟩
  have hdvd : Int.bmod (us * 1000) (2 ^ 64) = Int.bmod (us' * 1000) (2 ^ 64) ↔
      (2 ^ 64 : Int) ∣ us * 1000 - us' * 1000 := by
    simp only [Int.bmod_eq_bmod_iff_bmod_sub_eq_zero, ← Int.dvd_iff_bmod_eq_zero, Nat.cast_pow,
      Nat.cast_ofNat]
  have hmod : ∀ n : Nat, us % n = us' % n ↔ (n : Int) ∣ us' - us := fun n => Nat.modEq_iff_dvd
  -- a thousand has three factors of two, and the others do not matter
  have hscale : (us : Int) * 1000 - us' * 1000 = 8 * (125 * (us - us')) := by
    rw [← Int.sub_mul, Int.mul_comm, ← Int.mul_assoc]
    rfl
  have hpow : (2 ^ 64 : Int) = 8 * 2 ^ 61 := rfl
  have hcoprime : Int.gcd (2 ^ 61) 125 = 1 := by decide
  rw [htime, hns, hns, hdvd, hmod, Nat.cast_pow, Nat.cast_ofNat, hscale, hpow,
    Int.mul_dvd_mul_iff_left (by decide), dvd_sub_comm]
  exact ⟨fun h => Int.dvd_of_dvd_mul_right_of_gcd_one h hcoprime, fun h => h.mul_left 125⟩

theorem errorTime_eq_iff {startTs startTs' delta : Nat} :
    errorTime startTs delta = errorTime startTs' delta ↔ startTs % 2 ^ 61 = startTs' % 2 ^ 61 := by
  rw [errorTime, errorTime, timeFromMicroseconds_eq_iff]
  omega

/-! ## The start timestamp of a request -/

/-- The smallest microseconds of the records. -/
def startOf (records : List Record) : Nat :=
  (records.map fun r => r.timestamp.micros).foldl min (2 ^ 64 - 1)

theorem indexRecords_startTs {batch : Batch} {defaultEntry : Bytes} {requireEntry : Bool}
    {order : List Nat} {st : IndexState}
    (h : order.foldlM (indexRecord batch defaultEntry requireEntry) ⟨2 ^ 64 - 1, .empty, []⟩ =
      .ok st) : st.startTs = startOf (batch.inOrder order) := by
  refine foldlM_invariant (fun before st => st.startTs = startOf (batch.inOrder before)) h rfl ?_
  intro before idx st st' ih hstep
  unfold indexRecord at hstep
  dsimp only at hstep
  split at hstep
  · cases hstep
  · cases hstep
    rw [startOf, Batch.inOrder, List.map_append, List.map_append, List.foldl_append,
      ← Batch.inOrder, ← startOf, ← ih]
    split <;> rfl

variable [StdSort]

/-- The start timestamp does not depend on the order of the records. -/
theorem buildBatchV2Request_startTs {batch : Batch} {defaultEntry : Bytes} {type : BatchType}
    {requireEntry : Bool} {request : BatchV2Request} (hne : batch.records ≠ [])
    (h : buildBatchV2Request defaultEntry batch type requireEntry = .ok request) :
    request.startTs = startOf batch.records := by
  have horder := sortRecords_isOrder batch defaultEntry true
  have hordered : sortRecords batch defaultEntry true ≠ [] := by
    intro hnil
    have hperm := horder.inOrder_perm
    rw [hnil] at hperm
    exact hne (List.nil_perm.1 hperm)
  unfold buildBatchV2Request at h
  dsimp only at h
  rw [if_neg hordered] at h
  obtain ⟨st, hst, h⟩ := bind_eq_ok.1 h
  cases h
  dsimp only
  rw [indexRecords_startTs hst]
  exact (horder.inOrder_perm.map _).foldl_eq _

/-! ## Responses that differ in their errors -/

section Same

omit [StdSort]

/-- A header without the error it reports. -/
def withoutError (header : Bytes × Bytes) : Bytes × Option Bytes :=
  (header.1, if isErrorName header.1 then none else some header.2)

/-- The headers have the same names and, but for the error headers, the same values,
in any order. -/
def SameButErrors (headers headers' : Headers) : Prop :=
  (headers'.toList.map withoutError).Perm (headers.toList.map withoutError)

variable {headers headers' : Headers} {name : Bytes}

theorem SameButErrors.mem_names (h : SameButErrors headers headers') :
    name ∈ headers'.toList.map Prod.fst ↔ name ∈ headers.toList.map Prod.fst := by
  have hnames : ∀ l : List (Bytes × Bytes), (l.map withoutError).map Prod.fst = l.map Prod.fst :=
    fun l => List.map_map
  rw [← hnames, ← hnames headers.toList]
  exact (h.map Prod.fst).mem_iff

theorem mem_withoutError (hname : isErrorName name = false) {value : Bytes}
    {l : List (Bytes × Bytes)} : (name, some value) ∈ l.map withoutError ↔ (name, value) ∈ l := by
  simp only [List.mem_map, withoutError, Prod.mk.injEq]
  constructor
  · rintro ⟨header, hmem, rfl, hvalue⟩
    rw [hname, if_neg (by simp)] at hvalue
    cases hvalue
    exact hmem
  · intro hmem
    refine ⟨(name, value), hmem, rfl, ?_⟩
    rw [hname]
    rfl

theorem SameButErrors.find? (h : SameButErrors headers headers') (hname : isErrorName name = false) :
    headers'.find? name = headers.find? name := by
  apply Option.ext
  intro value
  rw [UnorderedMap.find?_eq_some, UnorderedMap.find?_eq_some, ← mem_withoutError hname,
    ← mem_withoutError hname]
  exact h.mem_iff

/-- The entries and the start timestamp are not in the error headers. -/
theorem SameButErrors.request_eq (h : SameButErrors headers headers') (request : BatchV2Request) :
    errorEntries request headers' = errorEntries request headers ∧
      errorStartTs request headers' = errorStartTs request headers := by
  have hentries : isErrorName kHeaderEntries = false := by decide
  have hstart : isErrorName kHeaderStartTs = false := by decide
  rw [errorEntries, errorEntries, errorStartTs, errorStartTs, h.find? hentries, h.find? hstart]
  exact ⟨rfl, rfl⟩

end Same

/-! ## Both calls on one response -/

/-- The server answers with these headers and the status 200. -/
structure RespondsWith (server : HttpServer) (headers : Headers) : Prop where
  ok : ∀ request, (server request).error = .kOk
  headers_eq : ∀ request, (server request).result.2 = headers

/-- The call returns errors for this entry only. -/
def ReturnsOnly (entry : Bytes) (outcome : Outcome BatchRecordErrors) : Prop :=
  ∀ errors, outcome.result = .ok ⟨errors, .kOk⟩ → ∀ entry' ∈ errors, entry' = entry

/-- Both calls return, and if the second one returns errors for the entry only, those
are the errors that the first one returns. -/
def DecodersAgree (server : HttpServer) (ioPath entryName : Bytes) (batch : Batch)
    (type : BatchType) (entry : Bytes) : Prop :=
  ∃ errors recordErrors,
    (processBatchV2 server ioPath entryName batch type).result = .ok ⟨errors, .kOk⟩ ∧
    (processBatchV2Records server ioPath batch type).result = .ok ⟨recordErrors, .kOk⟩ ∧
    (ReturnsOnly entry (processBatchV2Records server ioPath batch type) →
      errors = recordErrors[entry]?.getD ∅)

section Calls

variable {server : HttpServer} {ioPath entryName entry : Bytes} {batch : Batch} {type : BatchType}
  {request : BatchV2Request} {headers headers' : Headers}

/-- What the first call makes of the error headers. -/
def singleErrors (batch : Batch) (headers : Headers) : BatchErrors :=
  (∅ : BatchErrors).emplaceAll ((errorReports headers.toList).map fun f =>
    (errorTime (startOf batch.records) f.1.2, f.2))

/-- What the second call makes of them. -/
def entryErrors (request : BatchV2Request) (headers : Headers) : BatchRecordErrors :=
  (attributedErrors (errorEntries request headers) (errorStartTs request headers)
    headers.toList).foldl (fun errors f => addRecordError errors f.1.1 f.1.2 f.2) ∅

theorem processBatchV2_headers (hne : batch.records ≠ []) (hwf : WellFormedErrors headers)
    (hserver : RespondsWith server headers) :
    (processBatchV2 server ioPath entryName batch type).result =
      .ok ⟨singleErrors batch headers, .kOk⟩ := by
  rcases buildBatchV2Request_cases entryName batch type false with
    ⟨hnil, -⟩ | ⟨-, ⟨⟨⟩, -⟩, -⟩ | ⟨-, hordered, -, st, -, hbuilt⟩
  · exact absurd hnil hne
  · have hstart := buildBatchV2Request_startTs hne hbuilt
    rw [processBatchV2, hbuilt, processRequestV2_result hordered (hserver.ok _), hserver.headers_eq,
      foldlM_errorHeaderV2 hwf, hstart]
    rfl

theorem processBatchV2Records_headers (hne : batch.records ≠ [])
    (hbuilt : buildBatchV2Request [] batch type true = .ok request)
    (hwf : WellFormedErrors headers) (hserver : RespondsWith server headers) :
    (processBatchV2Records server ioPath batch type).result =
      .ok ⟨entryErrors request headers, .kOk⟩ := by
  have hordered : request.ordered ≠ [] := by
    rcases buildBatchV2Request_cases [] batch type true with
      ⟨hnil, -⟩ | ⟨-, -, herror⟩ | ⟨-, hordered, -, st, -, hok⟩
    · exact absurd hnil hne
    · rw [herror] at hbuilt
      cases hbuilt
    · rw [hok] at hbuilt
      cases hbuilt
      exact hordered
  rw [processBatchV2Records, hbuilt, processRequestV2_result hordered (hserver.ok _),
    hserver.headers_eq, foldlM_recordErrorHeaderV2 hwf]
  rfl

/-- The entries with errors are those at the indices of the error headers. -/
theorem returnsOnly_iff (hne : batch.records ≠ [])
    (hbuilt : buildBatchV2Request [] batch type true = .ok request)
    (hwf : WellFormedErrors headers) (hserver : RespondsWith server headers) :
    ReturnsOnly entry (processBatchV2Records server ioPath batch type) ↔
      ∀ name ∈ headers.toList.map Prod.fst, ∀ p, errorIndices name = some p →
        ∀ entry', (errorEntries request headers)[p.1]? = some entry' → entry' = entry := by
  rw [ReturnsOnly, processBatchV2Records_headers hne hbuilt hwf hserver]
  constructor
  · intro h name hname p hp entry' hentry'
    obtain ⟨header, hmem, rfl⟩ := List.mem_map.1 hname
    obtain ⟨error, herror⟩ := (hwf header hmem (isErrorName_of_indices hp)).error
    have hreport := mem_errorReports.2 ⟨header, hmem, hp, herror⟩
    have hattributed : ((entry', errorTime (errorStartTs request headers) p.2), error) ∈
        attributedErrors (errorEntries request headers) (errorStartTs request headers)
          headers.toList :=
      List.mem_filterMap.2 ⟨(p, error), hreport, by rw [hentry']; rfl⟩
    exact h _ rfl entry' (mem_foldl_addRecordError.2 (.inr ⟨_, hattributed, rfl⟩))
  · intro h errors herrors entry' hentry'
    cases herrors
    rcases mem_foldl_addRecordError.1 hentry' with hnone | ⟨f, hf, rfl⟩
    · exact absurd hnone Std.ExtTreeMap.not_mem_empty
    · obtain ⟨⟨p, error⟩, hreport, hat⟩ := List.mem_filterMap.1 hf
      obtain ⟨entry', hget, rfl⟩ := Option.map_eq_some_iff.1 hat
      obtain ⟨header, hmem, hp, -⟩ := mem_errorReports.1 hreport
      exact h header.1 (List.mem_map_of_mem hmem) p hp entry' hget

omit [StdSort] in
/-- Errors of headers that all have an index of the entry, and whose times are the
same for both calls, are returned by both. -/
theorem singleErrors_eq (hindices : ∀ name ∈ headers.toList.map Prod.fst, ∀ p,
      errorIndices name = some p → (errorEntries request headers)[p.1]? = some entry ∧
        startOf batch.records % 2 ^ 61 = errorStartTs request headers % 2 ^ 61) :
    singleErrors batch headers = (entryErrors request headers)[entry]?.getD ∅ := by
  have hattributed : attributedErrors (errorEntries request headers) (errorStartTs request headers)
      headers.toList = (errorReports headers.toList).map fun f =>
        ((entry, errorTime (startOf batch.records) f.1.2), f.2) := by
    rw [attributedErrors, ← List.filterMap_eq_map]
    refine List.filterMap_congr fun f hf => ?_
    obtain ⟨header, hmem, hp, -⟩ := mem_errorReports.1 hf
    obtain ⟨hentry, hstart⟩ := hindices header.1 (List.mem_map_of_mem hmem) f.1 hp
    rw [hentry, ← errorTime_eq_iff.2 hstart]
    rfl
  have hnone : ((∅ : BatchRecordErrors)[entry]?.getD ∅ : BatchErrors) = ∅ := by simp
  rw [entryErrors, getD_foldl_addRecordError, hnone, hattributed, List.filter_eq_self.2]
  · rw [List.map_map]
    rfl
  · intro f hf
    obtain ⟨f', -, rfl⟩ := List.mem_map.1 hf
    simp

omit [StdSort] in
/-- An error that both calls return has an index that the second one accepts, and the
same time for both. -/
theorem getElem?_entryErrors {time : Time} {error : Error}
    (h : ((entryErrors request headers)[entry]?.getD ∅)[time]? = some error) :
    ∃ header ∈ headers.toList, ∃ p, errorIndices header.1 = some p ∧
      parseErrorValue header.2 = some error ∧ p.1 < (errorEntries request headers).length ∧
        time = errorTime (errorStartTs request headers) p.2 := by
  have hnone : ((∅ : BatchRecordErrors)[entry]?.getD ∅ : BatchErrors) = ∅ := by simp
  rw [entryErrors, getD_foldl_addRecordError, hnone] at h
  have hmem := (OrderedMap.getElem?_emplaceAll_cases h).resolve_left (by simp)
  obtain ⟨f, hf, hfields⟩ := List.mem_map.1 hmem
  obtain ⟨⟨p, error'⟩, hreport, hat⟩ := List.mem_filterMap.1 (List.mem_filter.1 hf).1
  obtain ⟨entry', hget, rfl⟩ := Option.map_eq_some_iff.1 hat
  obtain ⟨htime, rfl⟩ := Prod.mk.inj hfields
  obtain ⟨header, hheader, hp, herror⟩ := mem_errorReports.1 hreport
  exact ⟨header, hheader, p, hp, herror, (List.getElem?_eq_some_iff.1 hget).1, htime.symm⟩

end Calls

/-! ## A response with one marked error -/

section Marked

omit [StdSort]

variable {headers : Headers} {header : Bytes × Bytes}

/-- The header with an error that has no message. -/
def unmarked (header : Bytes × Bytes) : Bytes × Bytes :=
  (header.1, if isErrorName header.1 then bytes "1," else header.2)

theorem unmarked_error (h : isErrorName header.1 = true) :
    unmarked header = (header.1, bytes "1,") := by
  rw [unmarked, if_pos h]

/-- The response with a message in this error header only, which comes first. -/
def markedFirst (headers : Headers) (header : Bytes × Bytes) (h : header ∈ headers.toList) : Headers where
  toList := (header.1, bytes "1,x") :: (headers.toList.erase header).map unmarked
  nodup := by
    have hrest : ((headers.toList.erase header).map unmarked).map Prod.fst =
        (headers.toList.erase header).map Prod.fst := List.map_map
    rw [List.map_cons, hrest, ← List.map_cons (f := Prod.fst)]
    exact ((List.perm_cons_erase h).map Prod.fst).nodup_iff.1 headers.nodup

theorem markedFirst_same (h : header ∈ headers.toList) (hname : isErrorName header.1 = true) :
    SameButErrors headers (markedFirst headers header h) := by
  have hunmarked : ∀ h, withoutError (unmarked h) = withoutError h := by
    intro h
    rw [withoutError, unmarked, withoutError]
    split_ifs <;> rfl
  have hfirst : withoutError (header.1, bytes "1,x") = withoutError header := by
    rw [withoutError, withoutError, hname]
    rfl
  have hmap : (markedFirst headers header h).toList.map withoutError =
      (header :: headers.toList.erase header).map withoutError := by
    rw [markedFirst, List.map_cons, List.map_map, hfirst, List.map_cons]
    exact congrArg _ (List.map_congr_left fun h _ => hunmarked h)
  rw [SameButErrors, hmap]
  exact (List.perm_cons_erase h).symm.map withoutError

theorem markedFirst_wellFormed (h : header ∈ headers.toList) (hname : isErrorName header.1 = true)
    (hwf : WellFormedErrors headers) : WellFormedErrors (markedFirst headers header h) := by
  have hvalue : ∀ message, ∃ code message' status, bytes "1," ++ message = code ++ comma :: message' ∧
      IsInteger code ∧ stoi code = .ok status := fun message =>
    ⟨bytes "1", message, 1, rfl, .inl ⟨by decide, by decide +kernel⟩, by decide⟩
  intro h' hmem herror
  rcases List.mem_cons.1 hmem with rfl | hrest
  · exact ⟨(hwf header h hname).name, hvalue (bytes "x")⟩
  · obtain ⟨h', hold, rfl⟩ := List.mem_map.1 hrest
    have hwf := hwf h' (List.mem_of_mem_erase hold) herror
    refine ⟨hwf.name, ?_⟩
    rw [@unmarked_error h' herror]
    exact hvalue []

/-- Only one header has the message. -/
theorem eq_of_markedFirst (h : header ∈ headers.toList) {header' : Bytes × Bytes} {p : Nat × Nat}
    (hmem : header' ∈ (markedFirst headers header h).toList) (hp : errorIndices header'.1 = some p)
    (hvalue : parseErrorValue header'.2 = some ⟨1, bytes "x"⟩) : header'.1 = header.1 := by
  rcases List.mem_cons.1 hmem with rfl | hrest
  · rfl
  · obtain ⟨h', -, rfl⟩ := List.mem_map.1 hrest
    have hother : parseErrorValue (bytes "1,") = some ⟨1, []⟩ := by decide
    rw [@unmarked_error h' (isErrorName_of_indices hp), hother] at hvalue
    cases hvalue

/-- The first call returns the message at the time of its header. -/
theorem singleErrors_markedFirst (h : header ∈ headers.toList) {p : Nat × Nat}
    (hp : errorIndices header.1 = some p) (batch : Batch) :
    (singleErrors batch (markedFirst headers header h))[errorTime (startOf batch.records) p.2]? =
      some ⟨1, bytes "x"⟩ := by
  have hvalue : parseErrorValue (bytes "1,x") = some ⟨1, bytes "x"⟩ := by decide
  have hreports : errorReports (markedFirst headers header h).toList = (p, ⟨1, bytes "x"⟩) ::
      errorReports ((headers.toList.erase header).map unmarked) := by
    rw [markedFirst, errorReports, List.filterMap_cons_some (by rw [hp, hvalue]; rfl)]
    rfl
  rw [singleErrors, hreports, List.map_cons]
  refine OrderedMap.getElem?_emplaceAll_of_some
    (m := (∅ : BatchErrors).insertIfNew (errorTime (startOf batch.records) p.2) ⟨1, bytes "x"⟩) ?_
  rw [Std.ExtTreeMap.getElem?_insertIfNew, if_pos ⟨Std.compare_self, Std.ExtTreeMap.not_mem_empty⟩]

end Marked

/-! ## Agreement -/

section Agreement

variable {server : HttpServer} {ioPath entryName entry : Bytes} {batch : Batch} {type : BatchType}
  {request : BatchV2Request} {headers : Headers}

/-- Without records nothing is sent, and no errors are returned. -/
theorem decodersAgree_nil (hnil : batch.records = []) :
    DecodersAgree server ioPath entryName batch type entry := by
  have hbuilt : ∀ defaultEntry requireEntry,
      buildBatchV2Request defaultEntry batch type requireEntry = .ok ⟨[], [], 0, .empty⟩ := by
    intro defaultEntry requireEntry
    rcases buildBatchV2Request_cases defaultEntry batch type requireEntry with
      ⟨-, -, hok⟩ | ⟨hne, -⟩ | ⟨hne, -⟩
    · exact hok
    · exact absurd hnil hne
    · exact absurd hnil hne
  refine ⟨∅, ∅, ?_, ?_, fun _ => by simp⟩
  · rw [processBatchV2, hbuilt]
    rfl
  · rw [processBatchV2Records, hbuilt]
    rfl

theorem decodersAgree_headers (hne : batch.records ≠ [])
    (hbuilt : buildBatchV2Request [] batch type true = .ok request)
    (hwf : WellFormedErrors headers) (hserver : RespondsWith server headers) :
    DecodersAgree server ioPath entryName batch type entry ↔
      (ReturnsOnly entry (processBatchV2Records server ioPath batch type) →
        singleErrors batch headers = (entryErrors request headers)[entry]?.getD ∅) := by
  have hsingle := @processBatchV2_headers _ server ioPath entryName batch type headers hne hwf hserver
  have hrecords := @processBatchV2Records_headers _ server ioPath batch type request headers hne hbuilt
    hwf hserver
  constructor
  · rintro ⟨errors, recordErrors, herrors, hrecordErrors, hagree⟩
    rw [hsingle] at herrors
    rw [hrecords] at hrecordErrors
    cases herrors
    cases hrecordErrors
    exact hagree
  · intro h
    exact ⟨_, _, hsingle, hrecords, h⟩

/-- If both agree whatever the errors are, the indices and the start timestamps do. -/
theorem DecodersAgree.indices (hne : batch.records ≠ [])
    (hbuilt : buildBatchV2Request [] batch type true = .ok request)
    (hwf : WellFormedErrors headers)
    (honly : ∀ server, RespondsWith server headers →
      ReturnsOnly entry (processBatchV2Records server ioPath batch type))
    (h : ∀ headers', SameButErrors headers headers' → WellFormedErrors headers' →
      ∀ server, RespondsWith server headers' →
        DecodersAgree server ioPath entryName batch type entry)
    {header : Bytes × Bytes} (hmem : header ∈ headers.toList) {p : Nat × Nat}
    (hp : errorIndices header.1 = some p) :
    p.1 < (errorEntries request headers).length ∧
      startOf batch.records % 2 ^ 61 = errorStartTs request headers % 2 ^ 61 := by
  have hname := isErrorName_of_indices hp
  have hsame := markedFirst_same hmem hname
  have hwf' := markedFirst_wellFormed hmem hname hwf
  have hresponds : ∀ headers : Headers, RespondsWith (fun _ => ⟨([], headers), .kOk⟩) headers :=
    fun headers => ⟨fun _ => rfl, fun _ => rfl⟩
  have honly' : ReturnsOnly entry (processBatchV2Records
      (fun _ => ⟨([], markedFirst headers header hmem), .kOk⟩) ioPath batch type) := by
    rw [returnsOnly_iff hne hbuilt hwf' (hresponds _), (hsame.request_eq request).1]
    intro name hname'
    exact (returnsOnly_iff hne hbuilt hwf (hresponds headers)).1 (honly _ (hresponds headers)) name
      (hsame.mem_names.1 hname')
  have hagree := (decodersAgree_headers hne hbuilt hwf' (hresponds _)).1
    (h _ hsame hwf' _ (hresponds _)) honly'
  have herror := singleErrors_markedFirst hmem hp batch
  rw [hagree] at herror
  obtain ⟨header', hmem', p', hp', hvalue, hlt, htime⟩ := getElem?_entryErrors herror
  rw [eq_of_markedFirst hmem hmem' hp' hvalue, hp] at hp'
  cases hp'
  rw [(hsame.request_eq request).1] at hlt
  rw [(hsame.request_eq request).2, errorTime_eq_iff] at htime
  exact ⟨hlt, htime⟩

end Agreement

/-- Both calls return the same errors for the entry of a batch, whatever the server
reports in which order, if and only if it reports only indices of the entries and
counts from the start timestamp of the request. -/
theorem decodersAgree_iff (ioPath entryName : Bytes) (batch : Batch) (type : BatchType)
    (entry : Bytes) (request : BatchV2Request) (headers : Headers)
    (hbuilt : buildBatchV2Request [] batch type true = .ok request)
    (hwf : WellFormedErrors headers)
    (honly : ∀ server, RespondsWith server headers →
      ReturnsOnly entry (processBatchV2Records server ioPath batch type)) :
    (∀ headers', SameButErrors headers headers' → WellFormedErrors headers' →
      ∀ server, RespondsWith server headers' →
        DecodersAgree server ioPath entryName batch type entry) ↔
    batch.records = [] ∨ ∀ header ∈ headers.toList, ∀ p, errorIndices header.1 = some p →
      p.1 < (errorEntries request headers).length ∧
        request.startTs % 2 ^ 61 = errorStartTs request headers % 2 ^ 61 := by
  by_cases hnil : batch.records = []
  · exact iff_of_true (fun _ _ _ _ _ => decodersAgree_nil hnil) (.inl hnil)
  · have hstart := buildBatchV2Request_startTs hnil hbuilt
    rw [or_iff_right hnil]
    constructor
    · intro h header hmem p hp
      rw [hstart]
      exact DecodersAgree.indices hnil hbuilt hwf honly h hmem hp
    · intro h headers' hsame hwf' server hserver
      refine (decodersAgree_headers hnil hbuilt hwf' hserver).2 fun honly' => singleErrors_eq ?_
      intro name hname p hp
      obtain ⟨header, hmem, rfl⟩ := List.mem_map.1 (hsame.mem_names.1 hname)
      obtain ⟨hlt, htime⟩ := h header hmem p hp
      rw [(hsame.request_eq request).1, (hsame.request_eq request).2, ← hstart]
      refine ⟨?_, htime⟩
      have hget := List.getElem?_eq_getElem hlt
      have hentry := (returnsOnly_iff hnil hbuilt hwf' hserver).1 honly' header.1 hname p hp
      rw [(hsame.request_eq request).1] at hentry
      rw [hget, hentry _ hget]

section Samples

omit [StdSort]

/-- The request for a record of the entry `b` at one microsecond. -/
def otherEntryRequest : BatchV2Request where
  ordered := [0]
  entries := [bytes "b"]
  startTs := 1
  headers := UnorderedMap.empty.emplaceAll
    ([(kHeaderEntries, join ([bytes "b"].map encodeEntryName)), (kHeaderStartTs, decimal 1)] ++
      [(kHeaderPrefix ++ decimal 0 ++ dash :: decimal 0, bytes "0")])

/-- The record is not found. -/
def notFound (others : List (Bytes × Bytes)) : List (Bytes × Bytes) :=
  others ++ [(bytes "x-reduct-error-0-0", bytes "404,gone")]

/-- The response names the entry. -/
def sameStart : Headers := ⟨notFound [(kHeaderEntries, bytes "b")], by decide⟩

/-- The response counts from two microseconds. -/
def otherStart : Headers := ⟨notFound [(kHeaderStartTs, bytes "2")], by decide⟩

theorem otherEntry_built :
    @buildBatchV2Request .insertion [] otherEntry .kUpdate true = .ok otherEntryRequest := rfl

theorem notFound_wellFormed {others : List (Bytes × Bytes)}
    (h : ∀ header ∈ others, isErrorName header.1 = false) :
    ∀ header ∈ notFound others, isErrorName header.1 = true → WellFormedError header := by
  intro header hmem herror
  rcases List.mem_append.1 hmem with hother | hlast
  · rw [h header hother] at herror
    cases herror
  · rw [List.mem_singleton.1 hlast]
    have hzero : IsNumeral (bytes "0") := ⟨by decide, by decide +kernel⟩
    exact ⟨⟨bytes "0", bytes "0", 0, 0, rfl, hzero, hzero, by decide, by decide⟩,
      ⟨bytes "404", bytes "gone", 404, rfl, .inl ⟨by decide, by decide +kernel⟩, by decide⟩⟩

/-- There is one entry, so there are no errors for another. -/
theorem otherEntry_returnsOnly {headers : Headers} (hwf : WellFormedErrors headers)
    (hentries : errorEntries otherEntryRequest headers = [bytes "b"]) {server : HttpServer}
    (hserver : RespondsWith server headers) :
    ReturnsOnly (bytes "b") (@processBatchV2Records .insertion server [] otherEntry .kUpdate) := by
  refine (@returnsOnly_iff .insertion _ _ _ _ _ _ _ (by decide) otherEntry_built hwf hserver).2 ?_
  intro name _ p _ entry' hentry'
  rw [hentries] at hentry'
  exact List.mem_singleton.1 (List.mem_of_getElem? hentry')

theorem sameStart_wellFormed : WellFormedErrors sameStart := notFound_wellFormed (by decide)

theorem otherStart_wellFormed : WellFormedErrors otherStart := notFound_wellFormed (by decide)

theorem decodersAgree_sameStart : @DecodersAgree .insertion (fun _ => ⟨([], sameStart), .kOk⟩)
    [] [] otherEntry .kUpdate (bytes "b") := by
  have hall : ∀ header ∈ sameStart.toList, ∀ p ∈ errorIndices header.1,
      p.1 < (errorEntries otherEntryRequest sameStart).length ∧
        otherEntryRequest.startTs % 2 ^ 61 = errorStartTs otherEntryRequest sameStart % 2 ^ 61 := by
    decide
  exact (@decodersAgree_iff .insertion [] [] otherEntry .kUpdate (bytes "b") otherEntryRequest
    sameStart otherEntry_built sameStart_wellFormed
    (fun server => otherEntry_returnsOnly sameStart_wellFormed (by decide))).2 (.inr hall)
    sameStart (.refl _) sameStart_wellFormed _ ⟨fun _ => rfl, fun _ => rfl⟩

/-- The first call counts from the start timestamp of the request, the second from
that of the response. -/
theorem decodersAgree_otherStart : (∀ r ∈ otherEntry.records, r.entry = bytes "b") ∧
    WellFormedErrors otherStart ∧ ¬ @DecodersAgree .insertion (fun _ => ⟨([], otherStart), .kOk⟩)
      [] [] otherEntry .kUpdate (bytes "b") := by
  refine ⟨by decide, otherStart_wellFormed, fun h => ?_⟩
  have hserver : RespondsWith (fun _ => ⟨([], otherStart), .kOk⟩) otherStart :=
    ⟨fun _ => rfl, fun _ => rfl⟩
  have hagree := (@decodersAgree_headers .insertion _ _ _ _ _ _ _ _ (by decide) otherEntry_built
    otherStart_wellFormed hserver).1 h
    (otherEntry_returnsOnly otherStart_wellFormed (by decide) hserver)
  have herror : (singleErrors otherEntry otherStart)[errorTime 1 0]? = some ⟨404, bytes "gone"⟩ := by
    decide
  rw [hagree] at herror
  obtain ⟨header, hmem, p, hp, -, -, htime⟩ := getElem?_entryErrors herror
  have hdelta : ∀ header ∈ otherStart.toList, ∀ p ∈ errorIndices header.1, p.2 = 0 := by decide
  have hstart : errorStartTs otherEntryRequest otherStart = 2 := by decide
  rw [hdelta header hmem p hp, hstart, errorTime_eq_iff] at htime
  exact absurd htime (by decide)

end Samples

end Reduct
