-- SUMMARY: What the error loops of protocol v2 make of any error header: its indices, its error, and where the error goes.
import ReductClient.Internal.BatchErrors

open Cxx Fallible

namespace Reduct

/-! ## The parts of an error header -/

/-- The entry index and the delta in the name of an error header. -/
def errorIndices (name : Bytes) : Option (Nat × Nat) :=
  if isErrorName name then
    match splitLast dash (name.drop kHeaderErrorPrefix.length) with
    | none => none
    | some (entryStr, deltaStr) =>
      match stoul entryStr, stoull deltaStr with
      | .ok entryIdx, .ok delta => some (entryIdx, delta)
      | _, _ => none
  else none

/-- The status and the message in the value of an error header. -/
def parseErrorValue (value : Bytes) : Option Error :=
  match splitFirst comma value with
  | none => none
  | some (code, message) =>
    match stoi code with
    | .ok status => some ⟨status, message⟩
    | .error _ => none

/-- The delta of an error header that `ProcessBatchV2` does not skip. -/
def errorDelta (header : Bytes × Bytes) : Option Nat :=
  if isErrorName header.1 ∧ comma ∈ header.2 then
    (splitLast dash (header.1.drop kHeaderErrorPrefix.length)).bind fun (_, deltaStr) =>
      (stoull deltaStr).toOption
  else none

/-- The delta of an error header that `ProcessBatchV2Records` takes for the entry. -/
def entryErrorDelta (entries : List Bytes) (entry : Bytes) (header : Bytes × Bytes) : Option Nat :=
  (errorIndices header.1).bind fun (entryIdx, delta) =>
    if entries[entryIdx]? = some entry ∧ comma ∈ header.2 then some delta else none

/-- The time that a start timestamp and a delta give. -/
def errorTime (startTs delta : Nat) : Time := timeFromMicroseconds ((startTs + delta) % 2 ^ 64)

/-- The time and the error of a v1 error header that parses. -/
def parseErrorV1 (header : Bytes × Bytes) : Option (Time × Error) :=
  if isErrorName header.1 then do
    let error ← parseErrorValue header.2
    let time ← (fromMicroseconds (header.1.drop kHeaderErrorPrefix.length)).toOption
    some (time, error)
  else none

/-- The time and the error of an error header that parses for `ProcessBatchV2`. -/
def parseErrorV2 (startTs : Nat) (header : Bytes × Bytes) : Option (Time × Error) := do
  let delta ← errorDelta header
  let error ← parseErrorValue header.2
  some (errorTime startTs delta, error)

/-- The entry, the time and the error of an error header that parses for
`ProcessBatchV2Records`. -/
def parseRecordError (entries : List Bytes) (startTs : Nat) (header : Bytes × Bytes) :
    Option ((Bytes × Time) × Error) := do
  let (entryIdx, delta) ← errorIndices header.1
  let entry ← entries[entryIdx]?
  let error ← parseErrorValue header.2
  some ((entry, errorTime startTs delta), error)

theorem fromMicroseconds_errorTime (startTs delta : Nat) :
    fromMicroseconds (decimal ((startTs + delta) % 2 ^ 64)) = .ok (errorTime startTs delta) := by
  rw [fromMicroseconds_decimal, if_pos (Nat.mod_lt _ (by decide)), errorTime]

section Parts

variable {name value : Bytes} {entryIdx delta : Nat} {error : Error}

theorem errorIndices_eq_some : errorIndices name = some (entryIdx, delta) ↔
    kHeaderErrorPrefix.isPrefixOf name = true ∧ ∃ entryStr deltaStr,
      splitLast dash (name.drop kHeaderErrorPrefix.length) = some (entryStr, deltaStr) ∧
        stoul entryStr = .ok entryIdx ∧ stoull deltaStr = .ok delta := by
  unfold errorIndices isErrorName
  constructor
  · intro h
    split at h
    · rename_i hstarts
      split at h
      · cases h
      · rename_i entryStr deltaStr hsplit
        split at h
        · rename_i hentry hdelta
          cases h
          exact ⟨hstarts, entryStr, deltaStr, hsplit, hentry, hdelta⟩
        · cases h
    · cases h
  · rintro ⟨hstarts, entryStr, deltaStr, hsplit, hentry, hdelta⟩
    rw [if_pos hstarts, hsplit]
    dsimp only
    rw [hentry, hdelta]

theorem parseErrorValue_eq_some : parseErrorValue value = some error ↔
    ∃ code, splitFirst comma value = some (code, error.message) ∧ stoi code = .ok error.code := by
  unfold parseErrorValue
  constructor
  · intro h
    split at h
    · cases h
    · rename_i code message hsplit
      split at h
      · rename_i status hstatus
        cases h
        exact ⟨code, hsplit, hstatus⟩
      · cases h
  · rintro ⟨code, hsplit, hstatus⟩
    rw [hsplit]
    dsimp only
    rw [hstatus]

/-- The name of an error header with these numbers. -/
theorem errorIndices_decimal (hentry : entryIdx < 2 ^ 64) (hdelta : delta < 2 ^ 64) :
    errorIndices (kHeaderErrorPrefix ++ (decimal entryIdx ++ dash :: decimal delta)) =
      some (entryIdx, delta) := by
  refine errorIndices_eq_some.2 ⟨isPrefixOf_append _ _, decimal entryIdx, decimal delta, ?_,
    stoull_decimal_nil hentry, stoull_decimal_nil hdelta⟩
  rw [List.drop_left, splitLast_append _ (decimal_no_dash _)]

end Parts

/-! ## One header -/

section Step

variable {header : Bytes × Bytes} {entryIdx delta : Nat} {error : Error}

/-- `ProcessBatchV2` does not look at the index. -/
theorem errorHeaderV2_eq (hname : errorIndices header.1 = some (entryIdx, delta))
    (hvalue : parseErrorValue header.2 = some error) (startTs : Nat) (errors : BatchErrors) :
    errorHeaderV2 startTs errors header =
      .ok (errors.insertIfNew (errorTime startTs delta) error) := by
  obtain ⟨hstarts, entryStr, deltaStr, hsplit, -, hdelta⟩ := errorIndices_eq_some.1 hname
  obtain ⟨code, hcode, hstatus⟩ := parseErrorValue_eq_some.1 hvalue
  rw [errorHeaderV2, if_pos hstarts, hsplit]
  dsimp only
  rw [hdelta, ok_bind, hcode]
  dsimp only
  rw [hstatus, ok_bind, fromMicroseconds_errorTime, ok_bind]
  rfl

/-- `ProcessBatchV2Records` passes over indices that are too large. -/
theorem recordErrorHeaderV2_eq (hname : errorIndices header.1 = some (entryIdx, delta))
    (hvalue : parseErrorValue header.2 = some error) (entries : List Bytes) (startTs : Nat)
    (errors : BatchRecordErrors) :
    recordErrorHeaderV2 entries startTs errors header =
      .ok (match entries[entryIdx]? with
        | none => errors
        | some entry => addRecordError errors entry (errorTime startTs delta) error) := by
  obtain ⟨hstarts, entryStr, deltaStr, hsplit, hentry, hdelta⟩ := errorIndices_eq_some.1 hname
  obtain ⟨code, hcode, hstatus⟩ := parseErrorValue_eq_some.1 hvalue
  rw [recordErrorHeaderV2, if_pos hstarts, hsplit]
  dsimp only
  rw [hentry, ok_bind]
  cases entries[entryIdx]? with
  | none => rfl
  | some entry =>
    dsimp only
    rw [hdelta, ok_bind, hcode]
    dsimp only
    rw [hstatus, ok_bind, fromMicroseconds_errorTime, ok_bind]
    rfl

/-- A header adds nothing, or its error at the time that its delta gives. -/
theorem errorHeaderV2_cases {startTs : Nat} {errors errors' : BatchErrors}
    (h : errorHeaderV2 startTs errors header = .ok errors') :
    (errors' = errors ∧ errorDelta header = none) ∨ ∃ delta error,
      errorDelta header = some delta ∧
        errors' = errors.insertIfNew (errorTime startTs delta) error := by
  unfold errorHeaderV2 at h
  unfold errorDelta isErrorName
  split at h
  · rename_i hstarts
    split at h
    · rename_i hsplit
      cases h
      refine .inl ⟨rfl, ?_⟩
      rw [hsplit]
      split <;> rfl
    · rename_i entryStr deltaStr hsplit
      obtain ⟨delta, hdelta, h⟩ := bind_eq_ok.1 h
      split at h
      · rename_i hnone
        cases h
        exact .inl ⟨rfl, if_neg fun hcomma => splitFirst_eq_none.1 hnone hcomma.2⟩
      · rename_i code message hcode
        obtain ⟨status, -, h⟩ := bind_eq_ok.1 h
        rw [fromMicroseconds_errorTime, ok_bind] at h
        cases h
        have hcomma : comma ∈ header.2 := by simp [(splitFirst_eq_some.1 hcode).1]
        refine .inr ⟨delta, ⟨status, message⟩, ?_, rfl⟩
        rw [if_pos ⟨hstarts, hcomma⟩, hsplit]
        exact congrArg Except.toOption hdelta
  · rename_i hname
    cases h
    exact .inl ⟨rfl, if_neg fun hstarts => hname hstarts.1⟩

/-- A header adds nothing, or its error to the entry at its index. -/
theorem recordErrorHeaderV2_cases {entries : List Bytes} {startTs : Nat}
    {errors errors' : BatchRecordErrors}
    (h : recordErrorHeaderV2 entries startTs errors header = .ok errors') :
    (errors' = errors ∧ ∀ entry, entryErrorDelta entries entry header = none) ∨
      ∃ entryIdx delta entry error,
        errorIndices header.1 = some (entryIdx, delta) ∧ entries[entryIdx]? = some entry ∧
          parseErrorValue header.2 = some error ∧
            errors' = addRecordError errors entry (errorTime startTs delta) error := by
  have hskip : (∀ p, errorIndices header.1 = some p → entries[p.1]? = none ∨ comma ∉ header.2) →
      ∀ entry, entryErrorDelta entries entry header = none := by
    intro hno entry
    rw [entryErrorDelta, Option.bind_eq_none_iff]
    intro p hp
    refine if_neg fun hsome => ?_
    rcases hno p hp with hnone | hcomma
    · exact nomatch hnone.symm.trans hsome.1
    · exact hcomma hsome.2
  unfold recordErrorHeaderV2 at h
  split at h
  · rename_i hstarts
    split at h
    · rename_i hsplit
      cases h
      refine .inl ⟨rfl, hskip fun p hp => ?_⟩
      obtain ⟨-, _, _, hsplit', -⟩ := errorIndices_eq_some.1 hp
      exact nomatch hsplit.symm.trans hsplit'
    · rename_i entryStr deltaStr hsplit
      obtain ⟨entryIdx, hentryIdx, h⟩ := bind_eq_ok.1 h
      split at h
      · rename_i hentry
        cases h
        refine .inl ⟨rfl, hskip fun p hp => .inl ?_⟩
        obtain ⟨-, _, _, hsplit', hidx', -⟩ := errorIndices_eq_some.1 hp
        cases hsplit.symm.trans hsplit'
        cases hentryIdx.symm.trans hidx'
        exact hentry
      · rename_i entry hentry
        obtain ⟨delta, hdelta, h⟩ := bind_eq_ok.1 h
        split at h
        · rename_i hnone
          cases h
          exact .inl ⟨rfl, hskip fun _ _ => .inr (splitFirst_eq_none.1 hnone)⟩
        · rename_i code message hcode
          obtain ⟨status, hstatus, h⟩ := bind_eq_ok.1 h
          rw [fromMicroseconds_errorTime, ok_bind] at h
          cases h
          exact .inr ⟨entryIdx, delta, entry, ⟨status, message⟩,
            errorIndices_eq_some.2 ⟨hstarts, entryStr, deltaStr, hsplit, hentryIdx, hdelta⟩, hentry,
            parseErrorValue_eq_some.2 ⟨code, hcode, hstatus⟩, rfl⟩
  · rename_i hname
    cases h
    exact .inl ⟨rfl, hskip fun p hp => absurd (errorIndices_eq_some.1 hp).1 hname⟩

end Step

/-! ## The errors of an entry -/

theorem getElem?_addRecordError (errors : BatchRecordErrors) (entry : Bytes) (time : Time)
    (error : Error) (entry' : Bytes) :
    (addRecordError errors entry time error)[entry']? =
      if entry = entry' then some ((errors[entry]?.getD ∅).insertIfNew time error)
      else errors[entry']? := by
  simp only [addRecordError, Std.ExtTreeMap.getElem?_insert, Std.compare_eq_iff_eq]

/-- An error that is there has been there before, or is the one that was added. -/
theorem errorOf_addRecordError_cases {errors : BatchRecordErrors} {entry entry' : Bytes}
    {time time' : Time} {error error' : Error}
    (h : errorOf (addRecordError errors entry time error) entry' time' = some error') :
    errorOf errors entry' time' = some error' ∨ entry' = entry ∧ time' = time ∧ error' = error := by
  rw [errorOf, getElem?_addRecordError] at h
  split_ifs at h with hentry
  · subst hentry
    rw [Option.bind_some, Std.ExtTreeMap.getElem?_insertIfNew] at h
    split_ifs at h with htime
    · rw [Std.compare_eq_iff_eq] at htime
      cases h
      exact .inr ⟨rfl, htime.1.symm, rfl⟩
    · refine .inl ?_
      cases hinner : errors[entry]? with
      | none => simp [hinner] at h
      | some inner => simpa [errorOf, hinner] using h
  · exact .inl h

/-- The error comes from an error header whose index is one of the entry. -/
def ReportedBy (entryAt : Nat → Option Bytes) (startTs : Nat) (headers : List (Bytes × Bytes))
    (entry : Bytes) (time : Time) (error : Error) : Prop :=
  ∃ header ∈ headers, ∃ entryIdx delta, errorIndices header.1 = some (entryIdx, delta) ∧
    entryAt entryIdx = some entry ∧ parseErrorValue header.2 = some error ∧
      time = errorTime startTs delta

theorem foldlM_recordErrorHeaderV2_source {entries : List Bytes} {startTs : Nat}
    {headers : List (Bytes × Bytes)} {errors : BatchRecordErrors}
    (h : headers.foldlM (recordErrorHeaderV2 entries startTs) ∅ = .ok errors) {entry : Bytes}
    {time : Time} {error : Error} (herror : errorOf errors entry time = some error) :
    ReportedBy (fun i => entries[i]?) startTs headers entry time error := by
  refine foldlM_invariant (fun before errors => ∀ entry time error,
    errorOf errors entry time = some error →
      ReportedBy (fun i => entries[i]?) startTs before entry time error) h ?_ ?_ _ _ _ herror
  · intro entry time error hnone
    simp [errorOf] at hnone
  · intro before header errors errors' ih hstep entry time error herror
    have hbefore : errorOf errors entry time = some error →
        ReportedBy (fun i => entries[i]?) startTs (before ++ [header]) entry time error := by
      intro hold
      obtain ⟨header', hmem, hheader'⟩ := ih entry time error hold
      exact ⟨header', List.mem_append_left [header] hmem, hheader'⟩
    rcases recordErrorHeaderV2_cases hstep with
      ⟨rfl, -⟩ | ⟨entryIdx, delta, entry', error', hname, hentry, hvalue, rfl⟩
    · exact hbefore herror
    · rcases errorOf_addRecordError_cases herror with hold | ⟨rfl, rfl, rfl⟩
      · exact hbefore hold
      · exact ⟨header, by simp, entryIdx, delta, hname, hentry, hvalue, rfl⟩

/-! ## The errors that are taken -/

/-- The errors that are found are those of the headers that parse, the first one for each key:
all other headers are skipped. -/
def TakesErrors {κ : Type} [BEq κ] (parse : Bytes × Bytes → Option (κ × Error))
    (headers : List (Bytes × Bytes)) (find : κ → Option Error) : Prop :=
  ∀ key, find key = (headers.filterMap parse).lookup key

/-- A loop takes the errors of its headers if each of its steps takes that of its header. -/
theorem takesErrors_of_step {α κ : Type} [BEq κ]
    {decode : α → Bytes × Bytes → Except Fault α} {parse : Bytes × Bytes → Option (κ × Error)}
    (find : α → κ → Option Error)
    (hstep : ∀ {errors header errors'}, decode errors header = .ok errors' →
      ∀ key, find errors' key = (find errors key).or (([header].filterMap parse).lookup key))
    {start errors : α} (hstart : ∀ key, find start key = none) {headers : List (Bytes × Bytes)}
    (h : headers.foldlM decode start = .ok errors) : TakesErrors parse headers (find errors) := by
  refine foldlM_invariant (fun before errors => TakesErrors parse before (find errors)) h hstart ?_
  intro before header errors errors' ih hdecode key
  rw [hstep hdecode, ih key, List.filterMap_append, List.lookup_append]

/-- The first error at a time stays. -/
theorem getElem?_insertIfNew_or (errors : BatchErrors) (time : Time) (error : Error) (key : Time) :
    (errors.insertIfNew time error)[key]? = errors[key]?.or ([(time, error)].lookup key) := by
  rw [Std.ExtTreeMap.getElem?_insertIfNew]
  by_cases hkey : key = time
  · subst hkey
    by_cases hmem : key ∈ errors <;> simp [hmem]
  · have hcmp : compare time key ≠ .eq := fun h => hkey (Std.compare_eq_iff_eq.1 h).symm
    have hbeq : (key == time) = false := beq_eq_false_iff_ne.2 hkey
    simp [hcmp, List.lookup_cons, hbeq]

theorem errorOf_addRecordError_or (errors : BatchRecordErrors) (entry : Bytes) (time : Time)
    (error : Error) (key : Bytes × Time) :
    errorOf (addRecordError errors entry time error) key.1 key.2 =
      (errorOf errors key.1 key.2).or ([((entry, time), error)].lookup key) := by
  obtain ⟨entry', time'⟩ := key
  rw [errorOf, getElem?_addRecordError]
  split_ifs with hentry
  · subst hentry
    rw [Option.bind_some, getElem?_insertIfNew_or]
    have hinner : (errors[entry]?.getD ∅)[time']? = errorOf errors entry time' := by
      cases hget : errors[entry]? <;> simp [errorOf, hget]
    have hbeq : ((entry, time') == (entry, time)) = (time' == time) := by
      rw [Bool.eq_iff_iff, beq_iff_eq, beq_iff_eq]
      simp
    rw [hinner]
    simp only [List.lookup_cons, List.lookup_nil, hbeq]
  · have hbeq : ((entry', time') == (entry, time)) = false := by
      simp [Ne.symm hentry]
    simp [errorOf, List.lookup_cons, hbeq]

section Taken

variable {header : Bytes × Bytes}

theorem errorHeaderV1_taken {errors errors' : BatchErrors}
    (h : errorHeaderV1 errors header = .ok errors') (time : Time) :
    errors'[time]? = errors[time]?.or (([header].filterMap parseErrorV1).lookup time) := by
  unfold errorHeaderV1 at h
  split at h
  · rename_i hname
    split at h
    · rename_i hsplit
      cases h
      simp [parseErrorV1, parseErrorValue, hsplit]
    · rename_i code message hsplit
      obtain ⟨status, hstatus, h⟩ := bind_eq_ok.1 h
      obtain ⟨time', htime, h⟩ := bind_eq_ok.1 h
      cases h
      have hparse : parseErrorV1 header = some (time', ⟨status, message⟩) := by
        simp [parseErrorV1, isErrorName, hname, parseErrorValue, hsplit, hstatus, htime,
          Except.toOption]
      rw [List.filterMap_cons_some hparse]
      exact getElem?_insertIfNew_or errors time' ⟨status, message⟩ time
  · rename_i hname
    cases h
    simp [parseErrorV1, isErrorName, hname]

theorem errorHeaderV2_taken {startTs : Nat} {errors errors' : BatchErrors}
    (h : errorHeaderV2 startTs errors header = .ok errors') (time : Time) :
    errors'[time]? =
      errors[time]?.or (([header].filterMap (parseErrorV2 startTs)).lookup time) := by
  unfold errorHeaderV2 at h
  split at h
  · rename_i hname
    split at h
    · rename_i hsplit
      cases h
      simp [parseErrorV2, errorDelta, hsplit]
    · rename_i entryStr deltaStr hsplit
      obtain ⟨delta, hdelta, h⟩ := bind_eq_ok.1 h
      split at h
      · rename_i hnone
        cases h
        simp [parseErrorV2, errorDelta, splitFirst_eq_none.1 hnone]
      · rename_i code message hcode
        obtain ⟨status, hstatus, h⟩ := bind_eq_ok.1 h
        rw [fromMicroseconds_errorTime, ok_bind] at h
        cases h
        have hcomma : comma ∈ header.2 := by simp [(splitFirst_eq_some.1 hcode).1]
        have hparse : parseErrorV2 startTs header =
            some (errorTime startTs delta, ⟨status, message⟩) := by
          simp [parseErrorV2, errorDelta, isErrorName, hname, hcomma, hsplit, hdelta,
            parseErrorValue, hcode, hstatus, Except.toOption]
        rw [List.filterMap_cons_some hparse]
        exact getElem?_insertIfNew_or errors _ ⟨status, message⟩ time
  · rename_i hname
    cases h
    simp [parseErrorV2, errorDelta, isErrorName, hname]

theorem recordErrorHeaderV2_taken {entries : List Bytes} {startTs : Nat}
    {errors errors' : BatchRecordErrors}
    (h : recordErrorHeaderV2 entries startTs errors header = .ok errors') (key : Bytes × Time) :
    errorOf errors' key.1 key.2 = (errorOf errors key.1 key.2).or
      (([header].filterMap (parseRecordError entries startTs)).lookup key) := by
  rcases recordErrorHeaderV2_cases h with
    ⟨rfl, hskip⟩ | ⟨entryIdx, delta, entry, error, hname, hentry, hvalue, rfl⟩
  · have hparse : parseRecordError entries startTs header = none := by
      by_contra hsome
      obtain ⟨taken, htaken⟩ := Option.ne_none_iff_exists'.1 hsome
      simp only [parseRecordError, Option.bind_eq_bind, Option.bind_eq_some_iff] at htaken
      obtain ⟨⟨entryIdx, delta⟩, hname, entry, hentry, error, hvalue, -⟩ := htaken
      obtain ⟨code, hcode, -⟩ := parseErrorValue_eq_some.1 hvalue
      have hcomma : comma ∈ header.2 := by simp [(splitFirst_eq_some.1 hcode).1]
      have hnone := hskip entry
      simp [entryErrorDelta, hname, show entries[entryIdx]? = some entry from hentry, hcomma] at hnone
    rw [List.filterMap_cons_none hparse, List.filterMap_nil, List.lookup_nil, Option.or_none]
  · have hparse : parseRecordError entries startTs header =
        some ((entry, errorTime startTs delta), error) := by
      simp [parseRecordError, hname, hentry, hvalue]
    rw [List.filterMap_cons_some hparse]
    exact errorOf_addRecordError_or errors entry _ error key

end Taken

/-- What a call returns is nothing, because there is nothing to send or with an error, or
what it makes of the answer. -/
theorem processRequestV2_cases {α : Type} {server : HttpServer} {ioPath : Bytes} {batch : Batch}
    {type : BatchType} {request : BatchV2Request} {nothing : α}
    {decode : BatchV2Request → Headers → Except Fault α} {result : Result α}
    (h : (processRequestV2 server ioPath batch type (.ok request) nothing decode).result =
      .ok result) :
    (result.result = nothing ∧ (request.ordered = [] ∨ result.error.isError = true)) ∨
      decode request (server (requestV2 ioPath type batch request)).result.2 = .ok result.result := by
  unfold processRequestV2 at h
  dsimp only at h
  split at h
  · rename_i hordered
    cases h
    exact .inl ⟨rfl, .inl hordered⟩
  · dsimp only at h
    split at h
    · rename_i herror
      cases h
      exact .inl ⟨rfl, .inr herror⟩
    · obtain ⟨errors, hdecode, h⟩ := bind_eq_ok.1 h
      cases h
      exact .inr hdecode

end Reduct
