-- SUMMARY: The errors a server reports for the records of a batch, and what the decoders make of the error headers.
import ReductClient.Base.Fallible
import ReductClient.Internal.RecordHeaders

open Cxx Fallible

namespace Reduct

/-! ## Failed records -/

/-- The failed records of a batch with their errors. -/
def Batch.failed (batch : Batch) (failure : Record → Option Error) : List (Record × Error) :=
  batch.records.filterMap fun r => (failure r).map (r, ·)

theorem Batch.mem_failed {batch : Batch} {failure : Record → Option Error} {r : Record} {e : Error} :
    (r, e) ∈ batch.failed failure ↔ r ∈ batch.records ∧ failure r = some e := by
  simp only [failed, List.mem_filterMap, Option.map_eq_some_iff, Prod.mk.injEq]
  constructor
  · rintro ⟨r, hr, e, he, rfl, rfl⟩
    exact ⟨hr, he⟩
  · rintro ⟨hr, he⟩
    exact ⟨r, hr, e, he, rfl, rfl⟩

/-- The failed records are some of the records, in their order. -/
theorem Batch.failed_sublist (batch : Batch) (failure : Record → Option Error) :
    ((batch.failed failure).map Prod.fst).Sublist batch.records := by
  have hfilter : (batch.failed failure).map Prod.fst =
      batch.records.filter fun r => (failure r).isSome := by
    rw [failed, List.map_filterMap, ← List.filterMap_eq_filter]
    refine List.filterMap_congr fun r _ => ?_
    cases hr : failure r <;> simp [hr, Option.guard]
  rw [hfilter]
  exact List.filter_sublist

/-- The statuses of the errors are values of an `int`. -/
def IntStatuses (batch : Batch) (failure : Record → Option Error) : Prop :=
  ∀ r ∈ batch.records, ∀ e ∈ failure r, -2 ^ 31 ≤ e.code ∧ e.code < 2 ^ 31

/-! ## Error headers -/

/-- `name` is the name of an error header. -/
def isErrorName (name : Bytes) : Bool := kHeaderErrorPrefix.isPrefixOf name

/-- The value of an error header: the status and the message. -/
def errorValue (error : Error) : Bytes := decimalSigned error.code ++ comma :: error.message

/-- The name of the error header of a record in the answer to a v2 request: the
index of the entry among those of the request, and the delta from its start. -/
def BatchV2Request.errorName (request : BatchV2Request) (defaultEntry : Bytes) (record : Record) :
    Bytes :=
  kHeaderErrorPrefix ++ decimal (request.entries.idxOf (recordEntry record defaultEntry)) ++
    dash :: decimal (record.timestamp.micros - request.startTs)

/-- The name of the error header of a record in the answer to a v1 request. -/
def errorNameV1 (record : Record) : Bytes := kHeaderErrorPrefix ++ decimal record.timestamp.micros

/-- The answer is a 200 with one error header for each failed record. -/
structure ReportsErrors (answer : Result (Bytes × Headers)) (errorName : Record → Bytes)
    (failed : List (Record × Error)) : Prop where
  ok : answer.error = .kOk
  headers : (answer.result.2.toList.filter fun h => isErrorName h.1).Perm
    (failed.map fun f => (errorName f.1, errorValue f.2))

/-- A loop over the headers of an answer goes over the failed records in some
order, whatever other headers there are. -/
theorem ReportsErrors.foldlM_eq {α : Type} {answer : Result (Bytes × Headers)}
    {errorName : Record → Bytes} {failed : List (Record × Error)}
    (h : ReportsErrors answer errorName failed) {decode : α → Bytes × Bytes → Except Fault α}
    {add : α → Record × Error → α}
    (hskip : ∀ errors, ∀ header, isErrorName header.1 = false → decode errors header = .ok errors)
    (hdecode : ∀ errors, ∀ f ∈ failed,
      decode errors (errorName f.1, errorValue f.2) = .ok (add errors f)) (errors : α) :
    ∃ failed' : List (Record × Error), failed'.Perm failed ∧
      answer.result.2.toList.foldlM decode errors = .ok (failed'.foldl add errors) := by
  obtain ⟨failed', heq, hperm⟩ := (congrFun (congrFun (List.eq_map_comp_perm
    fun f : Record × Error => (errorName f.1, errorValue f.2)) _) _).mpr h.headers
  refine ⟨failed', hperm, ?_⟩
  rw [foldlM_filter (p := fun h => isErrorName h.1) fun errors header _ => hskip errors header,
    heq, List.foldlM_map]
  exact foldlM_eq_foldl fun errors f hf => hdecode errors f (hperm.mem_iff.1 hf)

/-! ## Errors by entry -/

/-- Add the error of a record to those of its entry. -/
def addRecordError (errors : BatchRecordErrors) (entry : Bytes) (time : Time) (error : Error) :
    BatchRecordErrors :=
  errors.insert entry ((errors[entry]?.getD ∅).insertIfNew time error)

/-- The error of a record, if there is one. -/
def errorOf (errors : BatchRecordErrors) (entry : Bytes) (time : Time) : Option Error :=
  errors[entry]?.bind (·[time]?)

theorem errorOf_addRecordError {errors : BatchRecordErrors} {entry : Bytes} {time : Time}
    (error : Error) (h : errorOf errors entry time = none) (entry' : Bytes) (time' : Time) :
    errorOf (addRecordError errors entry time error) entry' time' =
      if entry = entry' ∧ time = time' then some error else errorOf errors entry' time' := by
  have hmem : time ∉ errors[entry]?.getD ∅ := by
    cases hinner : errors[entry]? with
    | none => simp
    | some inner => simpa [errorOf, hinner] using h
  by_cases hentry : entry = entry'
  · subst hentry
    rw [errorOf, addRecordError, Std.ExtTreeMap.getElem?_insert_self, Option.bind_some,
      Std.ExtTreeMap.getElem?_insertIfNew]
    by_cases htime : time = time'
    · subst htime
      simp [hmem]
    · have hcmp : compare time time' ≠ .eq := mt Std.compare_eq_iff_eq.1 htime
      cases hinner : errors[entry]? <;> simp [hcmp, htime, errorOf, hinner]
  · have hcmp : compare entry entry' ≠ .eq := mt Std.compare_eq_iff_eq.1 hentry
    simp [errorOf, addRecordError, Std.ExtTreeMap.getElem?_insert, hcmp, hentry]

/-- Entries are listed only if they have errors. -/
theorem addRecordError_ne_empty {errors : BatchRecordErrors}
    (h : ∀ entry : Bytes, errors[entry]? ≠ some ∅) (entry : Bytes) (time : Time) (error : Error)
    (entry' : Bytes) : (addRecordError errors entry time error)[entry']? ≠ some ∅ := by
  rw [addRecordError, Std.ExtTreeMap.getElem?_insert]
  split
  · intro hempty
    have hmem : time ∈ (errors[entry]?.getD ∅).insertIfNew time error :=
      Std.ExtTreeMap.mem_insertIfNew_self
    rw [Option.some.inj hempty] at hmem
    exact Std.ExtTreeMap.not_mem_empty hmem
  · exact h entry'

/-- Errors of distinct records are all there, and no others. -/
theorem errorOf_foldl {l : List ((Bytes × Time) × Error)} (hl : (l.map Prod.fst).Nodup)
    {errors : BatchRecordErrors} (hfresh : ∀ key ∈ l.map Prod.fst, errorOf errors key.1 key.2 = none)
    (entry : Bytes) (time : Time) (error : Error) :
    errorOf (l.foldl (fun errors f => addRecordError errors f.1.1 f.1.2 f.2) errors) entry time =
        some error ↔
      errorOf errors entry time = some error ∨ ((entry, time), error) ∈ l := by
  induction l generalizing errors with
  | nil => simp
  | cons f l ih =>
    obtain ⟨⟨entry', time'⟩, error'⟩ := f
    simp only [List.map_cons, List.nodup_cons, List.forall_mem_cons] at hl hfresh
    have hstep := errorOf_addRecordError error' hfresh.1
    rw [List.foldl_cons, ih hl.2, hstep, List.mem_cons]
    · by_cases hkey : entry' = entry ∧ time' = time
      · obtain ⟨rfl, rfl⟩ := hkey
        simp [hfresh.1, eq_comm (a := error)]
      · have hkey' : ¬ (entry = entry' ∧ time = time') := fun h => hkey ⟨h.1.symm, h.2.symm⟩
        simp [hkey, hkey']
    · intro key hmem
      rw [hstep, if_neg]
      · exact hfresh.2 key hmem
      · rintro ⟨rfl, rfl⟩
        exact hl.1 hmem

theorem foldl_addRecordError_ne_empty {l : List ((Bytes × Time) × Error)} {errors : BatchRecordErrors}
    (h : ∀ entry : Bytes, errors[entry]? ≠ some ∅) (entry : Bytes) :
    (l.foldl (fun errors f => addRecordError errors f.1.1 f.1.2 f.2) errors)[entry]? ≠ some ∅ := by
  induction l generalizing errors with
  | nil => exact h entry
  | cons f l ih => exact ih (addRecordError_ne_empty h _ _ _)

/-! ## Decoding one error header -/

section Decode

variable {defaultEntry : Bytes} {records : List Record} {st : IndexState} {error : Error}

theorem splitFirst_errorValue (error : Error) :
    splitFirst comma (errorValue error) = some (decimalSigned error.code, error.message) :=
  splitFirst_append (decimalSigned_no_comma _) _

/-- Other headers are passed over. -/
theorem errorHeaderV1_skip {header : Bytes × Bytes} (h : isErrorName header.1 = false)
    (errors : BatchErrors) : errorHeaderV1 errors header = .ok errors :=
  if_neg (by rw [← isErrorName, h]; decide)

theorem errorHeaderV2_skip {header : Bytes × Bytes} (h : isErrorName header.1 = false)
    (startTs : Nat) (errors : BatchErrors) : errorHeaderV2 startTs errors header = .ok errors :=
  if_neg (by rw [← isErrorName, h]; decide)

theorem recordErrorHeaderV2_skip {header : Bytes × Bytes} (h : isErrorName header.1 = false)
    (entries : List Bytes) (startTs : Nat) (errors : BatchRecordErrors) :
    recordErrorHeaderV2 entries startTs errors header = .ok errors :=
  if_neg (by rw [← isErrorName, h]; decide)

theorem errorHeaderV1_errorNameV1 (errors : BatchErrors) (record : Record)
    (hcode : -2 ^ 31 ≤ error.code ∧ error.code < 2 ^ 31) :
    errorHeaderV1 errors (errorNameV1 record, errorValue error) =
      .ok (errors.insertIfNew (timeFromMicroseconds record.timestamp.micros) error) := by
  simp only [errorHeaderV1, errorNameV1, isPrefixOf_append, if_true, splitFirst_errorValue,
    List.drop_left, stoi_decimalSigned hcode.1 hcode.2,
    fromMicroseconds_decimal, record.timestamp.micros_lt_size]
  rfl

/-- An error header of a v2 answer has the index and the delta of a record
header. -/
theorem Indexed.errorName_eq (h : Indexed defaultEntry records st) {request : BatchV2Request}
    (hentries : request.entries = st.entries) (hstart : request.startTs = st.startTs)
    {record : Record} (hrecord : record ∈ records) :
    request.errorName defaultEntry record =
      kHeaderErrorPrefix ++ (decimal (st.name defaultEntry record).1 ++
        dash :: decimal (st.name defaultEntry record).2) := by
  obtain ⟨i, hi, hname⟩ := h.name_eq hrecord
  obtain ⟨hlt, hget⟩ := List.getElem?_eq_some_iff.1 hi
  have hidx : st.entries.idxOf (recordEntry record defaultEntry) = i := by
    rw [← hget, h.nodup.idxOf_getElem]
  rw [BatchV2Request.errorName, hentries, hstart, hidx, hname, List.append_assoc]

/-- The start timestamp and the delta give the time of the record. -/
theorem Indexed.time_eq (h : Indexed defaultEntry records st) {record : Record}
    (hrecord : record ∈ records) :
    fromMicroseconds (decimal ((st.startTs + (st.name defaultEntry record).2) % 2 ^ 64)) =
      .ok (timeFromMicroseconds record.timestamp.micros) := by
  obtain ⟨i, -, hname⟩ := h.name_eq hrecord
  have hle := h.startTs_le record hrecord
  have hlt := record.timestamp.micros_lt_size
  have hsum : (st.startTs + (st.name defaultEntry record).2) % 2 ^ 64 = record.timestamp.micros := by
    rw [hname, Nat.add_sub_cancel' hle, Nat.mod_eq_of_lt hlt]
  rw [hsum, fromMicroseconds_decimal, if_pos hlt]

theorem Indexed.errorHeaderV2_errorName (h : Indexed defaultEntry records st)
    (hlength : records.length < 2 ^ 64) {request : BatchV2Request}
    (hentries : request.entries = st.entries) (hstart : request.startTs = st.startTs)
    {record : Record} (hrecord : record ∈ records)
    (hcode : -2 ^ 31 ≤ error.code ∧ error.code < 2 ^ 31) (errors : BatchErrors) :
    errorHeaderV2 request.startTs errors (request.errorName defaultEntry record, errorValue error) =
      .ok (errors.insertIfNew (timeFromMicroseconds record.timestamp.micros) error) := by
  have hdelta := (h.name_lt hlength hrecord).2
  rw [h.errorName_eq hentries hstart hrecord, hstart, errorHeaderV2, if_pos (isPrefixOf_append _ _),
    List.drop_left, splitLast_append _ (decimal_no_dash _)]
  have htime := h.time_eq hrecord
  dsimp only
  rw [stoull_decimal_nil hdelta, ok_bind, splitFirst_errorValue]
  dsimp only
  rw [stoi_decimalSigned hcode.1 hcode.2, ok_bind, htime, ok_bind]
  rfl

theorem Indexed.recordErrorHeaderV2_errorName (h : Indexed defaultEntry records st)
    (hlength : records.length < 2 ^ 64) {request : BatchV2Request}
    (hentries : request.entries = st.entries) (hstart : request.startTs = st.startTs)
    {record : Record} (hrecord : record ∈ records)
    (hcode : -2 ^ 31 ≤ error.code ∧ error.code < 2 ^ 31) (errors : BatchRecordErrors) :
    recordErrorHeaderV2 request.entries request.startTs errors
        (request.errorName defaultEntry record, errorValue error) =
      .ok (addRecordError errors (recordEntry record defaultEntry)
        (timeFromMicroseconds record.timestamp.micros) error) := by
  obtain ⟨hindex, hdelta⟩ := h.name_lt hlength hrecord
  obtain ⟨i, hi, hname⟩ := h.name_eq hrecord
  have hentry : st.entries[(st.name defaultEntry record).1]? =
      some (recordEntry record defaultEntry) := by rw [hname, hi]
  rw [h.errorName_eq hentries hstart hrecord, hstart, hentries, recordErrorHeaderV2,
    if_pos (isPrefixOf_append _ _), List.drop_left, splitLast_append _ (decimal_no_dash _)]
  have htime := h.time_eq hrecord
  dsimp only
  rw [stoul, stoull_decimal_nil hindex, ok_bind, hentry]
  dsimp only
  rw [stoull_decimal_nil hdelta, ok_bind, splitFirst_errorValue]
  dsimp only
  rw [stoi_decimalSigned hcode.1 hcode.2, ok_bind, htime, ok_bind]
  rfl

end Decode

end Reduct
