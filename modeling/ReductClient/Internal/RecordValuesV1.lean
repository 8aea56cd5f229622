-- SUMMARY: The records a v1 response announces without quotes, and what the decoder makes of each of their headers.
import ReductClient.Internal.DecodingV1

open Cxx Fallible

namespace Reduct

/-! ## Announced records -/

/-- A record as a v1 response announces it: `<size>,<content type>[,labels]` under
its timestamp, without quotes. -/
structure RecordV1 where
  micros : Nat
  size : Nat
  contentType : Bytes
  labels : Option Bytes
  size_pos : 0 < size
  contentType_ne : contentType ≠ []
  contentType_comma : comma ∉ contentType
  contentType_plain : quotation ∉ contentType
  labels_plain : ∀ text ∈ labels, quotation ∉ text

namespace RecordV1

/-- The text after the content type. -/
def tail (record : RecordV1) : Bytes := (record.labels.map (comma :: ·)).getD []

/-- The header of the record. -/
def header (record : RecordV1) : Bytes × Bytes :=
  (recordNameV1 record.micros, decimal record.size ++ comma :: (record.contentType ++ record.tail))

/-- The fields of the labels. -/
def labelFields (record : RecordV1) : List Bytes := (record.labels.map (getlines comma)).getD []

/-- The record the decoder returns, before the flag is set. -/
def decoded (head : Bool) (record : RecordV1) : ReadableRecord where
  entry := []
  timestamp := timeFromMicroseconds record.micros
  size := record.size
  last := false
  labels := csvLabels record.labelFields
  contentType := record.contentType
  read := ⟨.v1 record.size, head⟩

end RecordV1

/-! ## Decoding a header -/

/-- A field is an item of its own if there is no text behind a quote at its start. -/
theorem foldl_csvField {fields : List Bytes}
    (h : ∀ field ∈ fields, field.head? = some quotation → field = [quotation])
    (items : List Bytes) : fields.foldl csvField ⟨[], items⟩ = ⟨[], items ++ fields⟩ := by
  induction fields generalizing items with
  | nil => simp
  | cons field fields ih =>
    have hstep : csvField ⟨[], items⟩ field = ⟨[], items ++ [field]⟩ := by
      by_cases hhead : field.head? = some quotation
      · simp [csvField, h field List.mem_cons_self hhead]
      · simp [csvField, hhead]
    rw [List.foldl_cons, hstep, ih fun f hf => h f (List.mem_cons_of_mem field hf)]
    simp

/-- The fields of a value. -/
theorem RecordV1.getlines_value (record : RecordV1) :
    getlines comma record.header.2 =
      decimal record.size :: record.contentType :: record.labelFields := by
  rw [header, getlines_cons (decimal_no_comma _)]
  cases hlabels : record.labels with
  | none =>
    simp [tail, labelFields, hlabels,
      getlines_singleton record.contentType_comma record.contentType_ne]
  | some text => simp [tail, labelFields, hlabels, getlines_cons record.contentType_comma]

theorem RecordV1.field_plain (record : RecordV1) :
    ∀ field ∈ getlines comma record.header.2, quotation ∉ field := by
  have hdecimal : quotation ∉ decimal record.size := fun h =>
    absurd (isDigit_of_mem_decimal h) (by decide)
  rw [getlines_value]
  simp only [List.forall_mem_cons]
  refine ⟨hdecimal, record.contentType_plain, ?_⟩
  intro field hfield hquote
  unfold labelFields at hfield
  cases hlabels : record.labels with
  | none => simp [hlabels] at hfield
  | some text =>
    rw [hlabels, Option.map_some, Option.getD_some] at hfield
    exact record.labels_plain text hlabels (mem_of_mem_getlines hfield hquote)

theorem RecordV1.parseCsv_value (record : RecordV1) :
    parseCsv record.header.2 =
      if record.size < 2 ^ 63 then
        .ok (record.size, record.contentType, csvLabels record.labelFields)
      else .error .outOfRange := by
  have hplain : ∀ field ∈ getlines comma record.header.2,
      field.head? = some quotation → field = [quotation] := fun field hfield hhead =>
    absurd (List.mem_of_head? hhead) (record.field_plain field hfield)
  have hfold := foldl_csvField hplain []
  rw [List.nil_append, record.getlines_value] at hfold
  simp only [parseCsv, record.getlines_value, hfold, stoll_decimal]
  split <;> rfl

/-- A record is decoded if and only if its size and its timestamp can be read. -/
theorem RecordV1.decodeRecordV1_header (head : Bool) (record : RecordV1) :
    decodeRecordV1 head record.header =
      if record.size < 2 ^ 63 ∧ record.micros < 2 ^ 64 then .ok (record.decoded head)
      else .error .outOfRange := by
  have hsize : record.size < 2 ^ 63 → toUInt64 record.size = record.size := by
    intro h
    unfold toUInt64
    omega
  rw [decodeRecordV1, record.parseCsv_value]
  by_cases hlt : record.size < 2 ^ 63
  · rw [if_pos hlt, ok_bind, header, recordNameV1, List.drop_left, fromMicroseconds_decimal]
    by_cases hmicros : record.micros < 2 ^ 64
    · rw [if_pos hmicros, if_pos ⟨hlt, hmicros⟩]
      simp only [ok_bind, hsize hlt]
      rfl
    · rw [if_neg hmicros, if_neg fun h => hmicros h.2]
      rfl
  · rw [if_neg hlt, if_neg fun h => hlt h.1]
    rfl

/-! ## Decoding a response -/

/-- The record headers of the response are those of the records, which come in the
order of their timestamps. -/
structure AnnouncesV1 (headers : Headers) (records : List RecordV1) : Prop where
  perm : (recordHeaders isRecordNameV1 headers).Perm (records.map RecordV1.header)
  ascending : records.Pairwise fun r r' => r.micros < r'.micros

/-- Timestamps with equally many digits are ordered alike. -/
theorem sorted_of_digits {records : List RecordV1}
    (h : records.Pairwise fun r r' => r.micros < r'.micros)
    (hdigits : ∀ r ∈ records, ∀ r' ∈ records,
      (decimal r.micros).length = (decimal r'.micros).length) :
    records.Pairwise fun r r' => compare (decimal r.micros) (decimal r'.micros) = .lt :=
  h.imp_of_mem fun hr hr' hlt => compare_decimal (hdigits _ hr _ hr') hlt

section Response

variable {headers : Headers} {records : List RecordV1}

/-- The decoder goes through the records in some order, that of their timestamps as
strings. -/
theorem AnnouncesV1.ordered (h : AnnouncesV1 headers records) :
    ∃ ordered : List RecordV1, ordered.Perm records ∧
      orderedRecordHeaders headers = ordered.map RecordV1.header ∧
      ordered.Pairwise fun r r' => compare (decimal r.micros) (decimal r'.micros) = .lt := by
  obtain ⟨ordered, heq, hperm⟩ := (congrFun (congrFun (List.eq_map_comp_perm RecordV1.header) _) _).mpr
    ((orderedRecordHeaders_perm headers).trans h.perm)
  have hsorted := orderedRecordHeaders_sorted headers
  rw [heq, List.pairwise_map] at hsorted
  refine ⟨ordered, hperm, heq, hsorted.imp ?_⟩
  intro r r' hlt
  rwa [RecordV1.header, RecordV1.header, recordNameV1, recordNameV1, compare_append_left] at hlt

/-- A list of records is decoded if and only if each of them is. -/
theorem mapM_decodeRecordV1 {head : Bool} {decoded : List ReadableRecord} :
    (records.map RecordV1.header).mapM (decodeRecordV1 head) = .ok decoded ↔
      (∀ r ∈ records, r.size < 2 ^ 63 ∧ r.micros < 2 ^ 64) ∧
        decoded = records.map (RecordV1.decoded head) := by
  rw [mapM_eq_ok, List.forall₂_map_left_iff]
  constructor
  · intro hall
    induction hall with
    | nil => simp
    | @cons r d records decoded hd _ ih =>
      rw [r.decodeRecordV1_header] at hd
      split at hd
      · rename_i hlt
        cases hd
        exact ⟨List.forall_mem_cons.2 ⟨hlt, ih.1⟩, by rw [ih.2, List.map_cons]⟩
      · cases hd
  · rintro ⟨hlt, rfl⟩
    rw [List.forall₂_map_right_iff]
    exact List.forall₂_same.2 fun r hr => by rw [r.decodeRecordV1_header, if_pos (hlt r hr)]

/-- Records in the order of their names come out as they are. -/
theorem AnnouncesV1.decodes (h : AnnouncesV1 headers records)
    (hsorted : records.Pairwise fun r r' => compare (decimal r.micros) (decimal r'.micros) = .lt)
    (hlt : ∀ r ∈ records, r.size < 2 ^ 63 ∧ r.micros < 2 ^ 64) (head : Bool) :
    parseAndBuildBatchedRecordsV1 head headers =
      .ok (flagLast (announcesEnd headers) (records.map (RecordV1.decoded head))) := by
  obtain ⟨ordered, hperm, heq, hordered⟩ := h.ordered
  have hsame : ordered = records := by
    refine List.Perm.eq_of_pairwise ?_ hordered hsorted hperm
    intro r r' _ _ hlt hgt
    exact absurd hgt (Std.OrientedCmp.not_lt_of_lt hlt)
  have hdecoded := (@mapM_decodeRecordV1 records head _).2 ⟨hlt, rfl⟩
  rw [parseAndBuildBatchedRecordsV1_eq, heq, hsame, hdecoded]
  rfl

end Response

end Reduct
