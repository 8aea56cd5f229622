-- SUMMARY: The v1 decoder as a loop over the record headers in the order of their names, with the flag on the last record.
import ReductClient.Base.Fallible
import ReductClient.Internal.RecordHeaders

open Cxx Fallible

namespace Reduct

/-! ## The flag -/

/-- The response announces that it is the last one. -/
def announcesEnd (headers : Headers) : Bool := decide (headers.get kHeaderLast = bytes "true")

/-- The last record carries the flag of the response. -/
def flagLast (flag : Bool) (records : List ReadableRecord) : List ReadableRecord :=
  if flag then markLast records else records

theorem markLast_concat (records : List ReadableRecord) (record : ReadableRecord) :
    markLast (records ++ [record]) = records ++ [{ record with last := true }] := by
  simp [markLast]

@[simp] theorem flagLast_nil (flag : Bool) : flagLast flag [] = [] := by cases flag <;> rfl

theorem flagLast_concat (flag : Bool) (records : List ReadableRecord) {record : ReadableRecord}
    (h : record.last = false) :
    flagLast flag (records ++ [record]) = records ++ [{ record with last := flag }] := by
  cases flag with
  | false => simp [flagLast, ← h]
  | true => exact markLast_concat records record

theorem flagLast_cons (flag : Bool) (record : ReadableRecord) {records : List ReadableRecord}
    (h : records ≠ []) : flagLast flag (record :: records) = record :: flagLast flag records := by
  cases flag with
  | false => rfl
  | true =>
    obtain ⟨init, last, rfl⟩ := (List.eq_nil_or_concat' records).resolve_left h
    have hcons := markLast_concat (record :: init) last
    rw [List.cons_append] at hcons
    simp [flagLast, hcons, markLast_concat]

theorem length_flagLast (flag : Bool) (records : List ReadableRecord) :
    (flagLast flag records).length = records.length := by
  rcases List.eq_nil_or_concat' records with rfl | ⟨init, last, rfl⟩
  · simp
  · cases flag <;> simp [flagLast, markLast_concat]

/-- Apart from the flag the records stay as they are. -/
theorem map_flagLast {α : Type} {f : ReadableRecord → α} (hf : ∀ r b, f { r with last := b } = f r)
    (flag : Bool) (records : List ReadableRecord) :
    (flagLast flag records).map f = records.map f := by
  rcases List.eq_nil_or_concat' records with rfl | ⟨init, last, rfl⟩
  · simp
  · cases flag <;> simp [flagLast, markLast_concat, hf]

/-! ## The loop -/

/-- The record headers of a response, in the order of the map `ordered_headers`. -/
def orderedRecordHeaders (headers : Headers) : List (Bytes × Bytes) :=
  (Std.ExtTreeMap.ofList headers.toList compare).toList.filter fun h => isRecordNameV1 h.1

/-- The record of a header, before the flag is set. -/
def decodeRecordV1 (head : Bool) (header : Bytes × Bytes) : Except Fault ReadableRecord := do
  let (size, contentType, labels) ← parseCsv header.2
  let timestamp ← fromMicroseconds (header.1.drop kHeaderTimePrefix.length)
  pure {
    entry := []
    timestamp := timestamp
    size := toUInt64 size
    last := false
    labels := labels
    contentType := contentType
    read := ⟨.v1 (toUInt64 size), head⟩ }

theorem decodeRecordV1_last {head : Bool} {header : Bytes × Bytes} {record : ReadableRecord}
    (h : decodeRecordV1 head header = .ok record) : record.last = false := by
  obtain ⟨csv, -, h⟩ := bind_eq_ok.1 h
  obtain ⟨timestamp, -, h⟩ := bind_eq_ok.1 h
  cases h
  rfl

theorem buildRecordV1_eq {head : Bool} {headers : Headers} {total : Nat}
    {records : List ReadableRecord} {header : Bytes × Bytes}
    (h : isRecordNameV1 header.1 = true) :
    buildRecordV1 head headers total records header =
      decodeRecordV1 head header >>= fun record => pure (records ++
        [{ record with last := decide (records.length = total - 1) && announcesEnd headers }]) := by
  have hname : kHeaderTimePrefix.isPrefixOf header.1 = true := h
  rw [buildRecordV1, if_pos hname, decodeRecordV1]
  cases parseCsv header.2 with
  | error fault => rfl
  | ok csv =>
    cases fromMicroseconds (header.1.drop kHeaderTimePrefix.length) with
    | error fault => rfl
    | ok timestamp => rfl

/-- The loop from some records on, with as many headers to come as are missing. -/
theorem foldlM_buildRecordV1 (head : Bool) (headers : Headers) {total : Nat}
    {l : List (Bytes × Bytes)} {records : List ReadableRecord}
    (htotal : records.length + l.countP (fun h => isRecordNameV1 h.1) = total) :
    l.foldlM (buildRecordV1 head headers total) records =
      (l.filter fun h => isRecordNameV1 h.1).mapM (decodeRecordV1 head) >>= fun decoded =>
        pure (records ++ flagLast (announcesEnd headers) decoded) := by
  induction l generalizing records with
  | nil => simp
  | cons header l ih =>
    rw [List.foldlM_cons]
    cases hname : isRecordNameV1 header.1 with
    | false =>
      have hskip : buildRecordV1 head headers total records header = pure records :=
        if_neg (by rw [isRecordNameV1] at hname; simp [hname])
      rw [hskip, pure_bind, ih (by simpa [hname] using htotal)]
      simp [hname]
    | true =>
      have hcount : l.countP (fun h => isRecordNameV1 h.1) =
          (l.filter fun h => isRecordNameV1 h.1).length := List.countP_eq_length_filter
      have htotal' : records.length + 1 + l.countP (fun h => isRecordNameV1 h.1) = total := by
        simp only [List.countP_cons, hname, if_true] at htotal
        omega
      rw [buildRecordV1_eq hname, bind_assoc, List.filter_cons, if_pos hname, List.mapM_cons,
        bind_assoc]
      cases hrecord : decodeRecordV1 head header with
      | error fault => rfl
      | ok record =>
        have hlast := decodeRecordV1_last hrecord
        have hloop := @ih (records ++ [{ record with
          last := decide (records.length = total - 1) && announcesEnd headers }])
          (by simpa using htotal')
        have hstep : (pure record : Except Fault ReadableRecord) = .ok record := rfl
        rw [← hstep, pure_bind, pure_bind, pure_bind, hloop, bind_assoc]
        cases hdecoded : (l.filter fun h => isRecordNameV1 h.1).mapM (decodeRecordV1 head) with
        | error fault => rfl
        | ok decoded =>
          have hlength := (mapM_eq_ok.1 hdecoded).length_eq
          refine congrArg Except.ok ?_
          rw [List.append_assoc, List.append_cancel_left_eq]
          by_cases hnil : decoded = []
          · have hend : records.length = total - 1 := by
              rw [hnil, List.length_nil] at hlength
              omega
            simpa [hnil, hend] using (flagLast_concat (announcesEnd headers) [] hlast).symm
          · have hmore : records.length ≠ total - 1 := by
              have := List.length_pos_iff.2 hnil
              omega
            have hsame : { record with last := false } = record := by rw [← hlast]
            rw [flagLast_cons _ _ hnil]
            simp [hmore, hsame]

/-- The decoder reads the record headers in the order of their names. -/
theorem parseAndBuildBatchedRecordsV1_eq (head : Bool) (headers : Headers) :
    parseAndBuildBatchedRecordsV1 head headers =
      (orderedRecordHeaders headers).mapM (decodeRecordV1 head) >>= fun records =>
        pure (flagLast (announcesEnd headers) records) := by
  have hperm := toList_ofList_perm headers.nodup
  rw [parseAndBuildBatchedRecordsV1, @foldlM_buildRecordV1 head headers _ _ []]
  · rfl
  · rw [List.length_nil, Nat.zero_add, hperm.countP_eq]
    rfl

theorem orderedRecordHeaders_perm (headers : Headers) :
    (orderedRecordHeaders headers).Perm (recordHeaders isRecordNameV1 headers) :=
  (toList_ofList_perm headers.nodup).filter _

/-- The names come in their order as strings. -/
theorem orderedRecordHeaders_sorted (headers : Headers) :
    (orderedRecordHeaders headers).Pairwise fun h h' => compare h.1 h'.1 = .lt :=
  Std.ExtTreeMap.ordered_keys_toList.filter _

end Reduct
