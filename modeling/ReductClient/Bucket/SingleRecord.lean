-- SUMMARY: A record read on its own: the size and the labels that `ParseAndBuildSingleRecord` takes from the headers.
import ReductClient.Bucket.Handle
import ReductClient.Bucket.ReadRecord
import ReductClient.Internal.RecordValuesV1
import ReductClient.Internal.DecodingV2

open Cxx Fallible

namespace Reduct

/-! ## The size -/

/-- Fields that have been read stay at the front. -/
theorem items_foldl_csvField (fields : List Bytes) (st : CsvState) :
    ∃ more, (fields.foldl csvField st).items = st.items ++ more := by
  induction fields generalizing st with
  | nil => exact ⟨[], by simp⟩
  | cons field fields ih =>
    obtain ⟨more, hmore⟩ := ih (csvField st field)
    have hstep : ∃ item, (csvField st field).items = st.items ++ item := by
      simp only [csvField]
      generalize (if field.head? = some quotation ∧ st.escaped = [] then field.drop 1
        else st.escaped) = escaped
      split_ifs
      · exact ⟨_, rfl⟩
      · exact ⟨[], by simp⟩
      · exact ⟨_, rfl⟩
    obtain ⟨item, hitem⟩ := hstep
    exact ⟨item ++ more, by rw [List.foldl_cons, hmore, hitem, List.append_assoc]⟩

/-- A v1 header that begins with a number is decoded with it as the size. -/
theorem size_of_parseCsv {n : Nat} {rest : Bytes} {csv : Int × Bytes × LabelMap}
    (h : parseCsv (decimal n ++ comma :: rest) = .ok csv) : csv.1 = n := by
  have hplain : csvField ⟨[], []⟩ (decimal n) = ⟨[], [decimal n]⟩ := by
    have hquote : (decimal n).head? ≠ some quotation := fun hhead =>
      absurd (isDigit_of_mem_decimal (List.mem_of_head? hhead)) (by decide)
    simp [csvField, hquote]
  obtain ⟨more, hmore⟩ := items_foldl_csvField (getlines comma rest) ⟨[], [decimal n]⟩
  rw [parseCsv, getlines_cons (decimal_no_comma n), List.foldl_cons, hplain, hmore] at h
  obtain ⟨size, hsize, h⟩ := bind_eq_ok.1 h
  rw [stoll_decimal] at hsize
  split at hsize
  · cases hsize
    cases more with
    | nil => cases h
    | cons contentType labels =>
      cases h
      rfl
  · cases hsize

/-- So is a v2 header. -/
theorem size_of_parseRecordHeaderV2 {n : Nat} (hn : n < 2 ^ 64) {rest : Bytes}
    {previous : Option RecordHeaderV2} {labelNames : Option (List Bytes)}
    {header : Option RecordHeaderV2}
    (h : parseRecordHeaderV2 (decimal n ++ comma :: rest) previous labelNames = .ok header) :
    header.map (·.contentLength) = some n := by
  have hlength : stoull (lengthPart (decimal n ++ comma :: rest)) = .ok n := by
    rw [lengthPart, splitFirst_append (decimal_no_comma n), Option.map_some, Option.getD_some,
      trim_decimal, stoull_decimal_nil hn]
  rcases parseRecordHeaderV2_cases h with ⟨-, hnone⟩ | ⟨header', rfl, hok⟩
  · exact absurd hlength (hnone n)
  · exact congrArg some (Except.ok.inj (hok.symm.trans hlength))

theorem toUInt64_natCast {n : Nat} (h : n < 2 ^ 64) : toUInt64 n = n := by
  unfold toUInt64
  omega

/-- The size of a single record is read without an exception, and it is the number
that the batched parsers take from a record header with this size. -/
structure SizeAgrees (head : Bool) (headers : Headers) (n : Nat) : Prop where
  single : ∃ record, parseAndBuildSingleRecord head headers = .ok record ∧ record.size = n
  batchedV1 : ∀ rest csv, parseCsv (decimal n ++ comma :: rest) = .ok csv → toUInt64 csv.1 = n
  batchedV2 : ∀ rest previous labelNames header,
    parseRecordHeaderV2 (decimal n ++ comma :: rest) previous labelNames = .ok header →
      header.map (·.contentLength) = some n

/-- The size of a single record is exact up to the range of an `int`. -/
theorem sizeAgrees_iff (head : Bool) {headers : Headers} {n : Nat} {us : Int} (hn : n < 2 ^ 63)
    (hus : -2 ^ 63 ≤ us * 1000 ∧ us * 1000 < 2 ^ 63)
    (hlength : headers.find? (bytes "content-length") = some (decimal n))
    (htime : headers.find? kHeaderTime = some (decimalSigned us)) :
    SizeAgrees head headers n ↔ n < 2 ^ 31 := by
  have hget : headers.get (bytes "content-length") = decimal n := by
    rw [Headers.get, hlength, Option.getD_some]
  have htimestamp : fromMicroseconds (headers.get kHeaderTime) =
      .ok (timeFromMicroseconds (us % 2 ^ 64).toNat) := by
    rw [Headers.get, htime, Option.getD_some, fromMicroseconds, stoul,
      stoull_decimalSigned (by omega) (by omega)]
    rfl
  have hstoi : stoi (decimal n) = if n < 2 ^ 31 then .ok (n : Int) else .error .outOfRange := by
    rw [stoi, stoSigned_decimal (by decide)]
    by_cases h : n < 2 ^ 31
    · rw [if_pos h, if_pos (by omega)]
    · rw [if_neg h, if_neg (by omega)]
  constructor
  · intro h
    obtain ⟨record, hrecord, -⟩ := h.single
    rw [parseAndBuildSingleRecord, htimestamp, ok_bind, hget, hstoi] at hrecord
    by_contra hlarge
    rw [if_neg hlarge] at hrecord
    cases hrecord
  · intro hsmall
    refine ⟨?_, fun rest csv h => ?_, fun rest previous labelNames header h => ?_⟩
    · rw [parseAndBuildSingleRecord, htimestamp, ok_bind, hget, hstoi, if_pos hsmall, ok_bind]
      exact ⟨_, rfl, toUInt64_natCast (by omega)⟩
    · rw [size_of_parseCsv h, toUInt64_natCast (by omega)]
    · exact size_of_parseRecordHeaderV2 (by omega) h

/-- The headers of a record of the given size, at the epoch. -/
def sizedHeaders (n : Nat) : Headers where
  toList := [(kHeaderTime, decimal 0), (bytes "content-length", decimal n)]
  nodup := by
    change [kHeaderTime, bytes "content-length"].Nodup
    decide

theorem sizeAgrees_small :
    SizeAgrees false (sizedHeaders 1024) 1024 ↔ 1024 < 2 ^ 31 :=
  @sizeAgrees_iff false (sizedHeaders 1024) 1024 0 (by decide) (by decide) rfl rfl

/-- A record of two gigabytes ends the process. -/
theorem sizeAgrees_broken :
    (sizedHeaders (2 ^ 31)).find? (bytes "content-length") = some (decimal (2 ^ 31)) ∧
      (sizedHeaders (2 ^ 31)).find? kHeaderTime = some (decimalSigned 0) ∧
      parseAndBuildSingleRecord false (sizedHeaders (2 ^ 31)) = .error .outOfRange ∧
      ¬ SizeAgrees false (sizedHeaders (2 ^ 31)) (2 ^ 31) := by
  have hfault : parseAndBuildSingleRecord false (sizedHeaders (2 ^ 31)) = .error .outOfRange := by
    have hget : (sizedHeaders (2 ^ 31)).get (bytes "content-length") = decimal (2 ^ 31) := rfl
    have htime : fromMicroseconds ((sizedHeaders (2 ^ 31)).get kHeaderTime) =
      .ok (timeFromMicroseconds 0) := fromMicroseconds_decimal 0
    rw [parseAndBuildSingleRecord, htime, ok_bind, hget, stoi, stoSigned_decimal (by decide)]
    rfl
  refine ⟨rfl, rfl, hfault, fun h => ?_⟩
  obtain ⟨record, hrecord, -⟩ := h.single
  cases hfault.symm.trans hrecord

/-! ## The labels -/

/-- The label that a header carries. -/
def labelOf (header : Bytes × Bytes) : Option (Bytes × Bytes) :=
  if kHeaderLabelPrefix.isPrefixOf header.1 then
    some (header.1.drop kHeaderLabelPrefix.length, header.2)
  else none

theorem labelOf_eq_some {header label : Bytes × Bytes} :
    labelOf header = some label ↔ header = (kHeaderLabelPrefix ++ label.1, label.2) := by
  obtain ⟨name, value⟩ := header
  constructor
  · intro h
    by_cases hname : kHeaderLabelPrefix.isPrefixOf name = true
    · obtain ⟨key, rfl⟩ := List.isPrefixOf_iff_prefix.1 hname
      rw [labelOf, if_pos hname, List.drop_left, Option.some.injEq] at h
      rw [← h]
    · rw [labelOf, if_neg hname] at h
      cases h
  · intro h
    rw [h, labelOf, if_pos (isPrefixOf_append _ _), List.drop_left]

theorem foldl_singleLabel (headers : List (Bytes × Bytes)) (labels : LabelMap) :
    headers.foldl singleLabel labels = labels.emplaceAll (headers.filterMap labelOf) := by
  induction headers generalizing labels with
  | nil => rfl
  | cons header headers ih =>
    rw [List.foldl_cons, ih, List.filterMap_cons, labelOf, singleLabel]
    split <;> rfl

/-- The labels of a single record are the label headers of the response. -/
theorem getElem?_labels {head : Bool} {headers : Headers} {record : ReadableRecord}
    (h : parseAndBuildSingleRecord head headers = .ok record) (key value : Bytes) :
    record.labels[key]? = some value ↔
      headers.find? (kHeaderLabelPrefix ++ key) = some value := by
  obtain ⟨timestamp, -, h⟩ := bind_eq_ok.1 h
  obtain ⟨size, -, h⟩ := bind_eq_ok.1 h
  cases h
  have hnodup : ((headers.toList.filterMap labelOf).map Prod.fst).Nodup := by
    rw [List.Nodup, List.pairwise_map]
    refine List.Pairwise.filterMap labelOf ?_ (List.pairwise_map.1 headers.nodup)
    intro header header' hne label hlabel label' hlabel' heq
    rw [labelOf_eq_some.1 hlabel, labelOf_eq_some.1 hlabel', heq] at hne
    exact hne rfl
  rw [foldl_singleLabel, OrderedMap.getElem?_emplaceAll hnodup (by simp), List.mem_filterMap,
    UnorderedMap.find?_eq_some]
  constructor
  · rintro (hempty | ⟨header, hmem, hlabel⟩)
    · simp at hempty
    · rwa [← labelOf_eq_some.1 hlabel]
  · exact fun hmem => .inr ⟨_, hmem, labelOf_eq_some.2 rfl⟩

/-! ### The normalised headers -/

theorem normalizeHeaders_concat (headers : List (Bytes × Bytes)) (header : Bytes × Bytes) :
    normalizeHeaders (headers ++ [header]) =
      (normalizeHeaders headers).assign (header.1.map toLower) header.2 := by
  rw [normalizeHeaders, List.foldl_append]
  rfl

/-- What stands under a name has come with it, up to upper and lower case. -/
theorem mem_of_find?_normalizeHeaders {headers : List (Bytes × Bytes)} {name value : Bytes}
    (h : (normalizeHeaders headers).find? name = some value) :
    ∃ header ∈ headers, header.1.map toLower = name ∧ header.2 = value := by
  induction headers using List.reverseRecOn with
  | nil => cases h
  | append_singleton headers header ih =>
    rw [normalizeHeaders_concat, UnorderedMap.find?_assign] at h
    split_ifs at h with hname
    · exact ⟨header, by simp, hname, Option.some.inj h⟩
    · obtain ⟨header', hmem, hheader'⟩ := ih h
      exact ⟨header', List.mem_append_left _ hmem, hheader'⟩

/-- A header stands under its name in lower case, if no other one does. -/
theorem find?_normalizeHeaders {headers : List (Bytes × Bytes)} {header : Bytes × Bytes}
    (hmem : header ∈ headers)
    (hunique : ∀ other ∈ headers, other.1.map toLower = header.1.map toLower →
      other.2 = header.2) :
    (normalizeHeaders headers).find? (header.1.map toLower) = some header.2 := by
  induction headers using List.reverseRecOn with
  | nil => cases hmem
  | append_singleton headers last ih =>
    rw [normalizeHeaders_concat, UnorderedMap.find?_assign]
    by_cases hlast : last.1.map toLower = header.1.map toLower
    · rw [if_pos hlast, hunique last (by simp) hlast]
    · rw [if_neg hlast]
      refine ih ?_ fun other hother => hunique other (List.mem_append_left _ hother)
      rcases List.mem_append.1 hmem with hmem | hmem
      · exact hmem
      · exact absurd (by rw [List.mem_singleton.1 hmem]) hlast

theorem toLower_toLower (c : UInt8) : toLower (toLower c) = toLower c := by
  unfold toLower
  split_ifs with h h'
  · simp only [UInt8.le_iff_toNat_le, UInt8.toNat_add, UInt8.reduceToNat] at h h'
    omega
  · rfl
  · rfl

/-! ### The round trip -/

/-- The server returns the label headers of a write, and no others, among the
headers of its response. -/
def ReturnsLabels (labels : LabelMap) (response : List (Bytes × Bytes)) : Prop :=
  (response.filter fun h => kHeaderLabelPrefix.isPrefixOf (h.1.map toLower)).Perm
    (Bucket.makeHeadersFromLabels labels).toList

/-- No character of the name is an upper case letter. -/
def IsLowerCase (name : Bytes) : Prop := name.map toLower = name

instance (name : Bytes) : Decidable (IsLowerCase name) :=
  inferInstanceAs (Decidable (name.map toLower = name))

theorem isLowerCase_kHeaderLabelPrefix : IsLowerCase kHeaderLabelPrefix := by decide

theorem isLowerCase_append (a b : Bytes) : IsLowerCase (a ++ b) ↔ IsLowerCase a ∧ IsLowerCase b := by
  unfold IsLowerCase
  rw [List.map_append]
  constructor
  · exact fun h => List.append_inj h (List.length_map toLower)
  · rintro ⟨ha, hb⟩
    rw [ha, hb]

/-- The label headers of a write are those of its labels. -/
theorem mem_makeHeadersFromLabels {labels : LabelMap} {header : Bytes × Bytes} :
    header ∈ (Bucket.makeHeadersFromLabels labels).toList ↔
      ∃ key value, labels[key]? = some value ∧ header = (kHeaderLabelPrefix ++ key, value) := by
  have hnodup : ((labels.toList.map fun l => (kHeaderLabelPrefix ++ l.1, l.2)).map Prod.fst).Nodup := by
    rw [List.map_map]
    have hkeys : (labels.toList.map Prod.fst).Nodup := by
      rw [Std.ExtTreeMap.map_fst_toList_eq_keys]
      exact Std.ExtTreeMap.nodup_keys
    have hcomp : (Prod.fst ∘ fun l : Bytes × Bytes => (kHeaderLabelPrefix ++ l.1, l.2)) =
        (kHeaderLabelPrefix ++ ·) ∘ Prod.fst := rfl
    rw [hcomp, ← List.map_map]
    exact hkeys.map fun a b => List.append_cancel_left
  rw [Bucket.makeHeadersFromLabels, UnorderedMap.toList_emplaceAll hnodup (by simp [UnorderedMap.empty])]
  simp only [UnorderedMap.empty, List.nil_append, List.mem_map, Prod.exists,
    Std.ExtTreeMap.mem_toList_iff_getElem?_eq_some]
  constructor
  · rintro ⟨key, value, hvalue, rfl⟩
    exact ⟨key, value, hvalue, rfl⟩
  · rintro ⟨key, value, hvalue, rfl⟩
    exact ⟨key, value, hvalue, rfl⟩

/-- A single record has the labels it was written with if and only if their names
are in lower case. -/
theorem singleLabels_iff {head : Bool} {labels : LabelMap} {response : List (Bytes × Bytes)}
    {headers : Headers} {record : ReadableRecord} (hreturns : ReturnsLabels labels response)
    (hsame : (normalizeHeaders response).Same headers)
    (hparse : parseAndBuildSingleRecord head headers = .ok record) :
    record.labels = labels ↔ ∀ key ∈ labels, IsLowerCase key := by
  have hrecord : ∀ key value, record.labels[key]? = some value ↔
      (normalizeHeaders response).find? (kHeaderLabelPrefix ++ key) = some value := by
    intro key value
    rw [getElem?_labels hparse, hsame.find?]
  -- the label headers of the response are those of the write
  have hheader : ∀ header : Bytes × Bytes,
      kHeaderLabelPrefix.isPrefixOf (header.1.map toLower) = true →
        (header ∈ response ↔
          ∃ key value, labels[key]? = some value ∧ header = (kHeaderLabelPrefix ++ key, value)) := by
    intro header hname
    rw [← mem_makeHeadersFromLabels, ← hreturns.mem_iff, List.mem_filter]
    exact ⟨fun h => ⟨h, hname⟩, fun h => h.1⟩
  constructor
  · rintro rfl key hkey
    obtain ⟨value, hvalue⟩ := Option.isSome_iff_exists.1
      (Std.ExtTreeMap.mem_iff_isSome_getElem?.1 hkey)
    obtain ⟨header, -, hname, -⟩ := mem_of_find?_normalizeHeaders ((hrecord key value).1 hvalue)
    have hlower : IsLowerCase (kHeaderLabelPrefix ++ key) := by
      rw [← hname, IsLowerCase, List.map_map]
      exact List.map_congr_left fun c _ => toLower_toLower c
    exact ((isLowerCase_append _ _).1 hlower).2
  · intro hlower
    have hkeys : ∀ {key value}, labels[key]? = some value →
        (kHeaderLabelPrefix ++ key).map toLower = kHeaderLabelPrefix ++ key := by
      intro key value hvalue
      refine (isLowerCase_append _ _).2 ⟨isLowerCase_kHeaderLabelPrefix, hlower key ?_⟩
      exact Std.ExtTreeMap.mem_iff_isSome_getElem?.2 (by rw [hvalue]; rfl)
    refine Std.ExtTreeMap.ext_getElem? fun key => Option.ext fun value => ?_
    rw [hrecord]
    constructor
    · intro hfind
      obtain ⟨header, hmem, hname, rfl⟩ := mem_of_find?_normalizeHeaders hfind
      obtain ⟨key', value', hvalue', rfl⟩ :=
        (hheader header (by rw [hname, isPrefixOf_append])).1 hmem
      rw [hkeys hvalue', List.append_cancel_left_eq] at hname
      rwa [← hname]
    · intro hvalue
      have hname := hkeys hvalue
      have hmem := (hheader (kHeaderLabelPrefix ++ key, value)
        (by rw [hname, isPrefixOf_append])).2 ⟨key, value, hvalue, rfl⟩
      have hfind := find?_normalizeHeaders hmem fun other hother hsameName => by
        obtain ⟨key', value', hvalue', rfl⟩ :=
          (hheader other (by rw [hsameName, hname, isPrefixOf_append])).1 hother
        dsimp only at hsameName
        rw [hkeys hvalue', hname, List.append_cancel_left_eq] at hsameName
        rw [hsameName] at hvalue'
        exact Option.some.inj (hvalue'.symm.trans hvalue)
      rwa [hname] at hfind

/-- Names that are tokens of HTTP and values of visible ASCII characters. -/
def HttpLabels (labels : LabelMap) : Prop :=
  ∀ label ∈ labels.toList, label.1 ≠ [] ∧ label.1.all isPlainEntryChar = true ∧
    label.2.all (fun c => 0x21 ≤ c && c ≤ 0x7E) = true

instance (labels : LabelMap) : Decidable (HttpLabels labels) :=
  inferInstanceAs (Decidable (∀ label ∈ labels.toList, _))

/-- The response to the read of a record with one label. -/
def labelledResponse (key value : Bytes) : List (Bytes × Bytes) :=
  [(bytes "Content-Length", bytes "1"), (kHeaderTime, bytes "10"),
    (kHeaderLabelPrefix ++ key, value)]

theorem singleLabels_lower :
    ∃ record, parseAndBuildSingleRecord false
        (normalizeHeaders (labelledResponse (bytes "key") (bytes "value"))) = .ok record ∧
      (record.labels = (∅ : LabelMap).insert (bytes "key") (bytes "value") ↔
        ∀ key ∈ (∅ : LabelMap).insert (bytes "key") (bytes "value"), IsLowerCase key) :=
  ⟨_, rfl, @singleLabels_iff false _ (labelledResponse (bytes "key") (bytes "value")) _ _
    (List.Perm.of_eq (by decide +kernel)) (List.Perm.refl _) rfl⟩

/-- The label `Key` comes back as `key`. -/
theorem singleLabels_upper :
    ∃ labels response record, HttpLabels labels ∧ ReturnsLabels labels response ∧
      parseAndBuildSingleRecord false (normalizeHeaders response) = .ok record ∧
      record.labels ≠ labels := by
  refine ⟨(∅ : LabelMap).insert (bytes "Key") (bytes "value"),
    labelledResponse (bytes "Key") (bytes "value"), _, by decide +kernel,
    List.Perm.of_eq (by decide +kernel), rfl, fun heq => ?_⟩
  have hlabel : ((∅ : LabelMap).insert (bytes "Key") (bytes "value"))[bytes "Key"]? =
      some (bytes "value") := Std.ExtTreeMap.getElem?_insert_self
  rw [← heq, @getElem?_labels false
    (normalizeHeaders (labelledResponse (bytes "Key") (bytes "value"))) _ rfl] at hlabel
  exact absurd hlabel (by decide +kernel)

end Reduct
