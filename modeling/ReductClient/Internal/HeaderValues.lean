-- SUMMARY: Header values that HTTP can carry: which of the headers of a v2 request have no control characters, and which of them remove no label.
import ReductClient.Internal.RoundTrip

open Cxx

namespace Reduct

/-! ## Field values -/

/-- A character of an HTTP field value: the only control character is the tab. -/
def isFieldChar (c : UInt8) : Bool := c == 0x09 || (0x20 ≤ c && c != 0x7F)

/-- A text that a header can have as its value. -/
def FieldText (s : Bytes) : Prop := ∀ c ∈ s, isFieldChar c = true

instance (s : Bytes) : Decidable (FieldText s) :=
  decidable_of_iff (s.all isFieldChar = true) List.all_eq_true

theorem fieldText_cons {c : UInt8} {s : Bytes} :
    FieldText (c :: s) ↔ isFieldChar c = true ∧ FieldText s := List.forall_mem_cons

theorem fieldText_append {s t : Bytes} : FieldText (s ++ t) ↔ FieldText s ∧ FieldText t :=
  List.forall_mem_append

theorem fieldText_join {items : List Bytes} (h : ∀ item ∈ items, FieldText item) :
    FieldText (join items) := by
  intro c hc
  obtain rfl | ⟨item, hitem, hmem⟩ := mem_join hc
  · decide
  · exact h item hitem c hmem

theorem isFieldChar_of_plain {c : UInt8} (h : isPlainEntryChar c = true) : isFieldChar c = true := by
  have hcheck : ∀ n < 256, isPlainEntryChar (UInt8.ofNat n) = true →
      isFieldChar (UInt8.ofNat n) = true := by decide +kernel
  have hc := hcheck c.toNat c.toNat_lt
  rw [UInt8.ofNat_toNat] at hc
  exact hc h

theorem fieldText_encodeEntryName (entry : Bytes) : FieldText (encodeEntryName entry) :=
  fun _ hc => isFieldChar_of_plain (isPlainEntryChar_of_mem_encodeEntryName hc)

theorem fieldText_decimal (n : Nat) : FieldText (decimal n) := by
  intro c hc
  have hdigit := isDigit_of_mem_decimal hc
  refine isFieldChar_of_plain ?_
  rw [isPlainEntryChar, isAlnum, hdigit]
  simp

/-- The names and the values of the labels have no control characters. -/
def FieldLabels (labels : LabelMap) : Prop :=
  ∀ label ∈ labels.toList, FieldText label.1 ∧ FieldText label.2

theorem fieldText_formatLabels {labels : LabelMap} (h : FieldLabels labels) :
    FieldText (formatLabels labels) := by
  have hquote : FieldText [quotation] := by decide
  rw [formatLabels_join]
  refine fieldText_join (List.forall_mem_map.2 fun label hlabel => ?_)
  obtain ⟨hname, hvalue⟩ := h label hlabel
  rw [formatLabel_eq, fieldText_append, fieldText_cons]
  refine ⟨hname, by decide, ?_⟩
  unfold formatValue
  split
  · exact fieldText_append.2 ⟨fieldText_cons.2 ⟨by decide, hvalue⟩, hquote⟩
  · exact hvalue

theorem fieldText_buildHeaderValueV2 {record : Record} {type : BatchType}
    (hlabels : FieldLabels record.labels) (hcontent : FieldText record.contentType) :
    FieldText (buildHeaderValueV2 record type) := by
  have hformat := fieldText_formatLabels hlabels
  have hcomma : isFieldChar comma = true := by decide
  cases type with
  | kRemove => exact List.forall_mem_nil _
  | kUpdate =>
    simp only [buildHeaderValueV2]
    split
    · decide
    · exact fieldText_append.2 ⟨by decide, hformat⟩
  | kWrite =>
    have hsize := fieldText_decimal record.size
    simp only [buildHeaderValueV2]
    split <;> simp [fieldText_append, fieldText_cons, hsize, hcomma, hcontent, hformat]

/-! ## Labels that a header sets -/

/-- The labels of a record header, as they stand behind its second comma. -/
def labelsText (value : Bytes) : Option Bytes := (headerFields ((splitFirst comma value).map Prod.snd)).2

/-- Nothing in the header of a record removes a label. -/
def SetsLabels (headers : Headers) : Prop :=
  ∀ header ∈ headers.toList, (parseBatchedHeaderNameV2 header.1).isSome = true →
    ∀ raw ops, labelsText header.2 = some raw → parseLabelDeltaOps raw none = .ok ops →
      ∀ op ∈ ops, op.2.isSome = true

theorem labelsText_update (record : Record) :
    labelsText (buildHeaderValueV2 record .kUpdate) =
      if formatLabels record.labels = [] then none else some (formatLabels record.labels) := by
  simp only [buildHeaderValueV2]
  split
  · rfl
  · have hvalue : bytes "0,," ++ formatLabels record.labels =
        bytes "0" ++ comma :: ([] ++ comma :: formatLabels record.labels) := rfl
    rw [hvalue, labelsText, splitFirst_append (by decide), Option.map_some, headerFields,
      splitFirst_append List.not_mem_nil]

/-! ## The headers of a request -/

section Request

variable {defaultEntry : Bytes} {type : BatchType} {records : List Record} {ist : IndexState}

theorem Indexed.fieldText (h : Indexed defaultEntry records ist)
    (hlength : records.length < 2 ^ 64) (hdistinct : (records.map (recordKey defaultEntry)).Nodup)
    (hrecords : ∀ r ∈ records, FieldLabels r.labels ∧ FieldText r.contentType) :
    ∀ header ∈ (requestHeadersV2 defaultEntry type ist records).toList, FieldText header.2 := by
  rw [h.toList_requestHeadersV2 hlength hdistinct, commonHeadersV2]
  refine List.forall_mem_append.2 ⟨?_, List.forall_mem_map.2 fun r hr => ?_⟩
  · refine List.forall_mem_cons.2 ⟨?_, List.forall_mem_singleton.2 (fieldText_decimal _)⟩
    exact fieldText_join (List.forall_mem_map.2 fun entry _ => fieldText_encodeEntryName entry)
  · exact fieldText_buildHeaderValueV2 (hrecords r hr).1 (hrecords r hr).2

/-- An update of labels that are read back removes none. -/
theorem Indexed.setsLabels (h : Indexed defaultEntry records ist)
    (hlength : records.length < 2 ^ 64) (hdistinct : (records.map (recordKey defaultEntry)).Nodup)
    (hrecords : ∀ r ∈ records, LegibleLabels r.labels) :
    SetsLabels (requestHeadersV2 defaultEntry .kUpdate ist records) := by
  rw [SetsLabels, h.toList_requestHeadersV2 hlength hdistinct, commonHeadersV2]
  refine List.forall_mem_append.2 ⟨?_, List.forall_mem_map.2 fun r hr => ?_⟩
  · simp [parse_kHeaderEntries, parse_kHeaderStartTs]
  · intro _ raw ops hraw hops
    rw [recordHeaderV2_eq, labelsText_update] at hraw
    split at hraw
    · cases hraw
    · cases hraw
      rw [(hrecords r hr).parseLabelDeltaOps_eq] at hops
      cases hops
      exact List.forall_mem_map.2 fun label _ => rfl

end Request

end Reduct
