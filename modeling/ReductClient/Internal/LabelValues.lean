-- SUMMARY: Label values in v1 record headers: which of them `parse_csv` reads back as `FormatLabels` wrote them.
import ReductClient.Internal.LabelDeltas
import ReductClient.Internal.RecordValuesV1

open Cxx

namespace Reduct

/-! ## Formatted labels -/

/-- A label as `FormatLabels` writes it, with quotes if its value has a comma. -/
def formatLabel (label : Bytes × Bytes) : Bytes :=
  label.1 ++ equalsSign ::
    (if comma ∈ label.2 then quotation :: label.2 ++ [quotation] else label.2)

theorem formatLabels_join (labels : LabelMap) :
    formatLabels labels = join (labels.toList.map formatLabel) := rfl

theorem formatLabel_plain {label : Bytes × Bytes} (h : comma ∉ label.2) :
    formatLabel label = labelItem label := by
  rw [formatLabel, if_neg h, labelItem]

/-! ## Fields between commas -/

/-- The fields of joined items are those of the items. -/
theorem mem_splitOn_join {items : List Bytes} {field : Bytes} (hne : items ≠ [])
    (h : field ∈ (join items).splitOn comma) : ∃ item ∈ items, field ∈ item.splitOn comma := by
  induction items with
  | nil => exact absurd rfl hne
  | cons item items ih =>
    rw [join_cons] at h
    by_cases hitems : items = []
    · rw [itemsTail, if_pos hitems, List.append_nil] at h
      exact ⟨item, List.mem_cons_self, h⟩
    · rw [itemsTail, if_neg hitems, List.splitOn_append_cons_self, List.mem_append] at h
      rcases h with h | h
      · exact ⟨item, List.mem_cons_self, h⟩
      · obtain ⟨item', hitem', hfield⟩ := ih hitems h
        exact ⟨item', List.mem_cons_of_mem item hitem', hfield⟩

/-- A field of a text that ends in a quote and has no other one starts with it only
if it is the quote. -/
theorem field_of_closing_quote {s field : Bytes} (h : quotation ∉ s)
    (hfield : field ∈ (s ++ [quotation]).splitOn comma) :
    field.head? = some quotation → field = [quotation] := by
  induction s generalizing field with
  | nil =>
    rw [List.nil_append, List.splitOn_eq_singleton (by decide), List.mem_singleton] at hfield
    intro _
    exact hfield
  | cons c s ih =>
    simp only [List.mem_cons, not_or] at h
    rw [List.cons_append, List.splitOn_cons_eq_if_modifyHead] at hfield
    split at hfield
    · rcases List.mem_cons.1 hfield with rfl | hfield
      · simp
      · exact ih h.2 hfield
    · -- the character belongs to the first field of the rest
      obtain ⟨first, fields, hfields⟩ :=
        List.exists_cons_of_ne_nil (List.splitOn_ne_nil comma (s ++ [quotation]))
      rw [hfields, List.modifyHead_cons, List.mem_cons] at hfield
      rcases hfield with rfl | hfield
      · intro hhead
        exact absurd (Option.some.inj hhead).symm h.1
      · exact ih h.2 (hfields ▸ List.mem_cons_of_mem first hfield)

/-- So it is with the fields of a label. -/
theorem field_of_formatLabel {label : Bytes × Bytes} (hkey : IsWord label.1)
    (hvalue : quotation ∉ label.2) {field : Bytes}
    (hfield : field ∈ (formatLabel label).splitOn comma) :
    field.head? = some quotation → field = [quotation] := by
  have hcomma : comma ∉ label.1 := hkey.not_mem (by decide)
  have hequals : comma ≠ equalsSign := by decide
  have hquote : comma ≠ quotation := by decide
  have hname : ∀ rest, (label.1 ++ rest).head? ≠ some quotation := fun rest => (hkey.head rest).1
  by_cases hvalueComma : comma ∈ label.2
  · obtain ⟨first, rest, hsplit⟩ := exists_splitFirst hvalueComma
    obtain ⟨heq, hfirst⟩ := splitFirst_eq_some.1 hsplit
    have hrest : quotation ∉ rest := fun h => hvalue (by simp [heq, h])
    have hformat : formatLabel label =
        (label.1 ++ equalsSign :: quotation :: first) ++ comma :: (rest ++ [quotation]) := by
      rw [formatLabel, if_pos hvalueComma]
      simp [heq]
    rw [hformat, List.splitOn_append_cons_self_of_not_mem
      (by simp [hcomma, hequals, hquote, hfirst]), List.mem_cons] at hfield
    rcases hfield with rfl | hfield
    · intro hhead
      exact absurd hhead (hname _)
    · exact field_of_closing_quote hrest hfield
  · rw [formatLabel_plain hvalueComma, labelItem,
      List.splitOn_eq_singleton (by simp [hcomma, hequals, hvalueComma]), List.mem_singleton] at hfield
    intro hhead
    rw [hfield] at hhead
    exact absurd hhead (hname _)

/-! ## Labels of a field list -/

/-- A label that is read is written in one of the fields. -/
theorem mem_of_csvLabels {fields : List Bytes} {name value : Bytes}
    (h : (csvLabels fields)[name]? = some value) :
    ∃ field ∈ fields, splitFirst equalsSign field = some (name, value) := by
  induction fields using List.reverseRecOn with
  | nil => simp [csvLabels] at h
  | append_singleton fields field ih =>
    rw [csvLabels, List.foldl_append, List.foldl_cons, List.foldl_nil] at h
    have hprevious : (csvLabels fields)[name]? = some value →
        ∃ field' ∈ fields ++ [field], splitFirst equalsSign field' = some (name, value) := by
      intro h
      obtain ⟨field', hmem, hsplit⟩ := ih h
      exact ⟨field', List.mem_append_left _ hmem, hsplit⟩
    cases hsplit : splitFirst equalsSign field with
    | none =>
      rw [hsplit] at h
      exact hprevious h
    | some label =>
      rw [hsplit, Std.ExtTreeMap.getElem?_insert] at h
      split at h
      · rename_i heq
        have hname : label.1 = name := Std.LawfulEqCmp.compare_eq_iff_eq.1 heq
        refine ⟨field, List.mem_append_right _ (List.mem_singleton_self field), ?_⟩
        rw [hsplit, ← hname, ← Option.some.inj h]
      · exact hprevious h

/-- Fields that are labels set them. -/
theorem csvLabels_labelItems {labels : LabelMap} (h : ∀ label ∈ labels.toList, IsWord label.1) :
    csvLabels (labels.toList.map labelItem) = labels := by
  have hset := foldl_applyLabelOp ∅ labels
  rw [(union_eq_right_iff ∅ labels).2 (by simp), List.foldl_map] at hset
  rw [csvLabels, List.foldl_map]
  refine Eq.trans (List.foldl_ext _ _ _ fun base label hlabel => ?_) hset
  rw [labelItem, splitFirst_append ((h label hlabel).not_mem (by decide))]
  rfl

/-! ## The record header -/

/-- Labels whose names are words, and whose values are not empty and have no quotes. -/
def UnquotedLabels (labels : LabelMap) : Prop :=
  ∀ label ∈ labels.toList, IsWord label.1 ∧ label.2 ≠ [] ∧ quotation ∉ label.2

/-- A content type is made of letters, slashes and dashes. -/
def IsContentType (s : Bytes) : Prop :=
  s ≠ [] ∧ ∀ c ∈ s, isLetter c = true ∨ c = 0x2F ∨ c = dash

theorem IsContentType.not_mem {s : Bytes} (h : IsContentType s) {c : UInt8}
    (hletter : isLetter c = false) (hslash : c ≠ 0x2F) (hdash : c ≠ dash) : c ∉ s := by
  intro hc
  rcases h.2 c hc with hc | hc | hc
  · rw [hletter] at hc
    cases hc
  · exact hslash hc
  · exact hdash hc

/-- The fields between the commas become the labels, whether there are quotes or not. -/
theorem parseCsv_recordHeaderV1 {record : Record} (htype : IsContentType record.contentType)
    (hlabels : UnquotedLabels record.labels) :
    parseCsv (recordHeaderV1 record .kWrite).2 =
      if record.size < 2 ^ 63 then
        .ok (record.size, record.contentType,
          csvLabels (getlines comma (formatLabels record.labels)))
      else .error .outOfRange := by
  have htypeComma : comma ∉ record.contentType :=
    htype.not_mem (by decide) (by decide) (by decide)
  have hfields : getlines comma (recordHeaderV1 record .kWrite).2 =
      decimal record.size :: record.contentType ::
        getlines comma (formatLabels record.labels) := by
    have hvalue : (recordHeaderV1 record .kWrite).2 = decimal record.size ++
        comma :: (record.contentType ++ comma :: formatLabels record.labels) := by
      simp [recordHeaderV1]
    rw [hvalue, getlines_cons (decimal_no_comma _), getlines_cons htypeComma]
  have hplain : ∀ field ∈ getlines comma (recordHeaderV1 record .kWrite).2,
      field.head? = some quotation → field = [quotation] := by
    rw [hfields]
    simp only [List.forall_mem_cons]
    refine ⟨fun hhead => ?_, fun hhead => ?_, fun field hfield => ?_⟩
    · exact absurd (isDigit_of_mem_decimal (List.mem_of_head? hhead)) (by decide)
    · exact absurd (List.mem_of_head? hhead) (htype.not_mem (by decide) (by decide) (by decide))
    · by_cases hnil : record.labels.toList = []
      · have hnone : getlines comma (join []) = [] := by decide
        rw [formatLabels_join, hnil, List.map_nil, hnone] at hfield
        cases hfield
      · obtain ⟨item, hitem, hmem⟩ := mem_splitOn_join (by simpa using hnil)
          (mem_splitOn_of_mem_getlines hfield)
        obtain ⟨label, hlabel, rfl⟩ := List.mem_map.1 hitem
        exact field_of_formatLabel (hlabels label hlabel).1 (hlabels label hlabel).2.2 hmem
  have hfold := foldl_csvField hplain []
  rw [List.nil_append, hfields] at hfold
  simp only [parseCsv, hfields, hfold, stoll_decimal]
  split <;> rfl

/-- The header of a written record is read back if and only if its size is less than
2^63 and no label value has a comma. -/
theorem recordHeaderV1_roundTrip (record : Record) (htype : IsContentType record.contentType)
    (hlabels : UnquotedLabels record.labels) :
    parseCsv (recordHeaderV1 record .kWrite).2 =
        .ok (record.size, record.contentType, record.labels) ↔
      record.size < 2 ^ 63 ∧ ∀ label ∈ record.labels.toList, comma ∉ label.2 := by
  rw [parseCsv_recordHeaderV1 htype hlabels]
  constructor
  · intro h
    split at h
    · rename_i hsize
      refine ⟨hsize, fun label hlabel hcomma => ?_⟩
      simp only [Except.ok.injEq, Prod.mk.injEq, true_and] at h
      have hget : (csvLabels (getlines comma (formatLabels record.labels)))[label.1]? =
          some label.2 := by
        rw [h]
        exact Std.ExtTreeMap.mem_toList_iff_getElem?_eq_some.1 hlabel
      -- the value is a part of one field, which has no comma
      obtain ⟨field, hfield, hsplit⟩ := mem_of_csvLabels hget
      have hmem : comma ∈ field := by
        rw [(splitFirst_eq_some.1 hsplit).1]
        simp [hcomma]
      exact not_mem_of_mem_splitOn (mem_splitOn_of_mem_getlines hfield) hmem
    · cases h
  · rintro ⟨hsize, hcomma⟩
    have hitems : formatLabels record.labels = join (record.labels.toList.map labelItem) := by
      rw [formatLabels_join]
      exact congrArg join (List.map_congr_left fun label hlabel => formatLabel_plain (hcomma label hlabel))
    have hfields : getlines comma (formatLabels record.labels) =
        record.labels.toList.map labelItem := by
      rw [hitems]
      refine getlines_join (List.forall_mem_map.2 fun label hlabel => ?_)
        (List.forall_mem_map.2 fun label _ => by simp [labelItem])
      have hname : comma ∉ label.1 := (hlabels label hlabel).1.not_mem (by decide)
      have hequals : comma ≠ equalsSign := by decide
      simp [labelItem, hname, hequals, hcomma label hlabel]
    rw [if_pos hsize, hfields, csvLabels_labelItems fun label hlabel => (hlabels label hlabel).1]

/-- A record with the label `a=x` of a plain value. -/
def labelledRecord (value : Bytes) : Record where
  entry := []
  timestamp := .wrap 0
  size := 3
  contentType := bytes "text/plain"
  labels := (∅ : LabelMap).insert (bytes "a") value
  dataIndex := none

theorem recordHeaderV1_plain :
    parseCsv (recordHeaderV1 (labelledRecord (bytes "x=1")) .kWrite).2 =
      .ok (3, bytes "text/plain", (labelledRecord (bytes "x=1")).labels) :=
  (recordHeaderV1_roundTrip (labelledRecord (bytes "x=1"))
    (by unfold IsContentType; decide +kernel) (by unfold UnquotedLabels; decide)).2 (by decide)

/-- A value with a comma is cut there, with the quote left in it. -/
theorem recordHeaderV1_comma :
    IsContentType (labelledRecord (bytes "x,y")).contentType ∧
    UnquotedLabels (labelledRecord (bytes "x,y")).labels ∧
    parseCsv (recordHeaderV1 (labelledRecord (bytes "x,y")) .kWrite).2 =
      .ok (3, bytes "text/plain", (∅ : LabelMap).insert (bytes "a") (bytes "\"x")) ∧
    parseCsv (recordHeaderV1 (labelledRecord (bytes "x,y")) .kWrite).2 ≠
      .ok (3, bytes "text/plain", (labelledRecord (bytes "x,y")).labels) := by
  have htype : IsContentType (labelledRecord (bytes "x,y")).contentType := by
    unfold IsContentType
    decide +kernel
  have hlabels : UnquotedLabels (labelledRecord (bytes "x,y")).labels := by
    unfold UnquotedLabels
    decide
  have hparse := parseCsv_recordHeaderV1 htype hlabels
  have hread : csvLabels (getlines comma (formatLabels (labelledRecord (bytes "x,y")).labels)) =
      (∅ : LabelMap).insert (bytes "a") (bytes "\"x") := by
    rw [← Std.ExtTreeMap.toList_inj]
    decide
  rw [if_pos (by decide), hread] at hparse
  refine ⟨htype, hlabels, hparse, ?_⟩
  rw [hparse]
  intro h
  simp only [Except.ok.injEq, Prod.mk.injEq] at h
  have hlist := congrArg Std.ExtTreeMap.toList h.2.2
  exact absurd hlist (by decide)

end Reduct
