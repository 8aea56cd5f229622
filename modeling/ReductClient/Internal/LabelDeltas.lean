-- SUMMARY: Labels as they are formatted in a record header, and what they do as a delta to the labels of the record before.
import ReductClient.Internal.BatchV2

open Cxx

namespace Reduct

/-! ## Words -/

/-- A non-empty string of ASCII letters. -/
def IsWord (s : Bytes) : Prop := s ≠ [] ∧ ∀ c ∈ s, isLetter c = true

instance (s : Bytes) : Decidable (IsWord s) :=
  decidable_of_iff ((!s.isEmpty && s.all isLetter) = true) (by simp [IsWord])

section Words

variable {s : Bytes}

theorem IsWord.not_mem (h : IsWord s) {c : UInt8} (hc : isLetter c = false) : c ∉ s := by
  intro hmem
  rw [h.2 c hmem] at hc
  cases hc

theorem IsWord.trim_eq (h : IsWord s) : trim s = s :=
  trim_of_no_blank fun c hc => (isLetter_cases (h.2 c hc)).2.2.1

/-- A word is not taken for a quoted value, and no separator is skipped in it. -/
theorem IsWord.head (h : IsWord s) (rest : Bytes) :
    (s ++ rest).head? ≠ some quotation ∧ (s ++ rest).dropWhile isSpace = s ++ rest := by
  obtain ⟨c, cs, rfl⟩ := List.exists_cons_of_ne_nil h.1
  have hcases := isLetter_cases (h.2 c List.mem_cons_self)
  simp [hcases]

end Words

/-! ## Formatted labels -/

/-- A label as `FormatLabels` writes it. -/
def labelItem (label : Bytes × Bytes) : Bytes := label.1 ++ equalsSign :: label.2

/-- The names and the values of the labels are words. -/
def WordLabels (labels : LabelMap) : Prop :=
  ∀ label ∈ labels.toList, IsWord label.1 ∧ IsWord label.2

theorem formatLabels_eq {labels : LabelMap} (h : WordLabels labels) :
    formatLabels labels = join (labels.toList.map labelItem) := by
  rw [formatLabels]
  refine congrArg join (List.map_congr_left fun label hlabel => ?_)
  have hcomma : comma ∉ label.2 := (h label hlabel).2.not_mem (by decide)
  simp [labelItem, hcomma]

/-! ## Label operations -/

/-- A label operation as a delta writes it. A label to erase has no value. -/
def labelOpItem (op : Bytes × Option Bytes) : Bytes := op.1 ++ equalsSign :: op.2.getD []

/-- The name and the value of a label operation are words. -/
def WordOp (op : Bytes × Option Bytes) : Prop := IsWord op.1 ∧ ∀ value ∈ op.2, IsWord value

/-- What follows an item: nothing, or a comma and the other items. -/
def itemsTail (items : List Bytes) : Bytes := if items = [] then [] else comma :: join items

theorem join_cons (item : Bytes) (items : List Bytes) :
    join (item :: items) = item ++ itemsTail items := by
  cases items with
  | nil => simp [itemsTail, join]
  | cons next items => simp [itemsTail, join, List.intercalate_cons_cons]

theorem itemsTail_head (items : List Bytes) : (itemsTail items).head? ≠ some quotation := by
  unfold itemsTail
  split_ifs
  · simp
  · rw [List.head?_cons]
    decide

/-- A word is not a number, so it names itself. -/
theorem resolveLabelName_word {key : Bytes} (h : IsWord key) (labelNames : Option (List Bytes)) :
    resolveLabelName labelNames key = .ok key := by
  cases labelNames with
  | none => rfl
  | some names =>
    obtain ⟨c, hc⟩ := List.exists_mem_of_ne_nil _ h.1
    have hdigits : ¬ (key ≠ [] ∧ key.all isDigit = true) := fun hall => by
      have hdigit := List.all_eq_true.1 hall.2 c hc
      rw [(isLetter_cases (h.2 c hc)).1] at hdigit
      cases hdigit
    exact if_neg hdigits

/-- However a delta goes on, the text after an equals sign is read as this value. -/
def ReadAs (text : Bytes) (value : Option Bytes) : Prop :=
  ∀ items, labelValue (text ++ itemsTail items) = some (value, itemsTail items)

/-- A value without quotes ends at the next comma. -/
theorem readAs_slice {slice : Bytes} (hcomma : comma ∉ slice)
    (hquote : slice.head? ≠ some quotation) :
    ReadAs slice (if trim slice = [] then none else some (trim slice)) := by
  intro items
  have hhead : (slice ++ itemsTail items).head? ≠ some quotation := by
    cases slice with
    | nil => exact itemsTail_head items
    | cons c cs => exact hquote
  rw [labelValue, if_neg hhead]
  by_cases hitems : items = []
  · simp only [itemsTail, if_pos hitems, List.append_nil, splitFirst_eq_none.2 hcomma]
  · simp only [itemsTail, if_neg hitems, splitFirst_append hcomma]

theorem WordOp.readAs {op : Bytes × Option Bytes} (h : WordOp op) :
    ReadAs (op.2.getD []) op.2 := by
  cases hvalue : op.2 with
  | none =>
    have htrim : trim [] = [] := rfl
    have hslice := @readAs_slice [] (by simp) (by simp)
    rwa [if_pos htrim] at hslice
  | some value =>
    have hword := h.2 value hvalue
    have hhead : value.head? ≠ some quotation := by simpa using (hword.head []).1
    have hslice := readAs_slice (hword.not_mem (by decide)) hhead
    rwa [hword.trim_eq, if_neg hword.1] at hslice

/-- No separator is skipped in an item that starts with its name. -/
def StartsWithName (item : Bytes) : Prop := ∃ c rest, isSpace c = false ∧ item = c :: rest

theorem startsWithName_word {key : Bytes} (h : IsWord key) (rest : Bytes) :
    StartsWithName (key ++ rest) := by
  obtain ⟨c, cs, rfl⟩ := List.exists_cons_of_ne_nil h.1
  exact ⟨c, cs ++ rest, (isLetter_cases (h.2 c List.mem_cons_self)).2.1, rfl⟩

theorem skipSeparator_itemsTail {items : List Bytes} (h : ∀ item ∈ items, StartsWithName item) :
    skipSeparator (itemsTail items) = join items := by
  cases items with
  | nil => decide
  | cons item items =>
    obtain ⟨c, rest, hspace, hitem⟩ := h item List.mem_cons_self
    have htail : itemsTail (item :: items) = comma :: join (item :: items) := rfl
    rw [htail, skipSeparator, List.head?_cons, if_pos rfl, List.drop_succ_cons, List.drop_zero,
      join_cons, hitem, List.cons_append, List.dropWhile_cons_of_neg (by simp [hspace])]

/-- One round of the loop reads one item. -/
theorem labelDeltaLoop_written {labelNames : Option (List Bytes)} {key name text : Bytes}
    {value : Option Bytes} {items : List Bytes} (hequals : equalsSign ∉ key)
    (htrim : trim key = key) (hname : resolveLabelName labelNames key = .ok name)
    (hread : ReadAs text value) (hitems : ∀ item ∈ items, StartsWithName item) (fuel : Nat) :
    labelDeltaLoop labelNames (fuel + 1) (join ((key ++ equalsSign :: text) :: items)) =
      labelDeltaLoop labelNames fuel (join items) >>= fun ops => pure ((name, value) :: ops) := by
  rw [join_cons, List.append_assoc, List.cons_append, labelDeltaLoop, splitFirst_append hequals]
  simp only [htrim, hname, hread items, skipSeparator_itemsTail hitems]
  rfl

theorem labelDeltaLoop_item {key text : Bytes} {value : Option Bytes} {items : List Bytes}
    (hkey : IsWord key) (hread : ReadAs text value) (hitems : ∀ item ∈ items, StartsWithName item)
    (labelNames : Option (List Bytes)) (fuel : Nat) :
    labelDeltaLoop labelNames (fuel + 1) (join ((key ++ equalsSign :: text) :: items)) =
      labelDeltaLoop labelNames fuel (join items) >>= fun ops => pure ((key, value) :: ops) :=
  labelDeltaLoop_written (hkey.not_mem (by decide)) hkey.trim_eq (resolveLabelName_word hkey _)
    hread hitems fuel

/-- A label delta is read operation by operation. -/
theorem labelDeltaLoop_ops {ops : List (Bytes × Option Bytes)} (h : ∀ op ∈ ops, WordOp op)
    (labelNames : Option (List Bytes)) (fuel : Nat) (hfuel : ops.length ≤ fuel) :
    labelDeltaLoop labelNames fuel (join (ops.map labelOpItem)) = .ok ops := by
  induction ops generalizing fuel with
  | nil => cases fuel <;> rfl
  | cons op ops ih =>
    obtain ⟨fuel, rfl⟩ : ∃ n, fuel = n + 1 := ⟨fuel - 1, by simp at hfuel; omega⟩
    have hop := h op List.mem_cons_self
    have hrest := fun o ho => h o (List.mem_cons_of_mem op ho)
    have hnames : ∀ item ∈ ops.map labelOpItem, StartsWithName item :=
      List.forall_mem_map.2 fun o ho => startsWithName_word (hrest o ho).1 _
    have ih := ih hrest fuel (by simpa using hfuel)
    rw [List.map_cons, labelOpItem, labelDeltaLoop_item hop.1 hop.readAs hnames, ih]
    rfl

/-- A text is as long as its items are many, if none of them is empty. -/
theorem length_le_join {items : List Bytes} (h : ∀ item ∈ items, item ≠ []) :
    items.length ≤ (join items).length := by
  induction items with
  | nil => simp
  | cons item items ih =>
    have hitem := List.length_pos_iff.2 (h item List.mem_cons_self)
    have ih := ih fun i hi => h i (List.mem_cons_of_mem item hi)
    rw [join_cons, List.length_append, List.length_cons]
    unfold itemsTail
    split_ifs with hnil
    · simp only [hnil, List.length_nil]
      omega
    · rw [List.length_cons]
      omega

theorem length_le_join_ops (ops : List (Bytes × Option Bytes)) :
    ops.length ≤ (join (ops.map labelOpItem)).length := by
  have hle := @length_le_join (ops.map labelOpItem) (List.forall_mem_map.2 fun op _ => by
    simp [labelOpItem])
  rwa [List.length_map] at hle

/-- The operations of a delta are applied one after the other. -/
theorem applyLabelDelta_ops {ops : List (Bytes × Option Bytes)} (h : ∀ op ∈ ops, WordOp op)
    (base : LabelMap) (labelNames : Option (List Bytes)) :
    applyLabelDelta (join (ops.map labelOpItem)) base labelNames =
      .ok (ops.foldl applyLabelOp base) := by
  rw [applyLabelDelta, parseLabelDeltaOps, labelDeltaLoop_ops h _ _ (length_le_join_ops ops)]
  rfl

/-! ## What operations mean -/

/-- A label name in a delta: it stands for itself, or its number among the names of the response
stands for it. -/
inductive WrittenKey (labelNames : Option (List Bytes)) : Bytes → Bytes → Prop where
  | name {key : Bytes} (hstart : StartsWithName key) (hequals : equalsSign ∉ key)
      (htrim : trim key = key) (hnumber : key.all isDigit = false) :
      WrittenKey labelNames key key
  | number {names : List Bytes} {idx : Nat} {name : Bytes} (hnames : labelNames = some names)
      (hname : names[idx]? = some name) (hlt : idx < 2 ^ 64) :
      WrittenKey labelNames (decimal idx) name

/-- A value in a delta: it stands as it is or in quotes, and a label to remove has none. -/
inductive WrittenValue : Bytes → Option Bytes → Prop where
  | plain {value : Bytes} (hne : value ≠ []) (hcomma : comma ∉ value)
      (hquote : value.head? ≠ some quotation) (htrim : trim value = value) :
      WrittenValue value (some value)
  | quoted {value : Bytes} (hquote : quotation ∉ value) :
      WrittenValue (quotation :: value ++ [quotation]) (some value)
  | removal : WrittenValue [] none

/-- An item of a delta writes an operation. -/
def WrittenOp (labelNames : Option (List Bytes)) (item : Bytes) (op : Bytes × Option Bytes) :
    Prop :=
  ∃ key text, item = key ++ equalsSign :: text ∧ WrittenKey labelNames key op.1 ∧
    WrittenValue text op.2

section Written

variable {labelNames : Option (List Bytes)}

theorem WrittenValue.readAs {text : Bytes} {value : Option Bytes} (h : WrittenValue text value) :
    ReadAs text value := by
  cases h with
  | @plain value hne hcomma hquote htrim =>
    have hslice := readAs_slice hcomma hquote
    rwa [htrim, if_neg hne] at hslice
  | @quoted value hquote =>
    intro items
    simp [labelValue, splitFirst_append hquote]
  | removal =>
    have hslice := @readAs_slice [] (by simp) (by simp)
    rwa [show trim [] = [] from rfl, if_pos rfl] at hslice

theorem WrittenKey.resolves {key name : Bytes} (h : WrittenKey labelNames key name) :
    StartsWithName key ∧ equalsSign ∉ key ∧ trim key = key ∧
      resolveLabelName labelNames key = .ok name := by
  cases h with
  | name hstart hequals htrim hnumber =>
    refine ⟨hstart, hequals, htrim, ?_⟩
    cases labelNames with
    | none => rfl
    | some names =>
      rw [resolveLabelName, if_neg (by simp [hnumber])]
      rfl
  | @number names idx name hnames hname hlt =>
    have hdigits : ∀ c ∈ decimal idx, isDigit c = true := fun c => isDigit_of_mem_decimal
    obtain ⟨c, cs, hcons⟩ := List.exists_cons_of_ne_nil (decimal_ne_nil idx)
    refine ⟨⟨c, cs, ?_, hcons⟩, ?_, ?_, ?_⟩
    · exact (isDigit_cases (hdigits c (hcons ▸ List.mem_cons_self))).2.1
    · exact fun hmem => (isDigit_cases (hdigits _ hmem)).2.2.2.2.2 rfl
    · exact trim_of_no_blank fun c hc => (isDigit_cases (hdigits c hc)).2.2.1
    · rw [hnames, resolveLabelName, if_pos ⟨decimal_ne_nil idx, List.all_eq_true.2 hdigits⟩, stoul,
        stoull_decimal_nil hlt]
      simp [bind, Except.bind, hname, pure, Except.pure]

theorem startsWithName_written {items : List Bytes} {ops : List (Bytes × Option Bytes)}
    (h : List.Forall₂ (WrittenOp labelNames) items ops) : ∀ item ∈ items, StartsWithName item := by
  induction h with
  | nil => simp
  | cons hop _ ih =>
    refine List.forall_mem_cons.2 ⟨?_, ih⟩
    obtain ⟨key, text, rfl, hkey, -⟩ := hop
    obtain ⟨c, rest, hspace, hcons⟩ := hkey.resolves.1
    exact ⟨c, rest ++ equalsSign :: text, hspace, by rw [hcons, List.cons_append]⟩

/-- A delta that is written item by item is read operation by operation. -/
theorem parseLabelDeltaOps_written {items : List Bytes} {ops : List (Bytes × Option Bytes)}
    (h : List.Forall₂ (WrittenOp labelNames) items ops) :
    parseLabelDeltaOps (join items) labelNames = .ok ops := by
  have hloop : ∀ fuel, items.length ≤ fuel →
      labelDeltaLoop labelNames fuel (join items) = .ok ops := by
    induction h with
    | nil =>
      intro fuel _
      cases fuel <;> rfl
    | @cons item op items ops hop hrest ih =>
      intro fuel hfuel
      obtain ⟨fuel, rfl⟩ : ∃ n, fuel = n + 1 := ⟨fuel - 1, by simp at hfuel; omega⟩
      obtain ⟨key, text, rfl, hkey, hvalue⟩ := hop
      obtain ⟨-, hequals, htrim, hname⟩ := hkey.resolves
      rw [labelDeltaLoop_written hequals htrim hname hvalue.readAs (startsWithName_written hrest),
        ih fuel (by simpa using hfuel)]
      rfl
  refine hloop _ (length_le_join fun item hitem => ?_)
  obtain ⟨c, rest, -, hcons⟩ := startsWithName_written h item hitem
  rw [hcons]
  exact List.cons_ne_nil _ _

end Written

/-! ## Deltas -/

/-- Setting the labels of a map one after the other puts them on top. -/
theorem foldl_applyLabelOp (base labels : LabelMap) :
    (labels.toList.map fun label => (label.1, some label.2)).foldl applyLabelOp base =
      base ∪ labels := by
  rw [← OrderedMap.insertMany_toList, List.foldl_map, Std.ExtTreeMap.insertMany_list_eq_foldl]
  rfl

/-- The labels that are on top are all there is if they have all the names. -/
theorem union_eq_right_iff (base labels : LabelMap) :
    base ∪ labels = labels ↔ ∀ name ∈ base, name ∈ labels := by
  constructor
  · intro heq name hname
    rw [← heq]
    exact Std.ExtTreeMap.mem_union_iff.2 (.inl hname)
  · intro hnames
    apply Std.ExtTreeMap.ext_getElem?
    intro name
    by_cases hmem : name ∈ base
    · have hlabel := hnames name hmem
      rw [Std.ExtTreeMap.getElem?_union, Std.ExtTreeMap.getElem?_eq_some_getElem hlabel]
      rfl
    · exact Std.ExtTreeMap.getElem?_union_of_not_mem_left hmem

end Reduct
