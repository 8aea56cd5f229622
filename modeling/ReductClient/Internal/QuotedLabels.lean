-- SUMMARY: Label values in v2 record headers: which of them `ApplyLabelDelta` reads back as `FormatLabels` wrote them.
import Mathlib.Algebra.Order.BigOperators.Group.List
import ReductClient.Internal.LabelValues

open Cxx

namespace Reduct

/-! ## Values that are read as they were written -/

/-- A value that is not taken for another one: it has no quotes if it has to be
quoted, and does not start with one otherwise. -/
def Unambiguous (value : Bytes) : Prop :=
  if comma ∈ value then quotation ∉ value else value.head? ≠ some quotation

instance (value : Bytes) : Decidable (Unambiguous value) :=
  inferInstanceAs (Decidable (if comma ∈ value then _ else _))

/-- A label as an operation. -/
def setLabel (label : Bytes × Bytes) : Bytes × Option Bytes := (label.1, some label.2)

theorem setLabel_injective : Function.Injective setLabel := by
  intro label label' h
  simp only [setLabel, Prod.mk.injEq, Option.some.injEq] at h
  exact Prod.ext h.1 h.2

/-- A value as `FormatLabels` writes it. -/
def formatValue (value : Bytes) : Bytes :=
  if comma ∈ value then quotation :: value ++ [quotation] else value

theorem formatLabel_eq (label : Bytes × Bytes) :
    formatLabel label = label.1 ++ equalsSign :: formatValue label.2 := rfl

/-- Behind a quote the value goes on to the next one. -/
theorem labelValue_quoted (raw : Bytes) :
    labelValue (quotation :: raw) =
      (splitFirst quotation raw).map fun (value, rest) => (some value, rest) := by
  simp [labelValue]

/-- A value that is read back as `FormatLabels` writes it: in quotes if it has a comma. -/
def LegibleValue (value : Bytes) : Prop :=
  if comma ∈ value then quotation ∉ value
  else value ≠ [] ∧ value.head? ≠ some quotation ∧ trim value = value

instance (value : Bytes) : Decidable (LegibleValue value) :=
  inferInstanceAs (Decidable (if comma ∈ value then _ else _))

theorem LegibleValue.written {value : Bytes} (h : LegibleValue value) :
    WrittenValue (formatValue value) (some value) := by
  unfold LegibleValue at h
  unfold formatValue
  split_ifs at h ⊢ with hcomma
  · exact .quoted h
  · exact .plain h.1 hcomma h.2.1 h.2.2

theorem legibleValue_of_trim {value : Bytes} (hne : value ≠ []) (htrim : trim value = value)
    (h : Unambiguous value) : LegibleValue value := by
  unfold Unambiguous at h
  unfold LegibleValue
  split_ifs at h ⊢
  · exact h
  · exact ⟨hne, h, htrim⟩

theorem readAs_formatValue {value : Bytes} (hne : value ≠ []) (htrim : trim value = value)
    (h : Unambiguous value) : ReadAs (formatValue value) (some value) :=
  (legibleValue_of_trim hne htrim h).written.readAs

/-- Labels whose values are read back, and whose names are neither numbers nor have
characters that end them. -/
def LegibleLabels (labels : LabelMap) : Prop :=
  ∀ label ∈ labels.toList, WrittenKey none label.1 label.1 ∧ LegibleValue label.2

theorem writtenKey_word {key : Bytes} (h : IsWord key) : WrittenKey none key key := by
  obtain ⟨c, cs, rfl⟩ := List.exists_cons_of_ne_nil h.1
  have hc := isLetter_cases (h.2 c List.mem_cons_self)
  refine .name ⟨c, cs, hc.2.1, rfl⟩ (h.not_mem (by decide)) h.trim_eq ?_
  rw [List.all_cons, hc.1, Bool.false_and]

theorem legibleLabels_words {labels : LabelMap} (h : WordLabels labels) : LegibleLabels labels := by
  intro label hlabel
  obtain ⟨hname, hvalue⟩ := h label hlabel
  refine ⟨writtenKey_word hname, legibleValue_of_trim hvalue.1 hvalue.trim_eq ?_⟩
  rw [Unambiguous, if_neg (hvalue.not_mem (by decide))]
  simpa using (hvalue.head []).1

/-- They are read as the operations that set them. -/
theorem LegibleLabels.parseLabelDeltaOps_eq {labels : LabelMap} (h : LegibleLabels labels) :
    parseLabelDeltaOps (formatLabels labels) none = .ok (labels.toList.map setLabel) := by
  rw [formatLabels_join]
  refine parseLabelDeltaOps_written (List.forall₂_map_left_iff.2 (List.forall₂_map_right_iff.2
    (List.forall₂_same.2 fun label hlabel => ?_)))
  exact ⟨label.1, formatValue label.2, rfl, (h label hlabel).1, (h label hlabel).2.written⟩

/-- They are put on top of those of the record before. -/
theorem LegibleLabels.applyLabelDelta_eq {labels : LabelMap} (h : LegibleLabels labels)
    (base : LabelMap) : applyLabelDelta (formatLabels labels) base none = .ok (base ∪ labels) := by
  rw [applyLabelDelta, h.parseLabelDeltaOps_eq, Fallible.ok_bind]
  exact congrArg Except.ok (foldl_applyLabelOp base labels)

/-- A value that is ambiguous starts with a quote when it is read, and is then read
without its quotes. -/
theorem labelValue_ambiguous {value : Bytes} (h : ¬ Unambiguous value) {tail rest : Bytes}
    {read : Option Bytes} (hread : labelValue (formatValue value ++ tail) = some (read, rest)) :
    ∃ x, read = some x ∧ x ≠ value := by
  have hquote : quotation ∈ value ∧ ∃ raw, formatValue value ++ tail = quotation :: raw := by
    unfold Unambiguous at h
    unfold formatValue
    split_ifs at h ⊢ with hcomma
    · exact ⟨not_not.1 h, _, rfl⟩
    · obtain ⟨cs, rfl⟩ := List.head?_eq_some_iff.1 (not_not.1 h)
      exact ⟨List.mem_cons_self, _, rfl⟩
  obtain ⟨hmem, raw, hraw⟩ := hquote
  rw [hraw, labelValue_quoted, Option.map_eq_some_iff] at hread
  obtain ⟨⟨x, rest'⟩, hsplit, heq⟩ := hread
  cases heq
  refine ⟨x, rfl, ?_⟩
  rintro rfl
  exact (splitFirst_eq_some.1 hsplit).2 hmem

/-! ## What the parser makes of the labels in turn -/

/-- Names are words, and values are not empty and have no blanks at their ends. -/
def TrimmedLabels (labels : List (Bytes × Bytes)) : Prop :=
  ∀ label ∈ labels, IsWord label.1 ∧ label.2 ≠ [] ∧ trim label.2 = label.2

theorem startsWithName_formatLabel {labels : List (Bytes × Bytes)} (h : TrimmedLabels labels) :
    ∀ item ∈ labels.map formatLabel, StartsWithName item :=
  List.forall_mem_map.2 fun label hlabel => startsWithName_word (h label hlabel).1 _

theorem formatLabel_ne_nil (labels : List (Bytes × Bytes)) :
    ∀ item ∈ labels.map formatLabel, item ≠ [] :=
  List.forall_mem_map.2 fun label _ => by simp [formatLabel]

/-- Unambiguous labels are read one by one. -/
theorem labelDeltaLoop_formatLabel {labels others : List (Bytes × Bytes)}
    (h : TrimmedLabels (labels ++ others)) (hvalues : ∀ label ∈ labels, Unambiguous label.2)
    (fuel : Nat) :
    labelDeltaLoop none (labels.length + fuel) (join ((labels ++ others).map formatLabel)) =
      labelDeltaLoop none fuel (join (others.map formatLabel)) >>= fun ops =>
        pure (labels.map setLabel ++ ops) := by
  induction labels with
  | nil =>
    rw [List.length_nil, Nat.zero_add, List.nil_append]
    cases labelDeltaLoop none fuel (join (others.map formatLabel)) <;> rfl
  | cons label labels ih =>
    have hrest : TrimmedLabels (labels ++ others) := fun l hl => h l (List.mem_cons_of_mem label hl)
    obtain ⟨hname, hne, htrim⟩ := h label List.mem_cons_self
    have hread := readAs_formatValue hne htrim (hvalues label List.mem_cons_self)
    have hfuel : (label :: labels).length + fuel = labels.length + fuel + 1 := by
      rw [List.length_cons]
      omega
    rw [hfuel, List.cons_append, List.map_cons, formatLabel_eq,
      labelDeltaLoop_item hname hread (startsWithName_formatLabel hrest),
      ih hrest fun l hl => hvalues l (List.mem_cons_of_mem label hl), bind_assoc]
    rfl

/-- At an ambiguous label the loop ends, or reads another value for its name. -/
theorem labelDeltaLoop_ambiguous {label : Bytes × Bytes} {others : List (Bytes × Bytes)}
    (hname : IsWord label.1) (h : ¬ Unambiguous label.2) {fuel : Nat}
    {ops : List (Bytes × Option Bytes)}
    (hloop : labelDeltaLoop none fuel (join ((label :: others).map formatLabel)) = .ok ops) :
    ops = [] ∨ ∃ x, x ≠ label.2 ∧ (label.1, some x) ∈ ops := by
  cases fuel with
  | zero =>
    cases hloop
    exact .inl rfl
  | succ fuel =>
    have hequals : equalsSign ∉ label.1 := hname.not_mem (by decide)
    rw [List.map_cons, join_cons, formatLabel_eq, List.append_assoc, List.cons_append,
      labelDeltaLoop, splitFirst_append hequals] at hloop
    simp only [hname.trim_eq, resolveLabelName_word hname, Fallible.ok_bind] at hloop
    split at hloop
    · cases hloop
      exact .inl rfl
    · rename_i read rest hread
      obtain ⟨ops', -, hops⟩ := Fallible.bind_eq_ok.1 hloop
      cases hops
      obtain ⟨x, rfl, hne⟩ := labelValue_ambiguous h hread
      exact .inr ⟨x, hne, List.mem_cons_self⟩

/-! ## Counting equals signs

Each operation uses up an equals sign of its own, besides those in its value. So
the parser finds no more operations than labels were written, as long as it finds
all of these. -/

/-- The equals signs an operation uses up. -/
def LabelOp.weight (op : Bytes × Option Bytes) : Nat := 1 + (op.2.getD []).count equalsSign

theorem count_labelValue {raw rest : Bytes} {value : Option Bytes}
    (h : labelValue raw = some (value, rest)) :
    (value.getD []).count equalsSign + rest.count equalsSign ≤ raw.count equalsSign := by
  unfold labelValue at h
  split at h
  · rename_i hquote
    obtain ⟨cs, rfl⟩ := List.head?_eq_some_iff.1 hquote
    rw [List.drop_succ_cons, List.drop_zero, Option.map_eq_some_iff] at h
    obtain ⟨⟨x, rest'⟩, hsplit, heq⟩ := h
    cases heq
    rw [(splitFirst_eq_some.1 hsplit).1]
    simp only [Option.getD_some, List.count_cons, List.count_append]
    omega
  · have hvalue : ∀ slice : Bytes,
        ((if trim slice = [] then none else some (trim slice)).getD []).count equalsSign ≤
          slice.count equalsSign := by
      intro slice
      have hle := (trim_sublist slice).count_le equalsSign
      split_ifs
      · simp
      · exact hle
    cases hsplit : splitFirst comma raw with
    | none =>
      rw [hsplit] at h
      cases h
      simpa using hvalue raw
    | some pair =>
      rw [hsplit] at h
      cases h
      have heq := (splitFirst_eq_some.1 hsplit).1
      have hle := hvalue pair.1
      have hcount := congrArg (List.count equalsSign) heq
      rw [List.count_append] at hcount
      omega

theorem count_skipSeparator_le (raw : Bytes) :
    (skipSeparator raw).count equalsSign ≤ raw.count equalsSign := by
  have hdrop : (if raw.head? = some comma then raw.drop 1 else raw).Sublist raw := by
    split_ifs
    · exact List.drop_sublist 1 raw
    · exact List.Sublist.refl raw
  exact ((List.dropWhile_sublist isSpace).trans hdrop).count_le equalsSign

theorem weight_labelDeltaLoop {labelNames : Option (List Bytes)} {fuel : Nat} {raw : Bytes}
    {ops : List (Bytes × Option Bytes)} (h : labelDeltaLoop labelNames fuel raw = .ok ops) :
    (ops.map LabelOp.weight).sum ≤ raw.count equalsSign := by
  induction fuel generalizing raw ops with
  | zero =>
    cases h
    exact Nat.zero_le _
  | succ fuel ih =>
    rw [labelDeltaLoop] at h
    split at h
    · cases h
      exact Nat.zero_le _
    · rename_i rawKey rest hsplit
      obtain ⟨rfl, hkey⟩ := splitFirst_eq_some.1 hsplit
      obtain ⟨key, -, h⟩ := Fallible.bind_eq_ok.1 h
      split at h
      · cases h
        exact Nat.zero_le _
      · rename_i value rest' hvalue
        obtain ⟨ops', hops', h⟩ := Fallible.bind_eq_ok.1 h
        cases h
        have hrest := ih hops'
        have hskip := count_skipSeparator_le rest'
        have hcount := count_labelValue hvalue
        rw [List.map_cons, List.sum_cons, LabelOp.weight, List.count_append, List.count_cons_self]
        dsimp only
        omega

theorem count_join {c : UInt8} (hc : c ≠ comma) (items : List Bytes) :
    (join items).count c = (items.map (List.count c)).sum := by
  induction items with
  | nil => rfl
  | cons item items ih =>
    rw [join_cons, List.count_append, List.map_cons, List.sum_cons]
    unfold itemsTail
    split_ifs with hitems
    · simp [hitems]
    · rw [List.count_cons_of_ne hc.symm, ih]

/-- The labels as operations use up all equals signs that are written. -/
theorem weight_setLabel {labels : List (Bytes × Bytes)} (h : ∀ label ∈ labels, IsWord label.1) :
    ((labels.map setLabel).map LabelOp.weight).sum =
      (join (labels.map formatLabel)).count equalsSign := by
  rw [count_join (by decide), List.map_map, List.map_map]
  refine congrArg List.sum (List.map_congr_left fun label hlabel => ?_)
  have hname : label.1.count equalsSign = 0 :=
    List.count_eq_zero.2 ((h label hlabel).not_mem (by decide))
  have hquote : quotation ≠ equalsSign := by decide
  have hvalue : (formatValue label.2).count equalsSign = label.2.count equalsSign := by
    unfold formatValue
    split_ifs
    · simp [List.count_cons_of_ne hquote, List.count_append]
    · rfl
  simp only [Function.comp_apply, LabelOp.weight, setLabel, Option.getD_some, formatLabel_eq,
    List.count_append, List.count_cons_self, hname, hvalue]
  omega

/-- A list without repetitions weighs no more than one that has its elements. -/
theorem sum_map_le_of_subset {α : Type*} {l l' : List α} (hl : l.Nodup) (hsub : l ⊆ l')
    (weight : α → Nat) : (l.map weight).sum ≤ (l'.map weight).sum := by
  obtain ⟨m, hperm, hm⟩ := List.subperm_of_subset hl hsub
  rw [← (hperm.map weight).sum_eq]
  exact (hm.map weight).sum_le_sum fun _ _ => Nat.zero_le _

/-! ## The round trip -/

/-- A label that is set was set by an operation. -/
theorem mem_of_foldl_applyLabelOp {ops : List (Bytes × Option Bytes)} {name value : Bytes}
    (h : (ops.foldl applyLabelOp ∅)[name]? = some value) : (name, some value) ∈ ops := by
  induction ops using List.reverseRecOn with
  | nil => simp at h
  | append_singleton ops op ih =>
    rw [List.foldl_append, List.foldl_cons, List.foldl_nil, applyLabelOp] at h
    rw [List.mem_append, List.mem_singleton]
    obtain ⟨key, newValue⟩ := op
    cases newValue with
    | none =>
      rw [Std.ExtTreeMap.getElem?_erase] at h
      split at h
      · cases h
      · exact .inl (ih h)
    | some x =>
      rw [Std.ExtTreeMap.getElem?_insert] at h
      split at h
      · rename_i heq
        have hname : key = name := Std.LawfulEqCmp.compare_eq_iff_eq.1 heq
        rw [hname, Option.some.inj h]
        exact .inr rfl
      · exact .inl (ih h)

/-- If the labels are read back, none of their values is ambiguous. -/
theorem unambiguous_of_roundTrip {labels : LabelMap} (h : TrimmedLabels labels.toList)
    (hread : applyLabelDelta (formatLabels labels) ∅ none = .ok labels) :
    ∀ label ∈ labels.toList, Unambiguous label.2 := by
  obtain ⟨ops, hops, hfold⟩ := Fallible.bind_eq_ok.1 hread
  have hfold : ops.foldl applyLabelOp ∅ = labels := Except.ok.inj hfold
  have hget : ∀ {name value : Bytes}, (name, value) ∈ labels.toList ↔ labels[name]? = some value :=
    Std.ExtTreeMap.mem_toList_iff_getElem?_eq_some
  have hset : ∀ label ∈ labels.toList, setLabel label ∈ ops := by
    intro label hlabel
    refine mem_of_foldl_applyLabelOp ?_
    rw [hfold]
    exact hget.1 hlabel
  by_contra hambiguous
  push Not at hambiguous
  obtain ⟨label, hlabel, hbad⟩ := hambiguous
  -- the first ambiguous label is reached by the loop
  obtain ⟨bad, hfind⟩ : ∃ bad, labels.toList.find? (¬ Unambiguous ·.2) = some bad :=
    Option.isSome_iff_exists.1 (List.find?_isSome.2 ⟨label, hlabel, by simpa using hbad⟩)
  obtain ⟨hbad, good, others, hlist, hgood⟩ := List.find?_eq_some_iff_append.1 hfind
  have hbad : ¬ Unambiguous bad.2 := by simpa using hbad
  have hgood : ∀ label ∈ good, Unambiguous label.2 := fun l hl => by simpa using hgood l hl
  have hmem : bad ∈ labels.toList := by simp [hlist]
  have hlength : labels.toList.length ≤ (formatLabels labels).length := by
    have hle := length_le_join (formatLabel_ne_nil labels.toList)
    rwa [List.length_map] at hle
  obtain ⟨fuel, hfuel⟩ : ∃ fuel, (formatLabels labels).length = good.length + fuel := by
    rw [hlist, List.length_append] at hlength
    exact Nat.exists_eq_add_of_le (by omega)
  have hloop : labelDeltaLoop none (good.length + fuel)
      (join ((good ++ bad :: others).map formatLabel)) = .ok ops := by
    rw [← hfuel, ← hlist]
    exact hops
  rw [labelDeltaLoop_formatLabel (hlist ▸ h) hgood] at hloop
  obtain ⟨ops', hops', heq⟩ := Fallible.bind_eq_ok.1 hloop
  obtain rfl := Except.ok.inj heq
  rcases labelDeltaLoop_ambiguous (h bad hmem).1 hbad hops' with rfl | ⟨x, hne, hx⟩
  · -- the label is not read at all
    have hbadOp := hset bad hmem
    rw [List.append_nil, List.mem_map_of_injective setLabel_injective] at hbadOp
    exact hbad (hgood bad hbadOp)
  · -- there is one operation too many
    have hother : setLabel (bad.1, x) ∉ labels.toList.map setLabel := by
      rw [List.mem_map_of_injective setLabel_injective]
      intro hmem'
      exact hne (Option.some.inj ((hget.1 hmem').symm.trans (hget.1 hmem)))
    have hkeys : (labels.toList.map Prod.fst).Nodup := by
      rw [Std.ExtTreeMap.map_fst_toList_eq_keys]
      exact Std.ExtTreeMap.nodup_keys
    have hnodup : (labels.toList.map setLabel).Nodup := (hkeys.of_map _).map setLabel_injective
    have hsubset : setLabel (bad.1, x) :: labels.toList.map setLabel ⊆ good.map setLabel ++ ops' :=
      List.cons_subset.2 ⟨List.mem_append_right _ hx, fun op hop => by
        obtain ⟨label, hlabel, rfl⟩ := List.mem_map.1 hop
        exact hset label hlabel⟩
    have hweight := sum_map_le_of_subset (List.nodup_cons.2 ⟨hother, hnodup⟩) hsubset LabelOp.weight
    have hcount := weight_labelDeltaLoop hops
    rw [formatLabels_join, ← weight_setLabel fun label hlabel => (h label hlabel).1] at hcount
    rw [List.map_cons, List.sum_cons, LabelOp.weight] at hweight
    omega

/-- If none of the values is ambiguous, the labels are read back. -/
theorem roundTrip_of_unambiguous {labels : LabelMap} (h : TrimmedLabels labels.toList)
    (hvalues : ∀ label ∈ labels.toList, Unambiguous label.2) :
    applyLabelDelta (formatLabels labels) ∅ none = .ok labels := by
  have hlegible : LegibleLabels labels := by
    intro label hlabel
    obtain ⟨hname, hne, htrim⟩ := h label hlabel
    exact ⟨writtenKey_word hname, legibleValue_of_trim hne htrim (hvalues label hlabel)⟩
  rw [hlegible.applyLabelDelta_eq, (union_eq_right_iff ∅ labels).2 (by simp)]

/-- A printable ASCII character. -/
def isPrintable (c : UInt8) : Bool := 0x20 ≤ c && c ≤ 0x7E

/-- Names are words, and values are not empty, printable, and have no blanks at their
ends. -/
def PrintableLabels (labels : LabelMap) : Prop :=
  ∀ label ∈ labels.toList, IsWord label.1 ∧ label.2 ≠ [] ∧
    (∀ c ∈ label.2, isPrintable c = true) ∧ (∀ c ∈ label.2.head?, isBlank c = false) ∧
    ∀ c ∈ label.2.getLast?, isBlank c = false

/-- Labels are read back if and only if their values are not ambiguous: one with a
comma has no quotes, and one without a comma does not start with a quote. -/
theorem formatLabels_roundTrip (labels : LabelMap) (h : PrintableLabels labels) :
    applyLabelDelta (formatLabels labels) ∅ none = .ok labels ↔
      ∀ label ∈ labels.toList, Unambiguous label.2 := by
  have htrimmed : TrimmedLabels labels.toList := by
    intro label hlabel
    obtain ⟨hname, hne, -, hfirst, hlast⟩ := h label hlabel
    exact ⟨hname, hne, trim_of_ends hfirst hlast⟩
  exact ⟨unambiguous_of_roundTrip htrimmed, roundTrip_of_unambiguous htrimmed⟩

theorem formatLabels_commas :
    let labels : LabelMap := (∅ : LabelMap).insert (bytes "a") (bytes "x, b=1")
    applyLabelDelta (formatLabels labels) ∅ none = .ok labels :=
  (formatLabels_roundTrip ((∅ : LabelMap).insert (bytes "a") (bytes "x, b=1"))
    (by unfold PrintableLabels; decide +kernel)).2 (by decide)

/-- A quote in a value ends it, and what follows is read as another label. -/
theorem formatLabels_quote :
    let labels : LabelMap := (∅ : LabelMap).insert (bytes "a") (bytes "x\",b=y")
    PrintableLabels labels ∧
    parseLabelDeltaOps (formatLabels labels) none =
      .ok [(bytes "a", some (bytes "x")), (bytes "b", some (bytes "y\""))] ∧
    applyLabelDelta (formatLabels labels) ∅ none ≠ .ok labels := by
  intro labels
  have hops : parseLabelDeltaOps (formatLabels labels) none =
      .ok [(bytes "a", some (bytes "x")), (bytes "b", some (bytes "y\""))] := by
    decide
  refine ⟨by unfold PrintableLabels; decide +kernel, hops, ?_⟩
  rw [applyLabelDelta, hops]
  intro h
  have hlist := congrArg Std.ExtTreeMap.toList (Except.ok.inj h)
  exact absurd hlist (by decide)

end Reduct
