-- SUMMARY: The order in which a request carries the records of a batch, and the entry index and the delta that stand for the entry and the time of each record.
import ReductClient.Internal.BatchV2

open Cxx

namespace Reduct

/-! ## The records in the order of a request -/

/-- What tells the records of a request apart: the resolved entry and the
microseconds. -/
def recordKey (defaultEntry : Bytes) (record : Record) : Bytes × Nat :=
  (recordEntry record defaultEntry, record.timestamp.micros)

/-- The records in the given order. -/
def Batch.inOrder (batch : Batch) (order : List Nat) : List Record := order.map batch.recordAt

theorem Batch.recordAt_eq (batch : Batch) {idx : Nat} (h : idx < batch.records.length) :
    batch.recordAt idx = batch.records[idx] := by
  simp [recordAt, List.getElem?_eq_getElem h]

theorem Batch.inOrder_range (batch : Batch) :
    batch.inOrder (List.range batch.records.length) = batch.records := by
  apply List.ext_getElem
  · simp [inOrder]
  · intro i h₁ h₂
    simp [inOrder, batch.recordAt_eq h₂]

theorem Batch.IsOrder.inOrder_perm {batch : Batch} {order : List Nat} (h : batch.IsOrder order) :
    (batch.inOrder order).Perm batch.records := by
  rw [← batch.inOrder_range]
  exact h.map _

theorem Batch.IsOrder.inOrder_lt {batch : Batch} {order : List Nat} (h : batch.IsOrder order) :
    (batch.inOrder order).length < 2 ^ 64 := by
  rw [h.inOrder_perm.length_eq]
  exact batch.records_lt

theorem Batch.dataAt_eq (batch : Batch) {idx : Nat} (h : idx < batch.records.length) :
    batch.dataAt idx = batch.data (batch.recordAt idx) := by
  simp [dataAt, batch.recordAt_eq h, List.getElem?_eq_getElem h]

theorem Batch.IsOrder.recordAt_mem {batch : Batch} {order : List Nat} (h : batch.IsOrder order)
    {idx : Nat} (hidx : idx ∈ order) : batch.recordAt idx ∈ batch.records := by
  rw [batch.recordAt_eq (h.lt hidx)]
  exact List.getElem_mem (h.lt hidx)

theorem Batch.IsOrder.size_eq {batch : Batch} {order : List Nat} (h : batch.IsOrder order)
    {idx : Nat} (hidx : idx ∈ order) :
    (batch.recordAt idx).size = (batch.dataAt idx).length := by
  rw [batch.dataAt_eq (h.lt hidx), batch.size_eq_length_data (h.recordAt_mem hidx)]

/-- The sizes of the records make up all the data. -/
theorem Batch.IsOrder.sum_sizes {batch : Batch} {order : List Nat} (h : batch.IsOrder order) :
    ((batch.inOrder order).map Record.size).sum = batch.total := by
  rw [← batch.length_ordered h, List.length_flatten, Batch.inOrder, List.map_map, List.map_map]
  exact congrArg List.sum (List.map_congr_left fun idx hidx => h.size_eq hidx)

/-- The comparison of `SortRecords`, with three outcomes. -/
def recordOrder (defaultEntry : Bytes) (sortByEntry : Bool) : Record → Record → Ordering :=
  if sortByEntry then
    compareLex (compareOn (recordEntry · defaultEntry)) (compareOn Record.timestamp)
  else compareLex (compareOn Record.timestamp) (compareOn (recordEntry · defaultEntry))

instance (defaultEntry : Bytes) (sortByEntry : Bool) :
    Std.TransCmp (recordOrder defaultEntry sortByEntry) := by
  cases sortByEntry
  · exact inferInstanceAs (Std.TransCmp (compareLex (compareOn Record.timestamp)
      (compareOn (recordEntry · defaultEntry))))
  · exact inferInstanceAs (Std.TransCmp (compareLex (compareOn (recordEntry · defaultEntry))
      (compareOn Record.timestamp)))

theorem before_eq (s t : Time) : s.before t = (compare s t == .lt) := by
  have h : compare s t = .lt ↔ s.ns < t.ns := Int.compare_eq_lt
  rw [Time.before, Bool.eq_iff_iff, beq_iff_eq, h, decide_eq_true_eq]

instance : Std.LawfulEqOrd Time where
  eq_of_compare h := Time.ext (Int.compare_eq_eq.1 h)

theorem recordLess_eq (batch : Batch) (defaultEntry : Bytes) (sortByEntry : Bool) (lhs rhs : Nat) :
    recordLess batch defaultEntry sortByEntry lhs rhs =
      (recordOrder defaultEntry sortByEntry (batch.recordAt lhs) (batch.recordAt rhs) == .lt) := by
  simp only [recordLess, bytesLess, before_eq]
  generalize batch.recordAt lhs = left
  generalize batch.recordAt rhs = right
  cases sortByEntry with
  | true =>
    by_cases hentry : recordEntry left defaultEntry = recordEntry right defaultEntry
    · by_cases htime : left.timestamp = right.timestamp <;>
        simp [recordOrder, compareLex, compareOn, hentry, htime]
    · have hne := mt Std.compare_eq_iff_eq.1 hentry
      cases hcmp : compare (recordEntry left defaultEntry) (recordEntry right defaultEntry) <;>
        simp_all [recordOrder, compareLex, compareOn]
  | false =>
    by_cases htime : left.timestamp = right.timestamp
    · simp [recordOrder, compareLex, compareOn, htime]
    · have hne := mt Std.compare_eq_iff_eq.1 htime
      cases hcmp : compare left.timestamp right.timestamp <;>
        simp_all [recordOrder, compareLex, compareOn]

variable [StdSort]

theorem sortRecords_isOrder (batch : Batch) (defaultEntry : Bytes) (sortByEntry : Bool) :
    batch.IsOrder (sortRecords batch defaultEntry sortByEntry) :=
  StdSort.perm _ _

/-- The records come sorted. -/
theorem sortRecords_sorted (batch : Batch) (defaultEntry : Bytes) (sortByEntry : Bool) :
    (batch.inOrder (sortRecords batch defaultEntry sortByEntry)).Pairwise fun r r' =>
      (recordOrder defaultEntry sortByEntry r r').isLE := by
  have hless := recordLess_eq batch defaultEntry sortByEntry
  have hcmp : Std.TransCmp fun lhs rhs => recordOrder defaultEntry sortByEntry
      (batch.recordAt lhs) (batch.recordAt rhs) := {
    eq_swap := Std.OrientedCmp.eq_swap
    isLE_trans := Std.TransCmp.isLE_trans }
  have hsorted := StdSort.sorted _ (List.range batch.records.length) (.of_cmp _ hless)
  rw [Batch.inOrder, List.pairwise_map]
  refine hsorted.imp ?_
  intro lhs rhs h
  rw [hless, @Std.OrientedCmp.eq_swap _ (recordOrder defaultEntry sortByEntry)] at h
  cases hr : recordOrder defaultEntry sortByEntry (batch.recordAt lhs) (batch.recordAt rhs) <;>
    simp_all

/-- The entries come sorted, and the times of each entry too. -/
def InRequestOrder (defaultEntry : Bytes) (records : List Record) : Prop :=
  records.Pairwise fun r r' =>
    (compare (recordEntry r defaultEntry) (recordEntry r' defaultEntry)).isLE ∧
      (recordEntry r defaultEntry = recordEntry r' defaultEntry →
        r.timestamp.micros ≤ r'.timestamp.micros)

/-- The order of a v2 request. -/
theorem sortRecords_byEntry {batch : Batch} (hepoch : ∀ r ∈ batch.records, r.timestamp.AfterEpoch)
    (defaultEntry : Bytes) :
    InRequestOrder defaultEntry (batch.inOrder (sortRecords batch defaultEntry true)) := by
  have hperm := (sortRecords_isOrder batch defaultEntry true).inOrder_perm
  refine (sortRecords_sorted batch defaultEntry true).imp_of_mem ?_
  intro r r' hr hr' hle
  have hns : (compare r.timestamp r'.timestamp).isLE → r.timestamp.ns ≤ r'.timestamp.ns :=
    fun h => Int.isLE_compare.1 h
  have hmicros := fun h => Time.micros_mono (hepoch r (hperm.mem_iff.1 hr))
    (hepoch r' (hperm.mem_iff.1 hr')) (hns h)
  simp only [recordOrder, if_true, compareLex, compareOn] at hle
  constructor
  · cases hcmp : compare (recordEntry r defaultEntry) (recordEntry r' defaultEntry) <;> simp_all
  · intro hentry
    simp only [hentry, Std.compare_self, Ordering.then] at hle
    exact hmicros hle

/-- The order of a v1 request. -/
theorem sortRecords_byTime {batch : Batch} (hepoch : ∀ r ∈ batch.records, r.timestamp.AfterEpoch)
    (defaultEntry : Bytes) :
    (batch.inOrder (sortRecords batch defaultEntry false)).Pairwise fun r r' =>
      r.timestamp.micros ≤ r'.timestamp.micros := by
  have hperm := (sortRecords_isOrder batch defaultEntry false).inOrder_perm
  refine (sortRecords_sorted batch defaultEntry false).imp_of_mem ?_
  intro r r' hr hr' hle
  refine Time.micros_mono (hepoch r (hperm.mem_iff.1 hr)) (hepoch r' (hperm.mem_iff.1 hr')) ?_
  refine Int.isLE_compare.1 (?_ : (compare r.timestamp r'.timestamp).isLE)
  simp only [recordOrder, Bool.false_eq_true, if_false, compareLex, compareOn] at hle
  cases hcmp : compare r.timestamp r'.timestamp <;> simp_all

/-! ## Entry indices and deltas -/

omit [StdSort]

/-- The state of the first loop of `BuildBatchV2Request` after some records. -/
structure Indexed (defaultEntry : Bytes) (records : List Record) (st : IndexState) : Prop where
  /-- Each entry is listed once, where it occurs first. -/
  sublist : st.entries.Sublist (records.map (recordEntry · defaultEntry))
  nodup : st.entries.Nodup
  mem : ∀ r ∈ records, recordEntry r defaultEntry ∈ st.entries
  find : ∀ entry i, st.entryIndices.find? entry = some i ↔ st.entries[i]? = some entry
  startTs_le : ∀ r ∈ records, st.startTs ≤ r.timestamp.micros
  startTs_lt : st.startTs < 2 ^ 64

theorem indexed_nil (defaultEntry : Bytes) :
    Indexed defaultEntry [] ⟨2 ^ 64 - 1, .empty, []⟩ where
  sublist := .slnil
  nodup := by simp
  mem := by simp
  find := by simp [UnorderedMap.find?, UnorderedMap.empty]
  startTs_le := by simp
  startTs_lt := by simp

theorem Indexed.contains_iff {defaultEntry : Bytes} {records : List Record} {st : IndexState}
    (h : Indexed defaultEntry records st) (entry : Bytes) :
    entry ∈ st.entryIndices.toList.map Prod.fst ↔ entry ∈ st.entries := by
  constructor
  · intro hkey
    obtain ⟨⟨_, i⟩, hpair, rfl⟩ := List.mem_map.1 hkey
    exact List.mem_of_getElem? ((h.find _ _).1 (UnorderedMap.find?_eq_some.2 hpair))
  · intro hmem
    obtain ⟨i, hi⟩ := List.mem_iff_getElem?.1 hmem
    exact List.mem_map_of_mem (UnorderedMap.find?_eq_some.1 ((h.find _ _).2 hi))

/-- A list with one more element has it at the end. -/
theorem getElem?_concat_eq_some {α : Type} {l : List α} {a b : α} {i : Nat} :
    (l ++ [a])[i]? = some b ↔ l[i]? = some b ∨ b = a ∧ i = l.length := by
  rcases Nat.lt_trichotomy i l.length with hlt | rfl | hlt
  · rw [List.getElem?_append_left hlt]
    simp [hlt.ne]
  · simp [eq_comm]
  · have hlonger : (l ++ [a]).length ≤ i := by
      rw [List.length_append, List.length_singleton]
      exact hlt
    rw [List.getElem?_eq_none hlonger, List.getElem?_eq_none hlt.le]
    simp [hlt.ne']

/-- The next record is indexed. -/
theorem Indexed.step {batch : Batch} {defaultEntry : Bytes} {requireEntry : Bool}
    {records : List Record} {st st' : IndexState} {idx : Nat}
    (h : Indexed defaultEntry records st)
    (hstep : indexRecord batch defaultEntry requireEntry st idx = .ok st') :
    Indexed defaultEntry (records ++ [batch.recordAt idx]) st' := by
  unfold indexRecord at hstep
  generalize batch.recordAt idx = record at hstep
  dsimp only at hstep
  split at hstep
  · cases hstep
  · cases hstep
    have hmin : ∀ r ∈ records ++ [record],
        min st.startTs record.timestamp.micros ≤ r.timestamp.micros := by
      intro r hr
      rcases List.mem_append.1 hr with hr | hr
      · exact (Nat.min_le_left _ _).trans (h.startTs_le r hr)
      · rw [List.mem_singleton.1 hr]
        exact Nat.min_le_right _ _
    have hlt : min st.startTs record.timestamp.micros < 2 ^ 64 :=
      (Nat.min_le_left _ _).trans_lt h.startTs_lt
    have hsub : st.entries.Sublist ((records ++ [record]).map (recordEntry · defaultEntry)) := by
      rw [List.map_append]
      exact h.sublist.trans (List.sublist_append_left _ _)
    have hcontains : st.entryIndices.contains (recordEntry record defaultEntry) =
        decide (recordEntry record defaultEntry ∈ st.entries) :=
      decide_eq_decide.2 (h.contains_iff _)
    rw [hcontains]
    by_cases hmem : recordEntry record defaultEntry ∈ st.entries
    · simp only [hmem, decide_true, if_true]
      refine ⟨hsub, h.nodup, ?_, h.find, hmin, hlt⟩
      intro r hr
      rcases List.mem_append.1 hr with hr | hr
      · exact h.mem r hr
      · rwa [List.mem_singleton.1 hr]
    · simp only [hmem, decide_false, Bool.false_eq_true, if_false]
      refine ⟨?_, ?_, ?_, ?_, hmin, hlt⟩
      · rw [List.map_append]
        exact h.sublist.append (.refl _)
      · exact List.nodup_append.2 ⟨h.nodup, by simp, by simpa using fun e he => ne_of_mem_of_not_mem he hmem⟩
      · intro r hr
        rcases List.mem_append.1 hr with hr | hr
        · exact List.mem_append_left _ (h.mem r hr)
        · rw [List.mem_singleton.1 hr]
          simp
      · intro entry i
        rw [UnorderedMap.find?_emplace_of_not_mem (mt (h.contains_iff _).1 hmem), h.find,
          getElem?_concat_eq_some]

/-- The error of a record without an entry. -/
def entryRequired : Error := ⟨400, bytes "Entry name is required"⟩

/-- The first loop either indexes all records or meets one without the entry it
requires. -/
theorem indexRecords (batch : Batch) (defaultEntry : Bytes) (requireEntry : Bool)
    (order : List Nat) :
    let entryOf := (recordEntry · defaultEntry)
    let indexed := order.foldlM (indexRecord batch defaultEntry requireEntry)
      ⟨2 ^ 64 - 1, .empty, []⟩
    (∃ st, indexed = .ok st ∧ Indexed defaultEntry (batch.inOrder order) st ∧
        (requireEntry = true → ∀ r ∈ batch.inOrder order, entryOf r ≠ [])) ∨
      indexed = .error entryRequired ∧ requireEntry = true ∧
        ∃ r ∈ batch.inOrder order, entryOf r = [] := by
  intro entryOf indexed
  induction order using List.reverseRecOn with
  | nil => exact .inl ⟨_, rfl, indexed_nil _, by simp [Batch.inOrder]⟩
  | append_singleton order idx ih =>
    have hfold : indexed = order.foldlM (indexRecord batch defaultEntry requireEntry)
        ⟨2 ^ 64 - 1, .empty, []⟩ >>= fun st => indexRecord batch defaultEntry requireEntry st idx := by
      simp [indexed]
    have hrecords : batch.inOrder (order ++ [idx]) = batch.inOrder order ++ [batch.recordAt idx] := by
      simp [Batch.inOrder]
    rw [hrecords, hfold]
    rcases ih with ⟨st, hst, hindexed, hentries⟩ | ⟨herr, hrequire, r, hr, hempty⟩
    · rw [hst]
      by_cases hempty : requireEntry = true ∧ entryOf (batch.recordAt idx) = []
      · refine .inr ⟨?_, hempty.1, _, by simp, hempty.2⟩
        exact if_pos hempty
      · obtain ⟨st', hst'⟩ : ∃ st',
            indexRecord batch defaultEntry requireEntry st idx = .ok st' := ⟨_, if_neg hempty⟩
        refine .inl ⟨st', hst', hindexed.step hst', ?_⟩
        intro hrequire r hr
        rcases List.mem_append.1 hr with hr | hr
        · exact hentries hrequire r hr
        · rw [List.mem_singleton.1 hr]
          exact fun h => hempty ⟨hrequire, h⟩
    · rw [herr]
      exact .inr ⟨rfl, hrequire, r, by simp [hr], hempty⟩

/-! ## Record names -/

/-- The entry index and the delta in the header name of a record. -/
def IndexState.name (st : IndexState) (defaultEntry : Bytes) (record : Record) : Nat × Nat :=
  ((st.entryIndices.find? (recordEntry record defaultEntry)).getD 0,
    wrapSub record.timestamp.micros st.startTs)

section Names

variable {defaultEntry : Bytes} {records : List Record} {st : IndexState}

/-- The index is that of the entry, and the delta counts from the start
timestamp. -/
theorem Indexed.name_eq (h : Indexed defaultEntry records st) {r : Record} (hr : r ∈ records) :
    ∃ i, st.entries[i]? = some (recordEntry r defaultEntry) ∧
      st.name defaultEntry r = (i, r.timestamp.micros - st.startTs) := by
  obtain ⟨i, hi⟩ := List.mem_iff_getElem?.1 (h.mem r hr)
  refine ⟨i, hi, ?_⟩
  rw [IndexState.name, (h.find _ _).2 hi, wrapSub_eq (h.startTs_le r hr) r.timestamp.micros_lt_size]
  rfl

theorem Indexed.name_lt (h : Indexed defaultEntry records st) (hlength : records.length < 2 ^ 64)
    {r : Record} (hr : r ∈ records) :
    (st.name defaultEntry r).1 < 2 ^ 64 ∧ (st.name defaultEntry r).2 < 2 ^ 64 := by
  obtain ⟨i, hi, hname⟩ := h.name_eq hr
  have hlt := (List.getElem?_eq_some_iff.1 hi).1
  have hle := h.sublist.length_le
  have hmicros := r.timestamp.micros_lt_size
  rw [List.length_map] at hle
  rw [hname]
  constructor <;> dsimp only <;> omega

/-- Names stand for keys. -/
theorem Indexed.name_inj (h : Indexed defaultEntry records st) {r r' : Record} (hr : r ∈ records)
    (hr' : r' ∈ records) :
    st.name defaultEntry r = st.name defaultEntry r' ↔
      recordKey defaultEntry r = recordKey defaultEntry r' := by
  obtain ⟨i, hi, hname⟩ := h.name_eq hr
  obtain ⟨i', hi', hname'⟩ := h.name_eq hr'
  have hle := h.startTs_le r hr
  have hle' := h.startTs_le r' hr'
  rw [hname, hname', recordKey, recordKey, Prod.mk.injEq, Prod.mk.injEq]
  refine and_congr ?_ (by omega)
  constructor
  · rintro rfl
    exact Option.some.inj (hi.symm.trans hi')
  · intro hentry
    rw [← hentry] at hi'
    exact (List.getElem?_inj (List.getElem?_eq_some_iff.1 hi).1 h.nodup).1 (hi.trans hi'.symm)

/-- The names of distinct sorted records are sorted too. -/
theorem Indexed.name_sorted (h : Indexed defaultEntry records st)
    (hsorted : InRequestOrder defaultEntry records)
    (hdistinct : (records.map (recordKey defaultEntry)).Nodup) :
    records.Pairwise fun r r' =>
      (st.name defaultEntry r).1 < (st.name defaultEntry r').1 ∨
        (st.name defaultEntry r).1 = (st.name defaultEntry r').1 ∧
          (st.name defaultEntry r).2 < (st.name defaultEntry r').2 := by
  have hkeys := List.pairwise_map.1 hdistinct
  have hentries : st.entries.Pairwise fun e e' => (compare e e').isLE :=
    (List.pairwise_map.2 (hsorted.imp And.left)).sublist h.sublist
  refine (hsorted.and hkeys).imp_of_mem ?_
  intro r r' hr hr' ⟨⟨hle, hmicros⟩, hne⟩
  obtain ⟨i, hi, hname⟩ := h.name_eq hr
  obtain ⟨i', hi', hname'⟩ := h.name_eq hr'
  have hstart := h.startTs_le r hr
  rw [hname, hname']
  dsimp only
  rcases Nat.lt_trichotomy i i' with hlt | rfl | hgt
  · exact .inl hlt
  · -- the same entry: the times differ
    have hentry : recordEntry r defaultEntry = recordEntry r' defaultEntry :=
      Option.some.inj (hi.symm.trans hi')
    have hlt : r.timestamp.micros ≠ r'.timestamp.micros := fun heq => hne (Prod.ext hentry heq)
    have := hmicros hentry
    exact .inr ⟨rfl, by omega⟩
  · -- the entries are listed in their own order
    exfalso
    obtain ⟨hlen, hget⟩ := List.getElem?_eq_some_iff.1 hi
    obtain ⟨hlen', hget'⟩ := List.getElem?_eq_some_iff.1 hi'
    have hge := List.pairwise_iff_getElem.1 hentries i' i hlen' hlen hgt
    rw [hget, hget'] at hge
    have heq := Std.OrientedCmp.isLE_antisymm hle hge
    have hsame := Std.compare_eq_iff_eq.1 heq
    rw [← hsame] at hi'
    exact hgt.ne' ((List.getElem?_inj hlen h.nodup).1 (hi.trans hi'.symm))

end Names

end Reduct
