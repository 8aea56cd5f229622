-- SUMMARY: `IBucket::Batch`: records with their data, the calls that add records, and the slicing law.
import ReductClient.Bucket.Types

open Cxx

namespace Reduct

/-- `IBucket::Batch::Record`. -/
structure Record where
  entry : Bytes
  timestamp : Time
  size : Nat
  contentType : Bytes
  labels : LabelMap
  dataIndex : Option Nat

/-- `IBucket::Batch`. The members are private, so every batch is built by the
calls below and keeps the invariant they establish: the records that have data
refer to the blobs of the body one after the other, and announce their sizes. -/
structure Batch where
  records : List Record
  body : List Blob
  /-- The member `size_`, a `uint64_t` that wraps. -/
  size : Nat
  records_lt : records.length < 2 ^ 64
  dataIndex_eq : records.filterMap (·.dataIndex) = List.range body.length
  record_size : ∀ r ∈ records,
    r.size = (r.dataIndex.bind fun i => (body[i]?).map Blob.size).getD 0
  size_eq : size = (body.map Blob.size).sum % 2 ^ 64

namespace Batch

theorem size_nil : 0 = (([] : List Blob).map Blob.size).sum % 2 ^ 64 := rfl

def empty : Batch where
  records := []
  body := []
  size := 0
  records_lt := by decide
  dataIndex_eq := rfl
  record_size := by simp
  size_eq := size_nil

/-- A data index of a record is an index of the body. -/
theorem dataIndex_lt (b : Batch) {r : Record} (hr : r ∈ b.records) {i : Nat}
    (hi : r.dataIndex = some i) : i < b.body.length := by
  have hmem : i ∈ b.records.filterMap (·.dataIndex) := List.mem_filterMap.2 ⟨r, hr, hi⟩
  simpa [b.dataIndex_eq] using hmem

/-- The data of a record, empty if it has none. -/
def data (b : Batch) (r : Record) : Bytes :=
  (r.dataIndex.bind fun i => (b.body[i]?).map Blob.bytes).getD []

theorem size_eq_length_data (b : Batch) {r : Record} (hr : r ∈ b.records) :
    r.size = (b.data r).length := by
  rw [b.record_size r hr, data]
  cases hi : r.dataIndex with
  | none => rfl
  | some i =>
    have hlt := b.dataIndex_lt hr hi
    simp [List.getElem?_eq_getElem hlt, Blob.size]

theorem size_lt (b : Batch) {r : Record} (hr : r ∈ b.records) : r.size < 2 ^ 64 := by
  rw [b.record_size r hr]
  cases hi : r.dataIndex with
  | none => simp
  | some i =>
    have hlt := b.dataIndex_lt hr hi
    rw [Option.bind_some, List.getElem?_eq_getElem hlt, Option.map_some, Option.getD_some]
    exact b.body[i].size_lt

/-! ## Adding records

A `std::vector` that cannot grow throws. -/

/-- `AddRecord(entry, timestamp, data, content_type, labels)`. A null pointer
counts as empty data. -/
def addRecord (b : Batch) (entry : Bytes) (timestamp : Time) (data : Option Blob)
    (contentType : Bytes) (labels : LabelMap) : Except Fault Batch :=
  let data := data.getD ⟨[], Blob.nil_lt⟩
  if h : b.records.length + 1 < 2 ^ 64 then
    .ok {
      records := b.records ++
        [⟨entry, timestamp, data.size, contentType, labels, some b.body.length⟩]
      body := b.body ++ [data]
      size := (b.size + data.size) % 2 ^ 64
      records_lt := by simpa using h
      dataIndex_eq := by
        simp [List.filterMap_append, b.dataIndex_eq, List.range_succ]
      record_size := by
        intro r hr
        rcases List.mem_append.1 hr with hr | hr
        · rw [b.record_size r hr]
          cases hi : r.dataIndex with
          | none => rfl
          | some i => simp [List.getElem?_append_left (b.dataIndex_lt hr hi)]
        · obtain rfl := List.mem_singleton.1 hr
          simp
      size_eq := by simp [b.size_eq, Nat.mod_add_mod] }
  else .error .lengthError

/-- Append a record without data. -/
def addWithoutData (b : Batch) (entry : Bytes) (timestamp : Time) (labels : LabelMap) :
    Except Fault Batch :=
  if h : b.records.length + 1 < 2 ^ 64 then
    .ok {
      records := b.records ++ [⟨entry, timestamp, 0, [], labels, none⟩]
      body := b.body
      size := b.size
      records_lt := by simpa using h
      dataIndex_eq := by simp [List.filterMap_append, b.dataIndex_eq]
      record_size := by
        intro r hr
        rcases List.mem_append.1 hr with hr | hr
        · exact b.record_size r hr
        · obtain rfl := List.mem_singleton.1 hr
          rfl
      size_eq := b.size_eq }
  else .error .lengthError

/-- `AddRecord(entry, timestamp)`: an empty record, used for removing. -/
def addEmptyRecord (b : Batch) (entry : Bytes) (timestamp : Time) : Except Fault Batch :=
  b.addWithoutData entry timestamp ∅

/-- `AddOnlyLabels(entry, timestamp, labels)`. -/
def addOnlyLabels (b : Batch) (entry : Bytes) (timestamp : Time) (labels : LabelMap) :
    Except Fault Batch :=
  b.addWithoutData entry timestamp labels

/-! ## Slicing -/

/-- The local variables of `Slice`. -/
structure SliceState where
  result : Bytes
  offset : Nat
  size : Nat

/-- The lambda `process_data`. -/
def processData (st : SliceState) (data : Bytes) : SliceState :=
  if st.offset < data.length then
    let n := min st.size (data.length - st.offset)
    { result := st.result ++ (data.drop st.offset).take n, offset := 0, size := st.size - n }
  else { st with offset := st.offset - data.length }

/-- The loop of `Slice` over an order of record indices. -/
def sliceOrdered (b : Batch) : List Nat → SliceState → Except Fault Bytes
  | [], st => .ok st.result
  | idx :: order, st =>
    match b.records[idx]? with
    | none => .error .outOfRange
    | some record =>
      match record.dataIndex with
      | none => b.sliceOrdered order st
      | some i =>
        match b.body[i]? with
        | none => .error .outOfRange
        | some data =>
          let st := processData st data.bytes
          if st.size = 0 then .ok st.result else b.sliceOrdered order st

/-- The loop of `Slice` in insertion order. -/
def sliceBody : List Blob → SliceState → Bytes
  | [], st => st.result
  | data :: body, st =>
    let st := processData st data.bytes
    if st.size = 0 then st.result else sliceBody body st

/-- `Slice`. -/
def slice (b : Batch) (order : Option (List Nat)) (offset size : Nat) : Except Fault Bytes :=
  if b.size ≤ offset then .ok []
  else
    match order with
    | some order => b.sliceOrdered order ⟨[], offset, size⟩
    | none => .ok (sliceBody b.body ⟨[], offset, size⟩)

/-- The bytes a slice state will still produce from `rest`. -/
def SliceState.outcome (st : SliceState) (rest : Bytes) : Bytes :=
  st.result ++ (rest.drop st.offset).take st.size

theorem outcome_processData (st : SliceState) (data rest : Bytes) :
    (processData st data).outcome rest = st.outcome (data ++ rest) := by
  unfold processData SliceState.outcome
  split
  · rename_i h
    have hdrop : (data ++ rest).drop st.offset = data.drop st.offset ++ rest :=
      List.drop_append_of_le_length (Nat.le_of_lt h)
    simp only [hdrop, List.drop_zero, List.append_assoc, List.append_cancel_left_eq,
      List.take_append, List.length_drop]
    rw [Nat.min_def]
    split
    · rename_i hle
      rw [Nat.sub_self, Nat.sub_eq_zero_of_le hle]
    · rename_i hgt
      have hrest : (data.drop st.offset).take (data.length - st.offset) = data.drop st.offset :=
        List.take_of_length_le (by simp)
      have hall : (data.drop st.offset).take st.size = data.drop st.offset :=
        List.take_of_length_le (by simp; omega)
      rw [hrest, hall]
  · rename_i h
    simp [List.drop_append, List.drop_eq_nil_of_le (Nat.le_of_not_lt h)]

theorem outcome_of_size_eq_zero {st : SliceState} (h : st.size = 0) (rest : Bytes) :
    st.outcome rest = st.result := by
  simp [SliceState.outcome, h]

/-- The data of the record with the given index. -/
def dataAt (b : Batch) (idx : Nat) : Bytes := ((b.records[idx]?).map b.data).getD []

theorem sliceOrdered_eq (b : Batch) {order : List Nat}
    (hrange : ∀ idx ∈ order, idx < b.records.length) (st : SliceState) :
    b.sliceOrdered order st = .ok (st.outcome (order.map b.dataAt).flatten) := by
  induction order generalizing st with
  | nil => simp [sliceOrdered, SliceState.outcome]
  | cons idx order ih =>
    have hidx : idx < b.records.length := hrange idx (by simp)
    have ih := ih fun i hi => hrange i (by simp [hi])
    have hget : b.records[idx]? = some b.records[idx] := List.getElem?_eq_getElem hidx
    simp only [sliceOrdered, hget, List.map_cons, List.flatten_cons]
    cases hdata : b.records[idx].dataIndex with
    | none =>
      have hnil : b.dataAt idx = [] := by simp [dataAt, hget, data, hdata]
      simp [ih, hnil]
    | some i =>
      have hlt := b.dataIndex_lt (List.getElem_mem hidx) hdata
      have hblob : b.body[i]? = some b.body[i] := List.getElem?_eq_getElem hlt
      have hbytes : b.dataAt idx = b.body[i].bytes := by simp [dataAt, hget, data, hdata, hblob]
      simp only [hblob, hbytes]
      split
      · rename_i hzero
        rw [← outcome_processData, outcome_of_size_eq_zero hzero]
      · rw [ih, outcome_processData]

theorem sliceBody_eq (body : List Blob) (st : SliceState) :
    sliceBody body st = st.outcome (body.map Blob.bytes).flatten := by
  induction body generalizing st with
  | nil => simp [sliceBody, SliceState.outcome]
  | cons data body ih =>
    simp only [sliceBody, List.map_cons, List.flatten_cons]
    split
    · rename_i hzero
      rw [← outcome_processData, outcome_of_size_eq_zero hzero]
    · rw [ih, outcome_processData]

/-- The data of all records, in insertion order, is the body. -/
theorem map_data_flatten (b : Batch) :
    (b.records.map b.data).flatten = (b.body.map Blob.bytes).flatten := by
  -- the records without data contribute nothing, the others index the body in turn
  have hfilter : (b.records.map b.data).flatten =
      ((b.records.filterMap (·.dataIndex)).map
        fun i => ((b.body[i]?).map Blob.bytes).getD []).flatten := by
    generalize b.records = rs
    induction rs with
    | nil => rfl
    | cons r rs ih =>
      cases hi : r.dataIndex with
      | none => simp [ih, hi, data]
      | some i => simp [ih, hi, data]
  rw [hfilter, b.dataIndex_eq]
  congr 1
  apply List.ext_getElem
  · simp
  · intro i h₁ h₂
    have hlt : i < b.body.length := by simpa using h₁
    simp [List.getElem?_eq_getElem hlt]

/-- A permutation of the record indices. -/
def IsOrder (b : Batch) (order : List Nat) : Prop := order.Perm (List.range b.records.length)

theorem IsOrder.lt {b : Batch} {order : List Nat} (h : b.IsOrder order) {idx : Nat}
    (hidx : idx ∈ order) : idx < b.records.length := by
  simpa using h.mem_iff.1 hidx

theorem map_dataAt_range (b : Batch) :
    (List.range b.records.length).map b.dataAt = b.records.map b.data := by
  apply List.ext_getElem
  · simp
  · intro i h₁ h₂
    have hlt : i < b.records.length := by simpa using h₁
    simp [dataAt, List.getElem?_eq_getElem hlt]

/-- The length of the data of all records. -/
def total (b : Batch) : Nat := (b.records.map b.data).flatten.length

theorem total_eq_sum (b : Batch) : b.total = (b.body.map Blob.size).sum := by
  rw [total, map_data_flatten, List.length_flatten, List.map_map]
  rfl

/-- `size()` is the length of the data, as far as 64 bits can hold it. -/
theorem size_eq_total_mod (b : Batch) : b.size = b.total % 2 ^ 64 := by
  rw [b.size_eq, total_eq_sum]

theorem size_eq_total {b : Batch} (hfits : b.total < 2 ^ 64) : b.size = b.total := by
  rw [size_eq_total_mod, Nat.mod_eq_of_lt hfits]

theorem size_lt_limit (b : Batch) : b.size < 2 ^ 64 := by
  rw [size_eq_total_mod]
  exact Nat.mod_lt _ (Nat.two_pow_pos 64)

/-- In whatever order, the data of all records has the same length. -/
theorem length_ordered (b : Batch) {order : List Nat} (h : b.IsOrder order) :
    (order.map b.dataAt).flatten.length = b.total := by
  have hperm : ((order.map b.dataAt).map List.length).Perm
      (((List.range b.records.length).map b.dataAt).map List.length) := (h.map _).map _
  rw [List.length_flatten, hperm.sum_eq, map_dataAt_range, ← List.length_flatten, total]

/-- A substring that is empty from `limit` on is no other if the text ends there. -/
theorem cut_eq {limit : Nat} {text : Bytes} (h : text.length ≤ limit) (offset size : Nat) :
    (if limit ≤ offset then [] else (text.drop offset).take size) =
      (text.drop offset).take size := by
  split
  · rename_i hle
    rw [List.drop_eq_nil_of_le (Nat.le_trans h hle), List.take_nil]
  · rfl

/-- No lookup of `Slice` fails: it is a substring of the records' data taken in the
given order, or empty from `size()` on. -/
theorem slice_order (b : Batch) {order : List Nat} (h : b.IsOrder order) (offset size : Nat) :
    b.slice (some order) offset size =
      .ok (if b.size ≤ offset then []
        else ((order.map b.dataAt).flatten.drop offset).take size) := by
  unfold slice
  split <;> simp [sliceOrdered_eq b (fun _ => h.lt), SliceState.outcome]

theorem slice_insertionOrder (b : Batch) (offset size : Nat) :
    b.slice none offset size =
      .ok (if b.size ≤ offset then []
        else ((b.records.map b.data).flatten.drop offset).take size) := by
  unfold slice
  split <;> simp [sliceBody_eq, SliceState.outcome, map_data_flatten]

/-- The slicing law: if `size()` is the length of the data, the slice is the
substring of the records' data taken in the given order. -/
theorem slice_ordered {b : Batch} (hfits : b.total < 2 ^ 64) {order : List Nat}
    (h : b.IsOrder order) (offset size : Nat) :
    b.slice (some order) offset size =
      .ok (((order.map b.dataAt).flatten.drop offset).take size) := by
  rw [b.slice_order h, cut_eq (by rw [b.length_ordered h, size_eq_total hfits])]

theorem slice_insertion {b : Batch} (hfits : b.total < 2 ^ 64) (offset size : Nat) :
    b.slice none offset size =
      .ok (((b.records.map b.data).flatten.drop offset).take size) := by
  rw [b.slice_insertionOrder, cut_eq (Nat.le_of_eq (size_eq_total hfits).symm)]

end Batch

end Reduct
