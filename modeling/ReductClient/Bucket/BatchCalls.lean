-- SUMMARY: Batches as the calls that build them: what `Slice` and `size` return, in terms of the data given to the calls.
import ReductClient.Base.Fallible
import ReductClient.Bucket.Batch

open Cxx

namespace Reduct

/-! ## Building a batch -/

/-- A call that adds a record. The overloads without an entry name pass the empty one. -/
inductive BatchCall where
  | addRecord (entry : Bytes) (timestamp : Time) (data : Option Blob) (contentType : Bytes)
      (labels : LabelMap)
  | addEmptyRecord (entry : Bytes) (timestamp : Time)
  | addOnlyLabels (entry : Bytes) (timestamp : Time) (labels : LabelMap)

namespace BatchCall

/-- Make the call on a batch. -/
def apply (batch : Batch) : BatchCall → Except Fault Batch
  | addRecord entry timestamp data contentType labels =>
    batch.addRecord entry timestamp data contentType labels
  | addEmptyRecord entry timestamp => batch.addEmptyRecord entry timestamp
  | addOnlyLabels entry timestamp labels => batch.addOnlyLabels entry timestamp labels

/-- The data of the record that the call adds. -/
def data : BatchCall → Bytes
  | addRecord _ _ data _ _ => (data.map Blob.bytes).getD []
  | addEmptyRecord _ _ => []
  | addOnlyLabels _ _ _ => []

/-- Make the calls, one after the other, on a new batch. -/
def build (calls : List BatchCall) : Except Fault Batch := calls.foldlM apply .empty

end BatchCall

namespace Batch

/-- The data of the records, in insertion order. -/
def contents (b : Batch) : List Bytes := b.records.map b.data

@[simp] theorem contents_empty : Batch.empty.contents = [] := rfl

@[simp] theorem length_contents (b : Batch) : b.contents.length = b.records.length :=
  List.length_map _

/-- Blobs that are added later do not change the data of a record. -/
theorem data_eq_of_body_append {b b' : Batch} {added : List Blob} (hbody : b'.body = b.body ++ added)
    {r : Record} (hr : r ∈ b.records) : b'.data r = b.data r := by
  cases hi : r.dataIndex with
  | none => simp [data, hi]
  | some i =>
    have hlt := b.dataIndex_lt hr hi
    simp [data, hi, hbody, List.getElem?_append_left hlt]

/-- A record that is added behind the others adds its data. -/
theorem contents_of_records_append {b b' : Batch} {added : List Blob} {r : Record}
    (hbody : b'.body = b.body ++ added) (hrecords : b'.records = b.records ++ [r]) :
    b'.contents = b.contents ++ [b'.data r] := by
  have hold : b.records.map b'.data = b.contents :=
    List.map_congr_left fun r hr => data_eq_of_body_append hbody hr
  rw [contents, hrecords, List.map_append, hold, List.map_singleton]

theorem contents_addRecord {b b' : Batch} {entry : Bytes} {timestamp : Time} {blob : Option Blob}
    {contentType : Bytes} {labels : LabelMap}
    (h : b.addRecord entry timestamp blob contentType labels = .ok b') :
    b'.contents = b.contents ++ [(blob.map Blob.bytes).getD []] := by
  unfold addRecord at h
  dsimp only at h
  split at h
  · cases h
    rw [contents_of_records_append rfl rfl]
    cases blob <;> simp [data]
  · cases h

theorem contents_addWithoutData {b b' : Batch} {entry : Bytes} {timestamp : Time}
    {labels : LabelMap} (h : b.addWithoutData entry timestamp labels = .ok b') :
    b'.contents = b.contents ++ [[]] := by
  unfold addWithoutData at h
  split at h
  · have h := Except.ok.inj h
    have hbody : b'.body = b.body ++ [] := by rw [← h, List.append_nil]
    have hrecords : b'.records = b.records ++ [⟨entry, timestamp, 0, [], labels, none⟩] := by
      rw [← h]
    rw [contents_of_records_append hbody hrecords]
    rfl
  · cases h

/-- The data of all records taken in an order. -/
theorem map_dataAt (b : Batch) {order : List Nat} (h : b.IsOrder order) :
    order.map b.dataAt = order.map fun idx => b.contents.getD idx [] := by
  refine List.map_congr_left fun idx hidx => ?_
  have hlt := h.lt hidx
  simp [dataAt, contents, List.getElem?_eq_getElem hlt]

end Batch

namespace BatchCall

theorem contents_apply {batch batch' : Batch} {call : BatchCall}
    (h : call.apply batch = .ok batch') : batch'.contents = batch.contents ++ [call.data] := by
  cases call with
  | addRecord entry timestamp data contentType labels => exact Batch.contents_addRecord h
  | addEmptyRecord entry timestamp => exact Batch.contents_addWithoutData h
  | addOnlyLabels entry timestamp labels => exact Batch.contents_addWithoutData h

/-- A batch holds the data that was given to the calls, in their order. -/
theorem contents_build {calls : List BatchCall} {batch : Batch} (h : build calls = .ok batch) :
    batch.contents = calls.map data := by
  refine Fallible.foldlM_invariant (fun before batch => batch.contents = before.map data) h rfl ?_
  intro before call batch batch' hcontents hcall
  rw [contents_apply hcall, hcontents, List.map_append, List.map_singleton]

/-- A batch takes up to `2 ^ 64 - 1` records. -/
theorem build_succeeds {calls : List BatchCall} (h : calls.length < 2 ^ 64) :
    ∃ batch, build calls = .ok batch := by
  induction calls using List.reverseRecOn with
  | nil => exact ⟨.empty, rfl⟩
  | append_singleton calls call ih =>
    rw [List.length_append, List.length_singleton] at h
    obtain ⟨batch, hbatch⟩ := ih (by omega)
    have hlength : batch.records.length + 1 < 2 ^ 64 := by
      rw [← batch.length_contents, contents_build hbatch, List.length_map]
      exact h
    have happly : ∃ batch', call.apply batch = .ok batch' := by
      cases call <;>
        simp only [apply, Batch.addRecord, Batch.addEmptyRecord, Batch.addOnlyLabels,
          Batch.addWithoutData, dif_pos hlength] <;> exact ⟨_, rfl⟩
    obtain ⟨batch', hbatch'⟩ := happly
    refine ⟨batch', ?_⟩
    rw [build, List.foldlM_append, ← build, hbatch]
    simp only [List.foldlM_cons, List.foldlM_nil, bind, Except.bind, hbatch']
    rfl

/-! ## The slicing law -/

/-- The data given to the calls, taken in an order of their positions. -/
def dataInOrder (calls : List BatchCall) (order : List Nat) : Bytes :=
  (order.map fun idx => (calls.map data).getD idx []).flatten

/-- The data given to the calls, in the order of the calls. -/
def allData (calls : List BatchCall) : Bytes := (calls.map data).flatten

/-- The offsets and sizes of pieces that follow each other from an offset on. -/
def tiles : Nat → List Nat → List (Nat × Nat)
  | _, [] => []
  | offset, size :: sizes => (offset, size) :: tiles (offset + size) sizes

/-- A slicing of a body is its substrings, and its tilings put it together again. -/
structure Slices (slice : Nat → Nat → Except Fault Bytes) (body : Bytes) : Prop where
  /-- No lookup goes out of range, and the slice is the substring. -/
  substring : ∀ offset size, slice offset size = .ok ((body.drop offset).take size)
  tiling : ∀ sizes : List Nat, sizes.sum = body.length →
    ((tiles 0 sizes).mapM fun tile => slice tile.1 tile.2).map List.flatten = .ok body

/-- Substrings that follow each other are a longer substring. -/
theorem flatten_tiles (body : Bytes) (offset : Nat) (sizes : List Nat) :
    ((tiles offset sizes).map fun tile => (body.drop tile.1).take tile.2).flatten =
      (body.drop offset).take sizes.sum := by
  induction sizes generalizing offset with
  | nil => simp [tiles]
  | cons size sizes ih =>
    rw [tiles, List.map_cons, List.flatten_cons, ih, List.sum_cons, List.take_add, List.drop_drop]

theorem slices_of_substring {slice : Nat → Nat → Except Fault Bytes} {body : Bytes}
    (h : ∀ offset size, slice offset size = .ok ((body.drop offset).take size)) :
    Slices slice body where
  substring := h
  tiling sizes hsum := by
    have hpieces : ((tiles 0 sizes).mapM fun tile => slice tile.1 tile.2) =
        .ok ((tiles 0 sizes).map fun tile => (body.drop tile.1).take tile.2) := by
      rw [Fallible.mapM_eq_ok, List.forall₂_map_right_iff]
      exact List.forall₂_same.2 fun tile _ => h tile.1 tile.2
    rw [hpieces, Except.map, flatten_tiles, hsum, List.drop_zero, List.take_length]

/-- The slicing law: whatever order the records are taken in, and in the order of the
calls if none is given, a batch is sliced as the data given to the calls. -/
structure SlicingLaw (calls : List BatchCall) (batch : Batch) : Prop where
  ordered : ∀ order : List Nat, order.Perm (List.range calls.length) →
    Slices (batch.slice (some order)) (dataInOrder calls order) ∧
      batch.size = (dataInOrder calls order).length
  insertion : Slices (batch.slice none) (allData calls)
  size_eq : batch.size = (allData calls).length

/-- A batch holds the data given to the calls, and counts it modulo `2 ^ 64`. -/
theorem total_build {calls : List BatchCall} {batch : Batch} (hbuild : build calls = .ok batch) :
    batch.total = (allData calls).length :=
  congrArg (fun contents => contents.flatten.length) (contents_build hbuild)

/-- The calls that add one shared blob of `size` zeros, `count` times. -/
def sharedBlob (count size : Nat) (h : size < 2 ^ 64) : List BatchCall :=
  List.replicate count (addRecord (bytes "e") (.wrap 0)
    (some ⟨List.replicate size 0, by rwa [List.length_replicate]⟩) [] ∅)

theorem length_sharedBlob {count size : Nat} (h : size < 2 ^ 64) :
    (allData (sharedBlob count size h)).length = count * size := by
  simp [allData, sharedBlob, data]

/-- The law holds of the batches whose data is shorter than `2 ^ 64` bytes, and of no
others. -/
theorem slicingLaw_iff {calls : List BatchCall} {batch : Batch} (hbuild : build calls = .ok batch) :
    SlicingLaw calls batch ↔ (allData calls).length < 2 ^ 64 := by
  have hcontents := contents_build hbuild
  have hlength : batch.records.length = calls.length := by
    rw [← batch.length_contents, hcontents, List.length_map]
  have hordered : ∀ {order : List Nat}, batch.IsOrder order →
      (order.map batch.dataAt).flatten = dataInOrder calls order := by
    intro order horder
    rw [batch.map_dataAt horder, hcontents, dataInOrder]
  have hall : (batch.records.map batch.data).flatten = allData calls :=
    congrArg List.flatten hcontents
  constructor
  · intro hlaw
    rw [← hlaw.size_eq]
    exact batch.size_lt_limit
  · intro hlt
    have hfits : batch.total < 2 ^ 64 := by rwa [total_build hbuild]
    refine ⟨fun order hperm => ?_, ?_, ?_⟩
    · have horder : batch.IsOrder order := by rwa [Batch.IsOrder, hlength]
      rw [← hordered horder]
      exact ⟨slices_of_substring (Batch.slice_ordered hfits horder),
        (Batch.size_eq_total hfits).trans (batch.length_ordered horder).symm⟩
    · rw [← hall]
      exact slices_of_substring (Batch.slice_insertion hfits)
    · rw [Batch.size_eq_total hfits, total_build hbuild]

theorem slicingLaw_of_calls : ∃ batch,
    build [addRecord [] ⟨1, by decide, by decide⟩ (some ⟨bytes "abc", by decide⟩) [] ∅,
      addOnlyLabels [] ⟨2, by decide, by decide⟩ ∅,
      addRecord [] ⟨3, by decide, by decide⟩ (some ⟨bytes "de", by decide⟩) [] ∅] = .ok batch ∧
    batch.slice (some [2, 1, 0]) 1 3 = .ok (bytes "eab") ∧
    batch.slice none 1 3 = .ok (bytes "bcd") ∧ batch.size = 5 := by
  refine ⟨_, rfl, ?_⟩
  obtain ⟨hordered, hinsertion, hsize⟩ := (slicingLaw_iff
    (show build [addRecord [] ⟨1, by decide, by decide⟩ (some ⟨bytes "abc", by decide⟩) [] ∅,
      addOnlyLabels [] ⟨2, by decide, by decide⟩ ∅,
      addRecord [] ⟨3, by decide, by decide⟩ (some ⟨bytes "de", by decide⟩) [] ∅] = .ok _
      from rfl)).2 (by decide)
  exact ⟨(hordered [2, 1, 0] (by decide)).1.substring 1 3, hinsertion.substring 1 3, hsize⟩

/-- A blob of 64 GiB, shared by 2^28 records: the size of the batch wraps to 0. -/
theorem slicingLaw_broken : ∃ batch,
    build (sharedBlob (2 ^ 28) (2 ^ 36) (by decide)) = .ok batch ∧ batch.size = 0 ∧
      ¬ SlicingLaw (sharedBlob (2 ^ 28) (2 ^ 36) (by decide)) batch := by
  have hlength : (sharedBlob (2 ^ 28) (2 ^ 36) (by decide)).length < 2 ^ 64 := by
    rw [sharedBlob, List.length_replicate]
    norm_num
  obtain ⟨batch, hbatch⟩ := build_succeeds hlength
  have hdata := @length_sharedBlob (2 ^ 28) (2 ^ 36) (by decide)
  have hsize : batch.size = 0 := by
    rw [batch.size_eq_total_mod, total_build hbatch, hdata]
    norm_num
  refine ⟨batch, hbatch, hsize, fun hlaw => ?_⟩
  have hwhole := hlaw.size_eq
  rw [hdata, hsize] at hwhole
  norm_num at hwhole

end BatchCall

end Reduct
