-- SUMMARY: The framing of batch writes: which batches are sent so that the body, cut by the sizes in the record headers, gives each record its data.
import Mathlib.Algebra.Order.BigOperators.Group.List
import ReductClient.Base.Chunks
import ReductClient.Internal.EntryNames

open Cxx

namespace Reduct

/-! ## What is sent -/

/-- The body an HTTP client sends when it asks the content provider for slices of
the given sizes, one after the other. -/
def transmit (callback : WriteCallback) : Nat → List Nat → Except Fault Bytes
  | _, [] => .ok []
  | offset, size :: sizes => do
    let (_, data) ← callback offset size
    let rest ← transmit callback (offset + size) sizes
    pure (data ++ rest)

/-- The body of a request, if its content provider is asked for the whole of it at once. -/
def HttpRequest.body : HttpRequest → Except Fault Bytes
  | .post _ _ contentLength _ callback => transmit callback 0 [contentLength]
  | .patch _ body _ => .ok body
  | .delete _ _ => .ok []

/-- However the body is sliced, it is the data of the records in request order. -/
theorem transmit_batchProvider {batch : Batch} (hfits : batch.total < 2 ^ 64) {order : List Nat}
    (h : batch.IsOrder order) (offset : Nat) (sizes : List Nat) :
    transmit (batchProvider batch order) offset sizes =
      .ok (((order.map batch.dataAt).flatten.drop offset).take sizes.sum) := by
  induction sizes generalizing offset with
  | nil => simp [transmit]
  | cons size sizes ih =>
    have hslice := Batch.slice_ordered hfits h offset size
    simp only [transmit, batchProvider, hslice, bind, Except.bind, pure, Except.pure] at ih ⊢
    rw [ih, List.sum_cons, List.take_add, List.drop_drop]

/-- Asked for the whole body at once, the provider gives no more than that. -/
theorem length_transmit_le {batch : Batch} {order : List Nat} (h : batch.IsOrder order)
    {body : Bytes} (hbody : transmit (batchProvider batch order) 0 [batch.size] = .ok body) :
    body.length ≤ batch.size := by
  have hslice := batch.slice_order h 0 batch.size
  simp only [transmit, batchProvider, hslice, bind, Except.bind, pure, Except.pure,
    Except.ok.injEq] at hbody
  rw [← hbody, List.append_nil]
  split
  · exact Nat.zero_le _
  · exact List.length_take_le _ _

/-! ## What the headers say -/

/-- The announced records: what the header names, and the size. -/
abbrev Announced (κ : Type) := List (κ × Nat)

/-- The announced records name the records of the batch, and the body is made up
of their data, piece by piece. -/
structure Framed {κ : Type} (batch : Batch) (key : Record → κ) (announced : Announced κ)
    (body : Bytes) : Prop where
  /-- Each record is named once. -/
  names : (announced.map Prod.fst).Perm (batch.records.map key)
  /-- Each piece is the data of the record that is named. -/
  pieces : ∀ (k : Nat) (a : κ × Nat) (piece : Bytes), announced[k]? = some a →
    ((announced.map Prod.snd).splitLengths body)[k]? = some piece →
      ∀ r ∈ batch.records, key r = a.1 → piece = batch.data r
  /-- Nothing is left over. -/
  used : (announced.map Prod.snd).sum = body.length

/-- The request posts a body that is framed by its headers, in whatever order
these are iterated and however the body is sliced. -/
def FramesBatch {κ : Type} (batch : Batch) (key : Record → κ) (announced : Headers → Announced κ)
    (request : HttpRequest) : Prop :=
  ∃ path mime contentLength headers callback,
    request = .post path mime contentLength headers callback ∧
    ∀ headers', headers.Same headers' → ∀ tiling : List Nat, tiling.sum = contentLength →
      ∃ body, transmit callback 0 tiling = .ok body ∧ Framed batch key (announced headers') body

theorem framed_of_order {κ : Type} {batch : Batch} {key : Record → κ} {order : List Nat}
    (h : batch.IsOrder order) (hdistinct : (batch.records.map key).Nodup) :
    Framed batch key ((batch.inOrder order).map fun r => (key r, r.size))
      (order.map batch.dataAt).flatten where
  names := by
    rw [List.map_map]
    exact h.inOrder_perm.map key
  pieces k a piece ha hpiece r hr hkey := by
    have hpieces : ((batch.inOrder order).map Record.size).splitLengths
        (order.map batch.dataAt).flatten = order.map batch.dataAt := by
      have hsizes : (batch.inOrder order).map Record.size =
          (order.map batch.dataAt).map List.length := by
        rw [Batch.inOrder, List.map_map, List.map_map]
        exact List.map_congr_left fun idx hidx => h.size_eq hidx
      rw [hsizes, Chunks.splitLengths_flatten]
    rw [List.map_map] at hpiece
    have hpiece := (congrArg (·[k]?) hpieces).symm.trans hpiece
    simp only [Batch.inOrder, List.map_map, List.getElem?_map, Option.map_eq_some_iff] at ha hpiece
    obtain ⟨idx, hidx, rfl⟩ := ha
    obtain ⟨idx', hidx', rfl⟩ := hpiece
    obtain rfl : idx = idx' := Option.some.inj (hidx.symm.trans hidx')
    have hmem := h.recordAt_mem (List.mem_of_getElem? hidx)
    have hsame : r = batch.recordAt idx := List.inj_on_of_nodup_map hdistinct hr hmem hkey
    rw [hsame, batch.dataAt_eq (h.lt (List.mem_of_getElem? hidx))]
  used := by
    rw [List.map_map, batch.length_ordered h]
    exact h.sum_sizes

/-- A request whose headers announce the records in the order of its slices frames the
batch if and only if its content length does not wrap. -/
theorem framesBatch_post_iff {κ : Type} {batch : Batch} {key : Record → κ}
    {announced : Headers → Announced κ} {order : List Nat} {headers : Headers}
    (path mime : Bytes) (horder : batch.IsOrder order)
    (hdistinct : (batch.records.map key).Nodup)
    (hannounced : ∀ headers', headers.Same headers' →
      announced headers' = (batch.inOrder order).map fun r => (key r, r.size)) :
    FramesBatch batch key announced
      (.post path mime batch.size headers (batchProvider batch order)) ↔ batch.total < 2 ^ 64 := by
  constructor
  · rintro ⟨_, _, _, _, _, ⟨⟩, hframes⟩
    obtain ⟨body, hbody, hframed⟩ := hframes headers (.refl _) [batch.size] (by simp)
    have hused := hframed.used
    rw [hannounced headers (.refl _), List.map_map] at hused
    have hle := length_transmit_le horder hbody
    have htotal : batch.total ≤ batch.size := by
      rw [← horder.sum_sizes]
      exact hused.trans_le hle
    exact htotal.trans_lt batch.size_lt_limit
  · intro hfits
    refine ⟨_, _, _, _, _, rfl, ?_⟩
    intro headers' hsame tiling htiling
    have hbody : ((order.map batch.dataAt).flatten.drop 0).take tiling.sum =
        (order.map batch.dataAt).flatten := by
      rw [List.drop_zero, htiling, Batch.size_eq_total hfits, ← batch.length_ordered horder,
        List.take_length]
    refine ⟨_, transmit_batchProvider hfits horder 0 tiling, ?_⟩
    rw [hbody, hannounced headers' hsame]
    exact framed_of_order horder hdistinct

variable [StdSort]

/-! ## Protocol v1 -/

/-- The microseconds in the name of a v1 record header, with the size. -/
def readHeaderV1 (header : Bytes × Bytes) : Option (Nat × Nat) :=
  match stoull (header.1.drop kHeaderTimePrefix.length) with
  | .ok micros => some (micros, announcedSize header.2)
  | .error _ => none

/-- The v1 record headers by their numeric timestamps. -/
def announcedV1 (headers : Headers) : Announced Nat :=
  StdSort.sort (fun a b => decide (a.1 < b.1))
    ((recordHeaders isRecordNameV1 headers).filterMap readHeaderV1)

omit [StdSort] in
theorem readHeaderV1_recordHeaderV1 {batch : Batch} {r : Record} (hr : r ∈ batch.records)
    (hepoch : r.timestamp.AfterEpoch) :
    readHeaderV1 (recordHeaderV1 r .kWrite) = some (r.timestamp.micros, r.size) := by
  rw [readHeaderV1, recordHeaderV1_name hepoch, recordNameV1, List.drop_left',
    stoull_decimal_nil r.timestamp.micros_lt_size, announcedSize_recordHeaderV1 (batch.size_lt hr)]
  rfl

omit [StdSort] in
theorem fstLess_swo : StrictWeakOrder fun a b : Nat × Nat => decide (a.1 < b.1) := by
  refine .of_cmp (compareOn Prod.fst) ?_
  intro a b
  rw [Bool.eq_iff_iff, beq_iff_eq, compareOn, Nat.compare_eq_lt, decide_eq_true_eq]

theorem announcedV1_requestV1 {batch : Batch} {entryName : Bytes}
    (hepoch : ∀ r ∈ batch.records, r.timestamp.AfterEpoch)
    (hdistinct : (batch.records.map (·.timestamp.micros)).Nodup) (bucketPath : Bytes)
    {headers : Headers}
    (hsame : (requestV1 bucketPath entryName batch .kWrite).headers.Same headers) :
    announcedV1 headers = (batch.inOrder (sortRecords batch entryName false)).map fun r =>
      (r.timestamp.micros, r.size) := by
  have horder := sortRecords_isOrder batch entryName false
  have hperm := horder.inOrder_perm
  have hmem : ∀ r ∈ batch.inOrder (sortRecords batch entryName false), r ∈ batch.records :=
    fun r => hperm.mem_iff.1
  have hdistinct' := (hperm.map (·.timestamp.micros)).nodup_iff.2 hdistinct
  have hheaders : recordHeaders isRecordNameV1 (requestV1 bucketPath entryName batch .kWrite).headers =
      (batch.inOrder (sortRecords batch entryName false)).map (recordHeaderV1 · .kWrite) := by
    rw [requestV1_headers]
    refine (recordHeaders_emplaceAll (by simp) ?_ (by simp) ?_).2
    · exact List.forall_mem_map.2 fun r _ => isPrefixOf_append _ _
    · rw [List.map_map]
      refine (nodup_map_iff fun r hr r' hr' => ?_).2 hdistinct'
      simp only [Function.comp_apply, recordHeaderV1_name (hepoch _ (hmem _ hr)),
        recordHeaderV1_name (hepoch _ (hmem _ hr'))]
      exact ⟨recordNameV1_injective, congrArg _⟩
  have hread : (recordHeaders isRecordNameV1
      (requestV1 bucketPath entryName batch .kWrite).headers).filterMap readHeaderV1 =
      (batch.inOrder (sortRecords batch entryName false)).map fun r =>
        (r.timestamp.micros, r.size) := by
    rw [hheaders, List.filterMap_map, List.filterMap_eq_map_iff_forall_eq_some]
    exact fun r hr => readHeaderV1_recordHeaderV1 (hmem r hr) (hepoch r (hmem r hr))
  refine sort_eq fstLess_swo ?_ ?_
  · rw [← hread]
    exact ((hsame.filter _).filterMap _).symm
  · rw [List.pairwise_map]
    refine ((sortRecords_byTime hepoch entryName).and (List.pairwise_map.1 hdistinct')).imp ?_
    rintro r r' ⟨hle, hne⟩
    exact decide_eq_true (Nat.lt_of_le_of_ne hle hne)

/-! ## Protocol v2 -/

/-- A parsed v2 record header: the entry and the microseconds it names, with the
size. -/
def readHeaderV2 (entries : List Bytes) (startTs : Nat) :
    ParsedHeader → Option ((Bytes × Nat) × Nat)
  | (entryIdx, delta, value) =>
    (entries[entryIdx]?).map fun entry => ((entry, startTs + delta), announcedSize value)

/-- The v2 record headers by entry index and delta. Their entries are those the list of
the request gives. -/
def announcedV2 (headers : Headers) : Announced (Bytes × Nat) :=
  match headers.find? kHeaderEntries, (headers.find? kHeaderStartTs).map stoull with
  | some rawEntries, some (.ok startTs) =>
    (StdSort.sort parsedHeaderLess (parsedHeaders headers)).filterMap
      (readHeaderV2 (parseEncodedList rawEntries) startTs)
  | _, _ => []

section Announced

variable {batch : Batch} {defaultEntry : Bytes} {st : IndexState} {order : List Nat}
  {headers : Headers}

/-- The headers of a request name what the list gives back for the entry of each record. -/
theorem announcedV2_requestHeadersV2 (horder : batch.IsOrder order)
    (h : Indexed defaultEntry (batch.inOrder order) st)
    (hsorted : InRequestOrder defaultEntry (batch.inOrder order))
    (hdistinct : DistinctKeys batch defaultEntry)
    (hsame : (requestHeadersV2 defaultEntry .kWrite st (batch.inOrder order)).Same headers) :
    announcedV2 headers = (batch.inOrder order).filterMap fun r =>
      ((st.entries.filterMap relisted)[(st.name defaultEntry r).1]?).map fun entry =>
        ((entry, r.timestamp.micros), r.size) := by
  have hperm := horder.inOrder_perm
  have hlength := horder.inOrder_lt
  have hdistinct' : ((batch.inOrder order).map (recordKey defaultEntry)).Nodup :=
    (hperm.map _).nodup_iff.2 hdistinct
  have hentries : headers.find? kHeaderEntries = some (join (st.entries.map encodeEntryName)) :=
    find_common hsame (by simp [commonHeadersV2])
  have hstart : headers.find? kHeaderStartTs = some (decimal st.startTs) :=
    find_common hsame (by simp [commonHeadersV2])
  rw [announcedV2, hentries, hstart, Option.map_some, stoull_decimal_nil h.startTs_lt,
    h.sort_parsedHeaders hlength hsorted hdistinct' hsame]
  dsimp only
  rw [List.filterMap_map, parseEncodedList_join]
  refine List.filterMap_congr fun r hr => ?_
  have hle := h.startTs_le r hr
  obtain ⟨i, -, hname⟩ := h.name_eq hr
  have hsize := announcedSize_buildHeaderValueV2 (batch.size_lt (hperm.mem_iff.1 hr))
  have hmicros : st.startTs + (r.timestamp.micros - st.startTs) = r.timestamp.micros := by omega
  simp [readHeaderV2, IndexState.parsed, hname, hsize, hmicros]

/-- If the list gives back every entry, the headers name the records. -/
theorem announcedV2_of_listable (horder : batch.IsOrder order)
    (h : Indexed defaultEntry (batch.inOrder order) st)
    (hsorted : InRequestOrder defaultEntry (batch.inOrder order))
    (hdistinct : DistinctKeys batch defaultEntry)
    (hlistable : ∀ r ∈ batch.records, Listable (recordEntry r defaultEntry))
    (hsame : (requestHeadersV2 defaultEntry .kWrite st (batch.inOrder order)).Same headers) :
    announcedV2 headers =
      (batch.inOrder order).map fun r => (recordKey defaultEntry r, r.size) := by
  have hentries : st.entries.filterMap relisted = st.entries := by
    refine filterMap_eq_self_iff.2 fun entry hentry => ?_
    obtain ⟨r, hr, rfl⟩ := List.mem_map.1 (h.sublist.subset hentry)
    exact (relisted_iff _).2 (hlistable r (horder.inOrder_perm.mem_iff.1 hr))
  rw [announcedV2_requestHeadersV2 horder h hsorted hdistinct hsame, hentries,
    List.filterMap_eq_map_iff_forall_eq_some]
  intro r hr
  obtain ⟨i, hi, hname⟩ := h.name_eq hr
  simp [hname, hi, recordKey]

end Announced

omit [StdSort] in
/-- Names that are read back as the same names, if in another order, are listable. -/
theorem listable_of_perm {records : List Record} {entryOf decoded : Record → Bytes}
    (hdecoded : ∀ r ∈ records, relisted (entryOf r) = some (decoded r))
    (hperm : (records.map decoded).Perm (records.map entryOf)) :
    ∀ r ∈ records, Listable (entryOf r) := by
  -- no name has become longer, so none has become shorter
  have hsum : (records.map fun r => (decoded r).length).sum =
      (records.map fun r => (entryOf r).length).sum := by
    have hsums := (hperm.map List.length).sum_eq
    rwa [List.map_map, List.map_map] at hsums
  have hlength : ∀ r ∈ records, (decoded r).length = (entryOf r).length := by
    have hle : ∀ r ∈ records, (decoded r).length ≤ (entryOf r).length :=
      fun r hr => (relisted_length (hdecoded r hr)).2.1
    intro r hr
    by_contra hne
    have hlt := List.sum_lt_sum _ _ hle ⟨r, hr, Nat.lt_of_le_of_ne (hle r hr) hne⟩
    exact hlt.ne hsum
  intro r hr
  refine ⟨(relisted_length (hdecoded r hr)).1, ?_⟩
  obtain ⟨r', hr', heq⟩ := List.mem_map.1 (hperm.mem_iff.2 (List.mem_map_of_mem hr))
  rw [← heq]
  exact (relisted_length (hdecoded r' hr')).2.2 (hlength r' hr')

omit [StdSort] in
/-- The list gives back as many entries as there are, if each record has one at its index. -/
theorem length_filterMap_relisted {records : List Record} {defaultEntry : Bytes} {st : IndexState}
    (h : Indexed defaultEntry records st)
    (hinRange : ∀ r ∈ records,
      (st.name defaultEntry r).1 < (st.entries.filterMap relisted).length) :
    (st.entries.filterMap relisted).length = st.entries.length := by
  refine Nat.le_antisymm (List.length_filterMap_le _ _) ?_
  by_contra hlt
  -- otherwise the record of the first entry beyond the list has no entry
  have hlast : (st.entries.filterMap relisted).length < st.entries.length := by omega
  obtain ⟨r, hr, hentry⟩ := List.mem_map.1 (h.sublist.subset (List.getElem_mem hlast))
  obtain ⟨i, hi, hname⟩ := h.name_eq hr
  have hi' := hinRange r hr
  have hget : st.entries[(st.entries.filterMap relisted).length]? =
      some (recordEntry r defaultEntry) := by
    rw [List.getElem?_eq_getElem hlast, ← hentry]
  rw [hname] at hi'
  rw [(List.getElem?_inj (List.getElem?_eq_some_iff.1 hi).1 h.nodup).1 (hi.trans hget.symm)] at hi'
  exact Nat.lt_irrefl _ hi'

/-- If the headers name each record, the list gives back every entry. -/
theorem listable_of_announced {batch : Batch} {defaultEntry : Bytes} {st : IndexState}
    {order : List Nat} {headers : Headers} (horder : batch.IsOrder order)
    (h : Indexed defaultEntry (batch.inOrder order) st)
    (hsorted : InRequestOrder defaultEntry (batch.inOrder order))
    (hdistinct : DistinctKeys batch defaultEntry)
    (hsame : (requestHeadersV2 defaultEntry .kWrite st (batch.inOrder order)).Same headers)
    (hnames : ((announcedV2 headers).map Prod.fst).Perm
      (batch.records.map (recordKey defaultEntry))) :
    ∀ r ∈ batch.records, Listable (recordEntry r defaultEntry) := by
  have hperm := horder.inOrder_perm
  have hnames := hnames.trans (hperm.map (recordKey defaultEntry)).symm
  rw [announcedV2_requestHeadersV2 horder h hsorted hdistinct hsame] at hnames
  -- every header names an entry of the list, so the list has as many fields as entries
  have hall : ∀ r ∈ batch.inOrder order,
      (((st.entries.filterMap relisted)[(st.name defaultEntry r).1]?).map fun entry =>
        ((entry, r.timestamp.micros), r.size)).isSome := by
    rw [← List.filterMap_length_eq_length, ← List.length_map Prod.fst, hnames.length_eq,
      List.length_map]
  have hinRange : ∀ r ∈ batch.inOrder order,
      (st.name defaultEntry r).1 < (st.entries.filterMap relisted).length := by
    intro r hr
    have hsome := hall r hr
    rw [Option.isSome_map] at hsome
    exact List.getElem?_eq_some_iff.1 (Option.isSome_iff_exists.1 hsome).choose_spec |>.1
  have hcount := length_filterMap_relisted h hinRange
  have hrelisted : ∀ entry ∈ st.entries, relisted entry = some ((relisted entry).getD []) := by
    intro entry hentry
    obtain ⟨decoded, hdecoded⟩ := Option.isSome_iff_exists.1
      (List.filterMap_length_eq_length.1 hcount entry hentry)
    rw [hdecoded]
    rfl
  have hfields : st.entries.filterMap relisted =
      st.entries.map fun entry => (relisted entry).getD [] :=
    List.filterMap_eq_map_iff_forall_eq_some.2 hrelisted
  have hannounced : ((batch.inOrder order).filterMap fun r =>
      ((st.entries.filterMap relisted)[(st.name defaultEntry r).1]?).map fun entry =>
        ((entry, r.timestamp.micros), r.size)) =
      (batch.inOrder order).map fun r =>
        (((relisted (recordEntry r defaultEntry)).getD [], r.timestamp.micros), r.size) := by
    rw [hfields, List.filterMap_eq_map_iff_forall_eq_some]
    intro r hr
    obtain ⟨i, hi, hname⟩ := h.name_eq hr
    simp [hname, hi]
  have hentries := hnames.map Prod.fst
  rw [hannounced, List.map_map, List.map_map, List.map_map] at hentries
  intro r hr
  exact listable_of_perm (fun r hr => hrelisted _ (h.mem r hr)) hentries r (hperm.mem_iff.2 hr)

/-! ## Both protocols -/

theorem framesBatch_requestV1_iff {batch : Batch} {entryName : Bytes}
    (hepoch : ∀ r ∈ batch.records, r.timestamp.AfterEpoch)
    (hdistinct : DistinctKeys batch entryName) (hone : ¬ SeveralEntries batch entryName)
    (bucketPath : Bytes) :
    FramesBatch batch (·.timestamp.micros) announcedV1
      (requestV1 bucketPath entryName batch .kWrite) ↔ batch.total < 2 ^ 64 := by
  have hmicros : (batch.records.map (·.timestamp.micros)).Nodup := by
    refine (nodup_map_iff fun r hr r' hr' => ?_).2 hdistinct
    simp [recordKey, recordEntry_eq_of_one hone hr hr']
  exact framesBatch_post_iff _ _ (sortRecords_isOrder batch entryName false) hmicros
    fun _ => announcedV1_requestV1 hepoch hmicros bucketPath

theorem framesBatch_requestV2_iff {batch : Batch} {defaultEntry : Bytes} {requireEntry : Bool}
    {request : BatchV2Request} (hepoch : ∀ r ∈ batch.records, r.timestamp.AfterEpoch)
    (hdistinct : DistinctKeys batch defaultEntry)
    (hbuilt : buildBatchV2Request defaultEntry batch .kWrite requireEntry = .ok request)
    (ioPath : Bytes) :
    FramesBatch batch (recordKey defaultEntry) announcedV2
        (requestV2 ioPath .kWrite batch request) ↔
      batch.total < 2 ^ 64 ∧ ∀ r ∈ batch.records, Listable (recordEntry r defaultEntry) := by
  have horder := sortRecords_isOrder batch defaultEntry true
  rcases buildBatchV2Request_cases defaultEntry batch .kWrite requireEntry with
    ⟨hnil, hordered, heq⟩ | ⟨-, -, heq⟩ | ⟨-, -, -, st, hindexed, heq⟩
  · -- the batch is empty
    obtain rfl := Except.ok.inj (heq.symm.trans hbuilt)
    rw [hordered] at horder
    have hnone (headers' : Headers) (hsame : UnorderedMap.empty.Same headers') :
        announcedV2 headers' = [] := by
      have hfind : headers'.find? kHeaderEntries = none := by rw [← hsame.find?]; rfl
      rw [announcedV2, hfind]
    have hiff := @framesBatch_post_iff _ batch (recordKey defaultEntry) announcedV2 [] .empty
      (ioPath ++ bytes "/write") (bytes "application/octet-stream") horder hdistinct hnone
    rw [requestV2, hiff, hnil]
    simp
  · rw [heq] at hbuilt
    cases hbuilt
  · obtain rfl := Except.ok.inj (heq.symm.trans hbuilt)
    have hsorted := sortRecords_byEntry hepoch defaultEntry
    have hiff (hlistable : ∀ r ∈ batch.records, Listable (recordEntry r defaultEntry)) :=
      framesBatch_post_iff (ioPath ++ bytes "/write") (bytes "application/octet-stream") horder
        hdistinct fun _ => announcedV2_of_listable horder hindexed hsorted hdistinct hlistable
    rw [requestV2]
    dsimp only
    constructor
    · intro hframes
      have hlistable : ∀ r ∈ batch.records, Listable (recordEntry r defaultEntry) := by
        obtain ⟨_, _, _, _, _, hrequest, hbodies⟩ := hframes
        cases hrequest
        obtain ⟨body, -, hframed⟩ := hbodies _ (.refl _) [batch.size] (by simp)
        exact listable_of_announced horder hindexed hsorted hdistinct (.refl _) hframed.names
      exact ⟨(hiff hlistable).1 hframes, hlistable⟩
    · rintro ⟨hfits, hlistable⟩
      exact (hiff hlistable).2 hfits

/-- A batch is framed by its v1 request, if it has one entry, exactly if its content length
does not wrap, and by its v2 request exactly if moreover the list of entries gives back the
entry of each record. The v2 request is built unless an entry is required and missing. -/
theorem framesWrites_iff (batch : Batch) (defaultEntry : Bytes)
    (hepoch : ∀ r ∈ batch.records, r.timestamp.AfterEpoch)
    (hdistinct : DistinctKeys batch defaultEntry) :
    (¬ SeveralEntries batch defaultEntry → ∀ server bucketPath, ∃ request,
      (processBatchV1 server bucketPath defaultEntry batch .kWrite).sent = [request] ∧
      (FramesBatch batch (·.timestamp.micros) announcedV1 request ↔ batch.total < 2 ^ 64)) ∧
    ∀ requireEntry,
      (requireEntry = true ∧ (∃ r ∈ batch.records, recordEntry r defaultEntry = []) ∧
        buildBatchV2Request defaultEntry batch .kWrite requireEntry = .error entryRequired) ∨
      ∃ request, buildBatchV2Request defaultEntry batch .kWrite requireEntry = .ok request ∧
        ∀ ioPath, (FramesBatch batch (recordKey defaultEntry) announcedV2
            (requestV2 ioPath .kWrite batch request) ↔
          batch.total < 2 ^ 64 ∧ ∀ r ∈ batch.records, Listable (recordEntry r defaultEntry)) := by
  constructor
  · intro hone server bucketPath
    refine ⟨_, ?_, framesBatch_requestV1_iff hepoch hdistinct hone bucketPath⟩
    rw [processBatchV1, if_neg (mt (uniqueEntries_iff ..).1 hone)]
  · intro requireEntry
    rcases exists_batchV2Request defaultEntry batch .kWrite requireEntry with
      hmissing | ⟨request, hbuilt, -⟩
    · exact .inl hmissing
    · exact .inr ⟨request, hbuilt, framesBatch_requestV2_iff hepoch hdistinct hbuilt⟩

/-- Two records of an entry, added in the reverse order of their times. -/
def twoRecords : Batch where
  records := [⟨bytes "e", .wrap 2000, 1, bytes "t", ∅, some 0⟩,
    ⟨bytes "e", .wrap 1000, 2, bytes "t", ∅, some 1⟩]
  body := threeBytes
  size := 3
  records_lt := by decide
  dataIndex_eq := rfl
  record_size := by simp [threeBytes, Blob.size]; decide
  size_eq := threeBytes_size

omit [StdSort] in
theorem twoRecords_total : twoRecords.total < 2 ^ 64 := by
  rw [Batch.total_eq_sum]
  decide

omit [StdSort] in
theorem twoRecords_listable : ∀ r ∈ twoRecords.records, Listable (recordEntry r (bytes "e")) := by
  have he : Listable (bytes "e") := by decide
  simp only [twoRecords, List.forall_mem_cons, List.not_mem_nil, false_implies, implies_true,
    and_true]
  exact ⟨he, he⟩

omit [StdSort] in
/-- Both requests frame the two records. -/
theorem framesWrites_twoRecords :
    (∃ request, (@processBatchV1 .insertion acceptingServer [] (bytes "e") twoRecords .kWrite).sent =
        [request] ∧ FramesBatch twoRecords (·.timestamp.micros) (@announcedV1 .insertion) request) ∧
      ∃ request, @buildBatchV2Request .insertion (bytes "e") twoRecords .kWrite false =
          .ok request ∧
        FramesBatch twoRecords (recordKey (bytes "e")) (@announcedV2 .insertion)
          (requestV2 [] .kWrite twoRecords request) := by
  obtain ⟨hv1, hv2⟩ := @framesWrites_iff .insertion twoRecords (bytes "e") (by decide)
    (by unfold DistinctKeys; decide)
  obtain ⟨request, hsent, hframes⟩ := hv1 (by unfold SeveralEntries; decide) acceptingServer []
  refine ⟨⟨request, hsent, hframes.2 twoRecords_total⟩, ?_⟩
  obtain ⟨hrequire, -⟩ | ⟨request, hbuilt, hframes⟩ := hv2 false
  · cases hrequire
  · exact ⟨request, hbuilt, (hframes []).2 ⟨twoRecords_total, twoRecords_listable⟩⟩

omit [StdSort] in
theorem oneByte_lt : (bytes "a").length < 2 ^ 64 := by decide

/-- A record of the entry `%41`, which the list gives back as `A`. -/
def escapedEntry : Batch where
  records := [⟨bytes "%41", .wrap 1000, 1, bytes "t", ∅, some 0⟩]
  body := [⟨bytes "a", oneByte_lt⟩]
  size := 1
  records_lt := by decide
  dataIndex_eq := rfl
  record_size := by simp [Blob.size]; decide
  size_eq := rfl

example : Batch.empty.addRecord (bytes "%41") (.wrap 1000) (some ⟨bytes "a", oneByte_lt⟩)
    (bytes "t") ∅ = .ok escapedEntry := rfl

omit [StdSort] in
theorem framesWrites_broken :
    (∀ r ∈ escapedEntry.records, r.timestamp.AfterEpoch) ∧ DistinctKeys escapedEntry [] ∧
      ∃ request, @buildBatchV2Request .insertion [] escapedEntry .kWrite true = .ok request ∧
        ¬ FramesBatch escapedEntry (recordKey []) (@announcedV2 .insertion)
          (requestV2 [] .kWrite escapedEntry request) := by
  have hepoch : ∀ r ∈ escapedEntry.records, r.timestamp.AfterEpoch := by decide
  have hdistinct : DistinctKeys escapedEntry [] := by unfold DistinctKeys; decide
  obtain ⟨-, ⟨r, hr, hmissing⟩, -⟩ | ⟨request, hbuilt, -⟩ :=
    @exists_batchV2Request .insertion [] escapedEntry .kWrite true
  · exact absurd (List.mem_singleton.1 hr ▸ hmissing) (by decide)
  · refine ⟨hepoch, hdistinct, request, hbuilt, fun hframes => ?_⟩
    obtain ⟨-, hlistable⟩ :=
      (@framesBatch_requestV2_iff .insertion _ _ _ _ hepoch hdistinct hbuilt []).1 hframes
    exact absurd (hlistable _ (List.mem_singleton.2 rfl)).2 (by decide)

end Reduct
