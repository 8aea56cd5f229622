-- SUMMARY: What the callback of `ReadAttachments` makes of the records of the meta entry: their fold, as long as no payload is left unread in front of one that is needed.
import ReductClient.Bucket.AttachmentRecords

open Cxx

namespace Reduct

/-! ## The fold of the records -/

/-- A record with the labels binds its key. -/
def BindsKey (labels : LabelMap) : Prop :=
  labelKey ∈ labels ∧ labels[labelRemove]? ≠ some (bytes "true")

instance (labels : LabelMap) : Decidable (BindsKey labels) :=
  inferInstanceAs (Decidable (_ ∧ _))

/-- What a record does to the map. A record without a key does nothing. -/
def MetaRecord.apply (map : AttachmentMap) (r : MetaRecord) : AttachmentMap :=
  if labelKey ∈ r.labels then r.entry.apply map else map

/-- The records of a response. -/
def Page.metaRecords (page : Page) : List MetaRecord := page.records.map Prod.snd

/-- The labels of the records. -/
def Page.labels (page : Page) : List LabelMap := page.records.map fun q => q.2.labels

theorem Page.labels_eq (page : Page) : page.labels = page.metaRecords.map MetaRecord.labels := by
  rw [metaRecords, List.map_map]
  rfl

/-- The records of all responses. -/
def metaRecords (pages : List Page) : List MetaRecord := pages.flatMap Page.metaRecords

/-- No record without a key stands before one that binds its key. -/
def InPlace (labels : List LabelMap) : Prop :=
  labels.Pairwise fun q r => BindsKey r → labelKey ∈ q

instance (labels : List LabelMap) : Decidable (InPlace labels) :=
  inferInstanceAs (Decidable (List.Pairwise _ _))

section

variable [JsonReader]

/-- The payloads that are bound are JSON. -/
def PayloadsJson (records : List MetaRecord) : Prop :=
  ∀ r ∈ records, BindsKey r.labels → IsJson r.payload

/-- The fold of the records, or an error and no map. -/
def IsFold (records : List MetaRecord) (result : Result AttachmentMap) : Prop :=
  (PayloadsJson records → result = ⟨records.foldl MetaRecord.apply ∅, .kOk⟩) ∧
    (¬ PayloadsJson records → result.error.isError = true ∧ result.result = ∅)

theorem payloadsJson_cons {r : MetaRecord} {records : List MetaRecord} :
    PayloadsJson (r :: records) ↔
      (BindsKey r.labels → IsJson r.payload) ∧ PayloadsJson records := by
  rw [PayloadsJson, List.forall_mem_cons]
  rfl

end

/-! ## The callback -/

/-- A record is read off what comes first in the rest of the body. -/
theorem exists_readAll (chunks : List Bytes) (size : Nat) (h : size < 2 ^ 64) :
    ∃ payload, (readAll chunks size h).1 = ⟨payload, .kOk⟩ ∧
      (size ≤ chunks.flatten.length → payload.bytes = chunks.flatten.take size) :=
  ⟨_, rfl, fun havailable => (Chunks.read_none_flatten havailable).1⟩

namespace ReadAttachments

variable [JsonReader] (st : ReadAttachments)

/-- What `ReadAttachments` returns, from the error of `QueryV2` on. -/
def finish (err : Error) : Result AttachmentMap :=
  if err.isError then ⟨∅, err⟩
  else if st.callbackErr.isError then ⟨∅, st.callbackErr⟩
  else ⟨st.attachments, .kOk⟩

omit [JsonReader] in
theorem finish_error {err : Error} (h : st.callbackErr.isError = true) :
    (st.finish err).error.isError = true ∧ (st.finish err).result = ∅ := by
  rw [finish, if_pos h]
  by_cases herr : err.isError = true
  · rw [if_pos herr]
    exact ⟨herr, rfl⟩
  · rw [if_neg herr]
    exact ⟨h, rfl⟩

/-- A record that does not bind its key does the same whatever is read for it. -/
theorem callback_apply (r : MetaRecord) {payload : Blob}
    (h : BindsKey r.labels → payload = r.payload ∧ IsJson payload) :
    st.callback r.labels ⟨payload, .kOk⟩ =
      ({ st with attachments := r.apply st.attachments }, true) := by
  rw [callback, MetaRecord.apply]
  cases hkey : r.labels[labelKey]? with
  | none =>
    have hmem : labelKey ∉ r.labels := by simpa using hkey
    rw [if_neg hmem]
  | some key =>
    have hmem : labelKey ∈ r.labels := by
      rw [Std.ExtTreeMap.mem_iff_isSome_getElem?, hkey]
      rfl
    have hentry : r.entry.key = key := by rw [MetaRecord.entry, hkey]; rfl
    have hremoved : (r.entry.removed = true) = (r.labels[labelRemove]? = some (bytes "true")) :=
      decide_eq_true_eq
    dsimp only
    rw [if_pos hmem, if_neg (by decide), Tombstones.Entry.apply, hentry]
    by_cases hremove : r.labels[labelRemove]? = some (bytes "true")
    · rw [if_pos hremove, if_pos (hremoved.mpr hremove)]
    · obtain ⟨rfl, hjson⟩ := h ⟨hmem, hremove⟩
      obtain ⟨value, hparse⟩ := parse_of_isJson hjson .sorted
      rw [if_neg hremove, if_neg (hremoved.mp.mt hremove), hparse]
      rfl

/-- A record that binds its key stops the query when what is read for it is not
JSON. -/
theorem callback_malformed {labels : LabelMap} {payload : Blob} (hbinds : BindsKey labels)
    (h : ¬ IsJson payload) :
    ∃ err, st.callback labels ⟨payload, .kOk⟩ = ({ st with callbackErr := err }, false) ∧
      err.isError = true := by
  obtain ⟨hkey, hremove⟩ := hbinds
  obtain ⟨what, hparse⟩ := parse_of_not_isJson h .sorted
  rw [callback, Std.ExtTreeMap.getElem?_eq_some_getElem hkey]
  dsimp only
  rw [if_neg (by decide), if_neg hremove, hparse]
  exact ⟨_, rfl, rfl⟩

/-- The callback for records that come with their own payloads. -/
def readOwn (st : ReadAttachments) : List MetaRecord → ReadAttachments × Bool
  | [] => (st, true)
  | r :: records =>
    let (st, more) := st.callback r.labels ⟨r.payload, .kOk⟩
    if more then st.readOwn records else (st, false)

theorem readOwn_json {records : List MetaRecord} (h : PayloadsJson records) :
    st.readOwn records =
      ({ st with attachments := records.foldl MetaRecord.apply st.attachments }, true) := by
  induction records generalizing st with
  | nil => rfl
  | cons r records ih =>
    obtain ⟨hr, hrest⟩ := payloadsJson_cons.1 h
    rw [readOwn, st.callback_apply r fun hbinds => ⟨rfl, hr hbinds⟩]
    exact ih _ hrest

theorem readOwn_malformed {records : List MetaRecord} (h : ¬ PayloadsJson records) :
    ∃ st', st.readOwn records = (st', false) ∧ st'.callbackErr.isError = true := by
  induction records generalizing st with
  | nil => exact absurd (List.forall_mem_nil _) h
  | cons r records ih =>
    rw [payloadsJson_cons, not_and_or] at h
    by_cases hr : BindsKey r.labels → IsJson r.payload
    · rw [readOwn, st.callback_apply r fun hbinds => ⟨rfl, hr hbinds⟩]
      exact ih _ (h.resolve_left (not_not.2 hr))
    · obtain ⟨hbinds, hpayload⟩ := Classical.not_imp.1 hr
      obtain ⟨err, hcallback, herr⟩ := st.callback_malformed hbinds hpayload
      rw [readOwn, hcallback]
      exact ⟨_, rfl, herr⟩

theorem readOwn_append (records records' : List MetaRecord) :
    st.readOwn (records ++ records') =
      if (st.readOwn records).2 then (st.readOwn records).1.readOwn records'
      else ((st.readOwn records).1, false) := by
  induction records generalizing st with
  | nil => rfl
  | cons r records ih =>
    rw [List.cons_append, readOwn, readOwn]
    rcases st.callback r.labels ⟨r.payload, .kOk⟩ with ⟨st', more⟩
    cases more with
    | true => exact ih st'
    | false => rfl

/-- Reading records with their own payloads gives their fold. -/
theorem isFold_readOwn (records : List MetaRecord) :
    IsFold records ((readOwn {} records).1.finish .kOk) := by
  constructor
  · intro h
    rw [readOwn_json {} h]
    rfl
  · intro h
    obtain ⟨st', hread, herr⟩ := readOwn_malformed {} h
    rw [hread]
    exact st'.finish_error herr

/-! ## Records off a body -/

/-- The chunks that are left after a record. -/
def leftAfter (chunks : List Bytes) (r : MetaRecord) : List Bytes :=
  if r.labels.contains labelKey then (readAll chunks r.payload.size r.payload_lt).2 else chunks

variable {chunks : List Bytes} {q : Int × MetaRecord} {payload : Blob}

theorem readRecords_cons
    (hread : (readAll chunks q.2.payload.size q.2.payload.size_lt).1 = ⟨payload, .kOk⟩)
    (records : List (Int × MetaRecord)) :
    st.readRecords chunks (q :: records) =
      let (st, more) := st.callback q.2.labels ⟨payload, .kOk⟩
      if more then st.readRecords (leftAfter chunks q.2) records else (st, false) := by
  obtain ⟨us, r⟩ := q
  dsimp only at hread
  rw [readRecords]
  dsimp only
  rw [hread]
  rfl

/-- What is left of the body does not matter once no record binds a key. -/
theorem readRecords_unbound {records : List (Int × MetaRecord)}
    (h : ∀ q ∈ records, ¬ BindsKey q.2.labels) (chunks : List Bytes) :
    st.readRecords chunks records = st.readOwn (records.map Prod.snd) := by
  induction records generalizing st chunks with
  | nil => rfl
  | cons q records ih =>
    obtain ⟨hq, hrest⟩ := List.forall_mem_cons.1 h
    obtain ⟨payload, hread, -⟩ := exists_readAll chunks q.2.payload.size q.2.payload.size_lt
    rw [st.readRecords_cons hread, List.map_cons, readOwn,
      st.callback_apply q.2 fun hbinds => absurd hbinds hq,
      st.callback_apply q.2 fun hbinds => absurd hbinds hq]
    exact ih _ hrest _

omit [JsonReader] in
theorem contains_labelKey {labels : LabelMap} (h : labelKey ∈ labels) :
    labels.contains labelKey = true := Std.ExtTreeMap.contains_iff_mem.2 h

/-- Every payload is read where it is, as long as one is needed. -/
theorem readRecords_inPlace {records : List (Int × MetaRecord)}
    (h : InPlace (records.map fun q => q.2.labels))
    (hbody : chunks.flatten = (records.map fun q => q.2.payload.bytes).flatten) :
    st.readRecords chunks records = st.readOwn (records.map Prod.snd) := by
  induction records generalizing st chunks with
  | nil => rfl
  | cons q records ih =>
    rw [List.map_cons, InPlace, List.pairwise_cons, List.forall_mem_map] at h
    obtain ⟨hfirst, hrest⟩ := h
    rw [List.map_cons, List.flatten_cons] at hbody
    by_cases hkey : labelKey ∈ q.2.labels
    · obtain ⟨hread, hleft⟩ := readAll_eq hbody
      have hafter : (leftAfter chunks q.2).flatten =
          (records.map fun q => q.2.payload.bytes).flatten := by
        rw [leftAfter, contains_labelKey hkey, if_pos rfl, hleft]
      rw [st.readRecords_cons hread, List.map_cons, readOwn]
      simp only [fun st : ReadAttachments => ih st hrest hafter]
    · -- from here on no record binds a key
      refine st.readRecords_unbound (List.forall_mem_cons.2 ⟨?_, ?_⟩) chunks
      · exact fun hbinds => hkey hbinds.1
      · exact fun r hr hbinds => hkey (hfirst r hr hbinds)

theorem readPage_inPlace {page : Page} (h : InPlace page.labels) :
    st.readRecords page.chunks page.records = st.readOwn page.metaRecords :=
  st.readRecords_inPlace h page.body_eq

theorem readPages_inPlace {pages : List Page} (h : ∀ page ∈ pages, InPlace page.labels) :
    st.readPages pages = (st.readOwn (metaRecords pages)).1 := by
  induction pages generalizing st with
  | nil => rfl
  | cons page pages ih =>
    obtain ⟨hpage, hrest⟩ := List.forall_mem_cons.1 h
    rw [readPages, st.readPage_inPlace hpage, metaRecords, List.flatMap_cons, st.readOwn_append]
    simp only [fun st : ReadAttachments => ih st hrest]
    rcases st.readOwn page.metaRecords with ⟨st', more⟩
    cases more <;> rfl

omit [JsonReader] in
theorem foldl_entries {records : List (Int × MetaRecord)}
    (h : ∀ q ∈ records, labelKey ∈ q.2.labels) (map : AttachmentMap) :
    (records.map Prod.snd).foldl MetaRecord.apply map =
      (records.map fun q => q.2.entry).foldl Tombstones.Entry.apply map := by
  rw [List.foldl_map, List.foldl_map]
  exact List.foldl_ext _ _ _ fun map q hq => if_pos (h q hq)

/-- Attached records are read as a log. -/
theorem readPages_attached {pages : List Page} (h : ∀ q ∈ pages.flatMap Page.records, Attached q) :
    st.readPages pages = { st with
      attachments := ((pages.flatMap Page.records).map fun q => q.2.entry).foldl
        Tombstones.Entry.apply st.attachments } := by
  have hkey : ∀ q ∈ pages.flatMap Page.records, labelKey ∈ q.2.labels := by
    intro q hq
    rw [Std.ExtTreeMap.mem_iff_isSome_getElem?, (h q hq).key]
    rfl
  have hplace : ∀ page ∈ pages, InPlace page.labels := by
    intro page hpage
    refine List.pairwise_map.2 (List.pairwise_iff_forall_sublist.2 fun {q r} hqr _ => ?_)
    exact hkey q (List.mem_flatMap.2 ⟨page, hpage, hqr.subset List.mem_cons_self⟩)
  have hrecords : metaRecords pages = (pages.flatMap Page.records).map Prod.snd :=
    List.map_flatMap.symm
  have hjson : PayloadsJson (metaRecords pages) := by
    rw [PayloadsJson, hrecords, List.forall_mem_map]
    exact fun q hq _ => (h q hq).json
  rw [st.readPages_inPlace hplace, st.readOwn_json hjson, hrecords, foldl_entries hkey]

/-! ## Payloads that lie in front -/

/-- A payload as a test of the place it is read from: JSON if the record binds its
key, and a row of a single character otherwise. -/
structure Probes (c : UInt8) (r : MetaRecord) : Prop where
  size_pos : 0 < r.payload.size
  json : BindsKey r.labels → IsJson r.payload
  row : ¬ BindsKey r.labels → r.payload.bytes = List.replicate r.payload.size c

variable {c : UInt8}
  (hmalformed : ∀ payload : Blob, payload.bytes.head? = some c → ¬ IsJson payload)

include hmalformed

/-- With the character in front, the next record that binds its key stops the query. -/
theorem readRecords_shifted {records : List (Int × MetaRecord)}
    (hprobes : ∀ q ∈ records, Probes c q.2) (hbinds : ∃ q ∈ records, BindsKey q.2.labels) {k : Nat}
    (hk : 0 < k) (hbody : chunks.flatten = List.replicate k c ++
      (records.map fun q => q.2.payload.bytes).flatten) :
    ∃ st', st.readRecords chunks records = (st', false) ∧ st'.callbackErr.isError = true := by
  induction records generalizing st chunks k with
  | nil => simp at hbinds
  | cons q records ih =>
    obtain ⟨hq, hrest⟩ := List.forall_mem_cons.1 hprobes
    rw [List.map_cons, List.flatten_cons] at hbody
    by_cases hbindsq : BindsKey q.2.labels
    · obtain ⟨payload, hread, hbytes⟩ := exists_readAll chunks q.2.payload.size q.2.payload.size_lt
      have hlength : q.2.payload.size ≤ chunks.flatten.length := by
        rw [hbody, List.length_append, List.length_append, Blob.size]
        omega
      have hhead : payload.bytes.head? = some c := by
        obtain ⟨n, rfl⟩ := Nat.exists_eq_add_of_lt hk
        rw [hbytes hlength, hbody, List.head?_take, if_neg hq.size_pos.ne']
        rfl
      obtain ⟨err, hcallback, herr⟩ := st.callback_malformed hbindsq (hmalformed payload hhead)
      rw [st.readRecords_cons hread, hcallback]
      exact ⟨_, rfl, herr⟩
    · rw [hq.row hbindsq] at hbody
      have hbinds' : ∃ q ∈ records, BindsKey q.2.labels := by
        simpa [hbindsq] using hbinds
      obtain ⟨payload, hread, -⟩ := exists_readAll chunks q.2.payload.size q.2.payload.size_lt
      rw [st.readRecords_cons hread, st.callback_apply q.2 fun hbinds => absurd hbinds hbindsq]
      by_cases hkey : labelKey ∈ q.2.labels
      · -- the record takes as many characters off the front as it brings
        have hfront : chunks.flatten = q.2.payload.bytes ++ (List.replicate k c ++
            (records.map fun q => q.2.payload.bytes).flatten) := by
          rw [hbody, hq.row hbindsq, ← List.append_assoc, ← List.append_assoc,
            List.replicate_append_replicate, List.replicate_append_replicate, Nat.add_comm]
        refine ih _ hrest hbinds' hk ?_
        rw [leftAfter, contains_labelKey hkey, if_pos rfl, (readAll_eq hfront).2]
      · refine ih _ hrest hbinds' (Nat.add_pos_left hk q.2.payload.size) ?_
        rw [leftAfter, if_neg (by simpa using hkey), hbody, ← List.append_assoc,
          List.replicate_append_replicate]

theorem readRecords_notInPlace {records : List (Int × MetaRecord)}
    (hprobes : ∀ q ∈ records, Probes c q.2) (h : ¬ InPlace (records.map fun q => q.2.labels))
    (hbody : chunks.flatten = (records.map fun q => q.2.payload.bytes).flatten) :
    ∃ st', st.readRecords chunks records = (st', false) ∧ st'.callbackErr.isError = true := by
  induction records generalizing st chunks with
  | nil => exact absurd List.Pairwise.nil h
  | cons q records ih =>
    obtain ⟨hq, hrest⟩ := List.forall_mem_cons.1 hprobes
    rw [List.map_cons, InPlace, List.pairwise_cons, List.forall_mem_map, not_and_or] at h
    rw [List.map_cons, List.flatten_cons] at hbody
    by_cases hkey : labelKey ∈ q.2.labels
    · obtain ⟨hread, hleft⟩ := readAll_eq hbody
      rw [st.readRecords_cons hread, st.callback_apply q.2 fun hbinds => ⟨rfl, hq.json hbinds⟩]
      refine ih _ hrest (h.resolve_left (not_not.2 fun r _ _ => hkey)) ?_
      rw [leftAfter, contains_labelKey hkey, if_pos rfl, hleft]
    · -- its payload stays in front of one that is needed
      have hbindsq : ¬ BindsKey q.2.labels := fun hbinds => hkey hbinds.1
      have hbinds : ∃ r ∈ records, BindsKey r.2.labels := by
        by_contra hnone
        push Not at hnone
        refine h.elim (fun h => h fun r hr hbinds => absurd hbinds (hnone r hr)) fun h => h ?_
        refine List.pairwise_map.2 (List.pairwise_iff_forall_sublist.2 fun {a b} hab hbinds => ?_)
        exact absurd hbinds (hnone b (hab.subset (by simp)))
      obtain ⟨payload, hread, -⟩ := exists_readAll chunks q.2.payload.size q.2.payload.size_lt
      rw [st.readRecords_cons hread, st.callback_apply q.2 fun hbinds => absurd hbinds hbindsq]
      refine readRecords_shifted _ hmalformed hrest hbinds hq.size_pos ?_
      rw [leftAfter, if_neg (by simpa using hkey), hbody, hq.row hbindsq]

theorem readPages_notInPlace {pages : List Page}
    (hprobes : ∀ page ∈ pages, ∀ r ∈ page.metaRecords, Probes c r)
    (h : ∃ page ∈ pages, ¬ InPlace page.labels) :
    (st.readPages pages).callbackErr.isError = true := by
  induction pages generalizing st with
  | nil => simp at h
  | cons page pages ih =>
    obtain ⟨hpage, hrest⟩ := List.forall_mem_cons.1 hprobes
    by_cases hplace : InPlace page.labels
    · have hjson : PayloadsJson page.metaRecords := fun r hr => (hpage r hr).json
      rw [readPages, st.readPage_inPlace hplace, st.readOwn_json hjson]
      refine ih _ hrest ?_
      simpa [hplace] using h
    · obtain ⟨st', hread, herr⟩ := st.readRecords_notInPlace hmalformed
        (List.forall_mem_map.1 hpage) hplace page.body_eq
      rw [readPages, hread]
      exact herr

end ReadAttachments

/-! ## Payloads as tests -/

/-- What the JSON library does with two kinds of texts: it reads a digit that spaces
follow, and no text that starts with an `x`. -/
structure ReadsOnes [JsonReader] : Prop where
  one : ∀ n, ∃ value, JsonReader.read (0x31 :: List.replicate n 0x20) = .of value
  other : ∀ text, ∃ what, JsonReader.read (0x78 :: text) = .malformed what

/-- A digit and spaces. -/
def oneText : Nat → Bytes
  | 0 => []
  | n + 1 => 0x31 :: List.replicate n 0x20

theorem length_oneText (n : Nat) : (oneText n).length = n := by
  cases n <;> simp [oneText]

/-- The record with a payload that is JSON, if the record binds its key, or a row of
`x`. -/
def MetaRecord.probe (r : MetaRecord) : MetaRecord where
  labels := r.labels
  payload :=
    if BindsKey r.labels then
      ⟨oneText r.payload.size, by rw [length_oneText]; exact r.payload.size_lt⟩
    else
      ⟨List.replicate r.payload.size 0x78, by rw [List.length_replicate]; exact r.payload.size_lt⟩

theorem MetaRecord.size_probe (r : MetaRecord) : r.probe.payload.size = r.payload.size := by
  rw [probe, Blob.size]
  split
  · exact length_oneText _
  · exact List.length_replicate

section Probe

variable [JsonReader]

theorem ReadsOnes.not_isJson (h : ReadsOnes) (payload : Blob)
    (hhead : payload.bytes.head? = some 0x78) : ¬ IsJson payload := by
  rintro ⟨value, hvalue⟩
  obtain ⟨text, htext⟩ := List.head?_eq_some_iff.1 hhead
  obtain ⟨what, hwhat⟩ := h.other text
  rw [htext, hwhat] at hvalue
  cases hvalue

theorem ReadsOnes.probes (h : ReadsOnes) {r : MetaRecord} (hpos : 0 < r.payload.size) :
    ReadAttachments.Probes 0x78 r.probe := by
  refine ⟨r.size_probe ▸ hpos, fun hbinds => ?_, fun hbinds => ?_⟩
  · have hbytes : r.probe.payload.bytes = oneText r.payload.size := by
      rw [MetaRecord.probe]
      exact congrArg Blob.bytes (if_pos hbinds)
    obtain ⟨n, hn⟩ := Nat.exists_eq_add_of_lt hpos
    rw [IsJson, hbytes, hn, Nat.zero_add]
    exact h.one n
  · rw [r.size_probe, MetaRecord.probe]
    exact congrArg Blob.bytes (if_neg hbinds)

end Probe

end Reduct
