-- SUMMARY: The indices of the v2 headers: when they refer to the fields of the entry list and of the label names at their positions.
import ReductClient.Internal.Addressing
import ReductClient.Internal.DecoderFold
import ReductClient.Internal.ErrorHeaders
import ReductClient.Internal.ErrorReports

open Cxx Fallible

namespace Reduct

/-! ## Fields and their positions -/

/-- The name in a field of an encoded list, if the field can be used. -/
def decodeField (field : Bytes) : Option Bytes :=
  if trim field = [] then none else decodeEntryName (trim field)

/-- The name in the field of a header value at the given position. -/
def fieldAt (raw : Bytes) (i : Nat) : Option Bytes := (raw.splitOn comma)[i]?.bind decodeField

/-- No field that cannot be used stands before one that can, as far as indices of
64 bits reach. -/
def KeepsPositions (raw : Bytes) : Prop :=
  ∀ i < 2 ^ 64, ∀ j, i < j → fieldAt raw i = none → fieldAt raw j = none

theorem parseEncodedList_eq (raw : Bytes) :
    parseEncodedList raw = (raw.splitOn comma).filterMap decodeField := by
  have hfields : parseEncodedList raw = (getlines comma raw).filterMap decodeField := rfl
  rw [hfields, getlines]
  split_ifs with hlast
  · -- the empty field at the end, which `std::getline` does not give, cannot be used
    obtain ⟨init, hinit⟩ := List.getLast?_eq_some_iff.1 hlast
    have hnone : decodeField [] = none := by decide
    rw [hinit, List.dropLast_concat, List.filterMap_append, List.filterMap_cons_none hnone,
      List.filterMap_nil, List.append_nil]
  · rfl

/-- What is left of a list after a partial function is at its old positions if and
only if nothing is left of what follows a dropped element. -/
theorem filterMap_positions_iff {α β : Type*} {f : α → Option β} {l : List α} {n : Nat} :
    (∀ i < n, ∀ b, (l.filterMap f)[i]? = some b → l[i]?.bind f = some b) ↔
      ∀ i < n, ∀ j, i < j → l[i]?.bind f = none → l[j]?.bind f = none := by
  induction l generalizing n with
  | nil => simp
  | cons a l ih =>
    cases n with
    | zero => simp
    | succ n =>
      cases ha : f a with
      | some b =>
        rw [List.filterMap_cons_some ha]
        constructor
        · intro h i hi j hj hnone
          have hshift : ∀ i < n, ∀ b, (l.filterMap f)[i]? = some b → l[i]?.bind f = some b :=
            fun i hi b hb => h (i + 1) (by omega) b hb
          obtain ⟨j, rfl⟩ : ∃ k, j = k + 1 := ⟨j - 1, by omega⟩
          cases i with
          | zero => simp [ha] at hnone
          | succ i => exact ih.1 hshift i (by omega) j (by omega) hnone
        · intro h i hi b' hb'
          have hshift : ∀ i < n, ∀ j, i < j → l[i]?.bind f = none → l[j]?.bind f = none :=
            fun i hi j hj hnone => h (i + 1) (by omega) (j + 1) (by omega) hnone
          cases i with
          | zero => simpa [ha] using hb'
          | succ i => exact ih.2 hshift i (by omega) b' hb'
      | none =>
        rw [List.filterMap_cons_none ha]
        -- the element at position 0 is dropped, so there must be nothing else
        have hrest : l.filterMap f = [] ↔ ∀ j : Nat, l[j]?.bind f = none := by
          rw [List.filterMap_eq_nil_iff]
          constructor
          · intro h j
            cases hj : l[j]? with
            | none => rfl
            | some a' => exact h a' (List.mem_of_getElem? hj)
          · intro h a' ha'
            obtain ⟨j, hj⟩ := List.mem_iff_getElem?.1 ha'
            simpa [hj] using h j
        constructor
        · intro h
          have hnil : l.filterMap f = [] := by
            cases hl : l.filterMap f with
            | nil => rfl
            | cons b bs => simpa [ha] using h 0 (by omega) b (by simp [hl])
          intro i _ j hj _
          obtain ⟨j, rfl⟩ : ∃ k, j = k + 1 := ⟨j - 1, by omega⟩
          exact hrest.1 hnil j
        · intro h
          have hnil : l.filterMap f = [] := hrest.2 fun j =>
            h 0 (by omega) (j + 1) (by omega) (by simpa using ha)
          simp [hnil]

/-- The list gives the fields at their positions. -/
theorem keepsPositions_iff {raw : Bytes} : KeepsPositions raw ↔
    ∀ i < 2 ^ 64, ∀ name, (parseEncodedList raw)[i]? = some name → fieldAt raw i = some name := by
  rw [parseEncodedList_eq]
  exact filterMap_positions_iff.symm

/-- A list whose first field can be used is not empty. -/
theorem parseEncodedList_ne_nil {raw : Bytes} (h : fieldAt raw 0 ≠ none) :
    parseEncodedList raw ≠ [] := by
  intro hnil
  rw [parseEncodedList_eq, List.filterMap_eq_nil_iff] at hnil
  refine h ?_
  rw [fieldAt]
  cases hget : (raw.splitOn comma)[0]? with
  | none => rfl
  | some field => exact hnil field (List.mem_of_getElem? hget)

/-! ## Label names -/

/-- The operation has the name that is spelled, or the one in the field of the
label names that the spelling is the index of. -/
def NamedByField (rawLabels : Bytes) (spelled op : Bytes × Option Bytes) : Prop :=
  op.2 = spelled.2 ∧
    (op.1 = spelled.1 ∨ spelled.1 ≠ [] ∧ spelled.1.all isDigit = true ∧
      ∃ idx, stoul spelled.1 = .ok idx ∧ fieldAt rawLabels idx = some op.1)

/-- The label operations of a record header as they are spelled. -/
def spelledOps (raw : Bytes) : List (Bytes × Option Bytes) := headerOps none raw

/-- The label names only rename the operations. -/
theorem labelDeltaLoop_names {names : List Bytes} {fuel : Nat} {raw : Bytes}
    {ops : List (Bytes × Option Bytes)} (h : labelDeltaLoop (some names) fuel raw = .ok ops) :
    ∃ spelled, labelDeltaLoop none fuel raw = .ok spelled ∧ List.Forall₂
      (fun s op => op.2 = s.2 ∧ resolveLabelName (some names) s.1 = .ok op.1) spelled ops := by
  induction fuel generalizing raw ops with
  | zero =>
    cases h
    exact ⟨[], rfl, .nil⟩
  | succ fuel ih =>
    rw [labelDeltaLoop] at h ⊢
    cases hsplit : splitFirst equalsSign raw with
    | none =>
      rw [hsplit] at h
      cases h
      exact ⟨[], rfl, .nil⟩
    | some parts =>
      rw [hsplit] at h
      obtain ⟨name, hname, h⟩ := bind_eq_ok.1 h
      cases hvalue : labelValue parts.2 with
      | none =>
        rw [hvalue] at h
        cases h
        refine ⟨[], ?_, .nil⟩
        dsimp only
        rw [hvalue]
        rfl
      | some read =>
        rw [hvalue] at h
        obtain ⟨rest, hrest, h⟩ := bind_eq_ok.1 h
        cases h
        obtain ⟨spelled, hspelled, hnames⟩ := ih hrest
        have hkey : resolveLabelName none (trim parts.1) = .ok (trim parts.1) := rfl
        refine ⟨(trim parts.1, read.1) :: spelled, ?_, .cons ⟨rfl, hname⟩ hnames⟩
        dsimp only
        rw [hvalue, hkey, ok_bind]
        dsimp only
        rw [hspelled]
        rfl

/-- A label name that keeps its position is that of its field. -/
theorem resolveLabelName_field {rawLabels key name : Bytes} (hkeeps : KeepsPositions rawLabels)
    (h : resolveLabelName (some (parseEncodedList rawLabels)) key = .ok name) :
    name = key ∨ key ≠ [] ∧ key.all isDigit = true ∧
      ∃ idx, stoul key = .ok idx ∧ fieldAt rawLabels idx = some name := by
  rw [resolveLabelName] at h
  split_ifs at h with hdigits
  · obtain ⟨idx, hidx, h⟩ := bind_eq_ok.1 h
    cases h
    cases hname : (parseEncodedList rawLabels)[idx]? with
    | none => exact .inl rfl
    | some name =>
      exact .inr ⟨hdigits.1, hdigits.2, idx, hidx,
        keepsPositions_iff.1 hkeeps idx (stoull_lt hidx) name hname⟩
  · cases h
    exact .inl rfl

/-- What a record header that is kept makes of the labels before it. -/
theorem parseRecordHeaderV2_named {rawLabels raw : Bytes} {previous : Option RecordHeaderV2}
    {header : RecordHeaderV2} (hkeeps : KeepsPositions rawLabels)
    (h : parseRecordHeaderV2 raw previous (some (parseEncodedList rawLabels)) = .ok (some header)) :
    ∃ ops, List.Forall₂ (NamedByField rawLabels) (spelledOps raw) ops ∧
      header.labels = ops.foldl applyLabelOp ((previous.map RecordHeaderV2.labels).getD ∅) := by
  unfold parseRecordHeaderV2 at h
  unfold spelledOps headerOps labelsPart headerRest
  generalize splitFirst comma raw = parts at h ⊢
  rcases parts with _ | ⟨slice, rest⟩
  all_goals
    simp only [Option.map_none, Option.map_some] at h ⊢
    split at h
    · cases h
    · split at h
      · cases h
      · split at h
        · rename_i text htext
          obtain ⟨labels, hlabels, h⟩ := bind_eq_ok.1 h
          cases h
          obtain ⟨ops, hops, hlabels⟩ := bind_eq_ok.1 hlabels
          cases hlabels
          obtain ⟨spelled, hspelled, hnames⟩ := labelDeltaLoop_names hops
          refine ⟨ops, ?_, rfl⟩
          rw [htext]
          dsimp only
          rw [parseLabelDeltaOps, hspelled]
          exact hnames.imp fun s op hop => ⟨hop.1, resolveLabelName_field hkeeps hop.2⟩
        · rename_i htext
          cases h
          rw [htext]
          exact ⟨[], .nil, rfl⟩

/-! ## The decoder -/

/-- The decoder makes a record of a header whose index is below `n`. -/
def keepsHeader (n : Nat) (parsed : ParsedHeader) : Bool := parsed.1 < n && hasLength parsed.2.2

theorem keepsHeader_iff {entries : List Bytes} {parsed : ParsedHeader} :
    keepsHeader entries.length parsed = true ↔ KeepsHeader entries parsed := by
  rw [keepsHeader, Bool.and_eq_true, decide_eq_true_eq, hasLength, isOk_iff, KeepsHeader]

/-- For each of the headers those of its entry, up to itself. -/
def entryPrefixes (kept : List ParsedHeader) : List (List ParsedHeader) :=
  kept.mapIdx fun k p => (kept.take (k + 1)).filter fun q => q.1 = p.1

theorem entryPrefixes_concat (kept : List ParsedHeader) (p : ParsedHeader) :
    entryPrefixes (kept ++ [p]) =
      entryPrefixes kept ++ [(kept ++ [p]).filter fun q => q.1 = p.1] := by
  have hlast : (kept ++ [p]).take (kept.length + 1) = kept ++ [p] := List.take_of_length_le (by simp)
  have hfirst : kept.mapIdx (fun k q => ((kept ++ [p]).take (k + 1)).filter fun r => r.1 = q.1) =
      entryPrefixes kept := by
    rw [entryPrefixes, List.mapIdx_eq_mapIdx_iff]
    intro n hn
    rw [List.take_append_of_le_length (by omega)]
  rw [entryPrefixes, List.mapIdx_concat, hfirst, hlast]

/-- The entry and the labels of a record are those that the headers `own` of its
entry, of which the last is its own, refer to by their indices. -/
structure Attributed (rawEntries rawLabels : Bytes) (own : List ParsedHeader)
    (record : Bytes × LabelMap) : Prop where
  entry : ∃ p, own.getLast? = some p ∧ fieldAt rawEntries p.1 = some record.1
  labels : ∃ ops, List.Forall₂ (NamedByField rawLabels) (own.flatMap fun p => spelledOps p.2.2) ops ∧
    record.2 = ops.foldl applyLabelOp ∅

theorem parsedHeaders_lt {headers : Headers} {p : ParsedHeader} (h : p ∈ parsedHeaders headers) :
    p.1 < 2 ^ 64 := by
  obtain ⟨header, -, hparse⟩ := List.mem_filterMap.1 h
  obtain ⟨name, hname, rfl⟩ := Option.map_eq_some_iff.1 hparse
  obtain ⟨-, entryStr, deltaStr, -, -, hidx, -⟩ := parseBatchedHeaderNameV2_eq_some.1 hname
  exact stoull_lt hidx

section Loop

variable {rawEntries rawLabels : Bytes} {head : Bool} {startTs : Nat}

/-- The labels that the decoder remembers for an index. -/
def DecodeState.labelsAt (st : DecodeState) (entryIdx : Nat) : LabelMap :=
  (st.lastHeader[entryIdx]?.join.map RecordHeaderV2.labels).getD ∅

/-- One header adds nothing, or a record with the entry in the field at its index. -/
theorem decodeHeader_named (hentries : KeepsPositions rawEntries) (hlabels : KeepsPositions rawLabels)
    {st st' : DecodeState} {p : ParsedHeader} (hp : p.1 < 2 ^ 64)
    (h : decodeHeader head (parseEncodedList rawEntries) startTs (some (parseEncodedList rawLabels))
      st p = .ok st') :
    (st' = st ∧ keepsHeader (parseEncodedList rawEntries).length p = false) ∨
      ∃ header record ops, keepsHeader (parseEncodedList rawEntries).length p = true ∧
        st' = ⟨st.lastHeader.set p.1 (some header), st.records ++ [record]⟩ ∧
        fieldAt rawEntries p.1 = some record.entry ∧ record.labels = header.labels ∧
        List.Forall₂ (NamedByField rawLabels) (spelledOps p.2.2) ops ∧
        header.labels = ops.foldl applyLabelOp (st.labelsAt p.1) := by
  obtain ⟨entryIdx, delta, value⟩ := p
  unfold decodeHeader at h
  unfold keepsHeader hasLength
  dsimp only at h hp ⊢
  split at h
  · rename_i hnone
    cases h
    have hle := List.getElem?_eq_none_iff.1 hnone
    simp [Nat.not_lt.2 hle]
  · rename_i entry hentry
    have hlt : entryIdx < (parseEncodedList rawEntries).length := (List.getElem?_eq_some_iff.1 hentry).1
    have hfield := keepsPositions_iff.1 hentries entryIdx hp entry hentry
    obtain ⟨result, hresult, h⟩ := bind_eq_ok.1 h
    rcases parseRecordHeaderV2_cases hresult with ⟨rfl, hno⟩ | ⟨header, rfl, hlength⟩
    · cases h
      refine .inl ⟨rfl, ?_⟩
      rw [Bool.and_eq_false_iff, ← Bool.not_eq_true (Except.isOk _), isOk_iff]
      exact .inr fun ⟨n, hn⟩ => hno n hn
    · cases h
      obtain ⟨ops, hops, hfold⟩ := parseRecordHeaderV2_named hlabels hresult
      refine .inr ⟨header, _, ops, ?_, rfl, hfield, rfl, hops, hfold⟩
      rw [Bool.and_eq_true, decide_eq_true_eq, isOk_iff]
      exact ⟨hlt, _, hlength⟩

/-- What the decoder has made of the headers it has kept so far. -/
structure NamedSoFar (rawEntries rawLabels : Bytes) (n : Nat) (kept : List ParsedHeader)
    (st : DecodeState) : Prop where
  length_eq : st.lastHeader.length = n
  labels : ∀ i, ∃ ops, List.Forall₂ (NamedByField rawLabels)
    ((kept.filter fun q => q.1 = i).flatMap fun p => spelledOps p.2.2) ops ∧
      st.labelsAt i = ops.foldl applyLabelOp ∅
  records : List.Forall₂ (Attributed rawEntries rawLabels) (entryPrefixes kept)
    (st.records.map fun r => (r.entry, r.labels))

theorem namedSoFar_nil (n : Nat) :
    NamedSoFar rawEntries rawLabels n [] ⟨List.replicate n none, []⟩ where
  length_eq := List.length_replicate
  labels i := by
    have hnone : (List.replicate n (none : Option RecordHeaderV2))[i]?.join = none := by
      rw [List.getElem?_replicate]
      split_ifs <;> rfl
    refine ⟨[], .nil, ?_⟩
    rw [DecodeState.labelsAt, hnone]
    rfl
  records := .nil

/-- A header that is kept goes to the state of its entry. -/
theorem NamedSoFar.concat {n : Nat} {kept : List ParsedHeader} {st : DecodeState}
    (h : NamedSoFar rawEntries rawLabels n kept st) {p : ParsedHeader} (hlt : p.1 < n)
    {header : RecordHeaderV2} {record : ReadableRecord} {ops : List (Bytes × Option Bytes)}
    (hentry : fieldAt rawEntries p.1 = some record.entry) (hlabels : record.labels = header.labels)
    (hops : List.Forall₂ (NamedByField rawLabels) (spelledOps p.2.2) ops)
    (hfold : header.labels = ops.foldl applyLabelOp (st.labelsAt p.1)) :
    NamedSoFar rawEntries rawLabels n (kept ++ [p])
      ⟨st.lastHeader.set p.1 (some header), st.records ++ [record]⟩ := by
  have hself : (kept ++ [p]).filter (fun q => q.1 = p.1) =
      kept.filter (fun q => q.1 = p.1) ++ [p] := by simp
  obtain ⟨before, hbefore, hbeforeFold⟩ := h.labels p.1
  have hown : List.Forall₂ (NamedByField rawLabels)
      (((kept ++ [p]).filter fun q => q.1 = p.1).flatMap fun p => spelledOps p.2.2)
      (before ++ ops) := by
    rw [hself, List.flatMap_append, List.flatMap_singleton]
    exact List.rel_append hbefore hops
  have hheader : header.labels = (before ++ ops).foldl applyLabelOp ∅ := by
    rw [List.foldl_append, ← hbeforeFold, hfold]
  refine ⟨?_, fun i => ?_, ?_⟩
  · rw [List.length_set, h.length_eq]
  · by_cases hi : p.1 = i
    · subst hi
      have hlt : p.1 < st.lastHeader.length := h.length_eq.symm ▸ hlt
      refine ⟨before ++ ops, hown, ?_⟩
      rw [← hheader, DecodeState.labelsAt]
      dsimp only
      rw [List.getElem?_set_self hlt]
      rfl
    · obtain ⟨others, hothers, hothersFold⟩ := h.labels i
      have hsame : (kept ++ [p]).filter (fun q => q.1 = i) = kept.filter fun q => q.1 = i := by
        simp [hi]
      refine ⟨others, ?_, ?_⟩
      · rw [hsame]
        exact hothers
      · rw [← hothersFold, DecodeState.labelsAt, DecodeState.labelsAt]
        dsimp only
        rw [List.getElem?_set_ne hi]
  · rw [entryPrefixes_concat, List.map_append, List.map_singleton]
    refine List.rel_append h.records (.cons ⟨⟨p, ?_, hentry⟩, before ++ ops, hown, ?_⟩ .nil)
    · rw [hself, List.getLast?_concat]
    · exact hlabels.trans hheader

theorem foldlM_decodeHeader_named (hentries : KeepsPositions rawEntries)
    (hlabels : KeepsPositions rawLabels) {l : List ParsedHeader} (hl : ∀ p ∈ l, p.1 < 2 ^ 64)
    {st : DecodeState}
    (h : l.foldlM (decodeHeader head (parseEncodedList rawEntries) startTs
        (some (parseEncodedList rawLabels)))
      ⟨List.replicate (parseEncodedList rawEntries).length none, []⟩ = .ok st) :
    NamedSoFar rawEntries rawLabels (parseEncodedList rawEntries).length
      (l.filter (keepsHeader (parseEncodedList rawEntries).length)) st := by
  refine foldlM_invariant (fun before st => (∀ p ∈ before, p.1 < 2 ^ 64) →
    NamedSoFar rawEntries rawLabels (parseEncodedList rawEntries).length
      (before.filter (keepsHeader (parseEncodedList rawEntries).length)) st) h
    (fun _ => namedSoFar_nil _) ?_ hl
  intro before p st st' ih hstep hbefore
  have ih := ih fun q hq => hbefore q (List.mem_append_left _ hq)
  rcases decodeHeader_named hentries hlabels (hbefore p (by simp)) hstep with
    ⟨rfl, hskip⟩ | ⟨header, record, ops, hkeep, rfl, hentry, hsame, hops, hfold⟩
  · rw [List.filter_append, List.filter_singleton, hskip]
    simpa using ih
  · have hlt : p.1 < (parseEncodedList rawEntries).length := by
      rw [keepsHeader, Bool.and_eq_true, decide_eq_true_eq] at hkeep
      exact hkeep.1
    rw [List.filter_append, List.filter_singleton, hkeep]
    exact ih.concat hlt hentry hsame hops hfold

end Loop

variable [StdSort]

/-- The record headers the decoder makes records of, in order. -/
def keptHeaders (rawEntries : Bytes) (headers : Headers) : List ParsedHeader :=
  (StdSort.sort parsedHeaderLess (parsedHeaders headers)).filter
    (keepsHeader (parseEncodedList rawEntries).length)

/-- With these header values an index stands for the field at its position. -/
structure IndicesKept (rawEntries rawLabels : Bytes) : Prop where
  /-- In a response with records, if its start timestamp can be read. -/
  records : ∀ head (headers : Headers) records,
    headers.find? kHeaderEntries = some rawEntries → headers.find? kHeaderLabels = some rawLabels →
    parseAndBuildBatchedRecordsV2 head headers = .ok records →
      records = [] ∨ List.Forall₂ (Attributed rawEntries rawLabels)
        (entryPrefixes (keptHeaders rawEntries headers)) (records.map fun r => (r.entry, r.labels))
  /-- In the answer to the request of a batch. -/
  errors : ∀ (server : HttpServer) ioPath batch type request errors,
    buildBatchV2Request [] batch type true = .ok request →
    (server (requestV2 ioPath type batch request)).result.2.find? kHeaderEntries = some rawEntries →
    (processBatchV2Records server ioPath batch type).result = .ok ⟨errors, .kOk⟩ →
      let headers := (server (requestV2 ioPath type batch request)).result.2
      ∀ entry time error, errorOf errors entry time = some error →
        ReportedBy (fieldAt rawEntries) (errorStartTs request headers) headers.toList entry time error

/-! ## Lists that keep positions -/

section Kept

variable {rawEntries rawLabels : Bytes}

theorem records_attributed (hentries : KeepsPositions rawEntries)
    (hlabels : KeepsPositions rawLabels) {head : Bool} {headers : Headers}
    {records : List ReadableRecord} (hfindEntries : headers.find? kHeaderEntries = some rawEntries)
    (hfindLabels : headers.find? kHeaderLabels = some rawLabels)
    (h : parseAndBuildBatchedRecordsV2 head headers = .ok records) :
    records = [] ∨ List.Forall₂ (Attributed rawEntries rawLabels)
      (entryPrefixes (keptHeaders rawEntries headers))
      (records.map fun r => (r.entry, r.labels)) := by
  rcases parseAndBuildBatchedRecordsV2_cases h with
    ⟨rfl, -⟩ | ⟨rawEntries', rawStartTs, startTs, st, hentries', -, -, hst, rfl⟩
  · exact .inl rfl
  · cases hfindEntries.symm.trans hentries'
    rw [hfindLabels] at hst
    have hindices : ∀ p ∈ StdSort.sort parsedHeaderLess (parsedHeaders headers),
        p.1 < 2 ^ 64 := fun p hp =>
      parsedHeaders_lt ((StdSort.perm _ _).mem_iff.1 hp)
    have hnamed := foldlM_decodeHeader_named hentries hlabels hindices hst
    rw [map_flagLast fun _ _ => rfl]
    exact .inr hnamed.records

theorem errors_attributed (hfirst : fieldAt rawEntries 0 ≠ none) (hentries : KeepsPositions rawEntries)
    {server : HttpServer} {ioPath : Bytes} {batch : Batch} {type : BatchType}
    {request : BatchV2Request} {errors : BatchRecordErrors}
    (hbuilt : buildBatchV2Request [] batch type true = .ok request)
    (hfind : (server (requestV2 ioPath type batch request)).result.2.find? kHeaderEntries =
      some rawEntries)
    (hresult : (processBatchV2Records server ioPath batch type).result = .ok ⟨errors, .kOk⟩)
    {entry : Bytes} {time : Time} {error : Error} (herror : errorOf errors entry time = some error) :
    ReportedBy (fieldAt rawEntries)
      (errorStartTs request (server (requestV2 ioPath type batch request)).result.2)
      (server (requestV2 ioPath type batch request)).result.2.toList entry time error := by
  rw [processBatchV2Records, hbuilt] at hresult
  rcases processRequestV2_cases hresult with ⟨hnone, -⟩ | hfold
  · dsimp only at hnone
    simp [hnone, errorOf] at herror
  · have hlistEq : errorEntries request (server (requestV2 ioPath type batch request)).result.2 =
        parseEncodedList rawEntries := by
      rw [errorEntries, hfind, Option.map_some, Option.getD_some]
      exact if_neg (parseEncodedList_ne_nil hfirst)
    rw [hlistEq] at hfold
    obtain ⟨header, hmem, entryIdx, delta, hname, hentry, hvalue, htime⟩ :=
      foldlM_recordErrorHeaderV2_source hfold herror
    have hlt : entryIdx < 2 ^ 64 := by
      obtain ⟨-, entryStr, deltaStr, -, hidx, -⟩ := errorIndices_eq_some.1 hname
      exact stoull_lt hidx
    exact ⟨header, hmem, entryIdx, delta, hname,
      keepsPositions_iff.1 hentries entryIdx hlt entry hentry, hvalue, htime⟩

end Kept

/-! ## Lists that do not -/

section Probes

/-- One error, for the entry with the given index. -/
def errorAt (rawEntries : Bytes) (entryIdx : Nat) : Headers where
  toList := [(kHeaderEntries, rawEntries),
    (kHeaderErrorPrefix ++ (decimal entryIdx ++ dash :: decimal 0), bytes "1,")]
  nodup := by
    have hstarts : kHeaderErrorPrefix.isPrefixOf kHeaderEntries = false := by decide
    have hne : kHeaderEntries ≠ kHeaderErrorPrefix ++ (decimal entryIdx ++ dash :: decimal 0) := by
      intro heq
      rw [heq, isPrefixOf_append] at hstarts
      cases hstarts
    simpa using hne

variable {rawEntries rawLabels : Bytes}

/-- An error that is reported tells which entry its index stands for. -/
theorem IndicesKept.fieldAt_entries (h : IndicesKept rawEntries rawLabels) {request : BatchV2Request}
    (hbuilt : buildBatchV2Request [] otherEntry .kUpdate true = .ok request)
    (hordered : request.ordered ≠ []) {i : Nat} (hi : i < 2 ^ 64) {entry : Bytes}
    (hentry : (errorEntries request (errorAt rawEntries i))[i]? = some entry) :
    fieldAt rawEntries i = some entry := by
  have hfind : (errorAt rawEntries i).find? kHeaderEntries = some rawEntries :=
    UnorderedMap.find?_eq_some.2 (by simp [errorAt])
  have hskip : isErrorName kHeaderEntries = false := by decide
  have hindices := errorIndices_decimal hi (show 0 < 2 ^ 64 by decide)
  have hvalue : parseErrorValue (bytes "1,") = some ⟨1, []⟩ := by decide
  have hfold : (errorAt rawEntries i).toList.foldlM
      (recordErrorHeaderV2 (errorEntries request (errorAt rawEntries i))
        (errorStartTs request (errorAt rawEntries i))) ∅ =
      .ok (addRecordError ∅ entry (errorTime (errorStartTs request (errorAt rawEntries i)) 0)
        ⟨1, []⟩) := by
    rw [errorAt, List.foldlM_cons, recordErrorHeaderV2_skip hskip, ok_bind, List.foldlM_cons,
      recordErrorHeaderV2_eq hindices hvalue, ← errorAt, hentry]
    rfl
  have hresult : (processBatchV2Records (fun _ => ⟨([], errorAt rawEntries i), .kOk⟩) []
      otherEntry .kUpdate).result = .ok ⟨addRecordError ∅ entry
        (errorTime (errorStartTs request (errorAt rawEntries i)) 0) ⟨1, []⟩, .kOk⟩ := by
    rw [processBatchV2Records, hbuilt, processRequestV2_result hordered rfl, hfold]
    rfl
  have herror : errorOf (addRecordError ∅ entry
      (errorTime (errorStartTs request (errorAt rawEntries i)) 0) ⟨1, []⟩) entry
      (errorTime (errorStartTs request (errorAt rawEntries i)) 0) = some ⟨1, []⟩ := by
    rw [errorOf_addRecordError _ (by simp [errorOf]), if_pos ⟨rfl, rfl⟩]
  obtain ⟨header, hmem, entryIdx, delta, hname, hfield, -⟩ :=
    h.errors _ _ _ _ _ _ hbuilt hfind hresult _ _ _ herror
  rcases List.mem_cons.1 hmem with rfl | hmem
  · have hnone : errorIndices kHeaderEntries = none := by decide
    rw [hnone] at hname
    cases hname
  · rw [List.mem_singleton.1 hmem, hindices] at hname
    cases hname
    exact hfield

/-- Such an entry list has a field that can be used, and keeps positions. -/
theorem IndicesKept.keeps_entries (h : IndicesKept rawEntries rawLabels) :
    fieldAt rawEntries 0 ≠ none ∧ KeepsPositions rawEntries := by
  obtain ⟨request, hbuilt, hordered, hentries⟩ : ∃ request,
      buildBatchV2Request [] otherEntry .kUpdate true = .ok request ∧ request.ordered ≠ [] ∧
        request.entries ≠ [] := by
    rcases buildBatchV2Request_cases [] otherEntry .kUpdate true with
      ⟨hnil, -⟩ | ⟨-, ⟨-, hmissing⟩, -⟩ | ⟨-, hordered, -, st, hindexed, hok⟩
    · cases hnil
    · exact absurd hmissing (by decide)
    · have horder := sortRecords_isOrder otherEntry [] true
      have hmem := horder.inOrder_perm.mem_iff.2 (List.mem_singleton_self (otherEntry.recordAt 0))
      exact ⟨_, hok, hordered, List.ne_nil_of_mem (hindexed.mem _ hmem)⟩
  have herrorEntries : ∀ i, errorEntries request (errorAt rawEntries i) =
      if parseEncodedList rawEntries = [] then request.entries else parseEncodedList rawEntries := by
    intro i
    have hfind : (errorAt rawEntries i).find? kHeaderEntries = some rawEntries :=
      UnorderedMap.find?_eq_some.2 (by simp [errorAt])
    rw [errorEntries, hfind, Option.map_some, Option.getD_some]
  have hfield : ∀ i < 2 ^ 64, ∀ entry,
      (if parseEncodedList rawEntries = [] then request.entries
        else parseEncodedList rawEntries)[i]? = some entry → fieldAt rawEntries i = some entry := by
    intro i hi entry hentry
    exact h.fieldAt_entries hbuilt hordered hi ((herrorEntries i).symm ▸ hentry)
  have hfirst : fieldAt rawEntries 0 ≠ none := by
    have hne : (if parseEncodedList rawEntries = [] then request.entries
        else parseEncodedList rawEntries) ≠ [] := by
      split_ifs with hnil
      · exact hentries
      · exact hnil
    obtain ⟨entry, rest, hcons⟩ := List.exists_cons_of_ne_nil hne
    rw [hfield 0 (by decide) entry (by rw [hcons]; rfl)]
    exact Option.some_ne_none entry
  refine ⟨hfirst, keepsPositions_iff.2 ?_⟩
  rwa [if_neg (parseEncodedList_ne_nil hfirst)] at hfield

/-- A label whose name is the given number, with leading zeros so that it is
longer than the name it stands for. -/
def paddedKey (name : Bytes) (idx : Nat) : Bytes :=
  List.replicate name.length (digitByte 0) ++ decimal idx

omit [StdSort] in
theorem isDigit_of_mem_paddedKey {name : Bytes} {idx : Nat} {c : UInt8}
    (h : c ∈ paddedKey name idx) : isDigit c = true := by
  rcases List.mem_append.1 h with h | h
  · rw [List.eq_of_mem_replicate h]
    exact isDigit_digitByte (by decide)
  · exact isDigit_of_mem_decimal h

omit [StdSort] in
theorem length_lt_paddedKey (name : Bytes) (idx : Nat) : name.length < (paddedKey name idx).length := by
  have hpos := List.length_pos_iff.2 (decimal_ne_nil idx)
  rw [paddedKey, List.length_append, List.length_replicate]
  omega

omit [StdSort] in
/-- A label with a number for its name is split at its equals sign. -/
theorem splitFirst_digits {key : Bytes} (hkey : ∀ c ∈ key, isDigit c = true) :
    splitFirst equalsSign (key ++ bytes "=x") = some (key, bytes "x") :=
  splitFirst_append (fun hmem => (isDigit_cases (hkey _ hmem)).2.2.2.2.2 rfl) _

omit [StdSort] in
theorem trim_digits {key : Bytes} (hkey : ∀ c ∈ key, isDigit c = true) : trim key = key :=
  trim_of_no_blank fun c hc => (isDigit_cases (hkey c hc)).2.2.1

omit [StdSort] in
theorem labelValue_letter : labelValue (bytes "x") = some (some (bytes "x"), []) := by decide

omit [StdSort] in
/-- One round of the loop reads a label with a number for its name. -/
theorem labelDeltaLoop_digits {key : Bytes} (hkey : ∀ c ∈ key, isDigit c = true)
    (labelNames : Option (List Bytes)) (fuel : Nat) :
    labelDeltaLoop labelNames (fuel + 1) (key ++ bytes "=x") =
      resolveLabelName labelNames key >>= fun name => pure [(name, some (bytes "x"))] := by
  have hrest : labelDeltaLoop labelNames fuel (skipSeparator []) = .ok [] := by
    cases fuel <;> rfl
  rw [labelDeltaLoop, splitFirst_digits hkey]
  dsimp only
  rw [trim_digits hkey, labelValue_letter]
  dsimp only
  rw [hrest]
  rfl

/-- A record header with one label. -/
def labelHeader (key : Bytes) : Bytes := bytes "0,," ++ (key ++ bytes "=x")

/-- A response with this record header only. -/
def labelAt (rawEntries rawLabels key : Bytes) : Headers where
  toList := [(kHeaderEntries, rawEntries), (kHeaderStartTs, bytes "0"), (kHeaderLabels, rawLabels),
    (bytes "x-reduct-0-0", labelHeader key)]
  nodup := by
    simp only [List.map_cons, List.map_nil]
    decide

section LabelHeader

omit [StdSort]

variable {key : Bytes}

theorem splitFirst_labelHeader (key : Bytes) :
    splitFirst comma (labelHeader key) = some (bytes "0", comma :: (key ++ bytes "=x")) := by
  have hcomma : comma ∉ bytes "0" := by decide
  exact splitFirst_append hcomma _

theorem labelsPart_labelHeader (key : Bytes) :
    labelsPart (labelHeader key) = some (key ++ bytes "=x") := by
  have hrest : splitFirst comma (comma :: (key ++ bytes "=x")) = some ([], key ++ bytes "=x") :=
    splitFirst_append (List.not_mem_nil) _
  rw [labelsPart, headerRest, splitFirst_labelHeader, Option.map_some, headerFields, hrest]

theorem hasLength_labelHeader (key : Bytes) : hasLength (labelHeader key) = true := by
  have hlength : stoull (trim (bytes "0")) = .ok 0 := by decide
  rw [hasLength, isOk_iff, lengthPart, splitFirst_labelHeader]
  exact ⟨0, hlength⟩

theorem headerOps_labelHeader (hkey : ∀ c ∈ key, isDigit c = true)
    {labelNames : Option (List Bytes)} {name : Bytes}
    (hname : resolveLabelName labelNames key = .ok name) :
    headerOps labelNames (labelHeader key) = [(name, some (bytes "x"))] := by
  have hlength : (key ++ bytes "=x").length = key.length + 1 + 1 := List.length_append
  rw [headerOps, labelsPart_labelHeader]
  dsimp only
  rw [parseLabelDeltaOps, hlength, labelDeltaLoop_digits hkey, hname]
  rfl

theorem keysFit_labelHeader (hkey : ∀ c ∈ key, isDigit c = true) {n : Nat}
    (hn : stoul key = .ok n) : KeysFit (labelHeader key) := by
  have hlength : (key ++ bytes "=x").length = key.length + 1 + 1 := List.length_append
  have hkeys : labelKeys (key ++ bytes "=x") = [key] := by
    rw [labelKeys, hlength, labelKeysLoop, splitFirst_digits hkey]
    dsimp only
    rw [trim_digits hkey, labelValue_letter]
    rfl
  intro text htext key' hkey'
  rw [labelsPart_labelHeader] at htext
  cases htext
  rw [hkeys, List.mem_singleton] at hkey'
  subst hkey'
  exact fun _ _ => ⟨n, hn⟩

end LabelHeader

/-- The decoder makes one record of the response, with the label under its name. -/
theorem parse_labelAt (hne : parseEncodedList rawEntries ≠ []) {key name : Bytes}
    (hkey : ∀ c ∈ key, isDigit c = true) {n : Nat} (hn : stoul key = .ok n)
    (hname : resolveLabelName (some (parseEncodedList rawLabels)) key = .ok name) :
    keptHeaders rawEntries (labelAt rawEntries rawLabels key) = [(0, 0, labelHeader key)] ∧
      ∃ records, parseAndBuildBatchedRecordsV2 false (labelAt rawEntries rawLabels key) = .ok records ∧
        records.map ReadableRecord.labels = [(∅ : LabelMap).insert name (bytes "x")] := by
  have hfindEntries : (labelAt rawEntries rawLabels key).find? kHeaderEntries = some rawEntries :=
    UnorderedMap.find?_eq_some.2 (by simp [labelAt])
  have hfindStart : (labelAt rawEntries rawLabels key).find? kHeaderStartTs = some (bytes "0") :=
    UnorderedMap.find?_eq_some.2 (by simp [labelAt])
  have hfindLabels : (labelAt rawEntries rawLabels key).find? kHeaderLabels = some rawLabels :=
    UnorderedMap.find?_eq_some.2 (by simp [labelAt])
  have hstart : stoull (bytes "0") = .ok 0 := by decide
  have hsort : StdSort.sort parsedHeaderLess (parsedHeaders (labelAt rawEntries rawLabels key)) =
      [(0, 0, labelHeader key)] := List.perm_singleton.1 (StdSort.perm _ _)
  have hlt : 0 < (parseEncodedList rawEntries).length := List.length_pos_iff.2 hne
  have hlabels : foldedLabels (some (parseEncodedList rawLabels)) [labelHeader key] =
      (∅ : LabelMap).insert name (bytes "x") := by
    rw [foldedLabels, List.flatMap_singleton, headerOps_labelHeader hkey hname]
    rfl
  have hkeep : keepsHeader (parseEncodedList rawEntries).length (0, 0, labelHeader key) = true := by
    rw [keepsHeader, hasLength_labelHeader, Bool.and_true, decide_eq_true_eq]
    exact hlt
  refine ⟨?_, ?_⟩
  · rw [keptHeaders, hsort, List.filter_singleton, hkeep]
    rfl
  · have hnone : (List.replicate (parseEncodedList rawEntries).length
        (none : Option RecordHeaderV2))[0]? = some none := by
      rw [List.getElem?_replicate, if_pos hlt]
    have hstep := @decodeHeader_keep false _ 0 (some (parseEncodedList rawLabels))
      (0, 0, labelHeader key) (keysFit_labelHeader hkey hn) hlt (hasLength_labelHeader key)
      ⟨List.replicate (parseEncodedList rawEntries).length none, []⟩ [] hnone
    rw [parseAndBuildBatchedRecordsV2_eq false hfindEntries hfindStart hstart, if_neg hne, hsort,
      hfindLabels, Option.map_some, List.foldlM_cons, hstep]
    refine ⟨_, rfl, ?_⟩
    rw [map_flagLast fun _ _ => rfl]
    exact congrArg (fun labels => [labels]) hlabels

/-- Labels that are set tell which names their indices stand for. -/
theorem IndicesKept.keeps_labels (h : IndicesKept rawEntries rawLabels) : KeepsPositions rawLabels := by
  have hne := parseEncodedList_ne_nil h.keeps_entries.1
  refine keepsPositions_iff.2 fun i hi name hname => ?_
  have hkey : ∀ c ∈ paddedKey name i, isDigit c = true := fun c => isDigit_of_mem_paddedKey
  have hn : stoul (paddedKey name i) = .ok i := stoull_zeros _ hi
  have hnil : paddedKey name i ≠ [] := List.ne_nil_of_length_pos (by
    have hlt := length_lt_paddedKey name i
    omega)
  have hresolve : resolveLabelName (some (parseEncodedList rawLabels)) (paddedKey name i) =
      .ok name := by
    rw [resolveLabelName, if_pos ⟨hnil, List.all_eq_true.2 hkey⟩, hn, ok_bind, hname]
    rfl
  obtain ⟨hkept, records, hrecords, hlabels⟩ := parse_labelAt hne hkey hn hresolve
  have hfindEntries : (labelAt rawEntries rawLabels (paddedKey name i)).find? kHeaderEntries =
      some rawEntries := UnorderedMap.find?_eq_some.2 (by simp [labelAt])
  have hfindLabels : (labelAt rawEntries rawLabels (paddedKey name i)).find? kHeaderLabels =
      some rawLabels := UnorderedMap.find?_eq_some.2 (by simp [labelAt])
  obtain ⟨record, rfl⟩ : ∃ record, records = [record] := by
    have hlength := congrArg List.length hlabels
    rw [List.length_map] at hlength
    exact List.length_eq_one_iff.1 hlength
  have hattributed := (h.records false _ _ hfindEntries hfindLabels hrecords).resolve_left (by simp)
  have hspelled : spelledOps (labelHeader (paddedKey name i)) =
      [(paddedKey name i, some (bytes "x"))] := headerOps_labelHeader hkey rfl
  have hprefixes : entryPrefixes [(0, 0, labelHeader (paddedKey name i))] =
      [[(0, 0, labelHeader (paddedKey name i))]] := rfl
  rw [hkept, hprefixes, List.map_singleton] at hattributed
  obtain ⟨ops, hops, hfold⟩ := (List.forall₂_cons.1 hattributed).1.labels
  rw [List.flatMap_singleton, hspelled] at hops
  obtain ⟨⟨opName, opValue⟩, rest, ⟨hvalue, hnamed⟩, hrest, rfl⟩ :=
    List.forall₂_cons_left_iff.1 hops
  obtain rfl := List.forall₂_nil_left_iff.1 hrest
  dsimp only at hvalue hnamed
  subst hvalue
  -- the label of the record has one name only
  obtain rfl : opName = name := by
    have hlabel : record.labels = (∅ : LabelMap).insert opName (bytes "x") := hfold
    have hmem : name ∈ (∅ : LabelMap).insert opName (bytes "x") := by
      rw [List.map_singleton, List.singleton_inj] at hlabels
      rw [← hlabel, hlabels]
      exact Std.ExtTreeMap.mem_insert_self
    rw [Std.ExtTreeMap.mem_insert, Std.compare_eq_iff_eq] at hmem
    exact hmem.resolve_right Std.ExtTreeMap.not_mem_empty
  rcases hnamed with hspelling | ⟨-, -, idx, hidx, hfield⟩
  · have hlt := length_lt_paddedKey opName i
    rw [← hspelling] at hlt
    omega
  · rw [hn] at hidx
    cases hidx
    exact hfield

end Probes

/-- An index stands for the field at its position, whatever else a response has, if
and only if the first entry can be used and neither list has a field that cannot be
used before one that can. -/
theorem indicesKept_iff (rawEntries rawLabels : Bytes) :
    IndicesKept rawEntries rawLabels ↔
      fieldAt rawEntries 0 ≠ none ∧ KeepsPositions rawEntries ∧ KeepsPositions rawLabels := by
  constructor
  · intro h
    exact ⟨h.keeps_entries.1, h.keeps_entries.2, h.keeps_labels⟩
  · rintro ⟨hfirst, hentries, hlabels⟩
    refine ⟨?_, ?_⟩
    · intro head headers records hfindEntries hfindLabels hrecords
      exact records_attributed hentries hlabels hfindEntries hfindLabels hrecords
    · intro server ioPath batch type request errors hbuilt hfind hresult headers entry time error
      exact errors_attributed hfirst hentries hbuilt hfind hresult

/-- A record of the entry with index 1, of `a`, an empty field and `b`. -/
def skippedField : Headers := UnorderedMap.empty.emplaceAll
  [(kHeaderEntries, bytes "a,,b"), (kHeaderStartTs, bytes "0"), (kHeaderLabels, bytes "k"),
    (bytes "x-reduct-1-0", bytes "0")]

omit [StdSort] in
/-- The index of the empty field stands for the entry after it. -/
theorem indicesKept_skippedField :
    (@parseAndBuildBatchedRecordsV2 .insertion false skippedField).map
        (fun records => records.map ReadableRecord.entry) = .ok [bytes "b"] ∧
      fieldAt (bytes "a,,b") 1 = none ∧ ¬ @IndicesKept .insertion (bytes "a,,b") (bytes "k") := by
  have hnone : fieldAt (bytes "a,,b") 1 = none := by decide
  have hsome : fieldAt (bytes "a,,b") 2 = some (bytes "b") := by decide
  refine ⟨by decide, hnone, fun h => ?_⟩
  have hkeeps := (@IndicesKept.keeps_entries .insertion _ _ h).2 1 (by decide) 2 (by decide) hnone
  rw [hsome] at hkeeps
  cases hkeeps

end Reduct
