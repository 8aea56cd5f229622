-- SUMMARY: When a v1 response is decoded in the order of its timestamps: the decoder goes by the names of the headers, as strings.
import ReductClient.Bucket.DecodedResponse
import ReductClient.Bucket.Reassembly
import ReductClient.Internal.RecordValuesV1

open Cxx Fallible Transition

namespace Reduct

/-- The order of the timestamps as strings is that of the numbers, and timestamps
and sizes are in the range of the clock and of `std::stoll`. -/
structure OrderedAsText (records : List RecordV1) : Prop where
  sorted : records.Pairwise fun r r' => compare (decimal r.micros) (decimal r'.micros) = .lt
  micros_lt : ∀ r ∈ records, r.micros * 1000 < 2 ^ 63
  size_lt : ∀ r ∈ records, r.size < 2 ^ 63

variable {headers : Headers} {records : List RecordV1}

/-! ## Decoding in time order -/

/-- The records of the response come out in the order of their timestamps, with
their sizes. -/
def InTimeOrder (records : List RecordV1) (out : List ReadableRecord) : Prop :=
  out.map (fun r => (r.timestamp.ns, r.size)) = records.map fun r => ((r.micros : Int) * 1000, r.size)

/-- Reading the records in order against a body in time order, in any chunks and any
interleaving, gives every record its own bytes. -/
def ReadsOwnBytes [StdSort] (headers : Headers) (records : List RecordV1) : Prop :=
  ∀ contents : List Bytes, contents.map List.length = records.map RecordV1.size →
    ∀ chunks : List Bytes, chunks.flatten = contents.flatten →
      ∀ s, ReadState.Reachable ⟨.batchedV1, false, false, readThrough⟩
        (.delivered headers chunks .kOk) s → s.runner.visits.map Visit.bytes <+: contents

/-- The flag of the response is on the last record, and on no other. -/
def FlagsLast (headers : Headers) (out : List ReadableRecord) : Prop :=
  ∀ i r, out[i]? = some r → (r.last = true ↔ announcesEnd headers = true ∧ i + 1 = out.length)

/-- The response is decoded in time order. -/
def DecodesInTimeOrder [StdSort] (headers : Headers) (records : List RecordV1) : Prop :=
  (∀ head, ∃ out, parseAndBuildBatchedRecordsV1 head headers = .ok out ∧
    InTimeOrder records out ∧ FlagsLast headers out) ∧
  ReadsOwnBytes headers records

theorem flagsLast_flagLast {decoded : List ReadableRecord} (h : ∀ r ∈ decoded, r.last = false) :
    FlagsLast headers (flagLast (announcesEnd headers) decoded) := by
  intro i r hr
  rcases List.eq_nil_or_concat' decoded with rfl | ⟨init, last, rfl⟩
  · simp at hr
  · rw [length_flagLast, List.length_append, List.length_singleton]
    rw [flagLast_concat _ _ (h last (by simp)), List.getElem?_append] at hr
    split at hr
    · rename_i hlt
      have hfalse := h r (List.mem_append_left _ (List.mem_of_getElem? hr))
      simp only [hfalse, Bool.false_eq_true, false_iff, not_and]
      omega
    · rename_i hge
      obtain ⟨hi, rfl⟩ := List.getElem?_eq_some_iff.1 hr
      have hlast : i = init.length := by
        simp only [List.length_singleton] at hi
        omega
      simp [hlast]

/-- Records in time order have the order of their names. -/
theorem AnnouncesV1.orderedAsText (h : AnnouncesV1 headers records) {head : Bool}
    {out : List ReadableRecord} (hout : parseAndBuildBatchedRecordsV1 head headers = .ok out)
    (horder : InTimeOrder records out) : OrderedAsText records := by
  obtain ⟨ordered, hperm, heq, hsorted⟩ := h.ordered
  rw [parseAndBuildBatchedRecordsV1_eq, heq] at hout
  obtain ⟨decoded, hdecoded, hout⟩ := bind_eq_ok.1 hout
  cases hout
  obtain ⟨hlt, rfl⟩ := mapM_decodeRecordV1.1 hdecoded
  have hfields : (ordered.map (RecordV1.decoded head)).map (fun r => (r.timestamp.ns, r.size)) =
      records.map fun r => ((r.micros : Int) * 1000, r.size) := by
    rw [← horder, map_flagLast (f := fun r => (r.timestamp.ns, r.size)) fun _ _ => rfl]
  have hmicros : ∀ r ∈ records, r.micros * 1000 < 2 ^ 63 := by
    intro r hr
    have hmem : ((r.micros : Int) * 1000, r.size) ∈
        records.map fun r => ((r.micros : Int) * 1000, r.size) := List.mem_map_of_mem hr
    rw [← hfields] at hmem
    obtain ⟨d, -, hd⟩ := List.mem_map.1 hmem
    have hns := (Prod.mk.inj hd).1
    have hupper := d.timestamp.upper
    omega
  have hordered : ordered.map RecordV1.micros = records.map RecordV1.micros := by
    have hexact : ∀ r ∈ ordered, (r.decoded head).timestamp.ns = (r.micros : Int) * 1000 := by
      intro r hr
      have hr' := hmicros r (hperm.mem_iff.1 hr)
      exact timeFromMicroseconds_ns (by omega) (by omega)
    have hns := congrArg (List.map fun p : Int × Nat => (p.1 / 1000).toNat) hfields
    simp only [List.map_map, Function.comp_def] at hns
    have hleft : ∀ r ∈ ordered, ((r.decoded head).timestamp.ns / 1000).toNat = r.micros := by
      intro r hr
      rw [hexact r hr]
      omega
    have hright : ∀ r ∈ records, (((r.micros : Int) * 1000) / 1000).toNat = r.micros := by
      intro r _
      omega
    rw [List.map_congr_left hleft, List.map_congr_left hright] at hns
    exact hns
  refine ⟨?_, hmicros, fun r hr => (hlt r (hperm.mem_iff.2 hr)).1⟩
  rw [← List.pairwise_map (f := RecordV1.micros)
    (R := fun m n => compare (decimal m) (decimal n) = .lt)] at hsorted ⊢
  rwa [← hordered]

theorem OrderedAsText.decodes (htext : OrderedAsText records) (h : AnnouncesV1 headers records)
    (head : Bool) :
    parseAndBuildBatchedRecordsV1 head headers =
      .ok (flagLast (announcesEnd headers) (records.map (RecordV1.decoded head))) := by
  refine h.decodes htext.sorted (fun r hr => ⟨htext.size_lt r hr, ?_⟩) head
  have hr' := htext.micros_lt r hr
  omega

theorem OrderedAsText.inTimeOrder (htext : OrderedAsText records) (head flag : Bool) :
    InTimeOrder records (flagLast flag (records.map (RecordV1.decoded head))) := by
  rw [InTimeOrder, map_flagLast (f := fun r => (r.timestamp.ns, r.size)) fun _ _ => rfl,
    List.map_map]
  refine List.map_congr_left fun r hr => ?_
  have hr' := htext.micros_lt r hr
  have hns : (timeFromMicroseconds r.micros).ns = (r.micros : Int) * 1000 :=
    timeFromMicroseconds_ns (by omega) (by omega)
  simp [RecordV1.decoded, hns]

/-- Where the records come out as they are, each of them is read from its own
place in the body. -/
theorem readsOwnBytes [StdSort]
    (hout : parseAndBuildBatchedRecordsV1 false headers =
      .ok (flagLast (announcesEnd headers) (records.map (RecordV1.decoded false)))) :
    ReadsOwnBytes headers records := by
  intro contents hcontents chunks hchunks s hs
  have hsizes : (flagLast (announcesEnd headers) (records.map (RecordV1.decoded false))).map
      ReadableRecord.size = contents.map List.length := by
    rw [map_flagLast (fun _ _ => rfl), List.map_map, hcontents]
    rfl
  have hlength : chunks.flatten.length = ((flagLast (announcesEnd headers)
      (records.map (RecordV1.decoded false))).map ReadableRecord.size).sum := by
    rw [hsizes, hchunks, List.length_flatten]
  obtain ⟨b, hversion, hrecords, hbody, hreaches⟩ :=
    @threadReaches_of_reachable _ .v1 headers _ hout chunks hlength
  have hcall : b.call readThrough = ⟨.batchedV1, false, false, readThrough⟩ := by
    rw [BatchResponse.call, hversion]
    rfl
  have hsegments : b.segments = contents := by
    rw [BatchResponse.segments, BatchResponse.sizes, hrecords, hbody, hsizes, hchunks,
      Chunks.splitLengths_flatten]
  have hpos : ∀ r ∈ b.records, 0 < r.size := by
    intro r hr
    have hsize : r.size ∈ records.map RecordV1.size := by
      rw [← hcontents, ← hsizes, ← hrecords]
      exact List.mem_map_of_mem hr
    obtain ⟨record, -, heq⟩ := List.mem_map.1 hsize
    rw [← heq]
    exact record.size_pos
  rcases hreaches readThrough s (hcall ▸ hs) with hidle | hthread
  · rw [hidle]
    exact List.nil_prefix
  · obtain ⟨c, q, hstart, hrun⟩ := hthread.start
    rw [← hsegments]
    exact (BatchResponse.reassembled_of_start hstart hpos hrun).visits

variable [StdSort]

/-- A v1 response is decoded in time order if and only if the order of its
timestamps as strings is that of the numbers, in the range of the clock and of
`std::stoll`. -/
theorem decodesInTimeOrder_iff (h : AnnouncesV1 headers records) :
    DecodesInTimeOrder headers records ↔ OrderedAsText records := by
  constructor
  · rintro ⟨hdecodes, -⟩
    obtain ⟨out, hout, horder, -⟩ := hdecodes false
    exact h.orderedAsText hout horder
  · intro htext
    constructor
    · intro head
      refine ⟨_, htext.decodes h head, htext.inTimeOrder head _, flagsLast_flagLast ?_⟩
      exact List.forall_mem_map.2 fun _ _ => rfl
    · exact readsOwnBytes (htext.decodes h false)

/-- A record of one byte. -/
def oneByte (micros : Nat) : RecordV1 where
  micros := micros
  size := 1
  contentType := bytes "t"
  labels := none
  size_pos := by decide
  contentType_ne := by decide
  contentType_comma := by decide
  contentType_plain := by decide
  labels_plain := by simp

/-- A response with two records and the flag, whose headers are iterated in the
reverse order of the timestamps. -/
def twoTimestamps (m n : Nat) (h : m ≠ n) : Headers where
  toList := [(oneByte n).header, (kHeaderLast, bytes "true"), (oneByte m).header]
  nodup := by
    have hlast : ∀ k, recordNameV1 k ≠ kHeaderLast := by
      intro k hk
      have hstarts := isPrefixOf_append kHeaderTimePrefix (decimal k)
      rw [← recordNameV1, hk] at hstarts
      exact absurd hstarts (by decide)
    have hne : recordNameV1 (oneByte n).micros ≠ recordNameV1 (oneByte m).micros := fun heq =>
      h (recordNameV1_injective heq).symm
    have hlast' : kHeaderLast ≠ recordNameV1 (oneByte m).micros := (hlast m).symm
    simp [RecordV1.header, hlast, hlast', hne]

omit [StdSort] in
theorem twoTimestamps_announces :
    AnnouncesV1 (twoTimestamps 9 10 (by decide)) [oneByte 9, oneByte 10] ∧
      AnnouncesV1 (twoTimestamps 10 11 (by decide)) [oneByte 10, oneByte 11] :=
  ⟨⟨by decide, by decide⟩, ⟨by decide, by decide⟩⟩

omit [StdSort] in
theorem decodesInTimeOrder_sample :
    @DecodesInTimeOrder .insertion (twoTimestamps 10 11 (by decide)) [oneByte 10, oneByte 11] :=
  (@decodesInTimeOrder_iff _ _ .insertion twoTimestamps_announces.2).2
    ⟨by decide, by decide, by decide⟩

omit [StdSort] in
/-- The record at 10 comes before the one at 9. -/
theorem decodesInTimeOrder_broken :
    AnnouncesV1 (twoTimestamps 9 10 (by decide)) [oneByte 9, oneByte 10] ∧
      ¬ @DecodesInTimeOrder .insertion (twoTimestamps 9 10 (by decide)) [oneByte 9, oneByte 10] := by
  refine ⟨twoTimestamps_announces.1, ?_⟩
  rintro ⟨hdecodes, -⟩
  obtain ⟨out, hout, horder, -⟩ := hdecodes false
  have htext := twoTimestamps_announces.1.orderedAsText hout horder
  exact absurd htext.sorted (by decide)

end Reduct
