-- SUMMARY: The upload of a batch: whatever chunks the library asks for, a write request goes over the wire as the framed data of its records.
import ReductClient.Bucket.Upload
import ReductClient.Internal.Framing

open Cxx Transition

namespace Reduct

/-! ## Callbacks that serve a string -/

/-- The record has the length of the data, and its callback returns the slices of it. -/
structure WritableRecord.Serves (record : WritableRecord) (data : Bytes) : Prop where
  length : record.contentLength = data.length
  slice : ∀ offset size, offset ≤ data.length →
    record.callback offset size = .ok (true, (data.drop offset).take size)

namespace Upload

variable {record : WritableRecord} {data : Bytes} {connection : Connection}

/-- The library only asks for what is missing, so the record is as good as `WriteAll`. -/
theorem next_of_serves (h : record.Serves data) (s : UploadState) :
    next ⟨record, connection⟩ s = next ⟨.writeAll data, connection⟩ s := by
  obtain ⟨body, calls, phase⟩ := s
  cases phase with
  | sent => rfl
  | failed message => rfl
  | terminated fault => rfl
  | sending =>
    have hlength : (WritableRecord.writeAll data).contentLength = record.contentLength :=
      h.length.symm
    simp only [next, hlength]
    split
    · rename_i hlt
      have hle : body.length ≤ data.length := by
        rw [← h.length]
        exact Nat.le_of_lt hlt
      simp only [contentProvider, h.slice _ _ hle, callback_writeAll hle]
    · rfl

theorem step_of_serves (h : record.Serves data) :
    Step ⟨record, connection⟩ = Step ⟨.writeAll data, connection⟩ := by
  funext s t
  rw [Step, Step, next_of_serves h]

/-- The upload of a record that serves a string sends the string, or the connection
refuses a chunk. -/
theorem ended_of_serves (h : record.Serves data) {s : UploadState}
    (hs : Reachable ⟨record, connection⟩ s) (hphase : s.phase ≠ .sending) :
    s.phase = .sent ∧ s.body = data ∨
      s.phase = .failed connection.writeFailed ∧ ∃ n, connection.takes n = false := by
  have hs' : Reachable ⟨.writeAll data, connection⟩ s := by
    rw [Reachable, ← step_of_serves h]
    exact hs
  rcases phase_of_writeAll hs' with hsending | hsent | hfailed
  · exact absurd hsending hphase
  · exact .inl ⟨hsent, body_of_writeAll hs' hsent⟩
  · exact .inr hfailed

end Upload

/-! ## The provider of a batch -/

/-- The record that a batch is uploaded as. -/
theorem serves_batchProvider {batch : Batch} (hfits : batch.total < 2 ^ 64) {order : List Nat}
    (h : batch.IsOrder order) :
    (⟨batch.size, batchProvider batch order⟩ : WritableRecord).Serves
      (order.map batch.dataAt).flatten where
  length := (Batch.size_eq_total hfits).trans (batch.length_ordered h).symm
  slice offset size _ := by
    change (batch.slice (some order) offset size >>= fun data => pure (true, data)) = _
    rw [Batch.slice_ordered hfits h]
    rfl

/-- The request is uploaded in finitely many rounds. Then its body is framed by its headers,
in whatever order these are iterated, unless the connection has refused a chunk. -/
def UploadsFramed {κ : Type} (connection : Connection) (batch : Batch) (key : Record → κ)
    (announced : Headers → Announced κ) (request : HttpRequest) : Prop :=
  ∃ path mime contentLength headers callback,
    request = .post path mime contentLength headers callback ∧
    let upload : Upload := ⟨⟨contentLength, callback⟩, connection⟩
    ∀ s, upload.Reachable s → (∃ t, Reaches upload.Step s t ∧ t.phase ≠ .sending) ∧
      (s.phase ≠ .sending →
        (s.phase = .sent ∧
          ∀ headers', headers.Same headers' → Framed batch key (announced headers') s.body) ∨
        s.phase = .failed connection.writeFailed ∧ ∃ n, connection.takes n = false)

/-- A request that is framed however it is sliced is so over the wire. -/
theorem FramesBatch.framesUpload {κ : Type} {batch : Batch} {key : Record → κ}
    {announced : Headers → Announced κ} {order : List Nat} {path mime : Bytes} {headers : Headers}
    (h : FramesBatch batch key announced
      (.post path mime batch.size headers (batchProvider batch order)))
    (hfits : batch.total < 2 ^ 64) (horder : batch.IsOrder order) (connection : Connection) :
    UploadsFramed connection batch key announced
      (.post path mime batch.size headers (batchProvider batch order)) := by
  refine ⟨_, _, _, _, _, rfl, fun s hs => ⟨Upload.ends _ s, fun hphase => ?_⟩⟩
  rcases Upload.ended_of_serves (serves_batchProvider hfits horder) hs hphase with
    ⟨hsent, hbody⟩ | hfailed
  · refine .inl ⟨hsent, fun headers' hsame => ?_⟩
    obtain ⟨_, _, _, _, _, hrequest, hframed⟩ := h
    cases hrequest
    obtain ⟨body, htransmit, hframed⟩ := hframed headers' hsame [batch.size] (by simp)
    rw [transmit_batchProvider hfits horder, List.drop_zero, List.sum_singleton,
      Batch.size_eq_total hfits, ← batch.length_ordered horder, List.take_length] at htransmit
    rw [hbody, Except.ok.inj htransmit]
    exact hframed
  · exact .inr hfailed

/-! ## Write requests -/

variable [StdSort]

/-- The write requests of both protocols go over the wire as framed by their headers: of a
batch at or after the epoch with distinct keys and a content length that does not wrap, over
v1 with one entry, over v2 with entries that the list gives back. -/
theorem uploadsFramed (connection : Connection) (batch : Batch) (defaultEntry : Bytes)
    (hepoch : ∀ r ∈ batch.records, r.timestamp.AfterEpoch)
    (hdistinct : DistinctKeys batch defaultEntry) (hfits : batch.total < 2 ^ 64) :
    (¬ SeveralEntries batch defaultEntry → ∀ bucketPath,
      UploadsFramed connection batch (·.timestamp.micros) announcedV1
        (requestV1 bucketPath defaultEntry batch .kWrite)) ∧
    ((∀ r ∈ batch.records, Listable (recordEntry r defaultEntry)) → ∀ requireEntry, ∃ request,
      buildBatchV2Request defaultEntry batch .kWrite requireEntry = .ok request ∧ ∀ ioPath,
      UploadsFramed connection batch (recordKey defaultEntry) announcedV2
        (requestV2 ioPath .kWrite batch request)) := by
  constructor
  · intro hone bucketPath
    exact ((framesBatch_requestV1_iff hepoch hdistinct hone bucketPath).2 hfits).framesUpload hfits
      (sortRecords_isOrder batch defaultEntry false) connection
  · intro hlistable requireEntry
    rcases exists_batchV2Request defaultEntry batch .kWrite requireEntry with
      ⟨-, ⟨r, hr, hmissing⟩, -⟩ | ⟨request, hbuilt, horder⟩
    · exact absurd hmissing (hlistable r hr).1
    · refine ⟨request, hbuilt, fun ioPath => ?_⟩
      have hframes := framesBatch_requestV2_iff hepoch hdistinct hbuilt ioPath
      exact (hframes.2 ⟨hfits, hlistable⟩).framesUpload hfits horder connection

omit [StdSort] in
/-- Two records of an entry, over a connection that takes every chunk. -/
theorem uploadsFramed_twoRecords :
    UploadsFramed ⟨fun _ => true, [], []⟩ twoRecords (·.timestamp.micros) (@announcedV1 .insertion)
      (@requestV1 .insertion [] (bytes "e") twoRecords .kWrite) ∧
    ∃ request, @buildBatchV2Request .insertion (bytes "e") twoRecords .kWrite true = .ok request ∧
      UploadsFramed ⟨fun _ => true, [], []⟩ twoRecords (recordKey (bytes "e"))
        (@announcedV2 .insertion) (requestV2 [] .kWrite twoRecords request) := by
  obtain ⟨hv1, hv2⟩ := @uploadsFramed .insertion ⟨fun _ => true, [], []⟩ twoRecords (bytes "e")
    (by decide) (by unfold DistinctKeys; decide) twoRecords_total
  obtain ⟨request, hbuilt, huploads⟩ := hv2 twoRecords_listable true
  exact ⟨hv1 (by unfold SeveralEntries; decide) [], request, hbuilt, huploads []⟩

end Reduct
