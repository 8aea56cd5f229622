-- SUMMARY: Each record of a batched response that is read through receives its own segment of the body, under any chunking and any interleaving.
import ReductClient.Bucket.BatchResponse

open Cxx Transition

namespace Reduct

namespace BatchResponse

variable {b : BatchResponse} {c : RunnerConfig}

/-! ## Reading every record through -/

/-- What the records have received in a state of a call that reads every record
through. -/
structure Reassembled (b : BatchResponse) (r : Runner) : Prop where
  inOrder : r.invoked <+: b.records
  /-- A record whose `Read` has returned has exactly its segment. -/
  visits : r.visits.map Visit.bytes <+: b.segments
  returned : ∀ record chunks more origin,
    r.phase = .active record chunks (.running (.ret more)) origin →
      b.segments[r.visits.length]? = some chunks.flatten
  /-- The record that is being read has a prefix of its segment. -/
  reading : ∀ record chunks activity origin, r.phase = .active record chunks activity origin →
    ∃ segment, b.segments[r.visits.length]? = some segment ∧ chunks.flatten <+: segment
  /-- `size - total` does not underflow. -/
  no_underflow : ∀ record chunks kind onChunk k total got origin,
    r.phase = .active record chunks (.reading kind onChunk k total got) origin →
      kind = b.version.kind record.size ∧ total ≤ record.size
  /-- The end marker is not taken for a chunk. -/
  not_crashed : r.phase ≠ .crashed

theorem prefix_of_active {d e : RunnerConfig} {chunks : List Bytes}
    (hend : Reaches (RunnerStep (policyCallback policy)) d e) (hatEnd : AtEnd e)
    (hchunks : d.state.phase.chunks? = some chunks) :
    ∃ v, e.state.visits[d.state.visits.length]? = some v ∧ chunks <+: v.chunks := by
  rcases (extends_of_reaches hend).2 chunks hchunks with hcrash | hv | ⟨chunks', -, hsome, -⟩
  · exact absurd hcrash hatEnd.phase.2
  · exact hv
  · simp [hatEnd.phase.1] at hsome

/-- The callback that has returned from `Read` is about to return itself. -/
theorem step_ret (callback : RecordCallback) {d : RunnerConfig} {record : ReadableRecord}
    {chunks : List Bytes} {more : Bool} {origin : Origin}
    (hd : d.state.phase = .active record chunks (.running (.ret more)) origin) :
    ∃ d', RunnerStep callback d d' ∧
      d'.state.visits = d.state.visits ++ [⟨record, chunks, more⟩] := by
  obtain ⟨⟨phase, visits, stopped, ready⟩, q⟩ := d
  cases hd
  cases origin with
  | task id => exact ⟨_, Move.ret.step, rfl⟩
  | inline rest => exact ⟨_, Move.retInline.step, rfl⟩

theorem getElem?_of_prefix_concat {α : Type} {xs ys : List α} {x : α} (h : xs ++ [x] <+: ys) :
    ys[xs.length]? = some x := by
  obtain ⟨zs, rfl⟩ := h
  simp

/-- The record the callback runs on is the one with its number. -/
theorem record_of_active {records : List ReadableRecord} {d : RunnerConfig}
    {record : ReadableRecord} {chunks : List Bytes} {activity : Activity} {origin : Origin}
    (h : InOrder records d) (hd : d.state.phase = .active record chunks activity origin) :
    records[d.state.visits.length]? = some record := by
  have hinvoked := h.invoked
  simp only [Runner.invoked, hd, Phase.record?, Option.toList_some] at hinvoked
  simpa using getElem?_of_prefix_concat hinvoked

theorem length_segment_le (b : BatchResponse) {k : Nat} {record : ReadableRecord} {segment : Bytes}
    (hrecord : b.records[k]? = some record) (hsegment : b.segments[k]? = some segment) :
    segment.length ≤ record.size := by
  obtain ⟨hk, rfl⟩ := List.getElem?_eq_some_iff.1 hsegment
  obtain ⟨hk', rfl⟩ := List.getElem?_eq_some_iff.1 hrecord
  have hle := @List.length_splitLengths_getElem_le _ b.chunks.flatten b.sizes k hk
  simpa [segments, sizes] using hle

theorem reassembled_of_start (hstart : b.Start c) (hpos : ∀ r ∈ b.records, 0 < r.size)
    {d : RunnerConfig} (hrun : Reaches (RunnerStep readThrough) c d) : b.Reassembled d.state := by
  rw [readThrough_eq] at hrun
  obtain ⟨e, hend, hatEnd, hvisits⟩ := hstart.reaches_end hpos hrun
  have hbytes : e.state.visits.map Visit.bytes = b.segments := by rw [hvisits, full_bytes]
  have horder : InOrder b.records d := hstart.inOrder.reaches hrun
  have hphase : PolicyPhase d.state.phase :=
    invariant (fun c => PolicyPhase c.state.phase) policyPhase_step hrun hstart.policyPhase
  have hvisit : ∀ {v}, e.state.visits[d.state.visits.length]? = some v →
      b.segments[d.state.visits.length]? = some v.bytes := fun {v} hv => by
    rw [← hbytes, List.getElem?_map, hv]; rfl
  have hactive : ∀ record chunks activity origin,
      d.state.phase = .active record chunks activity origin →
        ∃ v : Visit, b.segments[d.state.visits.length]? = some v.bytes ∧ chunks <+: v.chunks :=
    fun record chunks activity origin hd => by
      obtain ⟨v, hv, hstarts⟩ := prefix_of_active hend hatEnd (by rw [hd]; rfl)
      exact ⟨v, hvisit hv, hstarts⟩
  refine ⟨horder.invoked, ?_, ?_, ?_, ?_, ?_⟩
  · rw [← hbytes]
    exact (extends_of_reaches hend).1.map _
  · intro record chunks more origin hd
    obtain ⟨d', hstep, hvisits'⟩ := step_ret (policyCallback fun _ => .full) hd
    have hend' := reaches_stuck (Channel.step_deterministic _) (.single hstep) hend hatEnd.stuck
    refine hvisit (v := ⟨record, chunks, more⟩) (getElem?_of_prefix_concat ?_)
    exact hvisits' ▸ (extends_of_reaches hend').1
  · intro record chunks activity origin hd
    obtain ⟨v, hv, hstarts⟩ := hactive record chunks activity origin hd
    exact ⟨v.bytes, hv, hstarts.flatten⟩
  · intro record chunks kind onChunk k total got origin hd
    obtain ⟨v, hv, hstarts⟩ := hactive _ _ _ _ hd
    rw [hd] at hphase
    obtain ⟨rfl, rfl, rfl, -⟩ := hphase
    have hrecord := record_of_active horder hd
    refine ⟨by rw [b.read_eq record (List.mem_of_getElem? hrecord)], ?_⟩
    calc (chunks.flatten).length ≤ v.bytes.length := hstarts.flatten.length_le
      _ ≤ record.size := b.length_segment_le hrecord hv
  · intro hcrash
    have hstuck : Stuck (RunnerStep (policyCallback fun _ => .full)) d :=
      Channel.stuck_of_stop (by simp only [Runner.act, hcrash])
    rw [hstuck.eq_of_reaches hend] at hatEnd
    exact hatEnd.phase.2 hcrash

/-- In every interleaving of the transfer with a worker that reads every record
through, each record receives its own segment of the body. -/
theorem reassembled [StdSort] (b : BatchResponse) (hpos : ∀ r ∈ b.records, 0 < r.size)
    (s : ReadState) (h : Reaches (ReadState.Step (b.call readThrough))
      (ReadState.decoded b.records b.chunks .kOk) s) : b.Reassembled s.runner :=
  reassembled_of_start (.inl rfl) hpos (@ReadState.queued _ (b.call readThrough) _ _ _ _ rfl h).run

theorem reassembled_sample : sampleBatch.Reassembled (@ReadState.run .insertion
    (sampleBatch.call readThrough) (ReadState.decoded sampleBatch.records sampleBatch.chunks .kOk)
    ReadState.sampleSchedule).runner :=
  @reassembled .insertion sampleBatch (by decide) _ (@ReadState.reaches_run .insertion _ _ _)

end BatchResponse

end Reduct
