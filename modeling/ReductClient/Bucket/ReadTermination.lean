-- SUMMARY: Whether reading every record of a batch through comes to an end: what `Read` of an empty record does, and the exact condition on the sizes.
import ReductClient.Bucket.BatchResponse

open Cxx Transition

namespace Reduct

/-! ## `Read` of an empty record -/

/-- What is pushed back in front of the queue is never the end marker. -/
theorem none_not_mem_back {kind : ReadKind} {total : Nat} {item chunk : Item} {back : List Item}
    (h : kind.fetch total item = .chunk chunk back) : none ∉ back := by
  have hsplit : ∀ size chunk', splitChunk size total chunk' = .chunk chunk back → none ∉ back := by
    intro size chunk' hsplit
    unfold splitChunk at hsplit
    split at hsplit <;> cases hsplit <;> simp
  cases kind with
  | single => cases h; simp
  | v1 size =>
    cases item with
    | none => cases h
    | some chunk' => exact hsplit size chunk' h
  | v2 size =>
    cases item with
    | none => cases h; simp
    | some chunk' => exact hsplit size chunk' h

/-- The end marker does not come back. -/
theorem endMarker_step {callback : RecordCallback} (c d : RunnerConfig)
    (h : none ∉ c.queues .data) (hstep : RunnerStep callback c d) : none ∉ d.queues .data := by
  cases hstep.move with
  | dequeue | skip | call | ret | retInline | readHead | read | loopEnd | loopStop | loopCall =>
    exact h
  | fault => exact fun hmem => h (List.mem_cons_of_mem _ hmem)
  | endOfData hfetch | pause hfetch | enough hfetch | more hfetch =>
    intro hmem
    rcases List.mem_append.1 hmem with hback | hdata
    · exact none_not_mem_back hfetch hback
    · exact h (List.mem_cons_of_mem _ hdata)

section Reading

variable {callback : RecordCallback} {record : ReadableRecord} {chunks : List Bytes}
  {kind : ReadKind} {onChunk : List Bytes → Bool} {k : List Bytes → CallbackProg}
  {got : List Bytes} {origin : Origin} {visits : List Visit} {stopped : Bool} {ready : List Nat}
  {tasks : List Task} {tail : List Item}

/-- Empty chunks in front of the queue only cost pauses. -/
theorem skips_empty (hkind : kind.size? = some 0) (source : List Bytes) :
    ∃ source' : List Bytes, source'.flatten = source.flatten ∧ (∀ chunk ∈ source'.head?, chunk ≠ []) ∧
      Reaches (RunnerStep callback)
        ⟨⟨.active record chunks (.reading kind onChunk k 0 got) origin, visits, stopped, ready⟩,
          delivery tasks (source.map some ++ tail)⟩
        ⟨⟨.active record chunks (.reading kind onChunk k 0 got) origin, visits, stopped, ready⟩,
          delivery tasks (source'.map some ++ tail)⟩ := by
  induction source with
  | nil => exact ⟨[], rfl, by simp, .refl⟩
  | cons chunk source ih =>
    by_cases hne : chunk = []
    · subst hne
      obtain ⟨source', hflatten, hhead, hrun⟩ := ih
      have hfetch := fetch_some hkind (by simp) (le_refl 0) []
      exact ⟨source', by simpa using hflatten, hhead, .head (Move.pause hfetch).step hrun⟩
    · exact ⟨chunk :: source, rfl, by simpa using hne, .refl⟩

/-- An empty record takes the empty first part of a chunk, and puts the whole
chunk back. -/
theorem step_loop (hkind : kind.size? = some 0) {chunk : Bytes} (hne : chunk ≠ [])
    {data : List Item} {d : RunnerConfig}
    (h : RunnerStep callback
      ⟨⟨.active record chunks (.reading kind onChunk k 0 got) origin, visits, stopped, ready⟩,
        delivery tasks (some chunk :: data)⟩ d) :
    d = ⟨⟨.active record chunks (.reading kind onChunk k 0 got) origin, visits, stopped, ready⟩,
      delivery tasks (some chunk :: data)⟩ := by
  have hfetch := fetch_some hkind (by simp) (le_refl 0) chunk
  rw [if_pos (by simpa [List.length_pos_iff] using hne)] at hfetch
  exact Channel.step_deterministic _ h (Move.pause hfetch).step

end Reading

namespace BatchResponse

/-- Reading every record through, with everything queued: the thread comes to
its end, each record with its segment, without taking the end marker for a chunk
or off the queue before the last record. -/
structure ReadsThrough (b : BatchResponse) : Prop where
  returns : ∀ c, b.Start c → ∃ d, Reaches (RunnerStep readThrough) c d ∧ AtEnd d ∧
    d.state.visits.map Visit.record = b.records ∧ d.state.visits.map Visit.bytes = b.segments
  not_crashed : ∀ c d, b.Start c → Reaches (RunnerStep readThrough) c d → d.state.phase ≠ .crashed
  endMarker : ∀ c d, b.Start c → Reaches (RunnerStep readThrough) c d → none ∉ d.queues .data →
    b.records.length ≤ d.state.visits.length + 1

/-- The records that must not be empty: all of them for v1, all but the last for
v2. -/
def filled (b : BatchResponse) : List ReadableRecord :=
  match b.version with
  | .v1 => b.records
  | .v2 => b.records.dropLast

/-- The calls for some records that are read through from the start of the body. -/
def served (b : BatchResponse) (records : List ReadableRecord) : List Visit :=
  List.zipWith visitOf records
    (serve (fun _ => .full) 0 (records.map ReadableRecord.size) b.chunks)

@[simp] theorem length_served (b : BatchResponse) (records : List ReadableRecord) :
    (b.served records).length = records.length := by
  simp [served, length_serve]

/-- The thread in `Read` of an empty record after some calls. -/
def emptyRead (b : BatchResponse) (record : ReadableRecord) (origin : Origin)
    (visits : List Visit) (ready : List Nat) (tasks : List Task) (source : List Bytes) :
    RunnerConfig :=
  ⟨⟨.active record [] (.reading (b.version.kind 0) (fun _ => true) (fun _ => .ret true) 0 [])
    origin, visits, false, ready⟩, delivery tasks (source.map some ++ [none])⟩

variable {b : BatchResponse} {c : RunnerConfig}

theorem length_unread_full (k : Nat) (sizes : List Nat) {source : List Bytes}
    (h : sizes.sum ≤ source.flatten.length) :
    (unread (fun _ => .full) k sizes source).flatten.length =
      source.flatten.length - sizes.sum := by
  induction sizes generalizing k source with
  | nil => simp [unread]
  | cons size sizes ih =>
    simp only [List.sum_cons] at h
    obtain ⟨-, hdrop⟩ := Chunks.read_none_flatten (show size ≤ source.flatten.length by omega)
    have hrest : sizes.sum ≤ (Chunks.read none size source).2.flatten.length := by
      rw [hdrop, List.length_drop]; omega
    simp only [unread, ReadPolicy.take, ih (k + 1) hrest, hdrop, List.length_drop, List.sum_cons]
    omega

/-- The thread comes to `Read` of the first empty record. -/
theorem Start.reaches_emptyRead (h : b.Start c) {init rest : List ReadableRecord}
    {record : ReadableRecord} (hrecords : b.records = init ++ record :: rest)
    (hinit : ∀ r ∈ init, 0 < r.size) (hempty : record.size = 0) :
    ∃ origin ready tasks, ∃ source : List Bytes,
      Reaches (RunnerStep readThrough) c
        (b.emptyRead record origin (b.served init) ready tasks source) ∧
      origin.rest tasks = rest ∧
      source.flatten.length = (rest.map ReadableRecord.size).sum ∧
      ∀ chunk ∈ source.head?, chunk ≠ [] := by
  obtain ⟨hhead, hgoes, hvisits, hdata⟩ := h.atHead
  have hmem : ∀ r ∈ init ++ record :: rest, r ∈ b.records := fun r hr => hrecords ▸ hr
  have hlength := b.length_eq
  simp only [hrecords, List.map_append, List.map_cons, List.sum_append, List.sum_cons, hempty]
    at hlength
  rw [hrecords] at hhead
  obtain ⟨d, hrun, hhead', hvisits', hgoes', hleft⟩ := hhead.serves_all (fun _ => .full) hgoes hdata
    (fun r hr => b.read_eq r (hmem r (by simp [hr])))
    (fun r hr => b.size_lt r (hmem r (by simp [hr]))) hinit (hrecords ▸ b.last_eq) (by omega)
  obtain ⟨origin, tasks, ready, horigin, hcall⟩ := hhead'.call readThrough (hgoes' (by simp))
  have hread := b.read_eq record (hmem record (by simp))
  rw [hempty] at hread
  have hkind : (b.version.kind 0).size? = some 0 := BatchVersion.size?_kind ..
  let left := unread (fun _ => .full) 0 (init.map ReadableRecord.size) b.chunks
  obtain ⟨source, hflatten, hfirst, hskip⟩ : ∃ source : List Bytes,
      source.flatten = left.flatten ∧ (∀ chunk ∈ source.head?, chunk ≠ []) ∧
      Reaches (RunnerStep readThrough) (b.emptyRead record origin (b.served init) ready tasks left)
        (b.emptyRead record origin (b.served init) ready tasks source) :=
    skips_empty hkind left
  refine ⟨origin, ready, tasks, source, ?_, horigin, ?_, hfirst⟩
  · have hstart : Reaches (RunnerStep readThrough) d
        (b.emptyRead record origin (b.served init) ready tasks left) := by
      have hkind' : record.read.kind = b.version.kind 0 := by rw [hread]
      have hserved : d.state.visits = b.served init := by rw [hvisits', hvisits]; rfl
      rw [hvisits, List.length_nil] at hleft
      rw [hserved, hleft] at hcall
      rw [emptyRead, ← hkind']
      exact hcall.tail (Move.read (by rw [hread])).step
    exact hrun.trans (hstart.trans hskip)
  · rw [hflatten, length_unread_full]
    · omega
    · omega

/-- The first record that is empty and must not be. -/
theorem exists_first_empty (h : ¬ ∀ r ∈ b.filled, 0 < r.size) :
    ∃ init record rest, b.records = init ++ record :: rest ∧ (∀ r ∈ init, 0 < r.size) ∧
      record.size = 0 ∧ (b.version = .v2 → rest ≠ []) := by
  push Not at h
  obtain ⟨r, hr, hsize⟩ := h
  have hfind : (b.filled.find? (fun r => r.size = 0)).isSome := by
    rw [List.find?_isSome]
    exact ⟨r, hr, by simpa using hsize⟩
  obtain ⟨record, hrecord⟩ := Option.isSome_iff_exists.1 hfind
  obtain ⟨hempty, init, rest, hsplit, hinit⟩ := List.find?_eq_some_iff_append.1 hrecord
  have hempty : record.size = 0 := by simpa using hempty
  have hinit : ∀ r ∈ init, 0 < r.size := fun r hr => by
    simpa [Nat.pos_iff_ne_zero] using hinit r hr
  unfold filled at hsplit
  split at hsplit
  · rename_i hversion
    exact ⟨init, record, rest, hsplit, hinit, hempty, fun h => by simp [hversion] at h⟩
  · have hne : b.records ≠ [] := by rintro h; simp [h] at hsplit
    have hrecords := List.dropLast_append_getLast hne
    rw [hsplit, List.append_assoc, List.cons_append] at hrecords
    exact ⟨init, record, _, hrecords.symm, hinit, hempty, fun _ => by simp⟩

/-- An empty record where there must be none is not read through: `Read` does not
return if there is data behind it, and otherwise comes to the end marker. -/
theorem ReadsThrough.filled (h : b.ReadsThrough) : ∀ r ∈ b.filled, 0 < r.size := by
  by_contra hnot
  obtain ⟨init, record, rest, hrecords, hinit, hempty, hrest⟩ := exists_first_empty hnot
  have hstart : b.Start (queuedStart b.records b.data) := .inl rfl
  obtain ⟨origin, ready, tasks, source, hrun, -, -, hfirst⟩ :=
    hstart.reaches_emptyRead hrecords hinit hempty
  have hkind : (b.version.kind 0).size? = some 0 := BatchVersion.size?_kind ..
  cases source with
  | cons chunk source =>
    -- the thread stays where it is
    have hne : chunk ≠ [] := hfirst chunk rfl
    obtain ⟨e, hend, hatEnd, -, -⟩ := h.returns _ hstart
    have hloop := eq_of_reaches_loop (fun _ => step_loop hkind hne)
      (reaches_stuck (Channel.step_deterministic _) hrun hend hatEnd.stuck)
    have hnone := hatEnd.phase.1
    rw [hloop] at hnone
    cases hnone
  | nil =>
    cases hversion : b.version with
    | v1 =>
      rw [emptyRead, hversion] at hrun
      exact h.not_crashed _ _ hstart (hrun.tail (Move.fault rfl).step) rfl
    | v2 =>
      rw [emptyRead, hversion] at hrun
      have hmarker := h.endMarker _ _ hstart (hrun.tail (Move.endOfData rfl).step) (by simp)
      have hlength := List.length_pos_iff.2 (hrest hversion)
      simp only [hrecords, List.length_append, List.length_cons, length_served] at hmarker
      omega

theorem serve_concat (policy : Nat → ReadPolicy) (k : Nat) (sizes : List Nat) (size : Nat)
    (source : List Bytes) :
    serve policy k (sizes ++ [size]) source = serve policy k sizes source ++
      [((policy (k + sizes.length)).take size (unread policy k sizes source)).1] := by
  induction sizes generalizing k source with
  | nil => rfl
  | cons head sizes ih =>
    have hindex : k + 1 + sizes.length = k + (head :: sizes).length := by
      simp only [List.length_cons]; omega
    simp [serve, unread, ih, hindex]

/-- An empty record at the end has an empty segment. -/
theorem segments_of_empty_last {init : List ReadableRecord} {record : ReadableRecord}
    (hrecords : b.records = init ++ [record]) (hempty : record.size = 0) :
    b.segments = (b.served init).map Visit.bytes ++ [[]] := by
  have hsizes : b.sizes = init.map ReadableRecord.size ++ [0] := by
    simp [sizes, hrecords, hempty]
  rw [← b.full_bytes, hrecords, hsizes, serve_concat, List.zipWith_append (by simp [length_serve]),
    List.map_append]
  have hlast := List.length_eq_zero_iff.1 (Nat.le_zero.1 (Chunks.length_read_le none 0
    (unread (fun _ => .full) 0 (init.map ReadableRecord.size) b.chunks)))
  simp [served, visitOf, Visit.bytes, ReadPolicy.take, hlast]

/-- Where only the last record is empty, its `Read` takes the end marker. -/
theorem Start.reads_empty_last (h : b.Start c) (hversion : b.version = .v2)
    {init : List ReadableRecord} {record : ReadableRecord} (hrecords : b.records = init ++ [record])
    (hinit : ∀ r ∈ init, 0 < r.size) (hempty : record.size = 0) :
    ∃ d e, Reaches (RunnerStep readThrough) c d ∧ Reaches (RunnerStep readThrough) d e ∧
      none ∈ d.queues .data ∧ b.records.length ≤ d.state.visits.length + 1 ∧ AtEnd e ∧
      e.state.visits.map Visit.bytes = b.segments := by
  obtain ⟨origin, ready, tasks, source, hrun, horigin, hlength, hfirst⟩ :=
    h.reaches_emptyRead hrecords hinit hempty
  obtain rfl : source = [] := by
    cases source with
    | nil => rfl
    | cons chunk source =>
      have hne : chunk ≠ [] := hfirst chunk rfl
      simp_all
  have hread : RunnerStep readThrough (b.emptyRead record origin (b.served init) ready tasks [])
      ⟨⟨.active record [] (.running (.ret true)) origin, b.served init, false, ready⟩,
        delivery tasks []⟩ := by
    rw [emptyRead, hversion]
    have hfetch : ReadKind.fetch 0 (.v2 0) none = .chunk none [] := rfl
    exact (Move.endOfData hfetch).step
  obtain ⟨d, hret, hhead, hvisits, -, -⟩ := returns_atHead readThrough record [] true origin
    (b.served init) ready tasks []
  rw [horigin] at hhead
  obtain ⟨e, hend, hatEnd, hsame, -, -⟩ := hhead.ends readThrough
  refine ⟨_, e, hrun, .head hread (.head hret hend), by simp [emptyRead], ?_, hatEnd, ?_⟩
  · simp [emptyRead, hrecords]
  · rw [hsame, hvisits, segments_of_empty_last hrecords hempty, List.map_append]
    rfl

/-- Where every record that must not be empty is not, the thread comes to its end
past a state in which the end marker is still queued. -/
theorem Start.reads_all (h : b.Start c) (hfilled : ∀ r ∈ b.filled, 0 < r.size) :
    ∃ d e, Reaches (RunnerStep readThrough) c d ∧ Reaches (RunnerStep readThrough) d e ∧
      none ∈ d.queues .data ∧ b.records.length ≤ d.state.visits.length + 1 ∧ AtEnd e ∧
      e.state.visits.map Visit.bytes = b.segments := by
  by_cases hpos : ∀ r ∈ b.records, 0 < r.size
  · obtain ⟨e, hrun, hend, hvisits, hdata⟩ := h.ends (fun _ => .full) hpos
    refine ⟨e, e, hrun, .refl, by simp [hdata], ?_, hend, ?_⟩
    · simp [hvisits, length_serve, sizes]
    · rw [hvisits, full_bytes]
  · unfold BatchResponse.filled at hfilled
    split at hfilled
    · exact absurd hfilled hpos
    · rename_i hversion
      have hne : b.records ≠ [] := by rintro h; simp [h] at hpos
      have hrecords := (List.dropLast_append_getLast hne).symm
      refine h.reads_empty_last hversion hrecords hfilled ?_
      by_contra hlast
      refine hpos fun r hr => ?_
      rw [hrecords, List.mem_append, List.mem_singleton] at hr
      rcases hr with hr | rfl
      · exact hfilled r hr
      · exact Nat.pos_of_ne_zero hlast

theorem readsThrough_of_filled (hfilled : ∀ r ∈ b.filled, 0 < r.size) : b.ReadsThrough := by
  have hdet := Channel.step_deterministic (Runner.act readThrough)
  constructor
  · intro c hstart
    obtain ⟨d, e, hd, hend, -, -, hatEnd, hbytes⟩ := hstart.reads_all hfilled
    have hstarts := (hstart.inOrder.reaches (hd.trans hend)).visits
    refine ⟨e, hd.trans hend, hatEnd, hstarts.eq_of_length ?_, hbytes⟩
    have hlength := congrArg List.length hbytes
    simpa [segments, sizes] using hlength
  · intro c d hstart hrun hcrash
    obtain ⟨_, e, hd, hend, -, -, hatEnd, -⟩ := hstart.reads_all hfilled
    have hstuck : Stuck (RunnerStep readThrough) d :=
      Channel.stuck_of_stop (by simp only [Runner.act, hcrash])
    have heq := stuck_unique hdet hrun hstuck (hd.trans hend) hatEnd.stuck
    exact hatEnd.phase.2 (heq ▸ hcrash)
  · intro c d hstart hrun hmarker
    obtain ⟨s, _, hs, -, hqueued, hlength, -, -⟩ := hstart.reads_all hfilled
    rcases Relation.ReflTransGen.total_of_right_unique hdet hrun hs with hbefore | hafter
    · exact absurd hqueued (invariant (fun c => none ∉ c.queues .data) endMarker_step hbefore hmarker)
    · have hvisits := (extends_of_reaches hafter).1.length_le
      omega

/-- Reading every record of a batch through comes to an end, as it should, if and
only if no record is empty; the last one may be with v2. -/
theorem readsThrough_iff (b : BatchResponse) : b.ReadsThrough ↔ ∀ r ∈ b.filled, 0 < r.size :=
  ⟨ReadsThrough.filled, readsThrough_of_filled⟩

/-- A v2 response with an empty record and one of one byte. -/
def emptyFirst : BatchResponse where
  version := .v2
  records := [⟨bytes "a", .wrap 1000, 0, false, ∅, [], ⟨.v2 0, false⟩⟩,
    ⟨bytes "a", .wrap 2000, 1, true, ∅, [], ⟨.v2 1, false⟩⟩]
  chunks := [bytes "x"]
  read_eq := by simp [BatchVersion.kind]
  size_lt := by simp
  last_eq := by simp
  length_eq := by decide

/-- The first `Read` call does not return. -/
theorem readsThrough_broken : ¬ emptyFirst.ReadsThrough := by
  intro h
  exact absurd h.filled (by decide)

end BatchResponse

end Reduct
