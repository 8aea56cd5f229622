-- SUMMARY: Batched responses, callbacks that read, refuse or skip each record, and the run of the callback thread over the shared queue of chunks.
import ReductClient.Base.Chunks
import ReductClient.Bucket.Delivery

open Cxx Transition

namespace Reduct

/-! ## Batched responses -/

/-- The protocols with batched responses. -/
inductive BatchVersion where
  | v1
  | v2
  deriving DecidableEq

/-- The closure of a record of the protocol. -/
def BatchVersion.kind : BatchVersion → Nat → ReadKind
  | .v1 => .v1
  | .v2 => .v2

/-- The read type of the protocol. -/
def BatchVersion.type : BatchVersion → ReadType
  | .v1 => .batchedV1
  | .v2 => .batchedV2

theorem BatchVersion.size?_kind (version : BatchVersion) (size : Nat) :
    (version.kind size).size? = some size := by
  cases version <;> rfl

/-- A response with a batch of records, as its decoder leaves it: each record
has a closure with its own size, only the last record can carry the flag, and
the chunks make up a body of the length announced. -/
structure BatchResponse where
  version : BatchVersion
  records : List ReadableRecord
  chunks : List Bytes
  read_eq : ∀ r ∈ records, r.read = ⟨version.kind r.size, false⟩
  size_lt : ∀ r ∈ records, r.size < 2 ^ 64
  last_eq : ∀ r ∈ records.dropLast, r.last = false
  length_eq : chunks.flatten.length = (records.map ReadableRecord.size).sum

/-- The sizes of the records. -/
def BatchResponse.sizes (b : BatchResponse) : List Nat := b.records.map ReadableRecord.size

/-- The segments of the body that belong to the records. -/
def BatchResponse.segments (b : BatchResponse) : List Bytes :=
  b.sizes.splitLengths b.chunks.flatten

/-- A v1 response with a record of two bytes and one of one byte. -/
def sampleBatch : BatchResponse where
  version := .v1
  records := [⟨[], .wrap 1000, 2, false, ∅, [], ⟨.v1 2, false⟩⟩,
    ⟨[], .wrap 2000, 1, true, ∅, [], ⟨.v1 1, false⟩⟩]
  chunks := [bytes "ab", [], bytes "c"]
  read_eq := by simp [BatchVersion.kind]
  size_lt := by simp
  last_eq := by simp
  length_eq := by decide

/-! ## Callback policies -/

/-- What the callback does with a record: it does not call `Read`, or its read
callback refuses to go on at chunk number `n`, counted from 0, or it reads to
the end. -/
inductive ReadPolicy where
  | skip
  | refuseAt (n : Nat)
  | full
  deriving DecidableEq

/-- The callback with a policy for each record. It always goes on. -/
def policyCallback (policy : Nat → ReadPolicy) : RecordCallback := fun visits record =>
  match policy visits.length with
  | .skip => .ret true
  | .refuseAt n => .read record.read (fun got => decide (got.length ≤ n)) fun _ => .ret true
  | .full => .read record.read (fun _ => true) fun _ => .ret true

theorem readThrough_eq : readThrough = policyCallback fun _ => .full := rfl

/-- The pieces a record receives, and the chunks that are left. -/
def ReadPolicy.take (policy : ReadPolicy) (size : Nat) (chunks : List Bytes) :
    List Bytes × List Bytes :=
  match policy with
  | .skip => ([], chunks)
  | .refuseAt n => Chunks.read (some n) size chunks
  | .full => Chunks.read none size chunks

/-! ## One `Read` call -/

/-- The block under the lock takes what the record still misses. -/
theorem fetch_some {kind : ReadKind} {size total : Nat} (hkind : kind.size? = some size)
    (hsize : size < 2 ^ 64) (htotal : total ≤ size) (chunk : Bytes) :
    kind.fetch total (some chunk) =
      if size - total < chunk.length then
        .chunk (some (chunk.take (size - total))) [some (chunk.drop (size - total))]
      else .chunk (some chunk) [] := by
  rw [ReadKind.fetch_chunk hkind, splitChunk, wrapSub_eq htotal hsize]

/-- The read callback refuses at the piece with number `limit` from here on. -/
def Refuses (onChunk : List Bytes → Bool) (limit : Option Nat) (got : List Bytes) : Prop :=
  ∀ pieces, onChunk (got ++ pieces) = limit.all fun n => decide (pieces.length ≤ n)

theorem Refuses.next {onChunk : List Bytes → Bool} {limit : Option Nat} {got : List Bytes}
    (h : Refuses onChunk limit got) (hlimit : limit ≠ some 0) (chunk : Bytes) :
    Refuses onChunk (limit.map (· - 1)) (got ++ [chunk]) := by
  intro pieces
  have hnext := h (chunk :: pieces)
  cases limit with
  | none => simpa using hnext
  | some n =>
    have hn : n ≠ 0 := fun h0 => hlimit (by rw [h0])
    simp only [List.append_assoc, List.singleton_append, hnext, Option.all_some, Option.map_some,
      List.length_cons, decide_eq_decide]
    omega

/-- A `Read` call that finds enough chunks in the queue hands over the pieces of
the record and leaves the other chunks. -/
theorem read_runs {callback : RecordCallback} {kind : ReadKind} {size : Nat}
    (hkind : kind.size? = some size) (hsize : size < 2 ^ 64) {onChunk : List Bytes → Bool}
    {record : ReadableRecord} {k : List Bytes → CallbackProg} {origin : Origin}
    {visits : List Visit} {stopped : Bool} {ready : List Nat} {tasks : List Task}
    {tail : List Item} (source : List Bytes) {limit : Option Nat} {total more : Nat}
    {chunks got : List Bytes} (hmore : total + more = size) (hpos : 0 < more)
    (havailable : more ≤ source.flatten.length) (hrefuses : Refuses onChunk limit got) :
    Reaches (RunnerStep callback)
      ⟨⟨.active record chunks (.reading kind onChunk k total got) origin, visits, stopped, ready⟩,
        delivery tasks (source.map some ++ tail)⟩
      ⟨⟨.active record (chunks ++ (Chunks.read limit more source).1)
          (.running (k (got ++ (Chunks.read limit more source).1))) origin, visits, stopped, ready⟩,
        delivery tasks ((Chunks.read limit more source).2.map some ++ tail)⟩ := by
  induction source generalizing limit total more chunks got with
  | nil => simp at havailable; omega
  | cons chunk source ih =>
    have hfetch := fetch_some hkind hsize (show total ≤ size by omega) chunk
    rw [show size - total = more by omega] at hfetch
    simp only [List.flatten_cons, List.length_append] at havailable
    rcases Chunks.read_cases limit more chunk with rfl | hcut | ⟨hne, hle, hlast⟩ | ⟨hne, hlt, hlimit⟩
    · simp only [List.length_nil, not_lt_zero, if_false] at hfetch
      exact .head (Move.pause hfetch).step (ih hmore hpos (by simpa using havailable) hrefuses)
    · rw [if_pos hcut] at hfetch
      have hpiece : chunk.take more ≠ [] := by simp [List.take_eq_nil_iff]; grind
      have hreached : kind.reached (total + (chunk.take more).length) = true := by
        rw [ReadKind.reached_iff hkind]; simp; omega
      rw [Chunks.read_cut limit source hcut]
      exact .single (Move.enough hfetch hpiece (by rw [hreached, Bool.or_true])).step
    · rw [if_neg (by omega)] at hfetch
      have hend : (!onChunk (got ++ [chunk]) || kind.reached (total + chunk.length)) = true := by
        rcases hlast with hlast | hlast
        · simp [ReadKind.reached_iff hkind]; omega
        · simp [hrefuses [chunk], hlast]
      rw [Chunks.read_last limit source hne hle hlast]
      exact .single (Move.enough hfetch hne hend).step
    · rw [if_neg (by omega)] at hfetch
      have hgoes : (!onChunk (got ++ [chunk]) || kind.reached (total + chunk.length)) = false := by
        have haccepts : onChunk (got ++ [chunk]) = true := by
          rw [hrefuses [chunk]]
          cases limit with
          | none => rfl
          | some n => have : n ≠ 0 := fun h0 => hlimit (by rw [h0]); simp; omega
        simp [haccepts, ReadKind.reached_iff hkind]; omega
      have hrest := @ih (limit.map (· - 1)) (total + chunk.length) (more - chunk.length)
        (chunks ++ [chunk]) (got ++ [chunk]) (by omega) (by omega) (by omega)
        (hrefuses.next hlimit chunk)
      rw [Chunks.read_piece source hne hlt hlimit]
      refine .head (Move.more hfetch hne hgoes).step ?_
      simpa using hrest

/-! ## One record after the other -/

/-- The thread is about to serve the given records, as tasks or inline. -/
inductive AtHead : List ReadableRecord → RunnerConfig → Prop where
  | idle {visits stopped ready tasks data} :
    AtHead (tasks.map Task.record) ⟨⟨.idle, visits, stopped, ready⟩, delivery tasks data⟩
  | loop {rest visits stopped ready tasks data} :
    AtHead rest ⟨⟨.loop rest, visits, stopped, ready⟩, delivery tasks data⟩

theorem atHead_queuedStart (records : List ReadableRecord) (data : List Item) :
    AtHead records (queuedStart records data) := by
  have h : AtHead ((taskList 0 records).map Task.record) (queuedStart records data) := .idle
  rwa [taskList_records] at h

theorem atHead_inlineStart (records : List ReadableRecord) (data : List Item) :
    AtHead records (inlineStart records data) := .loop

/-- The thread calls the callback for the next record. -/
theorem AtHead.call {record : ReadableRecord} {rest : List ReadableRecord} {c : RunnerConfig}
    (callback : RecordCallback) (h : AtHead (record :: rest) c) (hgoes : c.state.stopped = false) :
    ∃ origin tasks ready, origin.rest tasks = rest ∧ Reaches (RunnerStep callback) c
      ⟨⟨.active record [] (.running (callback c.state.visits record)) origin,
        c.state.visits, false, ready⟩, delivery tasks (c.queues .data)⟩ := by
  generalize hrecords : record :: rest = records at h
  cases h with
  | @idle visits stopped ready tasks data =>
    cases hgoes
    cases tasks with
    | nil => cases hrecords
    | cons task tasks =>
      cases hrecords
      exact ⟨.task task.id, tasks, ready, rfl, .head Move.dequeue.step (.single Move.call.step)⟩
  | @loop _ visits stopped ready tasks data =>
    cases hgoes
    cases hrecords
    exact ⟨.inline rest, tasks, ready, rfl, .single Move.loopCall.step⟩

/-- The callback returns, and the thread goes on to the next record. -/
theorem returns_atHead (callback : RecordCallback) (record : ReadableRecord) (chunks : List Bytes)
    (more : Bool) (origin : Origin) (visits : List Visit) (ready : List Nat) (tasks : List Task)
    (data : List Item) :
    ∃ d, RunnerStep callback
        ⟨⟨.active record chunks (.running (.ret more)) origin, visits, false, ready⟩,
          delivery tasks data⟩ d ∧
      AtHead (origin.rest tasks) d ∧ d.state.visits = visits ++ [⟨record, chunks, more⟩] ∧
      d.state.stopped = (!more || record.last) ∧ d.queues .data = data := by
  cases origin with
  | task id => exact ⟨_, Move.ret.step, .idle, rfl, rfl, rfl⟩
  | inline rest => exact ⟨_, Move.retInline.step, .loop, rfl, rfl, rfl⟩

theorem AtHead.ends {c : RunnerConfig} (callback : RecordCallback) (h : AtHead [] c) :
    ∃ d, Reaches (RunnerStep callback) c d ∧ AtEnd d ∧ d.state.visits = c.state.visits ∧
      d.state.stopped = c.state.stopped ∧ d.queues .data = c.queues .data := by
  generalize hrecords : [] = records at h
  cases h with
  | @idle visits stopped ready tasks data =>
    have htasks : tasks = [] := List.map_eq_nil_iff.1 hrecords.symm
    exact ⟨_, .refl, .inl ⟨rfl, htasks⟩, rfl, rfl, rfl⟩
  | loop =>
    cases hrecords
    exact ⟨_, .single Move.loopEnd.step, .inr rfl, rfl, rfl, rfl⟩

/-- The callback hands a record of positive size what its policy takes. -/
theorem policy_runs {version : BatchVersion} {policy : Nat → ReadPolicy} {record : ReadableRecord}
    {origin : Origin} {visits : List Visit} {ready : List Nat} {tasks : List Task}
    {source : List Bytes} {tail : List Item}
    (hread : record.read = ⟨version.kind record.size, false⟩) (hsize : record.size < 2 ^ 64)
    (hpos : 0 < record.size) (havailable : record.size ≤ source.flatten.length) :
    Reaches (RunnerStep (policyCallback policy))
      ⟨⟨.active record [] (.running (policyCallback policy visits record)) origin, visits, false,
        ready⟩, delivery tasks (source.map some ++ tail)⟩
      ⟨⟨.active record ((policy visits.length).take record.size source).1 (.running (.ret true))
        origin, visits, false, ready⟩,
        delivery tasks (((policy visits.length).take record.size source).2.map some ++ tail)⟩ := by
  have hhead : record.read.head = false := by rw [hread]
  have hkind : record.read.kind.size? = some record.size := by rw [hread, version.size?_kind]
  unfold policyCallback
  cases hpolicy : policy visits.length with
  | skip => exact .refl
  | refuseAt n =>
    have hrefuses : Refuses (fun got => decide (got.length ≤ n)) (some n) [] := fun _ => rfl
    exact .head (Move.read hhead).step
      (read_runs hkind hsize source (by omega) hpos havailable hrefuses)
  | full =>
    have hrefuses : Refuses (fun _ => true) none [] := fun _ => rfl
    exact .head (Move.read hhead).step
      (read_runs hkind hsize source (by omega) hpos havailable hrefuses)

/-- The thread serves the next record. -/
theorem AtHead.serves {version : BatchVersion} (policy : Nat → ReadPolicy)
    {record : ReadableRecord} {rest : List ReadableRecord} {c : RunnerConfig}
    {source : List Bytes} {tail : List Item} (h : AtHead (record :: rest) c)
    (hgoes : c.state.stopped = false) (hdata : c.queues .data = source.map some ++ tail)
    (hread : record.read = ⟨version.kind record.size, false⟩) (hsize : record.size < 2 ^ 64)
    (hpos : 0 < record.size) (havailable : record.size ≤ source.flatten.length) :
    ∃ d, Reaches (RunnerStep (policyCallback policy)) c d ∧ AtHead rest d ∧
      d.state.visits = c.state.visits ++
        [⟨record, ((policy c.state.visits.length).take record.size source).1, true⟩] ∧
      d.state.stopped = record.last ∧
      d.queues .data =
        ((policy c.state.visits.length).take record.size source).2.map some ++ tail := by
  obtain ⟨origin, tasks, ready, rfl, hcall⟩ := h.call (policyCallback policy) hgoes
  rw [hdata] at hcall
  obtain ⟨d, hret, hhead, hvisits, hstopped, hleft⟩ := returns_atHead (policyCallback policy) record
    ((policy c.state.visits.length).take record.size source).1 true origin c.state.visits ready tasks
    (((policy c.state.visits.length).take record.size source).2.map some ++ tail)
  exact ⟨d, (hcall.trans (policy_runs hread hsize hpos havailable)).tail hret, hhead, hvisits,
    hstopped, hleft⟩

/-- The pieces the records receive, from the record with number `k` on. -/
def serve (policy : Nat → ReadPolicy) : Nat → List Nat → List Bytes → List (List Bytes)
  | _, [], _ => []
  | k, size :: sizes, source =>
    ((policy k).take size source).1 :: serve policy (k + 1) sizes ((policy k).take size source).2

/-- The chunks that are left after the records. -/
def unread (policy : Nat → ReadPolicy) : Nat → List Nat → List Bytes → List Bytes
  | _, [], source => source
  | k, size :: sizes, source => unread policy (k + 1) sizes ((policy k).take size source).2

theorem length_serve (policy : Nat → ReadPolicy) (k : Nat) (sizes : List Nat)
    (source : List Bytes) : (serve policy k sizes source).length = sizes.length := by
  induction sizes generalizing k source with
  | nil => rfl
  | cons size sizes ih => simp [serve, ih]

theorem serve_full (k : Nat) (sizes : List Nat) (source : List Bytes) :
    serve (fun _ => .full) k sizes source = Chunks.cut sizes source := by
  induction sizes generalizing k source with
  | nil => rfl
  | cons size sizes ih => simp [serve, Chunks.cut, ih, ReadPolicy.take]

/-- The bytes a record has received. -/
def Visit.bytes (v : Visit) : Bytes := v.chunks.flatten

/-- A record with what it has received. -/
def visitOf (record : ReadableRecord) (pieces : List Bytes) : Visit := ⟨record, pieces, true⟩

theorem take_flatten (policy : ReadPolicy) (size : Nat) (source : List Bytes) :
    (policy.take size source).1.flatten ++ (policy.take size source).2.flatten = source.flatten := by
  cases policy with
  | skip => rfl
  | refuseAt n => exact Chunks.read_flatten ..
  | full => exact Chunks.read_flatten ..

theorem length_take_le (policy : ReadPolicy) (size : Nat) (source : List Bytes) :
    (policy.take size source).1.flatten.length ≤ size := by
  cases policy with
  | skip => simp [ReadPolicy.take]
  | refuseAt n => exact Chunks.length_read_le ..
  | full => exact Chunks.length_read_le ..

theorem bytes_zipWith {records : List ReadableRecord} {pieces : List (List Bytes)}
    (h : pieces.length = records.length) :
    (List.zipWith visitOf records pieces).map Visit.bytes = pieces.map List.flatten := by
  rw [List.map_zipWith]
  induction records generalizing pieces with
  | nil => obtain rfl := List.length_eq_zero_iff.1 h; rfl
  | cons record records ih =>
    cases pieces with
    | nil => cases h
    | cons piece pieces => simpa [Visit.bytes, visitOf] using ih (by simpa using h)

/-- The thread serves one record after the other. -/
theorem AtHead.serves_all {version : BatchVersion} (policy : Nat → ReadPolicy)
    {records rest : List ReadableRecord} {c : RunnerConfig} {source : List Bytes}
    {tail : List Item} (h : AtHead (records ++ rest) c) (hgoes : c.state.stopped = false)
    (hdata : c.queues .data = source.map some ++ tail)
    (hread : ∀ r ∈ records, r.read = ⟨version.kind r.size, false⟩)
    (hsize : ∀ r ∈ records, r.size < 2 ^ 64) (hpos : ∀ r ∈ records, 0 < r.size)
    (hlast : ∀ r ∈ (records ++ rest).dropLast, r.last = false)
    (havailable : (records.map ReadableRecord.size).sum ≤ source.flatten.length) :
    ∃ d, Reaches (RunnerStep (policyCallback policy)) c d ∧ AtHead rest d ∧
      d.state.visits = c.state.visits ++ List.zipWith visitOf records
        (serve policy c.state.visits.length (records.map ReadableRecord.size) source) ∧
      (rest ≠ [] → d.state.stopped = false) ∧
      d.queues .data = (unread policy c.state.visits.length (records.map ReadableRecord.size)
        source).map some ++ tail := by
  induction records generalizing c source with
  | nil => exact ⟨c, .refl, h, by simp [serve], fun _ => hgoes, by simpa [unread] using hdata⟩
  | cons record records ih =>
    simp only [List.map_cons, List.sum_cons] at havailable
    have hmem := List.mem_cons_self (a := record) (l := records)
    obtain ⟨d, hrun, hhead, hvisits, hstopped, hleft⟩ := h.serves policy hgoes hdata
      (hread record hmem) (hsize record hmem) (hpos record hmem) (by omega)
    by_cases hend : records ++ rest = []
    · -- it was the last record
      obtain ⟨rfl, rfl⟩ := List.append_eq_nil_iff.1 hend
      exact ⟨d, hrun, hhead, by simpa [serve, visitOf] using hvisits, fun h => absurd rfl h,
        by simpa [unread] using hleft⟩
    · have hdrop : (record :: records ++ rest).dropLast = record :: (records ++ rest).dropLast :=
        List.dropLast_cons_of_ne_nil hend
      rw [hdrop] at hlast
      have hgoes' : d.state.stopped = false := hstopped.trans (hlast record List.mem_cons_self)
      have hlength := congrArg List.length (take_flatten (policy c.state.visits.length) record.size
        source)
      have htake := length_take_le (policy c.state.visits.length) record.size source
      rw [List.length_append] at hlength
      obtain ⟨d', hrun', hhead', hvisits', hstopped', hleft'⟩ := ih hhead hgoes' hleft
        (fun r hr => hread r (List.mem_cons_of_mem _ hr))
        (fun r hr => hsize r (List.mem_cons_of_mem _ hr))
        (fun r hr => hpos r (List.mem_cons_of_mem _ hr))
        (fun r hr => hlast r (List.mem_cons_of_mem _ hr)) (by omega)
      have hcount : d.state.visits.length = c.state.visits.length + 1 := by simp [hvisits]
      rw [hcount] at hvisits' hleft'
      exact ⟨d', hrun.trans hrun', hhead', by simp [hvisits', hvisits, serve, visitOf], hstopped',
        by simpa [unread] using hleft'⟩

/-! ## What has been handed over stays -/

/-- A later state has the same calls with the same chunks, as far as they had
come. -/
def Extends (c d : RunnerConfig) : Prop :=
  c.state.visits <+: d.state.visits ∧
    ∀ chunks, c.state.phase.chunks? = some chunks →
      d.state.phase = .crashed ∨
      (∃ v, d.state.visits[c.state.visits.length]? = some v ∧ chunks <+: v.chunks) ∨
      ∃ chunks', d.state.visits = c.state.visits ∧ d.state.phase.chunks? = some chunks' ∧
        chunks <+: chunks'

theorem extends_step {callback : RecordCallback} {c : RunnerConfig} (d e : RunnerConfig)
    (h : Extends c d) (hstep : RunnerStep callback d e) : Extends c e := by
  obtain ⟨hvisits, hchunks⟩ := h
  cases hstep.move with
  | dequeue | skip | loopEnd | loopStop | call | loopCall =>
    refine ⟨hvisits, fun chunks hc => ?_⟩
    rcases hchunks chunks hc with hcrash | hdone | ⟨_, _, hnone, _⟩
    · cases hcrash
    · exact .inr (.inl hdone)
    · cases hnone
  | ret | retInline =>
    refine ⟨hvisits.trans (List.prefix_append _ _), fun chunks hc => .inr (.inl ?_)⟩
    rcases hchunks chunks hc with hcrash | ⟨v, hv, hstarts⟩ | ⟨chunks', hsame, hsome, hstarts⟩
    · cases hcrash
    · exact ⟨v, by rw [List.getElem?_append_left (List.getElem?_eq_some_iff.1 hv).1, hv], hstarts⟩
    · cases hsome
      simp only at hsame
      exact ⟨_, by rw [← hsame]; exact List.getElem?_concat_length, hstarts⟩
  | readHead | read | endOfData | pause =>
    exact ⟨hvisits, fun chunks hc => (hchunks chunks hc).imp_left fun hcrash => by cases hcrash⟩
  | enough | more =>
    refine ⟨hvisits, fun chunks hc => ?_⟩
    rcases hchunks chunks hc with hcrash | hdone | ⟨chunks', hsame, hsome, hstarts⟩
    · cases hcrash
    · exact .inr (.inl hdone)
    · cases hsome
      exact .inr (.inr ⟨_, hsame, rfl, hstarts.trans (List.prefix_append _ _)⟩)
  | fault => exact ⟨hvisits, fun _ _ => .inl rfl⟩

theorem extends_of_reaches {callback : RecordCallback} {c d : RunnerConfig}
    (h : Reaches (RunnerStep callback) c d) : Extends c d :=
  invariant (Extends c) extends_step h
    ⟨List.prefix_refl _, fun chunks hc => .inr (.inr ⟨chunks, rfl, hc, List.prefix_refl _⟩)⟩

/-! ## The callback under a policy -/

/-- Where a callback with a policy can be: it has one `Read` call at most, of its
own record, and goes on in the end. -/
def PolicyPhase : Phase → Prop
  | .active _ _ (.running (.ret more)) _ => more = true
  | .active record chunks (.running (.read read _ k)) _ =>
    read = record.read ∧ chunks = [] ∧ ∀ got, k got = .ret true
  | .active record chunks (.reading kind _ k total got) _ =>
    kind = record.read.kind ∧ chunks = got ∧ total = got.flatten.length ∧ ∀ got, k got = .ret true
  | _ => True

theorem policyPhase_call (policy : Nat → ReadPolicy) (visits : List Visit) (record : ReadableRecord)
    (origin : Origin) :
    PolicyPhase (.active record [] (.running (policyCallback policy visits record)) origin) := by
  unfold policyCallback
  cases policy visits.length with
  | skip => rfl
  | refuseAt n => exact ⟨rfl, rfl, fun _ => rfl⟩
  | full => exact ⟨rfl, rfl, fun _ => rfl⟩

theorem policyPhase_step {policy : Nat → ReadPolicy} (c d : RunnerConfig)
    (h : PolicyPhase c.state.phase) (hstep : RunnerStep (policyCallback policy) c d) :
    PolicyPhase d.state.phase := by
  cases hstep.move with
  | dequeue | skip | ret | retInline | fault | loopEnd | loopStop => trivial
  | call | loopCall => exact policyPhase_call ..
  | readHead => obtain ⟨-, -, hk⟩ := h; simp only [hk]; rfl
  | read => obtain ⟨rfl, rfl, hk⟩ := h; exact ⟨rfl, rfl, rfl, hk⟩
  | endOfData => obtain ⟨-, -, -, hk⟩ := h; simp only [hk]; rfl
  | pause => exact h
  | enough => obtain ⟨-, -, -, hk⟩ := h; simp only [hk]; rfl
  | more =>
    obtain ⟨rfl, rfl, rfl, hk⟩ := h
    exact ⟨rfl, rfl, by simp, hk⟩

namespace BatchResponse

/-- The queue of chunks when the whole body has arrived. -/
def data (b : BatchResponse) : List Item := bodyItems true b.chunks

/-- The `ReadRecord` call that queues the records of the response. -/
def call (b : BatchResponse) (callback : RecordCallback) : ReadCall :=
  ⟨b.version.type, false, false, callback⟩

/-- A state of the callback thread in some interleaving of the call with the
transfer, or in `RunCallbacksInline`. -/
def ThreadReaches [StdSort] (b : BatchResponse) (callback : RecordCallback) (r : Runner) : Prop :=
  (∃ s, Reaches (ReadState.Step (b.call callback)) (ReadState.decoded b.records b.chunks .kOk) s ∧
    s.runner = r) ∨
  ∃ q, Reaches (RunnerStep callback) (inlineStart b.records b.data) ⟨r, q⟩

/-- The callback thread alone, with everything queued. -/
def Start (b : BatchResponse) (c : RunnerConfig) : Prop :=
  c = queuedStart b.records b.data ∨ c = inlineStart b.records b.data

theorem ThreadReaches.start [StdSort] {b : BatchResponse} {callback : RecordCallback} {r : Runner}
    (h : b.ThreadReaches callback r) :
    ∃ c q, b.Start c ∧ Reaches (RunnerStep callback) c ⟨r, q⟩ := by
  rcases h with ⟨s, hrun, rfl⟩ | ⟨q, hrun⟩
  · exact ⟨_, _, .inl rfl, (@ReadState.queued _ (b.call callback) _ _ _ _ rfl hrun).run⟩
  · exact ⟨_, q, .inr rfl, hrun⟩

variable {b : BatchResponse} {policy : Nat → ReadPolicy} {c : RunnerConfig}

theorem Start.inOrder (h : b.Start c) : InOrder b.records c := by
  rcases h with rfl | rfl
  · exact inOrder_queuedStart ..
  · exact inOrder_inlineStart ..

theorem Start.policyPhase (h : b.Start c) : PolicyPhase c.state.phase := by
  rcases h with rfl | rfl <;> trivial

theorem Start.atHead (h : b.Start c) : AtHead b.records c ∧ c.state.stopped = false ∧
    c.state.visits = [] ∧ c.queues .data = b.chunks.map some ++ [none] := by
  rcases h with rfl | rfl
  · exact ⟨atHead_queuedStart .., rfl, rfl, rfl⟩
  · exact ⟨atHead_inlineStart .., rfl, rfl, rfl⟩

/-- With sizes that are all positive, the thread comes to its end. -/
theorem Start.ends (h : b.Start c) (policy : Nat → ReadPolicy)
    (hpos : ∀ r ∈ b.records, 0 < r.size) :
    ∃ d, Reaches (RunnerStep (policyCallback policy)) c d ∧ AtEnd d ∧
      d.state.visits = List.zipWith visitOf b.records (serve policy 0 b.sizes b.chunks) ∧
      d.queues .data = (unread policy 0 b.sizes b.chunks).map some ++ [none] := by
  obtain ⟨hhead, hgoes, hvisits, hdata⟩ := h.atHead
  rw [← List.append_nil b.records] at hhead
  obtain ⟨d, hrun, hhead', hvisits', -, hleft⟩ := hhead.serves_all policy hgoes hdata b.read_eq
    b.size_lt hpos (by simpa using b.last_eq) b.length_eq.ge
  obtain ⟨e, hend, hatEnd, hsame, -, hdata'⟩ := hhead'.ends (policyCallback policy)
  refine ⟨e, hrun.trans hend, hatEnd, ?_, ?_⟩
  · simp [hsame, hvisits', hvisits, sizes]
  · simp [hdata', hleft, hvisits, sizes]

/-- Records that are read through have received their segments. -/
theorem full_bytes (b : BatchResponse) :
    (List.zipWith visitOf b.records (serve (fun _ => .full) 0 b.sizes b.chunks)).map Visit.bytes =
      b.segments := by
  have havailable : b.sizes.sum ≤ b.chunks.flatten.length := b.length_eq.ge
  rw [bytes_zipWith (by simp [length_serve, sizes]), serve_full, segments,
    Chunks.cut_flatten havailable]

/-- The end is reached from every state on the way. -/
theorem Start.reaches_end {d : RunnerConfig} (h : b.Start c)
    (hpos : ∀ r ∈ b.records, 0 < r.size) (hrun : Reaches (RunnerStep (policyCallback policy)) c d) :
    ∃ e, Reaches (RunnerStep (policyCallback policy)) d e ∧ AtEnd e ∧
      e.state.visits = List.zipWith visitOf b.records (serve policy 0 b.sizes b.chunks) := by
  obtain ⟨e, hend, hatEnd, hvisits, -⟩ := h.ends policy hpos
  exact ⟨e, reaches_stuck (Channel.step_deterministic _) hrun hend hatEnd.stuck, hatEnd, hvisits⟩

/-- The calls that have returned, in every state. -/
theorem prefix_of_visits [StdSort] {r : Runner} (hpos : ∀ r ∈ b.records, 0 < r.size)
    (h : b.ThreadReaches (policyCallback policy) r) :
    r.visits <+: List.zipWith visitOf b.records (serve policy 0 b.sizes b.chunks) := by
  obtain ⟨c, q, hstart, hrun⟩ := h.start
  obtain ⟨e, hend, -, hvisits⟩ := hstart.reaches_end hpos hrun
  exact hvisits ▸ (extends_of_reaches hend).1

end BatchResponse

end Reduct
