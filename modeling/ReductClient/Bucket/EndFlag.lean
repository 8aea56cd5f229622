-- SUMMARY: When a query stops at the server's end flag: the flag travels on a record, so a response without records loses it.
import ReductClient.Bucket.DecodedResponse
import ReductClient.Bucket.Query

open Cxx Transition

namespace Reduct

variable [StdSort]

/-- The loop of `QueryV1` or `QueryV2`. -/
def batchQuery (version : BatchVersion) (headOnly continuous onWorker : Bool)
    (callback : RecordCallback) : Query :=
  ⟨version.type, headOnly, continuous, onWorker, callback⟩

namespace Query

/-- Response number `n`, counted from 0, is a 200 response with the given headers,
and `x-reduct-last: true` is one of them. -/
def Flagged (q : Query) (answers : q.Answers) (n : Nat) (headers : Headers) : Prop :=
  announcesEnd headers = true ∧
    ∃ chunks records decodes, answers n = some (.batch headers chunks records decodes)

/-- Once a flagged response has been processed and the callback has refused no
record, the query has returned with no error and has read no other response. -/
def StopsAtFlag (q : Query) (answers : q.Answers) : Prop :=
  ∀ n headers, q.Flagged answers n headers → ∀ s, q.Reachable answers s → n < s.round →
    (∀ v ∈ s.visits, v.more = true) → s.phase = .returned .kOk ∧ s.round = n + 1

/-- The query gets to response number `n`. -/
def Reads (q : Query) (answers : q.Answers) (n : Nat) : Prop :=
  ∃ past r, q.Reachable answers ⟨n, past, .reading r⟩

section Flag

variable {q : Query} {answers : q.Answers} {version : BatchVersion} {n : Nat} {headers : Headers}

/-- A flagged record cannot be among records that let the query go on. -/
theorem not_goesOn_of_flagged (htype : q.type = version.type) (hflag : q.Flagged answers n headers)
    (hrecord : HasRecord version headers) {visits : List Visit} {m : Nat} (hm : n < m)
    (hgoes : ∀ v ∈ visits, v.GoesOn) (hvisits : visits.map Visit.record = q.answered answers m) :
    False := by
  obtain ⟨hend, chunks, records, decodes, ha⟩ := hflag
  rw [htype] at decodes
  obtain ⟨record, hmem, hlast⟩ := exists_last decodes hend hrecord
  have hanswered : record ∈ q.answered answers m := by
    refine List.mem_flatMap.2 ⟨n, List.mem_range.2 hm, ?_⟩
    rw [ha]
    exact hmem
  rw [← hvisits] at hanswered
  obtain ⟨v, hv, rfl⟩ := List.mem_map.1 hanswered
  rw [(hgoes v hv).2] at hlast
  cases hlast

/-- The query returns when it goes past a flagged response with a record. -/
theorem returned_after_flagged (htype : q.type = version.type)
    (hflag : q.Flagged answers n headers) (hrecord : HasRecord version headers) {s : QueryState}
    (hinv : q.Inv answers s) (hround : n < s.round) : s.phase = .returned .kOk := by
  obtain ⟨round, past, phase⟩ := s
  cases phase with
  | asking | sleeping => exact (not_goesOn_of_flagged htype hflag hrecord hround hinv.1 hinv.2).elim
  | reading r =>
    exact (not_goesOn_of_flagged htype hflag hrecord hround hinv.1.1 hinv.1.2).elim
  | returned err =>
    obtain ⟨-, ⟨rfl, -⟩ | ⟨hgoes, hinvoked, -⟩, -⟩ := hinv
    · rfl
    · refine (not_goesOn_of_flagged htype hflag hrecord hround hgoes ?_).elim
      simpa [QueryState.invoked, QueryState.record?] using hinvoked

/-- A query that gets past flagged responses only if they have a record stops at
the first of them. -/
theorem stopsAtFlag_of_hasRecord (htype : q.type = version.type)
    (hflag : q.Flagged answers n headers)
    (hrecord : q.Reads answers n → HasRecord version headers) {s : QueryState}
    (hs : q.Reachable answers s) : n < s.round → s.phase = .returned .kOk ∧ s.round = n + 1 := by
  have hstep : ∀ s t : QueryState,
      q.Reachable answers s ∧ (n < s.round → s.phase = .returned .kOk ∧ s.round = n + 1) →
      q.Step answers s t →
      q.Reachable answers t ∧ (n < t.round → t.phase = .returned .kOk ∧ t.round = n + 1) := by
    rintro s t ⟨hreach, hs⟩ hstep
    have hreach' := hreach.tail hstep
    refine ⟨hreach', ?_⟩
    intro hround
    cases hstep with
    | ask ha => exact nomatch (hs hround).1
    | read hr => exact nomatch (hs hround).1
    | wake => exact nomatch (hs hround).1
    | @leave round past r stopped err hret =>
      by_cases hbefore : n < round
      · exact nomatch (hs hbefore).1
      · have hhere : n = round := by
          have : n < round + 1 := hround
          omega
        subst hhere
        have hhas := hrecord ⟨past, r, hreach⟩
        exact ⟨returned_after_flagged htype hflag hhas (inv_reachable hreach') hround, rfl⟩
  refine (invariant (fun s => q.Reachable answers s ∧
    (n < s.round → s.phase = .returned .kOk ∧ s.round = n + 1)) hstep hs ⟨.refl, ?_⟩).2
  intro hround
  exact absurd hround (Nat.not_lt_zero n)

/-- A query goes past a response without records and asks again. -/
theorem asks_after_empty {chunks : List Bytes} {past : List Visit} {r : ReadState}
    {decodes : buildRecords q.type q.headOnly headers = .ok []}
    (ha : answers n = some (.batch headers chunks [] decodes))
    (hs : q.Reachable answers ⟨n, past, .reading r⟩) :
    q.Reachable answers ⟨n + 1, past, .asking⟩ := by
  obtain ⟨-, a, ha', hreach⟩ := inv_reachable hs
  cases ha.symm.trans ha'
  have hend : ∃ d, Reaches (RunnerStep (q.readCall past).callback)
      (ReadState.soloStart (q.readCall past) [] chunks) d ∧ AtEnd d ∧ d.state.visits = [] ∧
        d.state.stopped = false := by
    unfold ReadState.soloStart
    split
    · exact ⟨_, .single Move.loopEnd.step, .inr rfl, rfl, rfl⟩
    · exact ⟨_, .refl, .inl ⟨rfl, rfl⟩, rfl, rfl⟩
  obtain ⟨d, hrun, hatEnd, hvisits, hstopped⟩ := hend
  have hleave := @leaves_batch _ q answers n _ _ _ _ _ _ decodes hreach hrun hatEnd
  rw [hvisits, hstopped, List.append_nil] at hleave
  exact hs.trans hleave

theorem StopsAtFlag.hasRecord (h : q.StopsAtFlag answers) (htype : q.type = version.type)
    (hflag : q.Flagged answers n headers) (hreads : q.Reads answers n) :
    HasRecord version headers := by
  obtain ⟨past, r, hs⟩ := hreads
  obtain ⟨hend, chunks, records, decodes, ha⟩ := hflag
  by_contra hnone
  have hnil : records = [] := (buildRecords_eq_nil_iff (htype ▸ decodes)).2 hnone
  subst hnil
  have hasks := asks_after_empty ha hs
  have hgoes : ∀ v ∈ past, v.more = true := fun v hv => ((inv_reachable hs).1.1 v hv).1
  exact nomatch (h n headers ⟨hend, chunks, [], decodes, ha⟩ _ hasks (Nat.lt_succ_self n) hgoes).1

end Flag

/-- A query stops at the end flag of the server if and only if the flagged
responses it gets to have a record. -/
theorem stopsAtFlag_iff (version : BatchVersion) (headOnly continuous onWorker : Bool)
    (callback : RecordCallback)
    (answers : (batchQuery version headOnly continuous onWorker callback).Answers) :
    (batchQuery version headOnly continuous onWorker callback).StopsAtFlag answers ↔
      ∀ n headers, Flagged _ answers n headers → Reads _ answers n → HasRecord version headers := by
  constructor
  · intro h n headers hflag hreads
    exact h.hasRecord rfl hflag hreads
  · intro h n headers hflag s hs hround _
    exact stopsAtFlag_of_hasRecord rfl hflag (h n headers hflag) hs hround

/-- The headers of a v2 response that ends a query without a record. -/
def emptyEnd : Headers where
  toList := [(bytes "x-reduct-entries", []), (bytes "x-reduct-start-ts", bytes "0"),
    (bytes "x-reduct-last", bytes "true")]
  nodup := by decide

omit [StdSort] in
/-- The query asks again after the empty response that ends it. -/
theorem stopsAtFlag_broken : ∃ answers,
    ¬ @StopsAtFlag .insertion (batchQuery .v2 false false false readThrough) answers := by
  have hdecodes : @buildRecords .insertion .batchedV2 false emptyEnd = .ok [] := rfl
  let a := @Answer.batch .insertion .batchedV2 false emptyEnd [] [] hdecodes
  refine ⟨fun _ => some a, ?_⟩
  intro h
  have hreads : @Reads .insertion (batchQuery .v2 false false false readThrough)
      (fun _ => some a) 0 := ⟨[], _, .single (@Step.ask .insertion _ _ _ _ a rfl)⟩
  have hflag : @Flagged .insertion (batchQuery .v2 false false false readThrough)
      (fun _ => some a) 0 emptyEnd := ⟨rfl, [], [], hdecodes, rfl⟩
  obtain ⟨_, _, _, hentries, -, -, p, -, hlt, -⟩ :=
    @StopsAtFlag.hasRecord .insertion _ _ .v2 _ _ h rfl hflag hreads
  cases hentries
  exact absurd hlt (Nat.not_lt_zero _)

end Query

end Reduct
