-- SUMMARY: The multi-entry batch calls over protocol v1: which batches the fallback refuses, and where it sends the others, against protocol v2.
import ReductClient.Bucket.Handle
import ReductClient.Internal.Addressing

open Cxx

namespace Reduct

/-! ## Calls that send at most one request -/

section OfCall

variable {α : Type} {call : HttpServer → Outcome α}

/-- What is computed sends nothing. -/
theorem Http.run_ofExcept (x : Except Uncaught α) (replies : Nat → HttpReply) (s : HttpSession) :
    Http.run replies (.ofExcept x) s = (s, x) := by
  cases x <;> rfl

/-- A call of the batch code that sends nothing leaves the client as it is. -/
theorem Http.run_ofCall_nil {result : Result α} (h : ∀ server, call server = ⟨[], .ok result⟩)
    (replies : Nat → HttpReply) (s : HttpSession) :
    (Http.ofCall call).run replies s = (s, .ok result) := by
  simp only [Http.ofCall, h]
  rfl

/-- A call that sends a request sends it once. -/
theorem Http.log_ofCall {request : HttpRequest} (h : ∀ server, (call server).sent = [request])
    (replies : Nat → HttpReply) (s : HttpSession) :
    ((Http.ofCall call).run replies s).1.log =
      s.log ++ [(.transfer request, replies s.log.length)] := by
  simp only [Http.ofCall, h]
  rw [Http.run, Dialogue.send, Dialogue.ask_bind]
  cases hreceive : receive s.state (replies s.log.length) with
  | error e => rw [Dialogue.run_ask_error hreceive, Session.exchange_log]
  | ok r =>
    have hnext := Http.run_ofExcept (uncaught (call fun _ =>
      ⟨([], r.1.result.headers), r.1.error⟩).result) replies
      (s.exchange (.transfer request) (replies s.log.length) r.2)
    rw [Dialogue.run_ask_ok hreceive, Dialogue.done_bind]
    exact (congrArg (fun x => x.1.log) hnext).trans (Session.exchange_log ..)

/-- What is made of a result does not send anything. -/
theorem Http.log_bind_pure {β : Type} {p : Http α} {f : α → Http β}
    (h : ∀ a, ∃ b, f a = pure b) (replies : Nat → HttpReply) (s : HttpSession) :
    ((p >>= f).run replies s).1.log = (p.run replies s).1.log := by
  rw [Http.run, Dialogue.run_bind, Http.run]
  cases Dialogue.run receive replies p s with
  | mk s' result =>
    cases result with
    | error e => rfl
    | ok a =>
      obtain ⟨b, hb⟩ := h a
      simp only [hb]
      rfl

end OfCall

/-! ## The entries of a batch -/

/-- The records that name an entry name the same one. -/
def OneEntry (batch : Batch) : Prop :=
  ∀ r ∈ batch.records, ∀ r' ∈ batch.records, r.entry ≠ [] → r'.entry ≠ [] → r.entry = r'.entry

/-- The first named entry is that of each record that names one. -/
theorem OneEntry.firstEntry_eq {batch : Batch} (h : OneEntry batch) {r : Record}
    (hr : r ∈ batch.records) (hne : r.entry ≠ []) : Bucket.firstEntry batch = r.entry := by
  have hmem : r.entry ∈ batch.records.map Record.entry := List.mem_map_of_mem hr
  cases hfind : (batch.records.map Record.entry).find? (· ≠ []) with
  | none => exact absurd (List.find?_eq_none.1 hfind _ hmem) (by simpa using hne)
  | some entry =>
    obtain ⟨r', hr', rfl⟩ := List.mem_map.1 (List.mem_of_find?_eq_some hfind)
    have hne' : r'.entry ≠ [] := by simpa using List.find?_some hfind
    rw [Bucket.firstEntry, hfind]
    exact h r' hr' r hr hne' hne

theorem firstEntry_eq_nil {batch : Batch} (h : ∀ r ∈ batch.records, r.entry = []) :
    Bucket.firstEntry batch = [] := by
  have hfind : (batch.records.map Record.entry).find? (· ≠ []) = none := by
    rw [List.find?_eq_none]
    intro entry hentry
    obtain ⟨r, hr, rfl⟩ := List.mem_map.1 hentry
    simpa using h r hr
  rw [Bucket.firstEntry, hfind, Option.getD_none]

/-- With the first named entry for those that name none, the records are of one
entry. -/
theorem OneEntry.recordEntry_firstEntry {batch : Batch} (h : OneEntry batch) {r : Record}
    (hr : r ∈ batch.records) : recordEntry r (Bucket.firstEntry batch) = Bucket.firstEntry batch := by
  unfold recordEntry
  split
  · rfl
  · rename_i hne
    exact (h.firstEntry_eq hr hne).symm

theorem OneEntry.not_several {batch : Batch} (h : OneEntry batch) :
    ¬ SeveralEntries batch (Bucket.firstEntry batch) := by
  rintro ⟨r, hr, r', hr', hne⟩
  exact hne ((h.recordEntry_firstEntry hr).trans (h.recordEntry_firstEntry hr').symm)

/-! ## What the call does -/

variable [StdSort]

/-- What the client knows of the version lets it speak protocol v2, or not. -/
def Speaks (supports : Bool) (s : HttpSession) : Prop :=
  ∀ replies, Bucket.supportsBatchProtocolV2.run replies s = (s, .ok supports)

/-- The call with several entries sends nothing and returns the error 400. -/
def RefusesBatch (b : Bucket) (batch : Batch) (type : BatchType) (s : HttpSession) : Prop :=
  ∀ replies, (b.processBatchV2 batch type).run replies s = (s, .ok ⟨∅, entryRequired⟩)

/-- The call sends the request and no other. -/
def SendsRequest (b : Bucket) (batch : Batch) (type : BatchType) (s : HttpSession)
    (request : HttpRequest) : Prop :=
  ∀ replies, ((b.processBatchV2 batch type).run replies s).1.log =
    s.log ++ [(.transfer request, replies s.log.length)]

/-- The protocols agree on a batch: it is refused over each of them if some record
names no entry, and otherwise the requests address the same entries and times. -/
structure FallbackAgrees (b : Bucket) (batch : Batch) (type : BatchType) : Prop where
  refuses : ∀ supports s, Speaks supports s →
    (RefusesBatch b batch type s ↔ ∃ r ∈ batch.records, r.entry = [])
  sends : (∀ r ∈ batch.records, r.entry ≠ []) → ∃ requestV1 requestV2,
    (∀ s, Speaks false s → SendsRequest b batch type s requestV1) ∧
    (∀ s, Speaks true s → SendsRequest b batch type s requestV2) ∧
    ∀ encodedEntry micros,
      AddressesV1 b.path requestV1 encodedEntry micros ↔ AddressesV2 requestV2 encodedEntry micros

section Call

variable {b : Bucket} {batch : Batch} {type : BatchType} {s : HttpSession}

theorem SendsRequest.not_refuses {request : HttpRequest} (h : SendsRequest b batch type s request) :
    ¬ RefusesBatch b batch type s := by
  intro hrefuses
  have hlog := h fun _ => .failed []
  rw [hrefuses] at hlog
  simpa using congrArg List.length hlog

theorem run_processBatchV2 {supports : Bool} (hne : batch.records ≠ []) (h : Speaks supports s)
    (replies : Nat → HttpReply) :
    (b.processBatchV2 batch type).run replies s =
      (if supports then Http.ofCall fun server => processBatchV2Records server b.ioPath batch type
        else b.processBatchFallback batch type).run replies s := by
  rw [Bucket.processBatchV2, if_neg hne, Http.run, Dialogue.run_bind_ok (h replies)]
  rfl

/-- Over v2 a batch with an unnamed record is refused. -/
theorem refusesV2 (h : Speaks true s) {r : Record} (hr : r ∈ batch.records) (hentry : r.entry = []) :
    RefusesBatch b batch type s := by
  intro replies
  have hmissing : ∃ r ∈ batch.records, recordEntry r [] = [] := ⟨r, hr, by rwa [recordEntry_nil]⟩
  rw [run_processBatchV2 (List.ne_nil_of_mem hr) h, if_pos rfl]
  refine Http.run_ofCall_nil (fun server => ?_) replies s
  rcases buildBatchV2Request_cases [] batch type true with
    ⟨hnil, -, -⟩ | ⟨-, -, herror⟩ | ⟨-, -, hnamed, -⟩
  · exact absurd hnil (List.ne_nil_of_mem hr)
  · rw [processBatchV2Records, herror]
    rfl
  · exact absurd ⟨rfl, hmissing⟩ hnamed

/-- Over v2 a batch whose records all name an entry is sent. -/
theorem sendsV2 (hne : batch.records ≠ []) (hnamed : ∀ r ∈ batch.records, r.entry ≠ []) :
    ∃ request, (∀ s, Speaks true s → SendsRequest b batch type s request) ∧
      ∀ encodedEntry micros,
        AddressesV2 request encodedEntry micros ↔ Names [] batch encodedEntry micros := by
  rcases buildBatchV2Request_cases [] batch type true with
    ⟨hnil, -, -⟩ | ⟨-, ⟨-, r, hr, hentry⟩, -⟩ | ⟨-, hordered, -, st, -, hbuilt⟩
  · exact absurd hnil hne
  · rw [recordEntry_nil] at hentry
    exact absurd hentry (hnamed r hr)
  · refine ⟨requestV2 b.ioPath type batch _, fun s hs replies => ?_, fun encodedEntry micros =>
      addressesV2_iff hbuilt hordered⟩
    rw [run_processBatchV2 hne hs, if_pos rfl]
    refine Http.log_ofCall (fun server => ?_) replies s
    rw [processBatchV2Records, hbuilt, processRequestV2, if_neg hordered]

/-- The fallback refuses a batch in which no record names an entry. -/
theorem refusesV1 (h : Speaks false s) (hne : batch.records ≠ [])
    (hunnamed : ∀ r ∈ batch.records, r.entry = []) : RefusesBatch b batch type s := by
  intro replies
  rw [run_processBatchV2 hne h, if_neg (by decide), Bucket.processBatchFallback,
    firstEntry_eq_nil hunnamed, if_pos rfl]
  rfl

/-- It sends the others to the first named entry. -/
theorem sendsV1 (hone : OneEntry batch) {r : Record} (hr : r ∈ batch.records)
    (hnamed : r.entry ≠ []) (h : Speaks false s) :
    SendsRequest b batch type s (requestV1 b.path r.entry batch type) := by
  intro replies
  have hsent : ∀ server, (processBatchV1 server b.path r.entry batch type).sent =
      [requestV1 b.path r.entry batch type] := by
    intro server
    refine sent_processBatchV1 server b.path type ?_
    rw [← hone.firstEntry_eq hr hnamed]
    exact hone.not_several
  rw [run_processBatchV2 (List.ne_nil_of_mem hr) h, if_neg (by decide),
    Bucket.processBatchFallback, hone.firstEntry_eq hr hnamed, if_neg hnamed, Http.log_bind_pure]
  · exact Http.log_ofCall hsent replies s
  · intro errors
    split <;> exact ⟨_, rfl⟩

/-- If the protocols agree, a batch with one entry is named throughout or not at all. -/
theorem FallbackAgrees.uniform (h : FallbackAgrees b batch type) (hone : OneEntry batch) :
    (∀ r ∈ batch.records, r.entry = []) ∨ ∀ r ∈ batch.records, r.entry ≠ [] := by
  by_contra hmixed
  rw [not_or] at hmixed
  push Not at hmixed
  obtain ⟨⟨r, hr, hnamed⟩, hunnamed⟩ := hmixed
  -- a client that knows no version uses the fallback, which sends this batch
  have hspeaks : Speaks false ⟨none, []⟩ := fun _ => rfl
  exact (sendsV1 hone hr hnamed hspeaks).not_refuses ((h.refuses _ _ hspeaks).2 hunnamed)

/-- On a batch whose named records name the same entry, the protocols agree if and
only if all its records name it or none does. -/
theorem fallbackAgrees_iff (b : Bucket) (batch : Batch) (type : BatchType)
    (hne : batch.records ≠ []) (hone : OneEntry batch) :
    FallbackAgrees b batch type ↔
      (∀ r ∈ batch.records, r.entry = []) ∨ ∀ r ∈ batch.records, r.entry ≠ [] := by
  constructor
  · intro h
    exact h.uniform hone
  · obtain ⟨r, hr⟩ := List.exists_mem_of_ne_nil _ hne
    rintro (hunnamed | hnamed)
    · constructor
      · intro supports s hs
        refine iff_of_true ?_ ⟨r, hr, hunnamed r hr⟩
        cases supports with
        | true => exact refusesV2 hs hr (hunnamed r hr)
        | false => exact refusesV1 hs hne hunnamed
      · intro hnamed
        exact absurd (hunnamed r hr) (hnamed r hr)
    · obtain ⟨request, hsends, haddresses⟩ := @sendsV2 _ b batch type hne hnamed
      constructor
      · intro supports s hs
        refine iff_of_false ?_ fun ⟨r, hr, hentry⟩ => hnamed r hr hentry
        cases supports with
        | true => exact (hsends s hs).not_refuses
        | false => exact (sendsV1 hone hr (hnamed r hr) hs).not_refuses
      · intro _
        refine ⟨_, request, fun s hs => sendsV1 hone hr (hnamed r hr) hs, hsends, ?_⟩
        intro encodedEntry micros
        rw [haddresses, addressesV1_iff, Names]
        have hentry : ∀ r' ∈ batch.records, recordEntry r' [] = r.entry := by
          intro r' hr'
          rw [recordEntry_nil]
          exact hone r' hr' r hr (hnamed r' hr') (hnamed r hr)
        constructor
        · rintro ⟨rfl, r', hr', rfl⟩
          exact ⟨r', hr', by rw [hentry r' hr'], rfl⟩
        · rintro ⟨r', hr', rfl, rfl⟩
          exact ⟨by rw [hentry r' hr'], r', hr', rfl⟩

end Call

omit [StdSort] in
theorem fallbackAgrees_named :
    @FallbackAgrees .insertion (.build (bytes "bucket")) otherEntry .kUpdate :=
  (@fallbackAgrees_iff .insertion (.build (bytes "bucket")) otherEntry .kUpdate (by decide)
    (by unfold OneEntry; decide)).2 (.inr (by decide))

/-- A record of the entry `a` and one that names no entry. -/
def partlyNamed : Batch where
  records := [⟨bytes "a", .wrap 1000, 0, [], ∅, none⟩, ⟨[], .wrap 2000, 0, [], ∅, none⟩]
  body := []
  size := 0
  records_lt := by decide
  dataIndex_eq := rfl
  record_size := by simp
  size_eq := Batch.size_nil

omit [StdSort] in
/-- The fallback sends the unnamed record to the entry of the other one. -/
theorem fallbackAgrees_broken : OneEntry partlyNamed ∧
    ¬ @FallbackAgrees .insertion (.build (bytes "bucket")) partlyNamed .kUpdate := by
  have hone : OneEntry partlyNamed := by unfold OneEntry; decide
  refine ⟨hone, fun h => ?_⟩
  rcases @FallbackAgrees.uniform .insertion _ _ _ h hone with hunnamed | hnamed
  · exact absurd hunnamed (by decide)
  · exact absurd hnamed (by decide)

end Reduct
