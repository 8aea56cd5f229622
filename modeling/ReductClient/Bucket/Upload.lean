-- SUMMARY: The upload loop of `HttpClient::Post`: what it asks the write callback for, and what it sends.
import ReductClient.Base.Transition
import ReductClient.Bucket.Handle

open Cxx Transition

namespace Reduct

/-! ## Records to write -/

/-- `Write`. -/
def WritableRecord.write (contentLength : Nat) (cb : WriteCallback) : WritableRecord :=
  ⟨contentLength, cb⟩

/-- `WriteAll`. -/
def WritableRecord.writeAll (data : Bytes) : WritableRecord where
  contentLength := data.length
  callback offset size := do
    let chunk ← substr data offset size
    pure (true, chunk)

/-! ## The loop -/

/-- `kMaxChunkSize`. -/
def kMaxChunkSize : Nat := 512000

/-- The content provider of `Post`: the bytes it hands to the sink. There are none
if it fails. -/
def contentProvider (callback : WriteCallback) (offset size : Nat) :
    Except Fault (Option Bytes) := do
  let size := min size kMaxChunkSize
  let (ok, data) ← callback offset size
  if !ok || data.isEmpty then pure none
  else pure (some (data.take (min data.length size)))

/-- What the HTTP library adds to an upload: which of the chunks the connection
takes, and the texts of its two errors. -/
structure Connection where
  takes : Nat → Bool
  canceled : Bytes
  writeFailed : Bytes

/-- An upload: the record with the connection it goes over. -/
structure Upload where
  record : WritableRecord
  connection : Connection

/-- The arguments of a call of the write callback. -/
structure ChunkCall where
  offset : Nat
  size : Nat

inductive UploadPhase where
  | sending
  | sent
  | failed (message : Bytes)
  /-- An exception has left a `noexcept` function. -/
  | terminated (fault : Fault)

/-- The bytes the connection has taken, and the calls of the write callback. -/
structure UploadState where
  body : Bytes := []
  calls : List ChunkCall := []
  phase : UploadPhase := .sending

namespace Upload

/-- One round of the loop of the library: while the body is not complete, the
content provider is asked for all that is missing. -/
def next (u : Upload) (s : UploadState) : Option UploadState :=
  match s.phase with
  | .sending =>
    if s.body.length < u.record.contentLength then
      let missing := u.record.contentLength - s.body.length
      let calls := s.calls ++ [⟨s.body.length, min missing kMaxChunkSize⟩]
      match contentProvider u.record.callback s.body.length missing with
      | .error fault => some { s with calls := calls, phase := .terminated fault }
      | .ok none => some { s with calls := calls, phase := .failed u.connection.canceled }
      | .ok (some chunk) =>
        if u.connection.takes s.calls.length then
          some { s with body := s.body ++ chunk, calls := calls }
        else some { s with calls := calls, phase := .failed u.connection.writeFailed }
    else some { s with phase := .sent }
  | _ => none

/-- A round of the loop. -/
def Step (u : Upload) (s t : UploadState) : Prop := u.next s = some t

/-- The states the loop gets to. -/
abbrev Reachable (u : Upload) (s : UploadState) : Prop := Reaches u.Step {} s

/-- What `Post` returns once the loop has ended, if the server answers the body as
given: `CheckRequest` looks at the answer, or at the error of the library. -/
def result? (server : Bytes → HttpReply) (version : Option Bytes) (s : UploadState) :
    Option (Except Uncaught (Result HttpAnswer × Option Bytes)) :=
  match s.phase with
  | .sending => none
  | .sent => some (receive version (server s.body))
  | .failed message => some (receive version (.failed message))
  | .terminated fault => some (.error (.fault fault))

/-! ## One round -/

/-- The next call of the write callback. -/
def nextCall (u : Upload) (s : UploadState) : ChunkCall :=
  ⟨s.body.length, min (u.record.contentLength - s.body.length) kMaxChunkSize⟩

/-- What a round does: it ends with a complete body, it ends with an error after a
call of the callback, or the connection takes what the callback has returned, cut to
the size that was asked for. -/
theorem step_cases {u : Upload} {s t : UploadState} (h : u.Step s t) :
    s.phase = .sending ∧
      ((u.record.contentLength ≤ s.body.length ∧ t = { s with phase := .sent }) ∨
        s.body.length < u.record.contentLength ∧
          let call := u.nextCall s
          (∃ fault, u.record.callback call.offset call.size = .error fault ∧
            t = { s with calls := s.calls ++ [call], phase := .terminated fault }) ∨
          (∃ ok data, u.record.callback call.offset call.size = .ok (ok, data) ∧
            (ok = false ∨ data = []) ∧
            t = { s with calls := s.calls ++ [call], phase := .failed u.connection.canceled }) ∨
          (u.connection.takes s.calls.length = false ∧
            t = { s with calls := s.calls ++ [call], phase := .failed u.connection.writeFailed }) ∨
          (∃ data, u.record.callback call.offset call.size = .ok (true, data) ∧ data ≠ [] ∧
            t = { s with body := s.body ++ data.take call.size, calls := s.calls ++ [call] })) := by
  obtain ⟨body, calls, phase⟩ := s
  cases phase with
  | sent => cases h
  | failed message => cases h
  | terminated fault => cases h
  | sending =>
    refine ⟨rfl, ?_⟩
    simp only [Step, next] at h
    by_cases hlt : body.length < u.record.contentLength
    · rw [if_pos hlt] at h
      refine .inr ⟨hlt, ?_⟩
      cases hcall : u.record.callback body.length
          (min (u.record.contentLength - body.length) kMaxChunkSize) with
      | error fault =>
        simp only [contentProvider, hcall] at h
        cases h
        exact .inl ⟨fault, hcall, rfl⟩
      | ok r =>
        obtain ⟨ok, data⟩ := r
        simp only [contentProvider, hcall, Fallible.ok_bind] at h
        by_cases hstop : (!ok || data.isEmpty) = true
        · rw [if_pos hstop] at h
          cases h
          refine .inr (.inl ⟨ok, data, hcall, ?_, rfl⟩)
          simpa using hstop
        · rw [if_neg hstop] at h
          simp only [Bool.or_eq_true, Bool.not_eq_true', List.isEmpty_iff, not_or,
            Bool.not_eq_false] at hstop
          dsimp only [pure, Except.pure] at h
          by_cases htakes : u.connection.takes calls.length = true
          · rw [if_pos htakes] at h
            cases h
            refine .inr (.inr (.inr ⟨data, hstop.1 ▸ hcall, hstop.2, ?_⟩))
            rw [Nat.min_comm data.length, ← List.take_eq_take_min]
            rfl
          · rw [if_neg htakes] at h
            cases h
            exact .inr (.inr (.inl ⟨Bool.eq_false_iff.2 htakes, rfl⟩))
    · rw [if_neg hlt] at h
      cases h
      exact .inl ⟨Nat.le_of_not_lt hlt, rfl⟩

/-- A round that does not end the loop sends more. -/
theorem progress {u : Upload} {s t : UploadState} (h : u.Step s t) (ht : t.phase = .sending) :
    s.body.length < t.body.length := by
  obtain ⟨-, ⟨-, rfl⟩ | ⟨hlt, ⟨fault, -, rfl⟩ | ⟨ok, data, -, -, rfl⟩ | ⟨-, rfl⟩ |
    ⟨data, -, hne, rfl⟩⟩⟩ := step_cases h
  · cases ht
  · cases ht
  · cases ht
  · cases ht
  · have hdata : 0 < data.length := List.length_pos_iff.2 hne
    have hsize : 0 < (u.nextCall s).size := by simp only [nextCall, kMaxChunkSize]; omega
    simp only [List.length_append, List.length_take]
    omega

/-- The loop ends exactly when it is not sending any more. -/
theorem stuck_iff {u : Upload} {s : UploadState} : Stuck u.Step s ↔ s.phase ≠ .sending := by
  constructor
  · intro h hphase
    obtain ⟨body, calls, phase⟩ := s
    cases hphase
    have hnext : (u.next ⟨body, calls, .sending⟩).isSome := by
      simp only [next]
      split
      · split
        · rfl
        · rfl
        · split <;> rfl
      · rfl
    obtain ⟨t, ht⟩ := Option.isSome_iff_exists.1 hnext
    exact h t ht
  · intro h t ht
    exact h (step_cases ht).1

/-- From every state the loop comes to an end. -/
theorem ends (u : Upload) (s : UploadState) : ∃ t, Reaches u.Step s t ∧ t.phase ≠ .sending := by
  -- what is missing of the body, and the round that ends the loop
  let measure (s : UploadState) : Nat :=
    match s.phase with
    | .sending => u.record.contentLength - s.body.length + 1
    | _ => 0
  have hstep : ∀ s t, u.Step s t → measure t < measure s := by
    intro s t h
    have hs : measure s = u.record.contentLength - s.body.length + 1 := by
      simp only [measure, (step_cases h).1]
    by_cases ht : t.phase = .sending
    · have hmore := progress h ht
      have hmissing : s.body.length < u.record.contentLength := by
        obtain ⟨-, ⟨-, rfl⟩ | ⟨hlt, -⟩⟩ := step_cases h
        · cases ht
        · exact hlt
      have ht' : measure t = u.record.contentLength - t.body.length + 1 := by
        simp only [measure, ht]
      omega
    · have ht' : measure t = 0 := by
        simp only [measure]
      omega
  obtain ⟨t, hreach, hstuck⟩ := exists_stuck measure hstep s
  exact ⟨t, hreach, stuck_iff.1 hstuck⟩

/-! ## All rounds -/

/-- What holds throughout an upload. -/
structure Exact (u : Upload) (s : UploadState) : Prop where
  /-- Not more than the content length is sent. -/
  length_le : s.body.length ≤ u.record.contentLength
  /-- The callback is asked for the bytes at the end of what is sent, for one at
  least, for not more than are missing, and not for more than the limit. -/
  asks : ∀ c ∈ s.calls, 0 < c.size ∧ c.size ≤ kMaxChunkSize ∧ c.offset ≤ s.body.length ∧
    c.offset + c.size ≤ u.record.contentLength
  /-- What is sent at the offset of a call is what the callback has returned. -/
  chunks : ∀ c ∈ s.calls, c.offset < s.body.length → ∃ data,
    u.record.callback c.offset c.size = .ok (true, data) ∧
      data.take c.size <+: s.body.drop c.offset
  /-- Every byte that is sent was returned for its offset. -/
  returned : ∀ i, i < s.body.length → ∃ c ∈ s.calls, ∃ data,
    u.record.callback c.offset c.size = .ok (true, data) ∧ c.offset ≤ i ∧ i < c.offset + c.size ∧
      data[i - c.offset]? = s.body[i]?
  /-- Every call of an upload that goes on has sent something. -/
  number_sending : s.phase = .sending → s.calls.length ≤ s.body.length
  offset_lt : s.phase = .sending → ∀ c ∈ s.calls, c.offset < s.body.length
  number : s.calls.length ≤ u.record.contentLength
  complete : s.phase = .sent → s.body.length = u.record.contentLength

theorem exact_initial (u : Upload) : u.Exact {} where
  length_le := Nat.zero_le _
  asks := by simp
  chunks := by simp
  returned := by simp
  number_sending _ := Nat.le_refl _
  offset_lt := by simp
  number := Nat.zero_le _
  complete := nofun

/-- The invariant of an upload that ends with a call. -/
theorem Exact.fail {u : Upload} {s : UploadState} (h : u.Exact s) (hphase : s.phase = .sending)
    (hlt : s.body.length < u.record.contentLength) {phase : UploadPhase}
    (hend : phase ≠ .sending ∧ phase ≠ .sent) :
    u.Exact { s with calls := s.calls ++ [u.nextCall s], phase := phase } where
  length_le := h.length_le
  asks c hc := by
    rcases List.mem_append.1 hc with hc | hc
    · exact h.asks c hc
    · rw [List.mem_singleton.1 hc]
      simp only [nextCall, kMaxChunkSize]
      omega
  chunks c hc hoffset := by
    rcases List.mem_append.1 hc with hc | hc
    · exact h.chunks c hc hoffset
    · rw [List.mem_singleton.1 hc] at hoffset
      exact absurd hoffset (Nat.lt_irrefl _)
  returned i hi := by
    obtain ⟨c, hc, data, hdata⟩ := h.returned i hi
    exact ⟨c, List.mem_append_left _ hc, data, hdata⟩
  number_sending hsending := absurd hsending hend.1
  offset_lt hsending := absurd hsending hend.1
  number := by
    have hnumber := h.number_sending hphase
    simp only [List.length_append, List.length_singleton]
    omega
  complete hsent := absurd hsent hend.2

/-- The invariant of an upload that goes on. -/
theorem Exact.send {u : Upload} {s : UploadState} (h : u.Exact s) (hphase : s.phase = .sending)
    (hlt : s.body.length < u.record.contentLength) {data : Bytes}
    (hcall : u.record.callback (u.nextCall s).offset (u.nextCall s).size = .ok (true, data))
    (hne : data ≠ []) :
    u.Exact { s with
      body := s.body ++ data.take (u.nextCall s).size, calls := s.calls ++ [u.nextCall s] } := by
  have hdata : 0 < data.length := List.length_pos_iff.2 hne
  have hsize : 0 < (u.nextCall s).size ∧ (u.nextCall s).size ≤ kMaxChunkSize ∧
      s.body.length + (u.nextCall s).size ≤ u.record.contentLength := by
    simp only [nextCall, kMaxChunkSize]
    omega
  have hnumber := h.number_sending hphase
  have hlength : (s.body ++ data.take (u.nextCall s).size).length =
      s.body.length + min (u.nextCall s).size data.length := by
    rw [List.length_append, List.length_take]
  have hle := h.length_le
  constructor
  case length_le =>
    dsimp only
    omega
  case asks =>
    intro c hc
    dsimp only
    rcases List.mem_append.1 hc with hc | hc
    · have := h.asks c hc
      omega
    · rw [List.mem_singleton.1 hc]
      exact ⟨hsize.1, hsize.2.1, by simp [nextCall], hsize.2.2⟩
  case chunks =>
    intro c hc _
    dsimp only
    rcases List.mem_append.1 hc with hc | hc
    · have hlt := h.offset_lt hphase c hc
      obtain ⟨data', hcall', hstart⟩ := h.chunks c hc hlt
      refine ⟨data', hcall', ?_⟩
      rw [List.drop_append_of_le_length (Nat.le_of_lt hlt)]
      exact hstart.trans (List.prefix_append _ _)
    · rw [List.mem_singleton.1 hc]
      refine ⟨data, hcall, ?_⟩
      rw [show (u.nextCall s).offset = s.body.length from rfl, List.drop_left]
  case returned =>
    intro i hi
    dsimp only at hi ⊢
    by_cases hold : i < s.body.length
    · obtain ⟨c, hc, data', hcall', hfrom, hto, hbyte⟩ := h.returned i hold
      refine ⟨c, List.mem_append_left _ hc, data', hcall', hfrom, hto, ?_⟩
      rw [hbyte, List.getElem?_append_left hold]
    · have hge : s.body.length ≤ i := Nat.le_of_not_lt hold
      refine ⟨u.nextCall s, by simp, data, hcall, hge, ?_, ?_⟩
      · rw [show (u.nextCall s).offset = s.body.length from rfl]
        omega
      · rw [List.getElem?_append_right hge, List.getElem?_take_of_lt (by omega)]
        rfl
  case number_sending =>
    intro _
    simp only [List.length_append, List.length_singleton, List.length_take]
    omega
  case offset_lt =>
    intro _ c hc
    dsimp only
    rcases List.mem_append.1 hc with hc | hc
    · have := h.offset_lt hphase c hc
      omega
    · rw [List.mem_singleton.1 hc, show (u.nextCall s).offset = s.body.length from rfl]
      omega
  case number =>
    simp only [List.length_append, List.length_singleton]
    omega
  case complete =>
    intro hsent
    cases hphase.symm.trans hsent

/-- A round keeps the invariant. -/
theorem Exact.step {u : Upload} {s t : UploadState} (h : u.Exact s) (hst : u.Step s t) :
    u.Exact t := by
  obtain ⟨hphase, ⟨hle, rfl⟩ | ⟨hlt, ⟨fault, -, rfl⟩ | ⟨ok, data, -, -, rfl⟩ | ⟨-, rfl⟩ |
    ⟨data, hcall, hne, rfl⟩⟩⟩ := step_cases hst
  · exact { h with
      number_sending := nofun
      offset_lt := nofun
      complete := fun _ => Nat.le_antisymm h.length_le hle }
  · exact h.fail hphase hlt ⟨nofun, nofun⟩
  · exact h.fail hphase hlt ⟨nofun, nofun⟩
  · exact h.fail hphase hlt ⟨nofun, nofun⟩
  · exact h.send hphase hlt hcall hne

theorem exact_reachable {u : Upload} {s : UploadState} (h : u.Reachable s) : u.Exact s :=
  Transition.invariant u.Exact (fun _ _ => Exact.step) h u.exact_initial

/-- A callback that returns leaves no exception. -/
theorem not_terminated {u : Upload} {s : UploadState} (h : u.Reachable s)
    (hreturns : ∀ offset size, ∃ r, u.record.callback offset size = .ok r) :
    s.phase = .sending ∨ s.phase = .sent ∨ ∃ message, s.phase = .failed message := by
  refine Transition.invariant
    (fun s => s.phase = .sending ∨ s.phase = .sent ∨ ∃ message, s.phase = .failed message)
    ?_ h (.inl rfl)
  intro s t _ hst
  obtain ⟨hphase, ⟨-, rfl⟩ | ⟨-, ⟨fault, hcall, -⟩ | ⟨ok, data, -, -, rfl⟩ | ⟨-, rfl⟩ |
    ⟨data, -, -, rfl⟩⟩⟩ := step_cases hst
  · exact .inr (.inl rfl)
  · obtain ⟨r, hr⟩ := hreturns (u.nextCall s).offset (u.nextCall s).size
    cases hcall.symm.trans hr
  · exact .inr (.inr ⟨_, rfl⟩)
  · exact .inr (.inr ⟨_, rfl⟩)
  · exact .inl hphase

/-- `Post` returns an error unless the body is complete. -/
theorem isError_or_complete {u : Upload} {s : UploadState} (h : u.Reachable s)
    {server : Bytes → HttpReply} {version stored : Option Bytes} {resp : Result HttpAnswer}
    (hresult : result? server version s = some (.ok (resp, stored))) :
    resp.error.isError = true ∨ s.body.length = u.record.contentLength := by
  unfold result? at hresult
  split at hresult
  · cases hresult
  · exact .inr ((exact_reachable h).complete ‹_›)
  · cases Option.some.inj hresult
    exact .inl rfl
  · cases hresult

/-! ## A whole string -/

section WriteAll

variable {data : Bytes} {connection : Connection} {s : UploadState}

theorem callback_writeAll {offset size : Nat} (h : offset ≤ data.length) :
    (WritableRecord.writeAll data).callback offset size =
      .ok (true, (data.drop offset).take size) := by
  simp only [WritableRecord.writeAll, substr, if_pos h]
  rfl

/-- What is sent of a string is its beginning. -/
theorem prefix_of_writeAll (h : Reachable ⟨.writeAll data, connection⟩ s) : s.body <+: data := by
  have hexact := exact_reachable h
  have hle : s.body.length ≤ data.length := hexact.length_le
  rw [List.prefix_iff_eq_take]
  refine List.ext_getElem? fun i => ?_
  by_cases hi : i < s.body.length
  · obtain ⟨c, -, chunk, hcall, hfrom, hto, hbyte⟩ := hexact.returned i hi
    rw [callback_writeAll (by omega), Except.ok.injEq, Prod.mk.injEq] at hcall
    rw [← hbyte, ← hcall.2, List.getElem?_take_of_lt (by omega), List.getElem?_drop,
      List.getElem?_take_of_lt hi, Nat.add_sub_cancel' hfrom]
  · rw [List.getElem?_eq_none (Nat.le_of_not_lt hi), List.getElem?_eq_none]
    rw [List.length_take]
    omega

/-- Only the connection can end the upload of a string before it is complete. -/
theorem phase_of_writeAll (h : Reachable ⟨.writeAll data, connection⟩ s) :
    s.phase = .sending ∨ s.phase = .sent ∨
      s.phase = .failed connection.writeFailed ∧ ∃ n, connection.takes n = false := by
  refine Transition.invariant
    (fun s => s.phase = .sending ∨ s.phase = .sent ∨
      s.phase = .failed connection.writeFailed ∧ ∃ n, connection.takes n = false) ?_ h (.inl rfl)
  intro s t _ hst
  have hcallback := fun hlt : s.body.length < data.length =>
    @callback_writeAll data s.body.length (min (data.length - s.body.length) kMaxChunkSize)
      (Nat.le_of_lt hlt)
  obtain ⟨hphase, ⟨-, rfl⟩ | ⟨hlt, ⟨fault, hcall, -⟩ | ⟨ok, chunk, hcall, hstop, rfl⟩ |
    ⟨htakes, rfl⟩ | ⟨chunk, -, -, rfl⟩⟩⟩ := step_cases hst
  · exact .inr (.inl rfl)
  · cases (hcallback hlt).symm.trans hcall
  · cases (hcallback hlt).symm.trans hcall
    have hlt' : s.body.length < data.length := hlt
    rcases hstop with hstop | hstop
    · cases hstop
    · rw [List.take_eq_nil_iff, List.drop_eq_nil_iff] at hstop
      simp only [kMaxChunkSize] at hstop
      omega
  · exact .inr (.inr ⟨rfl, _, htakes⟩)
  · exact .inl hphase

/-- A string is sent as it is. -/
theorem body_of_writeAll (h : Reachable ⟨.writeAll data, connection⟩ s) (hsent : s.phase = .sent) :
    s.body = data :=
  (prefix_of_writeAll h).eq_of_length ((exact_reachable h).complete hsent)

end WriteAll

/-! ## The upload law -/

/-- Whatever the callback returns, the loop sends at most the content length, only what
was returned for the offset, and ends after at most as many calls as there are bytes to
send, with an error or a complete body. The body of `WriteAll` is its string. -/
theorem sends_exactly (connection : Connection) :
    (∀ (contentLength : Nat) (answer : Nat → Nat → Bool × Bytes),
      let u : Upload :=
        ⟨.write contentLength fun offset size => .ok (answer offset size), connection⟩
      (∀ s, u.Reachable s → u.Exact s ∧
        (s.phase = .sending ∨ s.phase = .sent ∨ ∃ message, s.phase = .failed message)) ∧
      (∀ s t, u.Reachable s → u.Step s t → t.phase = .sending → s.body.length < t.body.length) ∧
      (∀ s, u.Reachable s → ∃ t, Reaches u.Step s t ∧ t.phase ≠ .sending) ∧
      ∀ server version s resp stored, u.Reachable s →
        result? server version s = some (.ok (resp, stored)) →
          resp.error.isError = true ∨ s.body.length = contentLength) ∧
    ∀ (data : Bytes) (s : UploadState), Reachable ⟨.writeAll data, connection⟩ s →
      s.body <+: data ∧
        (∃ t, Reaches (Step ⟨.writeAll data, connection⟩) s t ∧ t.phase ≠ .sending) ∧
        (s.phase ≠ .sending →
          s.phase = .sent ∧ s.body = data ∨
            s.phase = .failed connection.writeFailed ∧ ∃ n, connection.takes n = false) := by
  refine ⟨fun contentLength answer => ⟨fun s hs => ⟨exact_reachable hs, ?_⟩, ?_, ?_, ?_⟩, ?_⟩
  · exact not_terminated hs fun offset size => ⟨answer offset size, rfl⟩
  · exact fun s t _ hst ht => progress hst ht
  · exact fun s _ => ends _ s
  · exact fun server version s resp stored hs hresult => isError_or_complete hs hresult
  · intro data s hs
    refine ⟨prefix_of_writeAll hs, ends _ s, fun hphase => ?_⟩
    rcases phase_of_writeAll hs with hsending | hsent | hfailed
    · exact absurd hsending hphase
    · exact .inl ⟨hsent, body_of_writeAll hs hsent⟩
    · exact .inr hfailed

end Upload

end Reduct
