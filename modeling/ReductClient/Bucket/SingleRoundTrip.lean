-- SUMMARY: A record that is written with `Write` and read with `Read` or `Head`: the callback gets it as it was written, whatever the chunks and the order of the threads.
import ReductClient.Bucket.BatchResponse
import ReductClient.Bucket.SingleRecord
import ReductClient.Bucket.Upload

open Cxx Fallible Transition

namespace Reduct

/-! ## Reading a single record

The `Read` closure of a single record knows no size. It hands over what arrives until it
finds the end marker. -/

section Reading

variable {callback : RecordCallback} {record : ReadableRecord} {k : List Bytes → CallbackProg}
  {origin : Origin} {visits : List Visit} {stopped : Bool} {ready : List Nat} {tasks : List Task}

/-- The closure hands over all chunks but the empty ones, and takes the end marker. -/
theorem reads_single (source chunks : List Bytes) (total : Nat) (got : List Bytes) :
    Reaches (RunnerStep callback)
      ⟨⟨.active record chunks (.reading .single (fun _ => true) k total got) origin, visits,
        stopped, ready⟩, delivery tasks (source.map some ++ [none])⟩
      ⟨⟨.active record (chunks ++ source.filter (· ≠ []))
        (.running (k (got ++ source.filter (· ≠ [])))) origin, visits, stopped, ready⟩,
        delivery tasks []⟩ := by
  induction source generalizing chunks total got with
  | nil =>
    have hfetch : ReadKind.fetch total .single none = .chunk none [] := rfl
    rw [List.filter_nil, List.append_nil, List.append_nil]
    exact .single (Move.endOfData hfetch).step
  | cons chunk source ih =>
    have hfetch : ReadKind.fetch total .single (some chunk) = .chunk (some chunk) [] := rfl
    by_cases hne : chunk = []
    · have hrun := ih chunks total got
      subst hne
      exact .head (Move.pause hfetch).step hrun
    · have hrun := ih (chunks ++ [chunk]) (total + chunk.length) (got ++ [chunk])
      have hfilter : (chunk :: source).filter (· ≠ []) = chunk :: source.filter (· ≠ []) :=
        List.filter_cons_of_pos (by simpa using hne)
      rw [List.append_assoc, List.append_assoc, List.singleton_append, ← hfilter] at hrun
      exact .head (Move.more hfetch hne rfl).step hrun

end Reading

namespace ReadState

/-- The callback thread, left alone with a single record, reads it through. -/
theorem solo_single {call : ReadCall} (hcallback : call.callback = readThrough)
    {record : ReadableRecord} (hread : record.read = ⟨.single, call.head⟩) (chunks : List Bytes) :
    ∃ d, Reaches (RunnerStep call.callback) (soloStart call [record] chunks) d ∧ AtEnd d ∧
      d.state.visits = [⟨record, (bodyOf call chunks).filter (· ≠ []), true⟩] := by
  have hstart : AtHead [record] (soloStart call [record] chunks) ∧
      (soloStart call [record] chunks).state.stopped = false ∧
      (soloStart call [record] chunks).state.visits = [] ∧
      (soloStart call [record] chunks).queues .data = arrived call (bodyOf call chunks) .kOk := by
    unfold soloStart
    split
    · exact ⟨atHead_inlineStart .., rfl, rfl, rfl⟩
    · exact ⟨atHead_queuedStart .., rfl, rfl, rfl⟩
  obtain ⟨hhead, hgoes, hvisits, hdata⟩ := hstart
  obtain ⟨origin, tasks, ready, horigin, hcall⟩ := hhead.call call.callback hgoes
  rw [hvisits, hdata, hcallback] at hcall
  -- the callback calls the closure, and this comes to its end
  have hreads : ∃ data, Reaches (RunnerStep readThrough)
      ⟨⟨.active record [] (.running (readThrough [] record)) origin, [], false, ready⟩,
        delivery tasks (arrived call (bodyOf call chunks) .kOk)⟩
      ⟨⟨.active record ((bodyOf call chunks).filter (· ≠ [])) (.running (.ret true)) origin, [],
        false, ready⟩, delivery tasks data⟩ := by
    unfold readThrough
    cases hhead : call.head with
    | true =>
      rw [bodyOf, if_pos hhead, List.filter_nil]
      exact ⟨_, .single (Move.readHead (by rw [hread, hhead])).step⟩
    | false =>
      have hrun := @reads_single readThrough record (fun _ => .ret true) origin [] false ready tasks
        (bodyOf call chunks) [] 0 []
      have harrived : arrived call (bodyOf call chunks) .kOk =
          (bodyOf call chunks).map some ++ [none] := by
        simp [arrived, bodyItems, completes, hhead]
      have hkind : record.read.kind = .single := by rw [hread]
      rw [← hkind] at hrun
      rw [harrived]
      exact ⟨[], .head (Move.read (by rw [hread, hhead])).step hrun⟩
  obtain ⟨data, hreads⟩ := hreads
  obtain ⟨d, hret, hends, hvisits', -, -⟩ := returns_atHead readThrough record
    ((bodyOf call chunks).filter (· ≠ [])) true origin [] ready tasks data
  rw [horigin] at hends
  obtain ⟨e, hend, hatEnd, hsame, -, -⟩ := hends.ends readThrough
  rw [hcallback]
  exact ⟨e, ((hcall.trans hreads).tail hret).trans hend, hatEnd, hsame.trans hvisits'⟩

variable [StdSort]

/-- A call for a single record can always return. When it has, the callback has been called
once, with everything that has arrived. -/
theorem returns_single {call : ReadCall} {headers : Headers} {chunks : List Bytes}
    {record : ReadableRecord} {s : ReadState} (htype : call.type = .single)
    (hcallback : call.callback = readThrough)
    (hparse : parseAndBuildSingleRecord call.head headers = .ok record)
    (h : Reachable call (.delivered headers chunks .kOk) s) :
    (∃ t stopped, Reaches (Step call) s t ∧ t.caller = .returned stopped .kOk) ∧
      ∀ stopped err, s.caller = .returned stopped err → err = .kOk ∧
        ∃ v, s.runner.visits = [v] ∧ v.record = record ∧
          v.bytes = if call.head then [] else chunks.flatten := by
  have hrecords : buildRecords call.type call.head headers = .ok [record] := by
    rw [htype, buildRecords, hparse]
    rfl
  have hread : record.read = ⟨.single, call.head⟩ := by
    obtain ⟨timestamp, -, hparse⟩ := bind_eq_ok.1 hparse
    obtain ⟨size, -, hparse⟩ := bind_eq_ok.1 hparse
    cases hparse
    rfl
  obtain ⟨d, hd, hend, hvisits⟩ := solo_single hcallback hread chunks
  constructor
  · obtain ⟨t, hrun, hreturned, -⟩ := call_completes hrecords h hd hend
    exact ⟨t, _, hrun, hreturned⟩
  · intro stopped err hret
    obtain ⟨herr, -, q, hatEnd, hrun⟩ := returned_atEnd hrecords h hret
    have hsame : (⟨s.runner, q⟩ : RunnerConfig) = d :=
      stuck_unique (Channel.step_deterministic _) hrun hatEnd.stuck hd hend.stuck
    rw [← hsame] at hvisits
    refine ⟨herr, _, hvisits, rfl, ?_⟩
    rw [Visit.bytes, List.flatten_filter_ne_nil, bodyOf]
    split <;> rfl

end ReadState

/-! ## What the server keeps -/

/-- What `Write` tells the server of a record. -/
structure StoredRecord where
  ts : Bytes
  contentType : Bytes
  labels : Headers
  body : Bytes

/-- The record for the options of a call of `Write`, with the body that has been sent. -/
def WriteOptions.stored (options : WriteOptions) (now : Time) (body : Bytes) : StoredRecord where
  ts := decimalSigned (toMicroseconds (options.timestamp.getD now))
  contentType :=
    if options.contentType = [] then bytes "application/octet-stream" else options.contentType
  labels := Bucket.makeHeadersFromLabels options.labels
  body := body

/-- The request that carries the record, with what is sent as its body. -/
def StoredRecord.request (r : StoredRecord) (b : Bucket) (entryName : Bytes)
    (record : WritableRecord) : HttpRequest :=
  .post (b.entryPath entryName ++ bytes "?ts=" ++ r.ts) r.contentType record.contentLength r.labels
    record.callback

theorem Bucket.write_eq (b : Bucket) (entryName : Bytes) (options : WriteOptions)
    (record : WritableRecord) (now : Time) (body : Bytes) :
    b.write entryName options record now =
      Http.transfer ((options.stored now body).request b entryName record) := rfl

/-- The name of a header in lower case. -/
def lowered (header : Bytes × Bytes) : Bytes × Bytes := (header.1.map toLower, header.2)

/-- The server returns the record: its headers, in any order, in any case and among others, and
its body in any chunks. There is no body in the response to a `HEAD`. -/
structure StoredRecord.ReturnedAs (r : StoredRecord) (head : Bool)
    (response : List (Bytes × Bytes)) (chunks : List Bytes) : Prop where
  ts : (normalizeHeaders response).find? kHeaderTime = some r.ts
  contentLength : (normalizeHeaders response).find? (bytes "content-length") =
    some (decimal r.body.length)
  contentType : (normalizeHeaders response).find? (bytes "content-type") = some r.contentType
  labels : ((response.map lowered).filter fun h => kHeaderLabelPrefix.isPrefixOf h.1).Perm
    (r.labels.toList.map lowered)
  body : chunks.flatten = if head then [] else r.body

/-! ## The headers of the response -/

/-- Headers come back under their names in lower case, if no other headers of the response
begin in the same way. -/
theorem find?_returned {response : List (Bytes × Bytes)} {start : Bytes} {headers : Headers}
    (hreturns : ((response.map lowered).filter fun h => start.isPrefixOf h.1).Perm headers.toList)
    {name : Bytes} (hname : start.isPrefixOf name = true) :
    (normalizeHeaders response).find? name = headers.find? name := by
  have hmem : ∀ {value : Bytes}, (∃ h ∈ response, h.1.map toLower = name ∧ h.2 = value) ↔
      (name, value) ∈ headers.toList := by
    intro value
    rw [← hreturns.mem_iff, List.mem_filter, List.mem_map]
    constructor
    · rintro ⟨h, hresponse, rfl, rfl⟩
      exact ⟨⟨h, hresponse, rfl⟩, hname⟩
    · rintro ⟨⟨h, hresponse, heq⟩, -⟩
      exact ⟨h, hresponse, congrArg Prod.fst heq, congrArg Prod.snd heq⟩
  refine Option.ext fun value => ?_
  rw [@UnorderedMap.find?_eq_some _ _ _ headers]
  constructor
  · intro hfind
    exact hmem.1 (mem_of_find?_normalizeHeaders hfind)
  · intro hheader
    obtain ⟨h, hresponse, rfl, rfl⟩ := hmem.2 hheader
    refine find?_normalizeHeaders hresponse fun other hother hsame => ?_
    have hheader' := hmem.1 ⟨other, hother, hsame, rfl⟩
    exact Option.some.inj ((UnorderedMap.find?_eq_some.2 hheader').symm.trans
      (UnorderedMap.find?_eq_some.2 hheader))

/-- The time of a record is read back to the microsecond. -/
theorem fromMicroseconds_decimalSigned (t : Time) :
    fromMicroseconds (decimalSigned (toMicroseconds t)) = .ok (timeFromMicroseconds t.micros) := by
  have hbounds := toMicroseconds_bounds t
  rw [fromMicroseconds, stoul, stoull_decimalSigned (by omega) (by omega)]
  rfl

/-! ## The round trip -/

/-- A record that is read is the one that was written. Its time is cut to microseconds. -/
structure ReadableRecord.WrittenAs (record : ReadableRecord) (options : WriteOptions) (now : Time)
    (data : Bytes) : Prop where
  timestamp : record.timestamp.ns = toMicroseconds (options.timestamp.getD now) * 1000
  size : record.size = data.length
  contentType : record.contentType =
    if options.contentType = [] then bytes "application/octet-stream" else options.contentType
  labels : record.labels = options.labels

variable {options : WriteOptions} {now : Time} {data : Bytes} {head : Bool}
  {response : List (Bytes × Bytes)} {headers : Headers} {chunks : List Bytes}

/-- The headers of a returned record are decoded to the record. -/
theorem parse_returned (hsmall : data.length < 2 ^ 31)
    (hlower : ∀ key ∈ options.labels, IsLowerCase key)
    (hreturns : (options.stored now data).ReturnedAs head response chunks)
    (hheaders : (normalizeHeaders response).Same headers) :
    ∃ record, parseAndBuildSingleRecord head headers = .ok record ∧
      record.WrittenAs options now data := by
  have hget : ∀ {name value}, (normalizeHeaders response).find? name = some value →
      headers.get name = value := by
    intro name value hfind
    rw [Headers.get, ← hheaders.find?, hfind, Option.getD_some]
  obtain ⟨record, hparse, htimestamp, hsize, hcontentType⟩ : ∃ record,
      parseAndBuildSingleRecord head headers = .ok record ∧
        record.timestamp = timeFromMicroseconds (options.timestamp.getD now).micros ∧
        record.size = toUInt64 data.length ∧
        record.contentType = (options.stored now data).contentType := by
    rw [parseAndBuildSingleRecord, hget hreturns.ts, hget hreturns.contentLength,
      hget hreturns.contentType]
    have hts : fromMicroseconds (options.stored now data).ts =
        .ok (timeFromMicroseconds (options.timestamp.getD now).micros) :=
      fromMicroseconds_decimalSigned _
    have hlength : stoi (decimal (options.stored now data).body.length) =
        .ok (data.length : Int) := ServerVersion.stoi_decimal hsmall
    rw [hts, ok_bind, hlength, ok_bind]
    exact ⟨_, rfl, rfl, rfl, rfl⟩
  refine ⟨record, hparse, ?_, ?_, hcontentType, ?_⟩
  · rw [htimestamp, timeFromMicroseconds_micros]
  · rw [hsize, toUInt64_natCast (by omega)]
  · -- the label headers come back under their names
    have hnames : ∀ h ∈ (Bucket.makeHeadersFromLabels options.labels).toList, IsLowerCase h.1 := by
      intro h hmem
      obtain ⟨key, value, hvalue, rfl⟩ := mem_makeHeadersFromLabels.1 hmem
      refine (isLowerCase_append _ _).2 ⟨isLowerCase_kHeaderLabelPrefix, hlower key ?_⟩
      exact Std.ExtTreeMap.mem_iff_isSome_getElem?.2 (by rw [hvalue]; rfl)
    have hkept : ∀ h ∈ (options.stored now data).labels.toList, lowered h = h := fun h hmem =>
      Prod.ext (hnames h hmem) rfl
    have hsame : (options.stored now data).labels.toList.map lowered =
        (options.stored now data).labels.toList :=
      (List.map_congr_left hkept).trans (List.map_id' _)
    have hreturned := hreturns.labels
    rw [hsame] at hreturned
    refine Std.ExtTreeMap.ext_getElem? fun key => Option.ext fun value => ?_
    rw [getElem?_labels hparse, ← hheaders.find?,
      find?_returned hreturned (isPrefixOf_append _ _)]
    change (Bucket.makeHeadersFromLabels options.labels).find? _ = _ ↔ _
    rw [UnorderedMap.find?_eq_some, mem_makeHeadersFromLabels]
    constructor
    · rintro ⟨key', value', hvalue, heq⟩
      obtain ⟨hkey, rfl⟩ := Prod.mk.inj heq
      rwa [List.append_cancel_left hkey]
    · exact fun hvalue => ⟨key, value, hvalue, rfl⟩

variable [StdSort]

/-- What a call of `Read` or `Head` makes of a record that was written: it can always return,
and when it has, the callback has been called once, with the record. -/
structure ReadAsWritten (options : WriteOptions) (now : Time) (data : Bytes) (call : ReadCall)
    (s : ReadState) : Prop where
  completes : ∃ t stopped, Reaches (ReadState.Step call) s t ∧ t.caller = .returned stopped .kOk
  returned : ∀ stopped err, s.caller = .returned stopped err → err = .kOk ∧
    ∃ v, s.runner.visits = [v] ∧ v.record.WrittenAs options now data ∧
      v.bytes = if call.head then [] else data

/-- What `Write` has uploaded of a record without an error: as many bytes as it says, each of
them from the write callback, and of `WriteAll` the string. -/
structure UploadedWhole (record : WritableRecord) (connection : Connection) (u : UploadState) :
    Prop where
  length : u.body.length = record.contentLength
  exact : Upload.Exact ⟨record, connection⟩ u
  writeAll : ∀ data, record = .writeAll data → u.body = data

omit [StdSort] in
theorem uploadedWhole {record : WritableRecord} {connection : Connection} {u : UploadState}
    (hupload : Upload.Reachable ⟨record, connection⟩ u) {server : Bytes → HttpReply}
    {version stored : Option Bytes} {resp : Result HttpAnswer}
    (hresult : Upload.result? server version u = some (.ok (resp, stored)))
    (hok : resp.error.isError = false) : UploadedWhole record connection u := by
  have hlength : u.body.length = record.contentLength := by
    rcases Upload.isError_or_complete hupload hresult with herr | hlength
    · cases hok.symm.trans herr
    · exact hlength
  refine ⟨hlength, Upload.exact_reachable hupload, ?_⟩
  rintro data rfl
  exact (Upload.prefix_of_writeAll hupload).eq_of_length hlength

/-- A record comes back as it was written, if it is smaller than two gigabytes and the names of
its labels are in lower case: whatever chunks it is sent and returned in, and in every
interleaving of the threads. -/
theorem read_asWritten {record : WritableRecord} (hsmall : record.contentLength < 2 ^ 31)
    (hlower : ∀ key ∈ options.labels, IsLowerCase key) {connection : Connection} {u : UploadState}
    (hupload : Upload.Reachable ⟨record, connection⟩ u) {server : Bytes → HttpReply}
    {version stored : Option Bytes} {resp : Result HttpAnswer}
    (hresult : Upload.result? server version u = some (.ok (resp, stored)))
    (hok : resp.error.isError = false)
    (hreturns : (options.stored now u.body).ReturnedAs head response chunks)
    (hheaders : (normalizeHeaders response).Same headers) {onWorker : Bool} {s : ReadState}
    (hread : ReadState.Reachable ⟨.single, head, onWorker, readThrough⟩
      (.delivered headers chunks .kOk) s) :
    (∀ (b : Bucket) (entryName : Bytes), b.write entryName options record now =
      Http.transfer ((options.stored now u.body).request b entryName record)) ∧
    UploadedWhole record connection u ∧
    ReadAsWritten options now u.body ⟨.single, head, onWorker, readThrough⟩ s := by
  have hwhole := uploadedWhole hupload hresult hok
  obtain ⟨read, hparse, hwritten⟩ :=
    parse_returned (hwhole.length ▸ hsmall) hlower hreturns hheaders
  obtain ⟨hcompletes, hreturned⟩ := ReadState.returns_single rfl rfl hparse hread
  refine ⟨fun b entryName => b.write_eq entryName options record now u.body, hwhole, hcompletes,
    fun stopped err hret => ?_⟩
  obtain ⟨herr, v, hvisits, rfl, hbytes⟩ := hreturned stopped err hret
  refine ⟨herr, v, hvisits, hwritten, hbytes.trans ?_⟩
  dsimp only
  rw [hreturns.body]
  split <;> rfl

/-- A record of two bytes with a label. -/
def labelledOptions : WriteOptions :=
  ⟨some (.wrap 1500), (∅ : LabelMap).insert (bytes "key") (bytes "value"), bytes "text/plain"⟩

/-- The record as it is streamed: its callback returns one byte at a time. -/
def streamedRecord : WritableRecord :=
  .write 2 fun offset _ => .ok (true, ((bytes "ab").drop offset).take 1)

/-- The response to the read of it. -/
def readResponse : List (Bytes × Bytes) :=
  [(bytes "X-Reduct-Time", bytes "1"), (bytes "Content-Type", bytes "text/plain"),
    (bytes "X-Reduct-Label-key", bytes "value"), (bytes "Content-Length", bytes "2")]

omit [StdSort] in
/-- The record is returned in two chunks with an empty one between them. -/
theorem read_asWritten_streamed : @ReadAsWritten .insertion labelledOptions (.wrap 0) (bytes "ab")
    ⟨.single, false, true, readThrough⟩
    (.initial (.delivered (normalizeHeaders readResponse) [bytes "a", [], bytes "b"] .kOk)) :=
  (@read_asWritten labelledOptions (.wrap 0) false readResponse _
    [bytes "a", [], bytes "b"] .insertion streamedRecord (by decide)
    (fun key hkey => (by decide +kernel : ∀ k ∈ labelledOptions.labels.keys, IsLowerCase k) key
      (Std.ExtTreeMap.mem_keys.2 hkey)) ⟨fun _ => true, [], []⟩
    { body := bytes "ab", calls := [⟨0, 2⟩, ⟨1, 1⟩], phase := .sent }
    (.tail (.tail (.tail .refl rfl) rfl) rfl)
    (fun _ => .response ⟨200, by decide, by decide⟩ [] .empty) none none _ rfl rfl
    ⟨by decide +kernel, by decide +kernel, by decide +kernel, by decide +kernel, by decide +kernel⟩
    (.refl _) true _ .refl).2.2

end Reduct
