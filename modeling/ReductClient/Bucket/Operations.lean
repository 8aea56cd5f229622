-- SUMMARY: Histories of operations on a bucket handle, against any replies of the server.
import ReductClient.Bucket.Handle

open Cxx

namespace Reduct

variable [StdSort] [JsonReader]

/-- A call of a `const` method of `IBucket`. The callbacks are replaced by what
they come to, and the clock by its reading. -/
inductive ConstMethod where
  | getSettings
  | updateSettings (settings : Settings)
  | getInfo
  | getEntryList
  | remove
  | removeEntry (entryName : Bytes)
  | removeRecord (entryName : Bytes) (ts : Time)
  | write (entryName : Bytes) (options : WriteOptions) (record : WritableRecord) (now : Time)
  | processBatchV1 (entryName : Bytes) (batch : Batch) (type : BatchType)
  | processBatchV2 (batch : Batch) (type : BatchType)
  | writeAttachments (entryName : Bytes) (attachments : AttachmentMap) (now : Time)
  | readAttachments (entryName : Bytes) (reading : Reading)
  | removeAttachments (entryName : Bytes) (keys : KeySet) (reading : Reading) (removeBatch : Batch)
  | update (entryName : Bytes) (options : WriteOptions)
  | read (head : Bool) (entryName : Bytes) (ts : Option Time)
  | query (entryName : Bytes) (start stop : Option Time) (options : QueryOptions)
      (reading : Reading)
  | queryEntries (entryNames : List Bytes) (start stop : Option Time) (options : QueryOptions)
      (reading : Reading)
  | removeQuery (entryName : Bytes) (start stop : Option Time) (options : QueryOptions)
  | removeQueryEntries (entryNames : List Bytes) (start stop : Option Time) (options : QueryOptions)
  | renameEntry (oldName newName : Bytes)
  | createQueryLink (entryName : Bytes) (options : QueryLinkOptions) (now : Time)
  | createQueryLinkEntries (entries : List Bytes) (options : QueryLinkOptions) (now : Time)

/-- The error a method returns with its result. -/
def resultError {α : Type} (program : Http (Result α)) : Http (Option Error) := do
  let result ← program
  pure (some result.error)

/-- The error of a method that returns nothing else. -/
def ended (program : Http Error) : Http (Option Error) := do
  let err ← program
  pure (some err)

/-- Call the method. There is no error if a query of it goes on. -/
def ConstMethod.call (b : Bucket) : ConstMethod → Http (Option Error)
  | .getSettings => resultError b.getBody
  | .updateSettings settings => ended (b.updateSettings settings)
  | .getInfo => resultError b.getBody
  | .getEntryList => resultError b.getBody
  | .remove => ended b.remove
  | .removeEntry entryName => ended (b.removeEntry entryName)
  | .removeRecord entryName ts => ended (b.removeRecord entryName ts)
  | .write entryName options record now => ended (b.write entryName options record now)
  | .processBatchV1 entryName batch type => resultError (b.processBatchV1 entryName batch type)
  | .processBatchV2 batch type => resultError (b.processBatchV2 batch type)
  | .writeAttachments entryName attachments now =>
    ended (b.writeAttachments entryName attachments now)
  | .readAttachments entryName reading => b.readAttachments entryName reading
  | .removeAttachments entryName keys reading removeBatch =>
    b.removeAttachments entryName keys reading removeBatch
  | .update entryName options => ended (b.update entryName options)
  | .read head entryName ts => ended (b.read head entryName ts)
  | .query entryName start stop options reading => b.query entryName start stop options reading
  | .queryEntries entryNames start stop options reading =>
    b.queryEntries entryNames start stop options reading
  | .removeQuery entryName start stop options =>
    resultError (b.removeQuery entryName start stop options)
  | .removeQueryEntries entryNames start stop options =>
    resultError (b.removeQueryEntries entryNames start stop options)
  | .renameEntry oldName newName => ended (b.renameEntry oldName newName)
  | .createQueryLink entryName options now => resultError (b.createQueryLink entryName options now)
  | .createQueryLinkEntries entries options now =>
    resultError (b.createQueryLinkEntries entries options now)

/-- A call of a method. -/
inductive Operation where
  | const (method : ConstMethod)
  | rename (newName : Bytes)

/-- Call the method, and keep what it leaves of the handle. -/
def Operation.perform (b : Bucket) : Operation → Http (Option Error × Bucket)
  | .const method => do
    let err ← method.call b
    pure (err, b)
  | .rename newName => do
    let (err, b) ← b.rename newName
    pure (some err, b)

/-- A call that has returned: the error, the handle and the client after it. -/
structure Performed where
  op : Operation
  err : Error
  bucket : Bucket
  session : HttpSession

/-- The calls of a history that return. The process may end in a call, and a
query may go on for ever. -/
def history (replies : Nat → HttpReply) (b : Bucket) (s : HttpSession) :
    List Operation → List Performed
  | [] => []
  | op :: ops =>
    match (op.perform b).run replies s with
    | (s', .ok (some err, b')) => ⟨op, err, b', s'⟩ :: history replies b' s' ops
    | _ => []

/-- The first call of a history that is not empty. -/
theorem history_eq_cons {replies : Nat → HttpReply} {b : Bucket} {s : HttpSession}
    {ops : List Operation} {p : Performed} {rest : List Performed}
    (h : history replies b s ops = p :: rest) :
    (p.op.perform b).run replies s = (p.session, .ok (some p.err, p.bucket)) ∧
      ∃ ops', rest = history replies p.bucket p.session ops' := by
  cases ops with
  | nil => cases h
  | cons op ops =>
    rw [history] at h
    split at h
    · rename_i s' err b' hrun
      obtain ⟨rfl, rfl⟩ := List.cons.inj h
      exact ⟨hrun, ops, rfl⟩
    · cases h

/-- What each call preserves holds after every call of a history. -/
theorem history_invariant {replies : Nat → HttpReply} (Inv : Bucket → HttpSession → Prop)
    (hstep : ∀ (b : Bucket) (s : HttpSession) (p : Performed), Inv b s →
      (p.op.perform b).run replies s = (p.session, .ok (some p.err, p.bucket)) →
      Inv p.bucket p.session)
    {b : Bucket} {s : HttpSession} (hinit : Inv b s) (ops : List Operation) :
    ∀ p ∈ history replies b s ops, Inv p.bucket p.session := by
  intro p hp
  generalize hl : history replies b s ops = l at hp
  induction l generalizing b s ops with
  | nil => cases hp
  | cons q rest ih =>
    obtain ⟨hrun, ops', hrest⟩ := history_eq_cons hl
    have hq := hstep b s q hinit hrun
    rcases List.mem_cons.1 hp with rfl | hp
    · exact hq
    · exact ih hq ops' hrest.symm hp

end Reduct
