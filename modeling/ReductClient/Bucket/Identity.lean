-- SUMMARY: The identity of a bucket handle over any history of operations: which bucket it names after renames, and when that is the right one.
import ReductClient.Bucket.Operations

open Cxx

namespace Reduct

variable [StdSort] [JsonReader]

/-! ## Renames of a history -/

/-- The new name, if the call is a successful `Rename`. -/
def Performed.renamedTo (p : Performed) : Option Bytes :=
  match p.op with
  | .rename newName => if p.err.isError then none else some newName
  | .const _ => none

/-- The name of the bucket after some calls: that of the last successful `Rename`. -/
def nameAfter (name : Bytes) (past : List Performed) : Bytes :=
  past.foldl (fun n p => p.renamedTo.getD n) name

omit [StdSort] [JsonReader] in
/-- Renames to the same name leave it. -/
theorem nameAfter_eq {name : Bytes} {past : List Performed}
    (h : ∀ p ∈ past, ∀ newName, p.renamedTo = some newName → newName = name) :
    nameAfter name past = name := by
  induction past with
  | nil => rfl
  | cons p past ih =>
    have hp : p.renamedTo.getD name = name := by
      cases hrenamed : p.renamedTo with
      | none => rfl
      | some newName => exact h p List.mem_cons_self newName hrenamed
    rw [nameAfter, List.foldl_cons, hp]
    exact ih fun q hq => h q (List.mem_cons_of_mem p hq)

/-- What a call leaves of the handle. -/
def Bucket.afterRename (b : Bucket) : Option Bytes → Bucket
  | none => b
  | some newName => { b with path := bytes "/b/" ++ newName, ioPath := bytes "/io/" ++ newName }

/-- A `const` method leaves the handle as it is. -/
theorem perform_const {replies : Nat → HttpReply} {b b' : Bucket} {s s' : HttpSession}
    {method : ConstMethod} {err : Option Error}
    (h : (Operation.perform b (.const method)).run replies s = (s', .ok (err, b'))) : b' = b := by
  rw [Operation.perform, Http.run, Dialogue.run_bind] at h
  split at h
  · cases h
    rfl
  · cases h

/-- `Rename` writes the two paths if the server has renamed the bucket. -/
theorem perform_rename {replies : Nat → HttpReply} {b b' : Bucket} {s s' : HttpSession}
    {newName : Bytes} {err : Error}
    (h : (Operation.perform b (.rename newName)).run replies s = (s', .ok (some err, b'))) :
    b' = if err.isError then b else b.afterRename (some newName) := by
  rw [Operation.perform, Bucket.rename, Http.dump] at h
  split at h
  · simp only [Http.put, Dialogue.send, Dialogue.ask_bind, Dialogue.done_bind,
      Dialogue.pure_eq_done, Http.run] at h
    cases hreceive : receive s.state (replies s.log.length) with
    | error e =>
      rw [Dialogue.run_ask_error hreceive] at h
      cases h
    | ok r =>
      rw [Dialogue.run_ask_ok hreceive] at h
      by_cases herr : r.1.error.isError
      · rw [if_pos herr] at h
        cases h
        rw [if_pos herr]
      · rw [if_neg herr] at h
        cases h
        rfl
  · cases h

/-- The step of a history: only a successful `Rename` changes the handle. -/
theorem performed_bucket {replies : Nat → HttpReply} {b : Bucket} {s : HttpSession} {p : Performed}
    (h : (p.op.perform b).run replies s = (p.session, .ok (some p.err, p.bucket))) :
    p.bucket = b.afterRename p.renamedTo := by
  obtain ⟨op, err, b', s'⟩ := p
  cases op with
  | const method => exact perform_const h
  | rename newName =>
    rw [perform_rename h]
    dsimp only [Performed.renamedTo]
    by_cases herr : err.isError
    · rw [if_pos herr, if_pos herr]
      rfl
    · rw [if_neg herr, if_neg herr]

/-- The handle after some calls of a history. -/
theorem bucket_of_history {replies : Nat → HttpReply} {b : Bucket} {s : HttpSession}
    {ops : List Operation} {past : List Performed} {p : Performed} {rest : List Performed}
    (h : history replies b s ops = past ++ p :: rest) :
    p.bucket = (past ++ [p]).foldl (fun b p => b.afterRename p.renamedTo) b := by
  induction past generalizing b s ops with
  | nil => exact performed_bucket (history_eq_cons h).1
  | cons q past ih =>
    obtain ⟨hrun, ops', hrest⟩ := history_eq_cons h
    rw [ih hrest.symm, performed_bucket hrun]
    rfl

omit [StdSort] [JsonReader] in
/-- The paths of a handle follow the renames, its name does not. -/
theorem foldl_afterRename (name n : Bytes) (past : List Performed) :
    past.foldl (fun b p => b.afterRename p.renamedTo)
        (⟨name, bytes "/b/" ++ n, bytes "/io/" ++ n⟩ : Bucket) =
      ⟨name, bytes "/b/" ++ nameAfter n past, bytes "/io/" ++ nameAfter n past⟩ := by
  induction past generalizing n with
  | nil => rfl
  | cons p past ih =>
    rw [List.foldl_cons, nameAfter, List.foldl_cons]
    cases hp : p.renamedTo with
    | none => exact ih n
    | some newName => exact ih newName

/-! ## Identity -/

/-- The handle is one of the bucket `n`, and later calls go there. -/
structure Bucket.Identifies (b : Bucket) (n : Bytes) : Prop where
  path : b.path = bytes "/b/" ++ n
  ioPath : b.ioPath = bytes "/io/" ++ n
  name : b.name = n
  /-- A call sends what it would send on a handle built for `n`. -/
  requests : ∀ (op : Operation) (replies : Nat → HttpReply) (s : HttpSession),
    ((op.perform b).run replies s).1.log = ((op.perform (.build n)).run replies s).1.log
  /-- The payload of a query link has `n` as its bucket. -/
  links : ∀ (now : Time) (entries : List Bytes) (options : QueryLinkOptions) (payload : Json),
    queryLinkOptionsToJsonString now b.name entries options = .ok (.ok payload) →
      payload.member? (bytes "bucket") = some (.str n)

theorem Bucket.identifies_iff {b : Bucket} {n : Bytes} : b.Identifies n ↔ b = .build n := by
  constructor
  · intro h
    obtain ⟨name, path, ioPath⟩ := b
    have hpath := h.path
    have hioPath := h.ioPath
    have hname := h.name
    dsimp only at hpath hioPath hname
    rw [hpath, hioPath, hname]
    rfl
  · rintro rfl
    exact ⟨rfl, rfl, rfl, fun _ _ _ => rfl, fun _ _ _ _ h => bucket_of_queryLinkOptions h⟩

/-- After each call of a history the handle is that of the bucket it was last
renamed to, and only a successful `Rename` changes it. -/
def KeepsIdentity (name : Bytes) (replies : Nat → HttpReply) (s : HttpSession)
    (ops : List Operation) : Prop :=
  ∀ past p rest, history replies (.build name) s ops = past ++ p :: rest →
    p.bucket.Identifies (nameAfter name (past ++ [p])) ∧
      (p.renamedTo = none →
        p.bucket = ((past.getLast?).map Performed.bucket).getD (.build name))

/-- The handle before a call is the one the call before has left. -/
theorem bucket_before {replies : Nat → HttpReply} {b : Bucket} {s : HttpSession}
    {ops : List Operation} {past : List Performed} {p : Performed} {rest : List Performed}
    (h : history replies b s ops = past ++ p :: rest) :
    p.bucket = (((past.getLast?).map Performed.bucket).getD b).afterRename p.renamedTo := by
  have hp := bucket_of_history h
  rw [List.foldl_append] at hp
  cases hpast : past.getLast? with
  | none =>
    rw [List.getLast?_eq_none_iff.1 hpast] at hp
    exact hp
  | some q =>
    obtain ⟨before, rfl⟩ := List.getLast?_eq_some_iff.1 hpast
    rw [List.append_assoc] at h
    rw [← bucket_of_history h] at hp
    exact hp

/-- A handle keeps its identity over a history if and only if every successful
`Rename` in it is to the name the handle was built with. -/
theorem keepsIdentity_iff (name : Bytes) (replies : Nat → HttpReply) (s : HttpSession)
    (ops : List Operation) :
    KeepsIdentity name replies s ops ↔
      ∀ p ∈ history replies (.build name) s ops, ∀ newName, p.renamedTo = some newName →
        newName = name := by
  -- the name of the handle is the one it was built with, in every state
  have hname : ∀ past p rest, history replies (.build name) s ops = past ++ p :: rest →
      (p.bucket.Identifies (nameAfter name (past ++ [p])) ↔ nameAfter name (past ++ [p]) = name) := by
    intro past p rest h
    have hbucket := bucket_of_history h
    rw [Bucket.build, foldl_afterRename] at hbucket
    rw [Bucket.identifies_iff, hbucket, Bucket.build, Bucket.mk.injEq]
    constructor
    · rintro ⟨hname, -⟩
      exact hname.symm
    · intro h
      exact ⟨h.symm, rfl, rfl⟩
  constructor
  · intro h p hp newName hrenamed
    obtain ⟨past, rest, hsplit⟩ := List.append_of_mem hp
    have hkept := (hname past p rest hsplit).1 (h past p rest hsplit).1
    rw [nameAfter, List.foldl_append, List.foldl_cons, hrenamed] at hkept
    exact hkept
  · intro h past p rest hsplit
    refine ⟨(hname past p rest hsplit).2 ?_, fun hnone => ?_⟩
    · have hsame : ∀ q ∈ past ++ [p], ∀ n, q.renamedTo = some n → n = name := by
        intro q hq
        refine h q ?_
        rw [hsplit]
        rcases List.mem_append.1 hq with hq | hq
        · exact List.mem_append_left _ hq
        · exact List.mem_append_right _ (by simp [List.mem_singleton.1 hq])
      exact nameAfter_eq hsame
    · rw [bucket_before hsplit, hnone]
      rfl

/-! ## A renamed handle -/

/-- A response without headers or body. -/
def plainReply : HttpReply := .response .ok [] .empty

omit [StdSort] [JsonReader] in
/-- A handle for `a` that has been renamed to `b` still has the name `a`. -/
theorem keepsIdentity_broken : ∃ reader : JsonReader,
    ¬ @KeepsIdentity .insertion reader (bytes "a") (fun _ => plainReply) ⟨none, []⟩
      [.rename (bytes "b")] := by
  refine ⟨⟨fun _ => .empty⟩, fun h => ?_⟩
  let request : ClientRequest := .put (bytes "/b/a/rename") (.of (.obj [(bytes "new_name",
    .str (bytes "b"))]))
  let renamed : Performed := ⟨.rename (bytes "b"), .kOk, ⟨bytes "a", bytes "/b/b", bytes "/io/b"⟩,
    ⟨none, [(request, plainReply)]⟩⟩
  obtain ⟨hidentity, -⟩ := h [] renamed [] rfl
  exact absurd (@Bucket.Identifies.name .insertion ⟨fun _ => .empty⟩ _ _ hidentity) (by decide)

end Reduct
