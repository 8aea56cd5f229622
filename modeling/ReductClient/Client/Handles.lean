-- SUMMARY: The bucket handles that a client returns know the version of the server, and so choose the protocol by it over any history.
import ReductClient.Bucket.Capability
import ReductClient.Client.Buckets
import ReductClient.Internal.Acceptance

open Cxx

namespace Reduct

/-! ## The methods that return a handle -/

/-- A method of `Client` that returns a bucket. -/
inductive HandleMethod where
  | getBucket (name : Bytes)
  | createBucket (name : Bytes) (settings : Settings)
  | getOrCreateBucket (name : Bytes) (settings : Settings)

namespace HandleMethod

/-- The name of the bucket. -/
def name : HandleMethod → Bytes
  | getBucket name => name
  | createBucket name _ => name
  | getOrCreateBucket name _ => name

/-- Call the method. -/
def call : HandleMethod → Http (Result (Option BucketHandle))
  | getBucket name => Client.getBucket name
  | createBucket name settings => Client.createBucket name settings
  | getOrCreateBucket name settings => Client.getOrCreateBucket name settings

end HandleMethod

/-- The client of a handle, which has not sent anything yet. -/
def BucketHandle.session (h : BucketHandle) : HttpSession := ⟨h.apiVersion, []⟩

/-! ## What a handle is built with -/

/-- The handle is the one of the bucket, with what the client knows after an accepted
response. -/
def BuiltWith (name : Bytes) (replies : Nat → HttpReply) (s : HttpSession)
    (ret : Result (Option BucketHandle)) : Prop :=
  ∀ h ∈ ret.result, h = ⟨.build name, s.state⟩ ∧
    ∃ n q, (q, replies n) ∈ s.log ∧ (replies n).Accepted

variable {replies : Nat → HttpReply} {s s' : HttpSession} {name : Bytes}
  {ret : Result (Option BucketHandle)}

/-- A method that ends with the response to a request builds its handle after it. -/
theorem builtWith_ask {q : ClientRequest} (err : Error → Error)
    (h : Http.run replies (.ask q fun resp =>
      if resp.error.isError then pure ⟨none, err resp.error⟩ else Client.buildBucket name) s =
        (s', .ok ret)) : BuiltWith name replies s' ret := by
  rw [Http.run] at h
  cases hreceive : receive s.state (replies s.log.length) with
  | error e =>
    rw [Dialogue.run_ask_error hreceive] at h
    cases h
  | ok r =>
    rw [Dialogue.run_ask_ok hreceive] at h
    by_cases herr : r.1.error.isError = true
    · rw [if_pos herr] at h
      cases h
      rintro h' ⟨⟩
    · rw [if_neg herr] at h
      cases h
      rintro h' ⟨⟩
      have haccepted := (receive_isError hreceive).1 (Bool.eq_false_iff.2 herr)
      exact ⟨rfl, s.log.length, q, by simp, haccepted⟩

theorem builtWith_getBucket (h : (Client.getBucket name).run replies s = (s', .ok ret)) :
    BuiltWith name replies s' ret :=
  builtWith_ask (Client.getBucketError name) h

theorem builtWith_createBucket {settings : Settings}
    (h : (Client.createBucket name settings).run replies s = (s', .ok ret)) :
    BuiltWith name replies s' ret := by
  obtain ⟨body, hcreate⟩ := Client.createBucket_eq name settings
  rw [hcreate] at h
  exact builtWith_ask id h

theorem builtWith_call {m : HandleMethod} (h : m.call.run replies s = (s', .ok ret)) :
    BuiltWith m.name replies s' ret := by
  cases m with
  | getBucket name => exact builtWith_getBucket h
  | createBucket name settings => exact builtWith_createBucket h
  | getOrCreateBucket name settings =>
    rw [HandleMethod.call, Client.getOrCreateBucket, Http.run, Dialogue.run_bind] at h
    split at h
    · rename_i s₁ found hfound
      split at h
      · exact builtWith_createBucket h
      · cases h
        exact builtWith_getBucket hfound
    · cases h

/-! ## The version of the server -/

variable {v : ServerVersion}

/-- Only responses of a server of version 1 are accepted. -/
theorem major_of_accepted (server : ServerReplies v) {n : Nat} (h : (server.reply n).Accepted) :
    v.major = 1 := by
  obtain ⟨resp, hreceive⟩ := receive_version server n none
  by_contra hmajor
  rcases receive_cases hreceive with ⟨-, -, hstored⟩ | ⟨hrejected, -⟩
  · -- the header is there, so the client would have stored it
    rw [if_neg fun hand => hmajor hand.1, Option.or_none] at hstored
    cases hreply : server.reply n with
    | failed message =>
      rw [hreply] at h
      cases h.status
    | response status headers body =>
      rw [hreply] at h hstored
      have hcode : status.code = 200 := Option.some.inj h.status
      rw [HttpReply.version?, if_pos hcode, server.version n status headers body hreply hcode]
        at hstored
      cases hstored
  · exact hrejected h

/-- A handle that comes from a client chooses the protocol by the version of the server,
whatever has been called on the client and on the handle before. -/
def HandleChoosesByVersion [StdSort] [JsonReader] (v : ServerVersion) (server server' : ServerReplies v)
    (before : Http Unit) (m : HandleMethod) (ops : List Operation) : Prop :=
  let client := (before.run server.reply (v.newSession false)).1
  ∀ ret h, (m.call.run server.reply client).2 = .ok ret → ret.result = some h →
    let after := afterHistory server'.reply h.bucket h.session ops
    ChoosesByVersion v server'.reply after.1 after.2

theorem handle_choosesByVersion [StdSort] [JsonReader] (v : ServerVersion) (server server' : ServerReplies v)
    (before : Http Unit) (m : HandleMethod) (ops : List Operation) :
    HandleChoosesByVersion v server server' before m ops := by
  classical
  intro ret h hret hhandle after
  let client := (before.run server.reply (v.newSession false)).1
  let called := (m.call.run server.reply client).1
  have hlearned : v.Learned false called :=
    learned_run server m.call (learned_run server before learned_newSession)
  have hbuilt : BuiltWith m.name server.reply called ret := builtWith_call (by rw [← hret])
  obtain ⟨hh, n, q, hmem, haccepted⟩ := hbuilt h hhandle
  have hmajor := major_of_accepted server haccepted
  have hversion : h.session = v.newSession true := by
    rw [hh, BucketHandle.session, hlearned.1 (.inr ⟨hmajor, _, hmem, haccepted.status⟩)]
    rfl
  have hafter : v.Learned true after.2 := by
    change v.Learned true (afterHistory server'.reply h.bucket h.session ops).2
    rw [hversion]
    exact learned_afterHistory server' _ ops
  intro method versions hversions
  have hsupports : v.Supports true after.2 ↔ v.AtLeast118 := by
    simp only [ServerVersion.Supports, ServerVersion.AtLeast118, ServerVersion.Known,
      true_or, true_and]
    omega
  rw [run_call_of_versions hafter server'.reply hversions]
  by_cases hleast : v.AtLeast118
  · rw [if_pos (hsupports.2 hleast), if_pos hleast]
  · rw [if_neg fun hs => hleast (hsupports.1 hs), if_neg hleast]

/-- A new client asks the server for a bucket, and the handle knows its version. -/
theorem handle_choosesByVersion_new : ∃ reader : JsonReader,
    let called := (Client.getBucket (bytes "bucket")).run server118.reply
      (version118.newSession false)
    ∃ ret handle, called.2 = .ok ret ∧ ret.result = some handle ∧
      handle.apiVersion = some (bytes "1.18") ∧
        @ChoosesByVersion .insertion reader version118 server118.reply handle.bucket
          handle.session := by
  refine ⟨⟨fun _ => .empty⟩, ⟨some ⟨.build (bytes "bucket"), some (bytes "1.18")⟩, .kOk⟩,
    ⟨.build (bytes "bucket"), some (bytes "1.18")⟩, rfl, rfl, rfl, ?_⟩
  exact @handle_choosesByVersion .insertion ⟨fun _ => .empty⟩ version118 server118 server118
    (pure ()) (.getBucket (bytes "bucket")) [] _ _ rfl rfl

end Reduct
