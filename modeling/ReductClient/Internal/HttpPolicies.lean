-- SUMMARY: Policies for programs of the client: which requests they may send, and that they stop at an error, with a rule for each way to send a request.
import ReductClient.Base.Policy
import ReductClient.Internal.Acceptance

open Cxx

namespace Reduct

/-! ## What a request does -/

/-- What a request does to the data of the server. -/
inductive Effect where
  | reads
  | writes
  | removes
  deriving DecidableEq

/-- The type of the query that a payload asks for. -/
def queryType : JsonText → Option Bytes
  | .of payload =>
    match payload.member? (bytes "query_type") with
    | some (.str type) => some type
    | _ => none
  | .malformed _ => none

namespace ClientRequest

/-- The path of a request. -/
def path : ClientRequest → Bytes
  | get path _ => path
  | head path _ => path
  | post path _ => path
  | put path _ => path
  | transfer request => request.path

/-- The effect of a request. A posted query has that of its type. -/
def effect : ClientRequest → Effect
  | get _ _ => .reads
  | head _ _ => .reads
  | post _ body =>
    if queryType body = some (bytes "QUERY") then .reads
    else if queryType body = some (bytes "REMOVE") then .removes
    else .writes
  | put _ _ => .writes
  | transfer (.delete _ _) => .removes
  | transfer _ => .writes

end ClientRequest

/-! ## Programs that stop at an error -/

/-- The last exchange of a program, if it has made one. -/
abbrev LastExchange := Option (ClientRequest × Result HttpAnswer)

/-- Only the given requests are sent, and after an error none but the exempted ones. The
exemptions depend on the request that has failed and on the code of its error. -/
def failFast (Sends : ClientRequest → Prop)
    (Exempt : ClientRequest → Int → ClientRequest → Prop) :
    Policy ClientRequest (Result HttpAnswer) LastExchange :=
  .after Sends fun q resp q' => resp.error.isError = true → Exempt q resp.error.code q'

/-- The last exchange was a success, if there was one. -/
def LastExchange.Succeeded (last : LastExchange) : Prop := ∀ x ∈ last, x.2.error.isError = false

/-- A result without an error says that the last exchange was a success. -/
def Reports {α : Type} (error : α → Error) (last : LastExchange) (a : α) : Prop :=
  (error a).isError = false → last.Succeeded

theorem succeeded_none : LastExchange.Succeeded none := by simp [LastExchange.Succeeded]

theorem succeeded_some {q : ClientRequest} {resp : Result HttpAnswer} :
    LastExchange.Succeeded (some (q, resp)) ↔ resp.error.isError = false := by
  simp [LastExchange.Succeeded]

namespace Http

variable {Sends : ClientRequest → Prop} {Exempt : ClientRequest → Int → ClientRequest → Prop}
  {last : LastExchange}

theorem allows_failFast {q : ClientRequest} (hq : Sends q) (hlast : last.Succeeded) :
    (failFast Sends Exempt).Allows last q := by
  refine ⟨hq, fun x hx herr => ?_⟩
  rw [hlast x hx] at herr
  cases herr

/-- The general rule: a request after a success. -/
theorem keeps_ask {α : Type} {Post : LastExchange → α → Prop} {q : ClientRequest}
    {next : Result HttpAnswer → Http α} (hq : Sends q) (hlast : last.Succeeded)
    (hnext : ∀ resp, (next resp).Keeps (failFast Sends Exempt) Post (some (q, resp))) :
    Dialogue.Keeps (failFast Sends Exempt) Post last (.ask q next) :=
  ⟨allows_failFast hq hlast, hnext⟩

/-- What is called returns a part of the response. -/
theorem keeps_called {α : Type} {q : ClientRequest} (hq : Sends q) (hlast : last.Succeeded)
    (part : HttpAnswer → α) :
    (call q part).Keeps (failFast Sends Exempt) (fun m ret => ∃ resp, m = some (q, resp) ∧
      ret = ⟨part resp.result, if resp.error.isError then resp.error else .kOk⟩) last :=
  keeps_ask hq hlast fun resp => ⟨resp, rfl, rfl⟩

theorem keeps_call {α : Type} {q : ClientRequest} (hq : Sends q) (hlast : last.Succeeded)
    (part : HttpAnswer → α) :
    (call q part).Keeps (failFast Sends Exempt) (Reports Result.error) last := by
  refine (keeps_called hq hlast part).mono ?_
  rintro _ _ ⟨resp, rfl, rfl⟩ herr
  rw [succeeded_some]
  exact (isError_passedOn resp.error).symm.trans herr

theorem keeps_put {path : Bytes} {body : JsonText} (hq : Sends (.put path body))
    (hlast : last.Succeeded) :
    (put path body).Keeps (failFast Sends Exempt) (Reports id) last :=
  keeps_ask hq hlast fun _ herr => succeeded_some.2 herr

theorem keeps_transfer {request : HttpRequest} (hq : Sends (.transfer request))
    (hlast : last.Succeeded) :
    (transfer request).Keeps (failFast Sends Exempt) (Reports id) last :=
  keeps_ask hq hlast fun _ herr => succeeded_some.2 herr

/-- What sends nothing leaves the policy where it is. -/
theorem keeps_ofExcept {μ α : Type} {P : Policy ClientRequest (Result HttpAnswer) μ} {m : μ}
    (x : Except Uncaught α) :
    Dialogue.Keeps P (fun m' _ => m' = m) m (.ofExcept x : Http α) :=
  Dialogue.keeps_ofExcept fun _ _ => rfl

theorem keeps_dump {μ : Type} {P : Policy ClientRequest (Result HttpAnswer) μ} {m : μ} (v : Json) :
    (dump v).Keeps P (fun m' text => m' = m ∧ text = .of v) m := by
  unfold dump
  cases htext : v.dump with
  | none => trivial
  | some text =>
    rw [Json.dump] at htext
    split at htext
    · cases htext
      exact ⟨rfl, rfl⟩
    · cases htext

/-- A call of the batch code sends one request at most. -/
theorem keeps_ofCall {α : Type} {call : HttpServer → Outcome α}
    (h : ∀ server, ∀ request ∈ (call server).sent,
      (failFast Sends Exempt).Allows last (.transfer request)) :
    (ofCall call).Keeps (failFast Sends Exempt) (fun _ _ => True) last := by
  unfold ofCall
  dsimp only
  split
  · exact (keeps_ofExcept _).mono fun _ _ _ => trivial
  · rename_i request rest hsent
    exact ⟨h _ request (hsent ▸ List.mem_cons_self), fun resp =>
      (keeps_ofExcept _).mono fun _ _ _ => trivial⟩

/-- What the policy accepts: the given requests only, and after a response that is not
accepted only what is exempted. -/
theorem accepts_failFast {sent : List (ClientRequest × HttpReply)}
    (h : (failFast Sends Exempt).Accepts receive none sent) :
    (∀ x ∈ sent, Sends x.1) ∧
      ∀ before x y rest, sent = before ++ x :: y :: rest →
        x.2.Accepted ∨ ∃ version resp stored, receive version x.2 = .ok (resp, stored) ∧
          Exempt x.1 resp.error.code y.1 := by
  refine ⟨h.first, fun before x y rest heq => ?_⟩
  obtain ⟨version, resp, stored, hreceive, hnext⟩ := h.chained before x y rest heq
  by_cases haccepted : x.2.Accepted
  · exact .inl haccepted
  · have herr : resp.error.isError = true := by
      rw [← Bool.not_eq_false, receive_isError hreceive]
      exact haccepted
    exact .inr ⟨version, resp, stored, hreceive, hnext herr⟩

end Http

end Reduct
