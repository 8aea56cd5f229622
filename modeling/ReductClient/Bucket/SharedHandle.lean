-- SUMMARY: A handle that several threads use at once: in every interleaving each call stays within its policy, and the client knows the version of the server.
import ReductClient.Base.Crew
import ReductClient.Bucket.Requests

open Cxx Dialogue

namespace Reduct

variable [StdSort] [JsonReader] {ι : Type} [DecidableEq ι]

/-! ## Calls at once

The `const` methods of a handle share its client, and threads may call them at the same
time. Each call is a thread here, which may start at any time, so that the calls of one
thread after another are among the interleavings. -/

/-- The calls in progress. -/
abbrev SharedCalls (ι : Type) :=
  Crew ι ClientRequest HttpReply (Result HttpAnswer) (Option Bytes) Uncaught (Option Error)

/-- The handle `b` with the client `s`, where the calls have not begun yet. -/
def SharedCalls.start (b : Bucket) (s : HttpSession) (methods : ι → ConstMethod) : SharedCalls ι :=
  Crew.start (fun i => (methods i).call b) s

/-- The calls come from one state to another in finitely many steps of theirs. -/
abbrev SharedCalls.Reaches (replies : Nat → HttpReply) : SharedCalls ι → SharedCalls ι → Prop :=
  Transition.Reaches (Crew.Step receive replies)

/-! ## Requests -/

/-- The requests of each call in progress, on a handle that has been used before, are
confined to the bucket, limited to the effect of the method, and stop at errors. -/
def SharedCalls.ConfinedLimitedStopping (name : Bytes) (replies : Nat → HttpReply)
    (s : HttpSession) (ops : List Operation) (methods : ι → ConstMethod) : Prop :=
  let handle := afterHistory replies (.build name) s ops
  let n := nameAfter name (history replies (.build name) s ops)
  ∀ w, SharedCalls.Reaches replies (.start handle.1 handle.2 methods) w →
    ∀ i sent, (w.threads i).Sends sent →
      ConfinedTo n sent ∧ LimitedTo (methods i).effect sent ∧
        StopsAtErrors n (.const (methods i)) sent

/-- In every interleaving each call stays within the bucket and within its effect, and
stops at errors, whatever the others do. -/
theorem sharedCalls_confinedLimitedStopping (name : Bytes) (replies : Nat → HttpReply)
    (s : HttpSession) (ops : List Operation) (methods : ι → ConstMethod) :
    SharedCalls.ConfinedLimitedStopping name replies s ops methods := by
  intro w hrun i sent hsent
  let handle := afterHistory replies (.build name) s ops
  let n := nameAfter name (history replies (.build name) s ops)
  have hkeeps : ∀ i, ((methods i).call handle.1).Keeps
      ((Bucket.build n).policy (methods i).effect (methods i).marks) (fun _ _ => True) none := by
    intro i
    rw [← policy_after]
    exact (methods i).keeps_call handle.1
  obtain ⟨hsends, hstops⟩ :=
    Bucket.accepts_policy ((Crew.keeps_reachable hkeeps hrun i).accepts hsent)
  exact ⟨fun x hx => (hsends x hx).1, fun x hx => (hsends x hx).2, hstops⟩

/-! ## The version -/

variable {v : ServerVersion} {built : Bool}

omit [StdSort] [JsonReader] in
/-- What the client has learned in any interleaving. -/
theorem learned_shared (server : ServerReplies v) {w w' : SharedCalls ι}
    (hrun : SharedCalls.Reaches server.reply w w') (h : v.Learned built w.session) :
    v.Learned built w'.session := by
  refine Crew.session_invariant (v.Learned built) ?_ ?_ hrun h
  · intro s q resp state hs hreceive
    exact learned_exchange server hs q hreceive
  · intro s q e _ herror
    obtain ⟨_, hstored⟩ := receive_version server s.log.length s.state
    cases herror.symm.trans hstored

omit [StdSort] [JsonReader] in
/-- `SupportsBatchProtocolV2` looks at what the client knows, and goes on at once. -/
theorem supports_look {s : HttpSession} (h : v.Learned built s) :
    ∃ next, Bucket.supportsBatchProtocolV2 = .look next ∧
      ∃ supports, (supports = true ↔ v.Supports built s) ∧ next s.state = .done supports := by
  obtain ⟨supports, hiff, hrun⟩ := run_supportsBatchProtocolV2 h fun _ => .failed []
  refine ⟨_, rfl, supports, hiff, ?_⟩
  simp only [Bucket.supportsBatchProtocolV2, Http.apiVersion, Dialogue.get, look_bind, done_bind,
    Http.run, run_look] at hrun
  cases hstate : s.state with
  | none =>
    rw [hstate] at hrun
    cases hrun
    rfl
  | some version =>
    rw [hstate] at hrun
    dsimp only [Http.isCompatible] at hrun
    cases hcompatible : uncaught (Reduct.isCompatible (bytes "1.18") version) with
    | error e =>
      rw [hcompatible] at hrun
      cases hrun
    | ok compatible =>
      rw [hcompatible] at hrun
      cases hrun
      change Dialogue.ofExcept (uncaught (Reduct.isCompatible (bytes "1.18") version)) = _
      rw [hcompatible]
      rfl

/-- A call on the handle that has not begun chooses the protocol by what the client has
learned until then, from the responses to all calls. -/
def ChoosesByLearned (v : ServerVersion) (built : Bool) (server : ServerReplies v) (name : Bytes)
    (ops : List Operation) (methods : ι → ConstMethod) : Prop :=
  let handle := afterHistory server.reply (.build name) (v.newSession built) ops
  ∀ w, SharedCalls.Reaches server.reply (.start handle.1 handle.2 methods) w →
    v.Learned built w.session ∧
      ∀ i versions, (methods i).versions handle.1 = some versions →
        (w.threads i).rest = (methods i).call handle.1 →
          ∃ next, (w.threads i).rest = .look next ∧
            (v.Supports built w.session → next w.session.state = versions.1) ∧
            (¬ v.Supports built w.session → next w.session.state = versions.2)

/-- In every interleaving the client knows the version of the server as soon as one of the
calls has been told it, and the calls that begin after that choose by it. -/
theorem choosesByLearned (v : ServerVersion) (built : Bool) (server : ServerReplies v)
    (name : Bytes) (ops : List Operation) (methods : ι → ConstMethod) :
    ChoosesByLearned v built server name ops methods := by
  intro w hrun
  have hlearned : v.Learned built w.session :=
    learned_shared server hrun (learned_afterHistory server _ ops)
  refine ⟨hlearned, fun i versions hversions hrest => ?_⟩
  obtain ⟨next, hlook, supports, hiff, hnext⟩ := supports_look hlearned
  rw [hrest, call_of_versions hversions, hlook, look_bind]
  refine ⟨_, rfl, fun hs => ?_, fun hs => ?_⟩
  · rw [hnext, hiff.2 hs]
    rfl
  · rw [hnext, Bool.eq_false_iff.2 fun h => hs (hiff.1 h)]
    rfl

end Reduct
