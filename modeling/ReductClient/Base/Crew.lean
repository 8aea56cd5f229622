-- SUMMARY: Threads that share the state of one party: their interleavings, what exchanges preserve, and that each thread keeps its policy in every run.
import Mathlib.Logic.Function.Basic
import ReductClient.Base.Policy
import ReductClient.Base.Transition

/-! # Crews

Each thread of a crew runs a dialogue of its own, and all share the state of the party.
While a thread waits for its answer the others go on, so the state may be another one when
the answer is received. -/

namespace Dialogue

variable {ι Q A B σ ε α μ : Type}

/-- A thread: what is left of its dialogue, and its exchanges so far. -/
structure Thread (Q A B σ ε α : Type) where
  rest : Dialogue Q B σ ε α
  log : List (Q × A) := []

/-- The threads with the state they share and the exchanges of all. -/
structure Crew (ι Q A B σ ε α : Type) where
  session : Session Q A σ
  threads : ι → Thread Q A B σ ε α

/-- Threads at the start of their dialogues. -/
def Crew.start (programs : ι → Dialogue Q B σ ε α) (s : Session Q A σ) : Crew ι Q A B σ ε α :=
  ⟨s, fun i => { rest := programs i }⟩

/-- A thread looks at the state, or receives the answer to the request it has sent. -/
inductive Crew.Step [DecidableEq ι] (receive : σ → A → Except ε (B × σ)) (answers : Nat → A)
    (w : Crew ι Q A B σ ε α) : Crew ι Q A B σ ε α → Prop where
  | look {i : ι} {next : σ → Dialogue Q B σ ε α} (hrest : (w.threads i).rest = .look next) :
      Step receive answers w ⟨w.session,
        Function.update w.threads i ⟨next w.session.state, (w.threads i).log⟩⟩
  | receive {i : ι} {q : Q} {next : B → Dialogue Q B σ ε α} {b : B} {state : σ}
      (hrest : (w.threads i).rest = .ask q next)
      (hreceive : receive w.session.state (answers w.session.log.length) = .ok (b, state)) :
      Step receive answers w ⟨w.session.exchange q (answers w.session.log.length) state,
        Function.update w.threads i
          ⟨next b, (w.threads i).log ++ [(q, answers w.session.log.length)]⟩⟩
  | lose {i : ι} {q : Q} {next : B → Dialogue Q B σ ε α} {e : ε}
      (hrest : (w.threads i).rest = .ask q next)
      (hreceive : receive w.session.state (answers w.session.log.length) = .error e) :
      Step receive answers w ⟨w.session.exchange q (answers w.session.log.length) w.session.state,
        Function.update w.threads i
          ⟨.fail e, (w.threads i).log ++ [(q, answers w.session.log.length)]⟩⟩

/-- What a thread has sent: its exchanges, and the request it waits with, whatever will be
the answer to it. -/
inductive Thread.Sends (t : Thread Q A B σ ε α) : List (Q × A) → Prop where
  | received : t.Sends t.log
  | waits {q : Q} {next : B → Dialogue Q B σ ε α} (hrest : t.rest = .ask q next) (a : A) :
      t.Sends (t.log ++ [(q, a)])

/-- A thread has kept its policy, and what is left of it keeps it too. -/
inductive Thread.Keeps (P : Policy Q B μ) (Post : μ → α → Prop)
    (receive : σ → A → Except ε (B × σ)) (m : μ) (t : Thread Q A B σ ε α) : Prop where
  | goesOn {m' : μ} (hlog : P.Follows receive m t.log m') (hrest : t.rest.Keeps P Post m')
  | failed {e : ε} (hlog : P.Accepts receive m t.log) (hrest : t.rest = .fail e)

variable {receive : σ → A → Except ε (B × σ)} {answers : Nat → A} {P : Policy Q B μ}
  {Post : μ → α → Prop} {m : μ}

/-- The request that a thread waits with is allowed after its exchanges. -/
theorem Thread.Keeps.waits {t : Thread Q A B σ ε α} (h : t.Keeps P Post receive m) {q : Q}
    {next : B → Dialogue Q B σ ε α} (hrest : t.rest = .ask q next) (a : A) :
    P.Accepts receive m (t.log ++ [(q, a)]) := by
  cases h with
  | goesOn hlog hkeeps =>
    rw [hrest] at hkeeps
    exact .lost hlog hkeeps.1
  | failed _ hfail =>
    rw [hrest] at hfail
    cases hfail

theorem Thread.Keeps.accepts {t : Thread Q A B σ ε α} (h : t.Keeps P Post receive m)
    {sent : List (Q × A)} (hsent : t.Sends sent) : P.Accepts receive m sent := by
  cases hsent with
  | waits hrest a => exact h.waits hrest a
  | received =>
    cases h with
    | goesOn hlog => exact .received hlog
    | failed hlog => exact hlog

section Runs

variable [DecidableEq ι] {w w' : Crew ι Q A B σ ε α}

/-- What each exchange preserves holds of the shared state in every run. -/
theorem Crew.session_invariant (Inv : Session Q A σ → Prop)
    (hok : ∀ s q b state, Inv s → receive s.state (answers s.log.length) = .ok (b, state) →
      Inv (s.exchange q (answers s.log.length) state))
    (herror : ∀ s q e, Inv s → receive s.state (answers s.log.length) = .error e →
      Inv (s.exchange q (answers s.log.length) s.state))
    (hrun : Transition.Reaches (Crew.Step receive answers) w w') (hstart : Inv w.session) :
    Inv w'.session := by
  refine Transition.invariant (fun w => Inv w.session) ?_ hrun hstart
  rintro w _ hw (_ | ⟨_, hreceive⟩ | ⟨_, hreceive⟩)
  · exact hw
  · exact hok _ _ _ _ hw hreceive
  · exact herror _ _ _ hw hreceive

/-- A step of another thread does not touch what a thread keeps. -/
theorem Crew.keeps_update {i j : ι} {t : Thread Q A B σ ε α}
    (h : (w.threads i).Keeps P Post receive m)
    (hself : (w.threads j).Keeps P Post receive m → t.Keeps P Post receive m) :
    (Function.update w.threads j t i).Keeps P Post receive m := by
  by_cases hij : i = j
  · subst hij
    rw [Function.update_self]
    exact hself h
  · rw [Function.update_of_ne hij]
    exact h

/-- What one thread keeps is preserved by the steps of all. -/
theorem Crew.keeps_step {i : ι} (hstep : Crew.Step receive answers w w')
    (h : (w.threads i).Keeps P Post receive m) : (w'.threads i).Keeps P Post receive m := by
  cases hstep with
  | look hrest =>
    refine Crew.keeps_update h ?_
    rintro (⟨hlog, hkeeps⟩ | ⟨hlog, hfail⟩)
    · rw [hrest] at hkeeps
      exact .goesOn hlog (hkeeps _)
    · rw [hrest] at hfail
      cases hfail
  | receive hrest hreceive =>
    refine Crew.keeps_update h ?_
    rintro (⟨hlog, hkeeps⟩ | ⟨hlog, hfail⟩)
    · rw [hrest] at hkeeps
      exact .goesOn (hlog.concat hkeeps.1 hreceive) (hkeeps.2 _)
    · rw [hrest] at hfail
      cases hfail
  | lose hrest hreceive => exact Crew.keeps_update h fun hj => .failed (hj.waits hrest _) rfl

/-- Each thread keeps its policy in every run. -/
theorem Crew.keeps_reachable {P : ι → Policy Q B μ} {Post : μ → α → Prop} {m : μ}
    {programs : ι → Dialogue Q B σ ε α} (h : ∀ i, (programs i).Keeps (P i) Post m)
    {s : Session Q A σ}
    (hrun : Transition.Reaches (Crew.Step receive answers) (.start programs s) w) (i : ι) :
    (w.threads i).Keeps (P i) Post receive m :=
  Transition.invariant (fun w : Crew ι Q A B σ ε α => (w.threads i).Keeps (P i) Post receive m)
    (fun _ _ hw hstep => Crew.keeps_step hstep hw) hrun (.goesOn .nil (h i))

end Runs

end Dialogue
