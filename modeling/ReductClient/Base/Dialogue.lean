-- SUMMARY: Programs that exchange requests for answers with a peer: their runs against any sequence of answers, and the rules for what holds across a run.
import Mathlib.Order.Basic

/-! # Dialogues

A dialogue sends requests of type `Q` to a peer and goes on with replies of type
`B`. It may look at the state `σ` of the party that sends the requests for it,
and it may fail with an error of type `ε`. -/

inductive Dialogue (Q B σ ε α : Type) where
  | done (a : α)
  | fail (e : ε)
  | ask (q : Q) (next : B → Dialogue Q B σ ε α)
  | look (next : σ → Dialogue Q B σ ε α)

namespace Dialogue

variable {Q A B σ ε α β : Type}

/-- One dialogue after the other. -/
def bind (p : Dialogue Q B σ ε α) (f : α → Dialogue Q B σ ε β) : Dialogue Q B σ ε β :=
  match p with
  | done a => f a
  | fail e => fail e
  | ask q next => ask q fun b => (next b).bind f
  | look next => look fun s => (next s).bind f

instance : Monad (Dialogue Q B σ ε) where
  pure := done
  bind := bind

@[simp] theorem done_bind (a : α) (f : α → Dialogue Q B σ ε β) : (done a >>= f) = f a := rfl

@[simp] theorem pure_eq_done (a : α) : (pure a : Dialogue Q B σ ε α) = done a := rfl

@[simp] theorem fail_bind (e : ε) (f : α → Dialogue Q B σ ε β) : (fail e >>= f) = fail e := rfl

@[simp] theorem ask_bind (q : Q) (next : B → Dialogue Q B σ ε α) (f : α → Dialogue Q B σ ε β) :
    (ask q next >>= f) = ask q fun b => next b >>= f := rfl

@[simp] theorem look_bind (next : σ → Dialogue Q B σ ε α) (f : α → Dialogue Q B σ ε β) :
    (look next >>= f) = look fun s => next s >>= f := rfl

theorem bind_assoc {γ : Type} (p : Dialogue Q B σ ε α) (f : α → Dialogue Q B σ ε β)
    (g : β → Dialogue Q B σ ε γ) : (p >>= f) >>= g = p >>= fun a => f a >>= g := by
  induction p with
  | done a => rfl
  | fail e => rfl
  | ask q next ih => exact congrArg (ask q) (funext ih)
  | look next ih => exact congrArg look (funext ih)

theorem bind_pure (p : Dialogue Q B σ ε α) : p >>= pure = p := by
  induction p with
  | done a => rfl
  | fail e => rfl
  | ask q next ih => exact congrArg (ask q) (funext ih)
  | look next ih => exact congrArg look (funext ih)

/-- Send a request. -/
def send (q : Q) : Dialogue Q B σ ε B := ask q done

/-- Look at the state. -/
def get : Dialogue Q B σ ε σ := look done

/-- A computation that sends nothing. -/
def ofExcept (x : Except ε α) : Dialogue Q B σ ε α :=
  match x with
  | .ok a => done a
  | .error e => fail e

@[simp] theorem ofExcept_ok (a : α) : (ofExcept (.ok a) : Dialogue Q B σ ε α) = done a := rfl

@[simp] theorem ofExcept_error (e : ε) :
    (ofExcept (.error e) : Dialogue Q B σ ε α) = fail e := rfl

/-! ## Runs -/

end Dialogue

/-- The party that sends the requests: its state, and the requests sent so far
with the answers to them. -/
structure Session (Q A σ : Type) where
  state : σ
  log : List (Q × A) := []

namespace Session

variable {Q A σ : Type}

/-- The session after one more exchange. -/
def exchange (s : Session Q A σ) (q : Q) (a : A) (state : σ) : Session Q A σ :=
  ⟨state, s.log ++ [(q, a)]⟩

@[simp] theorem exchange_state (s : Session Q A σ) (q : Q) (a : A) (state : σ) :
    (s.exchange q a state).state = state := rfl

@[simp] theorem exchange_log (s : Session Q A σ) (q : Q) (a : A) (state : σ) :
    (s.exchange q a state).log = s.log ++ [(q, a)] := rfl

end Session

namespace Dialogue

variable {Q A B σ ε α β : Type}

/-- Run a dialogue against a sequence of answers. The n-th request of a session
gets the n-th answer, and `receive` makes of it what the dialogue gets to see. -/
def run (receive : σ → A → Except ε (B × σ)) (answers : Nat → A) :
    Dialogue Q B σ ε α → Session Q A σ → Session Q A σ × Except ε α
  | done a, s => (s, .ok a)
  | fail e, s => (s, .error e)
  | ask q next, s =>
    match receive s.state (answers s.log.length) with
    | .error e => (s.exchange q (answers s.log.length) s.state, .error e)
    | .ok r => run receive answers (next r.1) (s.exchange q (answers s.log.length) r.2)
  | look next, s => run receive answers (next s.state) s

section Run

variable {receive : σ → A → Except ε (B × σ)} {answers : Nat → A} {s : Session Q A σ}

@[simp] theorem run_done (a : α) : run receive answers (done a) s = (s, .ok a) := rfl

@[simp] theorem run_fail (e : ε) :
    run receive answers (fail e : Dialogue Q B σ ε α) s = (s, .error e) := rfl

@[simp] theorem run_look (next : σ → Dialogue Q B σ ε α) :
    run receive answers (look next) s = run receive answers (next s.state) s := rfl

theorem run_ask_ok {q : Q} {next : B → Dialogue Q B σ ε α} {b : B} {state : σ}
    (h : receive s.state (answers s.log.length) = .ok (b, state)) :
    run receive answers (ask q next) s =
      run receive answers (next b) (s.exchange q (answers s.log.length) state) := by
  simp only [run, h]

theorem run_ask_error {q : Q} {next : B → Dialogue Q B σ ε α} {e : ε}
    (h : receive s.state (answers s.log.length) = .error e) :
    run receive answers (ask q next) s =
      (s.exchange q (answers s.log.length) s.state, .error e) := by
  simp only [run, h]

/-- A dialogue in sequence is run part by part. -/
theorem run_bind (p : Dialogue Q B σ ε α) (f : α → Dialogue Q B σ ε β) (s : Session Q A σ) :
    run receive answers (p >>= f) s =
      match run receive answers p s with
      | (s', .ok a) => run receive answers (f a) s'
      | (s', .error e) => (s', .error e) := by
  induction p generalizing s with
  | done a => rfl
  | fail e => rfl
  | look next ih => exact ih s.state s
  | ask q next ih =>
    rw [ask_bind]
    cases h : receive s.state (answers s.log.length) with
    | error e => rw [run_ask_error h, run_ask_error h]
    | ok r =>
      rw [run_ask_ok h, run_ask_ok h]
      exact ih r.1 _

theorem run_bind_ok {p : Dialogue Q B σ ε α} {f : α → Dialogue Q B σ ε β} {s s' : Session Q A σ}
    {a : α} (h : run receive answers p s = (s', .ok a)) :
    run receive answers (p >>= f) s = run receive answers (f a) s' := by
  rw [run_bind, h]

/-- What is made of the result does not change the exchanges. -/
theorem run_map_session (p : Dialogue Q B σ ε α) (f : α → β) (s : Session Q A σ) :
    (run receive answers (p >>= fun a => pure (f a)) s).1 = (run receive answers p s).1 := by
  rw [run_bind]
  rcases run receive answers p s with ⟨s', _ | a⟩ <;> rfl

/-- The last request of a dialogue is its last exchange. -/
theorem run_ask_log {q : Q} {next : B → Dialogue Q B σ ε α}
    (hnext : ∀ b s', (run receive answers (next b) s').1.log = s'.log) (s : Session Q A σ) :
    (run receive answers (ask q next) s).1.log = s.log ++ [(q, answers s.log.length)] := by
  cases h : receive s.state (answers s.log.length) with
  | error e =>
    rw [run_ask_error h]
    rfl
  | ok r =>
    rw [run_ask_ok h, hnext]
    rfl

/-- What each exchange preserves holds across a run, however it ends. -/
theorem run_invariant (Inv : Session Q A σ → Prop)
    (hok : ∀ s q b state, Inv s → receive s.state (answers s.log.length) = .ok (b, state) →
      Inv (s.exchange q (answers s.log.length) state))
    (herror : ∀ s q e, Inv s → receive s.state (answers s.log.length) = .error e →
      Inv (s.exchange q (answers s.log.length) s.state))
    (p : Dialogue Q B σ ε α) {s : Session Q A σ} (hs : Inv s) :
    Inv (run receive answers p s).1 := by
  induction p generalizing s with
  | done a => exact hs
  | fail e => exact hs
  | look next ih => exact ih s.state hs
  | ask q next ih =>
    cases h : receive s.state (answers s.log.length) with
    | error e =>
      rw [run_ask_error h]
      exact herror s q e hs h
    | ok r =>
      rw [run_ask_ok h]
      exact ih r.1 (hok s q r.1 r.2 hs h)

/-- The exchanges of a session are never taken back. -/
theorem log_isPrefix_run (p : Dialogue Q B σ ε α) (s : Session Q A σ) :
    s.log <+: (run receive answers p s).1.log :=
  run_invariant (fun s' => s.log <+: s'.log)
    (fun _ _ _ _ h _ => h.trans (List.prefix_append _ _))
    (fun _ _ _ h _ => h.trans (List.prefix_append _ _)) p (List.prefix_refl _)

/-- A dialogue that starts with a request makes at least one exchange. -/
theorem length_lt_run_ask (q : Q) (next : B → Dialogue Q B σ ε α) (s : Session Q A σ) :
    s.log.length < (run receive answers (ask q next) s).1.log.length := by
  have hone : ∀ state, (s.exchange q (answers s.log.length) state).log.length = s.log.length + 1 :=
    fun state => by simp
  cases h : receive s.state (answers s.log.length) with
  | error e =>
    rw [run_ask_error h, hone]
    exact Nat.lt_succ_self _
  | ok r =>
    rw [run_ask_ok h]
    refine Nat.lt_of_lt_of_le ?_ (log_isPrefix_run (next r.1) _).length_le
    rw [hone]
    exact Nat.lt_succ_self _

end Run

end Dialogue
