-- SUMMARY: Policies for dialogues: which requests a program may send after the answers it has got, the rules for programs in sequence, and what they say about runs.
import Mathlib.Data.List.Basic
import ReductClient.Base.Dialogue

/-! # Policies

A policy watches a dialogue. In each of its states it allows some of the requests,
and an answer takes it to another state. -/

structure Policy (Q B μ : Type) where
  Allows : μ → Q → Prop
  next : μ → Q → B → μ

namespace Dialogue

variable {Q A B σ ε α β μ : Type} {P : Policy Q B μ}

/-- From a state of the policy, the dialogue sends only what is allowed, whatever it
gets to see, and what it returns goes with the state it leaves. -/
def Keeps (P : Policy Q B μ) (Post : μ → α → Prop) : μ → Dialogue Q B σ ε α → Prop
  | m, done a => Post m a
  | _, fail _ => True
  | m, ask q next => P.Allows m q ∧ ∀ b, Keeps P Post (P.next m q b) (next b)
  | m, look next => ∀ s, Keeps P Post m (next s)

section Rules

variable {Post Post' : μ → α → Prop} {m : μ} {p : Dialogue Q B σ ε α}

theorem Keeps.mono (h : ∀ m a, Post m a → Post' m a) (hp : p.Keeps P Post m) :
    p.Keeps P Post' m := by
  induction p generalizing m with
  | done a => exact h m a hp
  | fail e => trivial
  | ask q next ih => exact ⟨hp.1, fun b => ih b (hp.2 b)⟩
  | look next ih => exact fun s => ih s (hp s)

/-- Dialogues in sequence: the second one starts where the first one has left the policy. -/
theorem Keeps.bind {Mid : μ → α → Prop} {Post : μ → β → Prop} {f : α → Dialogue Q B σ ε β}
    (hp : p.Keeps P Mid m) (hf : ∀ m a, Mid m a → (f a).Keeps P Post m) :
    (p >>= f).Keeps P Post m := by
  induction p generalizing m with
  | done a => exact hf m a hp
  | fail e => trivial
  | ask q next ih => exact ⟨hp.1, fun b => ih b (hp.2 b)⟩
  | look next ih => exact fun s => ih s (hp s)

theorem keeps_ofExcept {x : Except ε α} (h : ∀ a, x = .ok a → Post m a) :
    (ofExcept x : Dialogue Q B σ ε α).Keeps P Post m := by
  cases x with
  | ok a => exact h a rfl
  | error e => trivial

end Rules

end Dialogue

/-! ## Runs under a policy -/

namespace Policy

variable {Q A B σ ε μ : Type}

/-- The policy allows each of the exchanges after the ones before it, and they take it from
one state to another. -/
inductive Follows (P : Policy Q B μ) (receive : σ → A → Except ε (B × σ)) (m : μ) :
    List (Q × A) → μ → Prop where
  | nil : Follows P receive m [] m
  | concat {m' : μ} {s s' : σ} {q : Q} {a : A} {b : B} {sent : List (Q × A)}
      (hsent : Follows P receive m sent m') (hq : P.Allows m' q)
      (hreceive : receive s a = .ok (b, s')) :
      Follows P receive m (sent ++ [(q, a)]) (P.next m' q b)

/-- The policy allows the exchanges. An answer that cannot be received is the last one. -/
inductive Accepts (P : Policy Q B μ) (receive : σ → A → Except ε (B × σ)) (m : μ) :
    List (Q × A) → Prop where
  | received {m' : μ} {sent : List (Q × A)} (hsent : Follows P receive m sent m') :
      Accepts P receive m sent
  | lost {m' : μ} {q : Q} {a : A} {sent : List (Q × A)} (hsent : Follows P receive m sent m')
      (hq : P.Allows m' q) : Accepts P receive m (sent ++ [(q, a)])

end Policy

namespace Dialogue

variable {Q A B σ ε α μ : Type} {P : Policy Q B μ}

/-- What a run of a dialogue sends is accepted by the policies it keeps, after what has been
sent before. -/
theorem Keeps.accepts_after {Post : μ → α → Prop} {m m' : μ} {p : Dialogue Q B σ ε α}
    (h : p.Keeps P Post m') {receive : σ → A → Except ε (B × σ)} {past : List (Q × A)}
    (hpast : P.Follows receive m past m') (answers : Nat → A) (s : Session Q A σ) :
    ∃ sent, (run receive answers p s).1.log = s.log ++ sent ∧
      P.Accepts receive m (past ++ sent) := by
  induction p generalizing m' s past with
  | done a => exact ⟨[], (List.append_nil _).symm, .received (by rwa [List.append_nil])⟩
  | fail e => exact ⟨[], (List.append_nil _).symm, .received (by rwa [List.append_nil])⟩
  | look next ih => exact ih s.state (h s.state) hpast s
  | ask q next ih =>
    cases hreceive : receive s.state (answers s.log.length) with
    | error e =>
      rw [run_ask_error hreceive]
      exact ⟨_, rfl, .lost hpast h.1⟩
    | ok r =>
      obtain ⟨sent, hlog, hsent⟩ := ih r.1 (h.2 r.1) (hpast.concat h.1 hreceive)
        (s.exchange q (answers s.log.length) r.2)
      rw [run_ask_ok hreceive, hlog, Session.exchange_log, List.append_assoc]
      exact ⟨_, rfl, by rwa [← List.append_assoc]⟩

/-- What a run of a dialogue sends is accepted by the policies it keeps. -/
theorem Keeps.accepts_run {Post : μ → α → Prop} {m : μ} {p : Dialogue Q B σ ε α}
    (h : p.Keeps P Post m) (receive : σ → A → Except ε (B × σ)) (answers : Nat → A)
    (s : Session Q A σ) :
    ∃ sent, (run receive answers p s).1.log = s.log ++ sent ∧ P.Accepts receive m sent :=
  h.accepts_after .nil answers s

end Dialogue

/-! ## What may be sent after an exchange -/

namespace Policy

variable {Q A B σ ε : Type}

/-- Some requests are allowed, and after an exchange only some of these. -/
def after (First : Q → Prop) (Next : Q → B → Q → Prop) : Policy Q B (Option (Q × B)) where
  Allows last q := First q ∧ ∀ x ∈ last, Next x.1 x.2 q
  next _ q b := some (q, b)

variable {First : Q → Prop} {Next : Q → B → Q → Prop} {receive : σ → A → Except ε (B × σ)}
  {m m' : Option (Q × B)} {sent : List (Q × A)}

theorem Follows.first (h : (after First Next).Follows receive m sent m') :
    ∀ x ∈ sent, First x.1 := by
  induction h with
  | nil => simp
  | concat _ hq _ ih => exact List.forall_mem_append.2 ⟨ih, List.forall_mem_singleton.2 hq.1⟩

/-- The state of the policy is the last exchange, as it was received. -/
theorem Follows.last (h : (after First Next).Follows receive m sent m') {x : Q × A}
    {before : List (Q × A)} (hsent : sent = before ++ [x]) :
    ∃ s b s', receive s x.2 = .ok (b, s') ∧ m' = some (x.1, b) := by
  cases h with
  | nil => simp at hsent
  | concat _ _ hreceive =>
    obtain ⟨-, hx⟩ := List.append_inj' hsent rfl
    cases hx
    exact ⟨_, _, _, hreceive, rfl⟩

/-- Each exchange but the last one has been received, and allows the next one. -/
def Chained (Next : Q → B → Q → Prop) (receive : σ → A → Except ε (B × σ))
    (sent : List (Q × A)) : Prop :=
  ∀ before x y rest, sent = before ++ x :: y :: rest →
    ∃ s b s', receive s x.2 = .ok (b, s') ∧ Next x.1 b y.1

theorem Follows.chained_concat (h : (after First Next).Follows receive m sent m')
    (hchained : Chained Next receive sent) {q : Q} (hq : (after First Next).Allows m' q) (a : A) :
    Chained Next receive (sent ++ [(q, a)]) := by
  intro before x y rest heq
  rcases List.eq_nil_or_concat' rest with rfl | ⟨rest, z, rfl⟩
  · obtain ⟨hbefore, hy⟩ := List.append_inj' (heq.trans (List.append_cons before x [y])) rfl
    cases hy
    obtain ⟨s, b, s', hx, rfl⟩ := h.last hbefore
    exact ⟨s, b, s', hx, hq.2 _ rfl⟩
  · have hconcat : before ++ x :: y :: (rest ++ [z]) = (before ++ x :: y :: rest) ++ [z] := by simp
    exact hchained _ _ _ _ (List.append_inj' (heq.trans hconcat) rfl).1

theorem Follows.chained (h : (after First Next).Follows receive m sent m') :
    Chained Next receive sent := by
  induction h with
  | nil =>
    intro before x y rest heq
    simp at heq
  | concat hsent hq _ ih => exact hsent.chained_concat ih hq _

theorem Accepts.first (h : (after First Next).Accepts receive m sent) : ∀ x ∈ sent, First x.1 := by
  cases h with
  | received hsent => exact hsent.first
  | lost hsent hq => exact List.forall_mem_append.2 ⟨hsent.first, List.forall_mem_singleton.2 hq.1⟩

theorem Accepts.chained (h : (after First Next).Accepts receive m sent) :
    Chained Next receive sent := by
  cases h with
  | received hsent => exact hsent.chained
  | lost hsent hq => exact hsent.chained_concat hsent.chained hq _

end Policy
