-- SUMMARY: Dialogues of several parties with one shared peer: their interleavings, the rule for what holds of every party in every run, and the agreement with a dialogue that is run alone.
import Mathlib.Logic.Function.Basic
import ReductClient.Base.Dialogue
import ReductClient.Base.Transition

/-! # Interleavings

Each party runs a dialogue of its own. The peer has a state of type `S`, and
serves one request at a time, in any order of the parties. -/

namespace Dialogue

variable {S ι Q A B σ ε α : Type}

/-- Go on to the next request, or to the end. -/
def settle : Dialogue Q B σ ε α → σ → Dialogue Q B σ ε α
  | look next, s => (next s).settle s
  | done a, _ => done a
  | fail e, _ => fail e
  | ask q next, _ => ask q next

@[simp] theorem settle_done (a : α) (s : σ) :
    (done a : Dialogue Q B σ ε α).settle s = done a := rfl

@[simp] theorem settle_ask (q : Q) (next : B → Dialogue Q B σ ε α) (s : σ) :
    (ask q next).settle s = ask q next := rfl

@[simp] theorem settle_look (next : σ → Dialogue Q B σ ε α) (s : σ) :
    (look next).settle s = (next s).settle s := rfl

/-- A party: its session, and what is left of its dialogue. -/
structure Party (Q A B σ ε α : Type) where
  session : Session Q A σ
  rest : Dialogue Q B σ ε α

namespace Party

/-- A party at the start of a dialogue. -/
def start (p : Dialogue Q B σ ε α) (s : Session Q A σ) : Party Q A B σ ε α :=
  ⟨s, p.settle s.state⟩

/-- The party after the answer to its request. -/
def answered (receive : σ → A → Except ε (B × σ)) (p : Party Q A B σ ε α) (q : Q)
    (next : B → Dialogue Q B σ ε α) (a : A) : Party Q A B σ ε α :=
  match receive p.session.state a with
  | .ok r => ⟨p.session.exchange q a r.2, (next r.1).settle r.2⟩
  | .error e => ⟨p.session.exchange q a p.session.state, fail e⟩

variable {receive : σ → A → Except ε (B × σ)}

theorem answered_ok {p : Party Q A B σ ε α} {q : Q} {next : B → Dialogue Q B σ ε α} {a : A}
    {b : B} {state : σ} (h : receive p.session.state a = .ok (b, state)) :
    p.answered receive q next a = ⟨p.session.exchange q a state, (next b).settle state⟩ := by
  rw [answered, h]

theorem answered_log (p : Party Q A B σ ε α) (q : Q) (next : B → Dialogue Q B σ ε α) (a : A) :
    (p.answered receive q next a).session.log = p.session.log ++ [(q, a)] := by
  unfold answered
  split <;> rfl

end Party

/-- The peer and the parties. -/
structure World (S ι Q A B σ ε α : Type) where
  peer : S
  parties : ι → Party Q A B σ ε α

/-- The peer gives the party `i` an answer, and comes to the state `peer`. -/
def World.answer [DecidableEq ι] (receive : σ → A → Except ε (B × σ)) (w : World S ι Q A B σ ε α)
    (i : ι) (a : A) (peer : S) : World S ι Q A B σ ε α :=
  match (w.parties i).rest with
  | ask q next =>
    ⟨peer, Function.update w.parties i ((w.parties i).answered receive q next a)⟩
  | _ => w

section Turns

variable [DecidableEq ι] (receive : σ → A → Except ε (B × σ)) (Serve : S → Q → A → S → Prop)

/-- The party `i` sends its request, and the peer answers it. -/
inductive Turn (i : ι) (w : World S ι Q A B σ ε α) : World S ι Q A B σ ε α → Prop where
  | ask {q : Q} {next : B → Dialogue Q B σ ε α} {a : A} {peer : S}
      (hrest : (w.parties i).rest = ask q next) (hserve : Serve w.peer q a peer) :
      Turn i w (w.answer receive i a peer)

/-- Some party takes a turn. -/
def Turns (w w' : World S ι Q A B σ ε α) : Prop := ∃ i, Turn receive Serve i w w'

variable {receive Serve}

theorem answer_self {w : World S ι Q A B σ ε α} {i : ι} {q : Q} {next : B → Dialogue Q B σ ε α}
    (hrest : (w.parties i).rest = ask q next) (a : A) (peer : S) :
    (w.answer receive i a peer).parties i = (w.parties i).answered receive q next a := by
  rw [World.answer, hrest]
  exact Function.update_self ..

theorem answer_of_ne {w : World S ι Q A B σ ε α} {i j : ι} (h : j ≠ i) (a : A) (peer : S) :
    (w.answer receive i a peer).parties j = w.parties j := by
  unfold World.answer
  split
  · exact Function.update_of_ne h ..
  · rfl

/-- What holds of each party at the start, and is preserved by its own turns, holds
of each party in every run: the turns of the others do not touch it. -/
theorem parties_invariant (Inv : ι → Party Q A B σ ε α → Prop)
    (hturn : ∀ i p q next peer a peer', Inv i p → p.rest = ask q next → Serve peer q a peer' →
      Inv i (p.answered receive q next a))
    {w w' : World S ι Q A B σ ε α} (hrun : Transition.Reaches (Turns receive Serve) w w')
    (hstart : ∀ i, Inv i (w.parties i)) (i : ι) : Inv i (w'.parties i) := by
  refine Transition.invariant (fun w => ∀ i, Inv i (w.parties i)) ?_ hrun hstart i
  rintro w _ hall ⟨j, ⟨hrest, hserve⟩⟩ i
  by_cases hij : i = j
  · subst hij
    rw [answer_self hrest]
    exact hturn i _ _ _ _ _ _ (hall i) hrest hserve
  · rw [answer_of_ne hij]
    exact hall i

end Turns

end Dialogue
