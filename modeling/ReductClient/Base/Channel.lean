-- SUMMARY: A deterministic process that receives from FIFO channels while a producer still fills them, and the independence of its run from the schedule.
import Mathlib.Logic.Function.Basic
import ReductClient.Base.Transition

open Transition

/-! # Processes on FIFO channels

A process is deterministic: its state says whether it stops, takes an internal
step, or receives the head of one channel. It may put items back in front of
the channel it received from. A producer appends a fixed script of items to
the channels. The scheduler decides when the producer and the process move.

What the process does depends on the items only, not on the schedule. The
`supply` of a channel is what it holds together with what the script will still
append to it, and a run against growing channels is, up to stuttering, the run
of the process alone on the supply. -/

namespace Channel

variable {ι : Type*} [DecidableEq ι] {β : ι → Type*} {σ : Type*}

/-- What a process does next. -/
inductive Action (β : ι → Type*) (σ : Type*) where
  | stop
  | step (s : σ)
  /-- Receive the head of channel `i`. The continuation gives the next state
  and the items that go back in front of the channel. -/
  | receive (i : ι) (k : β i → σ × List (β i))

/-- The contents of all channels. -/
abbrev Queues (β : ι → Type*) := (i : ι) → List (β i)

/-- A process state with the contents of the channels. -/
structure Config (β : ι → Type*) (σ : Type*) where
  state : σ
  queues : Queues β

variable {act : σ → Action β σ}

/-- One step of the process. A receive on an empty channel does not happen. -/
inductive Step (act : σ → Action β σ) : Config β σ → Config β σ → Prop where
  | internal {s s' : σ} {q : Queues β} (h : act s = .step s') : Step act ⟨s, q⟩ ⟨s', q⟩
  | receive {s : σ} {q : Queues β} {i : ι} {k : β i → σ × List (β i)} {b : β i}
      {rest : List (β i)} (h : act s = .receive i k) (hq : q i = b :: rest) :
      Step act ⟨s, q⟩ ⟨(k b).1, Function.update q i ((k b).2 ++ rest)⟩

/-- The step of a process as a function. -/
def next (act : σ → Action β σ) (c : Config β σ) : Option (Config β σ) :=
  match act c.state with
  | .stop => none
  | .step s => some ⟨s, c.queues⟩
  | .receive i k =>
    match c.queues i with
    | [] => none
    | b :: rest => some ⟨(k b).1, Function.update c.queues i ((k b).2 ++ rest)⟩

theorem step_of_next {c d : Config β σ} (h : next act c = some d) : Step act c d := by
  obtain ⟨s, q⟩ := c
  unfold next at h
  split at h
  · cases h
  · cases h; exact .internal ‹_›
  · split at h
    · cases h
    · cases h; exact .receive ‹_› ‹_›

theorem step_deterministic (act : σ → Action β σ) : Deterministic (Step act) := by
  intro c d e hd he
  cases hd with
  | internal h =>
    cases he with
    | internal h' => rw [h] at h'; cases h'; rfl
    | receive h' _ => rw [h] at h'; cases h'
  | receive h hq =>
    cases he with
    | internal h' => rw [h] at h'; cases h'
    | receive h' hq' =>
      rw [h] at h'; cases h'
      rw [hq] at hq'; cases hq'
      rfl

theorem stuck_of_stop {s : σ} {q : Queues β} (h : act s = .stop) : Stuck (Step act) ⟨s, q⟩ := by
  intro d hd
  cases hd with
  | internal h' => rw [h] at h'; cases h'
  | receive h' _ => rw [h] at h'; cases h'

theorem stuck_of_empty {s : σ} {q : Queues β} {i : ι} {k : β i → σ × List (β i)}
    (h : act s = .receive i k) (hq : q i = []) : Stuck (Step act) ⟨s, q⟩ := by
  intro d hd
  cases hd with
  | internal h' => rw [h] at h'; cases h'
  | receive h' hq' =>
    rw [h] at h'; cases h'
    rw [hq] at hq'; cases hq'

/-! ## The producer -/

/-- The items of a script that go to channel `i`. -/
def sentTo (i : ι) : List (Sigma β) → List (β i)
  | [] => []
  | ⟨j, b⟩ :: script => if h : j = i then h ▸ b :: sentTo i script else sentTo i script

@[simp] theorem sentTo_nil (i : ι) : sentTo i ([] : List (Sigma β)) = [] := rfl

@[simp] theorem sentTo_cons_self (i : ι) (b : β i) (script : List (Sigma β)) :
    sentTo i (⟨i, b⟩ :: script) = b :: sentTo i script := by
  simp [sentTo]

theorem sentTo_cons_ne {i j : ι} (hne : j ≠ i) (b : β j) (script : List (Sigma β)) :
    sentTo i (⟨j, b⟩ :: script) = sentTo i script := by
  simp [sentTo, hne]

@[simp] theorem sentTo_append (i : ι) (xs ys : List (Sigma β)) :
    sentTo i (xs ++ ys) = sentTo i xs ++ sentTo i ys := by
  induction xs with
  | nil => rfl
  | cons x xs ih =>
    obtain ⟨j, b⟩ := x
    by_cases h : j = i
    · subst h; simp [ih]
    · simp [sentTo_cons_ne h, ih]

/-- The script that sends the given items to channel `i`. -/
def sends (i : ι) (xs : List (β i)) : List (Sigma β) := xs.map (Sigma.mk i)

omit [DecidableEq ι] in
@[simp] theorem sends_nil (i : ι) : sends i ([] : List (β i)) = [] := rfl

omit [DecidableEq ι] in
@[simp] theorem sends_cons (i : ι) (x : β i) (xs : List (β i)) :
    sends i (x :: xs) = ⟨i, x⟩ :: sends i xs := rfl

@[simp] theorem sentTo_sends_self (i : ι) (xs : List (β i)) : sentTo i (sends i xs) = xs := by
  induction xs with
  | nil => rfl
  | cons x xs ih => simp [ih]

theorem sentTo_sends_ne {i j : ι} (hne : j ≠ i) (xs : List (β j)) :
    sentTo i (sends j xs) = [] := by
  induction xs with
  | nil => rfl
  | cons x xs ih => simp [sentTo_cons_ne hne, ih]

/-- Append one item to its channel. -/
def push (q : Queues β) (x : Sigma β) : Queues β :=
  Function.update q x.1 (q x.1 ++ [x.2])

@[simp] theorem push_self (q : Queues β) (i : ι) (b : β i) : push q ⟨i, b⟩ i = q i ++ [b] := by
  simp [push]

theorem push_ne (q : Queues β) {i j : ι} (hne : i ≠ j) (b : β j) : push q ⟨j, b⟩ i = q i := by
  simp [push, Function.update_of_ne hne]

/-- What the channels hold together with what the script will append to them. -/
def supply (q : Queues β) (script : List (Sigma β)) : Queues β :=
  fun i => q i ++ sentTo i script

@[simp] theorem supply_nil (q : Queues β) : supply q [] = q := by
  funext i; simp [supply]

/-- Appending the next item of the script leaves the supply as it is. -/
@[simp] theorem supply_cons (q : Queues β) (x : Sigma β) (script : List (Sigma β)) :
    supply q (x :: script) = supply (push q x) script := by
  obtain ⟨j, b⟩ := x
  funext i
  by_cases h : i = j
  · subst h; simp [supply]
  · simp [supply, push_ne q h, sentTo_cons_ne (Ne.symm h)]

/-- A step against the current contents is a step against the supply. -/
theorem step_supply {c d : Config β σ} (script : List (Sigma β)) (h : Step act c d) :
    Step act ⟨c.state, supply c.queues script⟩ ⟨d.state, supply d.queues script⟩ := by
  cases h with
  | internal h => exact .internal h
  | @receive s q i k b rest h hq =>
    have hs : supply q script i = b :: (rest ++ sentTo i script) := by simp [supply, hq]
    have hstep := Step.receive h hs
    have hupd : supply (Function.update q i ((k b).2 ++ rest)) script =
        Function.update (supply q script) i ((k b).2 ++ (rest ++ sentTo i script)) := by
      funext j
      by_cases hj : j = i
      · subst hj; simp [supply]
      · simp [supply, Function.update_of_ne hj]
    simpa only [hupd] using hstep

end Channel
