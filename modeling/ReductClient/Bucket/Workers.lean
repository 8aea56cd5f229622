-- SUMMARY: Several bucket handles with a worker each, record callbacks that call `Read` and `Query` on any of them, and the waits among the workers.
import Mathlib.Logic.Function.Basic
import Mathlib.Data.List.Chain
import Mathlib.Data.Finset.Card
import ReductClient.Base.Transition

open Transition

namespace Reduct

namespace Workers

variable {H : Type} [DecidableEq H]

/-! ## Threads and calls

What a call does is seen here only as far as it concerns other threads: a
transfer queues any number of tasks at the handle and then fails or goes on to
wait for the last one, and a record callback makes any number of calls. -/

/-- The worker of a handle, or a thread of the application. -/
inductive Thread (H : Type) where
  | worker (h : H)
  | application (n : Nat)
  deriving DecidableEq

/-- `Bucket::IsCallbackWorkerThread` of a handle. -/
def isCallbackWorkerThread (thread : Thread H) (h : H) : Bool := decide (thread = .worker h)

/-- What a thread is in the middle of. -/
inductive Frame (H : Type) where
  /-- A record callback, with the task that called it unless it runs inline. -/
  | callback (task : Option Nat)
  /-- `ReadRecord` during the transfer, with the last future. -/
  | reading (h : H) (future : Option Nat)
  /-- `ReadRecord` in `future.wait()`. -/
  | waiting (h : H) (future : Nat)
  /-- `ReadRecord` on the worker thread of the handle. -/
  | inlined (h : H)

/-- The frames of each thread, innermost first, the task queues of the handles,
the next task, and the tasks whose futures are ready. -/
structure State (H : Type) where
  stack : Thread H → List (Frame H)
  queue : H → List Nat
  next : Nat
  ready : List Nat

namespace State

/-- No call has been made. -/
def initial : State H := ⟨fun _ => [], fun _ => [], 0, []⟩

def setStack (s : State H) (t : Thread H) (frames : List (Frame H)) : State H :=
  { s with stack := Function.update s.stack t frames }

@[simp] theorem setStack_self (s : State H) (t : Thread H) (frames : List (Frame H)) :
    (s.setStack t frames).stack t = frames := by
  simp [setStack]

theorem setStack_ne (s : State H) {t u : Thread H} (h : u ≠ t) (frames : List (Frame H)) :
    (s.setStack t frames).stack u = s.stack u := by
  simp [setStack, h]

/-- The thread runs code that can call the client: its own, or a callback's. -/
def CanCall (s : State H) : Thread H → Prop
  | .worker h => ∃ task rest, s.stack (.worker h) = .callback task :: rest
  | .application n => s.stack (.application n) = []

/-- The first frame of a `Read` or `Query` call. -/
def entryFrame (t : Thread H) (h : H) : Frame H :=
  if isCallbackWorkerThread t h then .inlined h else .reading h none

end State

/-- A step of one thread. A callback on the worker of `w` calls another handle
`h` only if `Nests w h`. -/
inductive Step (Nests : H → H → Prop) : State H → State H → Prop where
  | call {s : State H} {t : Thread H} {h : H} (hcan : s.CanCall t)
      (hnests : ∀ w, t = .worker w → w ≠ h → Nests w h) :
    Step Nests s (s.setStack t (State.entryFrame t h :: s.stack t))
  | enqueue {s : State H} {t : Thread H} {h : H} {future : Option Nat} {rest : List (Frame H)}
      (hs : s.stack t = .reading h future :: rest) :
    Step Nests s
      { s.setStack t (.reading h (some s.next) :: rest) with
        queue := Function.update s.queue h (s.queue h ++ [s.next])
        next := s.next + 1 }
  | wait {s : State H} {t : Thread H} {h : H} {id : Nat} {rest : List (Frame H)}
      (hs : s.stack t = .reading h (some id) :: rest) :
    Step Nests s (s.setStack t (.waiting h id :: rest))
  /-- The transfer has failed, or there was no record. -/
  | leave {s : State H} {t : Thread H} {h : H} {future : Option Nat} {rest : List (Frame H)}
      (hs : s.stack t = .reading h future :: rest) :
    Step Nests s (s.setStack t rest)
  | resume {s : State H} {t : Thread H} {h : H} {id : Nat} {rest : List (Frame H)}
      (hs : s.stack t = .waiting h id :: rest) (hready : id ∈ s.ready) :
    Step Nests s (s.setStack t rest)
  | callInline {s : State H} {t : Thread H} {h : H} {rest : List (Frame H)}
      (hs : s.stack t = .inlined h :: rest) :
    Step Nests s (s.setStack t (.callback none :: .inlined h :: rest))
  | leaveInline {s : State H} {t : Thread H} {h : H} {rest : List (Frame H)}
      (hs : s.stack t = .inlined h :: rest) :
    Step Nests s (s.setStack t rest)
  | dequeue {s : State H} {h : H} {id : Nat} {ids : List Nat} (hs : s.stack (.worker h) = [])
      (hq : s.queue h = id :: ids) :
    Step Nests s
      { s.setStack (.worker h) [.callback (some id)] with queue := Function.update s.queue h ids }
  | finish {s : State H} {t : Thread H} {task : Option Nat} {rest : List (Frame H)}
      (hs : s.stack t = .callback task :: rest) :
    Step Nests s { s.setStack t rest with ready := task.toList ++ s.ready }

/-- The states in every interleaving. -/
abbrev Reachable (Nests : H → H → Prop) (s : State H) : Prop :=
  Reaches (Step Nests) State.initial s

/-! ## Waits -/

/-- The worker of `w` is blocked in `future.wait()` on a task of `h`. -/
def WaitsFor (s : State H) (w h : H) : Prop :=
  ∃ id rest, s.stack (.worker w) = .waiting h id :: rest ∧ id ∉ s.ready

/-- Some worker waits, directly or through other workers, for itself. -/
def WaitCycle (s : State H) : Prop := ∃ w, Relation.TransGen (WaitsFor s) w w

/-- A callback on the worker of `w` may call another handle, `h`. -/
def Crosses (Nests : H → H → Prop) (w h : H) : Prop := Nests w h ∧ w ≠ h

/-! ## A worker only waits where its callbacks may call -/

/-- What a frame of the worker of `w` can be. -/
def FrameOk (Nests : H → H → Prop) (w : H) : Frame H → Prop
  | .reading h _ => Crosses Nests w h
  | .waiting h _ => Crosses Nests w h
  | .callback _ => True
  | .inlined h => w = h

def FramesOk (Nests : H → H → Prop) (s : State H) : Prop :=
  ∀ w, ∀ f ∈ s.stack (.worker w), FrameOk Nests w f

theorem FramesOk.setStack {Nests : H → H → Prop} {s : State H} {t : Thread H}
    {frames : List (Frame H)} (h : FramesOk Nests s)
    (hframes : ∀ w, t = .worker w → ∀ f ∈ frames, FrameOk Nests w f) :
    FramesOk Nests (s.setStack t frames) := by
  intro w f hf
  by_cases ht : Thread.worker w = t
  · subst ht
    rw [State.setStack_self] at hf
    exact hframes w rfl f hf
  · rw [State.setStack_ne s ht] at hf
    exact h w f hf

theorem framesOk_step {Nests : H → H → Prop} (s s' : State H) (h : FramesOk Nests s)
    (hstep : Step Nests s s') : FramesOk Nests s' := by
  cases hstep with
  | @call t handle hcan hnests =>
    refine h.setStack fun w hw => List.forall_mem_cons.2 ⟨?_, hw ▸ h w⟩
    subst hw
    by_cases hown : w = handle
    · simp [State.entryFrame, isCallbackWorkerThread, hown, FrameOk]
    · simpa [State.entryFrame, isCallbackWorkerThread, hown, FrameOk, Crosses] using
        hnests w rfl hown
  | enqueue hs | wait hs =>
    have hold : ∀ w, _ = Thread.worker w → ∀ f ∈ _, FrameOk Nests w f := fun w hw =>
      hs ▸ hw ▸ h w
    refine h.setStack fun w hw => ?_
    have := hold w hw
    simpa [FrameOk] using this
  | leave hs | resume hs | leaveInline hs | finish hs =>
    refine h.setStack fun w hw f hf => h w f ?_
    rw [← hw, hs]
    exact List.mem_cons_of_mem _ hf
  | callInline hs =>
    refine h.setStack fun w hw => List.forall_mem_cons.2 ⟨trivial, ?_⟩
    rw [← hs, hw]
    exact h w
  | dequeue hs hq => exact h.setStack fun w _ => by simp [FrameOk]

omit [DecidableEq H] in
theorem WaitsFor.crosses {Nests : H → H → Prop} {s : State H} {w h : H}
    (hok : FramesOk Nests s) (hwait : WaitsFor s w h) : Crosses Nests w h := by
  obtain ⟨id, rest, hs, -⟩ := hwait
  exact hok w (.waiting h id) (by simp [hs])

theorem no_wait_cycle {Nests : H → H → Prop} (hacyclic : ∀ w, ¬ Relation.TransGen (Crosses Nests) w w)
    {s : State H} (h : Reachable Nests s) : ¬ WaitCycle s := by
  rintro ⟨w, hcycle⟩
  have hok : FramesOk Nests s := invariant (FramesOk Nests) framesOk_step h fun w f hf => by
    simp [State.initial] at hf
  exact hacyclic w (Relation.TransGen.mono (fun _ _ hwait => WaitsFor.crosses hok hwait) _ _ hcycle)

/-! ## Callbacks that call each other in a cycle

The application calls one handle, whose callback calls the next one, and so on
along the cycle. The workers on the way wait for each other in a chain, and the
first call to one of them closes it. -/

/-- A chain of nested calls: `w` runs a callback, and each worker of `path`
waits for the one before it. No other worker has work. -/
structure Nested (s : State H) (w : H) (path : List H) : Prop where
  running : s.CanCall (.worker w)
  nodup : (w :: path).Nodup
  waits : (w :: path).IsChain fun x y => WaitsFor s y x
  idle : ∀ x, x ∉ w :: path → s.stack (.worker x) = [] ∧ s.queue x = []
  ready : s.ready = []

theorem nested_initial (Nests : H → H → Prop) (w : H) :
    ∃ s, Reachable Nests s ∧ Nested s w [] := by
  have happ : (Thread.worker w : Thread H) ≠ .application 0 := by simp
  refine ⟨_, .tail (.tail (.tail .refl (@Step.call _ _ _ _ (.application 0) w rfl ?_))
    (@Step.enqueue _ _ _ _ (.application 0) w none [] ?_))
    (@Step.dequeue _ _ _ _ w 0 [] ?_ ?_), ?_⟩
  · rintro w' ⟨⟩
  · simp [State.entryFrame, isCallbackWorkerThread, State.initial]
  · simp [State.initial, State.setStack, happ]
  · simp [State.initial, State.setStack]
  · refine ⟨⟨_, _, State.setStack_self ..⟩, by simp, by simp, fun x hx => ?_, rfl⟩
    have hxw : x ≠ w := by simpa using hx
    simp [State.setStack, State.initial, hxw]

/-- The worker that runs a callback queues a task at another handle and waits. -/
theorem Nested.call {Nests : H → H → Prop} {s : State H} {w x : H} {path : List H}
    (h : Nested s w path) (hcross : Crosses Nests w x) :
    ∃ s', Reaches (Step Nests) s s' ∧ WaitsFor s' w x ∧ s'.ready = [] ∧
      s'.queue = Function.update s.queue x (s.queue x ++ [s.next]) ∧
      ∀ t, t ≠ .worker w → s'.stack t = s.stack t := by
  have hentry : State.entryFrame (.worker w) x = .reading x none := by
    simp [State.entryFrame, isCallbackWorkerThread, hcross.2]
  refine ⟨_, .tail (.tail (.tail .refl (@Step.call _ _ _ _ (.worker w) x h.running ?_))
    (@Step.enqueue _ _ _ _ (.worker w) x none (s.stack (.worker w)) ?_))
    (@Step.wait _ _ _ _ (.worker w) x s.next (s.stack (.worker w)) ?_),
    ⟨s.next, s.stack (.worker w), ?_, ?_⟩, h.ready, rfl, fun t ht => ?_⟩
  · rintro w' ⟨⟩ _
    exact hcross.1
  · simp [hentry]
  · simp [State.setStack]
  · simp
  · simp [State.setStack, h.ready]
  · simp [State.setStack, ht]

omit [DecidableEq H] in
theorem WaitsFor.of_stack_eq {s s' : State H} {y z : H}
    (hstack : s'.stack (.worker y) = s.stack (.worker y)) (hready : s'.ready = s.ready)
    (h : WaitsFor s y z) : WaitsFor s' y z := by
  obtain ⟨id, rest, hs, hid⟩ := h
  exact ⟨id, rest, hstack.trans hs, hready ▸ hid⟩

omit [DecidableEq H] in
/-- The waits of a chain are still there if its running worker and workers
outside it have moved. -/
theorem Nested.waits_of_stack_eq {s s' : State H} {w : H} {path : List H} (h : Nested s w path)
    (hstack : ∀ y ∈ path, s'.stack (.worker y) = s.stack (.worker y)) (hready : s'.ready = []) :
    (w :: path).IsChain fun x y => WaitsFor s' y x :=
  h.waits.imp_of_mem_tail_imp fun _ y _ hy hwait =>
    hwait.of_stack_eq (hstack y hy) (hready.trans h.ready.symm)

/-- If the worker that is called is idle, it takes the task. -/
theorem Nested.extend {Nests : H → H → Prop} {s : State H} {w x : H} {path : List H}
    (h : Nested s w path) (hcross : Crosses Nests w x) (hx : x ∉ w :: path) :
    ∃ s', Reaches (Step Nests) s s' ∧ Nested s' x (w :: path) := by
  obtain ⟨t, hrun, hwait, hready, hqueue, hstack⟩ := h.call hcross
  obtain ⟨hxstack, hxqueue⟩ := h.idle x hx
  have hother : ∀ {y}, y ≠ x → (Thread.worker y : Thread H) ≠ .worker x := by simp
  have hne : ∀ {y}, y ∈ w :: path → y ≠ x := fun hy heq => hx (heq ▸ hy)
  have hdequeue := @Step.dequeue _ _ Nests t x s.next []
    (by rw [hstack _ (by simpa using (hne (List.mem_cons_self ..)).symm), hxstack])
    (by simp [hqueue, hxqueue])
  refine ⟨_, hrun.tail hdequeue, ?_⟩
  refine ⟨⟨_, _, State.setStack_self ..⟩, List.nodup_cons.2 ⟨hx, h.nodup⟩, ?_, fun y hy => ?_, hready⟩
  · refine List.isChain_cons_cons.2 ⟨?_, ?_⟩
    · exact hwait.of_stack_eq (State.setStack_ne _ (hother (hne (List.mem_cons_self ..))) _) rfl
    · refine h.waits_of_stack_eq (fun y hy => ?_) hready
      have hyw : y ≠ w := fun heq => (List.nodup_cons.1 h.nodup).1 (heq ▸ hy)
      rw [← hstack (.worker y) (by simpa using hyw)]
      exact State.setStack_ne _ (hother (hne (List.mem_cons_of_mem _ hy))) _
  · obtain ⟨hyx, hyw, -⟩ : y ≠ x ∧ y ≠ w ∧ y ∉ path := by simpa using hy
    obtain ⟨hystack, hyqueue⟩ := h.idle y (List.not_mem_of_not_mem_cons hy)
    refine ⟨?_, by simp [hqueue, hyx, hyqueue]⟩
    exact (State.setStack_ne _ (hother hyx) _).trans ((hstack _ (by simpa using hyw)).trans hystack)

/-- If it is one of the workers that wait, the waits form a cycle. -/
theorem Nested.close {Nests : H → H → Prop} {s : State H} {w x : H} {path : List H}
    (h : Nested s w path) (hcross : Crosses Nests w x) (hx : x ∈ path) :
    ∃ s', Reaches (Step Nests) s s' ∧ WaitCycle s' := by
  obtain ⟨t, hrun, hwait, hready, -, hstack⟩ := h.call hcross
  have hchain := h.waits_of_stack_eq (fun y hy => hstack (.worker y) fun heq =>
    (List.nodup_cons.1 h.nodup).1 (by cases heq; exact hy)) hready
  have hpath : Relation.TransGen (WaitsFor t) x w :=
    List.rel_of_pairwise_cons (hchain.imp fun _ _ => Relation.TransGen.single).pairwise hx
  exact ⟨t, hrun, x, hpath.tail hwait⟩

/-- The workers on a cycle of calls, as a set that each of them stays in. -/
theorem exists_closed_set {R : H → H → Prop} {a b : H} (h : Relation.TransGen R a b) :
    ∃ S : Finset H, a ∈ S ∧ ∀ x ∈ S, ∃ y, R x y ∧ (y ∈ S ∨ y = b) := by
  induction h using Relation.TransGen.head_induction_on with
  | @single a h => exact ⟨{a}, by simp, by simpa using ⟨b, h, .inr rfl⟩⟩
  | @head a c h _ ih =>
    obtain ⟨S, hc, hS⟩ := ih
    refine ⟨insert a S, by simp, Finset.forall_mem_insert .. |>.2 ⟨⟨c, h, by simp [hc]⟩, ?_⟩⟩
    intro x hx
    obtain ⟨y, hxy, hy⟩ := hS x hx
    exact ⟨y, hxy, hy.imp_left (Finset.mem_insert_of_mem ·)⟩

/-- Along a set of workers each of which calls another one of the set, a chain
of nested calls grows until it closes. -/
theorem Nested.wait_cycle {Nests : H → H → Prop} {S : Finset H}
    (hS : ∀ x ∈ S, ∃ y ∈ S, Crosses Nests x y) (n : Nat) {s : State H} {w : H} {path : List H}
    (h : Nested s w path) (hsub : ∀ x ∈ w :: path, x ∈ S)
    (hcard : S.card < (w :: path).length + n) :
    ∃ s', Reaches (Step Nests) s s' ∧ WaitCycle s' := by
  induction n generalizing s w path with
  | zero =>
    have hle := Finset.card_le_card (s := (w :: path).toFinset) (t := S)
      fun x hx => hsub x (List.mem_toFinset.1 hx)
    rw [List.toFinset_card_of_nodup h.nodup] at hle
    omega
  | succ n ih =>
    obtain ⟨x, hxS, hcross⟩ := hS w (hsub w (List.mem_cons_self ..))
    by_cases hx : x ∈ w :: path
    · exact h.close hcross ((List.mem_cons.1 hx).resolve_left (Ne.symm hcross.2))
    · obtain ⟨t, hrun, ht⟩ := h.extend hcross hx
      obtain ⟨s', hrun', hcycle⟩ := ih ht (List.forall_mem_cons.2 ⟨hxS, hsub⟩)
        (by simp only [List.length_cons] at hcard ⊢; omega)
      exact ⟨s', hrun.trans hrun', hcycle⟩

theorem wait_cycle_of_cycle {Nests : H → H → Prop} {w : H}
    (h : Relation.TransGen (Crosses Nests) w w) : ∃ s, Reachable Nests s ∧ WaitCycle s := by
  obtain ⟨S, hw, hS⟩ := exists_closed_set h
  have hclosed : ∀ x ∈ S, ∃ y ∈ S, Crosses Nests x y := fun x hx => by
    obtain ⟨y, hxy, hy⟩ := hS x hx
    exact ⟨y, hy.elim id (fun heq => heq ▸ hw), hxy⟩
  obtain ⟨s, hrun, hnested⟩ := nested_initial Nests w
  obtain ⟨s', hrun', hcycle⟩ := hnested.wait_cycle hclosed S.card (by simpa using hw) (by simp)
  exact ⟨s', hrun.trans hrun', hcycle⟩

/-- No interleaving comes to a cycle of waits if and only if the calls that
callbacks make on other handles follow no cycle. -/
theorem no_wait_cycle_iff (Nests : H → H → Prop) :
    (∀ s, Reachable Nests s → ¬ WaitCycle s) ↔
      ∀ w, ¬ Relation.TransGen (Crosses Nests) w w := by
  constructor
  · intro h w hcycle
    obtain ⟨s, hreach, hwait⟩ := wait_cycle_of_cycle hcycle
    exact h s hreach hwait
  · exact fun h s hreach => no_wait_cycle h hreach

/-- Two handles whose callbacks call each other. -/
theorem wait_cycle_two_handles :
    ¬ ∀ s : State Bool, Reachable (fun _ _ => True) s → ¬ WaitCycle s := by
  have hcross : ∀ b : Bool, Crosses (fun _ _ => True) b !b := fun b => ⟨trivial, by simp⟩
  obtain ⟨s, hreach, hwait⟩ := wait_cycle_of_cycle (.tail (.single (hcross true)) (hcross false))
  exact fun h => h s hreach hwait

end Workers

end Reduct
