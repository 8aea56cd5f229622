-- SUMMARY: The worker thread of a bucket from its constructor to the end of its destructor: what it still runs once the destructor has begun, and that the destructor comes back.
import Mathlib.Data.Multiset.Basic
import ReductClient.Base.Transition

open Transition

namespace Reduct

/-! # The worker thread

The loop that the constructor starts takes tasks from `task_queue_` and runs them. The
destructor sets `stop_`, wakes the worker up with an empty task and joins it. -/

namespace WorkerThread

variable {T : Type}

/-- What the handle relies on of `moodycamel::BlockingConcurrentQueue`, which is not part of
the repository: `enqueue` adds an element, and `wait_dequeue` takes one of the elements away,
as soon as there is one. Which one is left open. An empty task is none. -/
structure TaskQueue (T : Type) where
  State : Type
  empty : State
  elements : State → Multiset (Option T)
  enqueue : State → Option T → State → Prop
  waitDequeue : State → Option T → State → Prop
  elements_empty : elements empty = 0
  enqueue_returns : ∀ q task, ∃ q', enqueue q task q'
  elements_enqueue : ∀ {q task q'}, enqueue q task q' → elements q' = task ::ₘ elements q
  waitDequeue_returns : ∀ q, elements q ≠ 0 → ∃ task q', waitDequeue q task q'
  elements_waitDequeue : ∀ {q task q'}, waitDequeue q task q' → elements q = task ::ₘ elements q'

/-- Where the worker stands: at the test of `stop_`, in `wait_dequeue`, or in a task. -/
inductive Worker (T : Type) where
  | loop
  | waiting
  | running (task : T)
  | ended

/-- Where the destructor stands. -/
inductive Destructor where
  | alive
  /-- `stop_` is set. -/
  | stopping
  /-- The worker has been woken up. -/
  | joining
  | joined
  deriving DecidableEq

/-- The handle with its queue. The tasks started so far are on record. -/
structure State (queue : TaskQueue T) where
  worker : Worker T
  destructor : Destructor
  tasks : queue.State
  started : List T

namespace State

variable {queue : TaskQueue T} {returns : T → Prop}

/-- The constructor has started the worker. -/
def initial (queue : TaskQueue T) : State queue := ⟨.loop, .alive, queue.empty, []⟩

/-- `stop_`. -/
def stop (s : State queue) : Bool := s.destructor != .alive

/-- A step of the worker, the destructor or a thread that calls the handle, where the given
tasks return. Nothing calls a handle that is being destroyed. -/
inductive Step (returns : T → Prop) : State queue → State queue → Prop where
  /-- A call enqueues a task. -/
  | enqueue {s : State queue} {task : T} {tasks : queue.State} (halive : s.destructor = .alive)
      (hqueue : queue.enqueue s.tasks (some task) tasks) :
      Step returns s { s with tasks := tasks }
  /-- The worker tests `stop_`. -/
  | test {s : State queue} (hloop : s.worker = .loop) :
      Step returns s { s with worker := if s.stop then .ended else .waiting }
  /-- It takes a task and starts it. -/
  | take {s : State queue} {task : T} {tasks : queue.State} (hwaiting : s.worker = .waiting)
      (hqueue : queue.waitDequeue s.tasks (some task) tasks) :
      Step returns s { s with
        worker := .running task
        tasks := tasks
        started := s.started ++ [task] }
  /-- It takes an empty task. -/
  | skip {s : State queue} {tasks : queue.State} (hwaiting : s.worker = .waiting)
      (hqueue : queue.waitDequeue s.tasks none tasks) :
      Step returns s { s with worker := .loop, tasks := tasks }
  /-- The task returns. -/
  | finish {s : State queue} {task : T} (hrunning : s.worker = .running task)
      (hreturns : returns task) : Step returns s { s with worker := .loop }
  /-- The destructor sets `stop_`. -/
  | setStop {s : State queue} (halive : s.destructor = .alive) :
      Step returns s { s with destructor := .stopping }
  /-- It enqueues an empty task. -/
  | wake {s : State queue} {tasks : queue.State} (hstopping : s.destructor = .stopping)
      (hqueue : queue.enqueue s.tasks none tasks) :
      Step returns s { s with destructor := .joining, tasks := tasks }
  /-- It returns once the worker has ended. -/
  | join {s : State queue} (hjoining : s.destructor = .joining) (hended : s.worker = .ended) :
      Step returns s { s with destructor := .joined }

/-- The states of a handle in every interleaving. -/
def Reachable (returns : T → Prop) (s : State queue) : Prop :=
  Reaches (Step returns) (initial queue) s

/-! ## Tasks after the stop -/

/-- The tasks that may still be started once `stop_` is set: one, if the worker is already
past the test. -/
def mayStart (s : State queue) : Nat :=
  match s.worker with
  | .waiting => 1
  | _ => 0

theorem stop_eq_true {s : State queue} : s.stop = true ↔ s.destructor ≠ .alive := by
  simp [stop]

/-- Once `stop_` is set, it stays so, and a step that starts a task uses up the one that
may still be started. -/
theorem stop_step {s t : State queue} (h : s.stop = true) (hst : Step returns s t) :
    t.stop = true ∧ s.started <+: t.started ∧
      t.started.length + t.mayStart ≤ s.started.length + s.mayStart := by
  have halive := stop_eq_true.1 h
  cases hst with
  | enqueue h' hqueue => exact absurd h' halive
  | test hloop => exact ⟨h, List.prefix_refl _, by simp [mayStart, hloop, h]⟩
  | take hwaiting hqueue => exact ⟨h, List.prefix_append _ _, by simp [mayStart, hwaiting]⟩
  | skip hwaiting hqueue => exact ⟨h, List.prefix_refl _, by simp [mayStart]⟩
  | finish hrunning hreturns => exact ⟨h, List.prefix_refl _, by simp [mayStart]⟩
  | setStop h' => exact absurd h' halive
  | wake hstopping hqueue => exact ⟨rfl, List.prefix_refl _, Nat.le_refl _⟩
  | join hjoining hended => exact ⟨rfl, List.prefix_refl _, Nat.le_refl _⟩

theorem stop_reaches {s t : State queue} (h : s.stop = true) (hst : Reaches (Step returns) s t) :
    t.stop = true ∧ s.started <+: t.started ∧
      t.started.length + t.mayStart ≤ s.started.length + s.mayStart := by
  refine invariant (fun t => t.stop = true ∧ s.started <+: t.started ∧
    t.started.length + t.mayStart ≤ s.started.length + s.mayStart) ?_ hst
    ⟨h, List.prefix_refl _, Nat.le_refl _⟩
  rintro t u ⟨ht, hstarted, hle⟩ htu
  obtain ⟨hu, hstarted', hle'⟩ := stop_step ht htu
  exact ⟨hu, hstarted.trans hstarted', Nat.le_trans hle' hle⟩

/-! ## The end of the worker -/

/-- While the destructor waits for it, the worker does not wait for an empty queue, and when
the destructor has returned, the worker has ended. The element in the queue need not be the
empty task: a worker that takes another one instead ends at the next test. -/
structure Woken (s : State queue) : Prop where
  joining : s.destructor = .joining → s.worker = .waiting → queue.elements s.tasks ≠ 0
  joined : s.destructor = .joined → s.worker = .ended

theorem woken_step (s t : State queue) (h : s.Woken) (hst : Step returns s t) : t.Woken := by
  obtain ⟨hjoin, hjoined⟩ := h
  cases hst with
  | enqueue halive hqueue =>
    exact ⟨fun hd => by simp [halive] at hd, fun hd => by simp [halive] at hd⟩
  | test hloop =>
    have hended : s.stop = true → (if s.stop then Worker.ended else .waiting : Worker T) = .ended :=
      fun hstop => if_pos hstop
    refine ⟨fun hd hw => ?_, fun hd => ?_⟩
    · have hd : s.destructor = .joining := hd
      cases hw.symm.trans (hended (stop_eq_true.2 (by simp [hd])))
    · have hd : s.destructor = .joined := hd
      exact hended (stop_eq_true.2 (by simp [hd]))
  | take hwaiting hqueue =>
    exact ⟨fun _ hw => by simp at hw, fun hd => by simp [hjoined hd] at hwaiting⟩
  | skip hwaiting hqueue =>
    exact ⟨fun _ hw => by simp at hw, fun hd => by simp [hjoined hd] at hwaiting⟩
  | finish hrunning hreturns =>
    exact ⟨fun _ hw => by simp at hw, fun hd => by simp [hjoined hd] at hrunning⟩
  | setStop halive => exact ⟨fun hd => by simp at hd, fun hd => by simp at hd⟩
  | wake hstopping hqueue =>
    refine ⟨fun _ _ => ?_, fun hd => by simp at hd⟩
    rw [queue.elements_enqueue hqueue]
    exact Multiset.cons_ne_zero
  | join hjoining hended => exact ⟨fun hd => by simp at hd, fun _ => hended⟩

theorem woken_reachable {s : State queue} (h : Reachable returns s) : s.Woken :=
  invariant Woken woken_step h ⟨fun hd => by simp [initial] at hd, fun hd => by simp [initial] at hd⟩

/-- The steps that are left of the worker and of the destructor. -/
def stepsLeft (s : State queue) : Nat :=
  (match s.worker with
  | .waiting => 3
  | .running _ => 2
  | .loop => 1
  | .ended => 0) +
  match s.destructor with
  | .alive => 3
  | .stopping => 2
  | .joining => 1
  | .joined => 0

theorem stepsLeft_step (s t : State queue) (h : s.stop = true) (hst : Step returns s t) :
    t.stop = true ∧ t.stepsLeft < s.stepsLeft := by
  refine ⟨(stop_step h hst).1, ?_⟩
  have halive := stop_eq_true.1 h
  cases hst with
  | enqueue h' hqueue => exact absurd h' halive
  | test hloop => simp [stepsLeft, hloop, h]
  | take hwaiting hqueue => simp [stepsLeft, hwaiting]
  | skip hwaiting hqueue => simp [stepsLeft, hwaiting]
  | finish hrunning hreturns => simp [stepsLeft, hrunning]
  | setStop h' => exact absurd h' halive
  | wake hstopping hqueue => simp [stepsLeft, hstopping]
  | join hjoining hended => simp [stepsLeft, hjoining]

theorem stepsLeft_le {s : State queue} (h : s.stop = true) : s.stepsLeft ≤ 5 := by
  have halive := stop_eq_true.1 h
  unfold stepsLeft
  split <;> split <;> first | omega | exact absurd (by assumption) halive

/-- Where there is no step, the destructor has returned or the task that runs never does. -/
theorem joined_of_stuck {s : State queue} (h : Reachable returns s) (hstop : s.stop = true)
    (hstuck : Stuck (Step returns) s) :
    s.destructor = .joined ∨ ∃ task, s.worker = .running task ∧ ¬ returns task := by
  cases hdestructor : s.destructor with
  | alive => exact absurd hdestructor (stop_eq_true.1 hstop)
  | stopping =>
    obtain ⟨tasks, hqueue⟩ := queue.enqueue_returns s.tasks none
    exact absurd (.wake hdestructor hqueue) (hstuck _)
  | joining =>
    cases hworker : s.worker with
    | loop => exact absurd (.test hworker) (hstuck _)
    | running task =>
      exact .inr ⟨task, rfl, fun hreturns => hstuck _ (.finish hworker hreturns)⟩
    | ended => exact absurd (.join hdestructor hworker) (hstuck _)
    | waiting =>
      have hne := (woken_reachable h).joining hdestructor hworker
      obtain ⟨task, tasks, hqueue⟩ := queue.waitDequeue_returns s.tasks hne
      cases task with
      | none => exact absurd (.skip hworker hqueue) (hstuck _)
      | some task => exact absurd (.take hworker hqueue) (hstuck _)
  | joined => exact .inl rfl

/-- What happens to the worker once `stop_` is set. -/
structure ShutsDown (returns : T → Prop) (s : State queue) : Prop where
  /-- At most one more task is started, and that only if the worker is past its test. -/
  starts : ∀ t, Reaches (Step returns) s t → s.started <+: t.started ∧
    t.started.length ≤ s.started.length + s.mayStart
  /-- The worker and the destructor make at most five steps. -/
  bounded : ∀ n t, RunsFor (Step returns) n s t → n ≤ 5
  /-- They come to an end only when the destructor has returned, or in a task that does not. -/
  stuck : ∀ t, Reaches (Step returns) s t → Stuck (Step returns) t →
    t.destructor = .joined ∨ ∃ task, t.worker = .running task ∧ ¬ returns task
  /-- When the destructor has returned, no task is running. -/
  joined : ∀ t, Reaches (Step returns) s t → t.destructor = .joined → t.worker = .ended

/-- In every interleaving the destructor returns, if the task that runs does. -/
theorem shutsDown {s : State queue} (h : Reachable returns s) (hstop : s.stop = true) :
    s.ShutsDown returns where
  starts t hst := by
    obtain ⟨-, hstarted, hle⟩ := stop_reaches hstop hst
    exact ⟨hstarted, Nat.le_trans (Nat.le_add_right _ _) hle⟩
  bounded n t hrun :=
    Nat.le_trans (hrun.le_measure stepsLeft_step hstop) (stepsLeft_le hstop)
  stuck t hst := joined_of_stuck (h.trans hst) (stop_reaches hstop hst).1
  joined t hst := (woken_reachable (h.trans hst)).joined

/-- A queue that gives its elements in the order in which they were enqueued. -/
def firstInFirstOut (T : Type) : TaskQueue T where
  State := List (Option T)
  empty := []
  elements := Multiset.ofList
  enqueue q task q' := q' = q ++ [task]
  waitDequeue q task q' := q = task :: q'
  elements_empty := rfl
  enqueue_returns _ _ := ⟨_, rfl⟩
  elements_enqueue := by
    rintro q task _ rfl
    exact Multiset.coe_eq_coe.2 (List.perm_append_singleton task q)
  waitDequeue_returns := by
    intro q hne
    cases q with
    | nil => exact absurd rfl hne
    | cons task q => exact ⟨task, q, rfl⟩
  elements_waitDequeue := by
    rintro _ task q rfl
    rfl

/-- The worker waits when `stop_` is set, and a task is in the queue. -/
theorem shutsDown_waiting : ∃ s : State (firstInFirstOut Nat), s.mayStart = 1 ∧
    s.tasks = [some 7] ∧ s.ShutsDown fun _ => True :=
  ⟨⟨.waiting, .stopping, [some 7], []⟩, rfl, rfl,
    shutsDown (.tail (.tail (.tail .refl (.test rfl)) (.enqueue rfl rfl)) (.setStop rfl)) rfl⟩

end State

end WorkerThread

end Reduct
