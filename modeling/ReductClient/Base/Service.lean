-- SUMMARY: One server that works for many clients: each client goes through a run of its own, and all can be served to the end exactly if each of them could be served alone.
import Mathlib.Data.Fintype.Basic
import Mathlib.Data.Finset.Dedup
import Mathlib.Logic.Function.Basic
import ReductClient.Base.Transition

open Transition

/-! # One server for many clients

A client makes steps of its own, and the server makes steps for it. A client is busy while
the server is in the middle of its work. The server goes on with a client until that is
no longer busy, and then it may turn to any other one. -/

namespace Service

/-- The clients, and the one that the server works for. -/
structure State (ι σ : Type*) where
  clients : ι → σ
  serves : Option ι

variable {ι σ : Type*}

/-- A client with a server that has no other one. -/
inductive Alone (Own Work : ι → σ → σ → Prop) (i : ι) : σ → σ → Prop where
  | own {s t : σ} (h : Own i s t) : Alone Own Work i s t
  | work {s t : σ} (h : Work i s t) : Alone Own Work i s t

variable [DecidableEq ι]

/-- A step of one client, or of the server for one client. -/
inductive Step (Own Work : ι → σ → σ → Prop) (busy : σ → Bool) : State ι σ → State ι σ → Prop where
  | own {S : State ι σ} {i : ι} {t : σ} (h : Own i (S.clients i) t) :
    Step Own Work busy S ⟨Function.update S.clients i t, S.serves⟩
  | work {S : State ι σ} {i : ι} {t : σ} (hfree : S.serves = none ∨ S.serves = some i)
      (h : Work i (S.clients i) t) :
    Step Own Work busy S
      ⟨Function.update S.clients i t, if busy t then some i else none⟩

/-- The server has nothing to do. -/
def start (clients : ι → σ) : State ι σ := ⟨clients, none⟩

variable {Own Work : ι → σ → σ → Prop} {busy : σ → Bool} {S T : State ι σ}

/-! ## Each client alone -/

/-- A step moves one client. -/
theorem moves_one (h : Step Own Work busy S T) :
    ∃ j t, Alone Own Work j (S.clients j) t ∧ T.clients = Function.update S.clients j t := by
  cases h with
  | @own j t h => exact ⟨j, t, .own h, rfl⟩
  | @work j t _ h => exact ⟨j, t, .work h, rfl⟩

theorem alone_step (h : Step Own Work busy S T) (i : ι) :
    Reaches (Alone Own Work i) (S.clients i) (T.clients i) := by
  obtain ⟨j, t, h, hclients⟩ := moves_one h
  rw [hclients]
  by_cases hij : i = j
  · subst hij
    rw [Function.update_self]
    exact .single h
  · rw [Function.update_of_ne hij]

/-- Every run of the system is, for each client, a run of the client alone. -/
theorem alone_reaches (h : Reaches (Step Own Work busy) S T) (i : ι) :
    Reaches (Alone Own Work i) (S.clients i) (T.clients i) := by
  induction h with
  | refl => exact .refl
  | tail _ hstep ih => exact ih.trans (alone_step hstep i)

/-- A run of a client alone is one of the system, if the server is free for it. The other
clients stay as they are. -/
theorem reaches_of_alone (busy : σ → Bool) {i : ι} {t : σ}
    (hfree : S.serves = none ∨ S.serves = some i)
    (h : Reaches (Alone Own Work i) (S.clients i) t) :
    ∃ T, Reaches (Step Own Work busy) S T ∧ T.clients = Function.update S.clients i t ∧
      (T.serves = none ∨ T.serves = some i) := by
  induction h with
  | refl => exact ⟨S, .refl, (Function.update_eq_self i S.clients).symm, hfree⟩
  | @tail u t _ hstep ih =>
    obtain ⟨T, hrun, hclients, hserves⟩ := ih
    have hclient : T.clients i = u := by rw [hclients, Function.update_self]
    have hupdate : Function.update T.clients i t = Function.update S.clients i t := by
      rw [hclients, Function.update_idem]
    cases hstep with
    | own h => exact ⟨_, hrun.tail (.own (hclient ▸ h)), hupdate, hserves⟩
    | work h =>
      refine ⟨_, hrun.tail (.work hserves (hclient ▸ h)), hupdate, ?_⟩
      dsimp only
      split
      · exact .inr rfl
      · exact .inl rfl

/-! ## Whom the server works for -/

/-- The clients start idle, and no step of their own makes them busy or not. -/
structure Orderly (Own Work : ι → σ → σ → Prop) (busy : σ → Bool) (init : ι → σ) : Prop where
  idle : ∀ i, busy (init i) = false
  own : ∀ i s t, Reaches (Alone Own Work i) (init i) s → Own i s t → busy t = busy s

variable {init : ι → σ}

theorem serves_step (horderly : Orderly Own Work busy init)
    (hreach : Reaches (Step Own Work busy) (start init) S)
    (hserves : ∀ i, busy (S.clients i) = true ↔ S.serves = some i) (h : Step Own Work busy S T)
    (i : ι) : busy (T.clients i) = true ↔ T.serves = some i := by
  cases h with
  | @own j t h =>
    dsimp only
    by_cases hij : i = j
    · subst hij
      rw [Function.update_self, horderly.own i _ t (alone_reaches hreach i) h]
      exact hserves i
    · rw [Function.update_of_ne hij]
      exact hserves i
  | @work j t hfree h =>
    dsimp only
    by_cases hij : i = j
    · subst hij
      rw [Function.update_self]
      cases busy t <;> simp
    · have hidle : ¬ busy (S.clients i) = true := by
        rw [hserves i]
        rcases hfree with hfree | hfree
        · simp [hfree]
        · simpa [hfree] using Ne.symm hij
      rw [Function.update_of_ne hij]
      refine iff_of_false hidle ?_
      split
      · simpa using Ne.symm hij
      · simp

/-- The server works for the client that is busy, so there is at most one. -/
theorem serves_iff (horderly : Orderly Own Work busy init)
    (h : Reaches (Step Own Work busy) (start init) S) (i : ι) :
    busy (S.clients i) = true ↔ S.serves = some i := by
  induction h generalizing i with
  | refl => simp [start, horderly.idle i]
  | tail hreach hstep ih => exact serves_step horderly hreach ih hstep i

/-- The server can become free exactly if the client it works for could let it go alone. -/
theorem frees_iff (horderly : Orderly Own Work busy init)
    (hreach : Reaches (Step Own Work busy) (start init) S) {i : ι} (hi : S.serves = some i) :
    (∃ T, Reaches (Step Own Work busy) S T ∧ T.serves = none) ↔
      ∃ t, Reaches (Alone Own Work i) (S.clients i) t ∧ busy t = false := by
  constructor
  · rintro ⟨T, hrun, hnone⟩
    refine ⟨T.clients i, alone_reaches hrun i, Bool.eq_false_iff.2 fun hbusy => ?_⟩
    rw [serves_iff horderly (hreach.trans hrun), hnone] at hbusy
    cases hbusy
  · rintro ⟨t, hrun, hidle⟩
    obtain ⟨T, hrun, hclients, hserves⟩ := reaches_of_alone busy (.inr hi) hrun
    refine ⟨T, hrun, hserves.resolve_right fun hbusy => ?_⟩
    rw [← serves_iff horderly (hreach.trans hrun), hclients, Function.update_self, hidle] at hbusy
    cases hbusy

/-! ## All clients together -/

section Together

variable {Done : ι → σ → σ → Prop}

/-- The clients of a list are served one after the other. If the server works for one of
them, this one is the first. -/
theorem reaches_of_list (horderly : Orderly Own Work busy init)
    (hidle : ∀ i s t, Done i s t → busy t = false) (is : List ι) (hnodup : is.Nodup)
    (hreach : Reaches (Step Own Work busy) (start init) S)
    (hfirst : ∀ i, S.serves = some i → is.head? = some i)
    (hdone : ∀ i ∈ is, ∃ t, Reaches (Alone Own Work i) (S.clients i) t ∧ Done i (S.clients i) t) :
    ∃ T, Reaches (Step Own Work busy) S T ∧ (∀ i ∈ is, Done i (S.clients i) (T.clients i)) ∧
      ∀ i ∉ is, T.clients i = S.clients i := by
  induction is generalizing S with
  | nil => exact ⟨S, .refl, nofun, fun _ _ => rfl⟩
  | cons i is ih =>
    obtain ⟨hi, hnodup⟩ := List.nodup_cons.1 hnodup
    obtain ⟨t, hrun, ht⟩ := hdone i List.mem_cons_self
    have hfree : S.serves = none ∨ S.serves = some i := by
      cases hserves : S.serves with
      | none => exact .inl rfl
      | some j => exact .inr (hfirst j hserves).symm
    obtain ⟨U, hrun, hclients, hserves⟩ := reaches_of_alone busy hfree hrun
    have hself : U.clients i = t := by rw [hclients, Function.update_self]
    have hother : ∀ j ≠ i, U.clients j = S.clients j := fun j hj => by
      rw [hclients, Function.update_of_ne hj]
    -- the server has let the client go
    have hnone : U.serves = none := by
      refine hserves.resolve_right fun hbusy => ?_
      rw [← serves_iff horderly (hreach.trans hrun), hself, hidle i _ t ht] at hbusy
      cases hbusy
    have hne : ∀ j ∈ is, j ≠ i := fun j hj heq => hi (heq ▸ hj)
    obtain ⟨T, hrun', hdone', hsame⟩ := ih hnodup (hreach.trans hrun)
      (fun j hj => by rw [hnone] at hj; cases hj)
      (fun j hj => by
        rw [hother j (hne j hj)]
        exact hdone j (List.mem_cons_of_mem i hj))
    refine ⟨T, hrun.trans hrun', fun j hj => ?_, fun j hj => ?_⟩
    · rcases List.mem_cons.1 hj with rfl | hj
      · rw [hsame j hi, hself]
        exact ht
      · rw [← hother j (hne j hj)]
        exact hdone' j hj
    · obtain ⟨hji, hj⟩ := not_or.1 (mt List.mem_cons.2 hj)
      rw [hsame j hj, hother j hji]

/-- All clients can be served to the end exactly if each could be served alone. -/
theorem all_done_iff [Fintype ι] (horderly : Orderly Own Work busy init)
    (hidle : ∀ i s t, Done i s t → busy t = false)
    (hreach : Reaches (Step Own Work busy) (start init) S) :
    (∃ T, Reaches (Step Own Work busy) S T ∧ ∀ i, Done i (S.clients i) (T.clients i)) ↔
      ∀ i, ∃ t, Reaches (Alone Own Work i) (S.clients i) t ∧ Done i (S.clients i) t := by
  constructor
  · rintro ⟨T, hrun, hdone⟩ i
    exact ⟨T.clients i, alone_reaches hrun i, hdone i⟩
  · intro hdone
    have hserve : ∀ is : List ι, is.Nodup → (∀ i, i ∈ is) →
        (∀ i, S.serves = some i → is.head? = some i) →
        ∃ T, Reaches (Step Own Work busy) S T ∧ ∀ i, Done i (S.clients i) (T.clients i) := by
      intro is hnodup hall hfirst
      obtain ⟨T, hrun, hdone, -⟩ := reaches_of_list horderly hidle is hnodup hreach hfirst
        fun i _ => hdone i
      exact ⟨T, hrun, fun i => hdone i (hall i)⟩
    have hnodup := Finset.univ.nodup_toList (α := ι)
    cases hserves : S.serves with
    | none => exact hserve _ hnodup (fun i => by simp) (by simp [hserves])
    | some i =>
      refine hserve (i :: Finset.univ.toList.erase i) ?_ ?_ (by simp [hserves])
      · exact List.nodup_cons.2 ⟨hnodup.not_mem_erase, hnodup.erase i⟩
      · intro j
        by_cases hij : j = i
        · exact hij ▸ List.mem_cons_self
        · exact List.mem_cons_of_mem i ((List.mem_erase_of_ne hij).2 (by simp))

end Together

end Service
