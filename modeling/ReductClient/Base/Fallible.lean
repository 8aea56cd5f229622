-- SUMMARY: Computations that may fail: inversion of their results, and rules for the loops that run them over a list.
import Mathlib.Data.List.Forall2
import Mathlib.Data.List.Induction

/-! # Fallible computations

A computation in `Except ε` returns a value or fails with an error of `ε`. -/

namespace Fallible

universe u

variable {ε : Type*} {α β : Type u}

theorem ok_bind (a : α) (f : α → Except ε β) : (Except.ok a >>= f) = f a := rfl

/-- A sequence returns what its second part returns on the value of its first. -/
theorem bind_eq_ok {x : Except ε α} {f : α → Except ε β} {b : β} :
    x >>= f = .ok b ↔ ∃ a, x = .ok a ∧ f a = .ok b := by
  cases x with
  | error e =>
    constructor
    · rintro ⟨⟩
    · rintro ⟨a, ⟨⟩, -⟩
  | ok a =>
    constructor
    · intro h
      exact ⟨a, rfl, h⟩
    · rintro ⟨_, ⟨⟩, h⟩
      exact h

/-- The computation returns a value. -/
def Returns (x : Except ε α) : Prop := ∃ a, x = .ok a

theorem returns_ok (a : α) : Returns (.ok a : Except ε α) := ⟨a, rfl⟩

theorem returns_pure (a : α) : Returns (pure a : Except ε α) := ⟨a, rfl⟩

theorem not_returns_error (e : ε) : ¬ Returns (.error e : Except ε α) := nofun

/-- A check returns if and only if its condition holds. -/
theorem returns_ite {p : Prop} [Decidable p] {a : α} {e : ε} :
    Returns (if p then (.ok a : Except ε α) else .error e) ↔ p := by
  by_cases h : p
  · rw [if_pos h]
    exact iff_of_true (returns_ok a) h
  · rw [if_neg h]
    exact iff_of_false (not_returns_error e) h

/-- A sequence returns if and only if both of its parts do. -/
theorem returns_bind {x : Except ε α} {f : α → Except ε β} :
    Returns (x >>= f) ↔ ∃ a, x = .ok a ∧ Returns (f a) := by
  unfold Returns
  simp only [bind_eq_ok]
  exact ⟨fun ⟨b, a, ha, hb⟩ => ⟨a, ha, b, hb⟩, fun ⟨a, ha, b, hb⟩ => ⟨b, a, ha, hb⟩⟩

/-- What comes last may be a computation that always returns. -/
theorem returns_bind_of_forall {x : Except ε α} {f : α → Except ε β} (h : ∀ a, Returns (f a)) :
    Returns (x >>= f) ↔ Returns x := by
  rw [returns_bind]
  exact ⟨fun ⟨a, ha, _⟩ => ⟨a, ha⟩, fun ⟨a, ha⟩ => ⟨a, ha, h a⟩⟩

/-! ## Loops -/

/-- A loop that collects results returns if and only if each of its steps does. -/
theorem mapM_eq_ok {f : α → Except ε β} {l : List α} {bs : List β} :
    l.mapM f = .ok bs ↔ List.Forall₂ (fun a b => f a = .ok b) l bs := by
  induction l generalizing bs with
  | nil =>
    rw [List.mapM_nil, List.forall₂_nil_left_iff]
    exact ⟨fun h => (Except.ok.inj h).symm, fun h => congrArg _ h.symm⟩
  | cons a l ih =>
    rw [List.mapM_cons, bind_eq_ok, List.forall₂_cons_left_iff]
    constructor
    · rintro ⟨b, hb, h⟩
      obtain ⟨bs', hbs', h⟩ := bind_eq_ok.1 h
      cases h
      exact ⟨b, bs', hb, ih.1 hbs', rfl⟩
    · rintro ⟨b, bs', hb, hbs', rfl⟩
      exact ⟨b, hb, bind_eq_ok.2 ⟨bs', ih.2 hbs', rfl⟩⟩

/-- The loop ends with the error of the first step that fails. -/
theorem mapM_eq_error {f : α → Except ε β} {before after : List α} {bs : List β} {a : α} {e : ε}
    (hbefore : List.Forall₂ (fun a b => f a = .ok b) before bs) (h : f a = .error e) :
    (before ++ a :: after).mapM f = .error e := by
  induction hbefore with
  | nil =>
    rw [List.nil_append, List.mapM_cons, h]
    rfl
  | cons hb _ ih =>
    rw [List.cons_append, List.mapM_cons, hb, ok_bind, ih]
    rfl

theorem returns_mapM {f : α → Except ε β} {l : List α} :
    Returns (l.mapM f) ↔ ∀ a ∈ l, Returns (f a) := by
  induction l with
  | nil => exact iff_of_true (returns_ok []) (by simp)
  | cons a l ih =>
    rw [List.mapM_cons, returns_bind, List.forall_mem_cons, ← ih]
    constructor
    · rintro ⟨b, hb, hrest⟩
      exact ⟨⟨b, hb⟩, (returns_bind_of_forall fun _ => returns_ok _).1 hrest⟩
    · rintro ⟨⟨b, hb⟩, hrest⟩
      exact ⟨b, hb, (returns_bind_of_forall fun _ => returns_ok _).2 hrest⟩

/-- Where it depends on the element only whether a step returns, an accumulating loop
returns if and only if its steps do. -/
theorem returns_foldlM {f : β → α → Except ε β} {p : α → Prop} {l : List α}
    (h : ∀ b, ∀ a ∈ l, Returns (f b a) ↔ p a) (b : β) :
    Returns (l.foldlM f b) ↔ ∀ a ∈ l, p a := by
  induction l generalizing b with
  | nil => exact iff_of_true (returns_ok b) (by simp)
  | cons a l ih =>
    have ih := fun b => ih (fun b a' ha' => h b a' (List.mem_cons_of_mem a ha')) b
    rw [List.foldlM_cons, returns_bind, List.forall_mem_cons, ← h b a List.mem_cons_self]
    constructor
    · rintro ⟨c, hc, hrest⟩
      exact ⟨⟨c, hc⟩, (ih c).1 hrest⟩
    · rintro ⟨⟨c, hc⟩, hrest⟩
      exact ⟨c, hc, (ih c).2 hrest⟩

/-- An accumulating loop that has returned has returned for the first elements
too. -/
theorem foldlM_concat_eq_ok {f : β → α → Except ε β} {l : List α} {a : α} {b b' : β} :
    (l ++ [a]).foldlM f b = .ok b' ↔ ∃ c, l.foldlM f b = .ok c ∧ f c a = .ok b' := by
  rw [List.foldlM_append, bind_eq_ok]
  simp

/-- What holds at the start of an accumulating loop and is preserved by each step
holds at its end. The property may speak about the elements gone past. -/
theorem foldlM_invariant {f : β → α → Except ε β} {l : List α} {b b' : β}
    (Inv : List α → β → Prop) (h : l.foldlM f b = .ok b') (hinit : Inv [] b)
    (hstep : ∀ before a c c', Inv before c → f c a = .ok c' → Inv (before ++ [a]) c') :
    Inv l b' := by
  induction l using List.reverseRecOn generalizing b' with
  | nil =>
    cases h
    exact hinit
  | append_singleton l a ih =>
    obtain ⟨c, hc, ha⟩ := foldlM_concat_eq_ok.1 h
    exact hstep l a c b' (ih hc) ha

/-- A loop that starts with nothing has collected what its steps have added. -/
theorem foldlM_collects {κ : Type*} {f : β → α → Except ε β} {l : List α} {b b' : β}
    (Has : β → κ → Prop) (added : α → Option κ) (h : l.foldlM f b = .ok b') (hinit : ∀ k, ¬ Has b k)
    (hstep : ∀ a c c', f c a = .ok c' → ∀ k, Has c' k ↔ Has c k ∨ added a = some k) (k : κ) :
    Has b' k ↔ k ∈ l.filterMap added := by
  refine foldlM_invariant (fun before c => ∀ k, Has c k ↔ k ∈ before.filterMap added) h ?_ ?_ k
  · intro k
    exact iff_of_false (hinit k) List.not_mem_nil
  · intro before a c c' ih hac k
    rw [hstep a c c' hac, ih, List.filterMap_append, List.mem_append]
    simp

/-- A loop whose steps have known results is a loop without failures. -/
theorem foldlM_eq_foldl {f : β → α → Except ε β} {g : β → α → β} {l : List α} {b : β}
    (h : ∀ b, ∀ a ∈ l, f b a = .ok (g b a)) : l.foldlM f b = .ok (l.foldl g b) := by
  induction l generalizing b with
  | nil => rfl
  | cons a l ih =>
    rw [List.foldlM_cons, h b a List.mem_cons_self]
    exact ih fun b a' ha' => h b a' (List.mem_cons_of_mem a ha')

/-- Elements that a loop passes over do not matter to it. -/
theorem foldlM_filter {f : β → α → Except ε β} {p : α → Bool} {l : List α} {b : β}
    (h : ∀ b, ∀ a ∈ l, p a = false → f b a = .ok b) : l.foldlM f b = (l.filter p).foldlM f b := by
  induction l generalizing b with
  | nil => rfl
  | cons a l ih =>
    have ih := fun b => ih (b := b) fun b a' ha' => h b a' (List.mem_cons_of_mem a ha')
    rw [List.foldlM_cons]
    cases hp : p a with
    | false =>
      rw [h b a List.mem_cons_self hp, List.filter_cons_of_neg (by simp [hp])]
      exact ih b
    | true =>
      rw [List.filter_cons_of_pos hp, List.foldlM_cons]
      exact congrArg _ (funext ih)

end Fallible
