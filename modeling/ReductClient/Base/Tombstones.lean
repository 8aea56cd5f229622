-- SUMMARY: Logs that bind and remove keys, where an entry is removed by marking it in place; the map that a log denotes.
import Mathlib.Data.List.Induction
import Std.Data.ExtTreeMap

/-! # Tombstones

The entries of a log bind values to keys. An entry that has been marked as removed
unbinds its key. The last entry of a key decides. -/

namespace Tombstones

/-- An entry of a log. -/
structure Entry (κ α : Type) where
  key : κ
  value : α
  removed : Bool

variable {κ α : Type}

/-- Mark the entries with the selected keys. -/
def mark (selected : κ → Bool) (log : List (Entry κ α)) : List (Entry κ α) :=
  log.map fun e => { e with removed := e.removed || selected e.key }

theorem mark_concat (selected : κ → Bool) (log : List (Entry κ α)) (e : Entry κ α) :
    mark selected (log ++ [e]) =
      mark selected log ++ [{ e with removed := e.removed || selected e.key }] :=
  List.map_append

variable [Ord κ] [Std.TransOrd κ]

/-- What an entry does to the map. -/
def Entry.apply (m : Std.ExtTreeMap κ α compare) (e : Entry κ α) : Std.ExtTreeMap κ α compare :=
  if e.removed then m.erase e.key else m.insert e.key e.value

/-- The map that a log denotes. -/
def replay (log : List (Entry κ α)) : Std.ExtTreeMap κ α compare := log.foldl Entry.apply ∅

@[simp] theorem replay_nil : replay ([] : List (Entry κ α)) = ∅ := rfl

theorem replay_append (log log' : List (Entry κ α)) :
    replay (log ++ log') = log'.foldl Entry.apply (replay log) := by
  rw [replay, List.foldl_append]
  rfl

/-- Entries that are not marked are inserted one after the other. -/
theorem replay_append_bindings (log : List (Entry κ α)) (bindings : List (κ × α)) :
    replay (log ++ bindings.map fun b => ⟨b.1, b.2, false⟩) =
      (replay log).insertMany bindings := by
  rw [replay_append, List.foldl_map, Std.ExtTreeMap.insertMany_list_eq_foldl]
  rfl

/-- The last entry decides about its key, and leaves the other ones alone. -/
theorem getElem?_replay_concat (log : List (Entry κ α)) (e : Entry κ α) (key : κ) :
    (replay (log ++ [e]))[key]? =
      if compare e.key key = .eq then (if e.removed then none else some e.value)
      else (replay log)[key]? := by
  rw [replay_append, List.foldl_cons, List.foldl_nil, Entry.apply]
  cases e.removed with
  | true => simp only [if_true, Std.ExtTreeMap.getElem?_erase]
  | false => simp only [Bool.false_eq_true, if_false, Std.ExtTreeMap.getElem?_insert]

variable [Std.LawfulEqOrd κ]

theorem getElem?_replay_mark (selected : κ → Bool) (log : List (Entry κ α)) (key : κ) :
    (replay (mark selected log))[key]? = if selected key then none else (replay log)[key]? := by
  induction log using List.reverseRecOn with
  | nil => simp [mark]
  | append_singleton log e ih =>
    rw [mark_concat, getElem?_replay_concat, getElem?_replay_concat, ih]
    by_cases hkey : compare e.key key = .eq
    · -- the entry decides, before and after
      obtain rfl := Std.compare_eq_iff_eq.1 hkey
      rw [if_pos hkey, if_pos hkey]
      cases e.removed <;> cases selected e.key <;> rfl
    · rw [if_neg hkey, if_neg hkey]

/-- The selected keys are unbound, whatever the log had for them before, and the
other ones keep their values. -/
theorem replay_mark (selected : κ → Bool) (log : List (Entry κ α)) :
    replay (mark selected log) = (replay log).filter fun key _ => !selected key := by
  apply Std.ExtTreeMap.ext_getElem?
  intro key
  rw [getElem?_replay_mark, Std.ExtTreeMap.getElem?_filter']
  cases selected key <;> cases (replay log)[key]? <;> rfl

end Tombstones
