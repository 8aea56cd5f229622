-- SUMMARY: The loop of `ParseLabelDeltaOps` with its position in the text: every access is in range, and the loop ends.
import ReductClient.Internal.BatchV2

open Cxx Fallible

namespace Reduct

/-! ## The loop with positions

`labelDeltaLoop` goes from one rest of the text to the next. The source keeps the
whole text and a position `pos`, and its accesses are checked or undefined. -/

/-- `raw.find(c, pos)`. -/
def findFrom (c : UInt8) (raw : Bytes) (pos : Nat) : Option Nat :=
  (splitFirst c (raw.drop pos)).map fun (before, _) => pos + before.length

/-- `raw[pos]`. -/
def byteAt (raw : Bytes) (pos : Nat) : Except Fault UInt8 :=
  match raw[pos]? with
  | some c => .ok c
  | none => .error .undefinedBehaviour

/-- `pos < raw.size() && raw[pos] == c`. -/
def standsAt (c : UInt8) (raw : Bytes) (pos : Nat) : Except Fault Bool :=
  if pos < raw.length then do
    let b ← byteAt raw pos
    pure (decide (b = c))
  else pure false

/-- The label name of a key, where `at(idx)` is a checked access. -/
def labelNameAt (labelNames : Option (List Bytes)) (key : Bytes) : Except Fault Bytes :=
  match labelNames with
  | none => pure key
  | some names =>
    if key ≠ [] ∧ key.all isDigit then do
      let idx ← stoul key
      if idx < names.length then
        match names[idx]? with
        | some name => pure name
        | none => throw .outOfRange
      else pure key
    else pure key

/-- The value at a position with the position after it. -/
def labelValueAt (raw : Bytes) (pos : Nat) : Except Fault (Option (Option Bytes × Nat)) := do
  if ← standsAt quotation raw pos then
    match findFrom quotation raw (pos + 1) with
    | none => pure none
    | some quote =>
      let value ← substr raw (pos + 1) (quote - (pos + 1))
      pure (some (some value, quote + 1))
  else
    let stop := (findFrom comma raw pos).getD raw.length
    let slice ← substr raw pos (stop - pos)
    pure (some (if trim slice = [] then none else some (trim slice), stop))

/-- The position after a comma and blanks. -/
def skipSeparatorAt (raw : Bytes) (pos : Nat) : Except Fault Nat := do
  let pos := if ← standsAt comma raw pos then pos + 1 else pos
  pure (pos + ((raw.drop pos).takeWhile isSpace).length)

/-- The loop of `ParseLabelDeltaOps` from a position on. There is no result if it
makes more rounds than it is given. -/
def labelDeltaLoopAt (labelNames : Option (List Bytes)) (raw : Bytes) :
    Nat → Nat → Except Fault (Option (List (Bytes × Option Bytes)))
  | 0, _ => pure none
  | rounds + 1, pos =>
    if pos < raw.length then
      match findFrom equalsSign raw pos with
      | none => pure (some [])
      | some eq => do
        let rawKey ← substr raw pos (eq - pos)
        let key ← labelNameAt labelNames (trim rawKey)
        match ← labelValueAt raw (eq + 1) with
        | none => pure (some [])
        | some (value, pos) =>
          let pos ← skipSeparatorAt raw pos
          let ops ← labelDeltaLoopAt labelNames raw rounds pos
          pure (ops.map ((key, value) :: ·))
    else pure (some [])

/-! ## No access is out of range -/

theorem labelNameAt_eq (labelNames : Option (List Bytes)) (key : Bytes) :
    labelNameAt labelNames key = resolveLabelName labelNames key := by
  cases labelNames with
  | none => rfl
  | some names =>
    rw [labelNameAt, resolveLabelName]
    by_cases hdigits : key ≠ [] ∧ key.all isDigit = true
    · rw [if_pos hdigits, if_pos hdigits]
      refine congrArg _ (funext fun idx => ?_)
      by_cases hlt : idx < names.length
      · rw [if_pos hlt, List.getElem?_eq_getElem hlt]
        rfl
      · rw [if_neg hlt, List.getElem?_eq_none (Nat.le_of_not_lt hlt)]
        rfl
    · rw [if_neg hdigits, if_neg hdigits]

section Positions

variable {raw : Bytes} {pos : Nat}

theorem head?_drop (raw : Bytes) (pos : Nat) : (raw.drop pos).head? = raw[pos]? := by
  rw [List.head?_eq_getElem?, List.getElem?_drop, Nat.add_zero]

theorem standsAt_eq (c : UInt8) (raw : Bytes) (pos : Nat) :
    standsAt c raw pos = .ok (decide ((raw.drop pos).head? = some c)) := by
  rw [standsAt, head?_drop]
  by_cases hlt : pos < raw.length
  · rw [if_pos hlt, byteAt, List.getElem?_eq_getElem hlt]
    simp only [ok_bind, Option.some.injEq]
    rfl
  · rw [if_neg hlt, List.getElem?_eq_none (Nat.le_of_not_lt hlt)]
    rfl

/-- What `find` finds: the text before it, and what is left after it. -/
theorem findFrom_eq_some {c : UInt8} {before after : Bytes}
    (h : splitFirst c (raw.drop pos) = some (before, after)) :
    findFrom c raw pos = some (pos + before.length) ∧ pos + before.length < raw.length ∧
      raw.drop (pos + before.length) = c :: after := by
  have hsplit := (splitFirst_eq_some.1 h).1
  have hlength := congrArg List.length hsplit
  rw [List.length_drop, List.length_append, List.length_cons] at hlength
  refine ⟨by rw [findFrom, h, Option.map_some], by omega, ?_⟩
  rw [← List.drop_drop, hsplit, List.drop_left]

theorem findFrom_eq_none {c : UInt8} (h : splitFirst c (raw.drop pos) = none) :
    findFrom c raw pos = none := by
  rw [findFrom, h, Option.map_none]

/-- The text between a position and what is found after it. -/
theorem substr_eq {before after : Bytes} (hpos : pos ≤ raw.length)
    (h : raw.drop pos = before ++ after) :
    substr raw pos (pos + before.length - pos) = .ok before := by
  rw [substr, if_pos hpos, h, Nat.add_sub_cancel_left, List.take_left]

/-- A position goes on to a later one, and the text that is left there. -/
def LeadsTo (raw : Bytes) (pos pos' : Nat) (rest : Bytes) : Prop :=
  pos ≤ pos' ∧ pos' ≤ raw.length ∧ raw.drop pos' = rest

/-- The value is read in range, and the position after it is in range. -/
theorem labelValueAt_eq (hpos : pos ≤ raw.length) :
    (labelValue (raw.drop pos) = none ∧ labelValueAt raw pos = .ok none) ∨
      ∃ value rest pos', labelValue (raw.drop pos) = some (value, rest) ∧
        labelValueAt raw pos = .ok (some (value, pos')) ∧ LeadsTo raw pos pos' rest := by
  rw [labelValue, labelValueAt, standsAt_eq, ok_bind]
  by_cases hquote : (raw.drop pos).head? = some quotation
  · have hlt : pos < raw.length := by
      rw [head?_drop] at hquote
      exact (List.getElem?_eq_some_iff.1 hquote).1
    have hdrop : (raw.drop pos).drop 1 = raw.drop (pos + 1) := List.drop_drop
    rw [if_pos hquote, hdrop, decide_eq_true hquote, if_pos rfl]
    cases hsplit : splitFirst quotation (raw.drop (pos + 1)) with
    | none =>
      rw [findFrom_eq_none hsplit]
      exact .inl ⟨rfl, rfl⟩
    | some parts =>
      obtain ⟨hfind, hend, hrest⟩ := findFrom_eq_some hsplit
      refine .inr ⟨some parts.1, parts.2, pos + 1 + parts.1.length + 1, rfl, ?_, by omega, hend, ?_⟩
      · rw [hfind]
        dsimp only
        rw [substr_eq hlt (splitFirst_eq_some.1 hsplit).1]
        rfl
      · rw [← List.drop_drop, hrest]
        rfl
  · rw [if_neg hquote, decide_eq_false hquote, if_neg Bool.false_ne_true]
    refine .inr ?_
    cases hsplit : splitFirst comma (raw.drop pos) with
    | none =>
      have hall : raw.drop pos = raw.drop pos ++ [] := (List.append_nil _).symm
      have hstop : raw.length - pos = pos + (raw.drop pos).length - pos := by
        rw [List.length_drop]
        omega
      refine ⟨_, _, raw.length, rfl, ?_, hpos, Nat.le_refl _, List.drop_length⟩
      rw [findFrom_eq_none hsplit]
      dsimp only [Option.getD_none]
      rw [hstop, substr_eq hpos hall]
      rfl
    | some parts =>
      obtain ⟨hfind, hend, hrest⟩ := findFrom_eq_some hsplit
      refine ⟨_, _, pos + parts.1.length, rfl, ?_, by omega, Nat.le_of_lt hend, hrest⟩
      rw [hfind]
      dsimp only [Option.getD_some]
      rw [substr_eq hpos (splitFirst_eq_some.1 hsplit).1]
      rfl

theorem skipSeparatorAt_eq (hpos : pos ≤ raw.length) :
    ∃ pos', skipSeparatorAt raw pos = .ok pos' ∧
      LeadsTo raw pos pos' (skipSeparator (raw.drop pos)) := by
  have hskip : ∀ pos, pos ≤ raw.length → LeadsTo raw pos
      (pos + ((raw.drop pos).takeWhile isSpace).length) ((raw.drop pos).dropWhile isSpace) := by
    intro pos hpos
    have hlength := (List.takeWhile_prefix isSpace (l := raw.drop pos)).length_le
    rw [List.length_drop] at hlength
    have happend := @List.takeWhile_append_dropWhile _ isSpace (raw.drop pos)
    refine ⟨by omega, by omega, ?_⟩
    calc raw.drop (pos + ((raw.drop pos).takeWhile isSpace).length)
        = (raw.drop pos).drop ((raw.drop pos).takeWhile isSpace).length := List.drop_drop.symm
      _ = ((raw.drop pos).takeWhile isSpace ++ (raw.drop pos).dropWhile isSpace).drop
            ((raw.drop pos).takeWhile isSpace).length := by rw [happend]
      _ = (raw.drop pos).dropWhile isSpace := List.drop_left
  rw [skipSeparatorAt, standsAt_eq, ok_bind, skipSeparator]
  by_cases hcomma : (raw.drop pos).head? = some comma
  · have hlt : pos < raw.length := by
      rw [head?_drop] at hcomma
      exact (List.getElem?_eq_some_iff.1 hcomma).1
    obtain ⟨hle, hend, hrest⟩ := hskip (pos + 1) hlt
    have hdrop : (raw.drop pos).drop 1 = raw.drop (pos + 1) := List.drop_drop
    rw [if_pos hcomma, hdrop, decide_eq_true hcomma]
    exact ⟨pos + 1 + ((raw.drop (pos + 1)).takeWhile isSpace).length, rfl, by omega, hend, hrest⟩
  · rw [if_neg hcomma, decide_eq_false hcomma]
    exact ⟨_, rfl, hskip pos hpos⟩

/-- The loop is that of the rest of the text. From one round to the next the position
grows, so it makes at most one more round than there are characters left. -/
theorem labelDeltaLoopAt_eq (labelNames : Option (List Bytes)) {rounds fuel : Nat}
    (hpos : pos ≤ raw.length) (hrounds : raw.length - pos < rounds) (hfuel : raw.length - pos ≤ fuel) :
    labelDeltaLoopAt labelNames raw rounds pos =
      labelDeltaLoop labelNames fuel (raw.drop pos) >>= fun ops => .ok (some ops) := by
  induction rounds generalizing pos fuel with
  | zero => omega
  | succ rounds ih =>
    rw [labelDeltaLoopAt]
    by_cases hlt : pos < raw.length
    · obtain ⟨fuel, rfl⟩ : ∃ n, fuel = n + 1 := ⟨fuel - 1, by omega⟩
      rw [if_pos hlt, labelDeltaLoop]
      cases hsplit : splitFirst equalsSign (raw.drop pos) with
      | none =>
        rw [findFrom_eq_none hsplit]
        rfl
      | some parts =>
        obtain ⟨hfind, heq, hrest⟩ := findFrom_eq_some hsplit
        have hvalue : raw.drop (pos + parts.1.length + 1) = parts.2 := by
          rw [← List.drop_drop, hrest]
          rfl
        rw [hfind]
        dsimp only
        rw [substr_eq hpos (splitFirst_eq_some.1 hsplit).1, ok_bind, labelNameAt_eq, bind_assoc]
        refine congrArg _ (funext fun key => ?_)
        have hvalueAt := @labelValueAt_eq raw (pos + parts.1.length + 1) heq
        rw [hvalue] at hvalueAt
        obtain ⟨hnone, hat⟩ | ⟨value, rest, pos', hsome, hat, hle, hend, hdrop⟩ := hvalueAt
        · rw [hat, hnone]
          rfl
        · obtain ⟨pos'', hskipAt, hle', hend', hdrop'⟩ := @skipSeparatorAt_eq raw pos' hend
          rw [hat, hsome, ok_bind]
          dsimp only
          rw [hskipAt, ok_bind, @ih pos'' fuel hend' (by omega) (by omega), hdrop', hdrop,
            bind_assoc, bind_assoc]
          rfl
    · have hnil : raw.drop pos = [] := List.drop_eq_nil_iff.2 (Nat.le_of_not_lt hlt)
      rw [if_neg hlt, hnil]
      cases fuel <;> rfl

end Positions

/-- `ParseLabelDeltaOps` ends, and the only exception that leaves it is that of a
number in a key. -/
theorem labelDeltaLoopAt_start (raw : Bytes) (labelNames : Option (List Bytes)) :
    labelDeltaLoopAt labelNames raw (raw.length + 1) 0 =
      parseLabelDeltaOps raw labelNames >>= fun ops => .ok (some ops) :=
  labelDeltaLoopAt_eq labelNames (Nat.zero_le _) (by omega) (by omega)

end Reduct
