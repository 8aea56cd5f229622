-- SUMMARY: The names of v2 record headers: the names that `ParseBatchedHeaderNameV2` recognises as the format says, and those that it takes too.
import ReductClient.Internal.DecoderAgreement
import ReductClient.Internal.TimeParse

open Cxx Fallible

namespace Reduct

/-! ## The format -/

/-- The name is `x-reduct-<I>-<D>`, where `I` and `D` are the digits of the two numbers. -/
def IsRecordName (name : Bytes) (entryIdx delta : Nat) : Prop :=
  ∃ entryStr deltaStr, name = kHeaderPrefix ++ (entryStr ++ dash :: deltaStr) ∧
    IsNumeral entryStr ∧ IsNumeral deltaStr ∧
      digitsValue entryStr = entryIdx ∧ digitsValue deltaStr = delta ∧
        entryIdx < 2 ^ 64 ∧ delta < 2 ^ 64

/-- The name has a number of 64 bits at the front of the text before its last dash, and
another one behind the dash, but something else is there too. -/
def LooseName (name : Bytes) : Prop :=
  kHeaderErrorPrefix.isPrefixOf name = false ∧ ∃ entryStr deltaStr,
    name = kHeaderPrefix ++ (entryStr ++ dash :: deltaStr) ∧ dash ∉ deltaStr ∧
      ReadsUnsigned entryStr ∧ ReadsUnsigned deltaStr ∧
        ¬ (IsNumeral entryStr ∧ IsNumeral deltaStr)

/-- The number is 0, or it does not start with a zero. -/
def Canonical (s : Bytes) : Prop := s.head? = some (digitByte 0) → s = [digitByte 0]

/-- The numbers in the name have no leading zeros. -/
def NoLeadingZeros (name : Bytes) : Prop :=
  ∀ entryStr deltaStr, splitLast dash (name.drop kHeaderPrefix.length) = some (entryStr, deltaStr) →
    Canonical entryStr ∧ Canonical deltaStr

theorem IsNumeral.all_isDigit {s : Bytes} (h : IsNumeral s) : s.all isDigit = true :=
  List.all_eq_true.2 h.2

theorem stoull_numeral {s : Bytes} (h : IsNumeral s) {n : Nat} :
    stoull s = .ok n ↔ digitsValue s = n ∧ n < 2 ^ 64 := by
  simp only [stoull, readNumeral_isDigit h.1 h.all_isDigit, Bool.false_eq_true, if_false]
  split
  · rename_i hlt
    rw [Except.ok.injEq]
    exact ⟨fun heq => ⟨heq, heq ▸ hlt⟩, And.left⟩
  · rename_i hge
    refine iff_of_false (by simp) ?_
    rintro ⟨rfl, hlt⟩
    exact hge hlt

/-- Without leading zeros, a number is written in one way. -/
theorem IsNumeral.eq_decimal {s : Bytes} (h : IsNumeral s) (hcanonical : Canonical s) :
    s = decimal (digitsValue s) := by
  obtain ⟨c, cs, rfl⟩ := List.exists_cons_of_ne_nil h.1
  by_cases hzero : c = digitByte 0
  · subst hzero
    rw [hcanonical rfl]
    rfl
  · have hdigits := map_digitByte_of_isDigit h.all_isDigit
    have hlt := lt_of_mem_digits h.all_isDigit
    rw [digitsValue]
    rw [List.map_cons] at hdigits hlt ⊢
    generalize c.toNat - 0x30 = d at hdigits hlt ⊢
    generalize cs.map (fun c => c.toNat - 0x30) = ds at hdigits hlt ⊢
    -- the first digit is the highest one
    have hlast : ∀ hne : (d :: ds).reverse ≠ [], (d :: ds).reverse.getLast hne ≠ 0 := by
      intro _ hnil
      rw [List.getLast_reverse, List.head_cons] at hnil
      rw [hnil, List.map_cons, List.cons.injEq] at hdigits
      exact hzero hdigits.1.symm
    have hback := Nat.digits_ofDigits 10 (by decide) (d :: ds).reverse
      (fun d' hd => hlt d' (List.mem_reverse.1 hd)) hlast
    have hpos : Nat.ofDigits 10 (d :: ds).reverse ≠ 0 := by
      intro hnil
      rw [hnil, Nat.digits_zero] at hback
      exact List.cons_ne_nil d ds (List.reverse_eq_nil_iff.1 hback.symm)
    rw [decimal, if_neg hpos, hback, List.reverse_reverse, hdigits]

/-! ## The parser -/

theorem IsRecordName.parse {name : Bytes} {entryIdx delta : Nat}
    (h : IsRecordName name entryIdx delta) :
    parseBatchedHeaderNameV2 name = some (entryIdx, delta) := by
  obtain ⟨entryStr, deltaStr, rfl, hentry, hdelta, hidx, hval, hidxLt, hdeltaLt⟩ := h
  refine parseBatchedHeaderNameV2_eq_some.2 ⟨?_, entryStr, deltaStr, rfl, hdelta.no_dash,
    (stoull_numeral hentry).2 ⟨hidx, hidxLt⟩, (stoull_numeral hdelta).2 ⟨hval, hdeltaLt⟩⟩
  obtain ⟨d, ds, rfl⟩ := List.exists_cons_of_ne_nil hentry.1
  exact not_errorName_of_isDigit (hentry.2 d List.mem_cons_self) _

/-- Any other name that is recognised is a loose one. -/
theorem isRecordName_of_parse {name : Bytes} (hloose : ¬ LooseName name) {entryIdx delta : Nat}
    (h : parseBatchedHeaderNameV2 name = some (entryIdx, delta)) :
    IsRecordName name entryIdx delta := by
  obtain ⟨herror, entryStr, deltaStr, hname, hdash, hidx, hdelta⟩ :=
    parseBatchedHeaderNameV2_eq_some.1 h
  have hnumerals : IsNumeral entryStr ∧ IsNumeral deltaStr := by
    by_contra hnot
    exact hloose ⟨herror, entryStr, deltaStr, hname, hdash, stoull_returns.1 ⟨_, hidx⟩,
      stoull_returns.1 ⟨_, hdelta⟩, hnot⟩
  obtain ⟨hidxValue, hidxLt⟩ := (stoull_numeral hnumerals.1).1 hidx
  obtain ⟨hdeltaValue, hdeltaLt⟩ := (stoull_numeral hnumerals.2).1 hdelta
  exact ⟨entryStr, deltaStr, hname, hnumerals.1, hnumerals.2, hidxValue, hdeltaValue, hidxLt,
    hdeltaLt⟩

/-- A loose name is recognised although it is not of the format. -/
theorem LooseName.parse {name : Bytes} (h : LooseName name) :
    ∃ entryIdx delta, parseBatchedHeaderNameV2 name = some (entryIdx, delta) ∧
      ¬ IsRecordName name entryIdx delta := by
  obtain ⟨herror, entryStr, deltaStr, rfl, hdash, hentry, hdelta, hnot⟩ := h
  obtain ⟨entryIdx, hidx⟩ := stoull_returns.2 hentry
  obtain ⟨delta, hval⟩ := stoull_returns.2 hdelta
  refine ⟨entryIdx, delta, parseBatchedHeaderNameV2_eq_some.2
    ⟨herror, entryStr, deltaStr, rfl, hdash, hidx, hval⟩, ?_⟩
  rintro ⟨entryStr', deltaStr', hname, hentry', hdelta', -⟩
  -- the last dash separates the numbers in one way only
  have hsplit := splitLast_append entryStr hdash
  rw [List.append_cancel_left hname, splitLast_append _ hdelta'.no_dash] at hsplit
  cases hsplit
  exact hnot ⟨hentry', hdelta'⟩

/-- Without leading zeros, it is the name that the encoder writes. -/
theorem IsRecordName.eq_recordNameV2 {name : Bytes} {entryIdx delta : Nat}
    (h : IsRecordName name entryIdx delta) (hzeros : NoLeadingZeros name) :
    name = recordNameV2 (entryIdx, delta) := by
  obtain ⟨entryStr, deltaStr, rfl, hentry, hdelta, rfl, rfl, -, -⟩ := h
  obtain ⟨hcanonical, hcanonical'⟩ := hzeros entryStr deltaStr (by
    rw [List.drop_left, splitLast_append _ hdelta.no_dash])
  rw [recordNameV2, ← hentry.eq_decimal hcanonical, ← hdelta.eq_decimal hcanonical',
    List.append_assoc]

/-- Of the names of a response, exactly those of the format are recognised, with the
numbers that they denote. Without leading zeros, no two of them denote the same record. -/
structure RecognisesExactly (names : Set Bytes) : Prop where
  exact : ∀ name ∈ names, ∀ entryIdx delta,
    parseBatchedHeaderNameV2 name = some (entryIdx, delta) ↔ IsRecordName name entryIdx delta
  distinct : ∀ name ∈ names, ∀ name' ∈ names, NoLeadingZeros name → NoLeadingZeros name' →
    ∀ record, parseBatchedHeaderNameV2 name = some record →
      parseBatchedHeaderNameV2 name' = some record → name = name'

/-- This holds of the names among which there is no loose one. -/
theorem recognisesExactly_iff (names : Set Bytes) :
    RecognisesExactly names ↔ ∀ name ∈ names, ¬ LooseName name := by
  constructor
  · intro h name hname hloose
    obtain ⟨entryIdx, delta, hparse, hnot⟩ := hloose.parse
    exact hnot ((h.exact name hname entryIdx delta).1 hparse)
  · intro h
    refine ⟨fun name hname entryIdx delta => ?_, ?_⟩
    · exact ⟨isRecordName_of_parse (h name hname), IsRecordName.parse⟩
    · rintro name hname name' hname' hzeros hzeros' ⟨entryIdx, delta⟩ hparse hparse'
      have hrecord := isRecordName_of_parse (h name hname) hparse
      have hrecord' := isRecordName_of_parse (h name' hname') hparse'
      rw [hrecord.eq_recordNameV2 hzeros, hrecord'.eq_recordNameV2 hzeros']

/-- Trailing letters, signs, blanks and further numbers: all these names denote the record
of `x-reduct-0-5`. A minus sign gives an index of 20 digits. -/
theorem recognisesExactly_broken :
    (∀ name ∈ ["x-reduct-0-5x", "x-reduct-+0-5", "x-reduct-0- 5", "x-reduct-0-1-5",
        "x-reduct-0-5"], parseBatchedHeaderNameV2 (bytes name) = some (0, 5)) ∧
      parseBatchedHeaderNameV2 (bytes "x-reduct--1-5") = some (2 ^ 64 - 1, 5) ∧
      ¬ RecognisesExactly {bytes "x-reduct-0-5x"} := by
  refine ⟨by decide, by decide, fun h => ?_⟩
  have hloose : LooseName (bytes "x-reduct-0-5x") :=
    ⟨rfl, bytes "0", bytes "5x", rfl, by decide, ⟨false, 0, rfl, by decide⟩,
      ⟨false, 5, rfl, by decide⟩, fun hnumerals =>
        absurd (hnumerals.2.2 0x78 (by decide)) (by decide)⟩
  obtain ⟨entryIdx, delta, hparse, hnot⟩ := hloose.parse
  exact hnot ((h.exact _ rfl entryIdx delta).1 hparse)

end Reduct
