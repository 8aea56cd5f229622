-- SUMMARY: Percent decoding of entry names: the strings that `DecodeEntryName` decodes as the escapes in them say, and those that it takes too.
import ReductClient.Internal.EntryNames

open Cxx Fallible

namespace Reduct

/-! ## Escapes -/

/-- A hexadecimal digit, in upper or lower case. -/
def IsHexDigit (c : UInt8) : Prop := ∃ d, digitValue 16 c = some d

/-- The two characters after each percent sign that a reader from the left comes to,
or as many as are left. -/
def escapes : Bytes → List Bytes
  | [] => []
  | c :: rest =>
    if c = percent then
      match rest with
      | h₁ :: h₂ :: rest => [h₁, h₂] :: escapes rest
      | rest => [rest]
    else escapes rest

theorem escapes_cons {c : UInt8} (hc : c ≠ percent) (s : Bytes) : escapes (c :: s) = escapes s := by
  rw [escapes.eq_def]
  simp [hc]

theorem escapes_percent (h₁ h₂ : UInt8) (s : Bytes) :
    escapes (percent :: h₁ :: h₂ :: s) = [h₁, h₂] :: escapes s := by
  rw [escapes.eq_def]
  rfl

/-- The string ends with an escape that is cut off. -/
theorem escapes_cut {rest : Bytes} (h : ∀ h₁ h₂ s, rest = h₁ :: h₂ :: s → False) :
    escapes (percent :: rest) = [rest] ∧ decodeEntryName (percent :: rest) = none := by
  match rest, h with
  | [], _ => exact ⟨rfl, rfl⟩
  | [_], _ => exact ⟨rfl, rfl⟩
  | h₁ :: h₂ :: s, h => exact (h h₁ h₂ s rfl).elim

/-! ## Strict decoding -/

/-- Every percent sign is followed by two hexadecimal digits. -/
def EscapesComplete (s : Bytes) : Prop :=
  ∀ before after, s = before ++ percent :: after →
    ∃ h₁ h₂ rest, after = h₁ :: h₂ :: rest ∧ IsHexDigit h₁ ∧ IsHexDigit h₂

/-- The second string is the first with each escape replaced by the byte it denotes. -/
inductive Unescaped : Bytes → Bytes → Prop where
  | nil : Unescaped [] []
  | plain {c : UInt8} {s t : Bytes} (hc : c ≠ percent) (h : Unescaped s t) :
      Unescaped (c :: s) (c :: t)
  | escape {h₁ h₂ : UInt8} {d₁ d₂ : Nat} {s t : Bytes} (hd₁ : digitValue 16 h₁ = some d₁)
      (hd₂ : digitValue 16 h₂ = some d₂) (h : Unescaped s t) :
      Unescaped (percent :: h₁ :: h₂ :: s) (UInt8.ofNat (16 * d₁ + d₂) :: t)

theorem not_isHexDigit_percent : ¬ IsHexDigit percent := by
  rintro ⟨d, hd⟩
  cases hd

theorem escapesComplete_nil : EscapesComplete [] := fun _ _ h => by simp at h

theorem escapesComplete_cons {c : UInt8} (hc : c ≠ percent) (s : Bytes) :
    EscapesComplete (c :: s) ↔ EscapesComplete s := by
  constructor
  · intro h before after hs
    exact h (c :: before) after (by rw [hs, List.cons_append])
  · intro h before after hs
    cases before with
    | nil =>
      rw [List.nil_append, List.cons.injEq] at hs
      exact absurd hs.1 hc
    | cons b before =>
      rw [List.cons_append, List.cons.injEq] at hs
      exact h before after hs.2

/-- The digits of an escape are no percent signs, so the escapes after it are those of
the rest. -/
theorem escapesComplete_percent {h₁ h₂ : UInt8} {s : Bytes} :
    EscapesComplete (percent :: h₁ :: h₂ :: s) ↔
      (IsHexDigit h₁ ∧ IsHexDigit h₂) ∧ EscapesComplete s := by
  have hne : ∀ {c}, IsHexDigit c → c ≠ percent := fun h heq => not_isHexDigit_percent (heq ▸ h)
  constructor
  · intro h
    obtain ⟨_, _, _, ⟨⟩, hd₁, hd₂⟩ := h [] _ rfl
    refine ⟨⟨hd₁, hd₂⟩, fun before after hs => ?_⟩
    exact h (percent :: h₁ :: h₂ :: before) after (by simp [hs])
  · rintro ⟨⟨hd₁, hd₂⟩, h⟩ before after hs
    rw [← escapesComplete_cons (hne hd₂), ← escapesComplete_cons (hne hd₁)] at h
    cases before with
    | nil =>
      rw [List.nil_append, List.cons.injEq] at hs
      exact ⟨h₁, h₂, s, hs.2.symm, hd₁, hd₂⟩
    | cons b before =>
      rw [List.cons_append, List.cons.injEq] at hs
      exact h before after hs.2

/-- The strings whose escapes are complete are those that denote a string. -/
theorem exists_unescaped {s : Bytes} : (∃ t, Unescaped s t) ↔ EscapesComplete s := by
  constructor
  · rintro ⟨t, h⟩
    induction h with
    | nil => exact escapesComplete_nil
    | plain hc _ ih => exact (escapesComplete_cons hc _).2 ih
    | escape hd₁ hd₂ _ ih => exact escapesComplete_percent.2 ⟨⟨⟨_, hd₁⟩, ⟨_, hd₂⟩⟩, ih⟩
  · induction s using escapes.induct with
    | case1 => exact fun _ => ⟨[], .nil⟩
    | case2 h₁ h₂ rest ih =>
      intro h
      obtain ⟨⟨⟨d₁, hd₁⟩, ⟨d₂, hd₂⟩⟩, hrest⟩ := escapesComplete_percent.1 h
      obtain ⟨t, ht⟩ := ih hrest
      exact ⟨_, .escape hd₁ hd₂ ht⟩
    | case3 rest hcut =>
      intro h
      obtain ⟨h₁, h₂, s, hs, -⟩ := h [] rest rfl
      exact (hcut h₁ h₂ s hs).elim
    | case4 c rest hc ih =>
      intro h
      obtain ⟨t, ht⟩ := ih ((escapesComplete_cons hc rest).1 h)
      exact ⟨_, .plain hc ht⟩

/-! ## The digits of an escape -/

/-- A number can be read from the two characters: the first is a hexadecimal digit, or
the second is one after a blank or a sign. -/
def ReadableEscape (h₁ h₂ : UInt8) : Prop :=
  IsHexDigit h₁ ∨ (isSpace h₁ = true ∨ h₁ = 0x2D ∨ h₁ = 0x2B) ∧ IsHexDigit h₂

theorem not_isHexDigit {c : UInt8} : ¬ IsHexDigit c ↔ digitValue 16 c = none := by
  rw [Option.eq_none_iff_forall_ne_some, IsHexDigit, not_exists]

theorem IsHexDigit.isAlnum {c : UInt8} (h : IsHexDigit c) : isAlnum c = true := by
  obtain ⟨d, hd⟩ := h
  exact isAlnum_of_digitValue hd

theorem IsHexDigit.not_space {c : UInt8} (h : IsHexDigit c) : isSpace c = false := by
  have halnum := h.isAlnum
  rw [Cxx.isAlnum, Bool.or_eq_true] at halnum
  rcases halnum with hdigit | hletter
  · exact (isDigit_cases hdigit).2.1
  · exact (isLetter_cases hletter).2.1

theorem IsHexDigit.not_sign {c : UInt8} (h : IsHexDigit c) : c ≠ 0x2D ∧ c ≠ 0x2B := by
  have hsigns : Cxx.isAlnum 0x2D = false ∧ Cxx.isAlnum 0x2B = false := by decide
  refine ⟨?_, ?_⟩
  · rintro rfl
    exact absurd (hsigns.1.symm.trans h.isAlnum) (by decide)
  · rintro rfl
    exact absurd (hsigns.2.symm.trans h.isAlnum) (by decide)

/-- What the digits of one or two characters are. -/
theorem readNumeral_short {h₁ : UInt8} {rest : Bytes} (hshort : rest.length ≤ 1)
    (hspace : isSpace h₁ = false) (hsign : h₁ ≠ 0x2D ∧ h₁ ≠ 0x2B) :
    readNumeral 16 (h₁ :: rest) =
      match digitRun 16 (h₁ :: rest) with
      | [] => none
      | ds => some (false, Nat.ofDigits 16 ds.reverse) := by
  have hskip : skipHexPrefix (h₁ :: rest) = h₁ :: rest := by
    match rest, hshort with
    | [], _ => rfl
    | [_], _ => rfl
  rw [readNumeral, List.dropWhile_cons_of_neg (by simp [hspace])]
  cases hrun : digitRun 16 (h₁ :: rest) with
  | nil => simp only [if_neg hsign.1, if_neg hsign.2, if_true, hskip, hrun]
  | cons d ds => simp only [if_neg hsign.1, if_neg hsign.2, if_true, hskip, hrun]

theorem readNumeral_sign {h₁ : UInt8} (hsign : h₁ = 0x2D ∨ h₁ = 0x2B) (h₂ : UInt8) :
    readNumeral 16 [h₁, h₂] =
      match digitRun 16 [h₂] with
      | [] => none
      | ds => some (h₁ = 0x2D, Nat.ofDigits 16 ds.reverse) := by
  rcases hsign with rfl | rfl <;> rfl

/-- One hexadecimal digit is read alone, anything else is not a number. -/
theorem readNumeral_single (c : UInt8) :
    readNumeral 16 [c] = (digitValue 16 c).map (false, ·) := by
  cases hd : digitValue 16 c with
  | some d =>
    have hc : IsHexDigit c := ⟨d, hd⟩
    rw [readNumeral_short (by simp) hc.not_space hc.not_sign, digitRun_some hd]
    simp [digitRun]
  | none =>
    cases hspace : isSpace c with
    | true => rw [readNumeral_space hspace]; rfl
    | false =>
      by_cases hsign : c = 0x2D ∨ c = 0x2B
      · rcases hsign with rfl | rfl <;> rfl
      · rw [readNumeral_short (by simp) hspace (not_or.1 hsign), digitRun_none hd]
        rfl

theorem readNumeral_pair_hex {h₁ h₂ : UInt8} {d₁ d₂ : Nat} (hd₁ : digitValue 16 h₁ = some d₁)
    (hd₂ : digitValue 16 h₂ = some d₂) :
    readNumeral 16 [h₁, h₂] = some (false, 16 * d₁ + d₂) := by
  have hc : IsHexDigit h₁ := ⟨d₁, hd₁⟩
  rw [readNumeral_short (by simp) hc.not_space hc.not_sign, digitRun_some hd₁, digitRun_some hd₂]
  simp [digitRun, Nat.ofDigits_cons, Nat.add_comm]

theorem readNumeral_pair_readable {h₁ h₂ : UInt8} (h : ReadableEscape h₁ h₂) :
    ∃ negative m, readNumeral 16 [h₁, h₂] = some (negative, m) ∧ m < 256 := by
  rcases h with ⟨d₁, hd₁⟩ | ⟨hblank, d₂, hd₂⟩
  · have hlt₁ := digitValue_lt hd₁
    cases hd₂ : digitValue 16 h₂ with
    | some d₂ =>
      have hlt₂ := digitValue_lt hd₂
      exact ⟨_, _, readNumeral_pair_hex hd₁ hd₂, by omega⟩
    | none =>
      have hc : IsHexDigit h₁ := ⟨d₁, hd₁⟩
      refine ⟨false, d₁, ?_, by omega⟩
      rw [readNumeral_short (by simp) hc.not_space hc.not_sign, digitRun_some hd₁,
        digitRun_none hd₂]
      simp
  · have hlt₂ := digitValue_lt hd₂
    rcases hblank with hspace | hsign
    · rw [readNumeral_space hspace, readNumeral_single, hd₂]
      exact ⟨false, d₂, rfl, by omega⟩
    · rw [readNumeral_sign hsign, digitRun_some hd₂]
      exact ⟨_, _, rfl, by simpa [digitRun] using hlt₂.trans (by decide)⟩

theorem readNumeral_pair_unreadable {h₁ h₂ : UInt8} (h : ¬ ReadableEscape h₁ h₂) :
    readNumeral 16 [h₁, h₂] = none := by
  obtain ⟨hd₁, hrest⟩ := not_or.1 h
  have hd₂ : (isSpace h₁ = true ∨ h₁ = 0x2D ∨ h₁ = 0x2B) → digitValue 16 h₂ = none :=
    fun hblank => not_isHexDigit.1 fun hhex => hrest ⟨hblank, hhex⟩
  cases hspace : isSpace h₁ with
  | true => rw [readNumeral_space hspace, readNumeral_single, hd₂ (.inl hspace)]; rfl
  | false =>
    by_cases hsign : h₁ = 0x2D ∨ h₁ = 0x2B
    · rw [readNumeral_sign hsign, digitRun_none (hd₂ (.inr hsign))]
    · rw [readNumeral_short (by simp) hspace (not_or.1 hsign), digitRun_none (not_isHexDigit.1 hd₁)]

theorem stoi_pair_hex {h₁ h₂ : UInt8} {d₁ d₂ : Nat} (hd₁ : digitValue 16 h₁ = some d₁)
    (hd₂ : digitValue 16 h₂ = some d₂) : stoi [h₁, h₂] 16 = .ok (16 * d₁ + d₂ : Nat) := by
  have hlt₁ := digitValue_lt hd₁
  have hlt₂ := digitValue_lt hd₂
  simp only [stoi, stoSigned, readNumeral_pair_hex hd₁ hd₂, Bool.false_eq_true, if_false]
  exact if_pos (by omega)

/-- `std::stoi` returns on more than pairs of hexadecimal digits. -/
theorem returns_stoi_pair {h₁ h₂ : UInt8} :
    Returns (stoi [h₁, h₂] 16) ↔ ReadableEscape h₁ h₂ := by
  constructor
  · rintro ⟨n, hn⟩
    by_contra h
    rw [stoi, stoSigned, readNumeral_pair_unreadable h] at hn
    cases hn
  · intro h
    obtain ⟨negative, m, hread, hlt⟩ := readNumeral_pair_readable h
    simp only [stoi, stoSigned, hread]
    refine returns_ite.2 ?_
    cases negative
    · simp only [Bool.false_eq_true, if_false]
      omega
    · simp only [if_true]
      omega

/-! ## The decoder -/

/-- The escape is complete. -/
def StrictEscape (e : Bytes) : Prop := ∃ h₁ h₂, e = [h₁, h₂] ∧ IsHexDigit h₁ ∧ IsHexDigit h₂

/-- The escape is not complete, but a number can be read from its two characters. -/
def LooseEscape (e : Bytes) : Prop :=
  ∃ h₁ h₂, e = [h₁, h₂] ∧ ReadableEscape h₁ h₂ ∧ ¬ (IsHexDigit h₁ ∧ IsHexDigit h₂)

/-- A character is missing, or no number can be read. -/
def UnreadableEscape (e : Bytes) : Prop := ∀ h₁ h₂, e = [h₁, h₂] → ¬ ReadableEscape h₁ h₂

theorem StrictEscape.not_loose {e : Bytes} (h : StrictEscape e) : ¬ LooseEscape e := by
  obtain ⟨h₁, h₂, rfl, hhex⟩ := h
  rintro ⟨_, _, ⟨⟩, -, hnot⟩
  exact hnot hhex

theorem StrictEscape.not_unreadable {e : Bytes} (h : StrictEscape e) : ¬ UnreadableEscape e := by
  obtain ⟨h₁, h₂, rfl, hd₁, -⟩ := h
  exact fun hunreadable => hunreadable h₁ h₂ rfl (.inl hd₁)

/-- What is readable but not loose is complete. -/
theorem strictEscape_of_not_loose {e : Bytes} (hread : ¬ UnreadableEscape e)
    (hloose : ¬ LooseEscape e) : StrictEscape e := by
  by_contra hstrict
  refine hread fun h₁ h₂ heq hreadable => hloose ⟨h₁, h₂, heq, hreadable, fun hhex => ?_⟩
  exact hstrict ⟨h₁, h₂, heq, hhex⟩

theorem escapesComplete_iff {s : Bytes} : EscapesComplete s ↔ ∀ e ∈ escapes s, StrictEscape e := by
  induction s using escapes.induct with
  | case1 => exact iff_of_true escapesComplete_nil (by simp [escapes])
  | case2 h₁ h₂ rest ih =>
    rw [escapesComplete_percent, escapes_percent, List.forall_mem_cons, ← ih]
    refine and_congr_left fun _ => ⟨fun h => ⟨h₁, h₂, rfl, h⟩, ?_⟩
    rintro ⟨_, _, ⟨⟩, h⟩
    exact h
  | case3 rest hcut =>
    rw [(escapes_cut hcut).1, List.forall_mem_singleton]
    refine iff_of_false (fun h => ?_) ?_
    · obtain ⟨h₁, h₂, s, hs, -⟩ := h [] rest rfl
      exact hcut h₁ h₂ s hs
    · rintro ⟨h₁, h₂, hs, -⟩
      exact hcut h₁ h₂ [] hs
  | case4 c rest hc ih => rw [escapesComplete_cons hc, escapes_cons hc, ih]

/-- The decoder returns a value if and only if it can read all escapes. -/
theorem decodeEntryName_returns {s : Bytes} :
    (∃ t, decodeEntryName s = some t) ↔ ∀ e ∈ escapes s, ¬ UnreadableEscape e := by
  induction s using escapes.induct with
  | case1 => exact iff_of_true ⟨[], rfl⟩ (by simp [escapes])
  | case2 h₁ h₂ rest ih =>
    have hread : ¬ UnreadableEscape [h₁, h₂] ↔ Returns (stoi [h₁, h₂] 16) := by
      rw [returns_stoi_pair, not_iff_comm]
      refine ⟨fun h _ _ heq => ?_, fun h => h h₁ h₂ rfl⟩
      cases heq
      exact h
    rw [escapes_percent, List.forall_mem_cons, ← ih, hread, decodeEntryName_percent]
    cases stoi [h₁, h₂] 16 with
    | ok value =>
      rw [and_iff_right (returns_ok value)]
      simp only [Option.map_eq_some_iff]
      exact ⟨fun ⟨_, t, ht, _⟩ => ⟨t, ht⟩, fun ⟨t, ht⟩ => ⟨_, t, ht, rfl⟩⟩
    | error fault => exact iff_of_false nofun fun h => not_returns_error fault h.1
  | case3 rest hcut =>
    obtain ⟨hescapes, hnone⟩ := escapes_cut hcut
    rw [hescapes, hnone, List.forall_mem_singleton]
    refine iff_of_false nofun (not_not_intro fun h₁ h₂ hs => ?_)
    exact (hcut h₁ h₂ [] hs).elim
  | case4 c rest hc ih =>
    rw [escapes_cons hc, ← ih, decodeEntryName_cons hc]
    simp only [Option.map_eq_some_iff]
    exact ⟨fun ⟨_, t, ht, _⟩ => ⟨t, ht⟩, fun ⟨t, ht⟩ => ⟨_, t, ht, rfl⟩⟩

/-- Complete escapes are decoded as the bytes that they denote. -/
theorem decodeEntryName_of_unescaped {s t : Bytes} (h : Unescaped s t) :
    decodeEntryName s = some t := by
  induction h with
  | nil => rfl
  | plain hc _ ih =>
    rw [decodeEntryName_cons hc, ih]
    rfl
  | @escape h₁ h₂ d₁ d₂ s t hd₁ hd₂ _ ih =>
    have hlt₁ := digitValue_lt hd₁
    have hlt₂ := digitValue_lt hd₂
    have hbyte : (((16 * d₁ + d₂ : Nat) : Int) % 256).toNat = 16 * d₁ + d₂ := by omega
    rw [decodeEntryName_percent, stoi_pair_hex hd₁ hd₂]
    simp only [hbyte, ih, Option.map_some]

/-- The decoder returns a value exactly for the strings whose escapes are complete, and
the value is what they denote. -/
structure DecodesStrictly (s : Bytes) : Prop where
  accepts : (∃ t, decodeEntryName s = some t) ↔ EscapesComplete s
  value : ∀ t, decodeEntryName s = some t → Unescaped s t

/-- So it does unless it comes to a loose escape, and to no escape that it rejects. -/
theorem decodesStrictly_iff (s : Bytes) :
    DecodesStrictly s ↔
      (∀ e ∈ escapes s, ¬ LooseEscape e) ∨ ∃ e ∈ escapes s, UnreadableEscape e := by
  by_cases hread : ∀ e ∈ escapes s, ¬ UnreadableEscape e
  · have hsome := decodeEntryName_returns.2 hread
    have hnone : ¬ ∃ e ∈ escapes s, UnreadableEscape e := fun ⟨e, he, h⟩ => hread e he h
    rw [or_iff_left hnone]
    constructor
    · intro h e he
      exact (escapesComplete_iff.1 (h.accepts.1 hsome) e he).not_loose
    · intro h
      have hcomplete := escapesComplete_iff.2 fun e he =>
        strictEscape_of_not_loose (hread e he) (h e he)
      obtain ⟨t, ht⟩ := exists_unescaped.2 hcomplete
      refine ⟨iff_of_true hsome hcomplete, fun t' ht' => ?_⟩
      rw [decodeEntryName_of_unescaped ht, Option.some.injEq] at ht'
      exact ht' ▸ ht
  · have hsome := mt decodeEntryName_returns.1 hread
    refine iff_of_true ⟨iff_of_false hsome fun h => hread fun e he => ?_, ?_⟩ (.inr ?_)
    · exact (escapesComplete_iff.1 h e he).not_unreadable
    · exact fun t ht => absurd ⟨t, ht⟩ hsome
    · simpa using hread

/-- A digit and a letter that is none, a blank and a digit, and a sign and a digit. -/
theorem decodesStrictly_broken :
    decodeEntryName (bytes "%4g") = some [0x04] ∧ decodeEntryName (bytes "% 4") = some [0x04] ∧
      decodeEntryName (bytes "%-1") = some [0xFF] ∧ ¬ DecodesStrictly (bytes "%4g") := by
  have hdecode : decodeEntryName (bytes "%4g") = some [0x04] := by decide
  refine ⟨hdecode, by decide, by decide, fun h => ?_⟩
  obtain ⟨h₁, h₂, rest, heq, -, d, hd⟩ := h.accepts.1 ⟨_, hdecode⟩ [] (bytes "4g") rfl
  cases heq
  cases hd

end Reduct
