-- SUMMARY: The list of entry names: which names `ParseEncodedList` reads back as `EncodeEntryName` wrote them.
import ReductClient.Internal.Addressing

open Cxx

namespace Reduct

/-! ## Escapes -/

/-- Two hexadecimal digits are the number they stand for. -/
theorem stoi_hexDigits : ∀ a < 16, ∀ b < 16,
    stoi [hexDigit a, hexDigit b] 16 = .ok (16 * a + b : Nat) := by
  decide +kernel

/-- A percent sign behind a character ends the number, which is a digit then. -/
theorem stoi_before_percent : ∀ n < 256, ∀ value,
    stoi [UInt8.ofNat n, percent] 16 = .ok value →
      UInt8.ofNat (value % 256).toNat ≠ percent := by
  have hcheck : ∀ n < 256, (stoi [UInt8.ofNat n, percent] 16).toOption.all
      (fun value => decide (UInt8.ofNat (value % 256).toNat ≠ percent)) = true := by
    decide +kernel
  intro n hn value hvalue
  have h := hcheck n hn
  rw [hvalue] at h
  exact of_decide_eq_true h

/-- A percent sign is not a number. -/
theorem stoi_percent (c : UInt8) : stoi [percent, c] 16 = .error .invalidArgument := by
  have hdigit : digitValue 16 percent = none := by decide
  have hspace : isSpace percent = false := by decide
  have hdash : percent ≠ 0x2D := by decide
  have hplus : percent ≠ 0x2B := by decide
  simp [stoi, stoSigned, readNumeral, hspace, hdash, hplus, skipHexPrefix, digitRun, hdigit]

theorem isPlainEntryChar_hexDigit : ∀ d < 16, isPlainEntryChar (hexDigit d) = true := by decide

theorem hexDigit_ne_percent : ∀ d < 16, hexDigit d ≠ percent := by decide

theorem encodeEntryName_cons_plain {c : UInt8} (h : isPlainEntryChar c = true) (cs : Bytes) :
    encodeEntryName (c :: cs) = c :: encodeEntryName cs := by
  simp [encodeEntryName, h]

theorem encodeEntryName_cons_escaped {c : UInt8} (h : isPlainEntryChar c = false) (cs : Bytes) :
    encodeEntryName (c :: cs) =
      percent :: hexDigit (c.toNat / 16) :: hexDigit (c.toNat % 16) :: encodeEntryName cs := by
  simp [encodeEntryName, h]

theorem decodeEntryName_cons {c : UInt8} (h : c ≠ percent) (rest : Bytes) :
    decodeEntryName (c :: rest) = (decodeEntryName rest).map (c :: ·) := by
  rw [decodeEntryName.eq_def]
  simp [h]

theorem decodeEntryName_percent (c₁ c₂ : UInt8) (rest : Bytes) :
    decodeEntryName (percent :: c₁ :: c₂ :: rest) =
      match stoi [c₁, c₂] 16 with
      | .ok value => (decodeEntryName rest).map (UInt8.ofNat (value % 256).toNat :: ·)
      | .error _ => none := by
  rw [decodeEntryName.eq_def]
  rfl

/-- An escaped character is read back. -/
theorem decodeEntryName_escaped (c : UInt8) (rest : Bytes) :
    decodeEntryName (percent :: hexDigit (c.toNat / 16) :: hexDigit (c.toNat % 16) :: rest) =
      (decodeEntryName rest).map (c :: ·) := by
  have hc := c.toNat_lt
  have hvalue : 16 * (c.toNat / 16) + c.toNat % 16 = c.toNat := Nat.div_add_mod _ _
  rw [decodeEntryName_percent, stoi_hexDigits _ (by omega) _ (by omega), hvalue]
  have hbyte : ((c.toNat : Int) % 256).toNat = c.toNat := by omega
  simp [hbyte]

/-- Only the percent sign is not read back as it was written. -/
theorem decode_encode_cons {c : UInt8} (h : c ≠ percent) (cs : Bytes) :
    decodeEntryName (encodeEntryName (c :: cs)) =
      (decodeEntryName (encodeEntryName cs)).map (c :: ·) := by
  cases hplain : isPlainEntryChar c with
  | true => rw [encodeEntryName_cons_plain hplain, decodeEntryName_cons h]
  | false => rw [encodeEntryName_cons_escaped hplain, decodeEntryName_escaped]

/-! ## A percent sign in a name

It is written as it stands, and the decoder takes the two characters after it for
an escape. The second one may be the start of an escape itself, whose digits are
then read as they stand. -/

/-- What is read back for a name that starts with a percent sign. -/
theorem decode_encode_percent {cs decoded : Bytes}
    (h : decodeEntryName (encodeEntryName (percent :: cs)) = some decoded) :
    ∃ c₁ c₂ rest c rest', cs = c₁ :: c₂ :: rest ∧ isPlainEntryChar c₁ = true ∧
      decodeEntryName (encodeEntryName rest) = some rest' ∧
      (decoded = c :: rest' ∨ isPlainEntryChar c₂ = false ∧ c ≠ percent ∧
        decoded = c :: hexDigit (c₂.toNat / 16) :: hexDigit (c₂.toNat % 16) :: rest') := by
  rw [encodeEntryName_cons_plain (by decide)] at h
  match cs, h with
  | [], h => simp [encodeEntryName, decodeEntryName] at h
  | c₁ :: cs, h =>
    cases h₁ : isPlainEntryChar c₁ with
    | false =>
      rw [encodeEntryName_cons_escaped h₁, decodeEntryName_percent, stoi_percent] at h
      cases h
    | true =>
      rw [encodeEntryName_cons_plain h₁] at h
      match cs, h with
      | [], h => simp [encodeEntryName, decodeEntryName] at h
      | c₂ :: rest, h =>
        cases h₂ : isPlainEntryChar c₂ with
        | true =>
          rw [encodeEntryName_cons_plain h₂, decodeEntryName_percent] at h
          split at h
          · obtain ⟨rest', hrest, rfl⟩ := Option.map_eq_some_iff.1 h
            exact ⟨c₁, c₂, rest, _, rest', rfl, h₁, hrest, .inl rfl⟩
          · cases h
        | false =>
          have hc := c₂.toNat_lt
          rw [encodeEntryName_cons_escaped h₂, decodeEntryName_percent,
            decodeEntryName_cons (hexDigit_ne_percent _ (by omega)),
            decodeEntryName_cons (hexDigit_ne_percent _ (by omega))] at h
          split at h
          · rename_i value hvalue
            simp only [Option.map_map, Option.map_eq_some_iff] at h
            obtain ⟨rest', hrest, rfl⟩ := h
            have hne := stoi_before_percent c₁.toNat c₁.toNat_lt value (by simpa using hvalue)
            exact ⟨c₁, c₂, rest, _, rest', rfl, h₁, hrest, .inr ⟨h₂, hne, rfl⟩⟩
          · cases h

/-- A name is not read back as a longer one. -/
theorem length_decode_encode_le {entry decoded : Bytes}
    (h : decodeEntryName (encodeEntryName entry) = some decoded) :
    decoded.length ≤ entry.length := by
  induction hn : entry.length using Nat.strong_induction_on generalizing entry decoded with
  | _ n ih =>
    cases entry with
    | nil =>
      cases h
      exact Nat.zero_le n
    | cons c cs =>
      by_cases hc : c = percent
      · subst hc
        obtain ⟨c₁, c₂, rest, c, rest', rfl, -, hrest, hdecoded⟩ := decode_encode_percent h
        simp only [List.length_cons] at hn
        have hle := ih rest.length (by omega) hrest rfl
        rcases hdecoded with rfl | ⟨-, -, rfl⟩ <;> simp only [List.length_cons] <;> omega
      · rw [decode_encode_cons hc, Option.map_eq_some_iff] at h
        obtain ⟨rest', hrest, rfl⟩ := h
        simp only [List.length_cons] at hn ⊢
        have hle := ih cs.length (by omega) hrest rfl
        omega

/-- What is read back without being shorter has no percent sign. -/
theorem not_percent_of_length_eq {entry decoded : Bytes}
    (h : decodeEntryName (encodeEntryName entry) = some decoded)
    (hlength : decoded.length = entry.length) : percent ∉ decoded := by
  induction hn : entry.length using Nat.strong_induction_on generalizing entry decoded with
  | _ n ih =>
    cases entry with
    | nil =>
      cases h
      exact List.not_mem_nil
    | cons c cs =>
      by_cases hc : c = percent
      · subst hc
        obtain ⟨c₁, c₂, rest, c, rest', rfl, -, hrest, hdecoded⟩ := decode_encode_percent h
        have hle := length_decode_encode_le hrest
        simp only [List.length_cons] at hn hlength
        rcases hdecoded with rfl | ⟨-, hne, rfl⟩
        · rw [List.length_cons] at hlength
          omega
        · -- the digits of the second character have moved into the name
          simp only [List.length_cons] at hlength
          have hrest' := ih rest.length (by omega) hrest (by omega) rfl
          have hc₂ := c₂.toNat_lt
          have h₁ := hexDigit_ne_percent (c₂.toNat / 16) (by omega)
          have h₂ := hexDigit_ne_percent (c₂.toNat % 16) (by omega)
          simp [Ne.symm hne, Ne.symm h₁, Ne.symm h₂, hrest']
      · rw [decode_encode_cons hc, Option.map_eq_some_iff] at h
        obtain ⟨rest', hrest, rfl⟩ := h
        simp only [List.length_cons] at hn hlength
        have hrest' := ih cs.length (by omega) hrest (by omega) rfl
        simp [Ne.symm hc, hrest']

/-- A name that starts with a percent sign is not read back. -/
theorem decode_encode_percent_ne (cs : Bytes) :
    decodeEntryName (encodeEntryName (percent :: cs)) ≠ some (percent :: cs) := by
  intro h
  obtain ⟨c₁, c₂, rest, c, rest', rfl, -, hrest, hdecoded⟩ := decode_encode_percent h
  have hle := length_decode_encode_le hrest
  rcases hdecoded with hdecoded | ⟨hescaped, -, hdecoded⟩
  · -- the two characters after the sign are lost
    have hlength := congrArg List.length hdecoded
    simp only [List.length_cons] at hlength
    omega
  · -- the second character is escaped, but a hexadecimal digit is not
    have hc := c₂.toNat_lt
    simp only [List.cons.injEq] at hdecoded
    have hplain := isPlainEntryChar_hexDigit (c₂.toNat % 16) (by omega)
    rw [← hdecoded.2.2.1, hescaped] at hplain
    cases hplain

/-- A name is read back if and only if it has no percent sign. -/
theorem decode_encode_iff (entry : Bytes) :
    decodeEntryName (encodeEntryName entry) = some entry ↔ percent ∉ entry := by
  induction entry with
  | nil => simp [encodeEntryName, decodeEntryName]
  | cons c cs ih =>
    by_cases hc : c = percent
    · subst hc
      simp [decode_encode_percent_ne]
    · rw [decode_encode_cons hc]
      simp [ih, Ne.symm hc]

/-! ## The list -/

theorem encodeEntryName_ne_nil {entry : Bytes} (h : entry ≠ []) : encodeEntryName entry ≠ [] := by
  obtain ⟨c, cs, rfl⟩ := List.exists_cons_of_ne_nil h
  cases hplain : isPlainEntryChar c with
  | true => simp [encodeEntryName_cons_plain hplain]
  | false => simp [encodeEntryName_cons_escaped hplain]

/-- Neither the separator of the list nor what is trimmed is written. -/
theorem not_separator_of_mem_encodeEntryName {entry : Bytes} {c : UInt8}
    (h : c ∈ encodeEntryName entry) : c ≠ comma ∧ isBlank c = false := by
  have hplain := isPlainEntryChar_of_mem_encodeEntryName h
  have hcomma : isPlainEntryChar comma = false := by decide
  have hspace : isPlainEntryChar 0x20 = false := by decide
  have htab : isPlainEntryChar 0x09 = false := by decide
  refine ⟨?_, ?_⟩
  · rintro rfl
    rw [hcomma] at hplain
    cases hplain
  · rw [isBlank, Bool.or_eq_false_iff, beq_eq_false_iff_ne, beq_eq_false_iff_ne]
    refine ⟨?_, ?_⟩
    · rintro rfl
      rw [hspace] at hplain
      cases hplain
    · rintro rfl
      rw [htab] at hplain
      cases hplain

/-- What is read back for a name in a list: an empty field is dropped. -/
def relisted (entry : Bytes) : Option Bytes :=
  if entry = [] then none else decodeEntryName (encodeEntryName entry)

/-- The fields of an encoded list are decoded one by one. -/
theorem parseEncodedList_join (entries : List Bytes) :
    parseEncodedList (join (entries.map encodeEntryName)) = entries.filterMap relisted := by
  have hfield (entry : Bytes) : (if trim (encodeEntryName entry) = [] then none
      else decodeEntryName (trim (encodeEntryName entry))) = relisted entry := by
    have htrim : trim (encodeEntryName entry) = encodeEntryName entry :=
      trim_of_no_blank fun c hc => (not_separator_of_mem_encodeEntryName hc).2
    by_cases hne : entry = []
    · subst hne
      rfl
    · rw [htrim, if_neg (encodeEntryName_ne_nil hne), relisted, if_neg hne]
  have hfields : (entries.map encodeEntryName).filterMap (fun item =>
      if trim item = [] then none else decodeEntryName (trim item)) =
        entries.filterMap relisted := by
    rw [List.filterMap_map]
    exact List.filterMap_congr fun entry _ => hfield entry
  by_cases hnil : entries = []
  · subst hnil
    decide
  · have hsplit : (join (entries.map encodeEntryName)).splitOn comma = entries.map encodeEntryName :=
      List.splitOn_intercalate comma
        (List.forall_mem_map.2 fun entry _ => encodeEntryName_no_comma entry) (by simpa using hnil)
    rw [parseEncodedList, getlines, hsplit, ← hfields]
    split
    · -- the last field is empty
      rename_i hlast
      obtain ⟨init, hinit⟩ := List.getLast?_eq_some_iff.1 hlast
      rw [hinit, List.dropLast_concat, List.filterMap_append, List.filterMap_cons_none (by decide)]
      simp
    · rfl

/-- A partial function that maps a list to itself fixes each of its elements. -/
theorem filterMap_eq_self_iff {α : Type*} {f : α → Option α} {l : List α} :
    l.filterMap f = l ↔ ∀ a ∈ l, f a = some a := by
  induction l with
  | nil => simp
  | cons a l ih =>
    rw [List.forall_mem_cons, ← ih]
    cases ha : f a with
    | none =>
      have hlength := List.length_filterMap_le f l
      rw [List.filterMap_cons_none ha]
      refine iff_of_false (fun h => ?_) (by simp)
      rw [h, List.length_cons] at hlength
      omega
    | some b => simp [List.filterMap_cons_some ha]

/-- A name that is neither empty nor has a percent sign. -/
def Listable (entry : Bytes) : Prop := entry ≠ [] ∧ percent ∉ entry

instance (entry : Bytes) : Decidable (Listable entry) := inferInstanceAs (Decidable (_ ∧ _))

/-- These are the names that are listed as they are. -/
theorem relisted_iff (entry : Bytes) : relisted entry = some entry ↔ Listable entry := by
  unfold relisted Listable
  split
  · rename_i h
    simp [h]
  · rename_i h
    rw [decode_encode_iff, and_iff_right h]

/-- What is read back without being shorter has no percent sign. -/
theorem relisted_length {entry decoded : Bytes} (h : relisted entry = some decoded) :
    entry ≠ [] ∧ decoded.length ≤ entry.length ∧
      (decoded.length = entry.length → percent ∉ decoded) := by
  unfold relisted at h
  split at h
  · cases h
  · rename_i hne
    exact ⟨hne, length_decode_encode_le h, not_percent_of_length_eq h⟩

/-- An entry list is read back if and only if no name has a percent sign. Names
without one have different encodings, and no encoding has a separator. -/
theorem entryList_roundTrip (entries : List Bytes) (hne : ∀ entry ∈ entries, entry ≠ []) :
    (parseEncodedList (join (entries.map encodeEntryName)) = entries ↔
      ∀ entry ∈ entries, percent ∉ entry) ∧
    Set.InjOn encodeEntryName {entry | percent ∉ entry} ∧
    ∀ entry, ∀ c ∈ encodeEntryName entry, c ≠ comma ∧ isBlank c = false := by
  refine ⟨?_, ?_, fun entry c => not_separator_of_mem_encodeEntryName⟩
  · rw [parseEncodedList_join, filterMap_eq_self_iff]
    exact forall₂_congr fun entry hentry => (relisted_iff entry).trans (and_iff_right (hne entry hentry))
  · intro entry hentry entry' hentry' heq
    have hdecode := (decode_encode_iff entry).2 hentry
    rw [heq, (decode_encode_iff entry').2 hentry'] at hdecode
    exact (Option.some.inj hdecode).symm

theorem entryList_roundTrip_blanks :
    parseEncodedList (join ([bytes "a b", bytes "c,d"].map encodeEntryName)) =
      [bytes "a b", bytes "c,d"] :=
  (entryList_roundTrip [bytes "a b", bytes "c,d"] (by decide)).1.2 (by decide)

/-- An escape in a name is read back as the character it stands for. -/
theorem entryList_percent :
    parseEncodedList (join ([bytes "%41"].map encodeEntryName)) = [bytes "A"] ∧
    parseEncodedList (join ([bytes "%41"].map encodeEntryName)) ≠ [bytes "%41"] ∧
    encodeEntryName (bytes "%2C") = encodeEntryName (bytes ",") := by
  decide

end Reduct
