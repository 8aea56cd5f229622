-- SUMMARY: Decimal formatting and the lenient number parsers of the C++ standard library, with the exceptions they throw.
import Mathlib.Data.Nat.Digits.Defs
import Mathlib.Data.Nat.Digits.Lemmas
import ReductClient.Base.Fallible
import ReductClient.Cxx.Strings

namespace Cxx

/-! ## Formatting -/

/-- The character of a decimal digit. -/
def digitByte (d : Nat) : UInt8 := UInt8.ofNat (0x30 + d)

/-- `fmt::format("{}", n)` and `std::to_string(n)` of an unsigned number. -/
def decimal (n : Nat) : Bytes :=
  if n = 0 then [0x30] else (Nat.digits 10 n).reverse.map digitByte

/-- `fmt::format("{}", n)` of a signed number. -/
def decimalSigned (n : Int) : Bytes :=
  if n < 0 then dash :: decimal n.natAbs else decimal n.toNat

/-! ## Parsing -/

/-- The value of a digit in the given base, upper and lower case letters alike. -/
def digitValue (base : Nat) (c : UInt8) : Option Nat :=
  let v :=
    if isDigit c then some (c.toNat - 0x30)
    else if 0x41 ≤ c && c ≤ 0x5A then some (c.toNat - 0x37)
    else if 0x61 ≤ c && c ≤ 0x7A then some (c.toNat - 0x57)
    else none
  v.filter (· < base)

/-- The longest run of digits at the front. -/
def digitRun (base : Nat) : Bytes → List Nat
  | [] => []
  | c :: cs =>
    match digitValue base c with
    | some d => d :: digitRun base cs
    | none => []

/-- A `0x` is skipped in base 16 if a digit follows it. -/
def skipHexPrefix : Bytes → Bytes
  | z :: x :: d :: rest =>
    if z = 0x30 ∧ (x = 0x78 ∨ x = 0x58) ∧ (digitValue 16 d).isSome then d :: rest
    else z :: x :: d :: rest
  | s => s

/-- What `strtol` and its relatives read: blanks, a sign, a run of digits. The
text after the digits is ignored. -/
def readNumeral (base : Nat) (s : Bytes) : Option (Bool × Nat) :=
  let s := s.dropWhile isSpace
  let (negative, s) :=
    match s with
    | c :: cs => if c = 0x2D then (true, cs) else if c = 0x2B then (false, cs) else (false, c :: cs)
    | [] => (false, [])
  let s := if base = 16 then skipHexPrefix s else s
  match digitRun base s with
  | [] => none
  | ds => some (negative, Nat.ofDigits base ds.reverse)

/-- `std::stoull`. A minus sign negates the value modulo 2^64. -/
def stoull (s : Bytes) : Except Fault Nat :=
  match readNumeral 10 s with
  | none => .error .invalidArgument
  | some (negative, m) =>
    if m < 2 ^ 64 then .ok (if negative then (2 ^ 64 - m) % 2 ^ 64 else m)
    else .error .outOfRange

/-- `std::stoul`, with a 64-bit `unsigned long`. -/
def stoul (s : Bytes) : Except Fault Nat := stoull s

/-- A signed parser with the given base and range. -/
def stoSigned (base : Nat) (bound : Int) (s : Bytes) : Except Fault Int :=
  match readNumeral base s with
  | none => .error .invalidArgument
  | some (negative, m) =>
    let v : Int := if negative then -m else m
    if -bound ≤ v ∧ v < bound then .ok v else .error .outOfRange

/-- `std::stoll`. -/
def stoll (s : Bytes) : Except Fault Int := stoSigned 10 (2 ^ 63) s

/-- `std::stoi(s, nullptr, base)`. -/
def stoi (s : Bytes) (base : Nat := 10) : Except Fault Int := stoSigned base (2 ^ 31) s

/-! ## What can be read -/

/-- Blanks, a sign and the digits of a number of 64 bits stand at the front. -/
def ReadsUnsigned (s : Bytes) : Prop :=
  ∃ negative m, readNumeral 10 s = some (negative, m) ∧ m < 2 ^ 64

/-- Blanks, a sign and the digits of a number in the range stand at the front. -/
def ReadsSigned (bound : Int) (s : Bytes) : Prop :=
  ∃ negative m, readNumeral 10 s = some (negative, m) ∧
    -bound ≤ (if negative then -(m : Int) else m) ∧ (if negative then -(m : Int) else m) < bound

theorem stoull_returns {s : Bytes} : Fallible.Returns (stoull s) ↔ ReadsUnsigned s := by
  unfold stoull ReadsUnsigned
  rcases readNumeral 10 s with _ | ⟨negative, m⟩
  · exact iff_of_false (Fallible.not_returns_error _) (by simp)
  · simp [Fallible.returns_ite]

theorem stoSigned_returns {bound : Int} {s : Bytes} :
    Fallible.Returns (stoSigned 10 bound s) ↔ ReadsSigned bound s := by
  unfold stoSigned ReadsSigned
  rcases readNumeral 10 s with _ | ⟨negative, m⟩
  · exact iff_of_false (Fallible.not_returns_error _) (by simp)
  · simp [Fallible.returns_ite]

/-- A signed parser stays in its range. -/
theorem stoSigned_range {base : Nat} {bound v : Int} {s : Bytes}
    (h : stoSigned base bound s = .ok v) : -bound ≤ v ∧ v < bound := by
  unfold stoSigned at h
  split at h
  · cases h
  · rename_i negative m _
    generalize (if negative then -(m : Int) else m) = value at h
    by_cases hrange : -bound ≤ value ∧ value < bound
    · rw [if_pos hrange] at h
      cases h
      exact hrange
    · rw [if_neg hrange] at h
      cases h

/-- The number at the front, with its sign. -/
def signedNumeral (s : Bytes) : Option Int :=
  (readNumeral 10 s).map fun (negative, m) => if negative then -(m : Int) else m

/-- The unsigned parsers return it modulo 2^64. -/
theorem stoull_signedNumeral {s : Bytes} {n : Nat} (h : stoull s = .ok n) :
    ∃ v, signedNumeral s = some v ∧ (v % 2 ^ 64).toNat = n := by
  unfold stoull at h
  split at h
  · cases h
  · rename_i negative m hread
    refine ⟨_, by rw [signedNumeral, hread]; rfl, ?_⟩
    split at h
    · cases h
      cases negative
      · simp only [Bool.false_eq_true, if_false]
        omega
      · simp only [if_true]
        omega
    · cases h

/-! ## Characters of a number -/

theorem digitValue_lt {base : Nat} {c : UInt8} {d : Nat} (h : digitValue base c = some d) :
    d < base := of_decide_eq_true (Option.filter_eq_some_iff.1 h).2

/-- A digit of any base is a digit or a letter. -/
theorem isAlnum_of_digitValue {base : Nat} {c : UInt8} {d : Nat} (h : digitValue base c = some d) :
    isAlnum c = true := by
  obtain ⟨hd, -⟩ := Option.filter_eq_some_iff.1 h
  rw [isAlnum, isLetter, Bool.or_eq_true, Bool.or_eq_true]
  split at hd
  · rename_i hdigit
    exact .inl hdigit
  · split at hd
    · rename_i hupper
      exact .inr (.inl hupper)
    · split at hd
      · rename_i hlower
        exact .inr (.inr hlower)
      · cases hd

theorem digitRun_some {base : Nat} {c : UInt8} {d : Nat} (h : digitValue base c = some d)
    (rest : Bytes) : digitRun base (c :: rest) = d :: digitRun base rest := by
  rw [digitRun, h]

theorem digitRun_none {base : Nat} {c : UInt8} (h : digitValue base c = none) (rest : Bytes) :
    digitRun base (c :: rest) = [] := by
  rw [digitRun, h]

/-- Blanks in front of a number are passed over. -/
theorem readNumeral_space {c : UInt8} (h : isSpace c = true) (base : Nat) (s : Bytes) :
    readNumeral base (c :: s) = readNumeral base s := by
  simp only [readNumeral, List.dropWhile_cons_of_pos h]

/-! ## What is formatted is parsed back -/

theorem digitByte_toNat {d : Nat} (h : d < 10) : (digitByte d).toNat = 0x30 + d := by
  simp only [digitByte, UInt8.toNat_ofNat']
  omega

theorem isDigit_digitByte {d : Nat} (h : d < 10) : isDigit (digitByte d) := by
  simp only [isDigit, Bool.and_eq_true, decide_eq_true_eq, UInt8.le_iff_toNat_le,
    digitByte_toNat h, UInt8.reduceToNat]
  omega

theorem digitValue_digitByte {d : Nat} (h : d < 10) :
    digitValue 10 (digitByte d) = some d := by
  simp [digitValue, isDigit_digitByte h, digitByte_toNat h, h]

theorem digitValue_eq_none {c : UInt8} (h : isDigit c = false) : digitValue 10 c = none := by
  have hlt : c.toNat < 256 := c.toNat_lt
  simp only [digitValue, h, Bool.false_eq_true, if_false]
  split
  · rename_i hup
    simp only [Bool.and_eq_true, decide_eq_true_eq, UInt8.le_iff_toNat_le,
      UInt8.reduceToNat] at hup
    simp only [Option.filter_some, decide_eq_true_eq, ite_eq_right_iff, reduceCtorEq]
    omega
  · split
    · rename_i hlow
      simp only [Bool.and_eq_true, decide_eq_true_eq, UInt8.le_iff_toNat_le,
        UInt8.reduceToNat] at hlow
      simp only [Option.filter_some, decide_eq_true_eq, ite_eq_right_iff, reduceCtorEq]
      omega
    · rfl

/-- The text does not go on with a digit. -/
def NoDigitNext (s : Bytes) : Prop := ∀ c ∈ s.head?, isDigit c = false

@[simp] theorem noDigitNext_nil : NoDigitNext [] := by simp [NoDigitNext]

@[simp] theorem noDigitNext_cons {c : UInt8} {s : Bytes} :
    NoDigitNext (c :: s) ↔ isDigit c = false := by
  simp [NoDigitNext]

theorem digitRun_of_noDigitNext {s : Bytes} (h : NoDigitNext s) : digitRun 10 s = [] := by
  cases s with
  | nil => rfl
  | cons c cs => exact digitRun_none (digitValue_eq_none (noDigitNext_cons.1 h)) cs

theorem digitRun_digits {ds : List Nat} (hds : ∀ d ∈ ds, d < 10) {rest : Bytes}
    (hrest : NoDigitNext rest) :
    digitRun 10 (ds.map digitByte ++ rest) = ds := by
  induction ds with
  | nil => exact digitRun_of_noDigitNext hrest
  | cons d ds ih =>
    have hd : d < 10 := hds d (by simp)
    rw [List.map_cons, List.cons_append, digitRun_some (digitValue_digitByte hd),
      ih fun d' hd' => hds d' (by simp [hd'])]

theorem digitRun_append_cons (s : Bytes) {c : UInt8} (h : isDigit c = false) (rest : Bytes) :
    digitRun 10 (s ++ c :: rest) = digitRun 10 s := by
  induction s with
  | nil => exact digitRun_of_noDigitNext (noDigitNext_cons.2 h)
  | cons x s ih =>
    rw [List.cons_append, digitRun, digitRun, ih]

/-- A number ends at a character that cannot be a part of it. -/
theorem readNumeral_append_cons (s : Bytes) {c : UInt8} (hdigit : isDigit c = false)
    (hspace : isSpace c = false) (hsign : c ≠ 0x2D ∧ c ≠ 0x2B) (rest : Bytes) :
    readNumeral 10 (s ++ c :: rest) = readNumeral 10 s := by
  have hdrop : (s ++ c :: rest).dropWhile isSpace = s.dropWhile isSpace ++ c :: rest := by
    induction s with
    | nil => rw [List.nil_append, List.dropWhile_cons, if_neg (by simp [hspace])]; rfl
    | cons x s ih =>
      rw [List.cons_append, List.dropWhile_cons, List.dropWhile_cons, ih]
      split <;> rfl
  simp only [readNumeral, hdrop, Nat.reduceEqDiff, if_false]
  cases s.dropWhile isSpace with
  | nil =>
    have hrun : digitRun 10 (c :: rest) = [] :=
      digitRun_of_noDigitNext (noDigitNext_cons.2 hdigit)
    simp only [List.nil_append, hsign.1, hsign.2, if_false, hrun]
    rfl
  | cons x s =>
    have hrun : digitRun 10 (x :: (s ++ c :: rest)) = digitRun 10 (x :: s) :=
      digitRun_append_cons (x :: s) hdigit rest
    simp only [List.cons_append]
    by_cases hminus : x = 0x2D
    · simp only [if_pos hminus, digitRun_append_cons s hdigit rest]
    · by_cases hplus : x = 0x2B
      · simp only [if_neg hminus, if_pos hplus, digitRun_append_cons s hdigit rest]
      · simp only [if_neg hminus, if_neg hplus, hrun]

theorem decimal_eq_map (n : Nat) :
    ∃ ds : List Nat, ds ≠ [] ∧ (∀ d ∈ ds, d < 10) ∧ Nat.ofDigits 10 ds.reverse = n ∧
      decimal n = ds.map digitByte := by
  by_cases hn : n = 0
  · exact ⟨[0], by simp, by simp, by simp [hn], by simp [decimal, hn, digitByte]⟩
  · refine ⟨(Nat.digits 10 n).reverse, by simpa [Nat.digits_ne_nil_iff_ne_zero] using hn, ?_, ?_, ?_⟩
    · intro d hd
      exact Nat.digits_lt_base (by omega) (List.mem_reverse.1 hd)
    · simp [Nat.ofDigits_digits]
    · simp [decimal, hn]

theorem decimal_ne_nil (n : Nat) : decimal n ≠ [] := by
  obtain ⟨ds, hne, -, -, heq⟩ := decimal_eq_map n
  simp [heq, hne]

theorem isDigit_of_mem_decimal {n : Nat} {c : UInt8} (h : c ∈ decimal n) : isDigit c := by
  obtain ⟨ds, -, hlt, -, heq⟩ := decimal_eq_map n
  rw [heq, List.mem_map] at h
  obtain ⟨d, hd, rfl⟩ := h
  exact isDigit_digitByte (hlt d hd)

theorem decimal_no_dash (n : Nat) : dash ∉ decimal n := fun h =>
  (isDigit_cases (isDigit_of_mem_decimal h)).2.2.2.2.1 rfl

theorem decimal_no_comma (n : Nat) : comma ∉ decimal n := fun h =>
  (isDigit_cases (isDigit_of_mem_decimal h)).2.2.2.1 rfl

theorem trim_decimal (n : Nat) : trim (decimal n) = decimal n :=
  trim_of_no_blank fun _ hc => (isDigit_cases (isDigit_of_mem_decimal hc)).2.2.1

theorem readNumeral_digits {ds : List Nat} (hne : ds ≠ []) (hlt : ∀ d ∈ ds, d < 10) {rest : Bytes}
    (hrest : NoDigitNext rest) :
    readNumeral 10 (ds.map digitByte ++ rest) = some (false, Nat.ofDigits 10 ds.reverse) := by
  have hrun := digitRun_digits hlt hrest
  obtain ⟨d, ds, rfl⟩ := List.exists_cons_of_ne_nil hne
  have hd : d < 10 := hlt d (by simp)
  have hspace : isSpace (digitByte d) = false :=
    (isDigit_cases (isDigit_digitByte hd)).2.1
  have hminus : digitByte d ≠ 0x2D := (isDigit_cases (isDigit_digitByte hd)).2.2.2.2.1
  have hplus : digitByte d ≠ 0x2B := by
    rw [ne_eq, ← UInt8.toNat_inj, digitByte_toNat hd]
    simp only [UInt8.reduceToNat]
    omega
  simp only [List.map_cons, List.cons_append] at hrun
  simp only [readNumeral, List.map_cons, List.cons_append, List.dropWhile_cons, hspace,
    Bool.false_eq_true, if_false, hminus, hplus, Nat.reduceEqDiff, hrun]

theorem readNumeral_decimal (n : Nat) {rest : Bytes} (hrest : NoDigitNext rest) :
    readNumeral 10 (decimal n ++ rest) = some (false, n) := by
  obtain ⟨ds, hne, hlt, hval, heq⟩ := decimal_eq_map n
  rw [heq, readNumeral_digits hne hlt hrest, hval]

/-- Leading zeros do not change a number. -/
theorem readNumeral_zeros (zeros n : Nat) :
    readNumeral 10 (List.replicate zeros (digitByte 0) ++ decimal n) = some (false, n) := by
  obtain ⟨ds, hne, hlt, hval, heq⟩ := decimal_eq_map n
  have hdigits : List.replicate zeros (digitByte 0) ++ decimal n =
      (List.replicate zeros 0 ++ ds).map digitByte := by
    rw [List.map_append, List.map_replicate, heq]
  have hall : ∀ d ∈ List.replicate zeros 0 ++ ds, d < 10 := by
    intro d hd
    rcases List.mem_append.1 hd with hd | hd
    · rw [List.eq_of_mem_replicate hd]
      decide
    · exact hlt d hd
  have hread := readNumeral_digits (by simp [hne]) hall noDigitNext_nil
  rw [List.append_nil] at hread
  rw [hdigits, hread, List.reverse_append, List.reverse_replicate,
    Nat.ofDigits_append_replicate_zero, hval]

theorem stoull_decimal {n : Nat} (h : n < 2 ^ 64) {rest : Bytes} (hrest : NoDigitNext rest) :
    stoull (decimal n ++ rest) = .ok n := by
  simp only [stoull, readNumeral_decimal n hrest, if_pos h, Bool.false_eq_true, if_false]

theorem stoull_decimal_nil {n : Nat} (h : n < 2 ^ 64) : stoull (decimal n) = .ok n := by
  simpa using stoull_decimal h noDigitNext_nil

theorem stoull_zeros (zeros : Nat) {n : Nat} (h : n < 2 ^ 64) :
    stoull (List.replicate zeros (digitByte 0) ++ decimal n) = .ok n := by
  simp only [stoull, readNumeral_zeros, if_pos h, Bool.false_eq_true, if_false]

theorem readNumeral_decimalSigned (n : Int) :
    readNumeral 10 (decimalSigned n) = some (decide (n < 0), n.natAbs) := by
  unfold decimalSigned
  split
  · rename_i hneg
    obtain ⟨ds, hne, hlt, hval, heq⟩ := decimal_eq_map n.natAbs
    obtain ⟨d, ds, rfl⟩ := List.exists_cons_of_ne_nil hne
    have hrun := digitRun_digits hlt noDigitNext_nil
    have hspace : isSpace 0x2D = false := by decide
    have hminus : dash = 0x2D := rfl
    rw [List.append_nil] at hrun
    simp only [List.map_cons] at hrun heq
    simp only [readNumeral, heq, List.dropWhile_cons, hspace, Bool.false_eq_true, if_false,
      hminus, if_true, Nat.reduceEqDiff, hrun, hval, hneg, decide_true]
  · rename_i hnonneg
    have hnatAbs : n.natAbs = n.toNat := by omega
    have hread := readNumeral_decimal n.toNat noDigitNext_nil
    rw [List.append_nil] at hread
    rw [hread, hnatAbs, decide_eq_false hnonneg]

/-- A signed number that an `int` holds is read back. -/
theorem stoi_decimalSigned {n : Int} (hl : -2 ^ 31 ≤ n) (hu : n < 2 ^ 31) :
    stoi (decimalSigned n) = .ok n := by
  have hvalue : (if decide (n < 0) = true then -(n.natAbs : Int) else n.natAbs) = n := by
    split
    · rename_i hneg
      have := of_decide_eq_true hneg
      omega
    · rename_i hnonneg
      have : ¬ n < 0 := fun h => hnonneg (decide_eq_true h)
      omega
  simp only [stoi, stoSigned, readNumeral_decimalSigned, hvalue, hl, hu, and_self, if_true]

/-- A signed number is read as an unsigned one modulo 2^64. -/
theorem stoull_decimalSigned {n : Int} (hl : -2 ^ 63 ≤ n) (hu : n < 2 ^ 63) :
    stoull (decimalSigned n) = .ok (n % 2 ^ 64).toNat := by
  have hlt : n.natAbs < 2 ^ 64 := by omega
  simp only [stoull, readNumeral_decimalSigned, if_pos hlt]
  refine congrArg Except.ok ?_
  split
  · rename_i hneg
    have := of_decide_eq_true hneg
    omega
  · rename_i hnonneg
    have : ¬ n < 0 := fun h => hnonneg (decide_eq_true h)
    omega

/-- A signed parser reads the numbers in its range. -/
theorem stoSigned_decimal {bound : Int} (hbound : 0 ≤ bound) (n : Nat) :
    stoSigned 10 bound (decimal n) =
      if (n : Int) < bound then .ok (n : Int) else .error .outOfRange := by
  have hread := readNumeral_decimal n noDigitNext_nil
  rw [List.append_nil] at hread
  simp only [stoSigned, hread, Bool.false_eq_true, if_false]
  by_cases h : (n : Int) < bound
  · rw [if_pos h, if_pos ⟨by omega, h⟩]
  · rw [if_neg h, if_neg fun hrange => h hrange.2]

theorem stoll_decimal (n : Nat) :
    stoll (decimal n) = if n < 2 ^ 63 then .ok (n : Int) else .error .outOfRange := by
  rw [stoll, stoSigned_decimal (by decide)]
  by_cases h : n < 2 ^ 63
  · rw [if_pos h, if_pos (by omega)]
  · rw [if_neg h, if_neg (by omega)]

theorem decimalSigned_ne_nil (n : Int) : decimalSigned n ≠ [] := by
  unfold decimalSigned
  split
  · exact List.cons_ne_nil _ _
  · exact decimal_ne_nil _

theorem decimalSigned_no_dot (n : Int) : dot ∉ decimalSigned n := by
  have hdecimal : ∀ n, dot ∉ decimal n := fun n h =>
    absurd (isDigit_of_mem_decimal h) (by decide)
  have hdash : dot ≠ dash := by decide
  unfold decimalSigned
  split
  · simp [hdash, hdecimal]
  · exact hdecimal _

theorem decimalSigned_no_comma (n : Int) : comma ∉ decimalSigned n := by
  have hdash : comma ≠ dash := by decide
  unfold decimalSigned
  split
  · simp [hdash, decimal_no_comma]
  · exact decimal_no_comma _

theorem decimal_injective {m n : Nat} (h : decimal m = decimal n) : m = n := by
  have hm := readNumeral_decimal m noDigitNext_nil
  have hn := readNumeral_decimal n noDigitNext_nil
  rw [h, hn] at hm
  simpa using hm.symm

/-! ## The order of decimal numbers as strings -/

theorem ofDigits_lt {ds : List Nat} (h : ∀ d ∈ ds, d < 10) :
    Nat.ofDigits 10 ds < 10 ^ ds.length := Nat.ofDigits_lt_base_pow_length (by decide) h

/-- Digits of the same number are compared like numbers, the first one counting most. -/
theorem compare_digits {ds ds' : List Nat} (hds : ∀ d ∈ ds, d < 10) (hds' : ∀ d ∈ ds', d < 10)
    (hlength : ds.length = ds'.length)
    (hlt : Nat.ofDigits 10 ds.reverse < Nat.ofDigits 10 ds'.reverse) :
    compare (ds.map digitByte) (ds'.map digitByte) = .lt := by
  induction ds generalizing ds' with
  | nil =>
    rw [List.length_eq_zero_iff.1 hlength.symm] at hlt
    exact absurd hlt (Nat.lt_irrefl _)
  | cons d ds ih =>
    obtain ⟨d', ds', rfl⟩ : ∃ d' tail, ds' = d' :: tail := by
      cases ds' with
      | nil => cases hlength
      | cons d' tail => exact ⟨d', tail, rfl⟩
    have hlength' : ds.length = ds'.length := by simpa using hlength
    simp only [List.forall_mem_cons] at hds hds'
    have hbound := @ofDigits_lt ds.reverse (by simpa using hds.2)
    have hbound' := @ofDigits_lt ds'.reverse (by simpa using hds'.2)
    simp only [List.reverse_cons, Nat.ofDigits_append, List.length_reverse,
      Nat.ofDigits_singleton, ← hlength'] at hlt hbound hbound'
    have hbyte : ∀ {x y : Nat}, x < 10 → y < 10 → x < y → compare (digitByte x) (digitByte y) = .lt :=
      fun {x y} hx hy hxy => by
        have hbyte : digitByte x < digitByte y := by
          rw [UInt8.lt_iff_toNat_lt, digitByte_toNat hx, digitByte_toNat hy]
          omega
        exact if_pos hbyte
    rw [List.map_cons, List.map_cons, List.compare_cons_cons]
    rcases Nat.lt_trichotomy d d' with h | rfl | h
    · rw [hbyte hds.1 hds'.1 h]
      rfl
    · rw [Std.compare_self, Ordering.then]
      exact ih hds.2 hds'.2 hlength' (by omega)
    · -- a greater first digit cannot be made up for
      have hmul : 10 ^ ds.length * (d' + 1) ≤ 10 ^ ds.length * d := Nat.mul_le_mul_left _ h
      rw [Nat.mul_add] at hmul
      omega

/-- Numbers with equally many digits are ordered alike as numbers and as strings. -/
theorem compare_decimal {m n : Nat} (hlength : (decimal m).length = (decimal n).length)
    (h : m < n) : compare (decimal m) (decimal n) = .lt := by
  obtain ⟨ds, -, hds, rfl, hm⟩ := decimal_eq_map m
  obtain ⟨ds', -, hds', rfl, hn⟩ := decimal_eq_map n
  rw [hm, hn] at hlength ⊢
  exact compare_digits hds hds' (by simpa using hlength) h

end Cxx
