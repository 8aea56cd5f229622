-- SUMMARY: `std::get_time` with the format `%Y-%m-%dT%H:%M:%S`, and that it reads back a date and time in full digits.
import ReductClient.Cxx.Calendar

namespace Cxx

/-! ## Reading

`std::get_time` follows the format from the front of the stream and stops after it,
whatever comes next. It fails where the format does not match, and where the stream has
ended before an item of the format. A stream that ends with a number only sets `eofbit`:
the rest of the format is left out then, and the fields that it would set stay as they
were. -/

/-- A number of at most `width` digits, in the given range. Fewer digits will do. -/
def readField (width low high : Nat) (s : Bytes) : Option (Nat × Bytes) :=
  let ds := digitRun 10 (s.take width)
  let n := Nat.ofDigits 10 ds.reverse
  if ds ≠ [] ∧ low ≤ n ∧ n ≤ high then some (n, s.drop ds.length) else none

/-- A character of the format, without regard to case. -/
def readLiteral (c : UInt8) : Bytes → Option Bytes
  | x :: s => if toLower x = toLower c then some s else none
  | [] => none

def colon : UInt8 := 0x3A
def letterT : UInt8 := 0x54

/-- The conversions of the format. -/
inductive TimeField where
  | year
  | month
  | day
  | hour
  | minute
  | second
  deriving DecidableEq

/-- `%Y`, `%m`, `%d`, `%H`, `%M` and `%S`. One blank before a day is skipped. -/
def TimeField.read : TimeField → Bytes → Option (Nat × Bytes)
  | .year, s => readField 4 0 9999 s
  | .month, s => readField 2 1 12 s
  | .day, s => readField 2 1 31 (if s.head?.any isSpace then s.drop 1 else s)
  | .hour, s => readField 2 0 23 s
  | .minute, s => readField 2 0 59 s
  | .second, s => readField 2 0 60 s

/-- Set a field of the `std::tm`. -/
def TimeField.set (t : CivilTime) (n : Nat) : TimeField → CivilTime
  | .year => { t with year := n }
  | .month => { t with month := n }
  | .day => { t with day := n }
  | .hour => { t with hour := n }
  | .minute => { t with minute := n }
  | .second => { t with second := n }

/-- An item of a format: a conversion, or a character that stands for itself. -/
inductive FormatItem where
  | field (field : TimeField)
  | literal (c : UInt8)
  deriving DecidableEq

/-- The loop of `std::time_get::get` over the items of a format. -/
def followFormat : List FormatItem → CivilTime → Bytes → Option (CivilTime × Bytes)
  | [], t, s => some (t, s)
  | item :: format, t, s =>
    if s = [] then none
    else
      match item with
      | .literal c =>
        match readLiteral c s with
        | none => none
        | some s => followFormat format t s
      | .field field =>
        match field.read s with
        | none => none
        | some (n, []) => some (field.set t n, [])
        | some (n, s) => followFormat format (field.set t n) s

theorem followFormat_cons (item : FormatItem) (format : List FormatItem) (t : CivilTime) (s : Bytes) :
    followFormat (item :: format) t s =
      if s = [] then none
      else
        match item with
        | .literal c =>
          match readLiteral c s with
          | none => none
          | some s => followFormat format t s
        | .field field =>
          match field.read s with
          | none => none
          | some (n, []) => some (field.set t n, [])
          | some (n, s) => followFormat format (field.set t n) s := by
  rw [followFormat.eq_def]

/-- `%Y-%m-%dT%H:%M:%S`. -/
def timestampFormat : List FormatItem :=
  [.field .year, .literal dash, .field .month, .literal dash, .field .day, .literal letterT,
    .field .hour, .literal colon, .field .minute, .literal colon, .field .second]

/-- `std::tm tm = {}`: the day before January of 1900. -/
def zeroTm : CivilTime := ⟨1900, 1, 0, 0, 0, 0⟩

/-- `std::get_time(&tm, "%Y-%m-%dT%H:%M:%S")` with `std::tm tm = {}`, and the text that is
left. The stream skips white space first. -/
def getTime (s : Bytes) : Option (CivilTime × Bytes) :=
  followFormat timestampFormat zeroTm (s.dropWhile isSpace)

/-- A blank before the day is skipped, and what the text leaves out is zero. -/
example : getTime (bytes "2024-10- 1T00:00:00Z") = some (⟨2024, 10, 1, 0, 0, 0⟩, bytes "Z") ∧
    getTime (bytes "2024-10-11") = some (⟨2024, 10, 11, 0, 0, 0⟩, []) ∧
    getTime (bytes "2024-10") = some (⟨2024, 10, 0, 0, 0, 0⟩, []) ∧
    getTime (bytes "2024-10-") = none := by decide

/-! ## A date and time in full digits -/

/-- A number below 10000 in four digits. -/
def fourDigits (n : Nat) : Bytes := twoDigits (n / 100) ++ twoDigits (n % 100)

/-- `YYYY-MM-DDThh:mm:ss`. -/
def dateTimeText (t : CivilTime) : Bytes :=
  fourDigits t.year.toNat ++ dash :: (twoDigits t.month ++ dash :: (twoDigits t.day ++ letterT ::
    (twoDigits t.hour ++ colon :: (twoDigits t.minute ++ colon :: twoDigits t.second))))

theorem length_dateTimeText (t : CivilTime) : (dateTimeText t).length = 19 := rfl

theorem readLiteral_cons (c : UInt8) (s : Bytes) : readLiteral c (c :: s) = some s := if_pos rfl

/-- A number in as many digits as the field is wide is read, whatever follows it. -/
theorem readField_digits {ds : List Nat} (hds : ∀ d ∈ ds, d < 10) (hne : ds ≠ [])
    {low high : Nat} (hl : low ≤ Nat.ofDigits 10 ds.reverse)
    (hu : Nat.ofDigits 10 ds.reverse ≤ high) (rest : Bytes) :
    readField ds.length low high (ds.map digitByte ++ rest) =
      some (Nat.ofDigits 10 ds.reverse, rest) := by
  have hrun : digitRun 10 ((ds.map digitByte ++ rest).take ds.length) = ds := by
    have hread := digitRun_digits hds noDigitNext_nil
    rw [List.append_nil] at hread
    rw [List.take_append_of_le_length (by simp), List.take_of_length_le (by simp), hread]
  rw [readField, hrun, if_pos ⟨hne, hl, hu⟩, List.drop_left' (by simp)]

theorem readField_twoDigits {n low high : Nat} (h : n < 100) (hl : low ≤ n) (hu : n ≤ high)
    (rest : Bytes) : readField 2 low high (twoDigits n ++ rest) = some (n, rest) := by
  have hvalue : Nat.ofDigits 10 [n / 10, n % 10].reverse = n := by
    simp [Nat.ofDigits]
    omega
  have hdigits : ∀ d ∈ [n / 10, n % 10], d < 10 := by
    simp only [List.mem_cons, List.not_mem_nil, or_false, forall_eq_or_imp, forall_eq]
    omega
  have hread := @readField_digits [n / 10, n % 10] hdigits (by simp) low high (by omega)
    (by omega) rest
  rw [hvalue] at hread
  exact hread

theorem readField_fourDigits {n : Nat} (h : n ≤ 9999) (rest : Bytes) :
    readField 4 0 9999 (fourDigits n ++ rest) = some (n, rest) := by
  have hvalue : Nat.ofDigits 10 [n / 100 / 10, n / 100 % 10, n % 100 / 10, n % 100 % 10].reverse =
      n := by
    simp [Nat.ofDigits]
    omega
  have hdigits : ∀ d ∈ [n / 100 / 10, n / 100 % 10, n % 100 / 10, n % 100 % 10], d < 10 := by
    simp only [List.mem_cons, List.not_mem_nil, or_false, forall_eq_or_imp, forall_eq]
    omega
  have hread := @readField_digits _ hdigits (by simp) 0 9999 (Nat.zero_le _) (by omega) rest
  rw [hvalue] at hread
  exact hread

theorem readField_range {width low high n : Nat} {s rest : Bytes}
    (h : readField width low high s = some (n, rest)) : low ≤ n ∧ n ≤ high := by
  rw [readField] at h
  split at h
  · rename_i hrange
    cases h
    exact hrange.2
  · cases h

/-- The other conversions leave the year as it is. -/
theorem year_of_followFormat {format : List FormatItem} (hformat : .field .year ∉ format)
    {t t' : CivilTime} {s rest : Bytes} (h : followFormat format t s = some (t', rest)) :
    t'.year = t.year := by
  induction format generalizing t s with
  | nil =>
    cases h
    rfl
  | cons item format ih =>
    obtain ⟨hitem, hrest⟩ := not_or.1 (mt List.mem_cons.2 hformat)
    rw [followFormat_cons] at h
    split at h
    · cases h
    cases item with
    | literal c =>
      dsimp only at h
      split at h
      · cases h
      · exact ih hrest h
    | field field =>
      have hset (n : Nat) : (field.set t n).year = t.year := by
        cases field with
        | year => exact absurd rfl hitem
        | _ => rfl
      dsimp only at h
      split at h
      · cases h
      · cases h
        exact hset _
      · exact (ih hrest h).trans (hset _)

/-- The year has four digits. -/
theorem year_of_getTime {s rest : Bytes} {t : CivilTime} (h : getTime s = some (t, rest)) :
    0 ≤ t.year ∧ t.year ≤ 9999 := by
  rw [getTime, timestampFormat, followFormat_cons] at h
  split at h
  · cases h
  dsimp only [TimeField.read] at h
  split at h
  · cases h
  · rename_i n hread
    cases h
    have hrange := readField_range hread
    dsimp only [TimeField.set]
    omega
  · rename_i n s hread
    have hrange := readField_range hread
    rw [year_of_followFormat (by decide) h]
    dsimp only [TimeField.set]
    omega

/-- The days of a month have two digits. -/
theorem daysInMonth_le (year : Int) (month : Nat) : daysInMonth year month ≤ 31 := by
  unfold daysInMonth
  split_ifs <;> decide

/-- A number and a character behind it are read. -/
theorem followFormat_field {field : TimeField} {c : UInt8} {format : List FormatItem}
    {text rest : Bytes} {n : Nat} (hne : text ≠ [])
    (hread : ∀ rest, field.read (text ++ rest) = some (n, rest)) (t : CivilTime) :
    followFormat (.field field :: .literal c :: format) t (text ++ c :: rest) =
      followFormat format (field.set t n) rest := by
  rw [followFormat_cons, if_neg (by simp [hne])]
  dsimp only
  rw [hread]
  dsimp only
  rw [followFormat_cons, if_neg (List.cons_ne_nil _ _)]
  dsimp only
  rw [readLiteral_cons]

/-- A number at the end of the format is read, whatever follows it. -/
theorem followFormat_last {field : TimeField} {text : Bytes} {n : Nat} (hne : text ≠ [])
    (hread : ∀ rest, field.read (text ++ rest) = some (n, rest)) (t : CivilTime) (rest : Bytes) :
    followFormat [.field field] t (text ++ rest) = some (field.set t n, rest) := by
  rw [followFormat_cons, if_neg (by simp [hne])]
  dsimp only
  rw [hread]
  cases rest <;> rfl

/-- A day in two digits is read: there is no blank to skip. -/
theorem readDay_twoDigits {n : Nat} (h : n < 100) (hl : 1 ≤ n) (hu : n ≤ 31) (rest : Bytes) :
    TimeField.day.read (twoDigits n ++ rest) = some (n, rest) := by
  have hfirst : isSpace (digitByte (n / 10)) = false :=
    (isDigit_cases (isDigit_digitByte (by omega))).2.1
  have hhead : (twoDigits n ++ rest).head?.any isSpace = false := by
    simp [twoDigits, hfirst]
  rw [TimeField.read, hhead]
  exact readField_twoDigits h hl hu rest

/-- A date and time in full digits is read, whatever follows it. -/
theorem getTime_dateTimeText {t : CivilTime} (h : t.Valid) (hl : 0 ≤ t.year)
    (hu : t.year ≤ 9999) (rest : Bytes) : getTime (dateTimeText t ++ rest) = some (t, rest) := by
  have hdays := daysInMonth_le t.year t.month
  obtain ⟨hmonth, hday, hhour, hminute, hsecond⟩ := h
  have hspace : (dateTimeText t ++ rest).dropWhile isSpace = dateTimeText t ++ rest := by
    have hfirst : isSpace (digitByte (t.year.toNat / 100 / 10)) = false :=
      (isDigit_cases (isDigit_digitByte (by omega))).2.1
    simp only [dateTimeText, fourDigits, twoDigits, List.cons_append, List.dropWhile_cons,
      hfirst, Bool.false_eq_true, if_false]
  have htext : dateTimeText t ++ rest = fourDigits t.year.toNat ++ dash :: (twoDigits t.month ++
      dash :: (twoDigits t.day ++ letterT :: (twoDigits t.hour ++ colon :: (twoDigits t.minute ++
        colon :: (twoDigits t.second ++ rest))))) := by
    simp [dateTimeText]
  have hyear : ((t.year.toNat : Nat) : Int) = t.year := Int.toNat_of_nonneg hl
  have hfour (n : Nat) : fourDigits n ≠ [] := List.cons_ne_nil _ _
  have htwo (n : Nat) : twoDigits n ≠ [] := List.cons_ne_nil _ _
  rw [getTime, hspace, htext, timestampFormat,
    @followFormat_field .year _ _ _ _ _ (hfour _)
      (readField_fourDigits (show t.year.toNat ≤ 9999 by omega)),
    @followFormat_field .month _ _ _ _ _ (htwo _)
      (readField_twoDigits (by omega) hmonth.1 hmonth.2),
    @followFormat_field .day _ _ _ _ _ (htwo _)
      (readDay_twoDigits (by omega) hday.1 (hday.2.trans hdays)),
    @followFormat_field .hour _ _ _ _ _ (htwo _)
      (readField_twoDigits (by omega) (Nat.zero_le _) (show t.hour ≤ 23 by omega)),
    @followFormat_field .minute _ _ _ _ _ (htwo _)
      (readField_twoDigits (by omega) (Nat.zero_le _) (show t.minute ≤ 59 by omega)),
    @followFormat_last .second _ _ (htwo _)
      (readField_twoDigits (by omega) (Nat.zero_le _) (show t.second ≤ 60 by omega))]
  simp only [TimeField.set, hyear]

end Cxx
