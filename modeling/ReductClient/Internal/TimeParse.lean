-- SUMMARY: `parse_iso8601_utc`: which strings it reads as which times, and on which of them it keeps to the grammar of timestamps.
import ReductClient.Bucket.Types
import ReductClient.Cxx.GetTime

open Cxx

namespace Reduct

/-- `std::chrono::system_clock::from_time_t`. -/
def fromTimeT (time : Int) : Time := .wrap (time * 1000000000)

/-- The `Z` or `z` of a timestamp in UTC. -/
def isZulu (c : UInt8) : Bool := c == 0x5A || c == 0x7A

/-- The fraction in microseconds: it is cut to six characters, or filled up with zeros. -/
def microsecondDigits (fraction : Bytes) : Bytes :=
  if 6 < fraction.length then fraction.take 6
  else fraction ++ List.replicate (6 - fraction.length) (digitByte 0)

/-- `parse_iso8601_utc`. An exception is modelled by its message. -/
def parseIso8601Utc (isoStr : Bytes) : Except Bytes Time :=
  if isoStr.getLast?.any isZulu = false then
    .error (bytes "Invalid timestamp (missing 'Z'): " ++ isoStr)
  else
    let clean := isoStr.dropLast
    let (timePart, fraction) :=
      match splitFirst dot clean with
      | none => (clean, none)
      | some (timePart, fraction) => (timePart, some fraction)
    match getTime timePart with
    | none => .error (bytes "Invalid timestamp format: " ++ isoStr)
    | some (tm, _) =>
      let time := timegm tm
      if time = -1 then .error (bytes "Invalid time value: " ++ isoStr)
      else
        let parsedTime := fromTimeT time
        match fraction with
        | none => .ok parsedTime
        | some fraction =>
          if fraction = [] then .error (bytes "Invalid fractional timestamp: " ++ isoStr)
          else
            let fraction := microsecondDigits fraction
            if fraction.all isDigit = false then
              .error (bytes "Invalid fractional timestamp: " ++ isoStr)
            else do
              let us ← (stoll fraction).mapError fun _ => bytes "stoll"
              .ok (.wrap (parsedTime.ns + us * 1000))

/-! ## What the parser reads -/

/-- The number that a run of digits stands for. -/
def digitsValue (digits : Bytes) : Nat :=
  Nat.ofDigits 10 (digits.map fun c => c.toNat - 0x30).reverse

/-- The parser finds a date and time, and the microseconds of a fraction. -/
inductive Reads (s : Bytes) : CivilTime → Nat → Prop where
  | seconds {rest : Bytes} {t : CivilTime} (hzone : s.getLast?.any isZulu = true)
      (hsplit : splitFirst dot s.dropLast = none) (htime : getTime s.dropLast = some (t, rest)) :
      Reads s t 0
  | fraction {timePart fraction rest : Bytes} {t : CivilTime}
      (hzone : s.getLast?.any isZulu = true)
      (hsplit : splitFirst dot s.dropLast = some (timePart, fraction))
      (htime : getTime timePart = some (t, rest)) (hne : fraction ≠ [])
      (hdigits : (microsecondDigits fraction).all isDigit = true) :
      Reads s t (digitsValue (microsecondDigits fraction))

theorem length_microsecondDigits (fraction : Bytes) : (microsecondDigits fraction).length = 6 := by
  unfold microsecondDigits
  split
  · rw [List.length_take]
    omega
  · rw [List.length_append, List.length_replicate]
    omega

/-- A character that is a digit is written as one. -/
theorem digitByte_of_isDigit {c : UInt8} (h : isDigit c = true) :
    c.toNat - 0x30 < 10 ∧ digitByte (c.toNat - 0x30) = c := by
  simp only [isDigit, Bool.and_eq_true, decide_eq_true_eq, UInt8.le_iff_toNat_le,
    UInt8.reduceToNat] at h
  have hlt : c.toNat - 0x30 < 10 := by omega
  refine ⟨hlt, UInt8.toNat_inj.1 ?_⟩
  rw [digitByte_toNat hlt]
  omega

theorem lt_of_mem_digits {digits : Bytes} (h : digits.all isDigit = true) :
    ∀ d ∈ digits.map (fun c => c.toNat - 0x30), d < 10 := by
  intro d hd
  obtain ⟨c, hc, rfl⟩ := List.mem_map.1 hd
  exact (digitByte_of_isDigit (List.all_eq_true.1 h c hc)).1

theorem map_digitByte_of_isDigit {digits : Bytes} (h : digits.all isDigit = true) :
    (digits.map fun c => c.toNat - 0x30).map digitByte = digits := by
  rw [List.map_map]
  refine (List.map_congr_left fun c hc => ?_).trans (List.map_id' digits)
  exact (digitByte_of_isDigit (List.all_eq_true.1 h c hc)).2

theorem digitsValue_lt {digits : Bytes} (h : digits.all isDigit = true) :
    digitsValue digits < 10 ^ digits.length := by
  have hlt := @ofDigits_lt (digits.map fun c => c.toNat - 0x30).reverse fun d hd =>
    lt_of_mem_digits h d (List.mem_reverse.1 hd)
  rw [List.length_reverse, List.length_map] at hlt
  exact hlt

/-- Digits are read as the number they stand for. -/
theorem readNumeral_isDigit {digits : Bytes} (hne : digits ≠ []) (h : digits.all isDigit = true) :
    readNumeral 10 digits = some (false, digitsValue digits) := by
  have hne' : digits.map (fun c => c.toNat - 0x30) ≠ [] := by simpa using hne
  have hrun := readNumeral_digits hne' (lt_of_mem_digits h) noDigitNext_nil
  rw [map_digitByte_of_isDigit h, List.append_nil] at hrun
  exact hrun

theorem stoll_digits {digits : Bytes} (hne : digits ≠ []) (h : digits.all isDigit = true)
    (hlength : digits.length ≤ 18) : stoll digits = .ok (digitsValue digits : Int) := by
  have hlt : digitsValue digits < 2 ^ 63 :=
    (digitsValue_lt h).trans_le
      ((Nat.pow_le_pow_right (by decide) hlength).trans (by decide))
  have hrange : -2 ^ 63 ≤ (digitsValue digits : Int) ∧ (digitsValue digits : Int) < 2 ^ 63 := by
    omega
  simp only [stoll, stoSigned, readNumeral_isDigit hne h, Bool.false_eq_true, if_false]
  exact if_pos hrange

/-! ## The grammar of timestamps -/

/-- The fraction of a second with the given digits, truncated to microseconds. -/
def truncatedMicros (ds : List Nat) : Nat := Nat.ofDigits 10 ds.reverse * 10 ^ 6 / 10 ^ ds.length

theorem digitsValue_map {ds : List Nat} (h : ∀ d ∈ ds, d < 10) :
    digitsValue (ds.map digitByte) = Nat.ofDigits 10 ds.reverse := by
  have hback : (ds.map digitByte).map (fun c => c.toNat - 0x30) = ds := by
    rw [List.map_map]
    refine (List.map_congr_left fun d hd => ?_).trans (List.map_id' ds)
    rw [Function.comp_apply, digitByte_toNat (h d hd)]
    omega
  rw [digitsValue, hback]

/-- The first six digits of a fraction count, and zeros behind it do not. -/
theorem digitsValue_microsecondDigits {ds : List Nat} (h : ∀ d ∈ ds, d < 10) :
    digitsValue (microsecondDigits (ds.map digitByte)) = truncatedMicros ds := by
  rw [microsecondDigits, List.length_map, truncatedMicros]
  by_cases hlong : 6 < ds.length
  · rw [if_pos hlong, ← List.map_take, digitsValue_map fun d hd => h d (List.mem_of_mem_take hd)]
    have hdrop : Nat.ofDigits 10 (ds.drop 6).reverse < 10 ^ (ds.length - 6) := by
      have hlt := @ofDigits_lt (ds.drop 6).reverse (by
        simp only [List.mem_reverse]
        exact fun d hd => h d (List.mem_of_mem_drop hd))
      simpa using hlt
    have hvalue : Nat.ofDigits 10 ds.reverse = Nat.ofDigits 10 (ds.drop 6).reverse +
        10 ^ (ds.length - 6) * Nat.ofDigits 10 (ds.take 6).reverse := by
      have hsplit : ds.reverse = (ds.drop 6).reverse ++ (ds.take 6).reverse := by
        rw [← List.reverse_append, List.take_append_drop]
      rw [hsplit, Nat.ofDigits_append, List.length_reverse, List.length_drop]
    have hpow : 10 ^ ds.length = 10 ^ (ds.length - 6) * 10 ^ 6 := by
      rw [← Nat.pow_add]
      congr 1
      omega
    rw [hpow, Nat.mul_div_mul_right _ _ (by decide), hvalue,
      Nat.add_mul_div_left _ _ (Nat.pow_pos (by decide)), Nat.div_eq_of_lt hdrop, Nat.zero_add]
  · rw [if_neg hlong, ← List.map_replicate, ← List.map_append, digitsValue_map]
    · have hpow : 10 ^ 6 = 10 ^ (6 - ds.length) * 10 ^ ds.length := by
        rw [← Nat.pow_add]
        congr 1
        omega
      rw [List.reverse_append, List.reverse_replicate, Nat.ofDigits_append, List.length_replicate,
        Nat.ofDigits_replicate_zero, Nat.zero_add, hpow, ← Nat.mul_assoc,
        Nat.mul_div_cancel _ (Nat.pow_pos (by decide)), Nat.mul_comm]
    · intro d hd
      rcases List.mem_append.1 hd with hd | hd
      · exact h d hd
      · rw [List.eq_of_mem_replicate hd]
        decide

/-- `YYYY-MM-DDThh:mm:ss` with the fields of a second of the calendar, a dot with digits
or none, then `Z` or `z`. -/
structure IsTimestamp (s : Bytes) (t : CivilTime) (micros : Nat) : Prop where
  valid : t.Valid
  year : 0 ≤ t.year ∧ t.year ≤ 9999
  text : ∃ zone, isZulu zone = true ∧
    ((s = dateTimeText t ++ [zone] ∧ micros = 0) ∨
      ∃ ds : List Nat, ds ≠ [] ∧ (∀ d ∈ ds, d < 10) ∧
        s = dateTimeText t ++ dot :: ds.map digitByte ++ [zone] ∧ micros = truncatedMicros ds)

theorem dot_not_mem_dateTimeText {t : CivilTime} (h : t.Valid)
    (hyear : 0 ≤ t.year ∧ t.year ≤ 9999) : dot ∉ dateTimeText t := by
  have hday := daysInMonth_le t.year t.month
  have htwo : ∀ n < 100, dot ∉ twoDigits n := by
    intro n hn hmem
    have hdigit : isDigit dot = true := by
      simp only [twoDigits, List.mem_cons, List.not_mem_nil, or_false] at hmem
      rcases hmem with heq | heq
      · rw [heq]
        exact isDigit_digitByte (by omega)
      · rw [heq]
        exact isDigit_digitByte (by omega)
    exact absurd hdigit (by decide)
  have hdash : dot ≠ dash := by decide
  have hT : dot ≠ letterT := by decide
  have hcolon : dot ≠ colon := by decide
  obtain ⟨hmonth, hday', hhour, hminute, hsecond⟩ := h
  simp only [dateTimeText, fourDigits, List.mem_append, List.mem_cons, hdash, hT, hcolon,
    false_or, htwo _ (show t.year.toNat / 100 < 100 by omega),
    htwo _ (show t.year.toNat % 100 < 100 by omega), htwo _ (show t.month < 100 by omega),
    htwo _ (show t.day < 100 by omega), htwo _ (show t.hour < 100 by omega),
    htwo _ (show t.minute < 100 by omega), htwo _ (show t.second < 100 by omega), not_false_eq_true]

theorem all_isDigit_microsecondDigits {ds : List Nat} (h : ∀ d ∈ ds, d < 10) :
    (microsecondDigits (ds.map digitByte)).all isDigit = true := by
  have hall : ∀ c ∈ ds.map digitByte, isDigit c = true := by
    intro c hc
    obtain ⟨d, hd, rfl⟩ := List.mem_map.1 hc
    exact isDigit_digitByte (h d hd)
  rw [List.all_eq_true]
  intro c hc
  unfold microsecondDigits at hc
  split at hc
  · exact hall c (List.mem_of_mem_take hc)
  · rcases List.mem_append.1 hc with hc | hc
    · exact hall c hc
    · rw [List.eq_of_mem_replicate hc]
      decide

/-- A timestamp is read with its fields. -/
theorem IsTimestamp.reads {s : Bytes} {t : CivilTime} {micros : Nat} (h : IsTimestamp s t micros) :
    Reads s t micros := by
  have hdot := dot_not_mem_dateTimeText h.valid h.year
  have hread := getTime_dateTimeText h.valid h.year.1 h.year.2 []
  rw [List.append_nil] at hread
  obtain ⟨zone, hzone, htext⟩ := h.text
  have hlast : ∀ clean : Bytes, (clean ++ [zone]).getLast?.any isZulu = true := by
    intro clean
    rw [List.getLast?_concat]
    exact hzone
  obtain ⟨rfl, rfl⟩ | ⟨ds, hne, hds, rfl, rfl⟩ := htext
  · refine @Reads.seconds _ [] _ (hlast _) ?_ ?_
    · rw [List.dropLast_concat]
      exact splitFirst_eq_none.2 hdot
    · rw [List.dropLast_concat]
      exact hread
  · rw [← digitsValue_microsecondDigits hds]
    refine .fraction (hlast _) ?_ hread (by simpa using hne) (all_isDigit_microsecondDigits hds)
    rw [List.dropLast_concat]
    exact splitFirst_append hdot _

theorem Reads.unique {s : Bytes} {t t' : CivilTime} {micros micros' : Nat}
    (h : Reads s t micros) (h' : Reads s t' micros') : t = t' ∧ micros = micros' := by
  cases h with
  | seconds _ hsplit htime =>
    cases h' with
    | seconds _ hsplit' htime' =>
      cases htime.symm.trans htime'
      exact ⟨rfl, rfl⟩
    | fraction _ hsplit' => cases hsplit.symm.trans hsplit'
  | fraction _ hsplit htime =>
    cases h' with
    | seconds _ hsplit' => cases hsplit.symm.trans hsplit'
    | fraction _ hsplit' htime' =>
      cases hsplit.symm.trans hsplit'
      cases htime.symm.trans htime'
      exact ⟨rfl, rfl⟩

/-! ## The parts of a string -/

/-- The text before the first dot, or before the `Z`. -/
def timeText (s : Bytes) : Bytes :=
  match splitFirst dot s.dropLast with
  | none => s.dropLast
  | some (timePart, _) => timePart

/-- The text between the first dot and the `Z`. -/
def fractionText (s : Bytes) : Bytes :=
  match splitFirst dot s.dropLast with
  | none => []
  | some (_, fraction) => fraction

/-- The time is written in full digits with nothing before it or after it, its fields
are in the calendar, and the whole fraction is made of digits. -/
structure WrittenInFull (s : Bytes) (t : CivilTime) : Prop where
  time : timeText s = dateTimeText t
  calendar : t.Valid
  fraction : (fractionText s).all isDigit = true

theorem IsTimestamp.writtenInFull {s : Bytes} {t : CivilTime} {micros : Nat}
    (h : IsTimestamp s t micros) : WrittenInFull s t := by
  have hdot := dot_not_mem_dateTimeText h.valid h.year
  obtain ⟨zone, -, ⟨rfl, -⟩ | ⟨ds, -, hds, rfl, -⟩⟩ := h.text
  · have hsplit : splitFirst dot (dateTimeText t ++ [zone]).dropLast = none := by
      rw [List.dropLast_concat]
      exact splitFirst_eq_none.2 hdot
    refine ⟨?_, h.valid, ?_⟩
    · rw [timeText, hsplit]
      exact List.dropLast_concat
    · rw [fractionText, hsplit]
      rfl
  · have hsplit : splitFirst dot (dateTimeText t ++ dot :: ds.map digitByte ++ [zone]).dropLast =
        some (dateTimeText t, ds.map digitByte) := by
      rw [List.dropLast_concat]
      exact splitFirst_append hdot _
    refine ⟨?_, h.valid, ?_⟩
    · rw [timeText, hsplit]
    · rw [fractionText, hsplit, List.all_map, List.all_eq_true]
      exact fun d hd => isDigit_digitByte (hds d hd)

/-- What has been read is a timestamp if it is written in full. -/
theorem WrittenInFull.isTimestamp {s : Bytes} {t : CivilTime} {micros : Nat}
    (hreads : Reads s t micros) (h : WrittenInFull s t) : IsTimestamp s t micros := by
  have hconcat : s.getLast?.any isZulu = true →
      ∃ zone, isZulu zone = true ∧ s = s.dropLast ++ [zone] := by
    intro hzone
    obtain ⟨zone, hlast, hzulu⟩ := (Option.any_eq_true _ _).1 hzone
    exact ⟨zone, hzulu, (List.dropLast_append_getLast? zone hlast).symm⟩
  obtain ⟨htime, hvalid, hfraction⟩ := h
  cases hreads with
  | seconds hzone hsplit hread =>
    obtain ⟨zone, hzulu, hs⟩ := hconcat hzone
    rw [timeText, hsplit] at htime
    exact ⟨hvalid, year_of_getTime hread, zone, hzulu, .inl ⟨htime ▸ hs, rfl⟩⟩
  | @fraction timePart fraction _ _ hzone hsplit hread hne hdigits =>
    obtain ⟨zone, hzulu, hs⟩ := hconcat hzone
    rw [timeText, hsplit] at htime
    rw [fractionText, hsplit] at hfraction
    have hmap := map_digitByte_of_isDigit hfraction
    have hds := lt_of_mem_digits hfraction
    refine ⟨hvalid, year_of_getTime hread, zone, hzulu, .inr ⟨_, by simpa using hne, hds, ?_, ?_⟩⟩
    · rw [hmap, ← htime, ← (splitFirst_eq_some.1 hsplit).1]
      exact hs
    · rw [← digitsValue_microsecondDigits hds, hmap]

/-! ## The parser on what it reads -/

/-- The nanoseconds of a second and a fraction. -/
def timestampNs (t : CivilTime) (micros : Nat) : Int := timegm t * 1000000000 + micros * 1000

theorem truncatedMicros_lt {ds : List Nat} (h : ∀ d ∈ ds, d < 10) : truncatedMicros ds < 10 ^ 6 := by
  have hlt := @ofDigits_lt ds.reverse fun d hd => h d (List.mem_reverse.1 hd)
  rw [List.length_reverse] at hlt
  rw [truncatedMicros, Nat.div_lt_iff_lt_mul (Nat.pow_pos (by decide)), Nat.mul_comm (10 ^ 6)]
  exact Nat.mul_lt_mul_of_pos_right hlt (by decide)

/-- The moment of a timestamp is in the second with its fields. -/
theorem IsTimestamp.gmtime_timestampNs {s : Bytes} {t : CivilTime} {micros : Nat}
    (h : IsTimestamp s t micros) : gmtime (timestampNs t micros / 1000000000) = t := by
  have hmicros : micros < 10 ^ 6 := by
    obtain ⟨zone, -, ⟨-, rfl⟩ | ⟨ds, -, hds, -, rfl⟩⟩ := h.text
    · decide
    · exact truncatedMicros_lt hds
  have hsecond : timestampNs t micros / 1000000000 = timegm t := by
    unfold timestampNs
    omega
  rw [hsecond]
  exact gmtime_timegm h.valid

/-- The range of the clock is left and entered again. -/
theorem wrap_add (seconds micros : Int) :
    Time.wrap ((fromTimeT seconds).ns + micros * 1000) =
      .wrap (seconds * 1000000000 + micros * 1000) := by
  refine Time.ext ?_
  exact Int.bmod_add_bmod

theorem parse_of_reads {s : Bytes} {t : CivilTime} {micros : Nat} (h : Reads s t micros) :
    parseIso8601Utc s =
      if timegm t = -1 then .error (bytes "Invalid time value: " ++ s)
      else .ok (.wrap (timestampNs t micros)) := by
  unfold timestampNs
  cases h with
  | seconds hzone hsplit htime =>
    simp only [parseIso8601Utc, hzone, hsplit, htime, Bool.true_eq_false, if_false]
    rw [Int.natCast_zero, Int.zero_mul, Int.add_zero]
    rfl
  | @fraction _ fraction _ _ hzone hsplit htime hne hdigits =>
    have hlength := length_microsecondDigits fraction
    have hstoll := stoll_digits (List.ne_nil_of_length_pos (by omega)) hdigits (by omega)
    simp only [parseIso8601Utc, hzone, hsplit, htime, hne, hdigits, hstoll, Bool.true_eq_false,
      if_false, ← wrap_add]
    rfl

/-- Whatever is accepted has been read. -/
theorem reads_of_parse {s : Bytes} {time : Time} (h : parseIso8601Utc s = .ok time) :
    ∃ t micros, Reads s t micros ∧ timegm t ≠ -1 := by
  unfold parseIso8601Utc at h
  split at h
  · cases h
  rename_i hzone
  rw [Bool.not_eq_false] at hzone
  dsimp only at h
  cases hsplit : splitFirst dot s.dropLast with
  | none =>
    simp only [hsplit] at h
    cases htime : getTime s.dropLast with
    | none =>
      simp only [htime] at h
      cases h
    | some read =>
      simp only [htime] at h
      split at h
      · cases h
      · exact ⟨_, _, .seconds hzone hsplit htime, ‹_›⟩
  | some parts =>
    obtain ⟨timePart, fraction⟩ := parts
    simp only [hsplit] at h
    cases htime : getTime timePart with
    | none =>
      simp only [htime] at h
      cases h
    | some read =>
      simp only [htime] at h
      split_ifs at h with hseconds hempty hdigits
      rw [Bool.not_eq_false] at hdigits
      exact ⟨_, _, .fraction hzone hsplit htime hempty hdigits, hseconds⟩

/-! ## The parser and the grammar -/

/-- A timestamp is parsed as its second of the calendar and its fraction truncated to
microseconds, and any other string is rejected with an exception. -/
structure KeepsGrammar (s : Bytes) : Prop where
  accepts : ∀ t micros, IsTimestamp s t micros →
    ∃ time, parseIso8601Utc s = .ok time ∧ time.ns = timestampNs t micros ∧
      gmtime (time.ns / 1000000000) = t
  rejects : (∀ t micros, ¬ IsTimestamp s t micros) → ∃ what, parseIso8601Utc s = .error what

/-- What the parser reads in the string is written in full and in the range of the
clock. The last second before the epoch is read from another string only. -/
def ReadsStrictly (s : Bytes) : Prop :=
  ∀ t micros, Reads s t micros →
    (timegm t ≠ -1 → WrittenInFull s t ∧ -2 ^ 63 ≤ timestampNs t micros ∧
      timestampNs t micros < 2 ^ 63) ∧
    (timegm t = -1 → ¬ WrittenInFull s t)

/-- The parser keeps to the grammar on exactly these strings. -/
theorem keepsGrammar_iff (s : Bytes) : KeepsGrammar s ↔ ReadsStrictly s := by
  constructor
  · intro h t micros hreads
    have hparse := parse_of_reads hreads
    constructor
    · intro hseconds
      rw [if_neg hseconds] at hparse
      have hstamp : ∃ t' micros', IsTimestamp s t' micros' := by
        by_contra hno
        push Not at hno
        obtain ⟨what, herror⟩ := h.rejects hno
        cases hparse.symm.trans herror
      obtain ⟨t', micros', hstamp⟩ := hstamp
      obtain ⟨rfl, rfl⟩ := hreads.unique hstamp.reads
      obtain ⟨time, htime, hns, -⟩ := h.accepts _ _ hstamp
      rw [← hns]
      exact ⟨hstamp.writtenInFull, time.lower, time.upper⟩
    · intro hseconds hfull
      rw [if_pos hseconds] at hparse
      obtain ⟨time, htime, -⟩ := h.accepts _ _ (hfull.isTimestamp hreads)
      cases hparse.symm.trans htime
  · intro h
    constructor
    · intro t micros hstamp
      obtain ⟨hfound, hbefore⟩ := h t micros hstamp.reads
      have hseconds : timegm t ≠ -1 := fun heq => hbefore heq hstamp.writtenInFull
      obtain ⟨-, hl, hu⟩ := hfound hseconds
      refine ⟨.wrap (timestampNs t micros), ?_, Time.wrap_ns hl hu, ?_⟩
      · rw [parse_of_reads hstamp.reads, if_neg hseconds]
      · rw [Time.wrap_ns hl hu]
        exact hstamp.gmtime_timestampNs
    · intro hno
      cases hparse : parseIso8601Utc s with
      | error what => exact ⟨what, rfl⟩
      | ok time =>
        obtain ⟨t, micros, hreads, hseconds⟩ := reads_of_parse hparse
        have hfull := ((h t micros hreads).1 hseconds).1
        exact absurd (hfull.isTimestamp hreads) (hno t micros)

/-- The time is not written in full digits. -/
theorem not_keepsGrammar_of_length {s : Bytes} {time : Time} (hlength : (timeText s).length ≠ 19)
    (hparse : parseIso8601Utc s = .ok time) : ¬ KeepsGrammar s := by
  intro h
  obtain ⟨what, hwhat⟩ := h.rejects fun t micros hstamp => by
    have htime := congrArg List.length hstamp.writtenInFull.time
    rw [length_dateTimeText] at htime
    exact hlength htime
  cases hparse.symm.trans hwhat

/-- Text between the seconds and the `Z` and behind six digits of a fraction is passed
over, a blank may stand for the first digit of the day, the time may be left out, and the
last second before the epoch is rejected. -/
theorem keepsGrammar_broken :
    ¬ KeepsGrammar (bytes "2024-10-11T13:45:30+02:00Z") ∧
      ¬ KeepsGrammar (bytes "2024-10-11T13:45:30.123456+02:00Z") ∧
      ¬ KeepsGrammar (bytes "2024-10- 1T00:00:00Z") ∧
      ¬ KeepsGrammar (bytes "2024-10-11Z") ∧
      ¬ KeepsGrammar (bytes "1969-12-31T23:59:59Z") := by
  refine ⟨not_keepsGrammar_of_length (by decide) rfl, fun h => ?_, fun h => ?_,
    not_keepsGrammar_of_length (by decide) rfl, fun h => ?_⟩
  · obtain ⟨what, hwhat⟩ := h.rejects fun t micros hstamp =>
      absurd hstamp.writtenInFull.fraction (by decide)
    cases hwhat
  · obtain ⟨what, hwhat⟩ := h.rejects fun t micros hstamp => by
      have htime := hstamp.writtenInFull.time
      have hday := daysInMonth_le t.year t.month
      have hten := hstamp.valid.day.2
      have htens : some 0x20 = some (digitByte (t.day / 10)) := congrArg (fun s => s[8]?) htime
      have hdigit := @isDigit_digitByte (t.day / 10) (by omega)
      rw [← Option.some.inj htens] at hdigit
      exact absurd hdigit (by decide)
    cases hwhat
  · obtain ⟨time, htime, -⟩ := h.accepts ⟨1969, 12, 31, 23, 59, 59⟩ 0
      ⟨⟨by decide, by decide, by decide, by decide, by decide⟩, by decide, 0x5A, rfl,
        .inl ⟨by decide, rfl⟩⟩
    cases htime

end Reduct
