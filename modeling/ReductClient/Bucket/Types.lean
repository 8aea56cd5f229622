-- SUMMARY: Times, errors and results of the bucket interface, and the conversions between times and microseconds.
import Mathlib.Tactic.Ring
import ReductClient.Cxx.Numeric
import ReductClient.Cxx.Containers

open Cxx

namespace Reduct

/-! ## Errors and results -/

/-- `Error`. The code is an HTTP status, or -1 for a communication error. -/
structure Error where
  code : Int := 0
  message : Bytes := []
  deriving DecidableEq

namespace Error

/-- `Error::kOk`. -/
def kOk : Error := {}

/-- `Error::operator bool`. -/
def isError (e : Error) : Bool := e.code != 0

@[simp] theorem kOk_isError : kOk.isError = false := rfl

end Error

/-- `Result<T>`. -/
structure Result (α : Type) where
  result : α
  error : Error

/-! ## Times -/

/-- `IBucket::Time`: a time point of a system clock that counts nanoseconds
since the epoch in a signed 64-bit integer. -/
structure Time where
  ns : Int
  lower : -2 ^ 63 ≤ ns
  upper : ns < 2 ^ 63
  deriving DecidableEq

namespace Time

@[ext] theorem ext {s t : Time} (h : s.ns = t.ns) : s = t := by
  cases s; cases t; cases h; rfl

/-- The time with the given count, reduced to the range of the clock. -/
def wrap (ns : Int) : Time where
  ns := Int.bmod ns (2 ^ 64)
  lower := by have := @Int.le_bmod ns (2 ^ 64) (by decide); omega
  upper := by have := @Int.bmod_lt ns (2 ^ 64) (by decide); omega

theorem wrap_ns {ns : Int} (hl : -2 ^ 63 ≤ ns) (hu : ns < 2 ^ 63) : (wrap ns).ns = ns := by
  simp only [wrap]
  exact Int.bmod_eq_of_le (by omega) (by omega)

/-- `operator<` on time points. -/
def before (s t : Time) : Bool := s.ns < t.ns

instance : Ord Time := ⟨fun s t => compare s.ns t.ns⟩

instance : Std.TransOrd Time where
  eq_swap {s t} := @Std.OrientedCmp.eq_swap Int compare _ s.ns t.ns
  isLE_trans {s t u} := @Std.TransCmp.isLE_trans Int compare _ s.ns t.ns u.ns

/-- The time is not before the epoch. -/
def AfterEpoch (t : Time) : Prop := 0 ≤ t.ns

instance (t : Time) : Decidable t.AfterEpoch := inferInstanceAs (Decidable (0 ≤ t.ns))

end Time

/-- `ToMicroseconds`: `duration_cast` truncates towards zero. -/
def toMicroseconds (ts : Time) : Int := ts.ns.tdiv 1000

/-- `static_cast<uint64_t>` of a signed 64-bit integer. -/
def toUInt64 (n : Int) : Nat := (n % 2 ^ 64).toNat

/-- `IBucket::Time() + std::chrono::microseconds(us)` for an unsigned 64-bit
`us`: the count becomes signed and is scaled to nanoseconds. -/
def timeFromMicroseconds (us : Nat) : Time := .wrap (Int.bmod us (2 ^ 64) * 1000)

/-- `FromMicroseconds`. -/
def fromMicroseconds (ts : Bytes) : Except Fault Time := do
  let us ← stoul ts
  pure (timeFromMicroseconds us)

theorem fromMicroseconds_decimal (n : Nat) :
    fromMicroseconds (decimal n) =
      if n < 2 ^ 64 then .ok (timeFromMicroseconds n) else .error .outOfRange := by
  have hread := readNumeral_decimal n noDigitNext_nil
  rw [List.append_nil] at hread
  simp only [fromMicroseconds, stoul, stoull, hread]
  split <;> rfl

/-- The unsigned microseconds the protocol carries for a time. -/
def Time.micros (t : Time) : Nat := toUInt64 (toMicroseconds t)

theorem Time.micros_eq {t : Time} (h : t.AfterEpoch) : t.micros = t.ns.toNat / 1000 := by
  have hu := t.upper
  have h0 : 0 ≤ t.ns := h
  simp only [micros, toUInt64, toMicroseconds, Int.tdiv_eq_ediv_of_nonneg h0]
  omega

theorem Time.micros_lt_size (t : Time) : t.micros < 2 ^ 64 := by
  simp only [micros, toUInt64]
  omega

theorem Time.toMicroseconds_eq {t : Time} (h : t.AfterEpoch) : toMicroseconds t = t.micros := by
  have hu := t.upper
  have h0 : 0 ≤ t.ns := h
  simp only [micros, toUInt64, toMicroseconds, Int.tdiv_eq_ediv_of_nonneg h0]
  omega

/-- Truncation to microseconds keeps the order. -/
theorem Time.micros_mono {s t : Time} (hs : s.AfterEpoch) (ht : t.AfterEpoch)
    (h : s.ns ≤ t.ns) : s.micros ≤ t.micros := by
  rw [micros_eq hs, micros_eq ht]
  omega

/-- Microseconds the clock can represent are converted without loss. -/
theorem timeFromMicroseconds_ns {us : Nat} (h : us < 2 ^ 63 / 1000 + 1)
    (hns : (us : Int) * 1000 < 2 ^ 63) : (timeFromMicroseconds us).ns = us * 1000 := by
  have hmod : Int.bmod us (2 ^ 64) = us := Int.bmod_eq_of_le (by omega) (by omega)
  rw [timeFromMicroseconds, hmod, Time.wrap_ns (by omega) hns]

/-- Truncated to microseconds, a time of the clock is still one. -/
theorem toMicroseconds_bounds (t : Time) :
    -2 ^ 63 ≤ toMicroseconds t * 1000 ∧ toMicroseconds t * 1000 < 2 ^ 63 := by
  have hl := t.lower
  have hu := t.upper
  rw [show toMicroseconds t = t.ns.tdiv 1000 from rfl]
  rcases le_or_gt 0 t.ns with h | h
  · rw [Int.tdiv_eq_ediv_of_nonneg h]
    omega
  · have hneg : t.ns.tdiv 1000 = -((-t.ns) / 1000) := by
      rw [← Int.tdiv_eq_ediv_of_nonneg (by omega), Int.neg_tdiv, neg_neg]
    rw [hneg]
    omega

/-- The microseconds the protocol carries give back the time, truncated. -/
theorem timeFromMicroseconds_micros (t : Time) :
    (timeFromMicroseconds t.micros).ns = toMicroseconds t * 1000 := by
  have hbounds := toMicroseconds_bounds t
  have hcast : ((t.micros : Nat) : Int) = toMicroseconds t % 2 ^ 64 := by
    simp only [Time.micros, toUInt64]
    omega
  have hmod : Int.bmod t.micros (2 ^ 64) = toMicroseconds t := by
    have hemod : Int.bmod (toMicroseconds t % 2 ^ 64) (2 ^ 64) =
        Int.bmod (toMicroseconds t) (2 ^ 64) := Int.emod_bmod _ (2 ^ 64)
    rw [hcast, hemod]
    exact Int.bmod_eq_of_le (by omega) (by omega)
  rw [timeFromMicroseconds, hmod, Time.wrap_ns hbounds.1 hbounds.2]

/-- Times are told apart by their microseconds. -/
theorem timeFromMicroseconds_inj {s t : Time} :
    timeFromMicroseconds s.micros = timeFromMicroseconds t.micros ↔ s.micros = t.micros := by
  constructor
  · intro h
    have hns := congrArg Time.ns h
    rw [timeFromMicroseconds_micros, timeFromMicroseconds_micros] at hns
    have heq : toMicroseconds s = toMicroseconds t := by omega
    rw [Time.micros, Time.micros, heq]
  · exact fun h => congrArg _ h

/-! ## Labels -/

/-- `IBucket::LabelMap`. -/
abbrev LabelMap := OrderedMap Bytes Bytes

end Reduct
