-- SUMMARY: The kinds of members that a report of the server may have: numbers, times, options, defaults, names and conditions, with one rule of reading for each.
import ReductClient.Internal.SettingsRoundTrip

open Cxx Fallible

namespace Reduct

/-! ## Kinds of members

A report is read by the rules for its members. What they leave open (the order of the
members, other members, how a default is given) is left to the server. -/

/-- A member of the value is as it should be. -/
def HasMember (data : Json) (key : Bytes) (p : Json → Prop) : Prop :=
  ∃ v, data.member? key = some v ∧ p v

/-- An option is left out or null if it is not set. -/
def HasOptional {α : Type} (data : Json) (key : Bytes) (Is : α → Json → Prop) (a : Option α) :
    Prop :=
  match a with
  | none => data.member? key = none ∨ data.member? key = some .null
  | some a => HasMember data key (Is a)

/-- An option is left out if it is not set. -/
def HasContained {α : Type} (data : Json) (key : Bytes) (Is : α → Json → Prop) (a : Option α) :
    Prop :=
  match a with
  | none => data.member? key = none
  | some a => HasMember data key (Is a)

/-- A default may be left out. -/
def HasDefaulted {α : Type} (data : Json) (key : Bytes) (toJson : α → Json) (missing a : α) :
    Prop :=
  data.member? key = some (toJson a) ∨ a = missing ∧ data.member? key = none

/-- A value is given by its name. The default may be left out or null. -/
def HasNamed {α : Type} (data : Json) (key : Bytes) (name : α → Bytes) (missing a : α) : Prop :=
  data.member? key = some (.str (name a)) ∨
    a = missing ∧ (data.member? key = none ∨ data.member? key = some .null)

/-- A number that a `uint64_t` holds. -/
def IsCount (n : Nat) (v : Json) : Prop := v = jsonNat n ∧ n < 2 ^ 64

/-- A text. -/
def IsText (text : Bytes) (v : Json) : Prop := v = .str text

/-- The text of a timestamp with the time. The last second before the epoch is not read. -/
def IsTimeText (t : Time) (v : Json) : Prop :=
  ∃ text date micros, v = .str text ∧ IsTimestamp text date micros ∧ timegm date ≠ -1 ∧
    t.ns = timestampNs date micros

/-- Any value but null with the same JSON as the text of the condition. Its strings are
UTF-8, as in every JSON text. -/
def IsCondition (text : JsonText) (v : Json) : Prop :=
  text.parse .sorted = .ok (v.rebuild .sorted) ∧ v ≠ .null ∧ v.isUtf8 = true

/-! ## Rules -/

section

variable {α : Type} {data : Json} {key : Bytes} {read : Json → Except Bytes α} {a : α}

theorem HasMember.reads {Is : α → Json → Prop} (h : HasMember data key (Is a))
    (hread : ∀ v, Is a v → read v = .ok a) : memberAt data key read = .ok a := by
  obtain ⟨v, hmember, hv⟩ := h
  rw [memberAt_of_member? hmember, hread v hv]

theorem HasOptional.reads {Is : α → Json → Prop} {option : Option α}
    (h : HasOptional data key Is option)
    (hread : ∀ a ∈ option, ∀ v, Is a v → read v = .ok a ∧ v ≠ .null) :
    nonNullMember data key read = .ok option := by
  cases option with
  | none =>
    rcases h with h | h
    · exact memberOr_of_none h none
    · rw [nonNullMember, memberOr_of_member? h]
  | some a =>
    obtain ⟨v, hmember, hv⟩ := h
    obtain ⟨hok, hnull⟩ := hread a rfl v hv
    rw [nonNullMember, memberOr_of_member? hmember]
    split
    · exact absurd rfl hnull
    · rw [hok]
      rfl

theorem HasContained.reads {Is : α → Json → Prop} {option : Option α}
    (h : HasContained data key Is option) (hread : ∀ a v, Is a v → read v = .ok a) :
    containedMember data key read = .ok option := by
  cases option with
  | none => exact memberOr_of_none h none
  | some a =>
    obtain ⟨v, hmember, hv⟩ := h
    rw [containedMember, memberOr_of_member? hmember, hread a v hv]
    rfl

theorem HasDefaulted.reads {toJson : α → Json} {missing : α}
    (h : HasDefaulted data key toJson missing a) (hread : read (toJson a) = .ok a) :
    memberOr data key read missing = .ok a := by
  rcases h with h | ⟨rfl, h⟩
  · rw [memberOr_of_member? h, hread]
  · exact memberOr_of_none h a

theorem HasNamed.reads {name : α → Bytes} {missing : α} (h : HasNamed data key name missing a)
    (hread : read (.str (name a)) = .ok a) (hnull : read .null = .ok missing) :
    memberOr data key read missing = .ok a := by
  rcases h with h | ⟨rfl, h | h⟩
  · rw [memberOr_of_member? h, hread]
  · exact memberOr_of_none h a
  · rw [memberOr_of_member? h, hnull]

end

theorem IsCount.reads {n : Nat} {v : Json} (h : IsCount n v) : v.getUInt64 = .ok n := by
  obtain ⟨rfl, hn⟩ := h
  exact Json.getUInt64_int hn

theorem IsCount.ne_null {n : Nat} {v : Json} (h : IsCount n v) : v ≠ .null := by
  obtain ⟨rfl, -⟩ := h
  exact nofun

/-- A text that is an option. -/
theorem HasOptional.readsText {data : Json} {key : Bytes} {option : Option Bytes}
    (h : HasOptional data key IsText option) :
    nonNullMember data key Json.getString = .ok option := by
  refine h.reads ?_
  rintro text - _ rfl
  exact ⟨rfl, nofun⟩

theorem IsTimeText.parse {t : Time} {v : Json} (h : IsTimeText t v) :
    (v.getString >>= parseIso8601Utc) = .ok t ∧ v ≠ .null := by
  obtain ⟨text, date, micros, rfl, hstamp, hsecond, hns⟩ := h
  refine ⟨?_, nofun⟩
  have htime : Time.wrap (timestampNs date micros) = t :=
    Time.ext ((Time.wrap_ns (hns ▸ t.lower) (hns ▸ t.upper)).trans hns.symm)
  rw [Json.getString, ok_bind, parse_of_reads hstamp.reads, if_neg hsecond, htime]

/-- A condition is returned as a text with the same JSON. -/
theorem condition_reported {data : Json} {when : Option JsonText}
    (h : HasOptional data (bytes "when") IsCondition when) :
    ∃ when', nonNullMember data (bytes "when") dumpWhen = .ok when' ∧ SameCondition when when' := by
  cases when with
  | none =>
    refine ⟨none, HasOptional.reads h ?_, rfl⟩
    rintro _ ⟨⟩
  | some text =>
    obtain ⟨v, hmember, hparse, hnull, hutf8⟩ := h
    have hread : dumpWhen v = .ok (.of v) := by rw [dumpWhen, Json.dump, if_pos hutf8]
    refine ⟨some (.of v), ?_, congrArg some hparse.symm⟩
    rw [nonNullMember, memberOr_of_member? hmember]
    split
    · exact absurd rfl hnull
    · rw [hread]
      rfl

end Reduct
