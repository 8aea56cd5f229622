-- SUMMARY: Byte strings and the string operations of the C++ standard library that the client uses.
import Mathlib.Algebra.Ring.Nat
import Mathlib.Data.List.DropRight

/-! # Byte strings

A `std::string` is a list of bytes. `bytes` reads an ASCII literal. -/

namespace Cxx

/-- A `std::string` or a `std::string_view`. -/
abbrev Bytes := List UInt8

/-- The bytes of an ASCII literal. -/
def bytes (s : String) : Bytes := s.toList.map fun c => UInt8.ofNat c.toNat

/-- What leaves a function other than by return: an exception of the standard
library, or undefined behaviour. -/
inductive Fault where
  | invalidArgument
  | outOfRange
  | lengthError
  | undefinedBehaviour
  deriving DecidableEq, Repr

/-- A `std::string` with the promise that its size is a `size_t`. -/
structure Blob where
  bytes : Bytes
  size_lt : bytes.length < 2 ^ 64
  deriving DecidableEq

theorem Blob.nil_lt : ([] : Bytes).length < 2 ^ 64 := by decide

/-- `size()`. -/
def Blob.size (b : Blob) : Nat := b.bytes.length

/-! ## Characters -/

def comma : UInt8 := 0x2C
def dash : UInt8 := 0x2D
def equalsSign : UInt8 := 0x3D
def quotation : UInt8 := 0x22
def percent : UInt8 := 0x25
def dot : UInt8 := 0x2E

/-- `std::isdigit`. -/
def isDigit (c : UInt8) : Bool := 0x30 ≤ c && c ≤ 0x39

/-- An ASCII letter. -/
def isLetter (c : UInt8) : Bool := (0x41 ≤ c && c ≤ 0x5A) || (0x61 ≤ c && c ≤ 0x7A)

/-- `std::isalnum` in the C locale. -/
def isAlnum (c : UInt8) : Bool := isDigit c || isLetter c

/-- `std::tolower` in the C locale. -/
def toLower (c : UInt8) : UInt8 := if 0x41 ≤ c ∧ c ≤ 0x5A then c + 0x20 else c

/-- `std::isspace` in the C locale. -/
def isSpace (c : UInt8) : Bool := c == 0x20 || (0x09 ≤ c && c ≤ 0x0D)

/-- The characters `Trim` strips. -/
def isBlank (c : UInt8) : Bool := c == 0x20 || c == 0x09

theorem isLetter_cases {c : UInt8} (h : isLetter c) :
    isDigit c = false ∧ isSpace c = false ∧ isBlank c = false ∧ isAlnum c = true ∧ c ≠ comma ∧
      c ≠ dash ∧ c ≠ equalsSign ∧ c ≠ quotation ∧ c ≠ percent := by
  simp only [isAlnum, isLetter, isDigit, isSpace, isBlank, comma, dash, equalsSign, quotation,
    percent, Bool.or_eq_true, Bool.and_eq_true, decide_eq_true_eq, UInt8.le_iff_toNat_le,
    ← UInt8.toNat_inj, ne_eq, Bool.or_eq_false_iff, Bool.and_eq_false_iff, decide_eq_false_iff_not,
    beq_eq_false_iff_ne, UInt8.reduceToNat] at h ⊢
  omega

theorem isDigit_cases {c : UInt8} (h : isDigit c) :
    isLetter c = false ∧ isSpace c = false ∧ isBlank c = false ∧ c ≠ comma ∧ c ≠ dash ∧
      c ≠ equalsSign := by
  simp only [isLetter, isDigit, isSpace, isBlank, comma, dash, equalsSign, Bool.and_eq_true,
    decide_eq_true_eq, UInt8.le_iff_toNat_le, ← UInt8.toNat_inj, ne_eq, Bool.or_eq_false_iff,
    Bool.and_eq_false_iff, decide_eq_false_iff_not, beq_eq_false_iff_ne, UInt8.reduceToNat] at h ⊢
  omega

/-! ## Searching -/

/-- `find(c)`: the text before the first `c` and the text after it. -/
def splitFirst (c : UInt8) : Bytes → Option (Bytes × Bytes)
  | [] => none
  | x :: xs => if x = c then some ([], xs) else (splitFirst c xs).map fun (a, b) => (x :: a, b)

/-- `rfind(c)`: the text before the last `c` and the text after it. -/
def splitLast (c : UInt8) (s : Bytes) : Option (Bytes × Bytes) :=
  (splitFirst c s.reverse).map fun (a, b) => (b.reverse, a.reverse)

theorem splitFirst_append {c : UInt8} {a : Bytes} (h : c ∉ a) (b : Bytes) :
    splitFirst c (a ++ c :: b) = some (a, b) := by
  induction a with
  | nil => simp [splitFirst]
  | cons x xs ih =>
    simp only [List.mem_cons, not_or] at h
    simp [splitFirst, Ne.symm h.1, ih h.2]

theorem splitFirst_eq_none {c : UInt8} {a : Bytes} : splitFirst c a = none ↔ c ∉ a := by
  induction a with
  | nil => simp [splitFirst]
  | cons x xs ih =>
    by_cases h : x = c
    · simp [splitFirst, h]
    · simp [splitFirst, h, ih, Ne.symm h]

theorem splitFirst_eq_some {c : UInt8} {s a b : Bytes} :
    splitFirst c s = some (a, b) ↔ s = a ++ c :: b ∧ c ∉ a := by
  constructor
  · induction s generalizing a with
    | nil =>
      intro h
      cases h
    | cons x xs ih =>
      by_cases hx : x = c
      · rw [splitFirst, if_pos hx]
        rintro ⟨⟩
        simp [hx]
      · rw [splitFirst, if_neg hx, Option.map_eq_some_iff]
        rintro ⟨⟨a', b'⟩, hsplit, ⟨⟩⟩
        obtain ⟨rfl, hnot⟩ := ih hsplit
        simp [hnot, Ne.symm hx]
  · rintro ⟨rfl, hnot⟩
    exact splitFirst_append hnot b

theorem exists_splitFirst {c : UInt8} {s : Bytes} (h : c ∈ s) :
    ∃ a b, splitFirst c s = some (a, b) := by
  cases hsplit : splitFirst c s with
  | none => exact absurd h (splitFirst_eq_none.1 hsplit)
  | some ab => exact ⟨ab.1, ab.2, rfl⟩

theorem splitLast_append {c : UInt8} {b : Bytes} (a : Bytes) (h : c ∉ b) :
    splitLast c (a ++ c :: b) = some (a, b) := by
  have hrev : (a ++ c :: b).reverse = b.reverse ++ c :: a.reverse := by simp
  simp [splitLast, hrev, splitFirst_append (show c ∉ b.reverse by simpa using h)]

theorem splitLast_eq_some {c : UInt8} {s a b : Bytes} :
    splitLast c s = some (a, b) ↔ s = a ++ c :: b ∧ c ∉ b := by
  constructor
  · intro h
    obtain ⟨⟨b', a'⟩, hsplit, heq⟩ := Option.map_eq_some_iff.1 h
    cases heq
    obtain ⟨hs, hnot⟩ := splitFirst_eq_some.1 hsplit
    refine ⟨?_, by simpa using hnot⟩
    rw [← List.reverse_reverse s, hs]
    simp
  · rintro ⟨rfl, hnot⟩
    exact splitLast_append a hnot

/-- `substr(offset, size)`. -/
def substr (s : Bytes) (offset size : Nat) : Except Fault Bytes :=
  if offset ≤ s.length then .ok ((s.drop offset).take size) else .error .outOfRange

/-! ## Order -/

/-- A common beginning does not matter to the order of two strings. -/
theorem compare_append_left (a b c : Bytes) : compare (a ++ b) (a ++ c) = compare b c := by
  induction a with
  | nil => rfl
  | cons x a ih => rw [List.cons_append, List.cons_append, List.compare_cons_cons, ih,
      Std.compare_self, Ordering.then]

/-! ## Lists of fields -/

/-- Successive `std::getline(ss, item, delim)` calls: the fields between the
delimiters, the last one only if it is not empty. -/
def getlines (delim : UInt8) (s : Bytes) : List Bytes :=
  let fields := s.splitOn delim
  if fields.getLast? = some [] then fields.dropLast else fields

/-- `fmt::join(items, ",")`. -/
def join (items : List Bytes) : Bytes := [comma].intercalate items

/-- What is joined is made of the items and of commas. -/
theorem mem_join {items : List Bytes} {c : UInt8} (h : c ∈ join items) :
    c = comma ∨ ∃ item ∈ items, c ∈ item := by
  induction items with
  | nil => exact absurd h (by simp [join])
  | cons item items ih =>
    cases items with
    | nil => exact .inr ⟨item, by simp, by simpa [join] using h⟩
    | cons next items =>
      rw [join, List.intercalate_cons_cons, List.mem_append, List.mem_append,
        List.mem_singleton] at h
      rcases h with (hitem | hcomma) | hrest
      · exact .inr ⟨item, by simp, hitem⟩
      · exact .inl hcomma
      · obtain hcomma | ⟨item', hitem', hc⟩ := ih hrest
        · exact .inl hcomma
        · exact .inr ⟨item', List.mem_cons_of_mem item hitem', hc⟩

theorem getlines_join {items : List Bytes} (hcomma : ∀ i ∈ items, comma ∉ i)
    (hne : ∀ i ∈ items, i ≠ []) : getlines comma (join items) = items := by
  by_cases hnil : items = []
  · subst hnil; decide
  · have hsplit : (join items).splitOn comma = items :=
      List.splitOn_intercalate comma hcomma hnil
    have hlast : items.getLast? ≠ some [] := fun h => hne _ (List.mem_of_getLast? h) rfl
    simp [getlines, hsplit, hlast]

/-- The first field ends at the first delimiter. -/
theorem getlines_cons {delim : UInt8} {a : Bytes} (h : delim ∉ a) (b : Bytes) :
    getlines delim (a ++ delim :: b) = a :: getlines delim b := by
  have hne := List.splitOn_ne_nil delim b
  rw [getlines, List.splitOn_append_cons_self_of_not_mem h]
  obtain ⟨field, fields, hfields⟩ := List.exists_cons_of_ne_nil hne
  simp only [getlines, hfields, List.getLast?_cons_cons]
  split <;> simp

theorem getlines_singleton {delim : UInt8} {a : Bytes} (h : delim ∉ a) (hne : a ≠ []) :
    getlines delim a = [a] := by
  simp [getlines, List.splitOn_eq_singleton h, hne]

/-- A string that is not empty has a field. -/
theorem getlines_ne_nil {delim : UInt8} {s : Bytes} (h : s ≠ []) : getlines delim s ≠ [] := by
  by_cases hmem : delim ∈ s
  · obtain ⟨a, b, hsplit⟩ := exists_splitFirst hmem
    obtain ⟨rfl, ha⟩ := splitFirst_eq_some.1 hsplit
    rw [getlines_cons ha]
    exact List.cons_ne_nil _ _
  · rw [getlines_singleton hmem h]
    exact List.cons_ne_nil _ _

theorem mem_splitOn_of_mem_getlines {delim : UInt8} {s field : Bytes}
    (h : field ∈ getlines delim s) : field ∈ s.splitOn delim := by
  unfold getlines at h
  dsimp only at h
  split at h
  · exact List.dropLast_subset _ h
  · exact h

/-- The fields do not have the delimiter. -/
theorem not_mem_of_mem_splitOn {delim : UInt8} {s field : Bytes} (h : field ∈ s.splitOn delim) :
    delim ∉ field := by
  induction s generalizing field with
  | nil =>
    rw [List.splitOn_nil, List.mem_singleton] at h
    simp [h]
  | cons c s ih =>
    rw [List.splitOn_cons_eq_if_modifyHead] at h
    split at h
    · rcases List.mem_cons.1 h with rfl | h
      · simp
      · exact ih h
    · rename_i hc
      obtain ⟨first, fields, hfields⟩ := List.exists_cons_of_ne_nil (List.splitOn_ne_nil delim s)
      rw [hfields, List.modifyHead_cons] at h
      rw [hfields] at ih
      rcases List.mem_cons.1 h with rfl | h
      · rw [List.mem_cons, not_or]
        exact ⟨fun heq => hc (beq_iff_eq.2 heq.symm), ih List.mem_cons_self⟩
      · exact ih (List.mem_cons_of_mem first h)

/-- The fields are made of characters of the string. -/
theorem mem_of_mem_getlines {delim c : UInt8} {s field : Bytes} (hfield : field ∈ getlines delim s)
    (hc : c ∈ field) : c ∈ s := by
  have hmem := mem_splitOn_of_mem_getlines hfield
  rw [← @List.intercalate_splitOn _ s _ _ delim, List.intercalate, List.mem_flatten]
  obtain ⟨i, hi⟩ := List.mem_iff_getElem?.1 hmem
  rw [← @List.getElem?_intersperse_two_mul _ (s.splitOn delim) [delim] i] at hi
  exact ⟨field, List.mem_of_getElem? hi, hc⟩

/-! ## Trimming -/

/-- `Trim`: strip spaces and tabs at both ends. -/
def trim (s : Bytes) : Bytes := (s.dropWhile isBlank).rdropWhile isBlank

theorem trim_of_ends {s : Bytes} (hfirst : ∀ c ∈ s.head?, isBlank c = false)
    (hlast : ∀ c ∈ s.getLast?, isBlank c = false) : trim s = s := by
  have hdrop : s.dropWhile isBlank = s := by
    cases s with
    | nil => rfl
    | cons c cs => simp [hfirst c rfl]
  have hrdrop : s.rdropWhile isBlank = s := by
    rw [List.rdropWhile_eq_self_iff]
    intro hne
    simp [hlast _ (List.getLast?_eq_some_getLast hne)]
  rw [trim, hdrop, hrdrop]

theorem trim_of_no_blank {s : Bytes} (h : ∀ c ∈ s, isBlank c = false) : trim s = s :=
  trim_of_ends (fun c hc => h c (List.mem_of_head? hc)) fun c hc => h c (List.mem_of_getLast? hc)

theorem trim_sublist (s : Bytes) : (trim s).Sublist s :=
  (List.rdropWhile_prefix isBlank _).sublist.trans (List.dropWhile_sublist isBlank)

end Cxx
