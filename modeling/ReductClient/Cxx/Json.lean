-- SUMMARY: JSON values and texts as the nlohmann library has them: the two kinds of objects, parsing and dumping, and the accessors with the messages of their exceptions.
import Mathlib.Algebra.Ring.Int.Defs
import Mathlib.Data.List.Induction
import Mathlib.Data.List.Nodup
import ReductClient.Cxx.Strings

namespace Cxx

/-! ## UTF-8 -/

/-- A range of bytes. -/
structure ByteRange where
  low : UInt8
  high : UInt8

/-- The continuation bytes. -/
def ByteRange.tail : ByteRange := ⟨0x80, 0xBF⟩

/-- The ranges of the bytes that follow a first byte, if it is one. -/
def followingRanges (c : UInt8) : Option (List ByteRange) :=
  if c ≤ 0x7F then some []
  else if 0xC2 ≤ c ∧ c ≤ 0xDF then some [.tail]
  else if c = 0xE0 then some [⟨0xA0, 0xBF⟩, .tail]
  else if c = 0xED then some [⟨0x80, 0x9F⟩, .tail]
  else if 0xE1 ≤ c ∧ c ≤ 0xEF then some [.tail, .tail]
  else if c = 0xF0 then some [⟨0x90, 0xBF⟩, .tail, .tail]
  else if 0xF1 ≤ c ∧ c ≤ 0xF3 then some [.tail, .tail, .tail]
  else if c = 0xF4 then some [⟨0x80, 0x8F⟩, .tail, .tail]
  else none

/-- The string goes on with bytes of the given ranges, then with whole characters. -/
def isUtf8From : List ByteRange → Bytes → Bool
  | ranges, [] => ranges.isEmpty
  | [], c :: s =>
    match followingRanges c with
    | some ranges => isUtf8From ranges s
    | none => false
  | range :: ranges, c :: s => range.low ≤ c && c ≤ range.high && isUtf8From ranges s

/-- The string is well-formed UTF-8. -/
def isUtf8 (s : Bytes) : Bool := isUtf8From [] s

theorem low_of_followingRanges {c : UInt8} {ranges : List ByteRange}
    (h : followingRanges c = some ranges) : ∀ range ∈ ranges, 0x7F < range.low := by
  unfold followingRanges at h
  split_ifs at h <;> cases h <;> simp [ByteRange.tail]

theorem isUtf8_cons_ascii {c : UInt8} (h : c ≤ 0x7F) (s : Bytes) : isUtf8 (c :: s) = isUtf8 s := by
  simp only [isUtf8, isUtf8From, followingRanges, if_pos h]

theorem isUtf8_ascii {s : Bytes} (h : ∀ c ∈ s, c ≤ 0x7F) : isUtf8 s = true := by
  induction s with
  | nil => rfl
  | cons c s ih =>
    rw [isUtf8_cons_ascii (h c List.mem_cons_self)]
    exact ih fun c' hc' => h c' (List.mem_cons_of_mem c hc')

/-- ASCII text at the end of a string does not matter. -/
theorem isUtf8From_append_ascii {ranges : List ByteRange} (hranges : ∀ r ∈ ranges, 0x7F < r.low)
    (s : Bytes) {c : UInt8} {t : Bytes} (hc : c ≤ 0x7F) (ht : ∀ c ∈ t, c ≤ 0x7F) :
    isUtf8From ranges (s ++ c :: t) = isUtf8From ranges s := by
  induction s generalizing ranges with
  | nil =>
    cases ranges with
    | nil => exact isUtf8_ascii (s := c :: t) (List.forall_mem_cons.2 ⟨hc, ht⟩)
    | cons range ranges =>
      -- a character is not complete, and an ASCII byte does not complete it
      have hlow : ¬ range.low ≤ c := fun hle =>
        absurd (hranges range List.mem_cons_self) (UInt8.not_lt.2 (UInt8.le_trans hle hc))
      simp [isUtf8From, hlow]
  | cons d s ih =>
    cases ranges with
    | nil =>
      rw [List.cons_append, isUtf8From, isUtf8From]
      cases hd : followingRanges d with
      | none => rfl
      | some ranges => exact ih (low_of_followingRanges hd)
    | cons range ranges =>
      rw [List.cons_append, isUtf8From, isUtf8From,
        ih fun r hr => hranges r (List.mem_cons_of_mem range hr)]

theorem isUtf8_append_ascii (s : Bytes) {c : UInt8} {t : Bytes} (hc : c ≤ 0x7F)
    (ht : ∀ c ∈ t, c ≤ 0x7F) : isUtf8 (s ++ c :: t) = isUtf8 s :=
  isUtf8From_append_ascii (by simp) s hc ht

/-! ## Values -/

/-- A `double` other than an infinity or a NaN: no JSON text denotes these. -/
structure FiniteDouble where
  bits : UInt64
  finite : bits &&& 0x7FF0000000000000 ≠ 0x7FF0000000000000

/-- The integer part. -/
def FiniteDouble.trunc (d : FiniteDouble) : Int :=
  let exponent := ((d.bits >>> 52) &&& 0x7FF).toNat
  let significand := 2 ^ 52 + (d.bits &&& 0xFFFFFFFFFFFFF).toNat
  let magnitude :=
    if exponent < 1075 then significand >>> (1075 - exponent)
    else significand <<< (exponent - 1075)
  if d.bits >>> 63 = 1 then -magnitude else magnitude

/-- A JSON value. The members of an object stand in the order in which they are
iterated. -/
inductive Json where
  | null
  | bool (b : Bool)
  | int (n : Int)
  | float (d : FiniteDouble)
  | str (s : Bytes)
  | arr (items : List Json)
  | obj (members : List (Bytes × Json))

/-- `nlohmann::json` iterates the members of an object by their keys,
`nlohmann::ordered_json` in the order of their insertion. -/
inductive JsonKind where
  | sorted
  | ordered

/-- Insert or replace a member of a sorted object. -/
def setSorted (key : Bytes) (value : Json) : List (Bytes × Json) → List (Bytes × Json)
  | [] => [(key, value)]
  | (k, v) :: rest =>
    match compare key k with
    | .lt => (key, value) :: (k, v) :: rest
    | .eq => (key, value) :: rest
    | .gt => (k, v) :: setSorted key value rest

/-- Replace a member of an ordered object where it stands, or add it at the end. -/
def setOrdered (key : Bytes) (value : Json) : List (Bytes × Json) → List (Bytes × Json)
  | [] => [(key, value)]
  | (k, v) :: rest => if key = k then (key, value) :: rest else (k, v) :: setOrdered key value rest

/-- `operator[](key) = value` on the members of an object. -/
def JsonKind.set (kind : JsonKind) (members : List (Bytes × Json)) (key : Bytes) (value : Json) :
    List (Bytes × Json) :=
  match kind with
  | .sorted => setSorted key value members
  | .ordered => setOrdered key value members

/-- An object after the given assignments. -/
def JsonKind.members (kind : JsonKind) (assignments : List (Bytes × Json)) : List (Bytes × Json) :=
  assignments.foldl (fun members a => kind.set members a.1 a.2) []

/-- A value that starts as null and gets the given assignments. -/
def JsonKind.build (kind : JsonKind) (assignments : List (Bytes × Json)) : Json :=
  if assignments = [] then .null else .obj (kind.members assignments)

namespace Json

/-- A list of strings. -/
def strings (items : List Bytes) : Json := .arr (items.map .str)

/-- `type_name()`. -/
def typeName : Json → Bytes
  | null => bytes "null"
  | bool _ => bytes "boolean"
  | int _ => bytes "number"
  | float _ => bytes "number"
  | str _ => bytes "string"
  | arr _ => bytes "array"
  | obj _ => bytes "object"

/-! ## Accessors

An exception is modelled by its message. -/

/-- The member of an object. -/
def member? (v : Json) (key : Bytes) : Option Json :=
  match v with
  | obj members => (members.find? (·.1 = key)).map Prod.snd
  | _ => none

/-- `at(key)`. -/
def at? (v : Json) (key : Bytes) : Except Bytes Json :=
  match v with
  | obj _ =>
    match v.member? key with
    | some value => .ok value
    | none =>
      .error (bytes "[json.exception.out_of_range.403] key '" ++ key ++ bytes "' not found")
  | _ => .error (bytes "[json.exception.type_error.304] cannot use at() with " ++ v.typeName)

/-- `operator[](key)`, read: a member that is missing is null. -/
def index (v : Json) (key : Bytes) : Except Bytes Json :=
  match v with
  | obj _ => .ok ((v.member? key).getD .null)
  | null => .ok .null
  | _ =>
    .error (bytes "[json.exception.type_error.305] cannot use operator[] with a string argument with "
      ++ v.typeName)

/-- `get<std::string>()`. -/
def getString (v : Json) : Except Bytes Bytes :=
  match v with
  | str s => .ok s
  | _ =>
    .error (bytes "[json.exception.type_error.302] type must be string, but is " ++ v.typeName)

/-- `get<bool>()`. -/
def getBool (v : Json) : Except Bytes Bool :=
  match v with
  | bool b => .ok b
  | _ =>
    .error (bytes "[json.exception.type_error.302] type must be boolean, but is " ++ v.typeName)

/-- `get<std::vector<std::string>>()`. -/
def getStrings (v : Json) : Except Bytes (List Bytes) :=
  match v with
  | arr items => items.mapM getString
  | _ => .error (bytes "[json.exception.type_error.302] type must be array, but is " ++ v.typeName)

/-- `get<uint64_t>()`: any number is converted. -/
def getUInt64 (v : Json) : Except Bytes Nat :=
  match v with
  | int n => .ok (n % 2 ^ 64).toNat
  | float d => .ok (d.trunc % 2 ^ 64).toNat
  | _ =>
    .error (bytes "[json.exception.type_error.302] type must be number, but is " ++ v.typeName)

/-- `contains(key)`. -/
def contains (v : Json) (key : Bytes) : Bool := (v.member? key).isSome

/-- A member that is found can be accessed. -/
theorem at?_of_member? {v value : Json} {key : Bytes} (h : v.member? key = some value) :
    v.at? key = .ok value := by
  cases v with
  | obj members => rw [at?, h]
  | null => cases h
  | bool b => cases h
  | int n => cases h
  | float d => cases h
  | str s => cases h
  | arr items => cases h

theorem getUInt64_int {n : Nat} (h : n < 2 ^ 64) : (int n).getUInt64 = .ok n := by
  rw [getUInt64]
  congr 1
  omega

theorem getStrings_strings (items : List Bytes) : (strings items).getStrings = .ok items := by
  rw [strings, getStrings]
  induction items with
  | nil => rfl
  | cons item items ih =>
    rw [List.map_cons, List.mapM_cons, ih]
    rfl

end Json

/-! ## Members of a built object -/

namespace JsonKind

theorem member?_setSorted (members : List (Bytes × Json)) (key k : Bytes) (value : Json) :
    (Json.obj (setSorted key value members)).member? k =
      if key = k then some value else (Json.obj members).member? k := by
  induction members with
  | nil => by_cases h : key = k <;> simp [Json.member?, setSorted, h]
  | cons m rest ih =>
    obtain ⟨k', v'⟩ := m
    simp only [Json.member?] at ih
    rw [setSorted]
    cases hcompare : compare key k' with
    | lt => by_cases h : key = k <;> simp [Json.member?, h]
    | eq =>
      obtain rfl := Std.compare_eq_iff_eq.1 hcompare
      by_cases h : key = k <;> simp [Json.member?, h]
    | gt =>
      have hne : key ≠ k' := fun heq => by simp [heq] at hcompare
      by_cases h : k' = k
      · have hk : key ≠ k := fun heq => hne (heq.trans h.symm)
        simp [Json.member?, h, hk]
      · simpa [Json.member?, h] using ih

theorem member?_setOrdered (members : List (Bytes × Json)) (key k : Bytes) (value : Json) :
    (Json.obj (setOrdered key value members)).member? k =
      if key = k then some value else (Json.obj members).member? k := by
  induction members with
  | nil => by_cases h : key = k <;> simp [Json.member?, setOrdered, h]
  | cons m rest ih =>
    obtain ⟨k', v'⟩ := m
    simp only [Json.member?] at ih
    rw [setOrdered]
    by_cases hkey : key = k'
    · subst hkey
      by_cases h : key = k <;> simp [Json.member?, h]
    · rw [if_neg hkey]
      by_cases h : k' = k
      · have hk : key ≠ k := fun heq => hkey (heq.trans h.symm)
        simp [Json.member?, h, hk]
      · simpa [Json.member?, h] using ih

/-- What an assignment does to a lookup. -/
theorem member?_set (kind : JsonKind) (members : List (Bytes × Json)) (key k : Bytes)
    (value : Json) :
    (Json.obj (kind.set members key value)).member? k =
      if key = k then some value else (Json.obj members).member? k := by
  cases kind with
  | sorted => exact member?_setSorted members key k value
  | ordered => exact member?_setOrdered members key k value

theorem members_concat (kind : JsonKind) (assignments : List (Bytes × Json)) (a : Bytes × Json) :
    kind.members (assignments ++ [a]) = kind.set (kind.members assignments) a.1 a.2 := by
  rw [members, List.foldl_append]
  rfl

theorem member?_build (kind : JsonKind) (assignments : List (Bytes × Json)) (key : Bytes) :
    (kind.build assignments).member? key = (Json.obj (kind.members assignments)).member? key := by
  rw [build]
  split
  · rename_i h
    rw [h]
    rfl
  · rfl

/-- A member that is assigned one value has it. -/
theorem member?_build_of_mem (kind : JsonKind) {assignments : List (Bytes × Json)} {key : Bytes}
    {value : Json} (h : (key, value) ∈ assignments)
    (hunique : ∀ a ∈ assignments, a.1 = key → a.2 = value) :
    (kind.build assignments).member? key = some value := by
  rw [member?_build]
  induction assignments using List.reverseRecOn with
  | nil => cases h
  | append_singleton assignments a ih =>
    rw [members_concat, member?_set]
    by_cases ha : a.1 = key
    · rw [if_pos ha, hunique a (by simp) ha]
    · rw [if_neg ha]
      refine ih ?_ fun a' ha' => hunique a' (List.mem_append_left _ ha')
      rcases List.mem_append.1 h with h | h
      · exact h
      · exact absurd (congrArg Prod.fst (List.mem_singleton.1 h)).symm ha

/-- Where no member is assigned twice, each has the value it is assigned. -/
theorem member?_build_of_nodup (kind : JsonKind) {assignments : List (Bytes × Json)} {key : Bytes}
    {value : Json} (hnodup : (assignments.map Prod.fst).Nodup) (h : (key, value) ∈ assignments) :
    (kind.build assignments).member? key = some value :=
  kind.member?_build_of_mem h fun _ ha hkey =>
    congrArg Prod.snd (List.inj_on_of_nodup_map hnodup ha h hkey)

/-- A member that is not assigned is missing. -/
theorem member?_build_of_not_mem (kind : JsonKind) {assignments : List (Bytes × Json)}
    {key : Bytes} (h : key ∉ assignments.map Prod.fst) :
    (kind.build assignments).member? key = none := by
  rw [member?_build]
  induction assignments using List.reverseRecOn with
  | nil => rfl
  | append_singleton assignments a ih =>
    rw [List.map_append, List.mem_append, not_or] at h
    have ha : a.1 ≠ key := fun heq => h.2 (by simp [heq])
    rw [members_concat, member?_set, if_neg ha]
    exact ih h.1

end JsonKind

namespace Json

/-! ## Strings inside a value -/

mutual

/-- All strings of the value, keys included, are UTF-8. -/
def isUtf8 : Json → Bool
  | str s => Cxx.isUtf8 s
  | arr items => itemsUtf8 items
  | obj members => membersUtf8 members
  | _ => true

def itemsUtf8 : List Json → Bool
  | [] => true
  | v :: items => v.isUtf8 && itemsUtf8 items

def membersUtf8 : List (Bytes × Json) → Bool
  | [] => true
  | (key, v) :: members => Cxx.isUtf8 key && v.isUtf8 && membersUtf8 members

end

theorem itemsUtf8_eq_all (items : List Json) : itemsUtf8 items = items.all isUtf8 := by
  induction items with
  | nil => rfl
  | cons v items ih => rw [itemsUtf8, ih, List.all_cons]

theorem membersUtf8_eq_all (members : List (Bytes × Json)) :
    membersUtf8 members = members.all fun m => Cxx.isUtf8 m.1 && m.2.isUtf8 := by
  induction members with
  | nil => rfl
  | cons m members ih => rw [membersUtf8, ih, List.all_cons]

theorem isUtf8_strings (items : List Bytes) : (strings items).isUtf8 = items.all Cxx.isUtf8 := by
  rw [strings, isUtf8, itemsUtf8_eq_all, List.all_map]
  exact congrArg items.all (funext fun s => isUtf8.eq_1 s)

/-! ## Texts -/

mutual

/-- The value as a parser of the given kind builds it: the member that comes
last counts where a key is repeated. -/
def rebuild (kind : JsonKind) : Json → Json
  | arr items => arr (rebuildItems kind items)
  | obj members => obj (rebuildMembers kind [] members)
  | v => v

def rebuildItems (kind : JsonKind) : List Json → List Json
  | [] => []
  | v :: items => v.rebuild kind :: rebuildItems kind items

def rebuildMembers (kind : JsonKind) (built : List (Bytes × Json)) :
    List (Bytes × Json) → List (Bytes × Json)
  | [] => built
  | (key, v) :: members => rebuildMembers kind (kind.set built key (v.rebuild kind)) members

end

end Json

/-- A text as the library reads it: the text of a value, with the members of
its objects as they are written, or a text that `parse` rejects with a message. -/
inductive JsonText where
  | of (value : Json)
  | malformed (what : Bytes)

/-- The text of length 0. -/
def JsonText.empty : JsonText := .malformed
  (bytes "[json.exception.parse_error.101] parse error at line 1, column 1: syntax error while "
    ++ bytes "parsing value - unexpected end of input; expected '[', '\x7b', or a literal")

/-- `parse(text)`. -/
def JsonText.parse (kind : JsonKind) : JsonText → Except Bytes Json
  | of value => .ok (value.rebuild kind)
  | malformed what => .error what

/-- `dump()`, or nothing if it throws: a string of the value is not UTF-8. -/
def Json.dump (v : Json) : Option JsonText := if v.isUtf8 then some (.of v) else none

end Cxx
