-- SUMMARY: The two parsers of the API version, `CheckRequest` and `IsCompatible`: which header values they read alike.
import ReductClient.Internal.HttpSession

open Cxx Fallible

namespace Reduct

/-! ## `CheckRequest` with its warning

`checkApiVersion` leaves out the warning that the server is too old. To decide on
it the code adds 2 to the minor number, which is an `int`. -/

/-- `REDUCT_CPP_MINOR_VERSION`. -/
def minorVersion : Int := 21

/-- `minor + 2 < REDUCT_CPP_MINOR_VERSION`. An overflow of the sum is undefined. -/
def tooOld (minor : Int) : Except Fault Bool :=
  if minor + 2 < 2 ^ 31 then .ok (decide (minor + 2 < minorVersion))
  else .error .undefinedBehaviour

/-- `checkApiVersion` with the test for the warning, whose text goes to `std::cerr`. -/
def checkVersionHeader (value : Bytes) : Except Fault (Error × Option Bytes) :=
  match splitFirst dot value with
  | none => pure (⟨-1, bytes "Invalid API version"⟩, none)
  | some (majorText, minorText) => do
    let major ← stoi majorText
    let minor ← stoi minorText
    if major ≠ majorVersion then
      pure (⟨-1, bytes "Unsupported API version: " ++ decimalSigned major ++ dot ::
        decimalSigned minor⟩, none)
    else do
      let _warned ← tooOld minor
      pure (.kOk, some value)

/-- The header `x-reduct-api` of a response with status 200. -/
def HttpReply.version? : HttpReply → Option Bytes
  | .failed _ => none
  | .response status headers _ => if status.code = 200 then findHeader headers kHeaderApi else none

/-- `checkRequest` with the test for the warning. -/
def checkReply (version : Option Bytes) (reply : HttpReply) :
    Except Fault (Error × Option Bytes) :=
  match reply.version? with
  | none => checkRequest version reply
  | some value => do
    let (err, stored) ← checkVersionHeader value
    pure (err, stored.or version)

/-- The numbers of a version, as `CheckRequest` reads them. -/
def ReadsVersion (value : Bytes) (major minor : Int) : Prop :=
  ∃ majorText minorText, splitFirst dot value = some (majorText, minorText) ∧
    stoi majorText = .ok major ∧ stoi minorText = .ok minor

theorem ReadsVersion.unique {value : Bytes} {major minor major' minor' : Int}
    (h : ReadsVersion value major minor) (h' : ReadsVersion value major' minor') :
    major = major' ∧ minor = minor' := by
  obtain ⟨majorText, minorText, hsplit, hmajor, hminor⟩ := h
  obtain ⟨_, _, hsplit', hmajor', hminor'⟩ := h'
  cases hsplit.symm.trans hsplit'
  exact ⟨Except.ok.inj (hmajor.symm.trans hmajor'), Except.ok.inj (hminor.symm.trans hminor')⟩

/-- The sum overflows: the major number is that of the client, and the minor number is one
of the last two of an `int`. -/
def Overflows (value : Bytes) : Prop :=
  ∃ minor, ReadsVersion value majorVersion minor ∧ 2 ^ 31 ≤ minor + 2

/-- The test for the warning changes nothing else. -/
theorem checkVersionHeader_of_not_overflows {value : Bytes} (h : ¬ Overflows value) :
    checkVersionHeader value = checkApiVersion value := by
  rw [checkVersionHeader, checkApiVersion]
  cases hsplit : splitFirst dot value with
  | none => rfl
  | some parts =>
    obtain ⟨majorText, minorText⟩ := parts
    dsimp only
    cases hmajor : stoi majorText with
    | error fault => rfl
    | ok major =>
      cases hminor : stoi minorText with
      | error fault => rfl
      | ok minor =>
        simp only [ok_bind]
        by_cases heq : major = majorVersion
        · have hlt : minor + 2 < 2 ^ 31 := by
            by_contra hle
            exact h ⟨minor, ⟨majorText, minorText, hsplit, heq ▸ hmajor, hminor⟩, not_lt.1 hle⟩
          rw [if_neg (not_not_intro heq), if_neg (not_not_intro heq), tooOld, if_pos hlt]
          rfl
        · rw [if_pos heq, if_pos heq]

theorem checkVersionHeader_of_overflows {value : Bytes} (h : Overflows value) :
    checkVersionHeader value = .error .undefinedBehaviour := by
  obtain ⟨minor, ⟨majorText, minorText, hsplit, hmajor, hminor⟩, hle⟩ := h
  simp only [checkVersionHeader, hsplit, hmajor, hminor, ok_bind]
  rw [if_neg (not_not_intro rfl), tooOld, if_neg (not_lt.2 hle)]
  rfl

theorem checkApiVersion_of_no_dot {value : Bytes} (h : splitFirst dot value = none) :
    checkApiVersion value = .ok (⟨-1, bytes "Invalid API version"⟩, none) := by
  rw [checkApiVersion, h]
  rfl

/-- A version is accepted for its major number alone. -/
theorem checkApiVersion_of_reads {value : Bytes} {major minor : Int}
    (h : ReadsVersion value major minor) :
    checkApiVersion value =
      if major ≠ majorVersion then
        .ok (⟨-1, bytes "Unsupported API version: " ++ decimalSigned major ++ dot ::
          decimalSigned minor⟩, none)
      else .ok (.kOk, some value) := by
  obtain ⟨majorText, minorText, hsplit, hmajor, hminor⟩ := h
  simp only [checkApiVersion, hsplit, hmajor, hminor, ok_bind]
  split_ifs <;> rfl

/-- A value that has been looked at has no dot, or it is a version. -/
theorem checkVersionHeader_cases {value : Bytes} (h : Returns (checkVersionHeader value)) :
    splitFirst dot value = none ∨ ∃ major minor, ReadsVersion value major minor ∧
      (major = majorVersion → minor + 2 < 2 ^ 31) := by
  cases hsplit : splitFirst dot value with
  | none => exact .inl rfl
  | some parts =>
    obtain ⟨majorText, minorText⟩ := parts
    have hreturns := h
    simp only [checkVersionHeader, hsplit] at h
    obtain ⟨major, hmajor, h⟩ := returns_bind.1 h
    obtain ⟨minor, hminor, -⟩ := returns_bind.1 h
    have hreads : ReadsVersion value major minor := ⟨majorText, minorText, hsplit, hmajor, hminor⟩
    refine .inr ⟨major, minor, hreads, fun heq => ?_⟩
    by_contra hle
    obtain ⟨r, hr⟩ := hreturns
    rw [checkVersionHeader_of_overflows ⟨minor, heq ▸ hreads, not_lt.1 hle⟩] at hr
    cases hr

theorem checkRequest_of_version {reply : HttpReply} {value : Bytes}
    (h : reply.version? = some value) (version : Option Bytes) :
    checkRequest version reply = (do
      let (err, stored) ← checkApiVersion value
      pure (err, stored.or version)) := by
  cases reply with
  | failed message => cases h
  | response status headers body =>
    rw [HttpReply.version?] at h
    split at h
    · rename_i hok
      rw [checkRequest, if_neg (not_not_intro hok), h]
    · cases h

theorem checkReply_of_version {reply : HttpReply} {value : Bytes}
    (h : reply.version? = some value) (version : Option Bytes) :
    checkReply version reply = (do
      let (err, stored) ← checkVersionHeader value
      pure (err, stored.or version)) := by
  rw [checkReply, h]

/-- `CheckRequest` does what `checkRequest` does, unless the sum overflows. -/
theorem checkReply_of_not_overflows {reply : HttpReply} {value : Bytes}
    (h : reply.version? = some value) (hvalue : ¬ Overflows value) (version : Option Bytes) :
    checkReply version reply = checkRequest version reply := by
  rw [checkReply_of_version h, checkVersionHeader_of_not_overflows hvalue,
    checkRequest_of_version h]

/-- Without the header nothing is read. -/
theorem checkRequest_returns {reply : HttpReply} (h : reply.version? = none)
    (version : Option Bytes) : Returns (checkRequest version reply) := by
  cases reply with
  | failed message => exact returns_pure _
  | response status headers body =>
    rw [checkRequest]
    split
    · exact returns_pure _
    · rename_i hok
      rw [HttpReply.version?, if_pos (not_not.1 hok)] at h
      rw [h]
      exact returns_pure _

/-! ## `IsCompatible` on a version that has been stored -/

theorem stoi_range {s : Bytes} {n : Int} (h : stoi s = .ok n) : -2 ^ 31 ≤ n ∧ n < 2 ^ 31 :=
  stoSigned_range h

/-- The text of a number ends at a dot. -/
theorem stoi_append_dot (s rest : Bytes) : stoi (s ++ dot :: rest) = stoi s := by
  rw [stoi, stoi, stoSigned, stoSigned,
    readNumeral_append_cons s (by decide) (by decide) ⟨by decide, by decide⟩]

/-- The required version is a pair of `int`s. -/
theorem mapM_stoi_required {major minor : Int} (hmajor : -2 ^ 31 ≤ major ∧ major < 2 ^ 31)
    (hminor : -2 ^ 31 ≤ minor ∧ minor < 2 ^ 31) :
    (getlines dot (decimalSigned major ++ dot :: decimalSigned minor)).mapM stoi =
      .ok [major, minor] := by
  rw [getlines_cons (decimalSigned_no_dot _),
    getlines_singleton (decimalSigned_no_dot _) (decimalSigned_ne_nil _), mapM_eq_ok]
  have hfirst := stoi_decimalSigned hmajor.1 hmajor.2
  have hsecond := stoi_decimalSigned hminor.1 hminor.2
  exact .cons hfirst (.cons hsecond .nil)

/-- Only a version of two components is compatible with another. -/
theorem length_of_isCompatible {min version : Bytes} (h : isCompatible min version = .ok true) :
    (getlines dot version).length = 2 := by
  rw [isCompatible] at h
  split at h
  · cases h
  · obtain ⟨minVersion, -, h⟩ := bind_eq_ok.1 h
    obtain ⟨currentVersion, hcurrent, h⟩ := bind_eq_ok.1 h
    rw [(mapM_eq_ok.1 hcurrent).length_eq]
    split at h
    · rfl
    · cases h

/-- The minor number is the last component: what may follow it is a dot that ends
the text. -/
def EndsWithMinor (minorText : Bytes) : Prop :=
  ∀ component rest, splitFirst dot minorText = some (component, rest) → rest = []

/-- Then `IsCompatible` sees two components, with the same numbers. -/
theorem mapM_stoi_of_reads {majorText minorText : Bytes} {major minor : Int}
    (hdot : dot ∉ majorText) (hmajor : stoi majorText = .ok major)
    (hminor : stoi minorText = .ok minor) (hends : EndsWithMinor minorText) :
    (getlines dot (majorText ++ dot :: minorText)).mapM stoi = .ok [major, minor] := by
  suffices h : ∃ text, getlines dot minorText = [text] ∧ stoi text = .ok minor by
    obtain ⟨text, hfields, htext⟩ := h
    rw [getlines_cons hdot, hfields, mapM_eq_ok]
    exact .cons hmajor (.cons htext .nil)
  cases hsplit : splitFirst dot minorText with
  | none =>
    have hne : minorText ≠ [] := by
      rintro rfl
      cases hminor
    exact ⟨minorText, getlines_singleton (splitFirst_eq_none.1 hsplit) hne, hminor⟩
  | some parts =>
    obtain ⟨component, rest⟩ := parts
    obtain rfl := hends component rest hsplit
    obtain ⟨rfl, hcomponent⟩ := splitFirst_eq_some.1 hsplit
    rw [stoi_append_dot] at hminor
    exact ⟨component, getlines_cons hcomponent [], hminor⟩

/-- A further component makes a third field. -/
theorem length_getlines_of_component {majorText minorText component rest : Bytes}
    (hdot : dot ∉ majorText) (hsplit : splitFirst dot minorText = some (component, rest))
    (hrest : rest ≠ []) : 2 < (getlines dot (majorText ++ dot :: minorText)).length := by
  obtain ⟨rfl, hcomponent⟩ := splitFirst_eq_some.1 hsplit
  rw [getlines_cons hdot, getlines_cons hcomponent, List.length_cons, List.length_cons]
  have := List.length_pos_of_ne_nil (@getlines_ne_nil dot rest hrest)
  omega

/-- `IsCompatible("M.m", value)` is the comparison with the minor number of the value,
for each `int`. -/
def ComparesMinor (value : Bytes) (major minor : Int) : Prop :=
  ∀ m : Int, -2 ^ 31 ≤ m ∧ m < 2 ^ 31 →
    isCompatible (decimalSigned major ++ dot :: decimalSigned m) value = .ok (decide (m ≤ minor))

/-- It holds of the minor number itself, so the value has two components. -/
theorem ComparesMinor.length {value minorText : Bytes} {major minor : Int}
    (h : ComparesMinor value major minor) (hminor : stoi minorText = .ok minor) :
    (getlines dot value).length = 2 := by
  have htrue := h minor (stoi_range hminor)
  rw [decide_eq_true (le_refl minor)] at htrue
  exact length_of_isCompatible htrue

theorem comparesMinor_iff {majorText minorText : Bytes} {major minor : Int}
    (hdot : dot ∉ majorText) (hmajor : stoi majorText = .ok major)
    (hminor : stoi minorText = .ok minor) :
    ComparesMinor (majorText ++ dot :: minorText) major minor ↔ EndsWithMinor minorText := by
  constructor
  · intro h component rest hsplit
    by_contra hrest
    have hlength := h.length hminor
    have hfields := length_getlines_of_component hdot hsplit hrest
    omega
  · intro hends m hm
    have hne : majorText ++ dot :: minorText ≠ [] := by simp
    rw [isCompatible, if_neg hne, mapM_stoi_required (stoi_range hmajor) hm, ok_bind,
      mapM_stoi_of_reads hdot hmajor hminor hends, ok_bind]
    dsimp only
    rw [beq_self_eq_true, Bool.true_and]
    rfl

/-! ## The parsers together -/

/-- `CheckRequest` returns, with an error if the header is not a version. A version
that it accepts is stored, and `IsCompatible` reads it with the same numbers. -/
structure ParsersAgree (version : Option Bytes) (reply : HttpReply) : Prop where
  returns : Returns (checkReply version reply)
  rejects : ∀ value ∈ reply.version?, (∀ major minor, ¬ ReadsVersion value major minor) →
    ∀ err stored, checkReply version reply = .ok (err, stored) → err.isError = true
  agrees : ∀ value ∈ reply.version?,
    ∀ err stored, checkReply version reply = .ok (err, stored) → err.isError = false →
      stored = some value ∧
        ∃ major minor, ReadsVersion value major minor ∧ ComparesMinor value major minor

/-- A header without a dot, or with two numbers around its first dot. For the major
number of the client, adding 2 to the minor number does not overflow and no third
component follows it. -/
def TwoNumbers (value : Bytes) : Prop :=
  ∀ majorText minorText, splitFirst dot value = some (majorText, minorText) →
    ∃ major minor, stoi majorText = .ok major ∧ stoi minorText = .ok minor ∧
      (major = majorVersion → minor + 2 < 2 ^ 31 ∧ EndsWithMinor minorText)

theorem TwoNumbers.not_overflows {value : Bytes} (h : TwoNumbers value) : ¬ Overflows value := by
  rintro ⟨minor, ⟨majorText, minorText, hsplit, hmajorText, hminorText⟩, hle⟩
  obtain ⟨major, minor', hmajor, hminor, hends⟩ := h majorText minorText hsplit
  cases hmajor.symm.trans hmajorText
  cases hminor.symm.trans hminorText
  exact absurd (hends rfl).1 (not_lt.2 hle)

theorem twoNumbers_of_parsersAgree {version : Option Bytes} {reply : HttpReply} {value : Bytes}
    (hvalue : reply.version? = some value) (h : ParsersAgree version reply) :
    TwoNumbers value := by
  intro majorText minorText hsplit
  have hreturns := h.returns
  rw [checkReply_of_version hvalue, returns_bind_of_forall fun _ => returns_pure _] at hreturns
  rcases checkVersionHeader_cases hreturns with hnone | ⟨major, minor, hreads, hminor⟩
  · cases hsplit.symm.trans hnone
  have hsplits := hreads
  obtain ⟨_, _, hsplit', hmajorText, hminorText⟩ := hsplits
  cases hsplit.symm.trans hsplit'
  obtain ⟨rfl, hdot⟩ := splitFirst_eq_some.1 hsplit
  refine ⟨major, minor, hmajorText, hminorText, fun hmajor => ⟨hminor hmajor, ?_⟩⟩
  -- the version is accepted, so that `IsCompatible` compares with its minor number
  have hover : ¬ Overflows (majorText ++ dot :: minorText) := by
    rintro ⟨minor', hreads', hle⟩
    obtain ⟨-, rfl⟩ := hreads.unique hreads'
    exact absurd (hminor hmajor) (not_lt.2 hle)
  have hcheck := (checkReply_of_not_overflows hvalue hover version).trans
    (checkRequest_of_version hvalue version)
  rw [checkApiVersion_of_reads hreads, if_neg (not_not_intro hmajor)] at hcheck
  obtain ⟨-, major', minor', hreads', hcompares⟩ := h.agrees _ hvalue _ _ hcheck rfl
  obtain ⟨rfl, rfl⟩ := hreads.unique hreads'
  exact (comparesMinor_iff hdot hmajorText hminorText).1 hcompares

theorem parsersAgree_of_twoNumbers {version : Option Bytes} {reply : HttpReply} {value : Bytes}
    (hvalue : reply.version? = some value) (h : TwoNumbers value) :
    ParsersAgree version reply := by
  have hcheck := (checkReply_of_not_overflows hvalue h.not_overflows version).trans
    (checkRequest_of_version hvalue version)
  have honly : ∀ v ∈ reply.version?, v = value := fun v hv =>
    Option.some.inj (hv.symm.trans hvalue)
  cases hsplit : splitFirst dot value with
  | none =>
    rw [checkApiVersion_of_no_dot hsplit] at hcheck
    have herr : ∀ err stored, checkReply version reply = .ok (err, stored) →
        err.isError = true := by
      intro err stored hok
      cases hcheck.symm.trans hok
      rfl
    refine ⟨⟨_, hcheck⟩, fun _ _ _ => herr, fun _ _ err stored hok hno => ?_⟩
    exact absurd ((herr err stored hok).symm.trans hno) (by decide)
  | some parts =>
    obtain ⟨majorText, minorText⟩ := parts
    obtain ⟨major, minor, hmajorText, hminorText, hends⟩ := h majorText minorText hsplit
    have hreads : ReadsVersion value major minor :=
      ⟨majorText, minorText, hsplit, hmajorText, hminorText⟩
    have hversion : ∀ v ∈ reply.version?, ¬ ∀ major minor, ¬ ReadsVersion v major minor :=
      fun v hv hno => hno major minor (honly v hv ▸ hreads)
    rw [checkApiVersion_of_reads hreads] at hcheck
    by_cases hmajor : major = majorVersion
    · rw [if_neg (not_not_intro hmajor)] at hcheck
      refine ⟨⟨_, hcheck⟩, fun v hv hno => absurd hno (hversion v hv), ?_⟩
      intro v hv err stored hok _
      obtain rfl := honly v hv
      cases hcheck.symm.trans hok
      obtain ⟨rfl, hdot⟩ := splitFirst_eq_some.1 hsplit
      exact ⟨rfl, major, minor, hreads,
        (comparesMinor_iff hdot hmajorText hminorText).2 (hends hmajor).2⟩
    · rw [if_pos hmajor] at hcheck
      refine ⟨⟨_, hcheck⟩, fun v hv hno => absurd hno (hversion v hv), ?_⟩
      intro v hv err stored hok hno
      cases hcheck.symm.trans hok
      cases hno

/-- The parsers agree on a reply exactly if its header is of this form. -/
theorem parsersAgree_iff (version : Option Bytes) (reply : HttpReply) :
    ParsersAgree version reply ↔ ∀ value ∈ reply.version?, TwoNumbers value := by
  constructor
  · exact fun h value hvalue => twoNumbers_of_parsersAgree hvalue h
  · intro h
    cases hvalue : reply.version? with
    | some value => exact parsersAgree_of_twoNumbers hvalue (h value hvalue)
    | none =>
      refine ⟨?_, by simp [hvalue], by simp [hvalue]⟩
      rw [checkReply, hvalue]
      exact checkRequest_returns hvalue version

/-- The reply of a server that states the given version. -/
def versionReply (value : Bytes) : HttpReply := .response .ok [(kHeaderApi, value)] .empty

/-- A patch number makes a server incompatible with its own minor version, and a
header that is not a version ends the process. -/
theorem parsersAgree_broken :
    ¬ ParsersAgree none (versionReply (bytes "1.18.0")) ∧
      ¬ ParsersAgree none (versionReply (bytes "x.y")) := by
  constructor
  · intro h
    have hcheck : checkReply none (versionReply (bytes "1.18.0")) =
        .ok (.kOk, some (bytes "1.18.0")) := rfl
    obtain ⟨-, major, minor, ⟨_, _, -, -, hminor⟩, hcompares⟩ :=
      h.agrees (bytes "1.18.0") rfl _ _ hcheck rfl
    exact absurd (hcompares.length hminor) (by decide)
  · intro h
    obtain ⟨r, hr⟩ := h.returns
    cases hr

end Reduct
