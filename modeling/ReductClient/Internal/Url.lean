-- SUMMARY: The address of the server: how the constructor of `HttpClient` splits its URL, and that nothing of the URL is lost but a slash at its end.
import ReductClient.Internal.HttpClient

open Cxx

namespace Reduct

/-! ## Splitting -/

def slash : UInt8 := 0x2F

/-- `find(text)`: the position of the first occurrence. -/
def findText (text : Bytes) : Bytes → Option Nat
  | [] => if text = [] then some 0 else none
  | c :: s => if text.isPrefixOf (c :: s) then some 0 else (findText text s).map (· + 1)

/-- `url.find("://") + 3`, of type `size_t`. Without a scheme it is `npos + 3`. -/
def pathSearchStart (url : Bytes) : Nat :=
  match findText (bytes "://") url with
  | some i => i + 3
  | none => (2 ^ 64 - 1 + 3) % 2 ^ 64

/-- `base_url` and `path_prefix`: the URL up to its path, and the path. -/
def splitUrl (url : Bytes) : Bytes × Bytes :=
  let start := pathSearchStart url
  match splitFirst slash (url.drop start) with
  | some (host, path) => (url.take start ++ host, slash :: path)
  | none => (url, [])

/-- A path without the slash at its end. -/
def trimSlash (path : Bytes) : Bytes :=
  if path.getLast? = some slash then path.dropLast else path

def kApiPrefix : Bytes := bytes "/api/v1"

/-- Where an `HttpClient` sends its requests to. -/
structure HttpAddress where
  baseUrl : Bytes
  apiPrefix : Bytes
  deriving DecidableEq

namespace HttpAddress

/-- The constructor of `HttpClient`. -/
def ofUrl (url : Bytes) : HttpAddress :=
  ⟨(splitUrl url).1, trimSlash (splitUrl url).2 ++ kApiPrefix⟩

/-- `AddApiPrefix`. -/
def addApiPrefix (a : HttpAddress) (path : Bytes) : Bytes := a.apiPrefix ++ path

end HttpAddress

/-! ## A slash at the end -/

theorem getLast?_concat_slash (s : Bytes) : (s ++ [slash]).getLast? = some slash := by simp

theorem trimSlash_concat (s : Bytes) : trimSlash (s ++ [slash]) = s := by
  rw [trimSlash, if_pos (getLast?_concat_slash s), List.dropLast_concat]

theorem trimSlash_of_ne {s : Bytes} (h : s.getLast? ≠ some slash) : trimSlash s = s := if_neg h

/-- A slash at the end completes no `://`. -/
theorem findText_concat {s : Bytes} (h : s.getLast? ≠ some slash) :
    findText (bytes "://") (s ++ [slash]) = findText (bytes "://") s := by
  induction s with
  | nil => decide
  | cons c s ih =>
    have hprefix : (bytes "://").isPrefixOf (c :: (s ++ [slash])) =
        (bytes "://").isPrefixOf (c :: s) := by
      change List.isPrefixOf [0x3A, slash, slash] _ = List.isPrefixOf [0x3A, slash, slash] _
      rcases s with _ | ⟨d, _ | ⟨e, s⟩⟩
      · simp [List.isPrefixOf]
      · have hd : (slash == d) = false := by
          rw [beq_eq_false_iff_ne]
          rintro rfl
          exact h rfl
        simp [List.isPrefixOf, hd]
      · rfl
    have hs : s.getLast? ≠ some slash := by
      cases s with
      | nil => simp
      | cons d s => exact h
    rw [List.cons_append, findText, findText, hprefix, ih hs]

/-- Another slash is not found before it, unless one is there. -/
theorem splitFirst_concat (s : Bytes) :
    splitFirst slash (s ++ [slash]) =
      match splitFirst slash s with
      | some (host, path) => some (host, path ++ [slash])
      | none => some (s, []) := by
  cases h : splitFirst slash s with
  | none => exact splitFirst_append (splitFirst_eq_none.1 h) []
  | some r =>
    obtain ⟨rfl, hnot⟩ := splitFirst_eq_some.1 h
    rw [List.append_assoc]
    exact splitFirst_append hnot _

theorem findText_le {text s : Bytes} {i : Nat} (h : findText text s = some i) :
    i + text.length ≤ s.length := by
  induction s generalizing i with
  | nil =>
    rw [findText] at h
    split at h
    · rename_i htext
      cases h
      simp [htext]
    · cases h
  | cons c s ih =>
    rw [findText] at h
    split at h
    · rename_i hprefix
      cases h
      rw [Nat.zero_add]
      exact (List.isPrefixOf_iff_prefix.1 hprefix).length_le
    · obtain ⟨j, hj, rfl⟩ := Option.map_eq_some_iff.1 h
      have hle := ih hj
      rw [List.length_cons]
      omega

/-- The search for the path starts within the URL, unless this is a single character. -/
theorem pathSearchStart_le {url : Bytes} : pathSearchStart url ≤ url.length ↔ 2 ≤ url.length := by
  unfold pathSearchStart
  cases h : findText (bytes "://") url with
  | none => exact Iff.rfl
  | some i =>
    have hle : i + 3 ≤ url.length := findText_le h
    exact iff_of_true hle (by omega)

/-! ## What is kept of a URL -/

theorem splitUrl_of_some {url host path : Bytes}
    (h : splitFirst slash (url.drop (pathSearchStart url)) = some (host, path)) :
    splitUrl url = (url.take (pathSearchStart url) ++ host, slash :: path) := by
  rw [splitUrl, h]

theorem splitUrl_of_none {url : Bytes}
    (h : splitFirst slash (url.drop (pathSearchStart url)) = none) : splitUrl url = (url, []) := by
  rw [splitUrl, h]

/-- The URL is split where its path starts. -/
theorem splitUrl_spec (url : Bytes) :
    (splitUrl url).1 ++ (splitUrl url).2 = url ∧
      slash ∉ (splitUrl url).1.drop (pathSearchStart url) ∧
      ((splitUrl url).2 ≠ [] → (splitUrl url).2.head? = some slash) := by
  cases h : splitFirst slash (url.drop (pathSearchStart url)) with
  | none =>
    rw [splitUrl_of_none h]
    exact ⟨List.append_nil _, splitFirst_eq_none.1 h, fun hne => absurd rfl hne⟩
  | some r =>
    obtain ⟨hdrop, hnot⟩ := splitFirst_eq_some.1 h
    have hlength : (url.take (pathSearchStart url)).length = pathSearchStart url := by
      have hdropped := congrArg List.length hdrop
      rw [List.length_drop, List.length_append, List.length_cons] at hdropped
      rw [List.length_take]
      omega
    rw [splitUrl_of_some h]
    refine ⟨?_, ?_, fun _ => rfl⟩
    · rw [List.append_assoc, ← hdrop, List.take_append_drop]
    · rwa [List.drop_left' hlength]

/-- The path of a URL that does not end with a slash does not either. -/
theorem getLast?_path {url : Bytes} (h : url.getLast? ≠ some slash) :
    (splitUrl url).2.getLast? ≠ some slash := by
  obtain ⟨happend, -, -⟩ := splitUrl_spec url
  intro hlast
  rw [← happend, List.getLast?_append, hlast] at h
  exact h rfl

namespace HttpAddress

/-- A slash at the end of a URL does not matter, unless the URL is a single character. -/
theorem ofUrl_concat_slash {url : Bytes} (h : url.getLast? ≠ some slash) :
    ofUrl (url ++ [slash]) = ofUrl url ↔ 2 ≤ url.length := by
  have hstart : pathSearchStart (url ++ [slash]) = pathSearchStart url := by
    rw [pathSearchStart, findText_concat h, pathSearchStart]
  have hpath := getLast?_path h
  by_cases hlength : 2 ≤ url.length
  · have hle := pathSearchStart_le.2 hlength
    refine iff_of_true ?_ hlength
    have hdrop : (url ++ [slash]).drop (pathSearchStart (url ++ [slash])) =
        url.drop (pathSearchStart url) ++ [slash] := by
      rw [hstart, List.drop_append_of_le_length hle]
    have htake : (url ++ [slash]).take (pathSearchStart (url ++ [slash])) =
        url.take (pathSearchStart url) := by
      rw [hstart, List.take_append_of_le_length hle]
    have hsplit := splitFirst_concat (url.drop (pathSearchStart url))
    rw [← hdrop] at hsplit
    cases hfound : splitFirst slash (url.drop (pathSearchStart url)) with
    | none =>
      rw [hfound] at hsplit
      rw [ofUrl, ofUrl, splitUrl_of_some hsplit, splitUrl_of_none hfound, htake,
        List.take_append_drop]
      rfl
    | some r =>
      rw [hfound] at hsplit
      rw [splitUrl_of_some hfound] at hpath
      rw [ofUrl, ofUrl, splitUrl_of_some hsplit, splitUrl_of_some hfound, htake,
        ← List.cons_append, trimSlash_concat, trimSlash_of_ne hpath]
  · -- the search starts after the end, so both URLs are bases without a path
    have hafter : url.length < pathSearchStart url :=
      Nat.lt_of_not_le fun hle => hlength (pathSearchStart_le.1 hle)
    have hnone : splitFirst slash (url.drop (pathSearchStart url)) = none := by
      rw [List.drop_eq_nil_of_le (by omega)]
      rfl
    have hnone' : splitFirst slash ((url ++ [slash]).drop (pathSearchStart (url ++ [slash]))) =
        none := by
      rw [hstart, List.drop_eq_nil_of_le (by rw [List.length_append]; exact hafter)]
      rfl
    refine iff_of_false (fun heq => ?_) hlength
    have hbase := congrArg (List.length ∘ baseUrl) heq
    simp [ofUrl, splitUrl_of_none hnone, splitUrl_of_none hnone'] at hbase

/-- What an address keeps of its URL: the base is the URL up to the path, each request goes
below the path, and a slash at the end of a URL that has none there does not matter. Without
a scheme the first two characters belong to the base, whatever they are. -/
structure KeepsUrl (url : Bytes) : Prop where
  split : ∃ path, url = (ofUrl url).baseUrl ++ path ∧ (path ≠ [] → path.head? = some slash) ∧
    ∀ request, (ofUrl url).addApiPrefix request = trimSlash path ++ kApiPrefix ++ request
  base : ∀ i, findText (bytes "://") url = some i → slash ∉ (ofUrl url).baseUrl.drop (i + 3)
  baseWithoutScheme : findText (bytes "://") url = none → slash ∉ (ofUrl url).baseUrl.drop 2
  slashAtEnd : url.getLast? ≠ some slash →
    (ofUrl (url ++ [slash]) = ofUrl url ↔ 2 ≤ url.length)

theorem keepsUrl (url : Bytes) : KeepsUrl url := by
  obtain ⟨happend, hbase, hhead⟩ := splitUrl_spec url
  refine ⟨⟨(splitUrl url).2, happend.symm, hhead, fun _ => rfl⟩, fun i hscheme => ?_,
    fun hscheme => ?_, ofUrl_concat_slash⟩
  · rwa [pathSearchStart, hscheme] at hbase
  · rwa [pathSearchStart, hscheme] at hbase

example : ofUrl (bytes "https://host:8383/reduct/") =
    ⟨bytes "https://host:8383", bytes "/reduct/api/v1"⟩ := by decide

end HttpAddress

end Reduct
