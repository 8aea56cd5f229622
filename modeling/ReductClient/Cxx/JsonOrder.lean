-- SUMMARY: The order of the members of JSON objects: what the two kinds of objects make of it, at every depth of a value.
import ReductClient.Cxx.Json

namespace Cxx

/-! ## The members of one object -/

/-- The keys of the members, in their order. -/
def memberKeys (members : List (Bytes × Json)) : List Bytes := members.map Prod.fst

/-- The members stand as an object of the kind keeps them: by increasing keys, or
with different keys in any order. -/
def JsonKind.Arranged (kind : JsonKind) (members : List (Bytes × Json)) : Prop :=
  match kind with
  | .sorted => (memberKeys members).Pairwise fun a b => compare a b = .lt
  | .ordered => (memberKeys members).Nodup

/-- Increasing keys are different. -/
theorem JsonKind.Arranged.ordered {members : List (Bytes × Json)}
    (h : JsonKind.sorted.Arranged members) : JsonKind.ordered.Arranged members := by
  refine List.Pairwise.imp (fun {a b} hlt heq => ?_) h
  rw [heq, Std.compare_self] at hlt
  cases hlt

theorem mem_memberKeys {members : List (Bytes × Json)} {key : Bytes} :
    key ∈ memberKeys members ↔ (Json.obj members).member? key ≠ none := by
  simp [memberKeys, Json.member?]

theorem mem_memberKeys_set {kind : JsonKind} {members : List (Bytes × Json)} {key k : Bytes}
    {value : Json} :
    k ∈ memberKeys (kind.set members key value) ↔ k = key ∨ k ∈ memberKeys members := by
  rw [mem_memberKeys, JsonKind.member?_set, mem_memberKeys]
  by_cases h : key = k
  · simp [h]
  · simp [h, Ne.symm h]

theorem arranged_setSorted {members : List (Bytes × Json)} (key : Bytes) (value : Json)
    (h : JsonKind.sorted.Arranged members) :
    JsonKind.sorted.Arranged (setSorted key value members) := by
  induction members with
  | nil => exact List.pairwise_singleton _ _
  | cons m rest ih =>
    obtain ⟨k, v⟩ := m
    obtain ⟨hfirst, hrest⟩ := List.pairwise_cons.1 h
    rw [setSorted]
    cases hcompare : compare key k with
    | lt =>
      refine List.pairwise_cons.2 ⟨fun k' hk' => ?_, h⟩
      rcases List.mem_cons.1 hk' with rfl | hk'
      · exact hcompare
      · exact Std.TransCmp.lt_trans hcompare (hfirst k' hk')
    | eq =>
      obtain rfl := Std.compare_eq_iff_eq.1 hcompare
      exact List.pairwise_cons.2 ⟨hfirst, hrest⟩
    | gt =>
      refine List.pairwise_cons.2 ⟨fun k' hk' => ?_, ih hrest⟩
      rcases (@mem_memberKeys_set .sorted _ _ _ _).1 hk' with rfl | hk'
      · exact Std.OrientedCmp.lt_of_gt hcompare
      · exact hfirst k' hk'

theorem arranged_setOrdered {members : List (Bytes × Json)} (key : Bytes) (value : Json)
    (h : JsonKind.ordered.Arranged members) :
    JsonKind.ordered.Arranged (setOrdered key value members) := by
  induction members with
  | nil => exact List.nodup_singleton _
  | cons m rest ih =>
    obtain ⟨k, v⟩ := m
    obtain ⟨hfirst, hrest⟩ := List.nodup_cons.1 h
    rw [setOrdered]
    split
    · rename_i hkey
      subst hkey
      exact List.nodup_cons.2 ⟨hfirst, hrest⟩
    · rename_i hkey
      refine List.nodup_cons.2 ⟨fun hk => ?_, ih hrest⟩
      rcases (@mem_memberKeys_set .ordered _ _ _ _).1 hk with hk | hk
      · exact hkey hk.symm
      · exact hfirst hk

namespace JsonKind

/-- An assignment keeps the arrangement. -/
theorem arranged_set {kind : JsonKind} {members : List (Bytes × Json)} (key : Bytes)
    (value : Json) (h : kind.Arranged members) : kind.Arranged (kind.set members key value) := by
  cases kind with
  | sorted => exact arranged_setSorted key value h
  | ordered => exact arranged_setOrdered key value h

theorem arranged_nil (kind : JsonKind) : kind.Arranged [] := by
  cases kind <;> exact List.Pairwise.nil

/-- So an object that has been built is arranged. -/
theorem arranged_members (kind : JsonKind) (assignments : List (Bytes × Json)) :
    kind.Arranged (kind.members assignments) := by
  induction assignments using List.reverseRecOn with
  | nil => exact kind.arranged_nil
  | append_singleton assignments a ih =>
    rw [members_concat]
    exact arranged_set a.1 a.2 ih

theorem mem_of_mem_set {kind : JsonKind} {members : List (Bytes × Json)} {key : Bytes}
    {value : Json} {m : Bytes × Json} (h : m ∈ kind.set members key value) :
    m = (key, value) ∨ m ∈ members := by
  induction members with
  | nil => cases kind <;> exact .inl (List.mem_singleton.1 h)
  | cons first rest ih =>
    -- the first member stays, or the new one takes its place or stands before it
    have hcases : kind.set (first :: rest) key value = (key, value) :: first :: rest ∨
        kind.set (first :: rest) key value = (key, value) :: rest ∨
        kind.set (first :: rest) key value = first :: kind.set rest key value := by
      cases kind with
      | sorted =>
        rw [set, setSorted]
        cases compare key first.1 <;> simp [set]
      | ordered =>
        rw [set, setOrdered]
        split <;> simp [set]
    simp only [List.mem_cons]
    rcases hcases with heq | heq | heq <;> rw [heq, List.mem_cons] at h
    · exact h.imp_right List.mem_cons.1
    · exact h.imp_right .inr
    · rcases h with h | h
      · exact .inr (.inl h)
      · exact (ih h).imp_right .inr

/-- The members of an object are among those it has been given. -/
theorem mem_of_mem_members {kind : JsonKind} {assignments : List (Bytes × Json)}
    {m : Bytes × Json} (h : m ∈ kind.members assignments) : m ∈ assignments := by
  induction assignments using List.reverseRecOn with
  | nil => cases h
  | append_singleton assignments a ih =>
    rw [members_concat] at h
    rw [List.mem_append, List.mem_singleton]
    exact (mem_of_mem_set h).symm.imp_left ih

/-- A member that belongs behind the others is added there. -/
theorem set_of_arranged {kind : JsonKind} {members : List (Bytes × Json)} {a : Bytes × Json}
    (h : kind.Arranged (members ++ [a])) : kind.set members a.1 a.2 = members ++ [a] := by
  induction members with
  | nil => cases kind <;> rfl
  | cons m rest ih =>
    obtain ⟨k, v⟩ := m
    have hlast : a.1 ∈ memberKeys (rest ++ [a]) := by simp [memberKeys]
    cases kind with
    | sorted =>
      obtain ⟨hfirst, hrest⟩ := List.pairwise_cons.1 h
      have hgt : compare a.1 k = .gt := Std.OrientedCmp.gt_of_lt (hfirst a.1 hlast)
      rw [set, setSorted, hgt]
      exact congrArg _ (ih hrest)
    | ordered =>
      obtain ⟨hfirst, hrest⟩ := List.nodup_cons.1 h
      have hne : a.1 ≠ k := fun heq => hfirst (heq ▸ hlast)
      rw [set, setOrdered, if_neg hne]
      exact congrArg _ (ih hrest)

theorem arranged_of_append {kind : JsonKind} {members more : List (Bytes × Json)}
    (h : kind.Arranged (members ++ more)) : kind.Arranged members := by
  cases kind with
  | sorted => exact List.Pairwise.sublist ((List.sublist_append_left members more).map _) h
  | ordered => exact List.Pairwise.sublist ((List.sublist_append_left members more).map _) h

theorem members_of_arranged {kind : JsonKind} {members : List (Bytes × Json)}
    (h : kind.Arranged members) : kind.members members = members := by
  induction members using List.reverseRecOn with
  | nil => rfl
  | append_singleton members a ih =>
    rw [members_concat, ih (arranged_of_append h), set_of_arranged h]

end JsonKind

namespace Json

/-! ## Every object of a value -/

mutual

/-- The members of every object of the value are arranged. -/
def Arranged (kind : JsonKind) : Json → Prop
  | arr items => ItemsArranged kind items
  | obj members => kind.Arranged members ∧ MembersArranged kind members
  | _ => True

def ItemsArranged (kind : JsonKind) : List Json → Prop
  | [] => True
  | v :: items => v.Arranged kind ∧ ItemsArranged kind items

def MembersArranged (kind : JsonKind) : List (Bytes × Json) → Prop
  | [] => True
  | (_, v) :: members => v.Arranged kind ∧ MembersArranged kind members

end

theorem arranged_arr {kind : JsonKind} {items : List Json} :
    (arr items).Arranged kind ↔ ∀ v ∈ items, v.Arranged kind := by
  rw [Arranged]
  induction items with
  | nil => simp [ItemsArranged]
  | cons v items ih => rw [ItemsArranged, List.forall_mem_cons, ih]

theorem arranged_obj {kind : JsonKind} {members : List (Bytes × Json)} :
    (obj members).Arranged kind ↔ kind.Arranged members ∧ ∀ m ∈ members, m.2.Arranged kind := by
  rw [Arranged, and_congr_right_iff]
  intro h
  clear h
  induction members with
  | nil => simp [MembersArranged]
  | cons m members ih => rw [MembersArranged, List.forall_mem_cons, ih]

theorem rebuild_arr (kind : JsonKind) (items : List Json) :
    (arr items).rebuild kind = arr (items.map (rebuild kind)) := by
  rw [rebuild]
  induction items with
  | nil => rfl
  | cons v items ih => rw [rebuildItems, List.map_cons, arr.inj ih]

theorem rebuildMembers_eq (kind : JsonKind) (built members : List (Bytes × Json)) :
    rebuildMembers kind built members =
      (members.map fun m => (m.1, m.2.rebuild kind)).foldl (fun ms a => kind.set ms a.1 a.2)
        built := by
  induction members generalizing built with
  | nil => rfl
  | cons m members ih =>
    rw [rebuildMembers, ih]
    rfl

theorem rebuild_obj (kind : JsonKind) (members : List (Bytes × Json)) :
    (obj members).rebuild kind =
      obj (kind.members (members.map fun m => (m.1, m.2.rebuild kind))) := by
  rw [rebuild, rebuildMembers_eq]
  rfl

/-- Induction over a value. -/
theorem treeInduct {motive : Json → Prop} (null : motive null) (bool : ∀ b, motive (bool b))
    (int : ∀ n, motive (int n)) (float : ∀ d, motive (float d)) (str : ∀ s, motive (str s))
    (arr : ∀ items, (∀ v ∈ items, motive v) → motive (arr items))
    (obj : ∀ members, (∀ m ∈ members, motive m.2) → motive (obj members)) (v : Json) :
    motive v := by
  refine @Json.rec motive (fun items => ∀ v ∈ items, motive v)
    (fun members => ∀ m ∈ members, motive m.2) (fun m => motive m.2) null bool int float str arr
    obj ?_ ?_ ?_ ?_ ?_ v
  · exact nofun
  · exact fun v items hv hitems => List.forall_mem_cons.2 ⟨hv, hitems⟩
  · exact nofun
  · exact fun m members hm hmembers => List.forall_mem_cons.2 ⟨hm, hmembers⟩
  · exact fun key v hv => hv

/-- A value that has been parsed is arranged. -/
theorem arranged_rebuild (kind : JsonKind) (v : Json) : (v.rebuild kind).Arranged kind := by
  induction v using treeInduct with
  | null => trivial
  | bool b => trivial
  | int n => trivial
  | float d => trivial
  | str s => trivial
  | arr items ih =>
    rw [rebuild_arr, arranged_arr, List.forall_mem_map]
    exact ih
  | obj members ih =>
    rw [rebuild_obj, arranged_obj]
    refine ⟨kind.arranged_members _, fun m hm => ?_⟩
    obtain ⟨m', hm', rfl⟩ := List.mem_map.1 (JsonKind.mem_of_mem_members hm)
    exact ih m' hm'

/-- Parsing the text of an arranged value gives the value. -/
theorem rebuild_of_arranged {kind : JsonKind} {v : Json} (h : v.Arranged kind) :
    v.rebuild kind = v := by
  induction v using treeInduct with
  | null => rfl
  | bool b => rfl
  | int n => rfl
  | float d => rfl
  | str s => rfl
  | arr items ih =>
    rw [rebuild_arr, List.map_congr_left fun v hv => ih v hv (arranged_arr.1 h v hv), List.map_id']
  | obj members ih =>
    obtain ⟨hkeys, hvalues⟩ := arranged_obj.1 h
    have hsame : members.map (fun m => (m.1, m.2.rebuild kind)) = members := by
      refine (List.map_congr_left fun m hm => ?_).trans (List.map_id' members)
      exact congrArg (m.1, ·) (ih m hm (hvalues m hm))
    rw [rebuild_obj, hsame, JsonKind.members_of_arranged hkeys]

/-- Only such a value is kept. -/
theorem rebuild_eq_self {kind : JsonKind} {v : Json} : v.rebuild kind = v ↔ v.Arranged kind :=
  ⟨fun h => h ▸ arranged_rebuild kind v, rebuild_of_arranged⟩

theorem rebuild_rebuild (kind : JsonKind) (v : Json) :
    (v.rebuild kind).rebuild kind = v.rebuild kind :=
  rebuild_of_arranged (arranged_rebuild kind v)

/-- Parsing keeps the strings as they are. -/
theorem isUtf8_rebuild (kind : JsonKind) {v : Json} (h : v.isUtf8 = true) :
    (v.rebuild kind).isUtf8 = true := by
  induction v using treeInduct with
  | null => exact h
  | bool b => exact h
  | int n => exact h
  | float d => exact h
  | str s => exact h
  | arr items ih =>
    rw [isUtf8, itemsUtf8_eq_all, List.all_eq_true] at h
    rw [rebuild_arr, isUtf8, itemsUtf8_eq_all, List.all_map, List.all_eq_true]
    exact fun v hv => ih v hv (h v hv)
  | obj members ih =>
    rw [isUtf8, membersUtf8_eq_all, List.all_eq_true] at h
    rw [rebuild_obj, isUtf8, membersUtf8_eq_all, List.all_eq_true]
    intro m hm
    obtain ⟨m', hm', rfl⟩ := List.mem_map.1 (JsonKind.mem_of_mem_members hm)
    have hm'' := Bool.and_eq_true_iff.1 (h m' hm')
    exact Bool.and_eq_true_iff.2 ⟨hm''.1, ih m' hm' hm''.2⟩

/-- A value with increasing keys everywhere has no repeated key. -/
theorem Arranged.ordered {v : Json} (h : v.Arranged .sorted) : v.Arranged .ordered := by
  induction v using treeInduct with
  | null => trivial
  | bool b => trivial
  | int n => trivial
  | float d => trivial
  | str s => trivial
  | arr items ih => exact arranged_arr.2 fun v hv => ih v hv (arranged_arr.1 h v hv)
  | obj members ih =>
    obtain ⟨hkeys, hvalues⟩ := arranged_obj.1 h
    exact arranged_obj.2 ⟨hkeys.ordered, fun m hm => ih m hm (hvalues m hm)⟩

end Json

end Cxx
