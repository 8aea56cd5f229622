-- SUMMARY: The containers and the sort of the C++ standard library, with what their documentation leaves open kept open.
import Mathlib.Data.List.Dedup
import Mathlib.Data.List.Sort
import Std.Data.ExtTreeMap
import ReductClient.Cxx.Strings

namespace Cxx

/-! ## Ordered maps -/

/-- A `std::map`, compared by its contents. -/
abbrev OrderedMap (κ α : Type) [Ord κ] := Std.ExtTreeMap κ α compare

section OrderedMap

variable {κ α : Type} [Ord κ] [Std.TransOrd κ] [Std.LawfulEqOrd κ]

/-- The entries of a map that is built from pairs with distinct keys. -/
theorem toList_ofList_perm {l : List (κ × α)} (h : (l.map Prod.fst).Nodup) :
    (Std.ExtTreeMap.ofList l compare).toList.Perm l := by
  have hdistinct : l.Pairwise fun a b => ¬ compare a.1 b.1 = .eq :=
    (List.pairwise_map.1 h).imp fun hne heq => hne (Std.compare_eq_iff_eq.1 heq)
  have hentries : ∀ p ∈ l, p ∈ (Std.ExtTreeMap.ofList l compare).toList := fun p hp =>
    Std.ExtTreeMap.mem_toList_iff_getElem?_eq_some.2
      (Std.ExtTreeMap.getElem?_ofList_of_mem Std.compare_self hdistinct hp)
  have hsubperm : l.Subperm (Std.ExtTreeMap.ofList l compare).toList :=
    List.subperm_of_subset (List.Nodup.of_map _ h) hentries
  refine (hsubperm.perm_of_length_le ?_).symm
  rw [Std.ExtTreeMap.length_toList]
  exact Std.ExtTreeMap.size_ofList_le

/-- `emplace` each pair of a list in turn: an entry that is there already stays as
it is. -/
def OrderedMap.emplaceAll (m : OrderedMap κ α) (l : List (κ × α)) : OrderedMap κ α :=
  l.foldl (fun m p => m.insertIfNew p.1 p.2) m

theorem OrderedMap.mem_emplaceAll {m : OrderedMap κ α} {l : List (κ × α)} {k : κ} :
    k ∈ m.emplaceAll l ↔ k ∈ m ∨ k ∈ l.map Prod.fst := by
  induction l generalizing m with
  | nil => simp [emplaceAll]
  | cons p l ih =>
    have hstep : m.emplaceAll (p :: l) = OrderedMap.emplaceAll (m.insertIfNew p.1 p.2) l := rfl
    rw [hstep, ih, Std.ExtTreeMap.mem_insertIfNew, Std.compare_eq_iff_eq, List.map_cons,
      List.mem_cons, eq_comm (a := k), or_comm (a := p.1 = k), or_assoc]

/-- An entry that is there stays as it is. -/
theorem OrderedMap.getElem?_emplaceAll_of_some {m : OrderedMap κ α} {l : List (κ × α)} {k : κ} {v : α}
    (h : m[k]? = some v) : (m.emplaceAll l)[k]? = some v := by
  induction l generalizing m with
  | nil => exact h
  | cons p l ih =>
    refine ih ?_
    have hmem : k ∈ m := Std.ExtTreeMap.mem_iff_isSome_getElem?.2 (by rw [h]; rfl)
    rw [Std.ExtTreeMap.getElem?_insertIfNew, if_neg, h]
    rintro ⟨hk, hfresh⟩
    rw [Std.compare_eq_iff_eq.1 hk] at hfresh
    exact hfresh hmem

/-- Every entry was there or is one of those that were emplaced. -/
theorem OrderedMap.getElem?_emplaceAll_cases {m : OrderedMap κ α} {l : List (κ × α)} {k : κ} {v : α}
    (h : (m.emplaceAll l)[k]? = some v) : m[k]? = some v ∨ (k, v) ∈ l := by
  induction l generalizing m with
  | nil => exact .inl h
  | cons p l ih =>
    rcases ih h with hold | hmem
    · rw [Std.ExtTreeMap.getElem?_insertIfNew] at hold
      split_ifs at hold with hk
      · refine .inr ?_
        rw [← Std.compare_eq_iff_eq.1 hk.1, ← Option.some.inj hold]
        exact List.mem_cons_self
      · exact .inl hold
    · exact .inr (List.mem_cons_of_mem p hmem)

/-- Fresh and pairwise distinct keys are all inserted. -/
theorem OrderedMap.getElem?_emplaceAll {m : OrderedMap κ α} {l : List (κ × α)}
    (hl : (l.map Prod.fst).Nodup) (hfresh : ∀ k ∈ l.map Prod.fst, k ∉ m) {k : κ} {v : α} :
    (m.emplaceAll l)[k]? = some v ↔ m[k]? = some v ∨ (k, v) ∈ l := by
  induction l generalizing m with
  | nil => simp [emplaceAll]
  | cons p l ih =>
    obtain ⟨k', v'⟩ := p
    simp only [List.map_cons, List.nodup_cons, List.forall_mem_cons] at hl hfresh
    have hstep : m.emplaceAll ((k', v') :: l) = OrderedMap.emplaceAll (m.insertIfNew k' v') l := rfl
    have hfresh' : ∀ k ∈ l.map Prod.fst, k ∉ m.insertIfNew k' v' := by
      intro k hk hmem
      rw [Std.ExtTreeMap.mem_insertIfNew, Std.compare_eq_iff_eq] at hmem
      rcases hmem with rfl | hmem
      · exact hl.1 hk
      · exact hfresh.2 k hk hmem
    rw [hstep, ih hl.2 hfresh', Std.ExtTreeMap.getElem?_insertIfNew, List.mem_cons, Prod.mk.injEq]
    by_cases hk : k' = k
    · subst hk
      simp [hfresh.1, eq_comm (a := v)]
    · have hcmp : compare k' k ≠ .eq := mt Std.compare_eq_iff_eq.1 hk
      simp [hcmp, Ne.symm hk]

/-- One entry is left for each key. -/
theorem OrderedMap.size_emplaceAll [DecidableEq κ] (l : List (κ × α)) :
    ((∅ : OrderedMap κ α).emplaceAll l).size = (l.map Prod.fst).dedup.length := by
  have hnodup : ((∅ : OrderedMap κ α).emplaceAll l).keys.Nodup :=
    Std.ExtTreeMap.nodup_keys
  rw [← Std.ExtTreeMap.length_keys]
  refine List.Perm.length_eq ((List.perm_ext_iff_of_nodup hnodup (List.nodup_dedup _)).2 ?_)
  intro k
  rw [Std.ExtTreeMap.mem_keys, mem_emplaceAll, List.mem_dedup]
  simp

namespace OrderedMap

/-- The entries of a map are the sorted list of its bindings. -/
theorem toList_eq {m : OrderedMap κ α} {l : List (κ × α)}
    (hsorted : l.Pairwise fun a b => compare a.1 b.1 = .lt)
    (h : ∀ k v, (k, v) ∈ l ↔ m[k]? = some v) : m.toList = l := by
  have hirrefl : ∀ a b : κ × α, compare a.1 b.1 = .lt → a ≠ b := by
    rintro a _ hlt rfl
    simp at hlt
  have hnodup : ∀ {l : List (κ × α)}, l.Pairwise (fun a b => compare a.1 b.1 = .lt) → l.Nodup :=
    fun h => h.imp (hirrefl _ _)
  have hmap : m.toList.Pairwise fun a b => compare a.1 b.1 = .lt :=
    Std.ExtTreeMap.ordered_keys_toList
  have hperm : m.toList.Perm l := by
    rw [List.perm_ext_iff_of_nodup (hnodup hmap) (hnodup hsorted)]
    intro p
    rw [Std.ExtTreeMap.mem_toList_iff_getElem?_eq_some, ← h p.1 p.2]
  refine hperm.eq_of_pairwise ?_ hmap hsorted
  intro a b _ _ hab hba
  rw [Std.OrientedCmp.gt_of_lt hab] at hba
  cases hba

/-- Bindings that come after all entries are added at the end. -/
theorem toList_insert_last {m : OrderedMap κ α} {k : κ} {v : α}
    (h : ∀ p ∈ m.toList, compare p.1 k = .lt) : (m.insert k v).toList = m.toList ++ [(k, v)] := by
  have hfresh : m[k]? = none := by
    cases hk : m[k]? with
    | none => rfl
    | some v' =>
      have := h (k, v') (Std.ExtTreeMap.mem_toList_iff_getElem?_eq_some.2 hk)
      simp at this
  apply toList_eq
  · rw [List.pairwise_append]
    refine ⟨Std.ExtTreeMap.ordered_keys_toList, List.pairwise_singleton _ _, ?_⟩
    intro p hp q hq
    rw [List.mem_singleton.1 hq]
    exact h p hp
  · intro k' v'
    rw [List.mem_append, Std.ExtTreeMap.mem_toList_iff_getElem?_eq_some, List.mem_singleton,
      Std.ExtTreeMap.getElem?_insert, Prod.mk.injEq]
    by_cases hk : compare k k' = .eq
    · obtain rfl := Std.compare_eq_iff_eq.1 hk
      simp [hfresh, eq_comm (a := v)]
    · have hne : k' ≠ k := fun heq => hk (Std.compare_eq_iff_eq.2 heq.symm)
      simp [hk, hne]

/-- So is a sorted list of such bindings. -/
theorem toList_foldl_insert {m : OrderedMap κ α} {l : List (κ × α)}
    (hsorted : l.Pairwise fun a b => compare a.1 b.1 = .lt)
    (h : ∀ p ∈ m.toList, ∀ q ∈ l, compare p.1 q.1 = .lt) :
    (l.foldl (fun m p => m.insert p.1 p.2) m).toList = m.toList ++ l := by
  induction l generalizing m with
  | nil => simp
  | cons q l ih =>
    rw [List.pairwise_cons] at hsorted
    have hq := @toList_insert_last κ α _ _ _ m q.1 q.2 fun p hp => h p hp q List.mem_cons_self
    rw [List.foldl_cons, ih hsorted.2, hq, List.append_assoc]
    · rfl
    · intro p hp q' hq'
      rw [hq, List.mem_append, List.mem_singleton] at hp
      rcases hp with hp | rfl
      · exact h p hp q' (List.mem_cons_of_mem q hq')
      · exact hsorted.1 q' hq'

/-- The entries of a map make up the map, in whatever order they are inserted. -/
theorem foldl_insert_perm {m : OrderedMap κ α} {l : List (κ × α)} (h : l.Perm m.toList) :
    l.foldl (fun m p => m.insert p.1 p.2) ∅ = m := by
  have hnodup : (l.map Prod.fst).Nodup := by
    rw [(h.map Prod.fst).nodup_iff, Std.ExtTreeMap.map_fst_toList_eq_keys]
    exact Std.ExtTreeMap.nodup_keys
  rw [← Std.ExtTreeMap.ofList_eq_foldl]
  exact Std.ExtTreeMap.ext_toList ((toList_ofList_perm hnodup).trans h)

/-- Inserting the entries of a map puts it on top. -/
theorem insertMany_toList [DecidableEq κ] (m m' : OrderedMap κ α) :
    m.insertMany m'.toList = m ∪ m' := by
  apply Std.ExtTreeMap.ext_getElem?
  intro k
  rw [Std.ExtTreeMap.getElem?_union]
  cases hk : m'[k]? with
  | some v =>
    have hmem : (k, v) ∈ m'.toList := Std.ExtTreeMap.mem_toList_iff_getElem?_eq_some.2 hk
    rw [Std.ExtTreeMap.getElem?_insertMany_list_of_mem Std.ReflCmp.compare_self
      Std.ExtTreeMap.distinct_keys_toList hmem]
    rfl
  | none =>
    rw [Std.ExtTreeMap.getElem?_insertMany_list_of_contains_eq_false]
    · rfl
    · simp only [← Bool.not_eq_true, List.contains_iff_mem, List.mem_map, not_exists, not_and]
      rintro p hp rfl
      have hsome := Std.ExtTreeMap.mem_toList_iff_getElem?_eq_some.1 hp
      rw [hk] at hsome
      cases hsome

/-! ### Modifying entries in place -/

/-- Modify the entries with the given keys. -/
def modifyAll {β : Type} (f : β → α → α) (m : OrderedMap κ α) (l : List (κ × β)) :
    OrderedMap κ α :=
  l.foldl (fun m p => m.modify p.1 (f p.2)) m

theorem getElem?_modifyAll_of_not_mem {β : Type} (f : β → α → α) {m : OrderedMap κ α}
    {l : List (κ × β)} {k : κ} (h : k ∉ l.map Prod.fst) : (m.modifyAll f l)[k]? = m[k]? := by
  induction l generalizing m with
  | nil => rfl
  | cons p l ih =>
    rw [List.map_cons, List.mem_cons, not_or] at h
    have hstep : m.modifyAll f (p :: l) = modifyAll f (m.modify p.1 (f p.2)) l := rfl
    have hne : compare p.1 k ≠ .eq := fun heq => h.1 (Std.compare_eq_iff_eq.1 heq).symm
    rw [hstep, ih h.2, Std.ExtTreeMap.getElem?_modify, if_neg hne]

theorem getElem?_modifyAll {β : Type} (f : β → α → α) {m : OrderedMap κ α} {l : List (κ × β)}
    (hl : (l.map Prod.fst).Nodup) {k : κ} {b : β} (h : (k, b) ∈ l) :
    (m.modifyAll f l)[k]? = m[k]?.map (f b) := by
  induction l generalizing m with
  | nil => cases h
  | cons p l ih =>
    rw [List.map_cons, List.nodup_cons] at hl
    have hstep : m.modifyAll f (p :: l) = modifyAll f (m.modify p.1 (f p.2)) l := rfl
    rw [hstep]
    rcases List.mem_cons.1 h with rfl | hmem
    · rw [getElem?_modifyAll_of_not_mem f hl.1, Std.ExtTreeMap.getElem?_modify_self]
    · have hne : compare p.1 k ≠ .eq := fun heq =>
        hl.1 (List.mem_map.2 ⟨_, hmem, (Std.compare_eq_iff_eq.1 heq).symm⟩)
      rw [ih hl.2 hmem, Std.ExtTreeMap.getElem?_modify, if_neg hne]

/-- Where selected entries are modified, each stays at its place. -/
theorem toList_modifyAll {β : Type} (f : β → α → α) (g : κ × α → β) (selected : κ × α → Bool)
    (m : OrderedMap κ α) :
    (m.modifyAll f ((m.toList.filter selected).map fun p => (p.1, g p))).toList =
      m.toList.map fun p => (p.1, if selected p then f (g p) p.2 else p.2) := by
  have hfst : ((m.toList.filter selected).map fun p => (p.1, g p)).map Prod.fst =
      (m.toList.filter selected).map Prod.fst := List.map_map
  have hkeys : (m.toList.map Prod.fst).Nodup := by
    rw [Std.ExtTreeMap.map_fst_toList_eq_keys]
    exact Std.ExtTreeMap.nodup_keys
  have hnodup : (((m.toList.filter selected).map fun p => (p.1, g p)).map Prod.fst).Nodup := by
    rw [hfst]
    exact hkeys.sublist (List.filter_sublist.map Prod.fst)
  have hentry : ∀ p ∈ m.toList,
      (m.modifyAll f ((m.toList.filter selected).map fun p => (p.1, g p)))[p.1]? =
        some (if selected p then f (g p) p.2 else p.2) := by
    intro p hp
    have hv : m[p.1]? = some p.2 := Std.ExtTreeMap.mem_toList_iff_getElem?_eq_some.1 hp
    cases hs : selected p with
    | true =>
      rw [getElem?_modifyAll f hnodup (List.mem_map.2 ⟨p, List.mem_filter.2 ⟨hp, hs⟩, rfl⟩), hv]
      rfl
    | false =>
      rw [getElem?_modifyAll_of_not_mem, hv]
      · rfl
      · rw [hfst, List.mem_map]
        rintro ⟨q, hq, hqp⟩
        have heq := List.inj_on_of_nodup_map hkeys (List.mem_filter.1 hq).1 hp hqp
        rw [heq, List.mem_filter, hs] at hq
        cases hq.2
  apply toList_eq
  · rw [List.pairwise_map]
    exact Std.ExtTreeMap.ordered_keys_toList
  · intro k v
    rw [List.mem_map]
    constructor
    · rintro ⟨p, hp, hpv⟩
      cases hpv
      exact hentry p hp
    · intro hv
      cases hk : m[k]? with
      | none =>
        rw [getElem?_modifyAll_of_not_mem, hk] at hv
        · cases hv
        · rw [hfst, List.mem_map]
          rintro ⟨q, hq, rfl⟩
          have hsome := Std.ExtTreeMap.mem_toList_iff_getElem?_eq_some.1 (List.mem_filter.1 hq).1
          rw [hk] at hsome
          cases hsome
      | some v' =>
        have hp := Std.ExtTreeMap.mem_toList_iff_getElem?_eq_some.2 hk
        have hv' := (hentry _ hp).symm.trans hv
        exact ⟨(k, v'), hp, congrArg (Prod.mk k) (Option.some.inj hv')⟩

end OrderedMap

end OrderedMap

/-! ## Unordered maps -/

/-- A `std::unordered_map`. The list gives the entries in iteration order, which
the standard does not determine. -/
structure UnorderedMap (κ α : Type) where
  toList : List (κ × α)
  nodup : (toList.map Prod.fst).Nodup

namespace UnorderedMap

variable {κ α : Type}

/-- The map without entries. -/
def empty : UnorderedMap κ α := ⟨[], by simp⟩

/-- The same entries, iterated in any order. -/
def Same (m m' : UnorderedMap κ α) : Prop := m.toList.Perm m'.toList

variable [DecidableEq κ]

/-- `find(k)`. -/
def find? (m : UnorderedMap κ α) (k : κ) : Option α :=
  (m.toList.find? (·.1 = k)).map Prod.snd

/-- `contains(k)`. -/
def contains (m : UnorderedMap κ α) (k : κ) : Bool := decide (k ∈ m.toList.map Prod.fst)

/-- `emplace(k, v)`: an entry that is there already stays as it is. -/
def emplace (m : UnorderedMap κ α) (k : κ) (v : α) : UnorderedMap κ α :=
  if h : k ∈ m.toList.map Prod.fst then m
  else ⟨m.toList ++ [(k, v)], by
    rw [List.map_append, List.nodup_append]
    refine ⟨m.nodup, by simp, ?_⟩
    rintro a ha b hb rfl
    exact h (by simpa [show a = k by simpa using hb] using ha)⟩

/-- `m[k] = v`. -/
def assign (m : UnorderedMap κ α) (k : κ) (v : α) : UnorderedMap κ α :=
  if k ∈ m.toList.map Prod.fst then
    ⟨m.toList.map fun p => if p.1 = k then (k, v) else p, by
      have hkeys : (m.toList.map fun p => if p.1 = k then (k, v) else p).map Prod.fst =
          m.toList.map Prod.fst := by
        rw [List.map_map]
        refine List.map_congr_left fun p _ => ?_
        dsimp only [Function.comp_apply]
        split_ifs with h
        · exact h.symm
        · rfl
      rw [hkeys]
      exact m.nodup⟩
  else m.emplace k v

theorem find?_eq_some {m : UnorderedMap κ α} {k : κ} {v : α} :
    m.find? k = some v ↔ (k, v) ∈ m.toList := by
  obtain ⟨l, hl⟩ := m
  simp only [find?]
  induction l with
  | nil => simp
  | cons p l ih =>
    obtain ⟨k', v'⟩ := p
    simp only [List.map_cons, List.nodup_cons, List.mem_map, Prod.exists, exists_and_right,
      exists_eq_right, not_exists] at hl
    by_cases h : k' = k
    · subst h
      simp only [List.find?_cons_of_pos, decide_true, Option.map_some, Option.some.injEq,
        List.mem_cons, Prod.mk.injEq, true_and]
      constructor
      · exact fun h => .inl h.symm
      · rintro (h | h)
        · exact h.symm
        · exact absurd h (hl.1 v)
    · simpa [h, Ne.symm h] using ih hl.2

theorem find?_eq_none {m : UnorderedMap κ α} {k : κ} :
    m.find? k = none ↔ k ∉ m.toList.map Prod.fst := by
  simp only [find?, Option.map_eq_none_iff, List.find?_eq_none, decide_eq_true_eq, Prod.forall,
    List.mem_map, Prod.exists, exists_and_right, exists_eq_right, not_exists]
  exact ⟨fun h v hv => h k v hv rfl, fun h a b hab hak => h b (hak ▸ hab)⟩

/-- The iteration order does not matter to `find`. -/
theorem Same.find? {m m' : UnorderedMap κ α} (h : m.Same m') (k : κ) :
    m.find? k = m'.find? k := by
  ext v
  rw [find?_eq_some, find?_eq_some, h.mem_iff]

theorem emplace_of_mem {m : UnorderedMap κ α} {k : κ} (v : α)
    (h : k ∈ m.toList.map Prod.fst) : m.emplace k v = m := by
  simp only [emplace, dif_pos h]

theorem toList_emplace_of_not_mem {m : UnorderedMap κ α} {k : κ} (v : α)
    (h : k ∉ m.toList.map Prod.fst) : (m.emplace k v).toList = m.toList ++ [(k, v)] := by
  simp only [emplace, dif_neg h]

/-- What `find` gives after a new key has been inserted. -/
theorem find?_emplace_of_not_mem {m : UnorderedMap κ α} {k k' : κ} {v v' : α}
    (h : k ∉ m.toList.map Prod.fst) :
    (m.emplace k v).find? k' = some v' ↔ m.find? k' = some v' ∨ k' = k ∧ v' = v := by
  rw [find?_eq_some, find?_eq_some, toList_emplace_of_not_mem v h, List.mem_append,
    List.mem_singleton, Prod.mk.injEq]

/-- The keys after an `emplace`. -/
theorem mem_keys_emplace {m : UnorderedMap κ α} {k k' : κ} {v : α} :
    k' ∈ (m.emplace k v).toList.map Prod.fst ↔ k' = k ∨ k' ∈ m.toList.map Prod.fst := by
  by_cases h : k ∈ m.toList.map Prod.fst
  · rw [emplace_of_mem v h]
    exact ⟨.inr, fun h' => h'.elim (fun e => e ▸ h) id⟩
  · rw [toList_emplace_of_not_mem v h]
    simp [or_comm]

/-- What `find` gives after an assignment. -/
theorem find?_assign (m : UnorderedMap κ α) (k k' : κ) (v : α) :
    (m.assign k v).find? k' = if k = k' then some v else m.find? k' := by
  ext w
  by_cases hk : k ∈ m.toList.map Prod.fst
  · rw [find?_eq_some, assign, if_pos hk, List.mem_map]
    obtain ⟨old, hold, rfl⟩ := List.mem_map.1 hk
    by_cases hkey : old.1 = k'
    · subst hkey
      rw [if_pos rfl, Option.some.injEq]
      constructor
      · rintro ⟨p, -, hp⟩
        split_ifs at hp with hpk
        · exact congrArg Prod.snd hp
        · exact absurd (congrArg Prod.fst hp) hpk
      · rintro rfl
        exact ⟨old, hold, if_pos rfl⟩
    · rw [if_neg hkey, find?_eq_some]
      constructor
      · rintro ⟨p, hp, heq⟩
        split_ifs at heq with hpk
        · exact absurd (congrArg Prod.fst heq) hkey
        · exact heq ▸ hp
      · intro hmem
        exact ⟨(k', w), hmem, if_neg (Ne.symm hkey)⟩
  · rw [assign, if_neg hk, find?_emplace_of_not_mem hk]
    by_cases hkey : k = k'
    · subst hkey
      simp [find?_eq_none.2 hk, eq_comm (a := v)]
    · simp [hkey, Ne.symm hkey]

/-! ### A run of `emplace` calls -/

/-- `emplace` each pair of a list in turn. -/
def emplaceAll (m : UnorderedMap κ α) (l : List (κ × α)) : UnorderedMap κ α :=
  l.foldl (fun m p => m.emplace p.1 p.2) m

@[simp] theorem emplaceAll_nil (m : UnorderedMap κ α) : m.emplaceAll [] = m := rfl

@[simp] theorem emplaceAll_cons (m : UnorderedMap κ α) (p : κ × α) (l : List (κ × α)) :
    m.emplaceAll (p :: l) = (m.emplace p.1 p.2).emplaceAll l := rfl

/-- Fresh and pairwise distinct keys are all inserted. -/
theorem toList_emplaceAll {m : UnorderedMap κ α} {l : List (κ × α)}
    (hl : (l.map Prod.fst).Nodup) (hfresh : ∀ p ∈ l, p.1 ∉ m.toList.map Prod.fst) :
    (m.emplaceAll l).toList = m.toList ++ l := by
  induction l generalizing m with
  | nil => simp
  | cons p l ih =>
    simp only [List.map_cons, List.nodup_cons] at hl
    have hp := hfresh p (by simp)
    rw [emplaceAll_cons, ih hl.2, toList_emplace_of_not_mem _ hp]
    · simp
    · intro q hq hmem
      rcases mem_keys_emplace.1 hmem with h | h
      · exact hl.1 (h ▸ List.mem_map_of_mem hq)
      · exact hfresh q (by simp [hq]) h

/-- The keys of the map are the old ones and those of the pairs. -/
theorem mem_keys_emplaceAll {m : UnorderedMap κ α} {l : List (κ × α)} {k : κ} :
    k ∈ (m.emplaceAll l).toList.map Prod.fst ↔
      k ∈ m.toList.map Prod.fst ∨ k ∈ l.map Prod.fst := by
  induction l generalizing m with
  | nil => simp
  | cons p l ih =>
    rw [emplaceAll_cons, ih, mem_keys_emplace, List.map_cons, List.mem_cons]
    tauto

/-- An entry that is there stays as it is. -/
theorem find?_emplaceAll {m : UnorderedMap κ α} {k : κ} {v : α} (h : m.find? k = some v)
    (l : List (κ × α)) : (m.emplaceAll l).find? k = some v := by
  induction l generalizing m with
  | nil => exact h
  | cons p l ih =>
    rw [emplaceAll_cons]
    refine ih ?_
    by_cases hp : p.1 ∈ m.toList.map Prod.fst
    · rwa [emplace_of_mem p.2 hp]
    · exact (find?_emplace_of_not_mem hp).2 (.inl h)

/-- Where the map starts empty, its keys are those of the pairs, each once. -/
theorem keys_emplaceAll_perm (l : List (κ × α)) :
    ((empty.emplaceAll l).toList.map Prod.fst).Perm (l.map Prod.fst).dedup := by
  rw [List.perm_ext_iff_of_nodup (empty.emplaceAll l).nodup (List.nodup_dedup _)]
  intro k
  rw [mem_keys_emplaceAll, List.mem_dedup]
  simp [empty]

end UnorderedMap

/-! ## Sorting -/

/-- The comparison is a strict weak order, as `std::sort` requires. `lt b a` is
false exactly if `a` may stand before `b`. -/
structure StrictWeakOrder {α : Type} (lt : α → α → Bool) : Prop where
  total : ∀ a b, lt a b = false ∨ lt b a = false
  trans : ∀ a b c, lt b a = false → lt c b = false → lt c a = false

/-- The strict part of a three-way comparison is a strict weak order. -/
theorem StrictWeakOrder.of_cmp {α : Type} {lt : α → α → Bool} (cmp : α → α → Ordering)
    [Std.TransCmp cmp] (h : ∀ a b, lt a b = (cmp a b == .lt)) : StrictWeakOrder lt where
  total a b := by
    rw [h a b, h b a, @Std.OrientedCmp.eq_swap _ cmp _ b]
    cases cmp a b <;> simp
  trans a b c hba hcb := by
    have hab : (cmp a b).isLE := by
      rw [h, @Std.OrientedCmp.eq_swap _ cmp] at hba
      cases hcmp : cmp a b <;> simp_all
    have hbc : (cmp b c).isLE := by
      rw [h, @Std.OrientedCmp.eq_swap _ cmp] at hcb
      cases hcmp : cmp b c <;> simp_all
    have hac := Std.TransCmp.isLE_trans hab hbc
    rw [h, @Std.OrientedCmp.eq_swap _ cmp]
    cases hcmp : cmp a c <;> simp_all

/-- `std::sort`: some sorted permutation of the input. The standard leaves open
in which order equivalent elements come out. -/
class StdSort where
  sort : {α : Type} → (α → α → Bool) → List α → List α
  perm : ∀ {α : Type} (lt : α → α → Bool) (l : List α), (sort lt l).Perm l
  sorted : ∀ {α : Type} (lt : α → α → Bool) (l : List α), StrictWeakOrder lt →
    (sort lt l).Pairwise fun a b => lt b a = false

/-- Insertion sort is an admissible `std::sort`. -/
@[reducible] def StdSort.insertion : StdSort where
  sort lt l := l.insertionSort fun a b => lt b a = false
  perm _ _ := List.perm_insertionSort _ _
  sorted lt l h := by
    have htotal : Std.Total (α := _) fun a b => lt b a = false := ⟨fun a b => h.total b a⟩
    have htrans : IsTrans _ fun a b => lt b a = false := ⟨fun a b c => h.trans a b c⟩
    exact List.pairwise_insertionSort _ l

/-- Whatever `std::sort` is used, a list that has a strictly sorted permutation
comes out as that permutation. -/
theorem sort_eq [StdSort] {α : Type} {lt : α → α → Bool} (hlt : StrictWeakOrder lt)
    {l l' : List α} (hperm : l.Perm l') (hsorted : l'.Pairwise fun a b => lt a b = true) :
    StdSort.sort lt l = l' := by
  have hstrict : ∀ a b, lt a b = true → lt b a = false := fun a b h =>
    (hlt.total a b).resolve_left (by simp [h])
  have hl' : l'.Pairwise fun a b => lt b a = false := hsorted.imp fun h => hstrict _ _ h
  refine List.Perm.eq_of_pairwise ?_ (StdSort.sorted lt l hlt) hl'
    ((StdSort.perm lt l).trans hperm)
  intro a b ha hb hab hba
  -- two elements of a strictly sorted list that are equivalent are the same one
  have ha' : a ∈ l' := hperm.mem_iff.1 ((StdSort.perm lt l).mem_iff.1 ha)
  obtain ⟨i, hi, rfl⟩ := List.getElem_of_mem ha'
  obtain ⟨j, hj, rfl⟩ := List.getElem_of_mem hb
  rcases Nat.lt_trichotomy i j with h | h | h
  · have := List.pairwise_iff_getElem.1 hsorted i j hi hj h
    simp [this] at hba
  · simp [h]
  · have := List.pairwise_iff_getElem.1 hsorted j i hj hi h
    simp [this] at hab

end Cxx
