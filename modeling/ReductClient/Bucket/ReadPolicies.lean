-- SUMMARY: What the callback did with the records before decides what a record receives: the exact condition on the policy under which it is the record's own segment.
import ReductClient.Bucket.BatchResponse

open Cxx Transition

namespace Reduct

/-! ## Policies that read a record to its end -/

/-- The callback has read a record of `pieces` pieces to its end. A read
callback that refuses only at the last piece has. -/
def ReadPolicy.Completes (pieces : Nat) : ReadPolicy → Prop
  | .skip => False
  | .refuseAt n => pieces ≤ n + 1
  | .full => True

variable {policy : Nat → ReadPolicy} {size : Nat} {sizes : List Nat} {source : List Bytes}

theorem take_of_completes {p : ReadPolicy} (havailable : size ≤ source.flatten.length)
    (h : p.Completes (Chunks.read none size source).1.length) :
    p.take size source = Chunks.read none size source := by
  cases p with
  | skip => exact h.elim
  | refuseAt n => exact Chunks.read_some_eq havailable h
  | full => rfl

theorem length_take_lt {p : ReadPolicy} (hpos : 0 < size)
    (h : ¬ p.Completes (Chunks.read none size source).1.length) :
    (p.take size source).1.flatten.length < size := by
  cases p with
  | skip => simpa [ReadPolicy.take] using hpos
  | refuseAt n => exact Chunks.length_read_some_lt hpos (Nat.lt_of_not_le h)
  | full => exact absurd trivial h

/-- The records before record `k` are read to their ends, counted from `i` on. -/
def ReadsAhead (policy : Nat → ReadPolicy) (i : Nat) (pieces : List (List Bytes)) (k : Nat) : Prop :=
  ∀ j < k, ∀ p, pieces[j]? = some p → (policy (i + j)).Completes p.length

/-- Only the numbers of pieces matter. -/
theorem ReadsAhead.of_lengths {i k : Nat} {pieces pieces' : List (List Bytes)}
    (h : ReadsAhead policy i pieces k)
    (hlengths : pieces.map List.length = pieces'.map List.length) :
    ReadsAhead policy i pieces' k := by
  intro j hj p hp
  have hlength : (pieces.map List.length)[j]? = some p.length := by
    rw [hlengths, List.getElem?_map, hp]
    rfl
  rw [List.getElem?_map, Option.map_eq_some_iff] at hlength
  obtain ⟨q, hq, hqp⟩ := hlength
  exact hqp ▸ h j hj q hq

theorem readsAhead_cons {i k : Nat} {p : List Bytes} {pieces : List (List Bytes)} :
    ReadsAhead policy i (p :: pieces) (k + 1) ↔
      (policy i).Completes p.length ∧ ReadsAhead policy (i + 1) pieces k := by
  constructor
  · intro h
    refine ⟨h 0 (Nat.succ_pos k) p rfl, ?_⟩
    intro j hj q hq
    have := h (j + 1) (Nat.succ_lt_succ hj) q hq
    rwa [← Nat.add_assoc, Nat.add_right_comm] at this
  · rintro ⟨hhead, htail⟩ j hj q hq
    cases j with
    | zero => cases hq; exact hhead
    | succ j =>
      have := htail j (Nat.lt_of_succ_lt_succ hj) q hq
      rwa [Nat.add_right_comm, Nat.add_assoc] at this

/-- After records that are all read to their ends, a record is served where its
segment starts. -/
theorem serve_of_readsAhead {i k : Nat} (havailable : sizes.sum ≤ source.flatten.length)
    (hahead : ReadsAhead policy i (Chunks.cut sizes source) k) (hfull : policy (i + k) = .full) :
    (serve policy i sizes source)[k]? = (Chunks.cut sizes source)[k]? := by
  induction sizes generalizing i k source with
  | nil => rfl
  | cons size sizes ih =>
    simp only [List.sum_cons] at havailable
    cases k with
    | zero =>
      rw [Nat.add_zero] at hfull
      simp [serve, Chunks.cut, ReadPolicy.take, hfull]
    | succ k =>
      obtain ⟨hhead, htail⟩ := readsAhead_cons.1 hahead
      have hsize : size ≤ source.flatten.length := by omega
      have hrest : sizes.sum ≤ (Chunks.read none size source).2.flatten.length := by
        rw [(Chunks.read_none_flatten hsize).2, List.length_drop]; omega
      have hfull' : policy (i + 1 + k) = .full := by rwa [Nat.add_right_comm]
      simpa [serve, Chunks.cut, take_of_completes hsize hhead] using ih hrest htail hfull'

/-- The records before record `k` take their sizes at most. -/
theorem taken_le (policy : Nat → ReadPolicy) (i : Nat) (sizes : List Nat) (source : List Bytes)
    (k : Nat) : ((serve policy i sizes source).take k).flatten.flatten.length ≤
      (sizes.take k).sum := by
  induction sizes generalizing i k source with
  | nil => simp [serve]
  | cons size sizes ih =>
    cases k with
    | zero => simp
    | succ k =>
      have hhead := length_take_le (policy i) size source
      have htail := ih (i + 1) ((policy i).take size source).2 k
      simp only [serve, List.take_succ_cons, List.flatten_cons, List.flatten_append,
        List.length_append, List.sum_cons]
      omega

/-- They take less if one of them is not read to its end. -/
theorem taken_lt {i k : Nat} (hpos : ∀ size ∈ sizes, 0 < size)
    (havailable : sizes.sum ≤ source.flatten.length)
    (h : ¬ ReadsAhead policy i (Chunks.cut sizes source) k) :
    ((serve policy i sizes source).take k).flatten.flatten.length < (sizes.take k).sum := by
  induction sizes generalizing i k source with
  | nil => exact absurd (fun j _ p hp => by cases hp) h
  | cons size sizes ih =>
    simp only [List.sum_cons] at havailable
    cases k with
    | zero => exact absurd (fun j hj => absurd hj (Nat.not_lt_zero j)) h
    | succ k =>
      simp only [serve, List.take_succ_cons, List.flatten_cons, List.flatten_append,
        List.length_append, List.sum_cons]
      by_cases hhead : (policy i).Completes (Chunks.read none size source).1.length
      · -- the first record that is not read to its end comes later
        have hsize : size ≤ source.flatten.length := by omega
        have hrest : sizes.sum ≤ (Chunks.read none size source).2.flatten.length := by
          rw [(Chunks.read_none_flatten hsize).2, List.length_drop]; omega
        have htail : ¬ ReadsAhead policy (i + 1) (Chunks.cut sizes (Chunks.read none size source).2) k :=
          fun htail => h (readsAhead_cons.2 ⟨hhead, htail⟩)
        have hlt := ih (fun s hs => hpos s (List.mem_cons_of_mem _ hs)) hrest htail
        rw [take_of_completes hsize hhead, Chunks.length_read_none hsize]
        omega
      · have hlt := length_take_lt (hpos size List.mem_cons_self) hhead
        have hle := taken_le policy (i + 1) sizes ((policy i).take size source).2 k
        omega

/-- What is served, one record after the other, is the start of the body. -/
theorem serve_flatten (policy : Nat → ReadPolicy) (i : Nat) (sizes : List Nat)
    (source : List Bytes) :
    (serve policy i sizes source).flatten.flatten ++ (unread policy i sizes source).flatten =
      source.flatten := by
  induction sizes generalizing i source with
  | nil => rfl
  | cons size sizes ih =>
    simp only [serve, unread, List.flatten_cons, List.flatten_append, List.append_assoc, ih]
    exact take_flatten ..

/-- The first byte that a record is served comes right after what the records
before have taken. -/
theorem getElem?_served {i k : Nat} {pieces : List Bytes}
    (h : (serve policy i sizes source)[k]? = some pieces) (hne : 0 < pieces.flatten.length) :
    pieces.flatten[0]? =
      source.flatten[((serve policy i sizes source).take k).flatten.flatten.length]? := by
  obtain ⟨hk, rfl⟩ := List.getElem?_eq_some_iff.1 h
  have hsplit := List.take_append_drop k (serve policy i sizes source)
  rw [List.drop_eq_getElem_cons hk] at hsplit
  rw [← serve_flatten policy i sizes source]
  generalize (serve policy i sizes source).take k = before at hsplit
  generalize (serve policy i sizes source)[k] = pieces at hsplit hne
  rw [← hsplit]
  simp [List.getElem?_append_right, List.getElem?_append_left hne]

/-! ## Bodies that tell one position from the others -/

/-- A body that is zero up to one byte. -/
def marked (n position : Nat) : Bytes :=
  (List.range n).map fun i => if i = position then 1 else 0

theorem eq_of_marked {n position i : Nat} (hposition : position < n)
    (h : (marked n position)[i]? = (marked n position)[position]?) : i = position := by
  have hi : i < n := by
    by_contra hge
    simp [marked, hposition, List.getElem?_eq_none (l := List.range n) (i := i)
      (by simpa using Nat.le_of_not_lt hge)] at h
  simpa [marked, hposition, hi] using h

namespace BatchResponse

/-- The response with other bytes in its chunks. -/
def withChunks (b : BatchResponse) (chunks : List Bytes)
    (h : chunks.map List.length = b.chunks.map List.length) : BatchResponse :=
  { b with
    chunks := chunks
    length_eq := by
      have hlength := b.length_eq
      rw [List.length_flatten] at hlength ⊢
      rw [h, hlength] }

/-- Under the policy, a record that is read to its end receives its own segment
of the body. -/
def OwnSegments [StdSort] (b : BatchResponse) (policy : Nat → ReadPolicy) : Prop :=
  ∀ r, b.ThreadReaches (policyCallback policy) r → ∀ (k : Nat) v, r.visits[k]? = some v →
    b.records[k]? = some v.record ∧ (policy k = .full → b.segments[k]? = some v.bytes)

/-- Every record before one that is read to its end is read to its end too. -/
def NoGap (b : BatchResponse) (policy : Nat → ReadPolicy) : Prop :=
  ∀ k < b.records.length, policy k = .full →
    ReadsAhead policy 0 (Chunks.cut b.sizes b.chunks) k

variable [StdSort] {b : BatchResponse}

omit [StdSort] in
/-- The body with the same chunk lengths whose one marked byte is at `position`. -/
theorem exists_marked (b : BatchResponse) (position : Nat) :
    ∃ (chunks : List Bytes) (h : chunks.map List.length = b.chunks.map List.length),
      (b.withChunks chunks h).chunks.flatten = marked b.chunks.flatten.length position := by
  have hsum : (b.chunks.map List.length).sum = (marked b.chunks.flatten.length position).length := by
    rw [← List.length_flatten]; simp [marked]
  exact ⟨(b.chunks.map List.length).splitLengths (marked b.chunks.flatten.length position),
    List.map_splitLengths_length _ _ hsum.le, List.flatten_splitLengths _ _ hsum.ge⟩

theorem NoGap.ownSegments (hpos : ∀ r ∈ b.records, 0 < r.size) (h : b.NoGap policy) :
    b.OwnSegments policy := by
  intro r hr k v hv
  obtain ⟨rest, hrest⟩ := prefix_of_visits hpos hr
  have hserved : (List.zipWith visitOf b.records (serve policy 0 b.sizes b.chunks))[k]? = some v := by
    rw [← hrest, List.getElem?_append_left (List.getElem?_eq_some_iff.1 hv).1, hv]
  obtain ⟨record, pieces, hrecord, hpieces, rfl⟩ := List.getElem?_zipWith_eq_some.1 hserved
  refine ⟨hrecord, ?_⟩
  intro hfull
  have havailable : b.sizes.sum ≤ b.chunks.flatten.length := b.length_eq.ge
  have hk := (List.getElem?_eq_some_iff.1 hrecord).1
  rw [serve_of_readsAhead havailable (h k hk hfull) (by rwa [Nat.zero_add])] at hpieces
  rw [segments, ← Chunks.cut_flatten havailable, List.getElem?_map, hpieces]
  rfl

/-- What a record that is read to its end has received in the end. -/
theorem OwnSegments.served (h : b.OwnSegments policy) (hpos : ∀ r ∈ b.records, 0 < r.size)
    {k : Nat} {pieces : List Bytes} (hpieces : (serve policy 0 b.sizes b.chunks)[k]? = some pieces)
    (hfull : policy k = .full) : b.segments[k]? = some pieces.flatten := by
  obtain ⟨d, hrun, -, hvisits, -⟩ := Start.ends (b := b) (.inr rfl) policy hpos
  have hk : k < b.records.length := by
    simpa [length_serve, sizes] using (List.getElem?_eq_some_iff.1 hpieces).1
  have hvisit : d.state.visits[k]? = some (visitOf b.records[k] pieces) := by
    rw [hvisits, List.getElem?_zipWith_eq_some]
    exact ⟨_, _, List.getElem?_eq_getElem hk, hpieces, rfl⟩
  exact (h _ (.inr ⟨_, hrun⟩) k _ hvisit).2 hfull

/-- With a gap before a record, the body whose marked byte is the first of its
segment shows that it is served from another place. -/
theorem noGap_of_ownSegments (hpos : ∀ r ∈ b.records, 0 < r.size)
    (h : ∀ chunks hlengths, (b.withChunks chunks hlengths).OwnSegments policy) :
    b.NoGap policy := by
  intro k hk hfull
  by_contra hgap
  obtain ⟨chunks, hlengths, hmarked⟩ := b.exists_marked (b.sizes.take k).sum
  let b' := b.withChunks chunks hlengths
  have hpos' : ∀ size ∈ b.sizes, 0 < size := List.forall_mem_map.2 hpos
  have hsum : b.sizes.sum = b'.chunks.flatten.length := b'.length_eq.symm
  have hsizes : k < b.sizes.length := by simpa [sizes] using hk
  have hserve : k < (serve policy 0 b.sizes b'.chunks).length := by rwa [length_serve]
  have hown := (h chunks hlengths).served hpos (List.getElem?_eq_getElem hserve) hfull
  have hsegment : (serve policy 0 b.sizes b'.chunks)[k].flatten.length = b.sizes[k] := by
    obtain ⟨hk', heq⟩ := List.getElem?_eq_some_iff.1 hown
    rw [← heq]
    exact List.splitLengths_length_getElem _ _ hsum.le k hk'
  have hne : 0 < (serve policy 0 b.sizes b'.chunks)[k].flatten.length :=
    hsegment ▸ hpos' _ (List.getElem_mem hsizes)
  -- the byte it is served first, and the first byte of its segment
  have hserved := getElem?_served (List.getElem?_eq_getElem hserve) hne
  have hfirst := Chunks.getElem?_segment hown hne
  have htaken : ((serve policy 0 b.sizes b'.chunks).take k).flatten.flatten.length <
      (b.sizes.take k).sum := by
    refine taken_lt hpos' hsum.le ?_
    intro hahead
    exact hgap (hahead.of_lengths (Chunks.cut_lengths b.sizes hlengths))
  have hposition : (b.sizes.take k).sum < b.chunks.flatten.length := by
    have hsplit := congrArg List.sum (List.take_append_drop k b.sizes)
    rw [List.drop_eq_getElem_cons hsizes, List.sum_append, List.sum_cons] at hsplit
    have hsize := hpos' _ (List.getElem_mem hsizes)
    have hbody : b.chunks.flatten.length = b.sizes.sum := b.length_eq
    omega
  rw [hserved, hmarked] at hfirst
  exact htaken.ne (eq_of_marked hposition hfirst)

/-- The records that a policy reads to their ends receive their own segments,
whatever the body is, if and only if the policy leaves no gap before them. -/
theorem ownSegments_iff (b : BatchResponse) (policy : Nat → ReadPolicy)
    (hpos : ∀ r ∈ b.records, 0 < r.size) :
    (∀ chunks hlengths, (b.withChunks chunks hlengths).OwnSegments policy) ↔ b.NoGap policy := by
  refine ⟨noGap_of_ownSegments hpos, ?_⟩
  intro h chunks hlengths
  refine NoGap.ownSegments hpos ?_
  intro k hk hfull
  exact (h k hk hfull).of_lengths (Chunks.cut_lengths b.sizes hlengths.symm)

omit [StdSort] in
theorem ownSegments_iff_sample : @OwnSegments .insertion sampleBatch (fun _ => .full) :=
  (@ownSegments_iff .insertion sampleBatch (fun _ => .full) (by decide)).2
    (fun _ _ _ _ _ _ _ => trivial) sampleBatch.chunks rfl

/-- The callback that does not read the first record. -/
def skipFirst : Nat → ReadPolicy
  | 0 => .skip
  | _ => .full

omit [StdSort] in
/-- The second record receives the first byte of the first one. -/
theorem ownSegments_broken :
    (∀ r ∈ sampleBatch.records, 0 < r.size) ∧ ¬ @OwnSegments .insertion sampleBatch skipFirst := by
  refine ⟨by decide, ?_⟩
  intro h
  have hown := @OwnSegments.served skipFirst .insertion sampleBatch h (by decide) 1 [bytes "a"]
    (by decide) rfl
  exact absurd hown (by decide)

end BatchResponse

end Reduct
