-- SUMMARY: Reading a given number of elements off a list of chunks, piece by piece, and what the pieces have to do with the segments of the whole.
import Mathlib.Algebra.Ring.Nat
import Mathlib.Data.List.SplitLengths

/-! # Reading from chunks

A list arrives in chunks and is read in records of given sizes. A reader takes
pieces: a chunk as it is, or its first part if the record ends within it. Empty
chunks are no pieces. A reader may have a limit and give up early. -/

namespace Chunks

variable {α β : Type*}

/-- Read `more` elements. Gives the pieces and the chunks that are left. The
reader gives up after the piece with number `limit`, counted from 0. -/
def read : Option Nat → Nat → List (List α) → List (List α) × List (List α)
  | _, _, [] => ([], [])
  | limit, more, chunk :: chunks =>
    if chunk.isEmpty then read limit more chunks
    else if more < chunk.length then ([chunk.take more], chunk.drop more :: chunks)
    else if more = chunk.length || limit == some 0 then ([chunk], chunks)
    else
      let r := read (limit.map (· - 1)) (more - chunk.length) chunks
      (chunk :: r.1, r.2)

@[simp] theorem read_nil (limit : Option Nat) (more : Nat) :
    read limit more ([] : List (List α)) = ([], []) := rfl

@[simp] theorem read_empty_cons (limit : Option Nat) (more : Nat) (chunks : List (List α)) :
    read limit more ([] :: chunks) = read limit more chunks := rfl

theorem read_cut (limit : Option Nat) {more : Nat} {chunk : List α} (chunks : List (List α))
    (h : more < chunk.length) :
    read limit more (chunk :: chunks) = ([chunk.take more], chunk.drop more :: chunks) := by
  have hne : chunk ≠ [] := by rintro rfl; simp at h
  simp [read, hne, h]

theorem read_last (limit : Option Nat) {more : Nat} {chunk : List α} (chunks : List (List α))
    (hne : chunk ≠ []) (hle : chunk.length ≤ more) (h : more = chunk.length ∨ limit = some 0) :
    read limit more (chunk :: chunks) = ([chunk], chunks) := by
  have hnot : ¬ more < chunk.length := by omega
  simp [read, hne, hnot, h]

theorem read_piece {limit : Option Nat} {more : Nat} {chunk : List α} (chunks : List (List α))
    (hne : chunk ≠ []) (hlt : chunk.length < more) (hlimit : limit ≠ some 0) :
    read limit more (chunk :: chunks) =
      (chunk :: (read (limit.map (· - 1)) (more - chunk.length) chunks).1,
        (read (limit.map (· - 1)) (more - chunk.length) chunks).2) := by
  have hnot : ¬ more < chunk.length := by omega
  have hne' : more ≠ chunk.length := by omega
  simp [read, hne, hnot, hne', hlimit]

/-- The ways to read from a nonempty list of chunks. -/
theorem read_cases (limit : Option Nat) (more : Nat) (chunk : List α) :
    chunk = [] ∨ more < chunk.length ∨
      (chunk ≠ [] ∧ chunk.length ≤ more ∧ (more = chunk.length ∨ limit = some 0)) ∨
      (chunk ≠ [] ∧ chunk.length < more ∧ limit ≠ some 0) := by
  by_cases hne : chunk = []
  · exact .inl hne
  · by_cases hlimit : limit = some 0 <;> grind

/-- Reading loses nothing. -/
theorem read_flatten (limit : Option Nat) (more : Nat) (chunks : List (List α)) :
    (read limit more chunks).1.flatten ++ (read limit more chunks).2.flatten = chunks.flatten := by
  induction chunks generalizing limit more with
  | nil => rfl
  | cons chunk chunks ih =>
    rcases read_cases limit more chunk with rfl | hcut | ⟨hne, hle, hlast⟩ | ⟨hne, hlt, hlimit⟩
    · simpa using ih limit more
    · simp [read_cut _ chunks hcut, ← List.append_assoc]
    · simp [read_last _ chunks hne hle hlast]
    · simp [read_piece chunks hne hlt hlimit, ih]

theorem length_read_le (limit : Option Nat) (more : Nat) (chunks : List (List α)) :
    (read limit more chunks).1.flatten.length ≤ more := by
  induction chunks generalizing limit more with
  | nil => simp
  | cons chunk chunks ih =>
    rcases read_cases limit more chunk with rfl | hcut | ⟨hne, hle, hlast⟩ | ⟨hne, hlt, hlimit⟩
    · simpa using ih limit more
    · simp [read_cut _ chunks hcut]
    · simpa [read_last _ chunks hne hle hlast] using hle
    · have := ih (limit.map (· - 1)) (more - chunk.length)
      simp only [read_piece chunks hne hlt hlimit, List.flatten_cons, List.length_append]
      omega

/-- A reader without a limit gets all it asks for. -/
theorem length_read_none {more : Nat} {chunks : List (List α)}
    (h : more ≤ chunks.flatten.length) : (read none more chunks).1.flatten.length = more := by
  induction chunks generalizing more with
  | nil => simpa [eq_comm] using h
  | cons chunk chunks ih =>
    simp only [List.flatten_cons, List.length_append] at h
    rcases read_cases none more chunk with rfl | hcut | ⟨hne, hle, hlast⟩ | ⟨hne, hlt, hlimit⟩
    · simpa using ih (by simpa using h)
    · simpa [read_cut _ chunks hcut] using hcut.le
    · rw [read_last _ chunks hne hle hlast, hlast.resolve_right nofun]
      simp
    · simp only [read_piece chunks hne hlt hlimit, List.flatten_cons, List.length_append,
        Option.map_none, ih (show more - chunk.length ≤ chunks.flatten.length by omega)]
      omega

theorem read_none_flatten {more : Nat} {chunks : List (List α)}
    (h : more ≤ chunks.flatten.length) :
    (read none more chunks).1.flatten = chunks.flatten.take more ∧
      (read none more chunks).2.flatten = chunks.flatten.drop more := by
  have happend := read_flatten none more chunks
  have hlength := length_read_none h
  rw [← happend]
  exact ⟨(List.take_left' hlength).symm, (List.drop_left' hlength).symm⟩

/-- No piece is empty. -/
theorem ne_nil_of_mem_read {limit : Option Nat} {more : Nat} {chunks : List (List α)}
    (hmore : 0 < more) : ∀ p ∈ (read limit more chunks).1, p ≠ [] := by
  induction chunks generalizing limit more with
  | nil => simp
  | cons chunk chunks ih =>
    rcases read_cases limit more chunk with rfl | hcut | ⟨hne, hle, hlast⟩ | ⟨hne, hlt, hlimit⟩
    · simpa using ih hmore
    · have : chunk.take more ≠ [] := by
        rw [ne_eq, List.take_eq_nil_iff]; rintro (h | rfl)
        · omega
        · simp at hcut
      simpa [read_cut _ chunks hcut] using this
    · simpa [read_last _ chunks hne hle hlast] using hne
    · simpa [read_piece chunks hne hlt hlimit, hne] using
        @ih (limit.map (· - 1)) _ (show 0 < more - chunk.length by omega)

/-- A reader with a limit gets the first pieces of one without. -/
theorem read_some (limit more : Nat) (chunks : List (List α)) :
    (read (some limit) more chunks).1 = (read none more chunks).1.take (limit + 1) := by
  induction chunks generalizing limit more with
  | nil => simp
  | cons chunk chunks ih =>
    rcases read_cases none more chunk with rfl | hcut | ⟨hne, hle, hlast⟩ | ⟨hne, hlt, hlimit⟩
    · simpa using ih limit more
    · simp [read_cut _ chunks hcut]
    · simp [read_last _ chunks hne hle hlast,
        read_last (some limit) chunks hne hle (.inl (hlast.resolve_right nofun))]
    · cases limit with
      | zero => simp [read_last (some 0) chunks hne hlt.le (.inr rfl),
          read_piece chunks hne hlt hlimit]
      | succ limit =>
        simp [read_piece chunks hne hlt hlimit,
          read_piece chunks hne hlt (show some (limit + 1) ≠ some 0 by simp), ih]

/-- A limit that is not reached makes no difference. -/
theorem read_some_eq {limit more : Nat} {chunks : List (List α)}
    (havailable : more ≤ chunks.flatten.length)
    (h : (read none more chunks).1.length ≤ limit + 1) :
    read (some limit) more chunks = read none more chunks := by
  induction chunks generalizing limit more with
  | nil => rfl
  | cons chunk chunks ih =>
    simp only [List.flatten_cons, List.length_append] at havailable
    rcases read_cases none more chunk with rfl | hcut | ⟨hne, hle, hlast⟩ | ⟨hne, hlt, hlimit⟩
    · exact ih (by simpa using havailable) h
    · simp [read_cut _ chunks hcut]
    · simp [read_last _ chunks hne hle hlast,
        read_last (some limit) chunks hne hle (.inl (hlast.resolve_right nofun))]
    · have hrest : more - chunk.length ≤ chunks.flatten.length := by omega
      rw [read_piece chunks hne hlt hlimit] at h ⊢
      cases limit with
      | zero =>
        -- the reader without a limit takes at least one more piece
        have hnil : (read none (more - chunk.length) chunks).1 = [] := by simpa using h
        have hlength := length_read_none hrest
        rw [hnil] at hlength
        simp at hlength
        omega
      | succ limit =>
        have hrec := @ih limit _ hrest (by simpa using h)
        simp [read_piece chunks hne hlt (show some (limit + 1) ≠ some 0 by simp), hrec]

/-- A reader whose limit is reached too early does not get all it asks for. -/
theorem length_read_some_lt {limit more : Nat} {chunks : List (List α)} (hmore : 0 < more)
    (h : limit + 1 < (read none more chunks).1.length) :
    (read (some limit) more chunks).1.flatten.length < more := by
  have hle := length_read_le none more chunks
  have hsplit := List.take_append_drop (limit + 1) (read none more chunks).1
  have hmissing : 0 < ((read none more chunks).1.drop (limit + 1)).flatten.length := by
    obtain ⟨p, hp⟩ := List.exists_mem_of_length_pos
      (l := (read none more chunks).1.drop (limit + 1)) (by simp; omega)
    have hpos := List.length_pos_iff.2 (ne_nil_of_mem_read hmore p (List.mem_of_mem_drop hp))
    have := (List.sublist_flatten_of_mem hp).length_le
    omega
  rw [← hsplit, List.flatten_append, List.length_append] at hle
  rw [read_some]
  omega

/-- Where the chunks are cut decides where the pieces are cut. -/
theorem read_lengths (limit : Option Nat) (more : Nat) {chunks : List (List α)}
    {chunks' : List (List β)} (h : chunks.map List.length = chunks'.map List.length) :
    (read limit more chunks).1.map List.length = (read limit more chunks').1.map List.length ∧
      (read limit more chunks).2.map List.length = (read limit more chunks').2.map List.length := by
  induction chunks generalizing limit more chunks' with
  | nil =>
    obtain rfl : chunks' = [] := by simpa [eq_comm] using h
    simp
  | cons chunk chunks ih =>
    cases chunks' with
    | nil => simp at h
    | cons chunk' chunks' =>
      obtain ⟨hchunk, hchunks⟩ : chunk.length = chunk'.length ∧ _ := by simpa using h
      rcases read_cases limit more chunk with rfl | hcut | ⟨hne, hle, hlast⟩ | ⟨hne, hlt, hlimit⟩
      · obtain rfl : chunk' = [] := List.length_eq_zero_iff.1 hchunk.symm
        simpa using ih limit more hchunks
      · simp [read_cut _ chunks hcut, read_cut limit chunks' (hchunk ▸ hcut : more < chunk'.length), hchunk,
          hchunks]
      · have hne' : chunk' ≠ [] := by simpa [← List.length_pos_iff, ← hchunk] using hne
        simp [read_last _ chunks hne hle hlast,
          read_last limit chunks' hne' (hchunk ▸ hle) (hchunk ▸ hlast), hchunk, hchunks]
      · have hne' : chunk' ≠ [] := by simpa [← List.length_pos_iff, ← hchunk] using hne
        simpa [read_piece chunks hne hlt hlimit, hchunk,
          read_piece chunks' hne' (hchunk ▸ hlt) hlimit] using
          ih (limit.map (· - 1)) (more - chunk'.length) hchunks

/-- Segments that are put together and cut at their lengths come out again. -/
theorem splitLengths_flatten (segments : List (List α)) :
    (segments.map List.length).splitLengths segments.flatten = segments := by
  induction segments with
  | nil => rfl
  | cons segment segments ih => simp [ih]

/-- A segment starts after the segments before it. -/
theorem getElem?_segment {sizes : List Nat} {xs segment : List α} {k : Nat}
    (h : (sizes.splitLengths xs)[k]? = some segment) (hne : 0 < segment.length) :
    segment[0]? = xs[(sizes.take k).sum]? := by
  induction sizes generalizing xs k with
  | nil => cases h
  | cons size sizes ih =>
    rw [List.splitLengths_cons] at h
    cases k with
    | zero =>
      obtain rfl : xs.take size = segment := by simpa using h
      have hsize : 0 < size := by rw [List.length_take] at hne; omega
      simp [hsize]
    | succ k => simpa [List.getElem?_drop] using ih h

/-- The pieces of each segment, when all of them are read to their ends. -/
def cut : List Nat → List (List α) → List (List (List α))
  | [], _ => []
  | size :: sizes, chunks => (read none size chunks).1 :: cut sizes (read none size chunks).2

/-- The pieces of each segment make up the segment. -/
theorem cut_flatten {sizes : List Nat} {chunks : List (List α)}
    (h : sizes.sum ≤ chunks.flatten.length) :
    (cut sizes chunks).map List.flatten = sizes.splitLengths chunks.flatten := by
  induction sizes generalizing chunks with
  | nil => rfl
  | cons size sizes ih =>
    simp only [List.sum_cons] at h
    obtain ⟨htake, hdrop⟩ := read_none_flatten (show size ≤ chunks.flatten.length by omega)
    have hrest : sizes.sum ≤ (read none size chunks).2.flatten.length := by
      rw [hdrop, List.length_drop]; omega
    simp [cut, htake, ih hrest, hdrop]

/-- Where the chunks are cut decides how many pieces each segment has. -/
theorem cut_lengths (sizes : List Nat) {chunks : List (List α)} {chunks' : List (List β)}
    (h : chunks.map List.length = chunks'.map List.length) :
    (cut sizes chunks).map List.length = (cut sizes chunks').map List.length := by
  induction sizes generalizing chunks chunks' with
  | nil => rfl
  | cons size sizes ih =>
    obtain ⟨hpieces, hrest⟩ := read_lengths none size h
    have hcount := congrArg List.length hpieces
    simp only [List.length_map] at hcount
    simp [cut, hcount, ih hrest]

end Chunks
