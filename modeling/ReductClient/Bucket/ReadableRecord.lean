-- SUMMARY: `IBucket::ReadableRecord` and its three `Read` closures, up to what one iteration of their loop does with the item it takes off the queue.
import ReductClient.Bucket.Types

open Cxx

namespace Reduct

/-- An item of the queue `data`: a chunk of the body, or `nullopt` for its end. -/
abbrev Item := Option Bytes

/-- Which parser built a `Read` closure, with the size it captured. The closure
of the single-record parser captures no size. -/
inductive ReadKind where
  | single
  | v1 (size : Nat)
  | v2 (size : Nat)
  deriving DecidableEq

/-- A `Read` closure. -/
structure ReadClosure where
  kind : ReadKind
  head : Bool
  deriving DecidableEq

/-- `IBucket::ReadableRecord`. -/
structure ReadableRecord where
  entry : Bytes
  timestamp : Time
  size : Nat
  last : Bool
  labels : LabelMap
  contentType : Bytes
  read : ReadClosure

/-! ## One iteration of the loop -/

/-- `a - b` on `size_t`. -/
def wrapSub (a b : Nat) : Nat := (a + 2 ^ 64 - b) % 2 ^ 64

theorem wrapSub_eq {a b : Nat} (hb : b ≤ a) (ha : a < 2 ^ 64) : wrapSub a b = a - b := by
  unfold wrapSub
  omega

/-- What the block under the lock leaves: the local `chunk` and the items pushed
back in front of the queue. -/
inductive Fetched where
  /-- The end marker is dereferenced. -/
  | fault
  | chunk (chunk : Item) (back : List Item)

/-- Cut a chunk that reaches beyond the record. -/
def splitChunk (size total : Nat) (chunk : Bytes) : Fetched :=
  if wrapSub size total < chunk.length then
    .chunk (some (chunk.take (wrapSub size total))) [some (chunk.drop (wrapSub size total))]
  else .chunk (some chunk) []

/-- The block under the lock, for the item at the front of the queue. The v1
closure looks at the size of the chunk without looking whether there is one. -/
def ReadKind.fetch (total : Nat) : ReadKind → Item → Fetched
  | .single, item => .chunk item []
  | .v1 _, none => .fault
  | .v1 size, some chunk => splitChunk size total chunk
  | .v2 _, none => .chunk none []
  | .v2 size, some chunk => splitChunk size total chunk

/-- The test `total >= size` at the end of an iteration. -/
def ReadKind.reached (total : Nat) : ReadKind → Bool
  | .single => false
  | .v1 size => decide (size ≤ total)
  | .v2 size => decide (size ≤ total)

/-- The size a batched closure captured. -/
def ReadKind.size? : ReadKind → Option Nat
  | .single => none
  | .v1 size => some size
  | .v2 size => some size

theorem ReadKind.fetch_chunk {kind : ReadKind} {size : Nat} (h : kind.size? = some size)
    (total : Nat) (chunk : Bytes) : kind.fetch total (some chunk) = splitChunk size total chunk := by
  cases kind <;> simp_all [size?, fetch]

theorem ReadKind.reached_iff {kind : ReadKind} {size : Nat} (h : kind.size? = some size)
    (total : Nat) : kind.reached total = decide (size ≤ total) := by
  cases kind <;> simp_all [size?, reached]

end Reduct
