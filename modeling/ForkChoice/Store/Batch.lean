/-
ForkChoice/Store/Batch.lean

Batches of writes, applied to the rows all at once.

A batch puts headers with their total difficulties, removes and sets canonical
entries, and moves the head pointers.  Headers are put in order, so the last
under a hash stays; canonical entries are removed before any is set; the last
one set at a height stays.
-/
import ForkChoice.Store.Rows

namespace ForkChoice

/-- Writes that are applied together. -/
structure Batch where
  /-- Headers to put, with their total difficulties. -/
  headers : List (Header × Difficulty) := []
  /-- Heights whose canonical entry is removed. -/
  removed : List UInt64 := []
  /-- Canonical entries to set. -/
  canonical : List (UInt64 × Hash) := []
  /-- The new head block, if it moves. -/
  headBlock : Option Hash := none
  /-- The new head header, if it moves. -/
  headHeader : Option Hash := none

namespace Batch

/-- The batch writes nothing. -/
def isEmpty (b : Batch) : Bool :=
  b.headers.isEmpty && b.removed.isEmpty && b.canonical.isEmpty
    && b.headBlock.isNone && b.headHeader.isNone

/-- Also put a header. -/
def put (b : Batch) (h : Header) (total : Difficulty) : Batch :=
  { b with headers := b.headers ++ [(h, total)] }

/-- Also set a canonical entry. -/
def setCanonical (b : Batch) (number : UInt64) (hash : Hash) : Batch :=
  { b with canonical := b.canonical ++ [(number, hash)] }

/-- Also remove a canonical entry. -/
def removeCanonical (b : Batch) (number : UInt64) : Batch :=
  { b with removed := b.removed ++ [number] }

end Batch

namespace Rows

/-- Write a header under its hash, with its total difficulty and height. -/
def putHeader (rows : Rows) (h : Header) (total : Difficulty) : Rows :=
  { rows with
    headers := rows.headers.insert h.hash.bytes h.row
    totals := rows.totals.insert h.hash.bytes (totalRow total)
    numbers := rows.numbers.insert h.hash.bytes (heightRow h.number) }

/-- Write a canonical entry. -/
def setCanonical (rows : Rows) (number : UInt64) (hash : Hash) : Rows :=
  { rows with canonical := rows.canonical.insert (heightRow number) hash.bytes }

/-- Remove a canonical entry. -/
def removeCanonical (rows : Rows) (number : UInt64) : Rows :=
  { rows with canonical := rows.canonical.erase (heightRow number) }

/-- Write a head pointer, if it moves. -/
def setPointer (rows : Rows) (key : Bytes) : Option Hash → Rows
  | none => rows
  | some hash => { rows with metadata := rows.metadata.insert key hash.bytes }

/-- Apply a batch. -/
def commit (rows : Rows) (b : Batch) : Rows :=
  let rows := b.headers.foldl (fun rows (h, total) => rows.putHeader h total) rows
  let rows := b.removed.foldl removeCanonical rows
  let rows := b.canonical.foldl (fun rows (number, hash) => rows.setCanonical number hash) rows
  let rows := rows.setPointer headBlockKey b.headBlock
  rows.setPointer headHeaderKey b.headHeader

end Rows

end ForkChoice
