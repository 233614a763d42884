/-
ForkChoice/ForkPoint.lean

Where a side chain leaves the canonical chain.

It is found by reading the store on behalf of a chain: what the store reports
becomes an error of the chain, and an error of the chain becomes one of a segment
by naming the header to blame.  A chain takes it for an error if a header has no
total difficulty.

`ForkPoint.search` walks parent links down from a stored header until it meets
a canonical one.  The headers passed on the way are the branch: they become
canonical too if a segment on top of them takes over.  The walk gives up below
the lowest height that is open to forks, at a link that leads nowhere, and at a
header of height zero that is not canonical.

Heights fall along parent links in any store that a chain has built, which
bounds the walk; a store whose links run in a circle makes it fault once it
has made more steps than there are headers.
-/
import ForkChoice.Error
import ForkChoice.Store.Basic

namespace ForkChoice

/-! ### Reading for a chain -/

section Reading

variable {α : Type}

/-- A reading of the store as part of a chain operation. -/
def Lookup.inChain (x : Lookup StoreError α) : Lookup ChainError α := x.mapError .storage

/-- A chain operation on a segment, with the index of the header to blame. -/
def Lookup.blame (index : Nat) (x : Lookup ChainError α) : Lookup SegmentError α :=
  x.mapError (⟨index, ·⟩)

/-- The total difficulty of a hash that has to have one. -/
def Source.totalOf (s : Source) (hash : Hash) : Lookup ChainError Difficulty := do
  match ← (s.total? hash).inChain with
  | some total => return total
  | none => .fail (.missingTotal hash)

end Reading

/-! ### The search -/

/-- The highest canonical header below a side chain. -/
structure ForkPoint where
  header : Header
  /-- The total difficulty up to and including that header. -/
  total : Difficulty
  /-- Height and hash of the stored headers above it that are not canonical,
  lowest first. -/
  branch : List (UInt64 × Hash)

namespace ForkPoint

/-- Walk down from `cursor`, with the branch passed so far. -/
def walk (source : Source) (unknown : ChainError) (retainedFrom : Nat) :
    (steps : Nat) → (cursor : Header) → (branch : List (UInt64 × Hash)) →
      Lookup ChainError (Header × List (UInt64 × Hash))
  | 0, _, _ => .done (.fault .endlessPath)
  | steps + 1, cursor, branch =>
    if cursor.number.toNat < retainedFrom then .fail unknown
    else do
      if ← (source.isCanonical cursor).inChain then return (cursor, branch)
      else if cursor.number = 0 then .fail unknown
      else
        match ← (source.header? cursor.parentHash).inChain with
        | none => .fail unknown
        | some parent =>
          walk source unknown retainedFrom steps parent ((cursor.number, cursor.hash) :: branch)

/-- Where the chain that ends at `parentHash` meets the canonical chain, at
height `retainedFrom` or above. -/
def search (source : Source) (parentHash : Hash) (retainedFrom : Nat) :
    Lookup ChainError ForkPoint := do
  let unknown := ChainError.unknownAncestor parentHash retainedFrom
  match ← (source.header? parentHash).inChain with
  | none => .fail unknown
  | some parent =>
    let steps := parent.number.toNat + source.size + 1
    let (header, branch) ← walk source unknown retainedFrom steps parent []
    let total ← source.totalOf header.hash
    return ⟨header, total, branch⟩

end ForkPoint

end ForkChoice
