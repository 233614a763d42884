/-
ForkChoice/Store/Basic.lean

The store: hot rows and the frozen tier behind them, read as one.

A hash is looked up among the hot rows first, and then, through the height kept
for it, in the tier; the tier's item counts only if it carries that very hash.
A canonical height is looked up in the tier first: below the number of frozen
items the tier alone answers.

`Source` is what chain selection needs of a store; `Store.source` gives it.
-/
import ForkChoice.Store.Batch
import ForkChoice.Store.Lookup

namespace ForkChoice

/-! ### Reading rows and tier -/

namespace Rows

/-- The frozen header with a hash. -/
def frozen? (rows : Rows) (hash : Hash) : Lookup StoreError (Option Frozen) := do
  match ← Lookup.ofExcept (rows.number? hash) with
  | none => return none
  | some number =>
    .count fun
      | .error e => .fail (.tier e)
      | .ok frozen =>
        if frozen ≤ number.toNat then return none
        else .fetch number fun
          | .error e => .fail (.tier e)
          | .ok none => return none
          | .ok (some item) => return if item.header.hash = hash then some item else none

/-- The header with a hash, hot or frozen. -/
def findHeader? (rows : Rows) (hash : Hash) : Lookup StoreError (Option Header) := do
  match ← Lookup.ofExcept (rows.header? hash) with
  | some h => return some h
  | none => return (← rows.frozen? hash).map (·.header)

/-- The total difficulty of a hash, hot or frozen. -/
def findTotal? (rows : Rows) (hash : Hash) : Lookup StoreError (Option Difficulty) := do
  match ← Lookup.ofExcept (rows.total? hash) with
  | some total => return some total
  | none => return (← rows.frozen? hash).map (·.totalDifficulty)

/-- The canonical hash of a height, frozen or hot. -/
def findCanonical? (rows : Rows) (number : UInt64) : Lookup StoreError (Option Hash) :=
  .count fun
    | .error e => .fail (.tier e)
    | .ok frozen =>
      if number.toNat < frozen then
        .fetch number fun
          | .error e => .fail (.tier e)
          | .ok item? => return item?.map (·.header.hash)
      else .ofExcept (rows.canonicalHash? number)

/-- A header with the hash is stored, hot or frozen.  A hot row counts whether
or not it can be read. -/
def hasHeader (rows : Rows) (hash : Hash) : Lookup StoreError Bool := do
  if rows.headers.contains hash.bytes then return true
  else return (← rows.frozen? hash).isSome

end Rows

/-- The number of frozen items. -/
def frozenCount : Lookup StoreError Nat :=
  .count fun
    | .error e => .fail (.tier e)
    | .ok frozen => return frozen

/-! ### Sources of headers -/

/-- What chain selection reads. -/
structure Source where
  /-- The header with a hash. -/
  header? : Hash → Lookup StoreError (Option Header)
  /-- The total difficulty up to and including the header with a hash. -/
  total? : Hash → Lookup StoreError (Option Difficulty)
  /-- The hash of the canonical header of a height. -/
  canonical? : UInt64 → Lookup StoreError (Option Hash)
  /-- A bound on the number of headers. -/
  size : Nat

namespace Source

/-- The canonical header of a height. -/
def canonicalHeader? (s : Source) (number : UInt64) : Lookup StoreError (Option Header) := do
  match ← s.canonical? number with
  | none => return none
  | some hash => s.header? hash

/-- A header is canonical if its hash is the canonical one of its height. -/
def isCanonical (s : Source) (h : Header) : Lookup StoreError Bool := do
  return (← s.canonical? h.number) = some h.hash

end Source

/-! ### The store -/

/-- Hot rows and frozen tier. -/
structure Store where
  rows : Rows := {}
  tier : Tier := {}

instance : Inhabited Store := ⟨{}⟩

namespace Store

/-- The store as a source of headers. -/
def source (s : Store) : Source where
  header? := s.rows.findHeader?
  total? := s.rows.findTotal?
  canonical? := s.rows.findCanonical?
  size := s.rows.size + s.tier.items.length

/-- Let the store's own tier answer a lookup. -/
def answer {ε α : Type} (s : Store) (x : Lookup ε α) : Outcome ε α := x.run s.tier

/-- Apply a batch to the hot rows; the tier is not touched. -/
def commit (s : Store) (b : Batch) : Store := { s with rows := s.rows.commit b }

end Store

end ForkChoice
