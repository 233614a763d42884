/-
ForkChoice/Store/Freeze.lean

Moving canonical headers from the hot rows into the frozen tier.

`Store.freeze` reads the canonical headers from the end of the tier up to a
limit out of the hot rows, appends them to the tier one after another, and
removes their hot rows, but keeps their heights, by which they are found
again.  If an append fails, or an entry is no longer canonical when the rows are
removed, the tier is cut back to where it was and no row is removed.
-/
import ForkChoice.Store.Basic

namespace ForkChoice

/-! ### What is frozen -/

namespace Rows

/-- A row that has to be there. -/
def demand {α : Type} (what : Missing) : Except StoreError (Option α) → Except StoreError α
  | .error e => .error e
  | .ok none => .error (.missing what)
  | .ok (some a) => .ok a

/-- The hot canonical header of a height with its total difficulty. -/
def hotItem (rows : Rows) (number : UInt64) : Except StoreError Frozen := do
  let hash ← demand (.canonicalHash number) (rows.canonicalHash? number)
  let header ← demand (.header hash) (rows.header? hash)
  let total ← demand (.total hash) (rows.total? hash)
  return ⟨header, total⟩

/-- The hot canonical headers of `count` heights from `start` on. -/
def hotItems (rows : Rows) : (count start : Nat) → Except StoreError (List Frozen)
  | 0, _ => .ok []
  | count + 1, start => do
    let item ← rows.hotItem (UInt64.ofNat start)
    let items ← rows.hotItems count (start + 1)
    return item :: items

/-- Remove the hot rows of a canonical header, if it still is canonical. -/
def retire (rows : Rows) (h : Header) : Except StoreError Rows :=
  if rows.canonical[heightRow h.number]? = some h.hash.bytes then
    .ok { rows with
      headers := rows.headers.erase h.hash.bytes
      totals := rows.totals.erase h.hash.bytes
      canonical := rows.canonical.erase (heightRow h.number) }
  else .error (.canonicalMoved h.number)

/-- Remove the hot rows of canonical headers, all of them or none. -/
def retireAll (rows : Rows) : List Frozen → Except StoreError Rows
  | [] => .ok rows
  | item :: items => do (← rows.retire item.header).retireAll items

end Rows

namespace Store

/-! ### Appending -/

/-- Append an item to the tier.  A rival may write to the store just before. -/
def append (s : Store) (place : Nat) (item : Frozen) : Except TierError Unit × Store :=
  match s.tier.service.refusal place (.append item.header.number) with
  | some reason => (.error (.unavailable reason), s)
  | none =>
    let s := match s.tier.service.rival item.header.number with
      | some hash => s.commit { canonical := [(item.header.number, hash)] }
      | none => s
    match s.tier.push item with
    | .error e => (.error e, s)
    | .ok tier => (.ok (), { s with tier })

/-- Append items one after another up to the first failure.  Also says at
which place the next call stands. -/
def appendAll (s : Store) (place : Nat) : List Frozen → Except TierError Unit × Store × Nat
  | [] => (.ok (), s, place)
  | item :: items =>
    match s.append place item with
    | (.error e, s) => (.error e, s, place + 1)
    | (.ok (), s) => s.appendAll (place + 1) items

/-- Cut the tier back to its first items; if that fails it stays as it is. -/
def cutBack (s : Store) (place items : Nat) : Store :=
  match s.tier.truncate place (UInt64.ofNat items) with
  | .ok tier => { s with tier }
  | .error _ => s

/-! ### Freezing -/

/-- How many headers one freeze can be asked to move.  They are gathered first, and
one of them takes 128 bytes with its total difficulty. -/
def greatestBatch : Nat := greatestBuffer 128

/-- Freeze the canonical headers below a limit.  The value is the number of
frozen items afterwards. -/
def freeze (s : Store) (limit : UInt64) : Outcome StoreError Nat × Store :=
  match s.tier.count 0 with
  | .error e => (.error (.tier e), s)
  | .ok frozen =>
    if limit.toNat ≤ frozen then (.ok frozen, s)
    else if greatestBatch < limit.toNat - frozen then (.fault .capacityOverflow, s)
    else match s.rows.hotItems (limit.toNat - frozen) frozen with
      | .error e => (.error e, s)
      | .ok items =>
        match s.appendAll 1 items with
        | (.error e, s, place) => (.error (.tier e), s.cutBack place frozen)
        | (.ok (), s, place) =>
          match s.rows.retireAll items with
          | .error e => (.error e, s.cutBack place frozen)
          | .ok rows => (.ok limit.toNat, { s with rows })

end Store

end ForkChoice
