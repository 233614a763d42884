/-
ForkChoice/Forge.lean

Making runs of valid headers.

Each header comes a number of seconds after the one before: the target spacing
shifted by an offset of its own, but at least one second.  It has the difficulty
that the adjustment calls for at that time.
-/
import ForkChoice.Retarget

namespace ForkChoice

/-- How headers are made. -/
structure Forge where
  retarget : Retarget := {}
  /-- The target spacing in seconds. -/
  interval : UInt64 := 10

/-- What is chosen for one header. -/
structure Plan where
  /-- The shift of the timestamp against the target spacing. -/
  offset : Int64 := 0
  nonce : UInt64

namespace Forge

/-- The sum of two signed numbers of 64 bits, stopping at the ends of their
range. -/
def addCapped (a b : Int64) : Int :=
  max (-(2 ^ 63)) (min (2 ^ 63 - 1) (a.toInt + b.toInt))

/-- The seconds from a header to the next.  The target spacing counts as a
signed number. -/
def spacing (forge : Forge) (offset : Int64) : Nat :=
  (max 1 (addCapped forge.interval.toInt64 offset)).toNat

/-- The next header after `parent`. -/
def next (forge : Forge) (parent : Header) (plan : Plan) : Checked Header := do
  let timestamp := parent.timestamp.toNat + forge.spacing plan.offset
  if parent.nextNumber?.isNone then .error .heightOverflow
  else if 2 ^ 64 ≤ timestamp then .error .timestampOverflow
  else
    let timestamp := UInt64.ofNat timestamp
    parent.child timestamp (← forge.retarget.required parent timestamp) plan.nonce

/-- Make `count` headers on top of `parent`, the first of them by the plan of
the given index. -/
def runFrom (forge : Forge) (plan : Nat → Plan) :
    (count index : Nat) → (parent : Header) → Checked (List Header)
  | 0, _, _ => .ok []
  | count + 1, index, parent => do
    let h ← forge.next parent (plan index)
    return h :: (← forge.runFrom plan count (index + 1) h)

/-- How many headers one run can be asked for.  A header takes 112 bytes. -/
def greatestRun : Nat := greatestBuffer 112

/-- Make a run of `count` headers on top of `parent`, each by the plan of its
index. -/
def run (forge : Forge) (parent : Header) (count : Nat) (plan : Nat → Plan) :
    Checked (List Header) :=
  if greatestRun < count then .error .capacityOverflow else forge.runFrom plan count 0 parent

end Forge

end ForkChoice
