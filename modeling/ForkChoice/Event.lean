/-
ForkChoice/Event.lean

What a chain tells its subscribers, and how a subscriber falls behind.

A chain keeps room for a number of recent events, a power of two.  A subscriber
that has missed more than that is told how many events it lost and goes on with
the oldest one kept.
-/
import ForkChoice.Hash

namespace ForkChoice

/-- A change of a chain. -/
inductive Event where
  /-- The head moved from `previous`; so many canonical headers were retired. -/
  | headChanged (number : UInt64) (hash previous : Hash) (reorgDepth : Nat)
  /-- A segment was stored as a side chain that leaves the canonical chain at
  the height `ancestor`. -/
  | sideChain (number : UInt64) (hash : Hash) (ancestor : UInt64)
deriving DecidableEq

/-- What a subscriber receives. -/
inductive Notice where
  /-- So many events were lost. -/
  | lagged (missed : Nat)
  | event (e : Event)
deriving DecidableEq

/-- The place of a subscriber: how many events of the chain are behind it. -/
structure Subscription where
  position : Nat
deriving DecidableEq

namespace Subscription

/-- The least power of two that is not less than a number. -/
def room (capacity : Nat) : Nat :=
  if capacity ≤ 1 then 1 else 2 ^ ((capacity - 1).log2 + 1)

/-- All that a subscriber has not received yet of a chain's events, given the
capacity that the chain was set up with. -/
def receive (s : Subscription) (capacity : Nat) (sent : List Event) :
    List Notice × Subscription :=
  let oldest := sent.length - room capacity
  let notices := (sent.drop (max s.position oldest)).map Notice.event
  let notices :=
    if s.position < oldest then .lagged (oldest - s.position) :: notices else notices
  (notices, ⟨sent.length⟩)

end Subscription

end ForkChoice
