/-
ForkChoice/Store/Tier.lean

The frozen tier: a list that holds, at each height below its length, the
canonical header of that height.  It grows at its end and can be cut back.

The tier is a service that may refuse any call.  `Service` says which calls it
refuses, by their place among the calls of one operation, and what a rival writer
to the store slips in before an item is appended.  What an operation
may conclude from a refused call is nothing but the refusal.
-/
import ForkChoice.Header.Row

namespace ForkChoice

/-! ### Errors and calls -/

/-- Why the frozen tier does not do what it is asked. -/
inductive TierError where
  /-- An item was appended whose height is not the next one. -/
  | outOfOrder (expected : Nat) (got : UInt64)
  /-- More items were to be kept than there are. -/
  | truncateBeyond (requested : UInt64) (available : Nat)
  /-- The call was refused. -/
  | unavailable (reason : String)
deriving DecidableEq

/-- The text of an error of the frozen tier. -/
def TierError.message : TierError → String
  | outOfOrder expected got =>
    "out-of-order append: expected item " ++ expected.repr ++ ", got " ++ got.toNat.repr
  | truncateBeyond requested available =>
    "cannot truncate to " ++ requested.toNat.repr ++ " items: only " ++ available.repr ++ " stored"
  | unavailable reason => "ancient store unavailable: " ++ reason

/-- What the frozen tier can be asked to do. -/
inductive TierCall where
  /-- Tell how many items there are. -/
  | count
  /-- Hand out the item of a height. -/
  | fetch (number : UInt64)
  /-- Take an item with the given height. -/
  | append (number : UInt64)
  /-- Keep only the first items. -/
  | truncate (items : UInt64)
deriving DecidableEq

/-- How the frozen tier behaves while one operation calls it. -/
structure Service where
  /-- The reason why the call at a place is refused, if it is.  The calls of an
  operation have the places 0, 1, 2, …. -/
  refusal : Nat → TierCall → Option String := fun _ _ => none
  /-- The hash, if any, that a rival makes canonical at a height just before the
  item of that height is appended. -/
  rival : UInt64 → Option Hash := fun _ => none

instance : Inhabited Service := ⟨{}⟩

/-- A service that does what it is asked. -/
def Service.Answers (service : Service) : Prop := ∀ place call, service.refusal place call = none

/-- A service that answers reading calls. -/
def Service.AnswersReads (service : Service) : Prop :=
  ∀ place, service.refusal place .count = none ∧
    ∀ number, service.refusal place (.fetch number) = none

/-- A service to a store that nobody else writes to. -/
def Service.Alone (service : Service) : Prop := ∀ number, service.rival number = none

/-! ### The tier -/

/-- The frozen items in order of height, and how the tier serves them. -/
structure Tier where
  items : List Frozen := []
  service : Service := {}

instance : Inhabited Tier := ⟨{}⟩

namespace Tier

/-- Make a call at a place, unless it is refused. -/
def call {α : Type} (t : Tier) (place : Nat) (call : TierCall) (answer : Except TierError α) :
    Except TierError α :=
  match t.service.refusal place call with
  | some reason => .error (.unavailable reason)
  | none => answer

/-- The number of items. -/
def count (t : Tier) (place : Nat) : Except TierError Nat :=
  t.call place .count (.ok t.items.length)

/-- The item of a height, if it is frozen. -/
def fetch (t : Tier) (place : Nat) (number : UInt64) : Except TierError (Option Frozen) :=
  t.call place (.fetch number) (.ok t.items[number.toNat]?)

/-- Take an item at the end, if it has the next height. -/
def push (t : Tier) (item : Frozen) : Except TierError Tier :=
  if item.header.number.toNat = t.items.length then .ok { t with items := t.items ++ [item] }
  else .error (.outOfOrder t.items.length item.header.number)

/-- Keep only the first items. -/
def truncate (t : Tier) (place : Nat) (items : UInt64) : Except TierError Tier :=
  t.call place (.truncate items) <|
    if items.toNat ≤ t.items.length then .ok { t with items := t.items.take items.toNat }
    else .error (.truncateBeyond items t.items.length)

end Tier

end ForkChoice
