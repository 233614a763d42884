/-
ForkChoice/Consensus.lean

Which headers may follow which.

`Header.follows` is the link of a header to its parent: height one more,
without wrapping, and the parent's hash.  `Segment.check` asks of a run of
headers that each is sealed and follows the one before it, and names the first
that does not.  A `Rule` decides about one header and its parent; the rule of a
chain is `Rule.retarget`, which asks for a link, a later timestamp and exactly
the difficulty that the adjustment calls for.
-/
import ForkChoice.Retarget

namespace ForkChoice

/-! ### What can be wrong with a header -/

/-- Why a header is not valid. -/
inductive Violation where
  /-- The hash is not that of the contents. -/
  | hashMismatch (number : UInt64)
  /-- The parent hash is not the hash of the header before. -/
  | brokenLink (number : UInt64) (parentHash expected : Hash)
  /-- The height is not one more than that of the header before. -/
  | nonSequential (expected got : UInt64)
  /-- The timestamp is not later than that of the parent. -/
  | timestampNotIncreasing (number timestamp parentTimestamp : UInt64)
  /-- The difficulty is not the one called for. -/
  | difficultyMismatch (number : UInt64) (expected got : Difficulty)
deriving DecidableEq

/-- The text of a validation error. -/
def Violation.message : Violation → String
  | hashMismatch number =>
    "header #" ++ number.toNat.repr ++ " hash does not match its contents"
  | brokenLink number parentHash expected =>
    "header #" ++ number.toNat.repr ++ " parent " ++ parentHash.short
      ++ " does not match previous header " ++ expected.short
  | nonSequential expected got =>
    "non-sequential header: expected #" ++ expected.toNat.repr ++ ", got #" ++ got.toNat.repr
  | timestampNotIncreasing number timestamp parentTimestamp =>
    "header #" ++ number.toNat.repr ++ " timestamp " ++ timestamp.toNat.repr
      ++ " not after parent timestamp " ++ parentTimestamp.toNat.repr
  | difficultyMismatch number expected got =>
    "header #" ++ number.toNat.repr ++ " difficulty " ++ got.toNat.repr
      ++ ", expected " ++ expected.toNat.repr

/-! ### Links -/

namespace Header

/-- The height above, stopping at the greatest. -/
def nextNumberCapped (h : Header) : UInt64 :=
  h.nextNumber?.getD h.number

/-- A header links to its parent: the height is one more, and the parent hash
is the parent's hash.  The height is looked at first. -/
def follows (parent h : Header) : Except Violation Unit :=
  if parent.nextNumber? ≠ some h.number then
    .error (.nonSequential parent.nextNumberCapped h.number)
  else if h.parentHash ≠ parent.hash then
    .error (.brokenLink h.number h.parentHash parent.hash)
  else .ok ()

end Header

/-! ### Segments -/

namespace Segment

/-- Check a header of a segment against the one before it, if there is one. -/
def checkHeader (previous? : Option Header) (h : Header) : Except Violation Unit :=
  if h.isSealed then
    match previous? with
    | some previous => previous.follows h
    | none => .ok ()
  else .error (.hashMismatch h.number)

/-- Check the rest of a segment, whose first header has the given index. -/
def checkFrom (index : Nat) (previous? : Option Header) :
    List Header → Except (Nat × Violation) Unit
  | [] => .ok ()
  | h :: rest =>
    match checkHeader previous? h with
    | .error e => .error (index, e)
    | .ok () => checkFrom (index + 1) (some h) rest

/-- Every header of a segment is sealed and follows the one before it.  The
error comes with the index of the first header that does not. -/
def check (segment : List Header) : Except (Nat × Violation) Unit :=
  checkFrom 0 none segment

end Segment

/-! ### Rules -/

/-- What a chain asks of a header and its parent. -/
def Rule : Type := (parent header : Header) → Outcome Violation Unit

namespace Rule

/-- Accept every header. -/
def lenient : Rule := fun _ _ => .ok ()

/-- A link, a timestamp after the parent's, and the difficulty that the
adjustment calls for, in this order. -/
def retarget (r : Retarget) : Rule := fun parent h => do
  Outcome.ofExcept (parent.follows h)
  if h.timestamp ≤ parent.timestamp then
    .error (.timestampNotIncreasing h.number h.timestamp parent.timestamp)
  else
    let expected ← Outcome.ofChecked (r.required parent h.timestamp)
    if h.difficulty = expected then .ok ()
    else .error (.difficultyMismatch h.number expected h.difficulty)

end Rule

end ForkChoice
