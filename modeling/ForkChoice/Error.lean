/-
ForkChoice/Error.lean

What can go wrong with a chain, and where in a segment it went wrong.
-/
import ForkChoice.Binary64.Text
import ForkChoice.Consensus
import ForkChoice.Settings.Basic
import ForkChoice.Store.Rows

namespace ForkChoice

/-! ### Rejections -/

/-- Why the gate refused a segment: the header that would have taken over the
head, measured from the fork point, falls short of the required ratio. -/
structure Rejection where
  ancestorNumber : UInt64
  ancestorHash : Hash
  /-- Height and hash of the header that would have taken over. -/
  number : UInt64
  hash : Hash
  /-- Seconds between the fork point and that header. -/
  elapsed : UInt64
  ratio : Float
  required : Float

/-- The text of a rejection. -/
def Rejection.message (r : Rejection) : String :=
  "td ratio " ++ Binary64.fixed 6 r.ratio ++ " below required " ++ Binary64.fixed 6 r.required
    ++ " after " ++ r.elapsed.toNat.repr ++ "s (fork at #" ++ r.ancestorNumber.toNat.repr ++ " "
    ++ r.ancestorHash.short ++ ", block #" ++ r.number.toNat.repr ++ " " ++ r.hash.short ++ ")"

/-! ### Chain errors -/

/-- Why a chain does not do what it is asked. -/
inductive ChainError where
  /-- The chain that ends at a hash does not meet the canonical chain at or
  above the lowest height that is open to forks. -/
  | unknownAncestor (parent : Hash) (retainedFrom : Nat)
  /-- The parent of the first new header is not stored. -/
  | unknownParent (hash : Hash)
  /-- The gate refused the segment. -/
  | rejected (rejection : Rejection)
  | validation (cause : Violation)
  | missingTotal (hash : Hash)
  | missingHeader (hash : Hash)
  /-- The store belongs to a chain with another genesis. -/
  | genesisMismatch (stored expected : Hash)
  | storage (cause : StoreError)
  | settings (cause : SettingsError)

namespace ChainError

/-- The text of a chain error. -/
def message : ChainError → String
  | unknownAncestor parent retainedFrom =>
    "unknown ancestor " ++ parent.short ++ " (forks must branch at or above #"
      ++ retainedFrom.repr ++ ")"
  | unknownParent hash => "unknown parent " ++ hash.short ++ ": not stored"
  | rejected rejection => "artificial finality rejected segment: " ++ rejection.message
  | validation cause => "validation failed: " ++ cause.message
  | missingTotal hash => "missing total difficulty for " ++ hash.short
  | missingHeader hash => "missing header " ++ hash.short
  | genesisMismatch stored expected =>
    "stored genesis " ++ stored.short ++ " does not match " ++ expected.short
  | storage cause => "storage error: " ++ cause.message
  | settings cause => "config error: " ++ cause.message

/-- The error is a refusal by the gate. -/
def isRejection : ChainError → Bool
  | rejected _ => true
  | _ => false

/-- A parent is missing, or the fork point is too low. -/
def isUnknownAncestor : ChainError → Bool
  | unknownAncestor .. => true
  | unknownParent _ => true
  | _ => false

end ChainError

/-! ### Insertion errors -/

/-- A chain error with the index of the header of the segment to blame. -/
structure SegmentError where
  index : Nat
  cause : ChainError

namespace SegmentError

/-- The text of an insertion error. -/
def message (e : SegmentError) : String :=
  "insert failed at segment index " ++ e.index.repr ++ ": " ++ e.cause.message

/-- The rejection, if the gate refused the segment. -/
def rejection? (e : SegmentError) : Option Rejection :=
  match e.cause with
  | .rejected rejection => some rejection
  | _ => none

end SegmentError

end ForkChoice
