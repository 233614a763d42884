/-
ForkChoice/Chain/Assess.lean

Finding out what to do with a segment, without writing anything.

In order: the segment hangs together; the headers at its front that are already
stored are skipped; the parent of the first new one is stored; each new header
obeys the rule; the fork point is found; the new headers are raced against the
canonical chain; and the verdict is given.  An error names the header to blame:
the one that breaks the segment or the rule, otherwise the first new one.
-/
import ForkChoice.Chain.Basic

namespace ForkChoice

/-- A segment that obeys the rule, without the headers already stored. -/
structure Candidate where
  /-- The number of headers at the front that are already stored. -/
  known : Nat
  /-- The stored parent of the first new header. -/
  parent : Header
  first : Header
  rest : List Header

namespace Candidate

/-- The new headers in order. -/
def headers (x : Candidate) : List Header := x.first :: x.rest

/-- The last new header. -/
def tip (x : Candidate) : Header := x.rest.getLastD x.first

end Candidate

namespace Chain

/-- Skip the headers at the front that are stored, counting them. -/
def skipKnown (rows : Rows) : (known : Nat) → List Header → Lookup SegmentError (Nat × List Header)
  | known, [] => return (known, [])
  | known, h :: rest => do
    if ← (rows.hasHeader h.hash).inChain.blame known then
      skipKnown rows (known + 1) rest
    else return (known, h :: rest)

/-- Hold each header against the rule and the one before it. -/
def obey (rule : Rule) : (index : Nat) → (parent : Header) → List Header → Outcome SegmentError Unit
  | _, _, [] => .ok ()
  | index, parent, h :: rest => do
    (rule parent h).mapError fun e => ⟨index, .validation e⟩
    obey rule (index + 1) h rest

/-- Check a segment and find its new headers; `none` if there are none. -/
def prepare (c : Chain) (segment : List Header) : Lookup SegmentError (Option Candidate) := do
  match Segment.check segment with
  | .error (index, e) => .fail ⟨index, .validation e⟩
  | .ok () =>
    match ← skipKnown c.store.rows 0 segment with
    | (_, []) => return none
    | (known, first :: rest) =>
      match ← (c.store.source.header? first.parentHash).inChain.blame known with
      | none => .fail ⟨known, .unknownParent first.parentHash⟩
      | some parent =>
        .done (obey c.rule known parent (first :: rest))
        return some { known, parent, first, rest }

/-- The lowest height at which a fork may leave the canonical chain: that of
the last frozen header. -/
def retainedFrom : Lookup ChainError Nat := do
  return (← frozenCount.inChain) - 1

/-- Race the new headers against the canonical chain and give the verdict. -/
def judge (c : Chain) (x : Candidate) : Lookup ChainError Assessment := do
  let source := c.store.source
  let retained ← retainedFrom
  let fork ← ForkPoint.search source x.parent.hash retained
  let headTotal ← source.totalOf c.headBlock.hash
  let parentTotal ← source.totalOf x.parent.hash
  let race ← Race.run source fork c.headBlock.number parentTotal x.headers
  match race.failure with
  | some e => .fail e
  | none =>
    return {
      fork
      known := x.known
      standings := race.standings
      head := c.headBlock
      headTotal
      gate := c.gate.curve?
      verdict := Verdict.ofStandings c.gate.curve? fork.header race.standings headTotal }

/-- What to do with a segment; `none` if every header is already stored. -/
def assessment (c : Chain) (segment : List Header) :
    Lookup SegmentError (Option (Candidate × Assessment)) := do
  match ← c.prepare segment with
  | none => return none
  | some x => return some (x, ← (c.judge x).blame x.known)

/-- Assess a segment without writing anything. -/
def assess (c : Chain) (segment : List Header) : Outcome SegmentError (Option Assessment) :=
  (c.store.answer (c.assessment segment)).map fun found? => found?.map (·.2)

end Chain

end ForkChoice
