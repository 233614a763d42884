/-
ForkChoice/Verdict.lean

What happens to a candidate segment.

The segment takes over the head with the first header whose total difficulty
exceeds the head's; only that header has to reach the ratio of the gate.  Before
it the segment is a side chain, and after it an extension of the new head.  At
equal total difficulty the head stays.
-/
import ForkChoice.Race

namespace ForkChoice

/-! ### Verdicts -/

/-- What happens to a segment. -/
inductive Verdict where
  /-- It becomes the canonical chain. -/
  | headSwitch
  /-- It is stored, and the head stays. -/
  | sideChain
  /-- It is refused, and nothing is stored. -/
  | rejected (rejection : Rejection)

namespace Verdict

def isHeadSwitch : Verdict → Bool
  | headSwitch => true
  | _ => false

def isAccepted : Verdict → Bool
  | rejected _ => false
  | _ => true

/-- The name of a verdict. -/
def label : Verdict → String
  | headSwitch => "head_switch"
  | sideChain => "side_chain"
  | rejected _ => "rejected"

/-- The first header that is heavier than the head. -/
def takeover? (standings : List Standing) (headTotal : Difficulty) : Option Standing :=
  standings.find? fun s => headTotal < s.total

/-- The rejection of a takeover, if a gate is in force and the takeover falls
short of it. -/
def objection? (gate : Option Curve) (ancestor : Header) (takeover : Standing) :
    Option Rejection :=
  match gate with
  | none => none
  | some curve =>
    let required := takeover.required curve
    if takeover.ratio < required then
      some {
        ancestorNumber := ancestor.number
        ancestorHash := ancestor.hash
        number := takeover.number
        hash := takeover.hash
        elapsed := takeover.elapsed
        ratio := takeover.ratio
        required }
    else none

/-- The verdict on a segment, from the standings of its new headers. -/
def ofStandings (gate : Option Curve) (ancestor : Header) (standings : List Standing)
    (headTotal : Difficulty) : Verdict :=
  match takeover? standings headTotal with
  | none => sideChain
  | some takeover =>
    match objection? gate ancestor takeover with
    | some rejection => rejected rejection
    | none => headSwitch

end Verdict

/-! ### Assessments -/

/-- Everything that is found out about a segment before it is stored. -/
structure Assessment where
  fork : ForkPoint
  /-- The number of headers at the front that are already stored. -/
  known : Nat
  /-- One standing for each new header, in order. -/
  standings : List Standing
  head : Header
  headTotal : Difficulty
  /-- The curve of the gate, if it was enabled. -/
  gate : Option Curve
  verdict : Verdict

namespace Assessment

/-- The standing of the last new header. -/
def tip? (a : Assessment) : Option Standing := a.standings.getLast?

/-- The ratio that the gate requires at the tip's time, if it was enabled. -/
def required? (a : Assessment) : Option Float := do
  return (← a.tip?).required (← a.gate)

/-- The number of canonical headers that a takeover retires. -/
def reorgDepth (a : Assessment) : Nat := a.head.number.toNat - a.fork.header.number.toNat

end Assessment

end ForkChoice
