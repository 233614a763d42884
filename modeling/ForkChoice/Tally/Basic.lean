/-
ForkChoice/Tally/Basic.lean

What a chain counts: verdicts, failures, the height of its head and the depths
of its reorganisations.
-/
import ForkChoice.Verdict

namespace ForkChoice

/-- The counters of a chain. -/
structure Tally where
  /-- Segments that reached a verdict. -/
  segmentsEvaluated : Nat := 0
  headSwitches : Nat := 0
  sideChains : Nat := 0
  /-- Segments refused by the gate. -/
  rejections : Nat := 0
  /-- Segments with no usable parent or fork point. -/
  unknownAncestors : Nat := 0
  /-- Segments with a header that is not valid. -/
  validationFailures : Nat := 0
  /-- The height of the head, as a signed number of 64 bits. -/
  headNumber : Int64 := 0
  /-- How many canonical headers each head switch retired, in order. -/
  reorgDepths : List Float := []

instance : Inhabited Tally := ⟨{}⟩

namespace Tally

/-- Count a verdict. -/
def countVerdict (t : Tally) (v : Verdict) : Tally :=
  let t := { t with segmentsEvaluated := t.segmentsEvaluated + 1 }
  match v with
  | .headSwitch => { t with headSwitches := t.headSwitches + 1 }
  | .sideChain => { t with sideChains := t.sideChains + 1 }
  | .rejected _ => { t with rejections := t.rejections + 1 }

/-- Count a segment with no usable parent or fork point. -/
def countUnknownAncestor (t : Tally) : Tally :=
  { t with unknownAncestors := t.unknownAncestors + 1 }

/-- Count a segment with a header that is not valid. -/
def countValidationFailure (t : Tally) : Tally :=
  { t with validationFailures := t.validationFailures + 1 }

/-- Count the failure of a segment by its cause. -/
def countFailure (t : Tally) (e : ChainError) : Tally :=
  match e with
  | .validation _ => t.countValidationFailure
  | .unknownAncestor .. => t.countUnknownAncestor
  | .unknownParent _ => t.countUnknownAncestor
  | _ => t

/-- Note the height of the head; heights from 2^63 on come out negative. -/
def setHead (t : Tally) (number : UInt64) : Tally :=
  { t with headNumber := number.toInt64 }

/-- Note the depth of a reorganisation. -/
def observeReorg (t : Tally) (depth : Float) : Tally :=
  { t with reorgDepths := t.reorgDepths ++ [depth] }

/-- The number of reorganisations noted. -/
def reorgCount (t : Tally) : Nat := t.reorgDepths.length

/-- The sum of their depths, added up in order. -/
def reorgSum (t : Tally) : Float := t.reorgDepths.foldl (· + ·) 0.0

/-- The number of reorganisations no deeper than a bound. -/
def reorgsWithin (t : Tally) (bound : Float) : Nat := t.reorgDepths.countP (· ≤ bound)

end Tally

end ForkChoice
