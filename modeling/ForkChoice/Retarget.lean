/-
ForkChoice/Retarget.lean

The difficulty that a header must have, given its parent and its timestamp.

The time since the parent is counted in whole windows.  A header within the
first window raises the difficulty by one step, each window more lowers it by
one, and no header lowers it by more than a set number of steps; a step is a
fixed fraction of the parent's difficulty.  The result stays between the least
difficulty of the chain and the greatest there is.
-/
import ForkChoice.Header.Basic

namespace ForkChoice

/-- The parameters of the adjustment. -/
structure Retarget where
  /-- A step is the parent's difficulty divided by this. -/
  boundDivisor : Difficulty := 2048
  /-- The length of a window in seconds. -/
  durationLimit : UInt64 := 10
  /-- The least difficulty of a header. -/
  minimum : Difficulty := 131072
  /-- The greatest number of steps down, a signed number of 128 bits. -/
  maxDecrease : Int := 99
deriving DecidableEq

instance : Inhabited Retarget := ⟨{}⟩

namespace Retarget

/-- The least signed number of 128 bits, which has no negation. -/
def leastSigned : Int := -(2 ^ 127)

/-- How many steps up (or, if negative, down) a header goes that comes
`elapsed` seconds after its parent. -/
def adjustment (r : Retarget) (elapsed : Nat) : Checked Int :=
  if r.durationLimit = 0 then .error .divisionByZero
  else if r.maxDecrease = leastSigned then .error .negationOverflow
  else .ok (max (1 - ((elapsed / r.durationLimit.toNat : Nat) : Int)) (-r.maxDecrease))

/-- Move a difficulty by a number of steps. -/
def shift (difficulty step : Difficulty) (steps : Int) : Difficulty :=
  if 0 ≤ steps then difficulty.plus (step.times steps.natAbs)
  else difficulty.minus (step.times steps.natAbs)

/-- The difficulty of a child of `parent` with the given timestamp.  A
timestamp before the parent's counts as no time at all. -/
def required (r : Retarget) (parent : Header) (timestamp : UInt64) : Checked Difficulty := do
  let steps ← r.adjustment (timestamp.toNat - parent.timestamp.toNat)
  if r.boundDivisor = 0 then .error .divisionByZero
  else
    let step := Difficulty.capped (parent.difficulty.toNat / r.boundDivisor.toNat)
    let next := shift parent.difficulty step steps
    return if next < r.minimum then r.minimum else next

end Retarget

end ForkChoice
