/-
ForkChoice/Curve.lean

How much more work a fork must carry, the longer it has been diverging.

A curve gives the least ratio of candidate work to canonical work after a time.
Both curves start at 1 and rise towards a ceiling.  The sinusoid is half a wave
from trough to crest and flat from there on; the exponential nears the ceiling
as `1 - e ^ -(x / scale)²`.  All sums and products are those of doubles, in
the order in which they are written here.
-/
import ForkChoice.Binary64.Basic

namespace ForkChoice

/-! ### Curves -/

/-- The shape of a curve. -/
inductive Shape where
  | sinusoidal
  | exponential
deriving DecidableEq, Inhabited

/-- The name of a shape in settings. -/
def Shape.name : Shape → String
  | sinusoidal => "sinusoidal"
  | exponential => "exponential"

/-- The shape with a name. -/
def Shape.ofName? (name : String) : Option Shape :=
  if name = "sinusoidal" then some sinusoidal
  else if name = "exponential" then some exponential
  else none

/-- A curve with its parameters. -/
inductive Curve where
  /-- Half a wave of an amplitude, lasting pi periods. -/
  | sinusoidal (amplitude period : Float)
  /-- A saturation towards a ceiling, on a scale of time. -/
  | exponential (ceiling scale : Float)

namespace Curve

/-- A half wave from 1 to a ceiling. -/
def wave (ceiling period : Float) : Curve := .sinusoidal ((ceiling - 1.0) / 2.0) period

/-- The shape of a curve. -/
def shape : Curve → Shape
  | sinusoidal .. => .sinusoidal
  | exponential .. => .exponential

/-- The time at which a half wave of a period reaches its crest. -/
def crest (period : Float) : Float := Binary64.pi * period

/-- Negative times, and what is no time, count as none. -/
def clampElapsed (elapsed : Float) : Float :=
  if elapsed.isNaN || elapsed < 0.0 then 0.0 else elapsed

/-- The least ratio that a fork must reach which has been diverging for
`elapsed` seconds. -/
def required (curve : Curve) (elapsed : Float) : Float :=
  match curve with
  | sinusoidal amplitude period =>
    let x := Binary64.least (clampElapsed elapsed) (crest period)
    let phase := (x + 1.5 * Binary64.pi * period) / period
    amplitude * Binary64.sin phase + amplitude + 1.0
  | exponential ceiling scale =>
    let x := clampElapsed elapsed / scale
    1.0 + (ceiling - 1.0) * (1.0 - Binary64.exp (-(x * x)))

end Curve

/-! ### The gate -/

/-- The settings of the finality gate.  While it is enabled, a fork that takes
over the head must reach the ratio that the curve requires. -/
structure Gate where
  enabled : Bool := false
  shape : Shape := .sinusoidal
  /-- The ratio that both curves rise to. -/
  ceiling : Float := 31.0
  /-- The period of the sinusoid, in seconds. -/
  sinusoidPeriod : Float := 1500.0
  /-- The time scale of the exponential, in seconds. -/
  exponentialScale : Float := 3000.0

instance : Inhabited Gate := ⟨{}⟩

namespace Gate

/-- The curve that is set, enabled or not. -/
def curve (g : Gate) : Curve :=
  match g.shape with
  | .sinusoidal => .wave g.ceiling g.sinusoidPeriod
  | .exponential => .exponential g.ceiling g.exponentialScale

/-- The curve in force, if the gate is enabled. -/
def curve? (g : Gate) : Option Curve := if g.enabled then some g.curve else none

end Gate

/-- The curve of a shape with the default parameters. -/
def Curve.standard (shape : Shape) : Curve := Gate.curve { shape }

end ForkChoice
