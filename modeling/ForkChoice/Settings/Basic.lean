/-
ForkChoice/Settings/Basic.lean

The settings of a chain and the conditions on them.

`Settings.check` names the first setting, in the order in which they are
declared, that is out of its range.  The format in which a node logs is named
apart from them (`LogStyle`).
-/
import ForkChoice.Curve
import ForkChoice.Retarget

namespace ForkChoice

/-! ### Settings -/

/-- The settings of a chain. -/
structure Settings where
  gate : Gate := {}
  retarget : Retarget := {}
  /-- How many events a slow subscriber may fall behind. -/
  eventCapacity : UInt64 := 256

instance : Inhabited Settings := ⟨{}⟩

/-- A setting whose range is limited. -/
inductive Setting where
  | ceiling
  | sinusoidPeriod
  | exponentialScale
  | boundDivisor
  | durationLimit
  | minimum
  | maxDecrease
  | eventCapacity
deriving DecidableEq

/-- The name of a setting. -/
def Setting.name : Setting → String
  | ceiling => "finality.ceiling"
  | sinusoidPeriod => "finality.sinusoid_period"
  | exponentialScale => "finality.exponential_scale"
  | boundDivisor => "difficulty.bound_divisor"
  | durationLimit => "difficulty.duration_limit"
  | minimum => "difficulty.minimum"
  | maxDecrease => "difficulty.max_decrease"
  | eventCapacity => "event_capacity"

/-- What is asked of a setting. -/
def Setting.demand : Setting → String
  | ceiling => "must be a finite value >= 1"
  | maxDecrease => "must not be negative"
  | _ => "must be positive"

/-- Why settings cannot be used. -/
inductive SettingsError where
  /-- The text is missing, or is not text at all. -/
  | unreadable
  /-- The text does not describe settings. -/
  | malformed
  /-- A setting is out of its range. -/
  | invalid (setting : Setting)
deriving DecidableEq

/-- The text of an error in settings. -/
def SettingsError.message : SettingsError → String
  | unreadable => "failed to read config file"
  | malformed => "failed to parse config"
  | invalid setting => "invalid config value `" ++ setting.name ++ "`: " ++ setting.demand

/-! ### Conditions -/

/-- Ask a condition of a setting. -/
def Setting.ensure (setting : Setting) (condition : Bool) : Except SettingsError Unit :=
  if condition then .ok () else .error (.invalid setting)

/-- The gate's parameters are finite, the ceiling at least 1 and the times
positive. -/
def Gate.check (g : Gate) : Except SettingsError Unit := do
  Setting.ceiling.ensure (Binary64.isFinite g.ceiling && !decide (g.ceiling < 1.0))
  Setting.sinusoidPeriod.ensure
    (Binary64.isFinite g.sinusoidPeriod && !decide (g.sinusoidPeriod ≤ 0.0))
  Setting.exponentialScale.ensure
    (Binary64.isFinite g.exponentialScale && !decide (g.exponentialScale ≤ 0.0))

/-- The divisors and the least difficulty are positive, and the greatest
decrease is not negative. -/
def Retarget.check (r : Retarget) : Except SettingsError Unit := do
  Setting.boundDivisor.ensure (r.boundDivisor ≠ 0)
  Setting.durationLimit.ensure (r.durationLimit ≠ 0)
  Setting.minimum.ensure (r.minimum ≠ 0)
  Setting.maxDecrease.ensure (0 ≤ r.maxDecrease)

/-- All settings are in range. -/
def Settings.check (s : Settings) : Except SettingsError Unit := do
  s.gate.check
  s.retarget.check
  Setting.eventCapacity.ensure (s.eventCapacity ≠ 0)

/-! ### Logging -/

/-- How log lines are written. -/
inductive LogStyle where
  /-- For people. -/
  | pretty
  /-- For programs: one JSON object a line. -/
  | json
deriving DecidableEq, Inhabited

/-- The format with a name.  The case of its letters does not matter, and any
other name stands for the format for people.  No letter outside ASCII has one of
the letters of `json` as its lowercase form. -/
def LogStyle.ofName (name : String) : LogStyle :=
  if name.toList.map Char.toLower = "json".toList then json else pretty

end ForkChoice
