/-
ForkChoice/Settings/Json.lean

Settings read from JSON.

Settings that are not given keep their defaults, names that are not known do
not count, and what was read has to be in range.
-/
import ForkChoice.Bytes
import ForkChoice.Json.Reader
import ForkChoice.Json.Record
import ForkChoice.Settings.Basic

namespace ForkChoice

/-- Read the settings of the gate. -/
def Gate.ofJson? (value : Json) : Option Gate := do
  let fallback : Gate := {}
  let names := ["enabled", "curve", "ceiling", "sinusoid_period", "exponential_scale"]
  match ← Json.record? names value with
  | [enabled, shape, ceiling, period, scale] =>
    return {
      enabled := ← Json.orElse Json.bool? fallback.enabled enabled
      shape := ← Json.orElse (fun v => Json.caseName? v >>= Shape.ofName?) fallback.shape shape
      ceiling := ← Json.orElse Json.double? fallback.ceiling ceiling
      sinusoidPeriod := ← Json.orElse Json.double? fallback.sinusoidPeriod period
      exponentialScale := ← Json.orElse Json.double? fallback.exponentialScale scale }
  | _ => none

/-- Read the parameters of the difficulty adjustment. -/
def Retarget.ofJson? (value : Json) : Option Retarget := do
  let fallback : Retarget := {}
  let names := ["bound_divisor", "duration_limit", "minimum", "max_decrease"]
  match ← Json.record? names value with
  | [divisor, limit, minimum, decrease] =>
    return {
      boundDivisor := ← Json.orElse Json.difficulty? fallback.boundDivisor divisor
      durationLimit := ← Json.orElse Json.uint64? fallback.durationLimit limit
      minimum := ← Json.orElse Json.difficulty? fallback.minimum minimum
      maxDecrease := ← Json.orElse Json.int128? fallback.maxDecrease decrease }
  | _ => none

namespace Settings

/-- Read the settings of a chain. -/
def ofJson? (value : Json) : Option Settings := do
  let fallback : Settings := {}
  match ← Json.record? ["finality", "difficulty", "event_capacity"] value with
  | [gate, retarget, capacity] =>
    return {
      gate := ← Json.orElse Gate.ofJson? fallback.gate gate
      retarget := ← Json.orElse Retarget.ofJson? fallback.retarget retarget
      eventCapacity := ← Json.orElse Json.uint64? fallback.eventCapacity capacity }
  | _ => none

/-- Settings from a text, checked. -/
def ofText (text : String) : Except SettingsError Settings :=
  match Json.read? text >>= ofJson? with
  | none => .error .malformed
  | some settings =>
    match settings.check with
    | .error e => .error e
    | .ok () => .ok settings

/-- Settings from the bytes of a file in UTF-8; `none` stands for a file that
is not there. -/
def ofFile : Option Bytes → Except SettingsError Settings
  | none => .error .unreadable
  | some bytes =>
    match String.fromUTF8? ⟨bytes.toArray⟩ with
    | none => .error .unreadable
    | some text => ofText text

end Settings

end ForkChoice
