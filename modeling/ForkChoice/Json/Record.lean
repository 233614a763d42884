/-
ForkChoice/Json/Record.lean

Records in JSON: an object with known names, or an array of the values in the
order of the names.

Values may be missing.  An object may hold other names, which do not count, but
none of the known ones twice, and each name has to be a string of characters.
An array may be too short but not too long.
-/
import ForkChoice.Difficulty
import ForkChoice.Json.Number

namespace ForkChoice.Json

/-- The value under a name, if there is one; the outer `none` stands for a name
that occurs twice. -/
def member? (members : List (String × Json)) (name : String) : Option (Option Json) :=
  match members.filter (·.1 = name) with
  | [] => some none
  | [(_, value)] => some (some value)
  | _ => none

/-- The values of a record, in the order of its names. -/
def record? (names : List String) : Json → Option (List (Option Json))
  | .array elements =>
    if elements.length ≤ names.length then
      some (elements.map some ++ List.replicate (names.length - elements.length) none)
    else none
  | .object members => do
    let members ← members.mapM fun (key, value) => do return (← Text.string? key, value)
    names.mapM (member? members)
  | _ => none

/-- Read a value that may be missing. -/
def orElse {α : Type} (read : Json → Option α) (fallback : α) : Option Json → Option α
  | none => some fallback
  | some value => read value

/-! ### Single values -/

def bool? : Json → Option Bool
  | .bool b => some b
  | _ => none

def numeral? : Json → Option Numeral
  | .number n => some n
  | _ => none

/-- A number of at most 64 bits. -/
def uint64? (value : Json) : Option UInt64 := do
  let n ← numeral? value
  return UInt64.ofNat (← n.natural? (2 ^ 64 - 1))

/-- A difficulty. -/
def difficulty? (value : Json) : Option Difficulty := do
  let n ← numeral? value
  Difficulty.ofNat? (← n.natural? (2 ^ 128 - 1))

/-- A signed number of 128 bits. -/
def int128? (value : Json) : Option Int := do
  let n ← numeral? value
  n.integer?

/-- A double. -/
def double? (value : Json) : Option Float := do
  let n ← numeral? value
  n.double?

/-- A string of bytes, as an array of numbers. -/
def bytes? : Json → Option (List UInt8)
  | .array elements => elements.mapM fun value => do
    let n ← numeral? value
    return (← n.natural? 255).toUInt8
  | _ => none

/-- The name of one of several cases: a string, or an object whose one member
has that name and the value null. -/
def caseName? : Json → Option String
  | .string text => text.string?
  | .object [(key, .null)] => key.string?
  | _ => none

end ForkChoice.Json
