/-
ForkChoice/Json/Number.lean

What a JSON number stands for.

As an integer it has neither point nor exponent, and has to be in range.  As a
double it is read in two steps, which is not always the nearest double: the
leading digits that fit 64 bits are converted, and the result is multiplied or
divided by a power of ten.  Digits that no longer fit count as zeros.  A number
too large for a double is refused; one too small becomes zero.
-/
import ForkChoice.Binary64.Basic
import ForkChoice.Json.Value

namespace ForkChoice.Json.Numeral

/-! ### Integers -/

/-- The number is written as an integer. -/
def isInteger (n : Numeral) : Bool := n.decimals.isEmpty && n.exponent.isNone

/-- An integer without a sign, at most `greatest`. -/
def natural? (greatest : Nat) (n : Numeral) : Option Nat :=
  if n.isInteger && !n.negative && digitsValue n.whole ≤ greatest then some (digitsValue n.whole)
  else none

/-- A signed integer of 128 bits. -/
def integer? (n : Numeral) : Option Int :=
  let magnitude := digitsValue n.whole
  if !n.isInteger then none
  else if n.negative then if magnitude ≤ 2 ^ 127 then some (-(magnitude : Int)) else none
  else if magnitude < 2 ^ 127 then some magnitude else none

/-! ### Doubles -/

/-- The leading digits as a number of 64 bits, the number of digits taken
after those already in it, and the digits that no longer fit. -/
def leading (significand taken : Nat) : List Nat → Nat × Nat × List Nat
  | [] => (significand, taken, [])
  | d :: rest =>
    if significand * 10 + d < 2 ^ 64 then leading (significand * 10 + d) (taken + 1) rest
    else (significand, taken, d :: rest)

/-- Multiply or divide a double by a power of ten, by steps of `10 ^ 308`;
`none` if the result is too large.  Zero stays zero. -/
def scale? : (steps : Nat) → Float → (exponent : Int) → Option Float
  | 0, _, _ => none
  | steps + 1, x, exponent =>
    if exponent.natAbs ≤ 308 then
      let power := Binary64.ofNat (10 ^ exponent.natAbs)
      if 0 ≤ exponent then
        let y := x * power
        if Binary64.isFinite y then some y else none
      else some (x / power)
    else if x == Binary64.ofNat 0 then some x
    else if 0 ≤ exponent then none
    else scale? steps (x / Binary64.ofNat (10 ^ 308)) (exponent + 308)

/-- The double that a number is read as.  An exponent beyond 32 bits makes zero
of a number, or refuses it if it is not zero and the exponent positive. -/
def double? (n : Numeral) : Option Float :=
  let (whole, _, restWhole) := leading 0 0 n.whole
  let (significand, taken, _) := leading whole 0 n.decimals
  let written : Int := match n.exponent with
    | none => 0
    | some (minus, digits) => if minus then -(digitsValue digits : Int) else digitsValue digits
  let magnitude :=
    if 2 ^ 31 ≤ written.natAbs then
      if significand ≠ 0 ∧ 0 ≤ written then none else some (Binary64.ofNat 0)
    else
      let exponent := (restWhole.length : Int) - taken + written
      scale? (exponent.natAbs / 308 + 1) (Binary64.ofNat significand) exponent
  magnitude.map fun x => if n.negative then -x else x

end ForkChoice.Json.Numeral
