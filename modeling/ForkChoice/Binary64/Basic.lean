/-
ForkChoice/Binary64/Basic.lean

Double-precision numbers taken apart and put together exactly.

`read` gives the value of a double as a sign and `mantissa · 2 ^ exponent`.
`ofNat` is the double nearest to a natural number, a tie going to the even
mantissa.  Sine and exponential are those of the machine on finite arguments
and the limits or NaN elsewhere.
-/
import ForkChoice.Outcome

namespace ForkChoice.Binary64

/-! ### Values -/

/-- What a double stands for. -/
inductive Reading where
  | nan
  | infinite (negative : Bool)
  /-- The number `mantissa · 2 ^ exponent`, or its negative. -/
  | finite (negative : Bool) (mantissa : Nat) (exponent : Int)
deriving DecidableEq

/-- The value of a double. -/
def read (x : Float) : Reading :=
  let bits := x.toBits.toNat
  let negative := decide (2 ^ 63 ≤ bits)
  let field : Nat := bits / 2 ^ 52 % 2 ^ 11
  let fraction : Nat := bits % 2 ^ 52
  if field = 2047 then
    if fraction = 0 then .infinite negative else .nan
  else if field = 0 then .finite negative fraction (-1074)
  else .finite negative (2 ^ 52 + fraction) ((field : Int) - 1075)

/-- A double from its 64 bits. -/
def ofBits (bits : Nat) : Float := Float.ofBits (UInt64.ofNat bits)

def nan : Float := ofBits 0x7ff8000000000000
def infinity : Float := ofBits 0x7ff0000000000000

/-- The greatest finite double. -/
def greatest : Float := ofBits 0x7fefffffffffffff

/-- The double nearest to the circle's ratio of circumference to diameter. -/
def pi : Float := ofBits 0x400921fb54442d18

/-- A double that is neither infinite nor NaN. -/
def isFinite (x : Float) : Bool :=
  match read x with
  | .finite .. => true
  | _ => false

/-! ### Rounding -/

/-- The quotient of two natural numbers rounded to the nearest, a tie going to
the even one. -/
def roundQuotient (num den : Nat) : Nat :=
  let q := num / den
  let twice := 2 * (num % den)
  if twice < den then q else if den < twice then q + 1 else q + q % 2

/-- The double nearest to a natural number below 2^1023. -/
def ofNat (n : Nat) : Float :=
  if n = 0 then ofBits 0
  else
    let top := n.log2
    let mantissa := if top ≤ 52 then n * 2 ^ (52 - top) else roundQuotient n (2 ^ (top - 52))
    ofBits ((top + 1023) * 2 ^ 52 + (mantissa - 2 ^ 52))

/-- The lesser of two doubles; a NaN gives way to the other. -/
def least (x y : Float) : Float :=
  if x.isNaN then y else if y.isNaN then x else if y < x then y else x

/-! ### Sine and exponential -/

/-- The sine, NaN where it has no value. -/
def sin (x : Float) : Float := if isFinite x then x.sin else nan

/-- The exponential, with its limits at the infinities. -/
def exp (x : Float) : Float :=
  match read x with
  | .finite .. => x.exp
  | .infinite true => ofBits 0
  | .infinite false => infinity
  | .nan => nan

end ForkChoice.Binary64
