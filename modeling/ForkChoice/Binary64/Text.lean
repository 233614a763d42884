/-
ForkChoice/Binary64/Text.lean

Doubles as decimal text, from their exact values.

`fixed` writes a set number of decimals and `scientific` a set number of
digits with a power of ten, both rounded to the nearest and at a tie to the
even digit.  `shortest` writes the fewest digits that no other double is
nearer to, always without an exponent.
-/
import ForkChoice.Binary64.Basic

namespace ForkChoice.Binary64

/-! ### Exact decimals -/

/-- The fraction `mantissa · 2 ^ exponent · 10 ^ shift`. -/
def fraction (mantissa : Nat) (exponent shift : Int) : Nat × Nat :=
  (mantissa * 2 ^ exponent.toNat * 10 ^ shift.toNat, 2 ^ (-exponent).toNat * 10 ^ (-shift).toNat)

/-- The number of decimal digits of a natural number. -/
def digitCount (n : Nat) : Nat := (Nat.toDigits 10 n).length

/-- The power of ten in front of the first digit of a positive fraction: the
greatest `k` with `10 ^ k ≤ num / den`. -/
def leadingPower (num den : Nat) : Int :=
  if den ≤ num then (digitCount (num / den) : Int) - 1
  else -(digitCount ((den + num - 1) / num - 1) : Int)

/-- The digits of a natural number with a decimal point before the last
`places`, filled up with zeros in front. -/
def pointed (n places : Nat) : String :=
  let digits := Nat.toDigits 10 n
  let padded := List.replicate (places + 1 - digits.length) '0' ++ digits
  let whole := padded.length - places
  if places = 0 then String.ofList padded
  else String.ofList (padded.take whole ++ '.' :: padded.drop whole)

/-- The sign in front of a number. -/
def sign (negative : Bool) : String := if negative then "-" else ""

/-- The texts of the doubles that are not numbers. -/
def unbounded (negative : Bool) : String := sign negative ++ "inf"
def undefined : String := "NaN"

/-! ### Rounded texts -/

/-- A double with a set number of decimals. -/
def fixed (places : Nat) (x : Float) : String :=
  match read x with
  | .nan => undefined
  | .infinite negative => unbounded negative
  | .finite negative mantissa exponent =>
    let (num, den) := fraction mantissa exponent places
    sign negative ++ pointed (roundQuotient num den) places

/-- A double with one digit before the point, a set number behind it and a
power of ten. -/
def scientific (places : Nat) (x : Float) : String :=
  match read x with
  | .nan => undefined
  | .infinite negative => unbounded negative
  | .finite negative mantissa exponent =>
    if mantissa = 0 then sign negative ++ pointed 0 places ++ "e0"
    else
      let (num, den) := fraction mantissa exponent 0
      let power := leadingPower num den
      let (num, den) := fraction mantissa exponent (places - power)
      let digits := roundQuotient num den
      if digits = 10 ^ (places + 1) then
        sign negative ++ pointed (10 ^ places) places ++ "e" ++ (power + 1).repr
      else sign negative ++ pointed digits places ++ "e" ++ power.repr

/-! ### Shortest text -/

/-- The numbers that round to a double, as multiples of a quarter of its last
place: the bounds are half a place away, or a quarter below a power of two, and
belong to the range if the mantissa is even. -/
structure Neighbourhood where
  low : Nat
  high : Nat
  closed : Bool

/-- The neighbourhood of `mantissa · 2 ^ exponent`, in units of `2 ^ (exponent - 2)`. -/
def neighbourhood (mantissa : Nat) (exponent : Int) : Neighbourhood where
  low := 4 * mantissa - (if mantissa = 2 ^ 52 ∧ exponent ≠ -1074 then 1 else 2)
  high := 4 * mantissa + 2
  closed := mantissa % 2 = 0

/-- The fraction `num / den` lies in a neighbourhood. -/
def Neighbourhood.has (n : Neighbourhood) (num den : Nat) : Bool :=
  if n.closed then n.low * den ≤ num && num ≤ n.high * den
  else n.low * den < num && num < n.high * den

/-- The multiple of `10 ^ grid` next to `mantissa · 2 ^ exponent` that rounds to
it, if there is one: the nearer of two, and the greater at a tie. -/
def gridPoint? (mantissa : Nat) (exponent grid : Int) : Option Nat :=
  let n := neighbourhood mantissa exponent
  let (num, den) := fraction mantissa exponent (-grid)
  let below := num / den
  let inside (point : Nat) : Bool :=
    -- `point · 10 ^ grid` in units of `2 ^ (exponent - 2)`
    let (p, q) := fraction point (2 - exponent) grid
    n.has p q
  match inside below, inside (below + 1) with
  | true, true => if 2 * (num % den) < den then some below else some (below + 1)
  | true, false => some below
  | false, true => some (below + 1)
  | false, false => none

/-- The first grid with a point, trying ever finer ones. -/
def firstGrid (mantissa : Nat) (exponent : Int) : (tries : Nat) → (grid : Int) → Nat × Int
  | 0, grid => (0, grid)
  | tries + 1, grid =>
    match gridPoint? mantissa exponent grid with
    | some point => (point, grid)
    | none => firstGrid mantissa exponent tries (grid - 1)

/-- Drop zeros at the end of a fraction's digits. -/
def dropZeros : (point places : Nat) → Nat × Nat
  | point, 0 => (point, 0)
  | point, places + 1 =>
    if point % 10 = 0 then dropZeros (point / 10) places else (point, places + 1)

/-- The fewest digits that read back as the double, without an exponent.
Seventeen digits always suffice. -/
def shortest (x : Float) : String :=
  match read x with
  | .nan => undefined
  | .infinite negative => unbounded negative
  | .finite negative mantissa exponent =>
    if mantissa = 0 then sign negative ++ "0"
    else
      let (num, den) := fraction mantissa exponent 0
      let (point, grid) := firstGrid mantissa exponent 18 (leadingPower num den)
      let (point, places) := dropZeros point (-grid).toNat
      sign negative ++ pointed (point * 10 ^ grid.toNat) places

end ForkChoice.Binary64
