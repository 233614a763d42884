/-
ForkChoice/Json/Value.lean

JSON values as they are written.

A number keeps its digits, because what it stands for depends on whether it is
read as an integer or as a double.  A string keeps the code units of its
escapes, because a text with a lone surrogate is well-formed JSON and still no
string of characters; `Text.string?` joins surrogate pairs and refuses the rest.
-/

namespace ForkChoice.Json

/-! ### Texts -/

/-- A piece of a written string: a character, or a 16-bit unit from an escape. -/
inductive Piece where
  | char (c : Char)
  | unit (code : Nat)

/-- The pieces of a written string. -/
abbrev Text : Type := List Piece

/-- The characters that a written string stands for.  A high surrogate has to
be followed by a low one, and a low one to follow a high one. -/
def Text.chars? : Text → Option (List Char)
  | [] => some []
  | .char c :: rest => (Text.chars? rest).map (c :: ·)
  | .unit high :: .unit low :: rest =>
    if 0xD800 ≤ high ∧ high < 0xDC00 then
      if 0xDC00 ≤ low ∧ low < 0xE000 then
        let code := 0x10000 + (high - 0xD800) * 0x400 + (low - 0xDC00)
        (Text.chars? rest).map (Char.ofNat code :: ·)
      else none
    else if 0xDC00 ≤ high ∧ high < 0xE000 then none
    else (Text.chars? (.unit low :: rest)).map (Char.ofNat high :: ·)
  | .unit code :: rest =>
    if 0xD800 ≤ code ∧ code < 0xE000 then none
    else (Text.chars? rest).map (Char.ofNat code :: ·)

/-- The string that a written string stands for. -/
def Text.string? (text : Text) : Option String := text.chars?.map String.ofList

/-! ### Numbers -/

/-- A number as written.  Digits are values below ten. -/
structure Numeral where
  negative : Bool
  /-- The digits before the point. -/
  whole : List Nat
  /-- The digits behind the point; none if there is no point. -/
  decimals : List Nat
  /-- The sign (true for minus) and digits of the exponent, if there is one. -/
  exponent : Option (Bool × List Nat)

/-- The number that a list of decimal digits stands for. -/
def digitsValue (digits : List Nat) : Nat :=
  digits.foldl (fun n d => 10 * n + d) 0

/-! ### Values -/

end Json

/-- A JSON value.  Members of an object stand in the order in which they are
written, repetitions included. -/
inductive Json where
  | null
  | bool (b : Bool)
  | number (n : Json.Numeral)
  | string (s : Json.Text)
  | array (elements : List Json)
  | object (members : List (Json.Text × Json))

end ForkChoice
