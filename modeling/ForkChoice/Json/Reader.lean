/-
ForkChoice/Json/Reader.lean

Reading JSON text.

The grammar is the usual one: four blank characters, no leading zeros, at
least one digit behind a point, no control characters in strings, no trailing
commas.  Each reader takes the characters still to be read and hands back what
it read with the rest.  The readers of values call one another; every call
spends one unit of a budget, and twice the length of the text always suffices,
as each second call takes a character.
-/
import ForkChoice.Bytes
import ForkChoice.Json.Value

namespace ForkChoice.Json

/-! ### Characters -/

/-- Space, tab, line feed and carriage return. -/
def isBlank (c : Char) : Bool := c = ' ' || c = '\t' || c = '\n' || c = '\r'

/-- What follows leading blanks. -/
def skipBlank (cs : List Char) : List Char := cs.dropWhile isBlank

/-- The value of a decimal digit. -/
def digit? (c : Char) : Option Nat :=
  if '0' ≤ c ∧ c ≤ '9' then some (c.toNat - 48) else none

/-- What a one-letter escape stands for. -/
def escape? (c : Char) : Option Char :=
  match c with
  | '"' => some '"'
  | '\\' => some '\\'
  | '/' => some '/'
  | 'b' => some '\x08'
  | 'f' => some '\x0c'
  | 'n' => some '\n'
  | 'r' => some '\r'
  | 't' => some '\t'
  | _ => none

/-! ### Strings -/

/-- Read a string behind its opening quote. -/
def readText? : List Char → Option (Text × List Char)
  | [] => none
  | '"' :: rest => some ([], rest)
  | '\\' :: 'u' :: a :: b :: c :: d :: rest => do
    let a ← Bytes.hexValue? a
    let b ← Bytes.hexValue? b
    let c ← Bytes.hexValue? c
    let d ← Bytes.hexValue? d
    let (text, rest) ← readText? rest
    return (.unit (((a * 16 + b) * 16 + c) * 16 + d) :: text, rest)
  | '\\' :: e :: rest => do
    let e ← escape? e
    let (text, rest) ← readText? rest
    return (.char e :: text, rest)
  | c :: rest =>
    if c = '\\' ∨ c < ' ' then none
    else do
      let (text, rest) ← readText? rest
      return (.char c :: text, rest)

/-! ### Numbers -/

/-- The digits at the front, and what follows them. -/
def readDigits : List Char → List Nat × List Char
  | [] => ([], [])
  | c :: rest =>
    match digit? c with
    | none => ([], c :: rest)
    | some d =>
      let (ds, rest) := readDigits rest
      (d :: ds, rest)

/-- At least one digit. -/
def readDigits? (cs : List Char) : Option (List Nat × List Char) :=
  match readDigits cs with
  | ([], _) => none
  | (digits, rest) => some (digits, rest)

/-- The digits before the point: a zero stands alone. -/
def readWhole? (cs : List Char) : Option (List Nat × List Char) :=
  match readDigits cs with
  | ([], _) => none
  | (0 :: _ :: _, _) => none
  | (digits, rest) => some (digits, rest)

/-- The point and the digits behind it, if there is one. -/
def readDecimals? : List Char → Option (List Nat × List Char)
  | '.' :: rest => readDigits? rest
  | cs => some ([], cs)

/-- The digits of an exponent, with their sign. -/
def readSigned? : List Char → Option ((Bool × List Nat) × List Char)
  | '+' :: rest => (readDigits? rest).map fun (digits, rest) => ((false, digits), rest)
  | '-' :: rest => (readDigits? rest).map fun (digits, rest) => ((true, digits), rest)
  | cs => (readDigits? cs).map fun (digits, rest) => ((false, digits), rest)

/-- The exponent, if there is one. -/
def readExponent? : List Char → Option (Option (Bool × List Nat) × List Char)
  | [] => some (none, [])
  | c :: rest =>
    if c = 'e' ∨ c = 'E' then (readSigned? rest).map fun (exponent, rest) => (some exponent, rest)
    else some (none, c :: rest)

/-- Read a number behind its sign. -/
def readUnsigned? (negative : Bool) (cs : List Char) : Option (Numeral × List Char) := do
  let (whole, cs) ← readWhole? cs
  let (decimals, cs) ← readDecimals? cs
  let (exponent, cs) ← readExponent? cs
  return (⟨negative, whole, decimals, exponent⟩, cs)

/-- Read a number. -/
def readNumeral? : List Char → Option (Numeral × List Char)
  | '-' :: rest => readUnsigned? true rest
  | cs => readUnsigned? false cs

/-! ### Values -/

mutual

/-- Read a value, blanks in front of it included. -/
def readValue? : (budget : Nat) → List Char → Option (Json × List Char)
  | 0, _ => none
  | budget + 1, cs =>
    match skipBlank cs with
    | 'n' :: 'u' :: 'l' :: 'l' :: rest => some (.null, rest)
    | 't' :: 'r' :: 'u' :: 'e' :: rest => some (.bool true, rest)
    | 'f' :: 'a' :: 'l' :: 's' :: 'e' :: rest => some (.bool false, rest)
    | '"' :: rest => (readText? rest).map fun (text, rest) => (.string text, rest)
    | '[' :: rest =>
      match skipBlank rest with
      | ']' :: rest => some (.array [], rest)
      | rest => (readElements? budget rest).map fun (elements, rest) => (.array elements, rest)
    | '{' :: rest =>
      match skipBlank rest with
      | '}' :: rest => some (.object [], rest)
      | rest => (readMembers? budget rest).map fun (members, rest) => (.object members, rest)
    | cs => (readNumeral? cs).map fun (numeral, rest) => (.number numeral, rest)

/-- Read the elements of an array up to its closing bracket; there is at least
one. -/
def readElements? : (budget : Nat) → List Char → Option (List Json × List Char)
  | 0, _ => none
  | budget + 1, cs => do
    let (element, rest) ← readValue? budget cs
    match skipBlank rest with
    | ',' :: rest =>
      let (elements, rest) ← readElements? budget rest
      return (element :: elements, rest)
    | ']' :: rest => return ([element], rest)
    | _ => none

/-- Read the members of an object up to its closing brace; there is at least
one. -/
def readMembers? : (budget : Nat) → List Char → Option (List (Text × Json) × List Char)
  | 0, _ => none
  | budget + 1, cs =>
    match skipBlank cs with
    | '"' :: rest => do
      let (key, rest) ← readText? rest
      match skipBlank rest with
      | ':' :: rest =>
        let (value, rest) ← readValue? budget rest
        match skipBlank rest with
        | ',' :: rest =>
          let (members, rest) ← readMembers? budget rest
          return ((key, value) :: members, rest)
        | '}' :: rest => return ([(key, value)], rest)
        | _ => none
      | _ => none
    | _ => none

end

/-- Read a text that holds one value and blanks. -/
def read? (text : String) : Option Json :=
  let cs := text.toList
  match readValue? (2 * cs.length + 2) cs with
  | some (value, rest) => if (skipBlank rest).isEmpty then some value else none
  | none => none

end ForkChoice.Json
