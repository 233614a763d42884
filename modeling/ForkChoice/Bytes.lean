/-
ForkChoice/Bytes.lean

Byte strings, and the numbers written in them with a fixed width.

`ofNatLE w n` writes `n` in `w` bytes, least significant first, and
`toNatLE` reads it back (`toNatLE_ofNatLE`); `ofNatBE` and `toNatBE` are the
same with the most significant byte first, the order in which comparing byte
strings compares the numbers.  `hex` writes two lowercase digits a byte.
-/
import ForkChoice.Outcome

namespace ForkChoice

/-- A byte string. -/
abbrev Bytes : Type := List UInt8

namespace Bytes

/-! ### Numbers of a fixed width -/

/-- The last `width` digits of `n` in base 256, least significant first. -/
def ofNatLE : (width : Nat) → (n : Nat) → Bytes
  | 0, _ => []
  | width + 1, n => n.toUInt8 :: ofNatLE width (n / 256)

/-- The number whose digits in base 256 these are, least significant first. -/
def toNatLE (digits : Bytes) : Nat :=
  digits.foldr (fun digit rest => digit.toNat + 256 * rest) 0

/-- The last `width` digits of `n` in base 256, most significant first. -/
def ofNatBE (width n : Nat) : Bytes :=
  (ofNatLE width n).reverse

/-- The number whose digits in base 256 these are, most significant first. -/
def toNatBE (digits : Bytes) : Nat :=
  toNatLE digits.reverse

@[simp] theorem length_ofNatLE (width n : Nat) : (ofNatLE width n).length = width := by
  induction width generalizing n with
  | zero => rfl
  | succ width ih => simp [ofNatLE, ih]

@[simp] theorem length_ofNatBE (width n : Nat) : (ofNatBE width n).length = width := by
  simp [ofNatBE]

/-- The low byte of a number is its remainder by 256. -/
theorem toNat_toUInt8 (n : Nat) : n.toUInt8.toNat = n % 256 := by
  simp [Nat.toUInt8]

theorem toNatLE_lt (digits : Bytes) : toNatLE digits < 256 ^ digits.length := by
  induction digits with
  | nil => decide
  | cons digit rest ih =>
    have := digit.toNat_lt
    simp only [toNatLE, List.foldr_cons, List.length_cons, Nat.pow_succ] at *
    omega

theorem toNatLE_ofNatLE (width n : Nat) (h : n < 256 ^ width) :
    toNatLE (ofNatLE width n) = n := by
  induction width generalizing n with
  | zero => simp only [Nat.pow_zero] at h; simp [ofNatLE, toNatLE]; omega
  | succ width ih =>
    have small : n / 256 < 256 ^ width := by
      rw [Nat.div_lt_iff_lt_mul (by decide)]
      simpa [Nat.pow_succ] using h
    have step : toNatLE (ofNatLE (width + 1) n)
        = n.toUInt8.toNat + 256 * toNatLE (ofNatLE width (n / 256)) := rfl
    rw [step, ih _ small, toNat_toUInt8]
    exact Nat.mod_add_div n 256

theorem ofNatLE_toNatLE (digits : Bytes) :
    ofNatLE digits.length (toNatLE digits) = digits := by
  induction digits with
  | nil => rfl
  | cons digit rest ih =>
    have hlt := digit.toNat_lt
    have hval : toNatLE (digit :: rest) = digit.toNat + 256 * toNatLE rest := rfl
    have hdiv : (digit.toNat + 256 * toNatLE rest) / 256 = toNatLE rest := by omega
    have hmod : (digit.toNat + 256 * toNatLE rest).toUInt8 = digit := by
      apply UInt8.toNat_inj.mp
      rw [toNat_toUInt8]
      omega
    simp only [List.length_cons, ofNatLE, hval, hdiv, hmod, ih]

theorem toNatBE_ofNatBE (width n : Nat) (h : n < 256 ^ width) :
    toNatBE (ofNatBE width n) = n := by
  simp [toNatBE, ofNatBE, toNatLE_ofNatLE width n h]

/-! ### Hexadecimal text -/

/-- The lowercase digit of a number below 16. -/
def hexDigit (n : Nat) : Char :=
  if n < 10 then Char.ofNat (48 + n) else Char.ofNat (87 + n)

/-- Two lowercase digits for every byte. -/
def hex (bytes : Bytes) : String :=
  String.ofList (bytes.flatMap fun b => [hexDigit (b.toNat / 16), hexDigit (b.toNat % 16)])

/-- The value of a hexadecimal digit, either case. -/
def hexValue? (c : Char) : Option Nat :=
  if '0' ≤ c ∧ c ≤ '9' then some (c.toNat - 48)
  else if 'a' ≤ c ∧ c ≤ 'f' then some (c.toNat - 87)
  else if 'A' ≤ c ∧ c ≤ 'F' then some (c.toNat - 55)
  else none

/-- Read pairs of hexadecimal digits; anything else is no byte string. -/
def ofHexDigits? : List Char → Option Bytes
  | [] => some []
  | [_] => none
  | high :: low :: rest => do
    let h ← hexValue? high
    let l ← hexValue? low
    let bytes ← ofHexDigits? rest
    return (16 * h + l).toUInt8 :: bytes

/-- Read pairs of hexadecimal digits. -/
def ofHex? (text : String) : Option Bytes :=
  ofHexDigits? text.toList

end Bytes

end ForkChoice
