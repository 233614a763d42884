/-
ForkChoice/Difficulty.lean

Difficulties: natural numbers below 2^128, with sums and differences that
stay in range by stopping at its ends.

The difficulty of a header, the sum of the difficulties along a path and the
least difficulty that a chain allows are all of this type.  `capped` is the
nearest difficulty to a natural number; `toNat_plus` and `toNat_minus` say what
the two operations are on natural numbers.
-/
import ForkChoice.Outcome

namespace ForkChoice

/-- A difficulty, or a sum of difficulties. -/
@[ext] structure Difficulty where
  toNat : Nat
  toNat_lt : toNat < 2 ^ 128
deriving DecidableEq

namespace Difficulty

/-! ### Making difficulties -/

/-- The greatest difficulty. -/
def greatest : Difficulty := ⟨2 ^ 128 - 1, by decide⟩

/-- The difficulty nearest to a natural number. -/
def capped (n : Nat) : Difficulty := ⟨min n (2 ^ 128 - 1), by omega⟩

/-- A natural number as a difficulty, if it is in range. -/
def ofNat? (n : Nat) : Option Difficulty :=
  if h : n < 2 ^ 128 then some ⟨n, h⟩ else none

instance : Zero Difficulty := ⟨⟨0, by decide⟩⟩

instance (n : Nat) : OfNat Difficulty n := ⟨capped n⟩

instance : Inhabited Difficulty := ⟨0⟩

/-! ### Order -/

instance : LT Difficulty := ⟨fun a b => a.toNat < b.toNat⟩

instance : LE Difficulty := ⟨fun a b => a.toNat ≤ b.toNat⟩

instance (a b : Difficulty) : Decidable (a < b) := inferInstanceAs (Decidable (a.toNat < b.toNat))

instance (a b : Difficulty) : Decidable (a ≤ b) := inferInstanceAs (Decidable (a.toNat ≤ b.toNat))

theorem lt_iff {a b : Difficulty} : a < b ↔ a.toNat < b.toNat := Iff.rfl

theorem le_iff {a b : Difficulty} : a ≤ b ↔ a.toNat ≤ b.toNat := Iff.rfl

/-! ### Sums, differences and products -/

/-- The sum, at most the greatest difficulty. -/
def plus (a b : Difficulty) : Difficulty := capped (a.toNat + b.toNat)

/-- The difference, at least zero. -/
def minus (a b : Difficulty) : Difficulty := ⟨a.toNat - b.toNat, by have := a.toNat_lt; omega⟩

/-- A multiple, at most the greatest difficulty. -/
def times (a : Difficulty) (n : Nat) : Difficulty := capped (a.toNat * n)

@[simp] theorem toNat_capped (n : Nat) : (capped n).toNat = min n (2 ^ 128 - 1) := rfl

@[simp] theorem toNat_plus (a b : Difficulty) :
    (a.plus b).toNat = min (a.toNat + b.toNat) (2 ^ 128 - 1) := rfl

@[simp] theorem toNat_minus (a b : Difficulty) : (a.minus b).toNat = a.toNat - b.toNat := rfl

@[simp] theorem toNat_times (a : Difficulty) (n : Nat) :
    (a.times n).toNat = min (a.toNat * n) (2 ^ 128 - 1) := rfl

end Difficulty

end ForkChoice
