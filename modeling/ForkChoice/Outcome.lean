/-
ForkChoice/Outcome.lean

How a computation of the library ends.  It returns a value, it reports an
error of its own kind, or it faults: arithmetic left its range, a buffer was
asked for that no memory can hold, or a walk along parent links never ends.
A fault is not an error that a caller handles, so it is a case of its own and
passes through every change of the error type.

`Outcome` is a lawful monad in which the first error or fault wins, and
`Checked` is the part of it without errors.

The ranges that arithmetic leaves are bounded by powers of two and of 256, so the
module also says which powers these are.
-/

namespace ForkChoice

/-! ### Powers -/

-- A theory of monoids brings powers of its own, equal to those of the core library but built
-- differently; whatever theory is in scope, the library means the core ones.
attribute [instance (high + 1), default_instance (high + 1)] instPowNat

/-! ### Faults -/

/-- Why a computation has no answer at all. -/
inductive Fault where
  /-- A height above the greatest 64-bit number. -/
  | heightOverflow
  /-- A timestamp above the greatest 64-bit number. -/
  | timestampOverflow
  /-- A division by a parameter that is zero. -/
  | divisionByZero
  /-- The least signed 128-bit number has no negation. -/
  | negationOverflow
  /-- A buffer that would take half of the address space. -/
  | capacityOverflow
  /-- A path of parent links that visits a header twice. -/
  | endlessPath
deriving DecidableEq

/-- How many entries of so many bytes a buffer can be asked to hold: together they
take less than half of the address space, which is 2 ^ 63 bytes. -/
def greatestBuffer (bytes : Nat) : Nat := (2 ^ 63 - 1) / bytes

/-- A computation that can fault and has no errors of its own. -/
abbrev Checked (α : Type) : Type := Except Fault α

/-! ### Outcomes -/

/-- A value, an error, or a fault. -/
inductive Outcome (ε α : Type) where
  | ok (value : α)
  | error (cause : ε)
  | fault (why : Fault)
deriving DecidableEq

namespace Outcome

variable {ε δ α β γ : Type}

/-- Continue with the value; an error or a fault ends the computation. -/
def bind : Outcome ε α → (α → Outcome ε β) → Outcome ε β
  | ok a, f => f a
  | error e, _ => error e
  | fault w, _ => fault w

/-- Apply a function to the value. -/
def map (f : α → β) : Outcome ε α → Outcome ε β
  | ok a => ok (f a)
  | error e => error e
  | fault w => fault w

/-- Restate the error; a fault stays what it is. -/
def mapError (f : ε → δ) : Outcome ε α → Outcome δ α
  | ok a => ok a
  | error e => error (f e)
  | fault w => fault w

/-- A computation without errors of its own has any type of errors. -/
def ofChecked : Checked α → Outcome ε α
  | .ok a => ok a
  | .error w => fault w

/-- A computation that cannot fault. -/
def ofExcept : Except ε α → Outcome ε α
  | .ok a => ok a
  | .error e => error e

instance : Monad (Outcome ε) where
  pure := ok
  bind := bind
  map := map

@[simp] theorem pure_eq (a : α) : (pure a : Outcome ε α) = ok a := rfl

@[simp] theorem ok_bind (a : α) (f : α → Outcome ε β) : ok a >>= f = f a := rfl

@[simp] theorem error_bind (e : ε) (f : α → Outcome ε β) : error e >>= f = error e := rfl

@[simp] theorem fault_bind (w : Fault) (f : α → Outcome ε β) : fault w >>= f = fault w := rfl

@[simp] theorem map_eq (f : α → β) (x : Outcome ε α) : f <$> x = x.map f := rfl

instance : LawfulMonad (Outcome ε) := LawfulMonad.mk' _
  (by intro α x; cases x <;> rfl)
  (by intros; rfl)
  (by intro α β γ x f g; cases x <;> rfl)
  (by intros; rfl)
  (by intro α β x y; cases x <;> cases y <;> rfl)
  (by intro α β x y; cases x <;> cases y <;> rfl)
  (by intro α β f x; cases x <;> rfl)
  (by intro α β f x; cases f <;> rfl)

theorem bind_eq_ok {x : Outcome ε α} {f : α → Outcome ε β} {b : β} :
    x >>= f = ok b ↔ ∃ a, x = ok a ∧ f a = ok b := by
  cases x <;> simp

end Outcome

end ForkChoice
