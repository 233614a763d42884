/-
ForkChoice/Store/Lookup.lean

Computations that read the frozen tier.

A `Lookup` ends with an outcome or asks the tier one of its two reading
questions and goes on with the answer, which may be a refusal.  It says what is
asked and in which order, and nothing of who answers; `Lookup.run` lets a tier
answer, the calls being counted from zero.  Lookups form a lawful monad, and
asking a tier that answers every read is a map of monads (`run_bind`).
-/
import ForkChoice.Store.Tier

namespace ForkChoice

/-- A computation that may put questions to the frozen tier. -/
inductive Lookup (ε α : Type) where
  /-- The computation ends. -/
  | done (result : Outcome ε α)
  /-- It asks for the number of frozen items. -/
  | count (next : Except TierError Nat → Lookup ε α)
  /-- It asks for the frozen item of a height. -/
  | fetch (number : UInt64) (next : Except TierError (Option Frozen) → Lookup ε α)

namespace Lookup

variable {ε δ α β γ : Type}

/-! ### Putting lookups together -/

/-- Continue with the value; an error or a fault ends the computation. -/
def bind : Lookup ε α → (α → Lookup ε β) → Lookup ε β
  | done (.ok a), f => f a
  | done (.error e), _ => done (.error e)
  | done (.fault w), _ => done (.fault w)
  | count next, f => count fun answer => (next answer).bind f
  | fetch number next, f => fetch number fun answer => (next answer).bind f

/-- End with an error. -/
def fail (e : ε) : Lookup ε α := done (.error e)

/-- A computation that asks nothing. -/
def ofExcept (x : Except ε α) : Lookup ε α := done (.ofExcept x)

/-- Restate the error. -/
def mapError (f : ε → δ) : Lookup ε α → Lookup δ α
  | done result => done (result.mapError f)
  | count next => count fun answer => (next answer).mapError f
  | fetch number next => fetch number fun answer => (next answer).mapError f

/-- Hand an error out as a value. -/
def attempt : Lookup ε α → Lookup δ (Except ε α)
  | done (.ok a) => done (.ok (.ok a))
  | done (.error e) => done (.ok (.error e))
  | done (.fault w) => done (.fault w)
  | count next => count fun answer => (next answer).attempt
  | fetch number next => fetch number fun answer => (next answer).attempt

instance : Monad (Lookup ε) where
  pure a := done (.ok a)
  bind := bind

@[simp] theorem pure_eq (a : α) : (pure a : Lookup ε α) = done (.ok a) := rfl

@[simp] theorem ok_bind (a : α) (f : α → Lookup ε β) : done (.ok a) >>= f = f a := rfl

@[simp] theorem error_bind (e : ε) (f : α → Lookup ε β) :
    done (.error e) >>= f = done (.error e) := rfl

@[simp] theorem fault_bind (w : Fault) (f : α → Lookup ε β) :
    done (.fault w) >>= f = done (.fault w) := rfl

theorem bind_pure_id (x : Lookup ε α) : x.bind (fun a => done (.ok a)) = x := by
  induction x with
  | done result => cases result <;> rfl
  | count next ih => simp only [bind, ih]
  | fetch number next ih => simp only [bind, ih]

theorem bind_bind (x : Lookup ε α) (f : α → Lookup ε β) (g : β → Lookup ε γ) :
    (x.bind f).bind g = x.bind fun a => (f a).bind g := by
  induction x with
  | done result => cases result <;> rfl
  | count next ih => simp only [bind, ih]
  | fetch number next ih => simp only [bind, ih]

instance : LawfulMonad (Lookup ε) := LawfulMonad.mk' _
  bind_pure_id
  (by intros; rfl)
  bind_bind

/-! ### Letting a tier answer -/

/-- The answers of a tier, from the call at the given place on. -/
def runFrom (t : Tier) : Lookup ε α → (place : Nat) → Outcome ε α
  | done result, _ => result
  | count next, place => (next (t.count place)).runFrom t (place + 1)
  | fetch number next, place => (next (t.fetch place number)).runFrom t (place + 1)

/-- The answers of a tier to all questions of an operation. -/
def run (t : Tier) (x : Lookup ε α) : Outcome ε α := x.runFrom t 0

theorem runFrom_mapError (t : Tier) (g : ε → δ) (x : Lookup ε α) (place : Nat) :
    (x.mapError g).runFrom t place = (x.runFrom t place).mapError g := by
  induction x generalizing place with
  | done result => rfl
  | count next ih => simp only [mapError, runFrom, ih]
  | fetch number next ih => simp only [mapError, runFrom, ih]

/-- A tier that answers reads gives the same answers at every place. -/
theorem runFrom_eq_run {t : Tier} (h : t.service.AnswersReads) (x : Lookup ε α) (place : Nat) :
    x.runFrom t place = x.run t := by
  have hc : ∀ place, t.count place = .ok t.items.length := fun place => by
    simp [Tier.count, Tier.call, (h place).1]
  have hf : ∀ place number, t.fetch place number = .ok t.items[number.toNat]? :=
    fun place number => by simp [Tier.fetch, Tier.call, (h place).2]
  unfold run
  generalize 0 = other
  induction x generalizing place other with
  | done result => rfl
  | count next ih => simp only [runFrom, hc]; exact ih _ _ _
  | fetch number next ih => simp only [runFrom, hf]; exact ih _ _ _

/-- Asking a tier that answers reads goes through a sequence step by step. -/
theorem run_bind {t : Tier} (h : t.service.AnswersReads) (x : Lookup ε α) (f : α → Lookup ε β) :
    (x >>= f).run t = x.run t >>= fun a => (f a).run t := by
  show (x.bind f).run t = _
  induction x with
  | done result => cases result <;> rfl
  | count next ih =>
    simp only [bind, run, runFrom]
    rw [runFrom_eq_run h, ih, runFrom_eq_run h]
    rfl
  | fetch number next ih =>
    simp only [bind, run, runFrom]
    rw [runFrom_eq_run h, ih, runFrom_eq_run h]
    rfl

end Lookup

end ForkChoice
