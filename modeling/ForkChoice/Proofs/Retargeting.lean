/-
ForkChoice/Proofs/Retargeting.lean

The difficulty of a child is a formula over all integers, cut off at its ends.

`Retarget.windows` counts the whole windows since the parent, `Retarget.steps` the
steps that the difficulty moves by, and `Retarget.formula` is the difficulty of the
child.  None of them knows of words: sums, products and negations are those of the
integers.

The adjustment computes them in words, in which a product and the sum or
difference after it stop at their ends one after the other.  That comes to the same
(`toNat_shift`): a product that is cut off moves the difficulty past the end where
it is cut off anyway.  So parameters in range always give the value of the formula,
which is not zero and does not grow with the time (`required_exact`).
-/
import ForkChoice.Proofs.Chain.Faults

namespace ForkChoice.Retarget

variable {r : Retarget} {parent : Header} {timestamp earlier later : UInt64}

/-! ### The formula -/

/-- The whole windows from the parent to a timestamp; before the parent there are
none. -/
def windows (r : Retarget) (parent : Header) (timestamp : UInt64) : Int :=
  max 0 ((timestamp.toNat : Int) - parent.timestamp.toNat) / r.durationLimit.toNat

/-- The steps up (or, if negative, down): one within the first window, one fewer for
each window more, but never more than a set number down. -/
def steps (r : Retarget) (parent : Header) (timestamp : UInt64) : Int :=
  max (1 - r.windows parent timestamp) (-r.maxDecrease)

/-- The difficulty of a child: the parent's, moved by that many steps, between zero
and the greatest difficulty, and at least the least one of the chain. -/
def formula (r : Retarget) (parent : Header) (timestamp : UInt64) : Int :=
  max r.minimum.toNat (min (2 ^ 128 - 1) (max 0 (parent.difficulty.toNat
    + (parent.difficulty.toNat : Int) / r.boundDivisor.toNat * r.steps parent timestamp)))

/-! ### More time -/

theorem windows_nonneg : 0 ≤ r.windows parent timestamp :=
  Int.ediv_nonneg (Int.le_max_left _ _) (Int.natCast_nonneg _)

theorem windows_lt : r.windows parent timestamp < 2 ^ 64 := by
  have time := timestamp.toNat_lt
  have elapsed : max 0 ((timestamp.toNat : Int) - parent.timestamp.toNat) < 2 ^ 64 := by omega
  exact Int.lt_of_le_of_lt (Int.ediv_le_self _ (Int.le_max_left _ _)) elapsed

theorem windows_mono (le : earlier ≤ later) :
    r.windows parent earlier ≤ r.windows parent later := by
  have le : earlier.toNat ≤ later.toNat := UInt64.le_iff_toNat_le.mp le
  unfold windows
  rcases Nat.eq_zero_or_pos r.durationLimit.toNat with none_at_all | positive
  · simp [none_at_all]
  · exact Int.ediv_le_ediv (by omega) (by omega)

/-- With more time the difficulty goes up by no more steps. -/
theorem steps_anti (le : earlier ≤ later) : r.steps parent later ≤ r.steps parent earlier := by
  have := @windows_mono r parent _ _ le
  unfold steps
  omega

/-- With more time the difficulty is no greater. -/
theorem formula_anti (le : earlier ≤ later) :
    r.formula parent later ≤ r.formula parent earlier := by
  have step : 0 ≤ (parent.difficulty.toNat : Int) / r.boundDivisor.toNat :=
    Int.ediv_nonneg (Int.natCast_nonneg _) (Int.natCast_nonneg _)
  have moved := Int.mul_le_mul_of_nonneg_left (@steps_anti r parent _ _ le) step
  unfold formula
  omega

/-! ### Words -/

/-- **Cut off step by step or once at the end**, a move of the difficulty comes to the
same. -/
theorem toNat_shift (difficulty step : Difficulty) (steps : Int) :
    ((shift difficulty step steps).toNat : Int)
      = min (2 ^ 128 - 1) (max 0 (difficulty.toNat + step.toNat * steps)) := by
  have := difficulty.toNat_lt
  unfold shift
  split
  · rename_i up
    have size : ((step.toNat * steps.natAbs : Nat) : Int) = step.toNat * steps := by
      rw [Int.natCast_mul, Int.natAbs_of_nonneg up]
    rw [Difficulty.toNat_plus, Difficulty.toNat_times]
    omega
  · rename_i down
    have size : ((step.toNat * steps.natAbs : Nat) : Int) = -(step.toNat * steps) := by
      rw [Int.natCast_mul, Int.ofNat_natAbs_of_nonpos (by omega), Int.mul_neg]
    rw [Difficulty.toNat_minus, Difficulty.toNat_times]
    omega

/-- With parameters in range the steps are counted. -/
theorem adjustment_eq_steps (checked : r.check = .ok ()) (parent : Header) (timestamp : UInt64) :
    r.adjustment (timestamp.toNat - parent.timestamp.toNat) = .ok (r.steps parent timestamp) := by
  obtain ⟨-, limit, decrease⟩ := of_check checked
  have negatable : r.maxDecrease ≠ leastSigned := by
    unfold leastSigned
    omega
  have elapsed : ((timestamp.toNat - parent.timestamp.toNat : Nat) : Int)
      = max 0 ((timestamp.toNat : Int) - parent.timestamp.toNat) := by omega
  unfold adjustment
  rw [if_neg limit, if_neg negatable, Int.natCast_ediv, elapsed]
  rfl

/-- **With parameters in range the formula is computed.** -/
theorem required_eq_formula (checked : r.check = .ok ()) (parent : Header) (timestamp : UInt64) :
    ∃ d, r.required parent timestamp = .ok d ∧ (d.toNat : Int) = r.formula parent timestamp := by
  obtain ⟨divisor, -, -⟩ := of_check checked
  -- a step is a difficulty again, so nothing is cut off there
  have step : ((Difficulty.capped (parent.difficulty.toNat / r.boundDivisor.toNat)).toNat : Int)
      = (parent.difficulty.toNat : Int) / r.boundDivisor.toNat := by
    have := parent.difficulty.toNat_lt
    have := Nat.div_le_self parent.difficulty.toNat r.boundDivisor.toNat
    rw [← Int.natCast_ediv, Difficulty.toNat_capped, Nat.min_eq_left (by omega)]
  have moved := toNat_shift parent.difficulty
    (.capped (parent.difficulty.toNat / r.boundDivisor.toNat)) (r.steps parent timestamp)
  rw [step] at moved
  unfold required
  rw [adjustment_eq_steps checked]
  show ∃ d, (if r.boundDivisor = 0 then _ else _) = _ ∧ _
  rw [if_neg divisor]
  refine ⟨_, rfl, ?_⟩
  unfold formula
  rw [← moved]
  split <;> rename_i order <;> rw [Difficulty.lt_iff] at order <;> omega

/-! ### The adjustment -/

/-- A signed number of 128 bits. -/
def Signed (n : Int) : Prop := leastSigned ≤ n ∧ n < 2 ^ 127

instance (n : Int) : Decidable (Signed n) := inferInstanceAs (Decidable (_ ∧ _))

/-- No signed number on the way to the steps leaves its 128 bits. -/
structure Contained (r : Retarget) (parent : Header) (timestamp : UInt64) : Prop where
  windows : Signed (r.windows parent timestamp)
  rise : Signed (1 - r.windows parent timestamp)
  fall : Signed (-r.maxDecrease)
  steps : Signed (r.steps parent timestamp)

theorem contained (checked : r.check = .ok ()) (signed : Signed r.maxDecrease) :
    r.Contained parent timestamp := by
  obtain ⟨-, -, decrease⟩ := of_check checked
  have nonneg := @windows_nonneg r parent timestamp
  have small := @windows_lt r parent timestamp
  unfold Signed leastSigned at signed
  constructor <;> unfold Signed leastSigned
  case steps =>
    unfold Retarget.steps
    omega
  all_goals omega

/-- **The adjustment is the exact formula, and cannot fault.**  With parameters in
range, above every parent and at every time, it gives the value of the formula, at
least 1; at a later time it never calls for more; and no signed number on the way
overflows. -/
theorem required_exact (checked : r.check = .ok ()) (parent : Header) :
    (∀ timestamp, ∃ d, r.required parent timestamp = .ok d ∧
      (d.toNat : Int) = r.formula parent timestamp ∧ 1 ≤ d.toNat) ∧
    (∀ earlier later d d', earlier ≤ later → r.required parent earlier = .ok d →
      r.required parent later = .ok d' → d' ≤ d) ∧
    (Signed r.maxDecrease → ∀ timestamp, r.Contained parent timestamp) := by
  refine ⟨fun timestamp => ?_, fun earlier later d d' le first second => ?_,
    fun signed timestamp => contained checked signed⟩
  · obtain ⟨d, required, value⟩ := required_eq_formula checked parent timestamp
    have least := minimum_le_required required
    exact ⟨d, required, value, Nat.le_trans (minimum_pos checked) least⟩
  · -- both values are those of the formula
    obtain ⟨_, required, value⟩ := required_eq_formula checked parent earlier
    obtain ⟨_, required', value'⟩ := required_eq_formula checked parent later
    cases first.symm.trans required
    cases second.symm.trans required'
    have := @formula_anti r parent _ _ le
    exact Difficulty.le_iff.mpr (by omega)

/-- Parameters with which a child may have any difficulty whatsoever. -/
def sampleSteep : Retarget where
  boundDivisor := 1
  durationLimit := 1
  minimum := 1
  maxDecrease := 2 ^ 127 - 1

/-- Above a parent of the greatest difficulty a child in the same second keeps it, and
one at the end of time has the least. -/
theorem required_exact_sampleSteep :
    sampleSteep.check = .ok () ∧
      sampleSteep.required (.genesis 0 .greatest) 0 = .ok .greatest ∧
      sampleSteep.required (.genesis 0 .greatest) 18446744073709551615 = .ok 1 ∧
      sampleSteep.Contained (.genesis 0 .greatest) 18446744073709551615 := by
  have checked : sampleSteep.check = .ok () := by decide
  obtain ⟨value, -, inside⟩ := required_exact checked (.genesis 0 .greatest)
  obtain ⟨d, first, at_first, -⟩ := value 0
  obtain ⟨d', last, at_last, -⟩ := value 18446744073709551615
  have greatest : d = .greatest :=
    Difficulty.ext (Int.ofNat_inj.mp (at_first.trans (by decide +kernel)))
  have least : d' = 1 := Difficulty.ext (Int.ofNat_inj.mp (at_last.trans (by decide +kernel)))
  rw [greatest] at first
  rw [least] at last
  exact ⟨checked, first, last, inside (by decide) _⟩

end ForkChoice.Retarget
