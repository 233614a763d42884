/-
ForkChoice/Proofs/Binary64/Rounding.lean

How far rounding moves a number.

Rounding shifts a mantissa to the right, remembering the last digit that went
(`halves` is the mantissa with this digit), and goes up by one at most if that
digit is set.  So it at most doubles a number, and a number less than half a
unit above the greatest double does not overflow (`roundWithAccuracy_spec`).
`Rounded` says the same of the double that the result is packed into.
-/
import ForkChoice.Proofs.Binary64.Encoding

namespace ForkChoice.Binary64

open Float (Model)
open Float.Model (Format UnpackedFloat totalExponent)
open Float.Model.UnpackedFloat

/-! ### Half units -/

/-- A mantissa with its round bit, in half units. -/
def halves (em : ExtendedMantissa) : Nat := 2 * em.mantissa + em.roundBit.toNat

theorem halves_shiftRightOne (em : ExtendedMantissa) :
    halves em.shiftRightOne = halves em / 2 := by
  obtain ⟨m, round, sticky⟩ := em
  have hbit : (m % 2 != 0).toNat = m % 2 := by
    rcases Nat.mod_two_eq_zero_or_one m with h | h <;> rw [h] <;> rfl
  simp only [halves, ExtendedMantissa.shiftRightOne, hbit]
  cases round <;> simp <;> omega

theorem halves_shiftRight (em : ExtendedMantissa) (k : Nat) :
    halves (em >>> k) = halves em / 2 ^ k := by
  induction k with
  | zero => exact (Nat.div_one _).symm
  | succ k ih =>
    change halves (em >>> k).shiftRightOne = _
    rw [halves_shiftRightOne, ih, Nat.div_div_eq_div_mul, Nat.pow_succ]

theorem mantissa_shiftRight (em : ExtendedMantissa) (k : Nat) :
    (em >>> k).mantissa = em.mantissa / 2 ^ k := by
  induction k with
  | zero => exact (Nat.div_one _).symm
  | succ k ih =>
    change (em >>> k).mantissa / 2 = _
    rw [ih, Nat.div_div_eq_div_mul, Nat.pow_succ]

/-- Rounding goes up to the next unit from half a unit on. -/
theorem roundedMantissa_le (em : ExtendedMantissa) :
    em.roundedMantissa ≤ (halves em + 1) / 2 := by
  obtain ⟨m, round, sticky⟩ := em
  cases round <;> cases sticky <;>
    simp only [ExtendedMantissa.roundedMantissa, ExtendedMantissa.accuracy,
      Accuracy.roundToNearestEven, halves, Bool.toNat_true, Bool.toNat_false] <;>
    omega

theorem halves_ofMantissaAndAccuracy (m : Nat) (a : Accuracy) :
    2 * m ≤ halves (.ofMantissaAndAccuracy m a) ∧
      halves (.ofMantissaAndAccuracy m a) ≤ 2 * m + 1 := by
  rcases a with - | - | - | - <;>
    simp [halves, ExtendedMantissa.ofMantissaAndAccuracy]

/-! ### Rounding -/

theorem targetExponent_eq (m : Nat) (e : Int) :
    Format.binary64.targetExponent (totalExponent m e) = max (m.log2 + e - 52) (-1074) := by
  show max ((m.log2 : Int) + 1 + e - 53) (-1074) = _
  congr 1
  omega

/-- How far a mantissa is shifted to bring it to 53 digits. -/
def excess (m : Nat) (e : Int) : Nat := (max (m.log2 + e - 52) (-1074) - e).toNat

/-- Rounding shifts twice, the second time because going up may add a digit. -/
theorem roundWithAccuracy_eq (s : Sign) (m : Nat) (e : Int) (a : Accuracy) (r k l : Nat)
    (hk : k = excess m e)
    (hr : r = (ExtendedMantissa.ofMantissaAndAccuracy m a >>> k).roundedMantissa)
    (hl : l = excess r (e + k)) :
    roundWithAccuracy Format.binary64 s m e a
      = if h : r / 2 ^ l = 0 then .zero s
        else .finite s (r / 2 ^ l) (e + k + l) (Nat.pos_of_ne_zero h) := by
  subst hl hr hk
  simp only [roundWithAccuracy, shiftToTargetExponent, shiftToExponent, targetExponent_eq,
    mantissa_shiftRight]
  rfl

/-- Rounding keeps a sign. -/
theorem negative_roundWithAccuracy (s : Sign) (m : Nat) (e : Int) (a : Accuracy) :
    (Reading.of (Model.pack (roundWithAccuracy Format.binary64 s m e a)).unpack).negative
      = negative s := by
  obtain ⟨k, hk⟩ : ∃ k, k = excess m e := ⟨_, rfl⟩
  rw [roundWithAccuracy_eq s m e a _ k _ hk rfl rfl]
  split_ifs
  · cases s <;> rfl
  · refine negative_unpack_pack_finite _ _ _ _ ?_
    rw [hk, excess]
    omega

/-- Rounding at most doubles a number. -/
theorem roundedMantissa_shiftRight_le (em : ExtendedMantissa) (k : Nat) :
    (em >>> k).roundedMantissa * 2 ^ k ≤ halves em := by
  have hle : (em >>> k).roundedMantissa ≤ halves em / 2 ^ k := by
    have h := roundedMantissa_le (em >>> k)
    rw [halves_shiftRight] at h
    generalize halves em / 2 ^ k = half at h
    omega
  exact (Nat.mul_le_mul_right _ hle).trans (Nat.div_mul_le_self _ _)

/-- A number less than half a unit above the greatest double keeps an exponent
in range. -/
theorem exponent_le (m : Nat) (a : Accuracy) (e : Int) (r k l : Nat) (hk : k = excess m e)
    (hr : r = (ExtendedMantissa.ofMantissaAndAccuracy m a >>> k).roundedMantissa)
    (hl : l = excess r (e + k)) (he : e ≤ 971)
    (hsize : halves (.ofMantissaAndAccuracy m a) < (2 ^ 54 - 1) * 2 ^ (971 - e).toNat) :
    e + k + l ≤ 971 := by
  obtain ⟨hlow, hhigh⟩ := halves_ofMantissaAndAccuracy m a
  -- the mantissa has at most 53 digits more than the room above the exponent
  have hdigits : m.log2 < 53 + (971 - e).toNat := by
    have hlt : m < 2 ^ (53 + (971 - e).toNat) := by
      rw [Nat.pow_add]
      have hpos := Nat.two_pow_pos (971 - e).toNat
      generalize 2 ^ (971 - e).toNat = unit at *
      omega
    rcases Nat.eq_zero_or_pos m with rfl | hm
    · simp
    · exact (Nat.log2_lt (Nat.ne_of_gt hm)).mpr hlt
  have hroom : e + k ≤ 971 := by
    rw [hk, excess]
    omega
  -- so rounding fills 53 digits at most, or just goes over them below the top
  have hrounded : r < 2 ^ 53 ∨ r < 2 ^ 54 ∧ e + k ≤ 970 := by
    have hle := roundedMantissa_le (ExtendedMantissa.ofMantissaAndAccuracy m a >>> k)
    rw [halves_shiftRight, ← hr] at hle
    by_cases htop : e + k = 971
    · have htop' : (971 - e).toNat = k := by omega
      rw [htop'] at hsize
      have hhalves := (Nat.div_lt_iff_lt_mul (Nat.two_pow_pos k)).mpr hsize
      omega
    · have hshift : m.log2 ≤ 52 + k := by
        rw [hk, excess]
        omega
      have hlt : halves (.ofMantissaAndAccuracy m a) < 2 ^ 54 * 2 ^ k := by
        have hm : m < 2 ^ 53 * 2 ^ k := by
          rw [← Nat.pow_add]
          exact Nat.lt_log2_self.trans_le (Nat.pow_le_pow_right (by decide) (by omega))
        omega
      have hhalves := (Nat.div_lt_iff_lt_mul (Nat.two_pow_pos k)).mpr hlt
      omega
  have hlog : (r.log2 : Int) + (e + k) ≤ 1023 := by
    rcases Nat.eq_zero_or_pos r with hzero | hpos
    · simp [hzero]
      omega
    · rcases hrounded with h | ⟨h, hbelow⟩
      · have := (Nat.log2_lt (Nat.ne_of_gt hpos)).mpr h
        omega
      · have := (Nat.log2_lt (Nat.ne_of_gt hpos)).mpr h
        omega
  rw [hl, excess]
  omega

/-! ### Rounded doubles -/

/-- The least size that overflows, half a unit above the greatest double. -/
def overflow : ℚ := (2 ^ 53 - 1 / 2) * 2 ^ (971 : ℤ)

theorem overflow_le : overflow ≤ 2 ^ 52 * 2 ^ (972 : ℤ) := by
  have hnext : (2 : ℚ) ^ (972 : ℤ) = 2 * 2 ^ (971 : ℤ) := by
    rw [← zpow_one_add₀ two_ne_zero]
    rfl
  have hpos : (0 : ℚ) < 2 ^ (971 : ℤ) := by positivity
  rw [overflow, hnext]
  generalize (2 : ℚ) ^ (971 : ℤ) = unit at hpos
  linarith

/-- A double is what a number of some size is rounded to. -/
structure Rounded (x : Float) (size : ℚ) : Prop where
  /-- It is not NaN. -/
  number : x.isNaN = false
  /-- Rounding at most doubles a number. -/
  magnitude_le : magnitude x ≤ 2 * size
  /-- It is finite, unless the size overflows. -/
  finite : size < overflow → isFinite x = true

/-- A number packed from a mantissa and an exponent in the range of a size. -/
theorem Rounded.of_finite {s : Sign} {m : Nat} {e : Int} {hm : 0 < m} {size : ℚ}
    (hleast : -1074 ≤ e) (hsize : (m : ℚ) * 2 ^ e ≤ 2 * size)
    (hgreatest : size < overflow → e ≤ 971) :
    Rounded ⟨Model.pack (.finite s m e hm)⟩ size := by
  have hunpack := unpack_pack_finite s m e hm hleast
  constructor
  · show (Model.pack (.finite s m e hm)).unpack.isNaN = false
    rw [hunpack]
    split_ifs <;> rfl
  · rw [magnitude, read_eq, hunpack]
    split_ifs with h₁ h₂ h₃ <;> simp only [Reading.of, Reading.magnitude]
    · have htop : overflow ≤ size := by
        by_contra h
        have := hgreatest (not_le.mp h)
        omega
      have hrange : (2 : ℚ) ^ 1024 = 2 ^ 53 * 2 ^ (971 : ℤ) := by rw [zpow_ofNat, ← pow_add]
      have hpos : (0 : ℚ) < 2 ^ (971 : ℤ) := by positivity
      rw [hrange]
      rw [overflow] at htop
      generalize (2 : ℚ) ^ (971 : ℤ) = unit at htop hpos
      linarith
    · exact hsize
    · rw [Nat.cast_zero, zero_mul]
      exact le_trans (by positivity) hsize
    · refine le_trans ?_ hsize
      have hmod : ((m % 2 ^ 52 : Nat) : ℚ) ≤ m := by exact_mod_cast Nat.mod_le _ _
      gcongr
      norm_num
  · intro h
    rw [isFinite_eq, hunpack, if_neg (by have := hgreatest h; omega)]
    split_ifs <;> rfl

theorem rounded_zero (s : Sign) {size : ℚ} (hsize : 0 ≤ size) :
    Rounded ⟨Model.pack (.zero s)⟩ size := by
  have hunpack : (Model.pack (.zero s)).unpack = .zero s := unpack_pack trivial
  constructor
  · show (Model.pack (.zero s)).unpack.isNaN = false
    rw [hunpack]
    rfl
  · rw [magnitude, read_eq, hunpack]
    simpa [Reading.of, Reading.magnitude] using hsize
  · intro _
    rw [isFinite_eq, hunpack]
    rfl

theorem rounded_roundWithAccuracy (s : Sign) (m : Nat) (e : Int) (a : Accuracy) {size : ℚ}
    (he : size < overflow → e ≤ 971)
    (hsize : halves (.ofMantissaAndAccuracy m a) * (2 : ℚ) ^ e ≤ 2 * size) :
    Rounded ⟨Model.pack (roundWithAccuracy Format.binary64 s m e a)⟩ size := by
  obtain ⟨k, hk⟩ : ∃ k, k = excess m e := ⟨_, rfl⟩
  obtain ⟨r, hr⟩ : ∃ r, r = (ExtendedMantissa.ofMantissaAndAccuracy m a >>> k).roundedMantissa :=
    ⟨_, rfl⟩
  obtain ⟨l, hl⟩ : ∃ l, l = excess r (e + k) := ⟨_, rfl⟩
  rw [roundWithAccuracy_eq s m e a r k l hk hr hl]
  split_ifs with h
  · refine rounded_zero s ?_
    have : (0 : ℚ) ≤ halves (.ofMantissaAndAccuracy m a) * 2 ^ e := by positivity
    linarith
  · refine .of_finite ?_ ?_ ?_
    · rw [hk, excess]
      omega
    · have hround : r * 2 ^ k ≤ halves (.ofMantissaAndAccuracy m a) := by
        rw [hr]
        exact roundedMantissa_shiftRight_le _ k
      have hshift : r / 2 ^ l * 2 ^ (k + l) ≤ halves (.ofMantissaAndAccuracy m a) := by
        calc r / 2 ^ l * 2 ^ (k + l) = r / 2 ^ l * 2 ^ l * 2 ^ k := by
              rw [Nat.mul_assoc, ← Nat.pow_add, Nat.add_comm]
          _ ≤ r * 2 ^ k := Nat.mul_le_mul_right _ (Nat.div_mul_le_self _ _)
          _ ≤ _ := hround
      refine le_trans ?_ hsize
      calc ((r / 2 ^ l : Nat) : ℚ) * 2 ^ (e + k + l)
          = ((r / 2 ^ l * 2 ^ (k + l) : Nat) : ℚ) * 2 ^ e := by
            rw [add_assoc, zpow_add₀ two_ne_zero, ← Nat.cast_add, zpow_natCast]
            push_cast
            ring
        _ ≤ _ := by gcongr
    · intro hlt
      have he := he hlt
      refine exponent_le m a e r k l hk hr hl he ?_
      have hroom : (2 : ℚ) ^ (971 : ℤ) = 2 ^ (971 - e).toNat * 2 ^ e := by
        rw [← zpow_natCast, ← zpow_add₀ two_ne_zero, Int.toNat_of_nonneg (by omega)]
        congr 1
        omega
      have hunits : (halves (.ofMantissaAndAccuracy m a) : ℚ) * 2 ^ e
          < ((2 ^ 54 - 1 : Nat) : ℚ) * 2 ^ (971 - e).toNat * 2 ^ e := by
        rw [mul_assoc, ← hroom]
        rw [overflow] at hlt
        generalize (2 : ℚ) ^ (971 : ℤ) = unit at hlt
        push_cast
        linarith
      exact_mod_cast lt_of_mul_lt_mul_right hunits (by positivity)

theorem rounded_round (s : Sign) (m : Nat) (e : Int) {size : ℚ}
    (he : e ≤ 971) (hsize : (m : ℚ) * 2 ^ e ≤ size) :
    Rounded ⟨Model.pack (UnpackedFloat.round Format.binary64 s m e)⟩ size := by
  have hround : UnpackedFloat.round Format.binary64 s m e
      = roundWithAccuracy Format.binary64 s (m <<< (e - _).toNat) (e - (e - _).toNat) .exact := rfl
  rw [hround, targetExponent_eq]
  generalize (e - max (m.log2 + e - 52) (-1074)).toNat = k
  refine rounded_roundWithAccuracy _ _ _ _ (fun _ => by omega) ?_
  have hexact : halves (.ofMantissaAndAccuracy (m <<< k) .exact) = 2 * (m * 2 ^ k) := by
    rw [← Nat.shiftLeft_eq]
    rfl
  have hvalue : ((m * 2 ^ k : Nat) : ℚ) * 2 ^ (e - k) = m * 2 ^ e := by
    rw [zpow_sub₀ two_ne_zero, zpow_natCast]
    push_cast
    field_simp
  rw [hexact, Nat.cast_mul, Nat.cast_ofNat, mul_assoc, hvalue]
  linarith

theorem rounded_normalize (m : Int) (e : Int) (z : Sign) {size : ℚ}
    (he : e ≤ 971) (hsize : |(m : ℚ)| * 2 ^ e ≤ size) :
    Rounded ⟨Model.pack (UnpackedFloat.normalize Format.binary64 m e z)⟩ size := by
  have habs (n : Nat) (h : n = m.natAbs) : (n : ℚ) * 2 ^ e ≤ size := by
    rw [h, Nat.cast_natAbs, Int.cast_abs]
    exact hsize
  rw [UnpackedFloat.normalize]
  rcases lt_trichotomy m 0 with hneg | rfl | hpos
  · rw [Int.compare_eq_lt.mpr hneg]
    exact rounded_round _ _ _ he (habs _ (by omega))
  · refine rounded_zero z (le_trans ?_ hsize)
    positivity
  · rw [Int.compare_eq_gt.mpr hpos]
    exact rounded_round _ _ _ he (habs _ (by omega))

end ForkChoice.Binary64
