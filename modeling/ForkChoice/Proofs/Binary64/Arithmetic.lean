/-
ForkChoice/Proofs/Binary64/Arithmetic.lean

Sums, differences, products and quotients of doubles, and their order.

Each operation on finite doubles gives a `Rounded` double of the size that exact
arithmetic gives, so it is never NaN, at most twice as great, and finite unless
that size is out of range.  A NaN stays NaN through sums and products, and what
is not finite never becomes finite in a sum.  Doubles that are not NaN are
totally ordered (`not_lt_iff_le`), and no comparison with NaN holds.
-/
import ForkChoice.Proofs.Binary64.Rounding

namespace ForkChoice.Binary64

open Float (Model)
open Float.Model (Format UnpackedFloat totalExponent)
open Float.Model.UnpackedFloat

variable {x y : Float}

/-! ### Operations on unpacked numbers -/

theorem isNaN_eq (x : Float) : x.isNaN = x.toModel.unpack.isNaN := rfl

theorem unpack_add (x y : Float) : (x + y).toModel.unpack
    = (Model.pack (add Format.binary64 x.toModel.unpack y.toModel.unpack)).unpack := rfl

theorem unpack_mul (x y : Float) : (x * y).toModel.unpack
    = (Model.pack (mul Format.binary64 x.toModel.unpack y.toModel.unpack)).unpack := rfl

theorem unpack_div (x y : Float) : (x / y).toModel.unpack
    = (Model.pack (div Format.binary64 x.toModel.unpack y.toModel.unpack)).unpack := rfl

/-! ### Finite doubles -/

/-- The greatest finite magnitude. -/
def greatestMagnitude : ℚ := (2 ^ 53 - 1) * 2 ^ (971 : ℤ)

/-- A finite double is a zero or a number that fits. -/
theorem finite_cases (hx : isFinite x = true) :
    (∃ s, x.toModel.unpack = .zero s ∧ magnitude x = 0) ∨
      ∃ s m e hm, x.toModel.unpack = .finite s m e hm ∧ magnitude x = m * 2 ^ e ∧
        Fits (.finite s m e hm) := by
  have hfits : Fits x.toModel.unpack := fits_unpack _
  rw [isFinite_eq] at hx
  rw [magnitude, read_eq]
  generalize x.toModel.unpack = u at hfits hx
  rcases u with s | - | s | ⟨s, m, e, hm⟩
  · cases hx
  · cases hx
  · exact .inl ⟨s, rfl, by simp [Reading.of, Reading.magnitude]⟩
  · exact .inr ⟨s, m, e, hm, rfl, rfl, hfits⟩

theorem magnitude_le_greatest (hx : isFinite x = true) : magnitude x ≤ greatestMagnitude := by
  obtain ⟨s, -, hmag⟩ | ⟨s, m, e, hm, -, hmag, hdigits, -, hgreatest, -⟩ := finite_cases hx
  · rw [hmag, greatestMagnitude]
    positivity
  · have hm : (m : ℚ) ≤ 2 ^ 53 - 1 := by
      have : (m : ℚ) + 1 ≤ 2 ^ 53 := by exact_mod_cast hdigits
      linarith
    rw [hmag, greatestMagnitude]
    gcongr
    norm_num

/-- What is small beside the last place of the greatest double does not make it
overflow. -/
theorem add_lt_overflow {size small : ℚ} (h : size ≤ greatestMagnitude) (hsmall : small ≤ 2 ^ 66) :
    size + small < overflow := by
  have hunit : (2 : ℚ) ^ 67 < 2 ^ (971 : ℤ) := by
    rw [← zpow_natCast]
    exact zpow_lt_zpow_right₀ (by norm_num) (by norm_num)
  rw [greatestMagnitude] at h
  rw [overflow]
  generalize (2 : ℚ) ^ (971 : ℤ) = unit at h hunit
  linarith

theorem lt_overflow {size : ℚ} (h : size ≤ 2 ^ 66) : size < overflow := by
  have hzero : (0 : ℚ) ≤ greatestMagnitude := by
    rw [greatestMagnitude]
    positivity
  simpa using add_lt_overflow hzero h

/-- A double whose size fits is what that size is rounded to. -/
theorem Rounded.of_fits {u : UnpackedFloat} (hu : Fits u) (hfinite : u.isFinite = true) :
    Rounded ⟨Model.pack u⟩ (Reading.of u).magnitude := by
  rcases u with s | - | s | ⟨s, m, e, hm⟩
  · cases hfinite
  · cases hfinite
  · exact rounded_zero s (Reading.magnitude_nonneg _)
  · obtain ⟨-, hleast, hgreatest, -⟩ := hu
    have hpos : (0 : ℚ) ≤ m * 2 ^ e := by positivity
    refine .of_finite hleast ?_ fun _ => hgreatest
    simp only [Reading.of, Reading.magnitude]
    linarith

/-! ### Sums and differences -/

/-- A mantissa brought to a smaller exponent keeps its value. -/
theorem decreaseExponent_value (m : Nat) {e least : Int} (h : least ≤ e) :
    ((decreaseExponent m e least).1 : ℚ) * 2 ^ least = m * 2 ^ e := by
  have hroom : (2 : ℚ) ^ e = 2 ^ (e - least).toNat * 2 ^ least := by
    rw [← zpow_natCast, ← zpow_add₀ two_ne_zero, Int.toNat_of_nonneg (by omega)]
    congr 1
    omega
  simp only [decreaseExponent, Nat.shiftLeft_eq, hroom]
  push_cast
  ring

theorem abs_apply (s : Sign) (n : Nat) : |((s.apply n : Int) : ℚ)| = n := by
  cases s <;> simp [Sign.apply]

theorem rounded_add (hx : isFinite x = true) (hy : isFinite y = true) :
    Rounded (x + y) (magnitude x + magnitude y) := by
  show Rounded ⟨Model.pack (add Format.binary64 x.toModel.unpack y.toModel.unpack)⟩ _
  obtain ⟨s, hux, hmx⟩ | ⟨s, m, e, hm, hux, hmx, hfits⟩ := finite_cases hx <;>
    obtain ⟨t, huy, hmy⟩ | ⟨t, n, f, hn, huy, hmy, hfits'⟩ := finite_cases hy <;>
    rw [hux, huy, hmx, hmy]
  · rw [add]
    split <;> exact rounded_zero _ (by norm_num)
  · rw [zero_add]
    exact .of_fits hfits' rfl
  · rw [add_zero]
    exact .of_fits hfits rfl
  · refine rounded_normalize _ _ _ (by have := hfits.2.2.1; omega) ?_
    rw [← decreaseExponent_value m (min_le_left e f), ← decreaseExponent_value n (min_le_right e f),
      ← add_mul, Int.cast_add]
    gcongr
    exact (abs_add_le _ _).trans_eq (by rw [abs_apply, abs_apply]; rfl)

theorem add_symm (x y : Float) : x + y = y + x := by
  show (⟨Model.pack (add Format.binary64 x.toModel.unpack y.toModel.unpack)⟩ : Float)
    = ⟨Model.pack (add Format.binary64 y.toModel.unpack x.toModel.unpack)⟩
  congr 2
  rcases x.toModel.unpack with s | - | s | ⟨s, m, e, hm⟩ <;>
    rcases y.toModel.unpack with t | - | t | ⟨t, n, f, hn⟩ <;> try rfl
  · cases s <;> cases t <;> rfl
  · cases s <;> cases t <;> rfl
  · simp only [add, min_comm e f, Int.add_comm]

theorem fits_neg {u : UnpackedFloat} (h : Fits u) : Fits u.neg := by
  rcases u with s | - | s | ⟨s, m, e, hm⟩ <;> exact h

theorem unpack_neg (x : Float) : (-x).toModel.unpack = x.toModel.unpack.neg :=
  unpack_pack (fits_neg (fits_unpack _))

@[simp] theorem magnitude_neg (x : Float) : magnitude (-x) = magnitude x := by
  rw [magnitude, magnitude, read_eq, read_eq, unpack_neg]
  rcases x.toModel.unpack with s | - | s | ⟨s, m, e, hm⟩ <;> rfl

@[simp] theorem isFinite_neg (x : Float) : isFinite (-x) = isFinite x := by
  rw [isFinite_eq, isFinite_eq, unpack_neg]
  rcases x.toModel.unpack with s | - | s | ⟨s, m, e, hm⟩ <;> rfl

@[simp] theorem isNaN_neg (x : Float) : (-x).isNaN = x.isNaN := by
  rw [isNaN_eq, isNaN_eq, unpack_neg]
  rcases x.toModel.unpack with s | - | s | ⟨s, m, e, hm⟩ <;> rfl

/-- A difference is the sum with the negative. -/
theorem sub_eq_add_neg (x y : Float) : x - y = x + -y := by
  show (⟨Model.pack (sub Format.binary64 x.toModel.unpack y.toModel.unpack)⟩ : Float)
    = ⟨Model.pack (add Format.binary64 x.toModel.unpack (-y).toModel.unpack)⟩
  rw [unpack_neg]
  congr 2
  rcases x.toModel.unpack with s | - | s | ⟨s, m, e, hm⟩ <;>
    rcases y.toModel.unpack with t | - | t | ⟨t, n, f, hn⟩ <;> try rfl
  cases t <;> simp [sub, add, UnpackedFloat.neg, Sign.apply, ← Int.sub_eq_add_neg]

/-- A small sum or difference with a finite double is finite. -/
theorem isFinite_add (hx : isFinite x = true) (hy : isFinite y = true)
    (hsmall : magnitude y ≤ 2 ^ 66) : isFinite (x + y) = true :=
  (rounded_add hx hy).finite (add_lt_overflow (magnitude_le_greatest hx) hsmall)

/-! ### Products and quotients -/

/-- A product whose exponent is out of range overflows. -/
theorem overflow_le_product {m n : Nat} (hm : 2 ^ 52 ≤ m) (hn : 0 < n) {e f : Int}
    (h : 972 ≤ e + f) : overflow ≤ m * 2 ^ e * (n * 2 ^ f) := by
  have hm' : (2 : ℚ) ^ 52 ≤ m := by exact_mod_cast hm
  have hn' : (1 : ℚ) ≤ n := by exact_mod_cast hn
  calc overflow ≤ 2 ^ 52 * 2 ^ (972 : ℤ) := overflow_le
    _ ≤ m * n * 2 ^ (e + f) := by
      gcongr
      · exact hm'.trans (le_mul_of_one_le_right (by positivity) hn')
      · norm_num
    _ = m * 2 ^ e * (n * 2 ^ f) := by
      rw [zpow_add₀ two_ne_zero]
      ring

theorem rounded_mul (hx : isFinite x = true) (hy : isFinite y = true) :
    Rounded (x * y) (magnitude x * magnitude y) := by
  show Rounded ⟨Model.pack (mul Format.binary64 x.toModel.unpack y.toModel.unpack)⟩ _
  obtain ⟨s, hux, hmx⟩ | ⟨s, m, e, hm, hux, hmx, hfits⟩ := finite_cases hx <;>
    obtain ⟨t, huy, hmy⟩ | ⟨t, n, f, hn, huy, hmy, hfits'⟩ := finite_cases hy <;>
    rw [hux, huy, hmx, hmy]
  · exact rounded_zero _ (by norm_num)
  · exact rounded_zero _ (by positivity)
  · exact rounded_zero _ (by positivity)
  · refine rounded_roundWithAccuracy _ _ _ _ ?_ ?_
    · intro hlt
      by_contra hover
      -- an exponent out of range leaves no factor at the least exponent
      have hfill : 2 ^ 52 ≤ m := by
        obtain ⟨-, -, -, hfill⟩ := hfits
        obtain ⟨-, -, hf, -⟩ := hfits'
        exact hfill.resolve_right (by omega)
      have hbig := overflow_le_product hfill hn (e := e) (f := f) (by omega)
      exact absurd hlt (not_lt.mpr hbig)
    · have hexact : halves (.ofMantissaAndAccuracy (m * n) .exact) = 2 * (m * n) := rfl
      rw [hexact, zpow_add₀ two_ne_zero]
      push_cast
      exact le_of_eq (by ring)

/-- The half units of a quotient are at most twice the quotient. -/
theorem halves_accuracyOfFraction (num den : Nat) :
    halves (.ofMantissaAndAccuracy (num / den) (accuracyOfFraction (num % den) den)) * den
      ≤ 2 * num := by
  have hdiv := Nat.div_add_mod num den
  rw [accuracyOfFraction]
  generalize num / den = q at hdiv
  generalize num % den = rest at hdiv
  have hhalf (r : Nat) (hr : r * den ≤ 2 * rest) : (2 * q + r) * den ≤ 2 * num := by
    rw [← hdiv]
    linarith [Nat.add_mul (2 * q) r den, Nat.mul_assoc 2 q den, Nat.mul_comm q den]
  split_ifs with hzero
  · exact hhalf 0 (by omega)
  · rcases hcompare : compare (2 * rest) den with - | - | -
    · exact hhalf 0 (by omega)
    · exact hhalf 1 (by rw [Nat.compare_eq_eq.mp hcompare]; omega)
    · exact hhalf 1 (by have := Nat.compare_eq_gt.mp hcompare; omega)

/-- A quotient of numbers whose digits are far enough apart overflows. -/
theorem overflow_le_quotient {m n : Nat} (hm : 0 < m) (hn : 0 < n) {e : Int}
    (h : 1025 ≤ (m.log2 : Int) + e - n.log2) : overflow ≤ m * 2 ^ e / n := by
  have hlow : (2 : ℚ) ^ m.log2 ≤ m := by exact_mod_cast Nat.log2_self_le (Nat.ne_of_gt hm)
  have hhigh : (n : ℚ) ≤ 2 ^ (n.log2 + 1) := by exact_mod_cast Nat.lt_log2_self.le
  have hn' : (0 : ℚ) < n := by exact_mod_cast hn
  calc overflow ≤ 2 ^ 52 * 2 ^ (972 : ℤ) := overflow_le
    _ = 2 ^ (1024 : ℤ) := by rw [← zpow_natCast, ← zpow_add₀ two_ne_zero]; rfl
    _ ≤ 2 ^ ((m.log2 : ℤ) + e - (n.log2 + 1 : ℕ)) := by
      gcongr
      · norm_num
      · push_cast
        omega
    _ = 2 ^ m.log2 * 2 ^ e / 2 ^ (n.log2 + 1) := by
      rw [zpow_sub₀ two_ne_zero, zpow_add₀ two_ne_zero, zpow_natCast, zpow_natCast]
    _ ≤ m * 2 ^ e / n := by gcongr

theorem rounded_div (hx : isFinite x = true) (hy : isFinite y = true) (hpos : 0 < magnitude y) :
    Rounded (x / y) (magnitude x / magnitude y) := by
  show Rounded ⟨Model.pack (div Format.binary64 x.toModel.unpack y.toModel.unpack)⟩ _
  obtain ⟨t, -, hmy⟩ | ⟨t, n, f, hn, huy, hmy, -⟩ := finite_cases hy
  · exact absurd hmy (ne_of_gt hpos)
  obtain ⟨s, hux, hmx⟩ | ⟨s, m, e, hm, hux, hmx, -⟩ := finite_cases hx <;> rw [hux, huy, hmx, hmy]
  · exact rounded_zero _ (by norm_num)
  · obtain ⟨least, hleast⟩ : ∃ least, least = min (e - f)
        (Format.binary64.targetExponent (totalExponent m e - totalExponent n f)) := ⟨_, rfl⟩
    have hcore : div Format.binary64 (.finite s m e hm) (.finite t n f hn)
        = roundWithAccuracy Format.binary64 (s / t) ((decreaseExponent m (e - f) least).1 / n) least
            (accuracyOfFraction ((decreaseExponent m (e - f) least).1 % n) n) := by
      rw [hleast]
      rfl
    have htarget : Format.binary64.targetExponent (totalExponent m e - totalExponent n f)
        = max (m.log2 + 1 + e - (n.log2 + 1 + f) - 53) (-1074) := rfl
    have hexact : (m : ℚ) * 2 ^ e / (n * 2 ^ f) = m * 2 ^ (e - f) / n := by
      rw [zpow_sub₀ two_ne_zero]
      field_simp
    have hvalue := decreaseExponent_value m (show least ≤ e - f by omega)
    rw [hcore, hexact]
    generalize (decreaseExponent m (e - f) least).1 = num at hvalue
    have hn' : (0 : ℚ) < n := by exact_mod_cast hn
    refine rounded_roundWithAccuracy _ _ _ _ ?_ ?_
    · intro hlt
      by_contra hover
      have hbig := overflow_le_quotient hm hn (e := e - f) (by omega)
      exact absurd hlt (not_lt.mpr hbig)
    · have hhalves := halves_accuracyOfFraction num n
      generalize halves _ = half at hhalves ⊢
      have hhalves : (half : ℚ) * n ≤ 2 * num := by exact_mod_cast hhalves
      rw [← hvalue, ← mul_div_assoc, le_div_iff₀ hn']
      calc (half : ℚ) * 2 ^ least * n = half * n * 2 ^ least := by ring
        _ ≤ 2 * num * 2 ^ least := by gcongr
        _ = 2 * (num * 2 ^ least) := by ring

/-! ### NaN and infinities -/

theorem isFinite_of_add (h : isFinite (x + y) = true) : isFinite x = true ∧ isFinite y = true := by
  rw [isFinite_eq, unpack_add] at h
  rw [isFinite_eq, isFinite_eq]
  generalize x.toModel.unpack = u at h
  generalize y.toModel.unpack = v at h
  rcases u with s | - | s | ⟨s, m, e, hm⟩ <;> rcases v with t | - | t | ⟨t, n, f, hn⟩
  case infinity.infinity =>
    rw [add] at h
    split at h <;> simp [UnpackedFloat.isFinite] at h
  all_goals first
    | exact ⟨rfl, rfl⟩
    | simp [add, UnpackedFloat.isFinite] at h

theorem isFinite_of_div (h : isFinite (x / y) = true) : isFinite x = true := by
  rw [isFinite_eq, unpack_div] at h
  rw [isFinite_eq]
  generalize x.toModel.unpack = u at h
  generalize y.toModel.unpack = v at h
  rcases u with s | - | s | ⟨s, m, e, hm⟩
  · rcases v with t | - | t | ⟨t, n, f, hn⟩ <;> simp [div, UnpackedFloat.isFinite] at h
  · simp [div, UnpackedFloat.isFinite] at h
  · rfl
  · rfl

theorem isNaN_add_left (hx : x.isNaN = true) : (x + y).isNaN = true := by
  rw [isNaN_eq] at hx
  rw [isNaN_eq, unpack_add]
  generalize x.toModel.unpack = u at hx
  rcases u with s | - | s | ⟨s, m, e, hm⟩ <;> cases hx
  simp [add, UnpackedFloat.isNaN]

theorem isNaN_mul_right (hy : y.isNaN = true) : (x * y).isNaN = true := by
  rw [isNaN_eq] at hy
  rw [isNaN_eq, unpack_mul]
  generalize y.toModel.unpack = v at hy
  rcases v with t | - | t | ⟨t, n, f, hn⟩ <;> cases hy
  rcases x.toModel.unpack with s | - | s | ⟨s, m, e, hm⟩ <;> simp [mul, UnpackedFloat.isNaN]

/-- The square of a double that is not NaN is not either. -/
theorem isNaN_mul_self (hx : x.isNaN = false) : (x * x).isNaN = false := by
  by_cases hfinite : isFinite x = true
  · exact (rounded_mul hfinite hfinite).number
  · rw [isNaN_eq] at hx
    rw [isNaN_eq, unpack_mul]
    rw [isFinite_eq] at hfinite
    generalize x.toModel.unpack = u at hx hfinite
    rcases u with s | - | s | ⟨s, m, e, hm⟩
    · simp [mul, UnpackedFloat.isNaN]
    · cases hx
    · exact absurd rfl hfinite
    · exact absurd rfl hfinite

theorem isNaN_iff : x.isNaN = true ↔ read x = .nan := by
  rw [isNaN_eq, read_eq]
  rcases x.toModel.unpack with s | - | s | ⟨s, m, e, hm⟩ <;>
    simp [UnpackedFloat.isNaN, Reading.of]

/-- A finite double and one that is not NaN have a sum. -/
theorem isNaN_add (hx : isFinite x = true) (hy : y.isNaN = false) : (x + y).isNaN = false := by
  by_cases hfinite : isFinite y = true
  · exact (rounded_add hx hfinite).number
  · rw [isNaN_eq] at hy
    rw [isNaN_eq, unpack_add]
    rw [isFinite_eq] at hx hfinite
    generalize x.toModel.unpack = u at hx
    generalize y.toModel.unpack = v at hy hfinite
    rcases v with t | - | t | ⟨t, n, f, hn⟩
    · rcases u with s | - | s | ⟨s, m, e, hm⟩
      · cases hx
      · cases hx
      · simp [add, UnpackedFloat.isNaN]
      · simp [add, UnpackedFloat.isNaN]
    · cases hy
    · exact absurd rfl hfinite
    · exact absurd rfl hfinite

/-! ### Order -/

theorem lt_iff : x < y ↔ x.toModel.unpack.compare y.toModel.unpack = some .lt := by
  show decide (x.toModel.unpack.lt y.toModel.unpack = true) = true ↔ _
  rw [decide_eq_true_iff, UnpackedFloat.lt, beq_iff_eq]

theorem le_iff : x ≤ y ↔ ∃ o, x.toModel.unpack.compare y.toModel.unpack = some o ∧ o ≠ .gt := by
  show decide (x.toModel.unpack.le y.toModel.unpack = true) = true ↔ _
  rw [decide_eq_true_iff, UnpackedFloat.le, Option.any_eq_true]
  exact exists_congr fun o => and_congr_right fun _ => by cases o <;> decide

/-- Comparing the other way round. -/
theorem compare_swap (u v : UnpackedFloat) : u.compare v = (v.compare u).map Ordering.swap := by
  rcases u with s | - | s | ⟨s, m, e, hm⟩ <;> rcases v with t | - | t | ⟨t, n, f, hn⟩
  case finite.finite =>
    cases s <;> cases t <;>
      simp [UnpackedFloat.compare, Ordering.swap_then, Int.compare_swap, Nat.compare_swap]
  all_goals first
    | rfl
    | cases s <;> rfl
    | cases t <;> rfl
    | cases s <;> cases t <;> rfl

theorem compare_ne_none {u v : UnpackedFloat} (hu : u.isNaN = false) (hv : v.isNaN = false) :
    u.compare v ≠ none := by
  rcases u with s | - | s | ⟨s, m, e, hm⟩ <;> rcases v with t | - | t | ⟨t, n, f, hn⟩ <;>
    cases hu <;> cases hv <;> (try cases s) <;> (try cases t) <;> simp [UnpackedFloat.compare]

theorem le_of_lt (h : x < y) : x ≤ y := le_iff.mpr ⟨.lt, lt_iff.mp h, by decide⟩

/-- **Doubles that are not NaN are totally ordered.** -/
theorem not_lt_iff_le (hx : x.isNaN = false) (hy : y.isNaN = false) : ¬ x < y ↔ y ≤ x := by
  obtain ⟨o, ho⟩ := Option.ne_none_iff_exists'.mp (compare_ne_none hx hy)
  rw [lt_iff, le_iff, compare_swap y.toModel.unpack, ho]
  cases o <;> simp [Ordering.swap]

/-- Nothing is less than NaN, -/
theorem not_lt_of_isNaN (hy : y.isNaN = true) : ¬ x < y := by
  rw [isNaN_eq] at hy
  rw [lt_iff]
  generalize y.toModel.unpack = v at hy
  rcases v with t | - | t | ⟨t, n, f, hn⟩ <;> cases hy
  rcases x.toModel.unpack with s | - | s | ⟨s, m, e, hm⟩ <;> simp [UnpackedFloat.compare]

/-- and NaN is not less than or equal to anything. -/
theorem not_le_of_isNaN (hx : x.isNaN = true) : ¬ x ≤ y := by
  rw [isNaN_eq] at hx
  rw [le_iff]
  generalize x.toModel.unpack = u at hx
  rcases u with s | - | s | ⟨s, m, e, hm⟩ <;> cases hx
  simp [UnpackedFloat.compare]

/-! ### Signs -/

/-- Equal signs make a product without one. -/
theorem negative_mul (h : (read x).negative = (read y).negative) :
    (read (x * y)).negative = false := by
  rw [read_eq, unpack_mul]
  rw [read_eq, read_eq] at h
  generalize x.toModel.unpack = u at h
  generalize y.toModel.unpack = v at h
  have hsign (s t : Sign) (h : negative s = negative t) : negative (s * t) = false := by
    cases s <;> cases t <;> first | rfl | cases h
  rcases u with s | - | s | ⟨s, m, e, hm⟩ <;> rcases v with t | - | t | ⟨t, n, f, hn⟩
  case finite.finite =>
    rw [mul, negative_roundWithAccuracy]
    exact hsign s t h
  all_goals simp [mul, Reading.of, Reading.negative]
  all_goals exact hsign _ _ h

theorem negative_neg (hx : x.isNaN = false) : (read (-x)).negative = !(read x).negative := by
  rw [isNaN_eq] at hx
  rw [read_eq, read_eq, unpack_neg]
  generalize x.toModel.unpack = u at hx
  rcases u with s | - | s | ⟨s, m, e, hm⟩
  · cases s <;> rfl
  · cases hx
  · cases s <;> rfl
  · cases s <;> rfl

/-- A number with a greater exponent is no less, if it fills its digits. -/
theorem fits_mono {s t : Sign} {m n : Nat} {e f : Int} {hm : 0 < m} {hn : 0 < n}
    (hx : Fits (.finite s m e hm)) (hy : Fits (.finite t n f hn))
    (h : e < f ∨ e = f ∧ m ≤ n) : (m : ℚ) * 2 ^ e ≤ n * 2 ^ f := by
  rcases h with hlt | ⟨rfl, hle⟩
  · obtain ⟨hdigits, hleast, -, -⟩ := hx
    have hfill : 2 ^ 52 ≤ n := hy.2.2.2.resolve_right (by omega)
    have hm : (m : ℚ) ≤ 2 * n := by
      have : m ≤ 2 * n := by omega
      exact_mod_cast this
    calc (m : ℚ) * 2 ^ e ≤ 2 * n * 2 ^ e := by gcongr
      _ = n * 2 ^ (e + 1) := by
        rw [zpow_add_one₀ two_ne_zero]
        ring
      _ ≤ n * 2 ^ f := by
        gcongr
        · norm_num
        · omega
  · gcongr

/-- The order of doubles without a sign is that of their magnitudes. -/
theorem magnitude_mono (hx : (read x).negative = false) (h : x ≤ y) :
    magnitude x ≤ magnitude y := by
  obtain ⟨o, ho, hle⟩ := le_iff.mp h
  have hfits : Fits x.toModel.unpack := fits_unpack _
  have hfits' : Fits y.toModel.unpack := fits_unpack _
  have hrange : isFinite x = true → magnitude x ≤ 2 ^ 1024 := fun h => ((isFinite_iff x).mp h).2.le
  rw [isFinite_eq] at hrange
  rw [magnitude, read_eq] at hrange ⊢
  rw [magnitude, read_eq]
  rw [read_eq] at hx
  generalize x.toModel.unpack = u at *
  generalize y.toModel.unpack = v at *
  rcases u with s | - | s | ⟨s, m, e, hm⟩
  · cases s
    · cases hx
    · rcases v with t | - | t | ⟨t, n, f, hn⟩ <;> (try cases t) <;> cases ho <;>
        first
        | exact le_rfl
        | exact absurd rfl hle
  · rcases v with t | - | t | ⟨t, n, f, hn⟩ <;> cases ho
  · simpa [Reading.of, Reading.magnitude] using Reading.magnitude_nonneg _
  · cases s
    · cases hx
    rcases v with t | - | t | ⟨t, n, f, hn⟩
    · cases t
      · cases ho
        exact absurd rfl hle
      · exact hrange rfl
    · cases ho
    · cases ho
      exact absurd rfl hle
    · cases t <;> cases ho
      · exact absurd rfl hle
      · refine fits_mono hfits hfits' ?_
        rcases lt_trichotomy e f with hlt | rfl | hgt
        · exact .inl hlt
        · rw [Int.compare_eq_eq.mpr rfl] at hle
          exact .inr ⟨rfl, Nat.compare_ne_gt.mp hle⟩
        · rw [Int.compare_eq_gt.mpr hgt] at hle
          exact absurd rfl hle

theorem positive_of_not_le_zero (hx : isFinite x = true) (h : ¬ x ≤ 0.0) :
    (read x).negative = false ∧ 0 < magnitude x := by
  rw [le_iff] at h
  have hzero : (0.0 : Float).toModel.unpack = .zero .positive := by rfl
  rw [hzero] at h
  obtain ⟨s, hu, -⟩ | ⟨s, m, e, hm, hu, hmag, -⟩ := finite_cases hx <;> rw [hu] at h
  · exact absurd ⟨.eq, rfl, by decide⟩ h
  · rcases s with - | -
    · exact absurd ⟨.lt, rfl, by decide⟩ h
    · have hm' : (0 : ℚ) < m := by exact_mod_cast hm
      rw [read_eq, hu, hmag]
      exact ⟨rfl, by positivity⟩

theorem not_lt_zero (hx : (read x).negative = false) : ¬ x < 0.0 := by
  have hzero : (0.0 : Float).toModel.unpack = .zero .positive := by rfl
  rw [lt_iff, hzero]
  rw [read_eq] at hx
  generalize x.toModel.unpack = u at hx
  rcases u with s | - | s | ⟨s, m, e, hm⟩ <;> (try cases s) <;>
    simp [UnpackedFloat.compare, Reading.of, Reading.negative, negative] at hx ⊢

/-- The lesser of two doubles without a sign is no greater than either. -/
theorem magnitude_least (hx : x.isNaN = false) (hy : y.isNaN = false)
    (hx' : (read x).negative = false) (hy' : (read y).negative = false) :
    (least x y).isNaN = false ∧ magnitude (least x y) ≤ magnitude x ∧
      magnitude (least x y) ≤ magnitude y := by
  rw [least, hx, hy, if_neg Bool.false_ne_true, if_neg Bool.false_ne_true]
  split_ifs with h
  · exact ⟨hy, magnitude_mono hy' (le_of_lt h), le_rfl⟩
  · exact ⟨hx, le_rfl, magnitude_mono hx' ((not_lt_iff_le hy hx).mp h)⟩

end ForkChoice.Binary64
