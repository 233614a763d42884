/-
ForkChoice/Proofs/Binary64/Encoding.lean

Doubles as bits, as unpacked numbers and as readings.

The operations on doubles unpack the bits of their arguments, compute, and pack
the bits of the result.  `read_eq` says that `read`, which takes the bits apart
by division, sees the number that they unpack to.  A number unpacked from bits
has a mantissa below `2 ^ 53` that fills its 53 digits unless the exponent is
the least one (`fits_unpack`), and packing keeps such a number (`unpack_pack`);
a number that does not fit loses digits or becomes an infinity, but never a NaN
(`unpack_pack_finite`).
-/
import ForkChoice.Binary64.Basic
import Mathlib

namespace ForkChoice.Binary64

open Float (Model)
open Float.Model (Format UnpackedFloat)
open Float.Model.UnpackedFloat

/-! ### The fields of a bit pattern -/

theorem toNat_unpackExponent (b : BitVec Format.binary64.numBits) :
    (unpackExponent b).toNat = b.toNat / 2 ^ 52 % 2 ^ 11 := by
  simp [unpackExponent, BitVec.extractLsb, Nat.shiftRight_eq_div_pow]

theorem toNat_unpackMantissa (b : BitVec Format.binary64.numBits) :
    (unpackMantissa b).toNat = b.toNat % 2 ^ 52 := by
  simp [unpackMantissa, BitVec.extractLsb]

/-- A sign as a truth value. -/
def negative : Sign → Bool
  | .negative => true
  | .positive => false

theorem negative_unpackSign (b : BitVec Format.binary64.numBits) :
    negative (Sign.ofBitVec (unpackSign b)) = decide (2 ^ 63 ≤ b.toNat) := by
  have hb : b.toNat < 2 ^ 64 := b.isLt
  have hbit : (unpackSign b).toNat = b.toNat / 2 ^ 63 % 2 := by
    simp [unpackSign, BitVec.extractLsb, Nat.shiftRight_eq_div_pow]
  by_cases h : 2 ^ 63 ≤ b.toNat
  · have hone : unpackSign b = 1#1 := BitVec.eq_of_toNat_eq (by rw [hbit]; simp; omega)
    rw [hone, decide_eq_true h]
    rfl
  · have hzero : unpackSign b = 0#1 := BitVec.eq_of_toNat_eq (by rw [hbit]; simp; omega)
    rw [hzero, decide_eq_false h]
    rfl

/-! ### Readings of unpacked numbers -/

/-- The reading of an unpacked number. -/
def Reading.of : UnpackedFloat → Reading
  | .notANumber => .nan
  | .infinity s => .infinite (negative s)
  | .zero s => .finite (negative s) 0 (-1074)
  | .finite s m e _ => .finite (negative s) m e

/-- The sign bit of a reading. -/
def Reading.negative : Reading → Bool
  | .nan => false
  | .infinite b => b
  | .finite b _ _ => b

/-- The reading of a pattern of bits. -/
def decode (bits : Nat) : Reading :=
  let field : Nat := bits / 2 ^ 52 % 2 ^ 11
  let fraction : Nat := bits % 2 ^ 52
  if field = 2047 then
    if fraction = 0 then .infinite (2 ^ 63 ≤ bits) else .nan
  else if field = 0 then .finite (2 ^ 63 ≤ bits) fraction (-1074)
  else .finite (2 ^ 63 ≤ bits) (2 ^ 52 + fraction) ((field : Int) - 1075)

theorem toNat_one_append (v : BitVec 52) : (1#1 ++ v).toNat = 2 ^ 52 + v.toNat := by
  rw [BitVec.toNat_append, ← Nat.shiftLeft_add_eq_or_of_lt v.isLt]
  rfl

/-- Unpacking a pattern of bits is reading it. -/
theorem of_unpack (b : BitVec Format.binary64.numBits) :
    Reading.of (unpack Format.binary64 b) = decode b.toNat := by
  have hfield := toNat_unpackExponent b
  have hfraction := toNat_unpackMantissa b
  have hfull : unpackExponent b = -1#11 ↔ b.toNat / 2 ^ 52 % 2 ^ 11 = 2047 := by
    rw [← hfield, ← BitVec.toNat_inj]; rfl
  have hnone : unpackExponent b = 0#11 ↔ b.toNat / 2 ^ 52 % 2 ^ 11 = 0 := by
    rw [← hfield, ← BitVec.toNat_inj]; rfl
  have hround : unpackMantissa b = 0#52 ↔ b.toNat % 2 ^ 52 = 0 := by
    rw [← hfraction, ← BitVec.toNat_inj]; rfl
  simp only [unpack, decode, hfull, hnone, hround, ← negative_unpackSign]
  split_ifs with h₁ h₂ h₃ h₄
  · rfl
  · rfl
  · simp [Reading.of, h₄]
  · simp only [Reading.of, hfraction, hfield, h₃]
    rfl
  · simp only [Reading.of, toNat_one_append, hfraction, hfield]
    rfl

/-- `read` sees the number that the bits unpack to. -/
theorem read_eq (x : Float) : read x = Reading.of x.toModel.unpack :=
  (of_unpack x.toModel.toBits.toBitVec).symm

/-! ### The numbers that fit into a double -/

/-- A number has the mantissa and the exponent of a double: the mantissa fills
its 53 digits, unless the exponent is the least one. -/
def Fits : UnpackedFloat → Prop
  | .finite _ m e _ => m < 2 ^ 53 ∧ -1074 ≤ e ∧ e ≤ 971 ∧ (2 ^ 52 ≤ m ∨ e = -1074)
  | _ => True

theorem fits_unpack (b : BitVec Format.binary64.numBits) : Fits (unpack Format.binary64 b) := by
  have hfraction : (unpackMantissa b).toNat < 2 ^ 52 := (unpackMantissa b).isLt
  have hfield : (unpackExponent b).toNat < 2 ^ 11 := (unpackExponent b).isLt
  have hbias : ((Format.binary64.exponentBias : Nat) : Int) = 1023 := rfl
  have hfull : unpackExponent b = -1#11 ↔ (unpackExponent b).toNat = 2047 := by
    rw [← BitVec.toNat_inj]; rfl
  have hnone : unpackExponent b = 0#11 ↔ (unpackExponent b).toNat = 0 := by
    rw [← BitVec.toNat_inj]; rfl
  simp only [unpack, hfull, hnone]
  split_ifs with h₁ h₂ h₃ h₄
  · trivial
  · trivial
  · trivial
  · simp only [Fits, hbias, h₃]
    omega
  · simp only [Fits, hbias, toNat_one_append]
    omega

/-! ### Packing -/

theorem ofBitVec_unpackSign_packComponents (s : Sign) (field : BitVec 11) (fraction : BitVec 52) :
    Sign.ofBitVec (unpackSign (packComponents Format.binary64 s field fraction)) = s := by
  have h : unpackSign (packComponents Format.binary64 s field fraction) = s.toBitVec := by
    apply BitVec.eq_of_getLsbD_eq
    intro i hi
    obtain rfl : i = 0 := by omega
    have htop : (s.toBitVec ++ field ++ fraction).getLsbD 63 = s.toBitVec.getLsbD 0 := by
      rw [BitVec.getLsbD_append, BitVec.getLsbD_append]
      rfl
    simp only [unpackSign, packComponents, BitVec.getLsbD_cast, BitVec.getLsbD_extractLsb]
    exact htop
  rw [h]
  cases s <;> rfl

/-- What is left of a number when it is packed: an infinity if its exponent is
too great, and otherwise the number itself or the last digits of its mantissa
at the least exponent. -/
theorem unpack_pack_finite (s : Sign) (m : Nat) (e : Int) (hm : 0 < m) (he : -1074 ≤ e) :
    (Model.pack (.finite s m e hm)).unpack
      = if 972 ≤ e then .infinity s
        else if m.log2 = 52 then .finite s m e hm
        else if h : m % 2 ^ 52 = 0 then .zero s
        else .finite s (m % 2 ^ 52) (-1074) (Nat.pos_of_ne_zero h) := by
  have hbias : (e + (Format.binary64.exponentBias : Nat)
      + (Format.binary64.mantissaBitsWithoutImplicit : Nat)).toNat = (e + 1075).toNat := by
    show (e + 1023 + 52).toNat = _
    omega
  have hdigits : Format.binary64.mantissaBits = 53 := rfl
  have hfraction : (BitVec.ofNat 52 m).toNat = m % 2 ^ 52 := BitVec.toNat_ofNat m 52
  simp only [Model.pack, Model.unpack, pack, hbias, hdigits]
  by_cases h₁ : 972 ≤ e
  · have hbig : 2 ^ 11 ≤ (e + 1075).toNat + 1 := by omega
    rw [if_pos hbig, if_pos h₁]
    cases s <;> rfl
  have hfield : (BitVec.ofNat 11 (e + 1075).toNat).toNat = (e + 1075).toNat :=
    Nat.mod_eq_of_lt (by omega)
  rw [if_neg (by omega), if_neg h₁]
  by_cases h₂ : m.log2 = 52
  · obtain ⟨hlow, hhigh⟩ := (Nat.log2_eq_iff (Nat.ne_of_gt hm)).mp h₂
    have hfull : BitVec.ofNat 11 (e + 1075).toNat ≠ -1#11 := by
      rw [Ne, ← BitVec.toNat_inj, hfield]
      simp
      omega
    have hnone : BitVec.ofNat 11 (e + 1075).toNat ≠ 0#11 := by
      rw [Ne, ← BitVec.toNat_inj, hfield]
      simp
      omega
    rw [if_pos (by omega), if_pos h₂]
    simp only [unpack, unpackMantissa_packComponents, unpackExponent_packComponents,
      ofBitVec_unpackSign_packComponents, if_neg hfull, if_neg hnone, toNat_one_append, hfraction,
      hfield]
    congr 1
    · omega
    · show ((e + 1075).toNat : Int) - (1023 + 52) = e
      omega
  · have hround : BitVec.ofNat 52 m = 0#52 ↔ m % 2 ^ 52 = 0 := by
      rw [← hfraction, ← BitVec.toNat_inj]; rfl
    rw [if_neg (by omega), if_neg h₂]
    simp only [unpack, unpackMantissa_packComponents, unpackExponent_packComponents,
      ofBitVec_unpackSign_packComponents, hfraction]
    rw [if_neg (by decide), if_pos trivial]
    by_cases h₃ : m % 2 ^ 52 = 0
    · rw [dif_pos (hround.mpr h₃), dif_pos h₃]
    · rw [dif_neg fun h => h₃ (hround.mp h), dif_neg h₃]
      rfl

/-- Packing keeps a sign. -/
theorem negative_unpack_pack_finite (s : Sign) (m : Nat) (e : Int) (hm : 0 < m) (he : -1074 ≤ e) :
    (Reading.of (Model.pack (.finite s m e hm)).unpack).negative = negative s := by
  rw [unpack_pack_finite s m e hm he]
  split_ifs <;> rfl

/-- Packing keeps a number that fits. -/
theorem unpack_pack {u : UnpackedFloat} (h : Fits u) : (Model.pack u).unpack = u := by
  rcases u with s | - | s | ⟨s, m, e, hm⟩
  · cases s <;> rfl
  · rfl
  · cases s <;> rfl
  · obtain ⟨hdigits, hleast, hgreatest, hfill⟩ := h
    rw [unpack_pack_finite s m e hm hleast, if_neg (by omega)]
    by_cases hlog : m.log2 = 52
    · rw [if_pos hlog]
    · have hsmall : m < 2 ^ 52 := by
        have hle := (Nat.log2_lt (Nat.ne_of_gt hm)).mpr hdigits
        exact (Nat.log2_lt (Nat.ne_of_gt hm)).mp (by omega)
      obtain rfl := hfill.resolve_left (by omega)
      simp only [Nat.mod_eq_of_lt hsmall]
      rw [if_neg hlog, dif_neg (Nat.ne_of_gt hm)]

@[simp] theorem unpack_pack_notANumber : (Model.pack .notANumber).unpack = .notANumber := rfl

@[simp] theorem unpack_pack_infinity (s : Sign) :
    (Model.pack (.infinity s)).unpack = .infinity s := unpack_pack trivial

@[simp] theorem unpack_pack_zero (s : Sign) : (Model.pack (.zero s)).unpack = .zero s :=
  unpack_pack trivial

/-! ### Magnitudes -/

/-- The absolute value of a reading.  An infinity counts as the first power of
two out of range. -/
def Reading.magnitude : Reading → ℚ
  | .nan => 0
  | .infinite _ => 2 ^ 1024
  | .finite _ m e => m * 2 ^ e

/-- The absolute value of a double. -/
def magnitude (x : Float) : ℚ := (read x).magnitude

theorem Reading.magnitude_nonneg (r : Reading) : 0 ≤ r.magnitude := by
  rcases r with - | - | - <;> simp only [magnitude] <;> positivity

theorem magnitude_nonneg (x : Float) : 0 ≤ magnitude x := (read x).magnitude_nonneg

theorem isFinite_eq (x : Float) : isFinite x = x.toModel.unpack.isFinite := by
  rw [isFinite, read_eq]
  rcases x.toModel.unpack with - | - | - | - <;> rfl

/-- The finite doubles are the numbers of a magnitude in range. -/
theorem isFinite_iff (x : Float) :
    isFinite x = true ↔ x.isNaN = false ∧ magnitude x < 2 ^ 1024 := by
  have hnan : x.isNaN = x.toModel.unpack.isNaN := rfl
  have hfits : Fits x.toModel.unpack := fits_unpack _
  rw [isFinite_eq, hnan, magnitude, read_eq]
  generalize x.toModel.unpack = u at hfits
  rcases u with s | - | s | ⟨s, m, e, hm⟩
  · simp [UnpackedFloat.isFinite, Reading.of, Reading.magnitude]
  · simp [UnpackedFloat.isFinite, UnpackedFloat.isNaN]
  · simp [UnpackedFloat.isFinite, UnpackedFloat.isNaN, Reading.of, Reading.magnitude]
  · obtain ⟨hdigits, -, hgreatest, -⟩ := hfits
    have hlt : (m : ℚ) * 2 ^ e < 2 ^ 1024 := by
      calc (m : ℚ) * 2 ^ e < 2 ^ 53 * 2 ^ e := by
            have : (m : ℚ) < 2 ^ 53 := by exact_mod_cast hdigits
            gcongr
        _ ≤ 2 ^ 53 * 2 ^ (971 : ℤ) := by gcongr; norm_num
        _ = 2 ^ 1024 := by rw [zpow_ofNat, ← pow_add]
    simpa [UnpackedFloat.isFinite, UnpackedFloat.isNaN, Reading.of, Reading.magnitude] using hlt

/-! ### Doubles from bits and natural numbers -/

/-- A double made of bits reads as they do. -/
theorem read_ofBits {bits : Nat} (h : bits < 2 ^ 64) : read (ofBits bits) = decode bits := by
  have hmodel : (ofBits bits).toModel
      = Model.pack (unpack Format.binary64 (UInt64.ofNat bits).toBitVec) := rfl
  rw [read_eq, hmodel, unpack_pack (fits_unpack _), of_unpack]
  congr 1
  exact Nat.mod_eq_of_lt h

/-- The mantissa to which a natural number is rounded has 53 digits, or is the
first with one more. -/
theorem roundQuotient_bounds {num den low : Nat} (hden : 0 < den) (hlow : low * den ≤ num)
    (hhigh : num < 2 * low * den) :
    low ≤ roundQuotient num den ∧ roundQuotient num den ≤ 2 * low := by
  have h₁ : low ≤ num / den := (Nat.le_div_iff_mul_le hden).mpr hlow
  have h₂ : num / den < 2 * low := (Nat.div_lt_iff_lt_mul hden).mpr hhigh
  rw [roundQuotient]
  split_ifs <;> omega

theorem lt_range {n : Nat} (h : n < 2 ^ 128) : n < 2 ^ 1023 := by
  calc n < 2 ^ 128 := h
    _ ≤ 2 ^ 1023 := Nat.pow_le_pow_right (by decide) (by decide)

theorem read_ofNat {n : Nat} (hpos : 0 < n) (hlt : n < 2 ^ 1023) :
    ∃ m e, read (ofNat n) = .finite false m e ∧ 2 ^ 52 ≤ m ∧ m < 2 ^ 53 ∧
      (n.log2 : Int) - 52 ≤ e ∧ e ≤ (n.log2 : Int) - 51 := by
  obtain ⟨hlow, hhigh⟩ := (Nat.log2_eq_iff (Nat.ne_of_gt hpos)).mp (rfl : n.log2 = n.log2)
  have htop : n.log2 < 1023 := (Nat.log2_lt (Nat.ne_of_gt hpos)).mpr hlt
  rw [ofNat, if_neg (Nat.ne_of_gt hpos)]
  generalize n.log2 = top at *
  dsimp only
  obtain ⟨mantissa, hmantissa⟩ : ∃ mantissa, mantissa = if top ≤ 52 then n * 2 ^ (52 - top)
      else roundQuotient n (2 ^ (top - 52)) := ⟨_, rfl⟩
  have hbounds : 2 ^ 52 ≤ mantissa ∧ mantissa ≤ 2 ^ 53 := by
    rw [hmantissa]
    split_ifs with htop'
    · have hpow : 2 ^ top * 2 ^ (52 - top) = 2 ^ 52 := by
        rw [← Nat.pow_add, Nat.add_sub_cancel' htop']
      have h₁ := Nat.mul_le_mul_right (2 ^ (52 - top)) hlow
      have h₂ := Nat.mul_le_mul_right (2 ^ (52 - top)) hhigh.le
      rw [Nat.pow_succ, Nat.mul_right_comm] at h₂
      omega
    · have hpow : 2 ^ 52 * 2 ^ (top - 52) = 2 ^ top := by
        rw [← Nat.pow_add, Nat.add_sub_cancel' (by omega)]
      refine roundQuotient_bounds (Nat.two_pow_pos _) (by omega) ?_
      rw [Nat.mul_assoc, hpow, Nat.mul_comm, ← Nat.pow_succ]
      exact hhigh
  rw [← hmantissa, read_ofBits (by omega)]
  -- a mantissa with one digit more has moved on to the next exponent
  have hfield : ((top + 1023) * 2 ^ 52 + (mantissa - 2 ^ 52)) / 2 ^ 52
      = top + 1023 + (mantissa - 2 ^ 52) / 2 ^ 52 := by omega
  have hnext : (mantissa - 2 ^ 52) / 2 ^ 52 ≤ 1 := by omega
  simp only [decode, hfield]
  rw [if_neg (by omega), if_neg (by omega), decide_eq_false (by omega)]
  refine ⟨_, _, rfl, by omega, by omega, by omega, by omega⟩

theorem isFinite_ofNat {n : Nat} (hlt : n < 2 ^ 1023) : isFinite (ofNat n) = true := by
  rcases Nat.eq_zero_or_pos n with rfl | hpos
  · decide +kernel
  · obtain ⟨m, e, hread, -⟩ := read_ofNat hpos hlt
    rw [isFinite, hread]

theorem negative_ofNat {n : Nat} (hlt : n < 2 ^ 1023) : (read (ofNat n)).negative = false := by
  rcases Nat.eq_zero_or_pos n with rfl | hpos
  · decide +kernel
  · obtain ⟨m, e, hread, -⟩ := read_ofNat hpos hlt
    rw [hread]
    rfl

theorem one_le_magnitude_ofNat {n : Nat} (hpos : 0 < n) (hlt : n < 2 ^ 1023) :
    1 ≤ magnitude (ofNat n) := by
  obtain ⟨m, e, hread, hm, -, he, -⟩ := read_ofNat hpos hlt
  have hm' : (2 : ℚ) ^ 52 ≤ m := by exact_mod_cast hm
  have he' : (-52 : ℤ) ≤ e := le_trans (by simp) he
  rw [magnitude, hread, Reading.magnitude]
  calc (1 : ℚ) = 2 ^ 52 * 2 ^ (-52 : ℤ) := by norm_num
    _ ≤ m * 2 ^ e :=
        mul_le_mul hm' (zpow_le_zpow_right₀ one_le_two he') (by norm_num) (Nat.cast_nonneg m)

theorem magnitude_ofNat_pos {n : Nat} (hpos : 0 < n) (hlt : n < 2 ^ 1023) :
    0 < magnitude (ofNat n) :=
  lt_of_lt_of_le one_pos (one_le_magnitude_ofNat hpos hlt)

/-- The double of a natural number is less than four times as great. -/
theorem magnitude_ofNat_le {n : Nat} (hlt : n < 2 ^ 1023) : magnitude (ofNat n) ≤ 4 * n := by
  rcases Nat.eq_zero_or_pos n with rfl | hpos
  · have hread : read (ofNat 0) = .finite false 0 (-1074) := by decide +kernel
    rw [magnitude, hread]
    simp [Reading.magnitude]
  · obtain ⟨m, e, hread, -, hm, -, he⟩ := read_ofNat hpos hlt
    have hlow : (2 : ℚ) ^ n.log2 ≤ n := by exact_mod_cast Nat.log2_self_le (Nat.ne_of_gt hpos)
    have hm' : (m : ℚ) ≤ 2 ^ 53 := by exact_mod_cast hm.le
    rw [magnitude, hread, Reading.magnitude]
    calc (m : ℚ) * 2 ^ e ≤ 2 ^ 53 * 2 ^ ((n.log2 : ℤ) - 51) := by
          gcongr
          norm_num
      _ = 4 * 2 ^ n.log2 := by
          rw [zpow_sub₀ two_ne_zero, zpow_natCast, zpow_ofNat]
          ring
      _ ≤ 4 * n := by gcongr

end ForkChoice.Binary64
