/-
ForkChoice/Proofs/Gating.lean

When the gate lets a takeover through.

A verdict refuses a takeover whose ratio is less than the required one, and a
standing passes if its ratio is no less.  The two are opposites unless one of
the ratios is NaN.  Ratios of work never are (`isNaN_workRatio`).  A required
ratio is NaN, with parameters in range, exactly if three halves of pi times the
period of a sinusoid is not (`Gate.isNaN_required_iff`): the phase is infinite
then, and infinity has no sine.  So such a gate lets every takeover through
though none passes, and any other gate lets through the takeovers that pass
(`headSwitch_iff_passes`).
-/
import ForkChoice.Proofs.Binary64.Arithmetic
import ForkChoice.Proofs.Store.Contents
import ForkChoice.Settings.Basic
import ForkChoice.Verdict

namespace ForkChoice

open Binary64

/-! ### Ratios of work -/

theorem isNaN_workRatio (fork canonical candidate : Difficulty) :
    (workRatio fork canonical candidate).isNaN = false := by
  have hlt (d : Difficulty) : d.toNat < 2 ^ 1023 := lt_range d.toNat_lt
  rw [workRatio]
  split_ifs with hzero
  · decide +kernel
  · have hpos : 0 < (canonical.minus fork).toNat :=
      Nat.pos_of_ne_zero fun h => hzero (Difficulty.ext h)
    exact (rounded_div (isFinite_ofNat (hlt _)) (isFinite_ofNat (hlt _))
      (magnitude_ofNat_pos hpos (hlt _))).number

/-! ### Parameters in range -/

/-- The parameters of a gate are in range. -/
structure Gate.InRange (g : Gate) : Prop where
  ceiling : isFinite g.ceiling = true
  period : isFinite g.sinusoidPeriod = true
  period_pos : ¬ g.sinusoidPeriod ≤ 0.0
  scale : isFinite g.exponentialScale = true
  scale_pos : ¬ g.exponentialScale ≤ 0.0

theorem Gate.inRange_of_check {g : Gate} (checked : g.check = .ok ()) : g.InRange := by
  have holds {setting : Setting} {a b : Bool} {u : Unit}
      (passed : setting.ensure (a && !b) = .ok u) : a = true ∧ b = false := by
    unfold Setting.ensure at passed
    split at passed
    · simp_all
    · cases passed
  unfold check at checked
  obtain ⟨_, ceiling, checked⟩ := except_bind_eq_ok checked
  obtain ⟨_, period, checked⟩ := except_bind_eq_ok checked
  exact {
    ceiling := (holds ceiling).1
    period := (holds period).1
    period_pos := of_decide_eq_false (holds period).2
    scale := (holds checked).1
    scale_pos := of_decide_eq_false (holds checked).2 }

/-! ### The arguments of the machine's functions -/

namespace Curve

/-- What a curve takes the sine or the exponential of. -/
def argument (curve : Curve) (elapsed : Float) : Float :=
  match curve with
  | sinusoidal _ period =>
    (least (clampElapsed elapsed) (crest period) + 1.5 * Binary64.pi * period) / period
  | exponential _ scale =>
    -(clampElapsed elapsed / scale * (clampElapsed elapsed / scale))

theorem required_sinusoidal (amplitude period elapsed : Float) :
    (sinusoidal amplitude period).required elapsed
      = amplitude * Binary64.sin ((sinusoidal amplitude period).argument elapsed)
        + amplitude + 1.0 := rfl

theorem required_exponential (ceiling scale elapsed : Float) :
    (exponential ceiling scale).required elapsed
      = 1.0 + (ceiling - 1.0)
        * (1.0 - Binary64.exp ((exponential ceiling scale).argument elapsed)) := rfl

/-- The sine or the exponential of the machine is finite at a curve's argument,
if the argument is. -/
def Computes (curve : Curve) (elapsed : Float) : Prop :=
  isFinite (curve.argument elapsed) = true →
    match curve with
    | sinusoidal .. => isFinite (curve.argument elapsed).sin = true
    | exponential .. => isFinite (curve.argument elapsed).exp = true

/-- Natural numbers are times as they are. -/
theorem clampElapsed_ofNat {n : Nat} (hlt : n < 2 ^ 1023) :
    clampElapsed (ofNat n) = ofNat n := by
  have hnumber := ((isFinite_iff _).mp (isFinite_ofNat hlt)).1
  rw [clampElapsed, hnumber, decide_eq_false (not_lt_zero (negative_ofNat hlt))]
  exact if_neg (by decide)

/-! ### The sinusoid -/

variable {period : Float} {n : Nat}

theorem read_pi : read Binary64.pi = .finite false 7074237752028440 (-51) := by decide +kernel

theorem magnitude_pi_le : magnitude Binary64.pi ≤ 4 := by
  rw [magnitude, read_pi, Reading.magnitude]
  norm_num

theorem read_three_halves_pi :
    read (1.5 * Binary64.pi) = .finite false 5305678314021330 (-50) := by decide +kernel

theorem magnitude_three_halves_pi_le : magnitude (1.5 * Binary64.pi) ≤ 5 := by
  rw [magnitude, read_three_halves_pi, Reading.magnitude]
  norm_num

/-- **The phase of a sinusoid is finite, unless its start is out of range.**  The
start is three halves of pi times the period; the time since then is at most the
crest's, pi periods, so the phase is a small number. -/
theorem isFinite_phase (amplitude : Float) (hperiod : isFinite period = true)
    (hpos : ¬ period ≤ 0.0) (hn : n < 2 ^ 64)
    (hrange : isFinite (1.5 * Binary64.pi * period) = true) :
    isFinite ((sinusoidal amplitude period).argument (ofNat n)) = true := by
  have hlt : n < 2 ^ 1023 := lt_range (by omega)
  obtain ⟨hsign, hpos⟩ := positive_of_not_le_zero hperiod hpos
  have hpi : isFinite Binary64.pi = true := by rw [isFinite, read_pi]
  have hangle : isFinite (1.5 * Binary64.pi) = true := by rw [isFinite, read_three_halves_pi]
  have hcrest : Rounded (crest period) _ := rounded_mul hpi hperiod
  have hstart := rounded_mul hangle hperiod
  have hpi_le := mul_le_mul_of_nonneg_right magnitude_pi_le hpos.le
  have hangle_le := mul_le_mul_of_nonneg_right magnitude_three_halves_pi_le hpos.le
  -- the time is small, and at most eight periods
  obtain ⟨hnumber, hsmall, hperiods⟩ := magnitude_least
    ((isFinite_iff _).mp (isFinite_ofNat hlt)).1 hcrest.number (negative_ofNat hlt)
    (negative_mul (by rw [read_pi, hsign]; rfl))
  have hsmall : magnitude (least (ofNat n) (crest period)) ≤ 2 ^ 66 := by
    have hn' : (n : ℚ) ≤ 2 ^ 64 := by exact_mod_cast hn.le
    linarith [hsmall.trans (magnitude_ofNat_le hlt)]
  have hperiods := hperiods.trans hcrest.magnitude_le
  have htime : isFinite (least (ofNat n) (crest period)) = true :=
    (isFinite_iff _).mpr
      ⟨hnumber, hsmall.trans_lt (pow_lt_pow_right₀ one_lt_two (by norm_num))⟩
  -- so adding it does not overflow, and the sum is at most 36 periods
  have hsum := rounded_add hrange htime
  rw [argument, clampElapsed_ofNat hlt, add_symm]
  refine (rounded_div (isFinite_add hrange htime hsmall) hperiod hpos).finite (lt_overflow ?_)
  rw [div_le_iff₀ hpos]
  linarith [hsum.magnitude_le, hstart.magnitude_le]

/-- A sinusoid whose phase is finite has its start in range. -/
theorem isFinite_of_phase {amplitude elapsed : Float}
    (h : isFinite ((sinusoidal amplitude period).argument elapsed) = true) :
    isFinite (1.5 * Binary64.pi * period) = true :=
  (isFinite_of_add (isFinite_of_div h)).2

theorem isFinite_one : isFinite 1.0 = true := by decide +kernel

theorem magnitude_one : magnitude 1.0 = 1 := by
  have hread : read 1.0 = .finite false (2 ^ 52) (-52) := by decide +kernel
  rw [magnitude, hread, Reading.magnitude]
  norm_num

/-- The ceiling less one is in range, -/
theorem isFinite_sub_one {ceiling : Float} (h : isFinite ceiling = true) :
    isFinite (ceiling - 1.0) = true := by
  rw [sub_eq_add_neg]
  refine isFinite_add h (by rw [isFinite_neg, isFinite_one]) ?_
  rw [magnitude_neg, magnitude_one]
  norm_num

/-- and so is half of it. -/
theorem isFinite_amplitude {ceiling : Float} (h : isFinite ceiling = true) :
    isFinite ((ceiling - 1.0) / 2.0) = true := by
  have htwo : read 2.0 = .finite false (2 ^ 52) (-51) := by decide +kernel
  have hvalue : magnitude 2.0 = 2 := by
    rw [magnitude, htwo, Reading.magnitude]
    norm_num
  refine (rounded_div (isFinite_sub_one h) (by decide +kernel) (by rw [hvalue]; norm_num)).finite ?_
  rw [hvalue]
  have hhalf := half_le_self (magnitude_nonneg (ceiling - 1.0))
  refine hhalf.trans_lt ?_
  rw [← add_zero (magnitude _)]
  exact add_lt_overflow (magnitude_le_greatest (isFinite_sub_one h)) (by norm_num)

/-- A half wave with a finite phase has a value, if the machine computes the sine, -/
theorem isNaN_required_wave {ceiling : Float} (hceiling : isFinite ceiling = true)
    {elapsed : Float} (h : isFinite ((wave ceiling period).argument elapsed) = true)
    (hcomputes : (wave ceiling period).Computes elapsed) :
    ((wave ceiling period).required elapsed).isNaN = false := by
  have hamplitude := isFinite_amplitude hceiling
  have hsine : isFinite (Binary64.sin ((wave ceiling period).argument elapsed)) = true := by
    rw [Binary64.sin, if_pos h]
    exact hcomputes h
  have hproduct := (rounded_mul hamplitude hsine).number
  rw [wave, required_sinusoidal, add_symm _ 1.0, add_symm _ ((ceiling - 1.0) / 2.0)]
  exact isNaN_add isFinite_one (isNaN_add hamplitude hproduct)

/-- and one whose phase is out of range has none. -/
theorem isNaN_required_of_phase {amplitude elapsed : Float}
    (h : isFinite ((sinusoidal amplitude period).argument elapsed) = false) :
    ((sinusoidal amplitude period).required elapsed).isNaN = true := by
  rw [required_sinusoidal, Binary64.sin, h, if_neg Bool.false_ne_true]
  exact isNaN_add_left (isNaN_add_left (isNaN_mul_right (by decide +kernel)))

/-! ### The exponential -/

/-- The exponential of the negative of a square is finite, if it is at finite
arguments: an infinite square has the exponential zero. -/
theorem isFinite_exp_neg_square {x : Float} (hx : x.isNaN = false)
    (h : isFinite (-(x * x)) = true → isFinite (-(x * x)).exp = true) :
    isFinite (Binary64.exp (-(x * x))) = true := by
  have hsquare := isNaN_mul_self hx
  have hsign : (read (-(x * x))).negative = true := by
    rw [negative_neg hsquare, negative_mul rfl]
    rfl
  have hnumber : read (-(x * x)) ≠ .nan := by
    rw [Ne, ← isNaN_iff, isNaN_neg, hsquare]
    exact Bool.false_ne_true
  rw [isFinite] at h
  rw [Binary64.exp]
  generalize -(x * x) = y at *
  rcases hread : read y with - | ⟨_ | _⟩ | ⟨b, m, e⟩
  · exact absurd hread hnumber
  · rw [hread] at hsign
    cases hsign
  · show isFinite (ofBits 0) = true
    decide +kernel
  · exact h (by rw [hread])

theorem isNaN_required_exponential {ceiling scale : Float} (hceiling : isFinite ceiling = true)
    (hscale : isFinite scale = true) (hpos : ¬ scale ≤ 0.0) (hn : n < 2 ^ 64)
    (hcomputes : (exponential ceiling scale).Computes (ofNat n)) :
    ((exponential ceiling scale).required (ofNat n)).isNaN = false := by
  have hlt : n < 2 ^ 1023 := lt_range (by omega)
  have hratio := rounded_div (isFinite_ofNat hlt) hscale (positive_of_not_le_zero hscale hpos).2
  have hexp : isFinite (Binary64.exp ((exponential ceiling scale).argument (ofNat n))) = true := by
    rw [Computes, argument, clampElapsed_ofNat hlt] at hcomputes
    rw [argument, clampElapsed_ofNat hlt]
    exact isFinite_exp_neg_square hratio.number hcomputes
  have hrest : isFinite (1.0 - Binary64.exp ((exponential ceiling scale).argument (ofNat n)))
      = true := by
    rw [sub_eq_add_neg, add_symm]
    refine isFinite_add (by rw [isFinite_neg, hexp]) isFinite_one ?_
    rw [magnitude_one]
    norm_num
  rw [required_exponential]
  exact isNaN_add isFinite_one (rounded_mul (isFinite_sub_one hceiling) hrest).number

end Curve

/-! ### The gate -/

/-- The start of the gate's sinusoid, three halves of pi times its period, is out
of range. -/
def Gate.Overflows (g : Gate) : Prop :=
  g.shape = .sinusoidal ∧ isFinite (1.5 * Binary64.pi * g.sinusoidPeriod) = false

/-- **With parameters in range the required ratio is NaN exactly if the gate
overflows.** -/
theorem Gate.isNaN_required_iff {g : Gate} (hg : g.InRange) {n : Nat} (hn : n < 2 ^ 64)
    (hcomputes : g.curve.Computes (ofNat n)) :
    (g.curve.required (ofNat n)).isNaN = true ↔ g.Overflows := by
  obtain ⟨enabled, shape, ceiling, period, scale⟩ := g
  obtain ⟨hceiling, hperiod, hperiod_pos, hscale, hscale_pos⟩ := hg
  cases shape
  · by_cases hrange : isFinite (1.5 * Binary64.pi * period) = true
    · have hphase := Curve.isFinite_phase ((ceiling - 1.0) / 2.0) hperiod hperiod_pos hn hrange
      have hnumber := Curve.isNaN_required_wave hceiling hphase hcomputes
      exact iff_of_false (ne_true_of_eq_false hnumber)
        fun h => absurd hrange (ne_true_of_eq_false h.2)
    · rw [Bool.not_eq_true] at hrange
      have hphase : isFinite ((Curve.wave ceiling period).argument (ofNat n)) = false := by
        by_contra h
        rw [Bool.not_eq_false] at h
        exact ne_true_of_eq_false hrange (Curve.isFinite_of_phase h)
      exact iff_of_true (Curve.isNaN_required_of_phase hphase) ⟨rfl, hrange⟩
  · have hnumber := Curve.isNaN_required_exponential hceiling hscale hscale_pos hn hcomputes
    exact iff_of_false (ne_true_of_eq_false hnumber) fun h => nomatch h.1

/-! ### Verdicts -/

namespace Verdict

/-- A gate has no objection to a takeover that passes, nor to any if the
required ratio is NaN. -/
theorem objection?_eq_none_iff {curve : Curve} {ancestor : Header} {takeover : Standing}
    (hratio : takeover.ratio.isNaN = false) :
    objection? (some curve) ancestor takeover = none ↔
      takeover.passes curve = true ∨ (takeover.required curve).isNaN = true := by
  have hnone : objection? (some curve) ancestor takeover = none
      ↔ ¬ takeover.ratio < takeover.required curve := by
    simp [objection?]
  rw [hnone, Standing.passes, decide_eq_true_iff]
  cases hnan : (takeover.required curve).isNaN
  · rw [not_lt_iff_le hratio hnan]
    simp
  · simp [not_lt_of_isNaN hnan]

theorem ofStandings_eq_headSwitch_iff {gate : Option Curve} {ancestor : Header}
    {standings : List Standing} {headTotal : Difficulty} :
    ofStandings gate ancestor standings headTotal = .headSwitch ↔
      ∃ t, takeover? standings headTotal = some t ∧ objection? gate ancestor t = none := by
  rw [ofStandings]
  rcases takeover? standings headTotal with - | t
  · simp
  · rcases hobjection : objection? gate ancestor t with - | r <;> simp [hobjection]

/-- **A gate with parameters in range lets through the takeovers that pass it,
unless its sinusoid overflows**: then it lets every takeover through, though no
header passes. -/
theorem headSwitch_iff_passes {g : Gate} (checked : g.check = .ok ()) (ancestor : Header)
    {standings : List Standing} (headTotal : Difficulty)
    (hratios : ∀ s ∈ standings, ∃ fork canonical candidate,
      s.ratio = workRatio fork canonical candidate)
    (hcomputes : ∀ s ∈ standings, g.curve.Computes (ofNat s.elapsed.toNat)) :
    (ofStandings (some g.curve) ancestor standings headTotal = .headSwitch ↔
      ∃ t, takeover? standings headTotal = some t ∧ (t.passes g.curve = true ∨ g.Overflows)) ∧
    (g.Overflows → ∀ s ∈ standings, s.passes g.curve = false) := by
  have hnan (s : Standing) (hs : s ∈ standings) :
      (s.required g.curve).isNaN = true ↔ g.Overflows :=
    Gate.isNaN_required_iff (Gate.inRange_of_check checked) s.elapsed.toNat_lt (hcomputes s hs)
  constructor
  · rw [ofStandings_eq_headSwitch_iff]
    refine exists_congr fun t => and_congr_right fun ht => ?_
    have hmem : t ∈ standings := List.mem_of_find?_eq_some ht
    obtain ⟨fork, canonical, candidate, hratio⟩ := hratios t hmem
    rw [objection?_eq_none_iff (by rw [hratio, isNaN_workRatio]), hnan t hmem]
  · intro hoverflow s hs
    exact decide_eq_false (not_le_of_isNaN ((hnan s hs).mpr hoverflow))

/-- A gate whose exponential takes every time for infinite. -/
def sampleSteep : Gate := { enabled := true, shape := .exponential, exponentialScale := ofBits 1 }

/-- A standing that takes over a head of total difficulty 200. -/
def sampleTakeover (ratio : Float) : Standing where
  number := 1
  hash := .zero
  total := 201
  canonicalTotal := 200
  ratio
  elapsed := 10

/-- A fork with 31 times the work passes the gate and takes over. -/
theorem headSwitch_iff_passes_sampleSteep :
    (sampleSteep.check = .ok () ∧ sampleSteep.curve.Computes (ofNat 10)) ∧
    ofStandings (some sampleSteep.curve) default [sampleTakeover (workRatio 0 1 31)] 200
      = .headSwitch := by
  have hchecked : sampleSteep.check = .ok () := by rfl
  have hcomputes : sampleSteep.curve.Computes (ofNat 10) := fun h => absurd h (by decide +kernel)
  refine ⟨⟨hchecked, hcomputes⟩, (headSwitch_iff_passes hchecked default 200 ?_ ?_).1.mpr ?_⟩
  · simp only [List.forall_mem_singleton]
    exact ⟨0, 1, 31, rfl⟩
  · simp only [List.forall_mem_singleton]
    exact hcomputes
  · exact ⟨sampleTakeover (workRatio 0 1 31), rfl, .inl (by decide +kernel)⟩

/-- A gate whose sinusoid starts out of range. -/
def sampleSlow : Gate := { enabled := true, sinusoidPeriod := ofBits 0x7fe1ccf385ebc8a0 }

/-- A fork with half the work does not pass the gate, and takes over. -/
theorem headSwitch_without_pass :
    sampleSlow.check = .ok () ∧
    takeover? [sampleTakeover (workRatio 0 2 1)] 200 = some (sampleTakeover (workRatio 0 2 1)) ∧
    ofStandings (some sampleSlow.curve) default [sampleTakeover (workRatio 0 2 1)] 200
      = .headSwitch ∧
    (sampleTakeover (workRatio 0 2 1)).passes sampleSlow.curve = false := by
  have hratio : (sampleTakeover (workRatio 0 2 1)).ratio.isNaN = false := isNaN_workRatio 0 2 1
  have hrequired : ((sampleTakeover (workRatio 0 2 1)).required sampleSlow.curve).isNaN = true := by
    decide +kernel
  have hsilent : objection? (some sampleSlow.curve) default (sampleTakeover (workRatio 0 2 1))
      = none := (objection?_eq_none_iff hratio).mpr (.inr hrequired)
  exact ⟨by rfl, rfl, ofStandings_eq_headSwitch_iff.mpr ⟨_, rfl, hsilent⟩, by decide +kernel⟩

end Verdict

end ForkChoice
