/-
ForkChoice/Proofs/Chain/Overtaking.lean

Nothing is cut off in the standing of a header that overtakes the head.

A ratio of work has a sentinel for the case that the canonical side has done
none, and differences of totals and of times stop at zero.  None of the three
takes effect where a header is heavier than the head and its path leaves the
head's below the head: the head's total is then not the greatest one, so no sum
along its path was cut off either; above the fork point each header of that path
adds some difficulty (`Fork.work_lt`); and new headers are later than the fork
point.  The ratio is a proper quotient then, below the sentinel
(`Storable.unclipped`, `workRatio_lt_unboundedRatio`).

In the one case left, new headers on top of the head, the ratio is the sentinel
(`takeover_unclipped`).
-/
import ForkChoice.Proofs.Chain.Increase
import ForkChoice.Proofs.Gating

namespace ForkChoice

/-! ### Ratios of work -/

section Ratios

open Binary64

variable {fork canonical : Difficulty}

/-- Against some work the ratio is the quotient of the two differences. -/
theorem workRatio_of_lt (more : fork < canonical) (candidate : Difficulty) :
    workRatio fork canonical candidate
      = ofNat (candidate.toNat - fork.toNat) / ofNat (canonical.toNat - fork.toNat) := by
  have some_work : canonical.minus fork ≠ 0 := by
    intro none
    have zero : canonical.toNat - fork.toNat = 0 := congrArg Difficulty.toNat none
    exact absurd more (Nat.not_lt.mpr (Nat.le_of_sub_eq_zero zero))
  rw [workRatio, if_neg some_work]
  rfl

/-- Against no work it is the sentinel. -/
theorem workRatio_self (fork candidate : Difficulty) :
    workRatio fork fork candidate = unboundedRatio := by
  have none : fork.minus fork = 0 := Difficulty.ext (Nat.sub_self _)
  rw [workRatio, if_pos none]

theorem magnitude_unboundedRatio : 2 ^ 132 ≤ magnitude unboundedRatio := by
  have hread : read unboundedRatio = .finite false (2 ^ 53 - 1) 971 := by decide +kernel
  rw [magnitude, hread, Reading.magnitude]
  calc (2 : ℚ) ^ 132 = 1 * 2 ^ (132 : ℤ) := by norm_num
    _ ≤ ((2 ^ 53 - 1 : Nat) : ℚ) * 2 ^ (971 : ℤ) :=
        mul_le_mul (by norm_num) (zpow_le_zpow_right₀ one_le_two (by norm_num)) (by positivity)
          (Nat.cast_nonneg _)

/-- Against some work the ratio is below the sentinel: the work of the candidate
has 128 bits, and that of the canonical side is no less than one. -/
theorem workRatio_lt_unboundedRatio (more : fork < canonical) (candidate : Difficulty) :
    workRatio fork canonical candidate < unboundedRatio := by
  have hwork : 0 < canonical.toNat - fork.toNat := Nat.sub_pos_of_lt more
  have hcandidate : candidate.toNat - fork.toNat < 2 ^ 128 :=
    Nat.lt_of_le_of_lt (Nat.sub_le _ _) candidate.toNat_lt
  have hcanonical : canonical.toNat - fork.toNat < 2 ^ 128 :=
    Nat.lt_of_le_of_lt (Nat.sub_le _ _) canonical.toNat_lt
  have hone := one_le_magnitude_ofNat hwork (lt_range hcanonical)
  have hratio := rounded_div (isFinite_ofNat (lt_range hcandidate))
    (isFinite_ofNat (lt_range hcanonical)) (lt_of_lt_of_le one_pos hone)
  have hsize : magnitude (ofNat (candidate.toNat - fork.toNat))
      / magnitude (ofNat (canonical.toNat - fork.toNat)) ≤ 2 ^ 130 := by
    have htop : ((candidate.toNat - fork.toNat : Nat) : ℚ) ≤ 2 ^ 128 := by
      exact_mod_cast hcandidate.le
    have hquotient := div_le_self (magnitude_nonneg (ofNat (candidate.toNat - fork.toNat))) hone
    linarith only [htop, hquotient, magnitude_ofNat_le (lt_range hcandidate)]
  rw [workRatio_of_lt more]
  by_contra h
  have hle := magnitude_mono (by decide +kernel)
    ((not_lt_iff_le hratio.number (by decide +kernel)).mp h)
  linarith only [hle, hsize, hratio.magnitude_le, magnitude_unboundedRatio]

end Ratios

/-! ### Standings -/

/-- In the standing of a header nothing is cut off: the totals it is held against
are above that of the fork point and its time is after it, the ratio is the
quotient of the proper differences and below the sentinel, and the time that has
passed is a proper difference too. -/
structure Standing.Unclipped (s : Standing) (fork : ForkPoint) (h : Header) : Prop where
  canonical : fork.total < s.canonicalTotal
  candidate : fork.total < s.total
  later : fork.header.timestamp < h.timestamp
  ratio : s.ratio = Binary64.ofNat (s.total.toNat - fork.total.toNat)
    / Binary64.ofNat (s.canonicalTotal.toNat - fork.total.toNat)
  bounded : s.ratio < unboundedRatio
  elapsed : s.elapsed.toNat = h.timestamp.toNat - fork.header.timestamp.toNat

namespace Chain

variable {pool offered trunk branch spine segment : List Header} {c : Chain} {x : Candidate}
  {a t : Header} {s : Standing} {i : Nat}

theorem work_take_le (headers : List Header) (n : Nat) : work (headers.take n) ≤ work headers := by
  have whole := congrArg work (List.take_append_drop n headers)
  rw [work_append] at whole
  exact Nat.le.intro whole

namespace Fork

variable {p : Header}

/-- Above the fork point the path of the head goes on. -/
theorem spine_eq (fork : c.Fork p trunk a branch spine) :
    ∃ upper, spine = trunk ++ [a] ++ upper ∧ (upper = [] ↔ a = c.headBlock) := by
  refine ⟨spine.drop (a.number.toNat + 1), ?_, ?_⟩
  · rw [← fork.spine_take, List.take_append_drop]
  · have length := fork.head.length_eq
    have below := fork.head.number_le fork.shared
    rw [List.drop_eq_nil_iff]
    constructor
    · intro short
      have at_a := fork.head.getElem?_of_mem fork.shared
      have same : a.number.toNat = c.headBlock.number.toNat := by omega
      rw [same, fork.head.getElem?_of_mem fork.head.mem] at at_a
      exact (Option.some.inj at_a).symm
    · rintro rfl
      exact Nat.le_of_eq length

/-- Above the fork point each header on the path of the head adds some work. -/
theorem work_lt (fork : c.Fork p trunk a branch spine) (weighty : c.Weighty)
    (other : a ≠ c.headBlock) {n : Nat} (above : a.number.toNat < n) :
    work (trunk ++ [a]) < work (spine.take (n + 1)) := by
  obtain ⟨upper, whole, top⟩ := fork.spine_eq
  rcases upper with - | ⟨b, upper⟩
  · exact absurd (top.mp rfl) other
  have at_b : spine[trunk.length + 1]? = some b := by simp [whole]
  have b_number := fork.head.number_eq at_b
  have positive : 0 < b.difficulty.toNat := by
    refine (weighty b (fork.head.has_of_mem (List.mem_of_getElem? at_b))).resolve_left ?_
    rintro rfl
    rw [fork.head.genesis_number] at b_number
    exact absurd b_number (Nat.succ_ne_zero _).symm
  obtain ⟨k, rfl⟩ := Nat.exists_eq_add_of_lt above
  have taken : spine.take (a.number.toNat + k + 1 + 1) = trunk ++ [a] ++ b :: upper.take k := by
    have base : a.number.toNat + k + 1 + 1 = (trunk ++ [a]).length + (k + 1) := by
      rw [fork.number_eq, List.length_append, List.length_singleton]
      omega
    rw [whole, base, List.take_length_add_append, List.take_succ_cons]
  rw [taken, work_append _ (b :: _), work_cons]
  omega

end Fork

namespace Storable

variable (storable : Storable pool c x trunk a branch spine)
include storable

theorem number_lt (at_t : x.headers[i]? = some t) : a.number.toNat < t.number.toNat := by
  rw [storable.number_eq at_t, storable.fork.number_eq, List.length_append, List.length_cons]
  omega

/-- **In the standing of a header that is heavier than the head** nothing is cut off
if its path leaves the head's below the head, and its ratio is the sentinel if not. -/
theorem unclipped (weighty : c.Weighty) (at_t : x.headers[i]? = some t)
    (at_s : (c.reckoning x trunk a branch spine).standings[i]? = some s)
    (heavier : Difficulty.capped (work spine) < s.total) :
    (a ≠ c.headBlock → s.Unclipped (forkPoint trunk a branch) t) ∧
      (a = c.headBlock → s.ratio = unboundedRatio) := by
  have above := storable.number_lt at_t
  rw [getElem?_reckoning, at_t] at at_s
  obtain ⟨⟩ := at_s
  generalize Difficulty.capped (work (trunk ++ a :: branch ++ x.headers.take (i + 1))) = total
    at heavier ⊢
  change Difficulty.capped (work spine) < total at heavier
  constructor
  · intro other
    have less := storable.fork.work_lt weighty other above
    have most := work_take_le spine (t.number.toNat + 1)
    -- the head's total is below another one, so no sum up to it is cut off
    have canonical : Difficulty.capped (work (trunk ++ [a]))
        < .capped (work (spine.take (t.number.toNat + 1))) := by
      have small := total.toNat_lt
      rw [Difficulty.lt_iff, Difficulty.toNat_capped] at heavier ⊢
      rw [Difficulty.toNat_capped]
      omega
    have candidate : Difficulty.capped (work (trunk ++ [a])) < total := by
      rw [Difficulty.lt_iff] at canonical heavier ⊢
      simp only [Difficulty.toNat_capped] at canonical heavier ⊢
      omega
    have later := storable.fork.later storable.linked t (List.mem_of_getElem? at_t)
    exact {
      canonical
      candidate
      later
      ratio := workRatio_of_lt canonical _
      bounded := workRatio_lt_unboundedRatio canonical _
      elapsed := (Nat.sub_eq_of_eq_add (Standing.toNat_secondsSince later).symm).symm }
  · intro top
    obtain ⟨upper, whole, upper_nil⟩ := storable.fork.spine_eq
    rw [upper_nil.mpr top, List.append_nil] at whole
    -- above the head the head is what a header is compared with
    have taken : spine.take (t.number.toNat + 1) = trunk ++ [a] := by
      rw [← whole, List.take_of_length_le]
      rw [whole, List.length_append, List.length_singleton, ← storable.fork.number_eq]
      omega
    show workRatio (.capped (work (trunk ++ [a])))
      (.capped (work (spine.take (t.number.toNat + 1)))) total = unboundedRatio
    rw [taken, workRatio_self]

end Storable

/-- **The sentinel does not slip a takeover past the gate.**  In every reached chain
let a segment be assessed, and let a standing found for it be heavier than the
head.  It is the standing of a new header.  If the fork point is not the head,
nothing is cut off in it: neither the ratio's sentinel nor the lower end of a
difference takes effect.  If the fork point is the head, its ratio is the
sentinel. -/
theorem takeover_unclipped {found : Assessment} (reached : Reached offered c)
    (free : CollisionFree (offered ++ segment)) (assessed : c.assess segment = .ok (some found))
    (stands : found.standings[i]? = some s) (heavier : found.headTotal < s.total) :
    ∃ t, segment[found.known + i]? = some t ∧ s.hash = t.hash ∧ s.number = t.number ∧
      (found.fork.header ≠ c.headBlock → s.Unclipped found.fork t) ∧
      (found.fork.header = c.headBlock → s.ratio = unboundedRatio) := by
  have sound := reached.sound_append free
  obtain ⟨x, front, trunk, a, branch, spine, rfl, prepared, storable, rfl⟩ :=
    sound.exists_storable free (fun h mem => List.mem_append_right _ mem) assessed
  have at_s := stands
  rw [getElem?_reckoning] at at_s
  obtain ⟨t, at_t, rfl⟩ := Option.map_eq_some_iff.mp at_s
  exact ⟨t, (prepared.getElem?_known i).trans at_t, rfl, rfl,
    storable.unclipped (reached.weighty free.left) at_t stands heavier⟩

/-- The grandchild overtakes its sibling, the head: their paths part at their
parent, below the head. -/
theorem takeover_unclipped_sampleGrandchild :
    ∃ (c : Chain) (found : Assessment) (i : Nat) (s : Standing), c.headBlock = sampleLater ∧
      c.assess [sampleGrandchild] = .ok (some found) ∧ found.standings[i]? = some s ∧
      found.headTotal < s.total ∧ found.fork.header ≠ c.headBlock ∧
      s.Unclipped found.fork sampleGrandchild := by
  have free := collisionFree_sampleGrandchild
  obtain ⟨c, found, reached, -, head, -, answered, switch⟩ := exists_fork_sampleGrandchild
  have assessed : c.assess [sampleGrandchild] = .ok (some found) := assess_of_assessment answered
  have of_reckoning : (∃ s ∈ found.standings, found.headTotal < s.total) ∧
      found.fork.header.number.toNat < 2 := by
    obtain ⟨_, _, _, _, storable, rfl⟩ :=
      (reached.sound_append free).assessment_eq_ok free (by simp) answered
    have above := storable.number_lt (i := 0) (t := sampleGrandchild) rfl
    exact ⟨exists_heavier switch, above⟩
  obtain ⟨⟨s, mem, heavier⟩, low⟩ := of_reckoning
  obtain ⟨i, stands⟩ := List.getElem?_of_mem mem
  have below : found.fork.header ≠ c.headBlock := by
    intro same
    rw [same, head] at low
    exact absurd low (by decide)
  obtain ⟨t, at_t, -, -, unclipped, -⟩ := takeover_unclipped reached free assessed stands heavier
  obtain rfl := List.mem_singleton.mp (List.mem_of_getElem? at_t)
  exact ⟨c, found, i, s, head, assessed, stands, heavier, below, unclipped below⟩

end Chain

end ForkChoice
