/-
ForkChoice/Proofs/Chain/Tightening.lean

Enabling the gate only turns head switches into rejections.

Nothing that is read or computed about a segment before the verdict depends on
the gate: the assessment under one gate is that under another with the verdict
given anew (`assess_under`).  Two chains that differ in whether their gate is
enabled therefore assess a segment alike up to the verdict, and the verdict
differs only where the enabled gate rejects a takeover (`compared_gated`).

A segment on top of the head is never rejected, as long as the curve asks for no
more than the unbounded ratio (`Sound.not_rejected_extension`): its fork point is
the head, since which the canonical chain has done no work.
-/
import ForkChoice.Proofs.Chain.Atomicity
import ForkChoice.Proofs.Chain.Delivery

namespace ForkChoice

/-! ### Results restated -/

namespace Lookup

variable {ε δ α β : Type}

theorem runFrom_map (t : Tier) (f : α → β) (x : Lookup ε α) (place : Nat) :
    (f <$> x).runFrom t place = (x.runFrom t place).map f := by
  show (x.bind fun a => .done (.ok (f a))).runFrom t place = _
  induction x generalizing place with
  | done result => cases result <;> rfl
  | count next ih => exact ih _ _
  | fetch number next ih => exact ih _ _

theorem mapError_map (g : ε → δ) (f : α → β) (x : Lookup ε α) :
    (f <$> x).mapError g = f <$> x.mapError g := by
  show (x.bind fun a => .done (.ok (f a))).mapError g
    = (x.mapError g).bind fun a => .done (.ok (f a))
  induction x with
  | done result => cases result <;> rfl
  | count next ih =>
    simp only [bind, mapError]
    exact congrArg count (funext ih)
  | fetch number next ih =>
    simp only [bind, mapError]
    exact congrArg (fetch number) (funext ih)

end Lookup

/-- An assessment with the verdict of another gate. -/
def Assessment.regate (gate : Option Curve) (a : Assessment) : Assessment :=
  { a with gate, verdict := Verdict.ofStandings gate a.fork.header a.standings a.headTotal }

namespace Chain

variable {pool offered segment trunk branch spine : List Header} {c : Chain} {x : Candidate}
  {a : Header}

/-! ### Assessments under two gates -/

/-- The chain with other settings for its gate. -/
abbrev under (c : Chain) (gate : Gate) : Chain := { c with gate }

/-- The judgement depends on the gate in its verdict only, -/
theorem judge_under (c : Chain) (gate : Gate) (x : Candidate) :
    (c.under gate).judge x = Assessment.regate gate.curve? <$> c.judge x := by
  unfold judge
  simp only [map_bind]
  refine bind_congr fun retained => bind_congr fun fork => bind_congr fun headTotal =>
    bind_congr fun parentTotal => bind_congr fun race => ?_
  rcases race.failure with - | e
  · rfl
  · rfl

/-- so the assessment does, -/
theorem assessment_under (c : Chain) (gate : Gate) (segment : List Header) :
    (c.under gate).assessment segment
      = Option.map (fun r => (r.1, r.2.regate gate.curve?)) <$> c.assessment segment := by
  have prepared : (c.under gate).prepare segment = c.prepare segment := rfl
  unfold assessment
  rw [prepared, map_bind]
  apply bind_congr
  rintro (- | x)
  · rfl
  · unfold Lookup.blame
    simp only [judge_under, Lookup.mapError_map, map_bind, bind_map_left]
    rfl

/-- whatever calls the tier refuses. -/
theorem assess_under (c : Chain) (gate : Gate) (segment : List Header) :
    (c.under gate).assess segment
      = (c.assess segment).map (Option.map (Assessment.regate gate.curve?)) := by
  have answered : (c.under gate).store.answer ((c.under gate).assessment segment)
      = (c.store.answer (c.assessment segment)).map
        (Option.map fun r => (r.1, r.2.regate gate.curve?)) := by
    rw [assessment_under]
    exact Lookup.runFrom_map _ _ _ 0
  unfold assess
  rw [answered]
  rcases c.store.answer (c.assessment segment) with (- | ⟨x, found⟩) | e | w <;> rfl

theorem verdict_regate (found : Assessment) (gate : Option Curve) :
    (found.regate gate).verdict
      = Verdict.ofStandings gate found.fork.header found.standings found.headTotal := rfl

/-! ### Enabling the gate -/

/-- The chain with the given gate, enabled or not. -/
def gated (c : Chain) (gate : Gate) (enabled : Bool) : Chain := (c.under gate).enableGate enabled

/-- What enabling a gate makes of an assessment: all that was found stays, a side
chain stays one, and a head switch stays one or is rejected. -/
structure Tightens (off on : Assessment) : Prop where
  fork : on.fork = off.fork
  known : on.known = off.known
  standings : on.standings = off.standings
  tip : on.tip? = off.tip?
  head : on.head = off.head
  headTotal : on.headTotal = off.headTotal
  sideChain : off.verdict = .sideChain ↔ on.verdict = .sideChain
  headSwitch : off.verdict = .headSwitch ↔
    on.verdict = .headSwitch ∨ ∃ r, on.verdict = .rejected r
  lenient : ∀ r, off.verdict ≠ .rejected r

/-- What enabling a gate makes of the outcome of an assessment. -/
inductive Compared : Outcome SegmentError (Option Assessment) →
    Outcome SegmentError (Option Assessment) → Prop
  | failed (e : SegmentError) : Compared (.error e) (.error e)
  | faulted (w : Fault) : Compared (.fault w) (.fault w)
  | nothing : Compared (.ok none) (.ok none)
  | assessed {off on : Assessment} : Tightens off on → Compared (.ok (some off)) (.ok (some on))

theorem tightens_regate (found : Assessment) (curve : Curve) :
    Tightens (found.regate none) (found.regate (some curve)) := by
  have sideChain : (found.regate none).verdict = .sideChain ↔
      (found.regate (some curve)).verdict = .sideChain := by
    rw [verdict_regate, verdict_regate, Verdict.ofStandings_eq_sideChain_iff,
      Verdict.ofStandings_eq_sideChain_iff]
  have lenient (r : Rejection) : (found.regate none).verdict ≠ .rejected r := by
    rw [verdict_regate]
    intro rejected
    obtain ⟨s, -, objects⟩ := Verdict.exists_objection rejected
    cases objects
  refine ⟨rfl, rfl, rfl, rfl, rfl, rfl, sideChain, ?_, lenient⟩
  -- what is left once side chains are set aside and nothing is rejected with the gate off
  rcases off : (found.regate none).verdict with - | - | r
  · rcases on : (found.regate (some curve)).verdict with - | - | r
    · simp
    · cases off.symm.trans (sideChain.mpr on)
    · simp
  · simp [sideChain.mp off]
  · exact absurd off (lenient r)

/-- **Enabling a gate changes nothing but verdicts of head switches**, which it may
reject. -/
theorem compared_gated (c : Chain) (gate : Gate) (segment : List Header) :
    Compared ((c.gated gate false).assess segment) ((c.gated gate true).assess segment) := by
  have off := c.assess_under { gate with enabled := false } segment
  have on := c.assess_under { gate with enabled := true } segment
  unfold gated enableGate
  rw [off, on]
  rcases c.assess segment with (- | found) | e | w
  · exact .nothing
  · exact .assessed (tightens_regate found gate.curve)
  · exact .failed e
  · exact .faulted w

theorem assess_gated {found : Assessment} {gate : Gate} {enabled : Bool}
    (assessed : c.assess segment = .ok (some found)) :
    (c.gated gate enabled).assess segment
      = .ok (some (found.regate ({ gate with enabled } : Gate).curve?)) := by
  refine (c.assess_under { gate with enabled } segment).trans ?_
  rw [assessed]
  rfl

/-- A head switch stays one with the gate off. -/
theorem headSwitch_regate_none {found : Assessment}
    (assessed : c.assess segment = .ok (some found)) (switch : found.verdict = .headSwitch) :
    (found.regate none).verdict = .headSwitch := by
  -- with its own gate the assessment is itself
  have own : c.assess segment = .ok (some (found.regate c.gate.curve?)) :=
    @assess_gated _ c found c.gate c.gate.enabled assessed
  rw [assessed, Outcome.ok.injEq, Option.some.injEq] at own
  rcases off : (found.regate none).verdict with - | - | r
  · rfl
  · rw [verdict_regate, Verdict.ofStandings_eq_sideChain_iff] at off
    have light : (found.regate c.gate.curve?).verdict = .sideChain :=
      Verdict.ofStandings_eq_sideChain_iff.mpr off
    rw [← own, switch] at light
    cases light
  · exact absurd off ((tightens_regate found c.gate.curve).lenient r)

/-! ### Segments on top of the head -/

/-- A candidate on top of the head leaves the head's path at the head. -/
theorem Storable.of_head (storable : Storable pool c x trunk a branch spine)
    (top : x.parent = c.headBlock) : branch = [] ∧ spine = trunk ++ [a] := by
  have path := storable.fork.path
  rw [top] at path
  have same := path.unique storable.fork.head
  rcases branch with - | ⟨b, rest⟩
  · exact ⟨rfl, same.symm⟩
  · refine absurd ?_ (storable.fork.apart b List.mem_cons_self)
    rw [← same]
    simp

/-- **A segment on top of the head is not rejected**, if the curve asks for no more
than the unbounded ratio. -/
theorem Sound.not_rejected_extension {found : Assessment} {first : Header} (sound : c.Sound pool)
    (free : CollisionFree pool) (offered : ∀ h ∈ segment, h ∈ pool) (bounded : c.Bounded)
    (assessed : c.assess segment = .ok (some found))
    (new : segment[found.known]? = some first) (link : first.parentHash = c.headBlock.hash)
    (r : Rejection) : found.verdict ≠ .rejected r := by
  intro rejected
  obtain ⟨x, front, trunk, a, branch, spine, rfl, prepared, storable, rfl⟩ :=
    sound.exists_storable free offered assessed
  -- the first new header names the head as its parent, so the fork point is the head
  have first_eq : x.first = first := Option.some.inj ((prepared.getElem?_known 0).symm.trans new)
  have top : x.parent = c.headBlock :=
    storable.fork.path.has.unique storable.fork.head.has
      (prepared.link.symm.trans (first_eq ▸ link))
  obtain ⟨rfl, rfl⟩ := storable.of_head top
  obtain ⟨s, mem, objects⟩ := Verdict.exists_objection rejected
  obtain ⟨⟨h, total⟩, h_mem, rfl⟩ := List.mem_map.mp mem
  have h_new : h ∈ x.headers := fst_mem_of_mem_ascent h_mem
  obtain ⟨i, at_i⟩ := List.getElem?_of_mem h_new
  have height := storable.number_eq at_i
  have above : (trunk ++ [a]).length ≤ h.number.toNat + 1 := by omega
  have silent : c.objection trunk a (trunk ++ [a]) h total = none :=
    objection_extension bounded above
  cases silent.symm.trans objects

/-- **Enabling the gate only turns head switches into rejections.**  In every
reached chain, whatever the gate, the assessments of a segment with the gate off
and on fail alike or agree in all but the verdict, where a head switch may become
a rejection; and no rejection meets a segment whose first new header is a child of
the head, if the curve never asks for more than the unbounded ratio. -/
theorem gate_tightens (reached : Reached offered c) (free : CollisionFree (offered ++ segment))
    (gate : Gate) (bounded : (c.gated gate true).Bounded) :
    Compared ((c.gated gate false).assess segment) ((c.gated gate true).assess segment) ∧
      ∀ found first, (c.gated gate true).assess segment = .ok (some found) →
        segment[found.known]? = some first → first.parentHash = c.headBlock.hash →
          ∀ r, found.verdict ≠ .rejected r := by
  have sound : (c.gated gate true).Sound (offered ++ segment) :=
    ((reached.sound_append free).withGate gate).enableGate true
  refine ⟨c.compared_gated gate segment, fun found first assessed new link => ?_⟩
  exact sound.not_rejected_extension free (fun h mem => List.mem_append_right _ mem) bounded
    assessed new link

/-- Behind a flat gate the grandchild still takes over from its sibling, over two frozen
headers, or is rejected; and the child of the genesis is not rejected. -/
theorem gate_tightens_sampleGrandchild :
    (∃ (c : Chain) (off on : Assessment), c.headBlock = sampleLater ∧
      c.store.tier.items.map (·.header) = [sampleGenesis, sampleChild] ∧
      (c.gated flatGate false).assess [sampleGrandchild] = .ok (some off) ∧
      (c.gated flatGate true).assess [sampleGrandchild] = .ok (some on) ∧
      off.verdict = .headSwitch ∧ Tightens off on) ∧
    ∃ on, (sampleChain.gated flatGate true).assess [sampleChild] = .ok (some on) ∧
      [sampleChild][on.known]? = some sampleChild ∧ ∀ r, on.verdict ≠ .rejected r := by
  have bounded (c : Chain) : (c.gated flatGate true).Bounded := by
    rintro curve ⟨⟩ seconds
    exact not_lt_flat _
  constructor
  · have free := collisionFree_sampleGrandchild
    obtain ⟨c, found, reached, -, head, frozen, answered, switch⟩ := exists_fork_sampleGrandchild
    have assessed : c.assess [sampleGrandchild] = .ok (some found) := assess_of_assessment answered
    obtain ⟨compared, -⟩ := gate_tightens reached free flatGate (bounded c)
    rw [assess_gated assessed, assess_gated assessed] at compared
    refine ⟨c, _, _, head, frozen, assess_gated assessed, assess_gated assessed,
      headSwitch_regate_none assessed switch, ?_⟩
    cases compared with
    | assessed tightens => exact tightens
  · have reached : Reached [sampleGenesis] sampleChain := reached_sampleChain []
    have sound : sampleChain.Sound [sampleGenesis, sampleChild] :=
      reached.sound_append collisionFree_sample
    obtain ⟨-, silent⟩ := gate_tightens reached collisionFree_sample flatGate (bounded sampleChain)
    obtain ⟨⟨x, found⟩, answered⟩ := assessment_sampleChild
    have assessed := assess_of_assessment answered
    -- all of the segment is new
    have known : [sampleChild][found.known]? = some sampleChild := by
      obtain ⟨_, _, _, _, -, rfl⟩ :=
        sound.assessment_eq_ok collisionFree_sample (by simp) answered
      obtain ⟨front, whole, prepared⟩ := sound.prepared_of_assessment answered
      change [sampleChild][x.known]? = _
      rw [prepared.known]
      rcases front with - | ⟨h, front⟩
      · rfl
      · have length := congrArg List.length whole
        simp [Candidate.headers] at length
    exact ⟨_, assess_gated assessed, known, silent _ _ (assess_gated assessed) known rfl⟩

end Chain

end ForkChoice
