/-
ForkChoice/Proofs/Chain/Evaluation.lean

Assessing a segment follows the rule of the heaviest chain.

`Reference` says what an assessment has to be, by the headers of two paths alone:
the path from the genesis to the candidate's parent and that to the head.  It
sums difficulties along the paths, compares header with header, and lets the
first header decide that is heavier than the head.  An assessment reads stored
totals and canonical entries instead and keeps a running sum; in every reached
chain it comes to the same (`assess_reference`).
-/
import ForkChoice.Proofs.Chain.Progress

namespace ForkChoice

/-! ### Verdicts -/

namespace Verdict

variable {gate : Option Curve} {ancestor : Header} {standings front back : List Standing}
  {s : Standing} {headTotal : Difficulty}

/-- A segment is a side chain if none of its headers is heavier than the head. -/
theorem ofStandings_eq_sideChain_iff :
    ofStandings gate ancestor standings headTotal = .sideChain ↔
      ∀ s ∈ standings, ¬ headTotal < s.total := by
  have none_iff : takeover? standings headTotal = none ↔ ∀ s ∈ standings, ¬ headTotal < s.total := by
    simp [takeover?]
  rw [← none_iff]
  unfold ofStandings
  rcases takeover? standings headTotal with - | s
  · simp
  · dsimp only
    rcases objection? gate ancestor s with - | r <;> simp

/-- The first header that is heavier than the head decides. -/
theorem ofStandings_of_first (lighter : ∀ s' ∈ front, ¬ headTotal < s'.total)
    (heavier : headTotal < s.total) :
    ofStandings gate ancestor (front ++ s :: back) headTotal
      = match objection? gate ancestor s with
        | some rejection => .rejected rejection
        | none => .headSwitch := by
  have first : takeover? (front ++ s :: back) headTotal = some s := by
    refine List.find?_eq_some_iff_append.mpr ⟨by simpa using heavier, front, back, rfl, ?_⟩
    intro s' mem
    simpa using lighter s' mem
  unfold ofStandings
  rcases objects : objection? gate ancestor s with - | r
  · simp [first, objects]
  · simp [first, objects]

/-- The objection of a gate is to the header that takes over. -/
theorem number_of_objection {r : Rejection} (objects : objection? gate ancestor s = some r) :
    r.number = s.number := by
  unfold objection? at objects
  split at objects
  · cases objects
  dsimp only at objects
  split at objects
  · cases objects
    rfl
  · cases objects

/-- A rejection is the objection to one of the standings. -/
theorem exists_objection {r : Rejection}
    (rejected : ofStandings gate ancestor standings headTotal = .rejected r) :
    ∃ s ∈ standings, objection? gate ancestor s = some r := by
  unfold ofStandings at rejected
  split at rejected
  · cases rejected
  rename_i s takeover
  split at rejected
  · rename_i objects
    cases rejected
    exact ⟨s, List.mem_of_find?_eq_some takeover, objects⟩
  · cases rejected

end Verdict

/-! ### Times -/

theorem Standing.toNat_secondsSince {start timestamp : UInt64} (later : start < timestamp) :
    (secondsSince start timestamp).toNat + start.toNat = timestamp.toNat := by
  unfold secondsSince
  rw [if_neg (UInt64.not_le.mpr later), UInt64.toNat_sub_of_le _ _ (UInt64.le_of_lt later)]
  exact Nat.sub_add_cancel (UInt64.le_of_lt later)

/-- Headers on top of another are later than it. -/
theorem Header.later_of_linked {p : Header} {headers : List Header}
    (linked : (p :: headers).IsChain Header.Precedes) :
    ∀ h ∈ headers, p.timestamp < h.timestamp := by
  induction headers generalizing p with
  | nil => exact List.forall_mem_nil _
  | cons b headers ih =>
    obtain ⟨precedes, linked⟩ := List.isChain_cons_cons.mp linked
    exact List.forall_mem_cons.mpr
      ⟨precedes.later, fun h mem => UInt64.lt_trans precedes.later (ih linked h mem)⟩

namespace Chain

variable {pool offered path spine trunk branch segment : List Header} {c : Chain} {x : Candidate}
  {a : Header}

/-- New headers are later than the header at which their path leaves the head's. -/
theorem Fork.later (fork : c.Fork x.parent trunk a branch spine)
    (linked : (x.parent :: x.headers).IsChain Header.Precedes) :
    ∀ h ∈ x.headers, a.timestamp < h.timestamp := by
  intro h mem
  have above := Header.later_of_linked linked h mem
  have shared : a ∈ trunk ++ a :: branch := by simp
  rcases Nat.lt_or_ge a.number.toNat x.parent.number.toNat with below | equal
  · exact UInt64.lt_trans (fork.path.later shared below) above
  · -- at the height of the parent the path has the parent only
    have same : a.number.toNat = x.parent.number.toNat :=
      Nat.le_antisymm (fork.path.number_le shared) equal
    have at_a := fork.path.getElem?_of_mem shared
    rw [same, fork.path.getElem?_of_mem fork.path.mem] at at_a
    rwa [← Option.some.inj at_a]

/-! ### The reference -/

/-- What the standing of the last of some new headers has to be, by the headers
of its own path and of the head's. -/
structure Reference.Point (fork : Header) (path spine headers : List Header) (h : Header)
    (s : Standing) : Prop where
  number : s.number = h.number
  hash : s.hash = h.hash
  total : s.total = .capped (work (path ++ headers))
  canonicalTotal : s.canonicalTotal
    = .capped (work (spine.take (min h.number.toNat (spine.length - 1) + 1)))
  ratio : s.ratio
    = workRatio (.capped (work (path.take (fork.number.toNat + 1)))) s.canonicalTotal s.total
  elapsed : s.elapsed.toNat + fork.timestamp.toNat = h.timestamp.toNat

/-- What the assessment of new headers has to be, by the headers of the path
below them and of the head's. -/
structure Reference (gate : Gate) (fork : Header) (path spine headers : List Header)
    (a : Assessment) : Prop where
  ancestor : a.fork.header = fork
  branch : a.fork.branch = (path.drop (fork.number.toNat + 1)).map fun b => (b.number, b.hash)
  count : a.standings.length = headers.length
  point : ∀ {i : Nat} {h : Header}, headers[i]? = some h →
    ∃ s, a.standings[i]? = some s ∧ Reference.Point fork path spine (headers.take (i + 1)) h s
  sideChain_iff : a.verdict = .sideChain ↔
    Difficulty.capped (work (path ++ headers)) ≤ .capped (work spine)
  takeover : ∀ {i : Nat} {t : Header} {s : Standing},
    headers[i]? = some t → a.standings[i]? = some s →
    (∀ j < i, Difficulty.capped (work (path ++ headers.take (j + 1))) ≤ .capped (work spine)) →
    Difficulty.capped (work spine) < .capped (work (path ++ headers.take (i + 1))) →
    a.verdict =
      if gate.enabled ∧ s.ratio < gate.curve.required (Binary64.ofNat s.elapsed.toNat) then
        .rejected {
          ancestorNumber := fork.number
          ancestorHash := fork.hash
          number := t.number
          hash := t.hash
          elapsed := s.elapsed
          ratio := s.ratio
          required := gate.curve.required (Binary64.ofNat s.elapsed.toNat) }
      else .headSwitch

/-! ### The reckoning follows the reference -/

/-- The standing of the new header at a place. -/
theorem getElem?_reckoning (i : Nat) :
    (c.reckoning x trunk a branch spine).standings[i]? = x.headers[i]?.map fun h =>
      standing (forkPoint trunk a branch) spine h
        (.capped (work (trunk ++ a :: branch ++ x.headers.take (i + 1)))) := by
  show ((ascent _ _).map _)[i]? = _
  rw [List.getElem?_map, getElem?_ascent, Option.map_map, work_append (trunk ++ a :: branch)]
  rfl

/-- A path is no heavier than one that goes on. -/
theorem capped_work_take_le (path headers : List Header) (i : Nat) :
    Difficulty.capped (work (path ++ headers.take i)) ≤ .capped (work (path ++ headers)) := by
  have whole := congrArg work (List.take_append_drop i headers)
  rw [work_append] at whole
  rw [Difficulty.le_iff]
  simp only [Difficulty.toNat_capped, work_append]
  omega

/-- The objection of a gate, in one condition. -/
theorem verdict_objection? (gate : Gate) (ancestor : Header) (s : Standing) :
    (match Verdict.objection? gate.curve? ancestor s with
      | some rejection => Verdict.rejected rejection
      | none => .headSwitch)
      = if gate.enabled ∧ s.ratio < gate.curve.required (Binary64.ofNat s.elapsed.toNat) then
          .rejected {
            ancestorNumber := ancestor.number
            ancestorHash := ancestor.hash
            number := s.number
            hash := s.hash
            elapsed := s.elapsed
            ratio := s.ratio
            required := gate.curve.required (Binary64.ofNat s.elapsed.toNat) }
        else .headSwitch := by
  unfold Verdict.objection? Gate.curve? Standing.required
  by_cases enabled : gate.enabled
  · by_cases short : s.ratio < gate.curve.required (Binary64.ofNat s.elapsed.toNat) <;>
      simp [enabled, short]
  · simp [enabled]

/-- The total difficulty of the new header at a place. -/
theorem total_reckoning {i : Nat} {s : Standing}
    (at_i : (c.reckoning x trunk a branch spine).standings[i]? = some s) :
    s.total = .capped (work (trunk ++ a :: branch ++ x.headers.take (i + 1))) := by
  rw [getElem?_reckoning] at at_i
  obtain ⟨h, -, rfl⟩ := Option.map_eq_some_iff.mp at_i
  rfl

theorem Fork.point (fork : c.Fork x.parent trunk a branch spine)
    (linked : (x.parent :: x.headers).IsChain Header.Precedes) {i : Nat} {h : Header}
    (at_i : x.headers[i]? = some h) :
    Reference.Point a (trunk ++ a :: branch) spine (x.headers.take (i + 1)) h
      (standing (forkPoint trunk a branch) spine h
        (.capped (work (trunk ++ a :: branch ++ x.headers.take (i + 1))))) where
  number := rfl
  hash := rfl
  total := rfl
  canonicalTotal := by
    show Difficulty.capped (work (spine.take (h.number.toNat + 1))) = _
    rcases Nat.le_total h.number.toNat (spine.length - 1) with low | high
    · rw [Nat.min_eq_left low]
    · -- above the head both sides take the whole path
      rw [Nat.min_eq_right high, List.take_of_length_le (by omega),
        List.take_of_length_le (by omega)]
  ratio := by
    have below : (trunk ++ a :: branch).take (a.number.toNat + 1) = trunk ++ [a] := by
      rw [fork.number_eq]
      simp [List.take_append, List.take_of_length_le]
    rw [below]
    rfl
  elapsed := Standing.toNat_secondsSince (fork.later linked h (List.mem_of_getElem? at_i))

/-- **The reckoning follows the reference.** -/
theorem Fork.reference (fork : c.Fork x.parent trunk a branch spine)
    (linked : (x.parent :: x.headers).IsChain Header.Precedes) :
    Reference c.gate a (trunk ++ a :: branch) spine x.headers
      (c.reckoning x trunk a branch spine) where
  ancestor := rfl
  branch := by
    rw [fork.number_eq]
    simp [reckoning, forkPoint]
  count := by simp [reckoning, length_ascent]
  point at_i := ⟨_, by rw [getElem?_reckoning, at_i]; rfl, fork.point linked at_i⟩
  sideChain_iff := by
    refine Verdict.ofStandings_eq_sideChain_iff.trans ⟨fun lighter => ?_, fun whole s mem => ?_⟩
    · -- the last new header has the work of the whole path
      obtain ⟨s, at_tip⟩ :
          ∃ s, (c.reckoning x trunk a branch spine).standings[x.rest.length]? = some s := by
        rw [getElem?_reckoning]
        simp [Candidate.headers]
      have tip := lighter s (List.mem_of_getElem? at_tip)
      rw [total_reckoning at_tip, List.take_of_length_le (by simp [Candidate.headers])] at tip
      exact Nat.le_of_not_lt tip
    · -- and totals only grow along the new headers
      obtain ⟨i, at_i⟩ := List.getElem?_of_mem mem
      rw [total_reckoning (c := c) at_i]
      exact Nat.not_lt.mpr (Nat.le_trans (capped_work_take_le _ _ _) whole)
  takeover {i t s} at_t at_s lighter heavier := by
    have whole : (c.reckoning x trunk a branch spine).standings
        = (c.reckoning x trunk a branch spine).standings.take i
          ++ s :: (c.reckoning x trunk a branch spine).standings.drop (i + 1) := by
      obtain ⟨bound, rfl⟩ := List.getElem?_eq_some_iff.mp at_s
      rw [← List.drop_eq_getElem_cons bound, List.take_append_drop]
    -- those before are not heavier than the head, so the search for a takeover stops here
    have before (s' : Standing) (mem : s' ∈ (c.reckoning x trunk a branch spine).standings.take i) :
        ¬ Difficulty.capped (work spine) < s'.total := by
      obtain ⟨j, at_j⟩ := List.getElem?_of_mem mem
      rw [List.getElem?_take] at at_j
      split at at_j
      · rename_i below
        rw [total_reckoning at_j]
        exact Nat.not_lt.mpr (lighter j below)
      · cases at_j
    have number : s.number = t.number ∧ s.hash = t.hash := by
      rw [getElem?_reckoning, at_t] at at_s
      obtain ⟨⟩ := at_s
      exact ⟨rfl, rfl⟩
    show Verdict.ofStandings c.gate.curve? a (c.reckoning x trunk a branch spine).standings _ = _
    rw [whole, Verdict.ofStandings_of_first before (total_reckoning at_s ▸ heavier),
      verdict_objection?, number.1, number.2]

/-! ### Assessing -/

/-- The fork point is the highest header that the two ancestries share. -/
theorem Fork.eq_of_forksAt {p b : Header} {path spine' : List Header}
    (fork : c.Fork p trunk a branch spine) (sound : c.Sound pool)
    (answers : c.store.tier.service.AnswersReads) (above : c.Ancestry p path)
    (head : c.Ancestry c.headBlock spine') (parts : ForksAt path spine' b) : a = b := by
  obtain rfl := (sound.lineage answers above).unique fork.path
  obtain rfl := (sound.lineage answers head).unique fork.head
  exact fork.path.forksAt_unique (fork.path.forksAt fork.shared fork.apart) parts

/-- **Assessing a segment follows the rule of the heaviest chain.**  In every
reached chain whose tier answers, let a segment be prepared, with the new headers
`x.headers`, and let `fork` be the highest header that the path of their parent
shares with the path of the head.  If it is not below the last frozen header, the
assessment is the one that the reference calls for. -/
theorem assess_reference (reached : Reached offered c) (free : CollisionFree offered)
    (answers : c.store.tier.service.AnswersReads)
    (prepared : c.store.answer (c.prepare segment) = .ok (some x)) :
    ∃ path spine fork, c.Ancestry x.parent path ∧ c.Ancestry c.headBlock spine ∧
      ForksAt path spine fork ∧
      (c.store.tier.items.length - 1 ≤ fork.number.toNat →
        ∃ a, c.assess segment = .ok (some a) ∧ Reference c.gate fork path spine x.headers a) := by
  have sound := reached.sound free
  obtain ⟨front, -, candidate⟩ := (answer_prepare_iff sound.rooted.sound answers).mp prepared
  obtain ⟨r, -, rule⟩ := sound.rule
  obtain ⟨trunk, a, branch, spine, fork⟩ := sound.exists_fork candidate.parent
  refine ⟨trunk ++ a :: branch, spine, a, sound.ancestry answers fork.path,
    sound.ancestry answers fork.head, fork.path.forksAt fork.shared fork.apart, fun high => ?_⟩
  refine ⟨c.reckoning x trunk a branch spine, ?_, fork.reference (candidate.linked rule)⟩
  unfold assess
  rw [fork.answer_assessment sound.rooted answers prepared, if_pos high]
  rfl

/-- Over two frozen headers the grandchild, which takes over from its sibling, is
assessed as the reference calls for. -/
theorem assess_reference_sampleGrandchild :
    ∃ (c : Chain) (path spine : List Header) (fork : Header) (a : Assessment),
      c.headBlock = sampleLater ∧
      c.store.tier.items.map (·.header) = [sampleGenesis, sampleChild] ∧
      c.Ancestry sampleChild path ∧ c.Ancestry sampleLater spine ∧ ForksAt path spine fork ∧
      c.store.tier.items.length - 1 ≤ fork.number.toNat ∧
      c.assess [sampleGrandchild] = .ok (some a) ∧ a.verdict = .headSwitch ∧
      Reference c.gate fork path spine [sampleGrandchild] a := by
  have free := collisionFree_sampleGrandchild
  obtain ⟨c, found, reached, answers, head, frozen, answered, switch⟩ :=
    exists_fork_sampleGrandchild
  obtain ⟨path, spine, fork, above, below, parts, assessed⟩ :=
    assess_reference reached free.left answers (prepare_of_assessment answers answered)
  have sound := reached.sound_append free
  -- it was assessed, so it does not fork off below the last frozen header
  obtain ⟨_, _, _, _, storable, -⟩ := sound.assessment_eq_ok free (by simp) answered
  have high := storable.high
  rw [storable.fork.eq_of_forksAt sound answers above below parts] at high
  obtain ⟨a, result, reference⟩ := assessed high
  have same : c.assess [sampleGrandchild] = .ok (some found) := assess_of_assessment answered
  obtain rfl : found = a := Option.some.inj (Outcome.ok.inj (same.symm.trans result))
  exact ⟨c, path, spine, fork, found, head, frozen, above, head ▸ below, parts, high, result,
    switch, reference⟩

theorem retarget_sampleChild : Rule.retarget {} sampleGenesis sampleChild = .ok () := by
  decide +kernel

theorem prepare_sampleChild : sampleChain.store.answer (sampleChain.prepare [sampleChild])
    = .ok (some ⟨0, sampleGenesis, sampleChild, []⟩) := by
  have sound : sampleChain.Sound [sampleGenesis] :=
    (reached_sampleChain []).sound (by simp [CollisionFree])
  have stored (hash : Hash) : sampleChain.store.item? hash
      = if sampleGenesis.hash = hash then some ⟨sampleGenesis, sampleGenesis.difficulty⟩ else none :=
    item?_genesisStore _ _ _
  refine (answer_prepare_iff sound.rooted.sound fun _ => ⟨rfl, fun _ => rfl⟩).mpr ⟨[], rfl, ?_⟩
  refine ⟨?_, rfl, List.forall_mem_nil _, ?_, ?_, rfl, ?_⟩
  · exact Segment.check_eq_ok_iff.mpr
      ⟨List.forall_mem_singleton.mpr (Header.isSealed_sealWith ..), List.isChain_singleton _⟩
  · exact (stored _).trans (if_neg sampleGenesis_hash_ne)
  · exact Store.has_iff.mpr ⟨_, (stored _).trans (if_pos rfl)⟩
  · exact obey_eq_ok_iff.mpr (List.isChain_pair.mpr retarget_sampleChild)

end Chain

end ForkChoice
