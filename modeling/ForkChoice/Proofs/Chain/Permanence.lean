/-
ForkChoice/Proofs/Chain/Permanence.lean

Accepted headers are never lost or altered.

A chain `Holds` a segment that hangs together and of which every header is
stored.  An accepted segment is held from then on, since storing it adds its
headers and nothing else (`Accepted.has_iff`); so is any run of its headers
(`Holds.part`), and at every later moment of a run (`Holds.later`).  A held
segment comes to nothing when it is inserted: the chain `Ignores` it
(`Holds.ignored`).

What a lookup by hash has found it goes on finding, because what is stored stays
stored, however it moves between the tiers (`stored_permanent`).
-/
import ForkChoice.Proofs.Chain.Atomicity
import ForkChoice.Proofs.Chain.Growth
import ForkChoice.Proofs.Chain.Progress

namespace ForkChoice.Chain

variable {pool offered segment piece trunk branch spine : List Header} {c c' : Chain}
  {x : Candidate} {a h : Header}

/-! ### Segments that are stored already -/

/-- The segment hangs together, and each of its headers is stored. -/
structure Holds (c : Chain) (segment : List Header) : Prop where
  checked : Segment.check segment = .ok ()
  stored : ∀ h ∈ segment, (c.store.item? h.hash).isSome

/-- Inserting the segment comes to nothing: no verdict is given, all headers are
known, none is written, and the chain is as before. -/
def Ignores (c : Chain) (segment : List Header) : Prop :=
  c.insert segment = (.ok {
    verdict := none
    known := segment.length
    written := 0
    head := c.headBlock.hash
    headNumber := c.headBlock.number }, c)

/-- While the tier answers, there is nothing to assess exactly if the segment is
held. -/
theorem assessment_eq_none_iff (sound : c.store.Sound)
    (answers : c.store.tier.service.AnswersReads) :
    c.store.answer (c.assessment segment) = .ok none ↔ c.Holds segment := by
  have prepared : c.store.answer (c.prepare segment) = .ok none ↔ c.Holds segment := by
    rw [answer_prepare sound answers]
    rcases checked : Segment.check segment with ⟨index, e⟩ | ⟨⟨⟩⟩
    · exact iff_of_false nofun fun holds => by cases checked.symm.trans holds.checked
    have held : c.Holds segment ↔
        (segment.dropWhile fun h => (c.store.item? h.hash).isSome) = [] := by
      rw [List.dropWhile_eq_nil_iff]
      exact ⟨fun holds => holds.stored, fun stored => ⟨checked, stored⟩⟩
    rw [held]
    dsimp only
    rcases segment.dropWhile _ with - | ⟨first, rest⟩
    · exact iff_of_true rfl rfl
    · refine iff_of_false (fun nothing => ?_) nofun
      -- with a header left over there is an error or a candidate
      dsimp only at nothing
      split at nothing
      · cases nothing
      · obtain ⟨-, -, nothing⟩ := Outcome.bind_eq_ok.mp nothing
        cases nothing
  rw [← prepared]
  constructor
  · intro nothing
    unfold assessment at nothing
    rw [Store.answer_bind answers] at nothing
    obtain ⟨x?, found, nothing⟩ := Outcome.bind_eq_ok.mp nothing
    rcases x? with - | x
    · exact found
    · dsimp only at nothing
      rw [Store.answer_bind answers] at nothing
      obtain ⟨a, -, nothing⟩ := Outcome.bind_eq_ok.mp nothing
      cases nothing
  · intro nothing
    unfold assessment
    rw [Store.answer_bind_of_ok answers nothing]
    rfl

namespace Holds

/-- Of a segment that is held every run of headers is held. -/
theorem part (holds : c.Holds segment) (within : piece <:+: segment) : c.Holds piece :=
  ⟨Segment.check_part holds.checked within, fun h mem => holds.stored h (within.subset mem)⟩

/-- What is held stays held. -/
theorem later (holds : c.Holds segment) (succeeds : c.Succeeds c') : c'.Holds segment := by
  refine ⟨holds.checked, fun h mem => ?_⟩
  obtain ⟨e, found⟩ := Option.isSome_iff_exists.mp (holds.stored h mem)
  rw [succeeds.keeps found]
  rfl

/-- **A held segment comes to nothing.** -/
theorem ignored (holds : c.Holds segment) (sound : c.store.Sound)
    (answers : c.store.tier.service.AnswersReads) : c.Ignores segment := by
  have nothing := (assessment_eq_none_iff sound answers).mpr holds
  unfold Ignores
  rw [insert_of_held nothing]
  rfl

end Holds

/-! ### Accepted segments -/

/-- A sealed header of the pool is stored if anything is under its hash. -/
theorem Sound.has_of_isSome (sound : c.Sound pool) (free : CollisionFree pool) (mem : h ∈ pool)
    (is_sealed : h.isSealed) (stored : (c.store.item? h.hash).isSome) : c.store.Has h := by
  obtain ⟨e, found⟩ := Option.isSome_iff_exists.mp stored
  have same : e.header = h := free _ (sound.rooted.mem_pool found) _ mem
    (sound.rooted.is_sealed found) is_sealed (sound.rooted.sound.hash_eq found)
  rw [← same]
  exact Store.has_of_item? sound.rooted.sound found

/-- A batch with the rows of a segment stores its new headers and no others. -/
theorem Storable.has_commit_iff (storable : Storable pool c x trunk a branch spine)
    (sound : c.Sound pool) (free : CollisionFree pool) {b : Batch}
    (rows : b.headers = headerRows x (c.reckoning x trunk a branch spine)) :
    (c.store.commit b).Has h ↔ c.store.Has h ∨ h ∈ x.headers := by
  obtain ⟨-, keeps, grown⟩ := storable.rooted_commit sound free rows
  constructor
  · intro has
    obtain ⟨total, found⟩ := Store.has_iff.mp has
    rw [Store.item?_commit] at found
    rcases Option.or_eq_some_iff.mp found with new | ⟨-, old⟩
    · have mem := (Batch.item?_eq_some new).1
      rw [rows, headerRows_reckoning] at mem
      exact .inr (fst_mem_of_mem_ascent mem)
    · exact .inl (Store.has_iff.mpr ⟨total, old⟩)
  · rintro (old | new)
    · exact keeps h old
    · exact grown.has_of_mem (List.mem_append_right _ new)

/-- A segment that is not accepted changes nothing but the counters. -/
theorem accepted_or_untallied (c : Chain) (segment : List Header) :
    (∃ receipt, (c.insert segment).1 = .ok receipt) ∨ c.Untallied (c.insert segment).2 := by
  unfold Chain.insert execute
  split
  · exact .inr ⟨c.tally, rfl⟩
  · exact .inr ⟨_, rfl⟩
  · exact .inl ⟨_, rfl⟩
  · split
    · exact .inr ⟨_, rfl⟩
    · exact .inl ⟨_, rfl⟩
    · exact .inl ⟨_, rfl⟩

/-- What an accepted segment was: held already, or some stored headers and the new
ones of a candidate that can be stored. -/
inductive Accepted (pool : List Header) (c : Chain) (segment : List Header) : Prop
  | held : c.Holds segment → (c.insert segment).2 = c → Accepted pool c segment
  | stored {front : List Header} {x : Candidate} {trunk branch spine : List Header} {a : Header} :
      segment = front ++ x.headers → c.Prepared front x → Storable pool c x trunk a branch spine →
      c.insert segment
        = ({ c with tally := c.tally.countVerdict (c.reckoning x trunk a branch spine).verdict } :
            Chain).execute x (c.reckoning x trunk a branch spine) →
      Accepted pool c segment

/-- A segment that is accepted while calls may be refused is what it would be while
none is. -/
theorem Sound.accepted {receipt : Receipt} (sound : c.Sound pool) (free : CollisionFree pool)
    (offered : ∀ h ∈ segment, h ∈ pool) (accepted : (c.insert segment).1 = .ok receipt) :
    Accepted pool c segment := by
  have answers := c.store.answersReads_answering
  have legible := sound.answering.rooted.sound
  rcases assessed : c.store.answer (c.assessment segment) with (- | ⟨x, found⟩) | e | w
  · have holds : c.answering.Holds segment :=
      (assessment_eq_none_iff legible answers).mp (c.strict_assessment segment _ 0 _ assessed)
    refine .held ⟨holds.checked, holds.stored⟩ ?_
    rw [insert_of_held assessed]
  · obtain ⟨trunk, a, branch, spine, storable, rfl⟩ := sound.assessment_eq_ok free offered assessed
    obtain ⟨front, whole, prepared⟩ := sound.prepared_of_assessment assessed
    exact .stored whole prepared storable (insert_eq assessed)
  · rw [insert_of_error assessed] at accepted
    cases accepted
  · rw [insert_of_fault assessed] at accepted
    cases accepted

/-- Carrying out a verdict that is no rejection commits the rows of the segment. -/
theorem execute_eq_ok {found : Assessment} {receipt : Receipt}
    (accepted : (c.execute x found).1 = .ok receipt) :
    ∃ b : Batch, b.headers = headerRows x found ∧ (c.execute x found).2.store = c.store.commit b := by
  unfold execute at accepted ⊢
  split at accepted
  · cases accepted
  · exact ⟨sideChainBatch x found, rfl, rfl⟩
  · exact ⟨headSwitchBatch x found, rfl, rfl⟩

namespace Accepted

variable (accepted : Accepted pool c segment)
include accepted

theorem checked : Segment.check segment = .ok () := by
  cases accepted with
  | held holds _ => exact holds.checked
  | stored whole prepared _ _ => exact whole ▸ prepared.checked

/-- **Storing an accepted segment adds its headers** to those stored before, and
nothing else. -/
theorem has_iff {receipt : Receipt} (sound : c.Sound pool) (free : CollisionFree pool)
    (offered : ∀ h ∈ segment, h ∈ pool) (ok : (c.insert segment).1 = .ok receipt) (h : Header) :
    (c.insert segment).2.store.Has h ↔ c.store.Has h ∨ h ∈ segment := by
  have all_sealed := (Segment.check_eq_ok_iff.mp accepted.checked).1
  cases accepted with
  | held holds same =>
    rw [same]
    refine ⟨.inl, ?_⟩
    rintro (old | mem)
    · exact old
    · exact sound.has_of_isSome free (offered h mem) (all_sealed h mem) (holds.stored h mem)
  | @stored front x trunk branch spine a whole prepared storable inserted =>
    rw [inserted] at ok ⊢
    obtain ⟨b, rows, store⟩ := execute_eq_ok ok
    subst whole
    have front_stored (mem : h ∈ front) : c.store.Has h :=
      sound.has_of_isSome free (offered h (List.mem_append_left _ mem))
        (all_sealed h (List.mem_append_left _ mem)) (prepared.stored h mem)
    rw [store, List.mem_append]
    refine (storable.has_commit_iff sound free rows).trans ⟨Or.imp_right .inr, ?_⟩
    rintro (old | known | new)
    · exact .inl old
    · exact .inl (front_stored known)
    · exact .inr new

end Accepted

/-- An accepted segment is held. -/
theorem Sound.holds_of_accepted {receipt : Receipt} (sound : c.Sound pool)
    (free : CollisionFree pool) (offered : ∀ h ∈ segment, h ∈ pool)
    (accepted : (c.insert segment).1 = .ok receipt) : (c.insert segment).2.Holds segment := by
  have took := sound.accepted free offered accepted
  refine ⟨took.checked, fun h mem => ?_⟩
  obtain ⟨total, found⟩ :=
    Store.has_iff.mp ((took.has_iff sound free offered accepted h).mpr (.inr mem))
  rw [found]
  rfl

/-! ### Runs -/

/-- **Accepted headers are never lost or altered.**  Along every run, whatever
was refused on the way, a header and a total difficulty that were found under a
hash are found there at every later moment at which the tier answers; and an
accepted segment, or any run of its headers, then comes to nothing when it is
inserted again. -/
theorem stored_permanent (reached : Reached offered c) (actions : List Action)
    (free : CollisionFree (offered ++ actions.flatMap Action.headers))
    (answers : (c.run actions).store.tier.service.AnswersReads) :
    (∀ hash h, c.header? hash = .ok (some h) → (c.run actions).header? hash = .ok (some h)) ∧
      (∀ hash total, c.total? hash = .ok (some total) →
        (c.run actions).total? hash = .ok (some total)) ∧
      ∀ segment later receipt, actions = .insert segment :: later →
        (c.insert segment).1 = .ok receipt →
          ∀ part, part <:+: segment → (c.run actions).Ignores part := by
  have sound := reached.sound_append free
  have known (h : Header) (mem : h ∈ actions.flatMap Action.headers) :
      h ∈ offered ++ actions.flatMap Action.headers := List.mem_append_right _ mem
  have legible := ((reached.run actions).sound free).rooted.sound
  have succeeds := sound.succeeds_run free actions known
  refine ⟨fun hash h found => ?_, fun hash total found => ?_, ?_⟩
  · -- what was found may have been found while calls were refused
    have answer := c.store.rows.strict_findHeader? hash _ 0 _ (read_eq_ok_iff.mp found)
    have same := sound.answering.rooted.sound.answer_header c.store.answersReads_answering hash
    obtain ⟨e, item, rfl⟩ := Option.map_eq_some_iff.mp (Outcome.ok.inj (same.symm.trans answer))
    refine read_eq_ok_iff.mpr ?_
    rw [legible.answer_header answers, succeeds.keeps item]
    rfl
  · have answer := c.store.rows.strict_findTotal? hash _ 0 _ (read_eq_ok_iff.mp found)
    have same := sound.answering.rooted.sound.answer_total c.store.answersReads_answering hash
    obtain ⟨e, item, rfl⟩ := Option.map_eq_some_iff.mp (Outcome.ok.inj (same.symm.trans answer))
    refine read_eq_ok_iff.mpr ?_
    rw [legible.answer_total answers, succeeds.keeps item]
    rfl
  · rintro segment later receipt rfl accepted part within
    rw [List.flatMap_cons] at known
    have here (h : Header) (mem : h ∈ segment) := known h (List.mem_append_left _ mem)
    have holds := sound.holds_of_accepted free here accepted
    have goes_on := (sound.insert free here).succeeds_run free later
      fun h mem => known h (List.mem_append_right _ mem)
    exact ((holds.later goes_on).part within).ignored legible answers

/-- A run in which two headers are accepted, one of them is frozen and the other
is reorganised away. -/
def sampleTurns : List Action :=
  [.insert [sampleChild, sampleLater], .freeze 0, .insert [sampleGrandchild],
    .serve fun _ _ => none]

/-- Afterwards both headers are still known, each by itself and together. -/
theorem stored_permanent_sampleTurns :
    (sampleChain.run sampleTurns).headBlock = sampleGrandchild ∧
      (sampleChain.run sampleTurns).store.tier.items.map (·.header)
        = [sampleGenesis, sampleChild] ∧
      (sampleChain.run sampleTurns).Ignores [sampleChild, sampleLater] ∧
      (sampleChain.run sampleTurns).Ignores [sampleLater] := by
  obtain ⟨receipt, accepted⟩ :
      ∃ receipt, (sampleChain.insert [sampleChild, sampleLater]).1 = .ok receipt := by
    refine (sampleChain.accepted_or_untallied _).resolve_right fun ⟨_, same⟩ => ?_
    have head := headBlock_sampleGrown
    rw [same] at head
    have heights : (0 : UInt64) = 2 := congrArg Header.number head
    exact absurd heights (by decide)
  have free : CollisionFree ([sampleGenesis] ++ sampleTurns.flatMap Action.headers) :=
    collisionFree_samples.mono (by simp [samples, sampleTurns, Action.headers])
  obtain ⟨-, -, again⟩ := stored_permanent (reached_sampleChain []) sampleTurns free
    fun _ => ⟨rfl, fun _ => rfl⟩
  have again := again _ _ receipt rfl accepted
  -- the steps of the run one by one, for any chain
  have whole (c : Chain) (first last : List Header) :
      c.run [.insert first, .freeze 0, .insert last, .serve fun _ _ => none]
        = (((c.insert first).2.freeze 0).2.insert last).2.serve fun _ _ => none := rfl
  have served (c : Chain) : (c.serve fun _ _ => none).headBlock = c.headBlock ∧
      (c.serve fun _ _ => none).store.tier.items = c.store.tier.items := ⟨rfl, rfl⟩
  obtain ⟨-, frozen, head⟩ := freeze_sampleGrown
  rw [sampleGrown, run_insert] at frozen head
  rw [run_insert] at head
  refine ⟨?_, ?_, again _ List.infix_rfl, again _ ⟨[sampleChild], [], rfl⟩⟩
  · rw [sampleTurns, whole, (served _).1, head]
  · rw [sampleTurns, whole, (served _).2, tier_insert, frozen]

end ForkChoice.Chain
