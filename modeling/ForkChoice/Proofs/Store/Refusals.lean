/-
ForkChoice/Proofs/Store/Refusals.lean

A refused call never changes a result, it only prevents one.

A lookup is `Strict` if whatever value it comes to under a tier that may refuse
calls is also the value it comes to under the same tier answering every call.
Reads of the store are strict, because each of them reports a refusal as an
error; sequences of strict lookups are strict (`Strict.bind`); and so is all
that a chain asks of its store when it opens or assesses a segment
(`strict_storedHeads`, `strict_assessment`).  A race goes on record even where
it was cut short, but the assessment drops it then (`strict_judge`).
-/
import ForkChoice.Chain.Assess
import ForkChoice.Proofs.Store.Freezing

namespace ForkChoice

/-- The tier answering every call. -/
def Tier.answering (t : Tier) : Tier := { t with service := {} }

theorem Tier.answersReads_answering (t : Tier) : t.answering.service.AnswersReads :=
  fun _ => ⟨rfl, fun _ => rfl⟩

namespace Lookup

variable {ε δ α β : Type}

/-! ### Strict lookups -/

/-- A value found while calls may be refused is found while none is. -/
def Strict (x : Lookup ε α) : Prop :=
  ∀ (t : Tier) (place : Nat) (a : α), x.runFrom t place = .ok a → x.run t.answering = .ok a

theorem runFrom_bind_eq_ok {t : Tier} {x : Lookup ε α} {f : α → Lookup ε β} {place : Nat} {b : β}
    (h : (x >>= f).runFrom t place = .ok b) :
    ∃ a place', x.runFrom t place = .ok a ∧ (f a).runFrom t place' = .ok b := by
  change (x.bind f).runFrom t place = .ok b at h
  -- the second part starts at the call after the last one of the first part
  induction x generalizing place with
  | done result =>
    cases result with
    | ok a => exact ⟨a, place, rfl, h⟩
    | error e => cases h
    | fault w => cases h
  | count next ih => exact ih _ h
  | fetch number next ih => exact ih _ h

theorem strict_done (result : Outcome ε α) : (done result).Strict := fun _ _ _ h => h

theorem strict_fail (e : ε) : (fail e : Lookup ε α).Strict := strict_done _

theorem strict_pure (a : α) : (pure a : Lookup ε α).Strict := strict_done _

theorem strict_ofExcept (x : Except ε α) : (ofExcept x).Strict := strict_done _

theorem Strict.bind {x : Lookup ε α} {f : α → Lookup ε β} (hx : x.Strict) (hf : ∀ a, (f a).Strict) :
    (x >>= f).Strict := by
  intro t place b h
  obtain ⟨a, place', first, second⟩ := runFrom_bind_eq_ok h
  rw [run_bind t.answersReads_answering, hx t place a first]
  exact hf a t place' b second

theorem Strict.mapError {x : Lookup ε α} (hx : x.Strict) (g : ε → δ) : (x.mapError g).Strict := by
  intro t place a h
  rw [runFrom_mapError] at h
  rw [run_mapError]
  rcases found : x.runFrom t place with b | e | w <;> rw [found] at h
  · cases h
    rw [hx t place _ found]
    rfl
  · cases h
  · cases h

/-- A lookup that fails where its call is refused is as strict as what follows. -/
theorem strict_count {next : Except TierError Nat → Lookup ε α} {refused : TierError → ε}
    (fails : ∀ e, next (.error e) = fail (refused e)) (goesOn : ∀ n, (next (.ok n)).Strict) :
    (count next).Strict := by
  intro t place a h
  rw [run_count t.answersReads_answering]
  change (next (t.count place)).runFrom t (place + 1) = .ok a at h
  unfold Tier.count Tier.call at h
  split at h
  · rw [fails] at h
    cases h
  · exact goesOn _ t _ a h

theorem strict_fetch {number : UInt64} {next : Except TierError (Option Frozen) → Lookup ε α}
    {refused : TierError → ε} (fails : ∀ e, next (.error e) = fail (refused e))
    (goesOn : ∀ item?, (next (.ok item?)).Strict) : (fetch number next).Strict := by
  intro t place a h
  rw [run_fetch t.answersReads_answering]
  change (next (t.fetch place number)).runFrom t (place + 1) = .ok a at h
  unfold Tier.fetch Tier.call at h
  split at h
  · rw [fails] at h
    cases h
  · exact goesOn _ t _ a h

end Lookup

open Lookup

/-! ### Reads of the store -/

namespace Rows

variable (rows : Rows) (hash : Hash)

theorem strict_frozen? : (rows.frozen? hash).Strict := by
  apply (strict_ofExcept _).bind
  intro number?
  rcases number? with - | number
  · exact strict_pure _
  refine strict_count (fun _ => rfl) fun frozen => ?_
  dsimp only
  split
  · exact strict_pure _
  refine strict_fetch (fun _ => rfl) fun item? => ?_
  rcases item? with - | item <;> exact strict_pure _

theorem strict_findHeader? : (rows.findHeader? hash).Strict := by
  apply (strict_ofExcept _).bind
  intro h?
  rcases h? with - | h
  · exact (rows.strict_frozen? hash).bind fun _ => strict_pure _
  · exact strict_pure _

theorem strict_findTotal? : (rows.findTotal? hash).Strict := by
  apply (strict_ofExcept _).bind
  intro total?
  rcases total? with - | total
  · exact (rows.strict_frozen? hash).bind fun _ => strict_pure _
  · exact strict_pure _

theorem strict_findCanonical? (number : UInt64) : (rows.findCanonical? number).Strict := by
  refine strict_count (fun _ => rfl) fun frozen => ?_
  dsimp only
  split
  · exact strict_fetch (fun _ => rfl) fun item? => strict_pure _
  · exact strict_ofExcept _

theorem strict_hasHeader : (rows.hasHeader hash).Strict := by
  unfold hasHeader
  split
  · exact strict_pure _
  · exact (rows.strict_frozen? hash).bind fun _ => strict_pure _

end Rows

theorem strict_frozenCount : frozenCount.Strict :=
  strict_count (fun _ => rfl) fun _ => strict_pure _

namespace Store

variable (s : Store)

theorem strict_isCanonical (h : Header) : (s.source.isCanonical h).Strict :=
  (s.rows.strict_findCanonical? h.number).bind fun _ => strict_pure _

theorem strict_totalOf (hash : Hash) : (s.source.totalOf hash).Strict := by
  apply ((s.rows.strict_findTotal? hash).mapError _).bind
  intro total?
  rcases total? with - | total
  · exact strict_fail _
  · exact strict_pure _

/-! ### Fork points and races -/

theorem strict_walk (unknown : ChainError) (retainedFrom steps : Nat) (cursor : Header)
    (branch : List (UInt64 × Hash)) :
    (ForkPoint.walk s.source unknown retainedFrom steps cursor branch).Strict := by
  induction steps generalizing cursor branch with
  | zero => exact strict_done _
  | succ steps ih =>
    unfold ForkPoint.walk
    split
    · exact strict_fail _
    apply ((s.strict_isCanonical cursor).mapError _).bind
    intro canonical
    split
    · exact strict_pure _
    split
    · exact strict_fail _
    apply ((s.rows.strict_findHeader? _).mapError _).bind
    intro parent?
    rcases parent? with - | parent
    · exact strict_fail _
    · exact ih _ _

theorem strict_search (parentHash : Hash) (retainedFrom : Nat) :
    (ForkPoint.search s.source parentHash retainedFrom).Strict := by
  apply ((s.rows.strict_findHeader? _).mapError _).bind
  intro parent?
  rcases parent? with - | parent
  · exact strict_fail _
  apply (s.strict_walk _ _ _ _ _).bind
  intro found
  exact (s.strict_totalOf _).bind fun _ => strict_pure _

theorem strict_standing (fork : ForkPoint) (headNumber : UInt64) (total : Difficulty) (h : Header) :
    (Standing.of s.source fork headNumber total h).Strict := by
  apply ((s.rows.strict_findCanonical? _).mapError _).bind
  intro canonical?
  rcases canonical? with - | canonical
  · exact strict_fail _
  · exact (s.strict_totalOf _).bind fun _ => strict_pure _

end Store

/-- What an attempt hands out as a value was a value. -/
theorem Lookup.runFrom_attempt_eq_ok {ε δ α : Type} {t : Tier} {x : Lookup ε α} {place : Nat} {a : α}
    (h : (x.attempt : Lookup δ (Except ε α)).runFrom t place = .ok (.ok a)) :
    x.runFrom t place = .ok a := by
  induction x generalizing place with
  | done result =>
    cases result with
    | ok b => cases h; rfl
    | error e => cases h
    | fault w => cases h
  | count next ih => exact ih _ h
  | fetch number next ih => exact ih _ h

theorem Lookup.run_attempt {ε δ α : Type} {t : Tier} {x : Lookup ε α} {a : α} (h : x.run t = .ok a) :
    (x.attempt : Lookup δ (Except ε α)).run t = .ok (.ok a) := by
  unfold run at h ⊢
  generalize 0 = place at h ⊢
  induction x generalizing place with
  | done result =>
    cases result with
    | ok b => cases h; rfl
    | error e => cases h
    | fault w => cases h
  | count next ih => exact ih _ _ h
  | fetch number next ih => exact ih _ _ h

/-- A race that ran to its end while calls could be refused is run the same way
while none is. -/
theorem Store.run_race_of_complete (s : Store) {fork : ForkPoint} {headNumber : UInt64}
    {total : Difficulty} {headers : List Header} {t : Tier} {place : Nat} {race : Race}
    (h : (Race.run s.source fork headNumber total headers).runFrom t place = .ok race)
    (complete : race.failure = none) :
    (Race.run s.source fork headNumber total headers).run t.answering = .ok race := by
  induction headers generalizing total place race with
  | nil => exact h
  | cons header headers ih =>
    unfold Race.run at h ⊢
    obtain ⟨found, place₁, first, h⟩ := runFrom_bind_eq_ok h
    rcases found with e | standing
    · -- a refused call ends the race, and is noted in it
      cases h
      cases complete
    · obtain ⟨race', place₂, others, h⟩ := runFrom_bind_eq_ok h
      cases h
      have standing_run := s.strict_standing _ _ _ _ t place _ (runFrom_attempt_eq_ok first)
      rw [run_bind t.answersReads_answering, run_attempt standing_run]
      show Lookup.run _ (_ >>= _) = _
      rw [run_bind t.answersReads_answering, ih others complete]
      rfl

namespace Chain

/-! ### Chains -/

theorem strict_judge (c : Chain) (x : Candidate) : (c.judge x).Strict := by
  apply (strict_frozenCount.mapError _ |>.bind fun _ => strict_pure _).bind
  intro retained
  apply (c.store.strict_search _ _).bind
  intro fork
  apply (c.store.strict_totalOf _).bind
  intro headTotal
  apply (c.store.strict_totalOf _).bind
  -- the race hands its failure out, so it is not strict by itself
  intro parentTotal t place a h
  obtain ⟨race, place', raced, h⟩ := runFrom_bind_eq_ok h
  rcases complete : race.failure with - | e
  · rw [run_bind t.answersReads_answering, c.store.run_race_of_complete raced complete,
      Outcome.ok_bind]
    simp only [complete] at h ⊢
    exact h
  · simp only [complete] at h
    cases h

theorem strict_skipKnown (rows : Rows) (known : Nat) (segment : List Header) :
    (skipKnown rows known segment).Strict := by
  induction segment generalizing known with
  | nil => exact strict_pure _
  | cons h rest ih =>
    apply (((rows.strict_hasHeader _).mapError _).mapError _).bind
    intro stored
    split
    · exact ih _
    · exact strict_pure _

theorem strict_prepare (c : Chain) (segment : List Header) : (c.prepare segment).Strict := by
  unfold prepare
  split
  · exact strict_fail _
  apply (strict_skipKnown _ _ _).bind
  intro skipped
  rcases skipped with ⟨known, - | ⟨first, rest⟩⟩
  · exact strict_pure _
  apply (((c.store.rows.strict_findHeader? _).mapError _).mapError _).bind
  intro parent?
  rcases parent? with - | parent
  · exact strict_fail _
  · exact (strict_done _).bind fun _ => strict_pure _

/-- What a chain finds out about a segment while calls may be refused, it finds
out while none is. -/
theorem strict_assessment (c : Chain) (segment : List Header) : (c.assessment segment).Strict := by
  apply (c.strict_prepare segment).bind
  intro x?
  rcases x? with - | x
  · exact strict_pure _
  · exact ((c.strict_judge x).mapError _).bind fun _ => strict_pure _

theorem strict_storedHeads (rows : Rows) (genesis : Header) (headHash : Hash) :
    (storedHeads rows genesis headHash).Strict := by
  apply ((rows.strict_findCanonical? _).mapError _).bind
  intro stored?
  rcases stored? with - | stored
  · exact strict_fail _
  dsimp only
  split
  · exact strict_fail _
  apply ((rows.strict_findHeader? _).mapError _).bind
  intro block?
  rcases block? with - | block
  · exact strict_fail _
  apply ((strict_ofExcept _).mapError _).bind
  intro hash?
  rcases hash? with - | hash
  · exact strict_pure _
  · exact ((rows.strict_findHeader? _).mapError _).bind fun _ => strict_pure _

end Chain

end ForkChoice
