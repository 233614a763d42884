/-
ForkChoice/Proofs/Chain/Preparing.lean

What a prepared candidate is.

While the tier answers, a segment is prepared exactly if it passes its check,
some headers at its front are stored and the next is not, the parent of that one
is stored, and the new headers obey the rule (`answer_prepare_iff`).  Of the
new headers then none is stored, not only the first (`Prepared.fresh`): a stored
header has its parent stored, as long as no hashes collide.
-/
import Mathlib.Data.List.TakeWhile
import ForkChoice.Proofs.Chain.Invariant

namespace ForkChoice.Chain

variable {c : Chain} {segment front headers : List Header} {x : Candidate} {pool : List Header}

/-! ### Candidates -/

/-- The candidate is what is new of the front with the candidate's headers. -/
structure Prepared (c : Chain) (front : List Header) (x : Candidate) : Prop where
  checked : Segment.check (front ++ x.headers) = .ok ()
  known : x.known = front.length
  stored : ∀ h ∈ front, (c.store.item? h.hash).isSome
  first : c.store.item? x.first.hash = none
  parent : c.store.Has x.parent
  link : x.first.parentHash = x.parent.hash
  obeys : obey c.rule x.known x.parent x.headers = .ok ()

/-! ### The answer to a preparation -/

section Answers

variable (sound : c.store.Sound) (answers : c.store.tier.service.AnswersReads)
include sound answers

theorem answer_skipKnown (known : Nat) (segment : List Header) :
    c.store.answer (skipKnown c.store.rows known segment)
      = .ok (known + (segment.takeWhile fun h => (c.store.item? h.hash).isSome).length,
          segment.dropWhile fun h => (c.store.item? h.hash).isSome) := by
  induction segment generalizing known with
  | nil => rfl
  | cons h rest ih =>
    unfold skipKnown
    rw [Store.answer_bind_of_ok answers (Store.answer_blame_of_ok (Store.answer_inChain_of_ok
      (sound.answer_hasHeader answers h.hash)))]
    by_cases known_here : (c.store.item? h.hash).isSome
    · rw [if_pos known_here, ih]
      simp [known_here, Nat.add_assoc, Nat.add_comm 1]
    · rw [if_neg known_here]
      simp only [List.takeWhile_cons, List.dropWhile_cons, if_neg known_here]
      rfl

/-- The answer to a preparation, step by step. -/
theorem answer_prepare (segment : List Header) :
    c.store.answer (c.prepare segment) =
      match Segment.check segment with
      | .error (index, e) => .error ⟨index, .validation e⟩
      | .ok () =>
        let known := (segment.takeWhile fun h => (c.store.item? h.hash).isSome).length
        match segment.dropWhile fun h => (c.store.item? h.hash).isSome with
        | [] => .ok none
        | first :: rest =>
          match c.store.item? first.parentHash with
          | none => .error ⟨known, .unknownParent first.parentHash⟩
          | some e => do
            obey c.rule known e.header (first :: rest)
            return some { known, parent := e.header, first, rest } := by
  unfold prepare
  rcases Segment.check segment with ⟨index, e⟩ | ⟨⟨⟩⟩
  · rfl
  dsimp only
  rw [Store.answer_bind_of_ok answers (answer_skipKnown sound answers 0 segment), Nat.zero_add]
  rcases segment.dropWhile _ with - | ⟨first, rest⟩
  · rfl
  dsimp only
  rw [Store.answer_bind_of_ok answers (Store.answer_blame_of_ok (Store.answer_inChain_of_ok
    (sound.answer_header answers first.parentHash)))]
  rcases c.store.item? first.parentHash with - | e
  · rfl
  dsimp only [Option.map_some]
  rw [Store.answer_bind answers]
  rfl

/-- **A segment is prepared** exactly if it consists of stored headers and of a
candidate's new ones. -/
theorem answer_prepare_iff :
    c.store.answer (c.prepare segment) = .ok (some x) ↔
      ∃ front, segment = front ++ x.headers ∧ c.Prepared front x := by
  rw [answer_prepare sound answers]
  constructor
  · -- each failing branch is ruled out, and each passed one gives a field
    intro h
    split at h
    · cases h
    rename_i checked
    dsimp only at h
    have whole := (segment.takeWhile_append_dropWhile
      (p := fun h => (c.store.item? h.hash).isSome)).symm
    have known (h : Header) (mem : h ∈ segment.takeWhile fun h => (c.store.item? h.hash).isSome) :=
      List.mem_takeWhile_imp mem
    split at h
    · cases h
    rename_i first rest dropped
    have first_new := List.head?_dropWhile_not (fun h => (c.store.item? h.hash).isSome) segment
    rw [dropped] at whole first_new
    split at h
    · cases h
    rename_i e found
    obtain ⟨⟨⟩, obeys, h⟩ := Outcome.bind_eq_ok.mp h
    obtain ⟨⟩ := h
    refine ⟨_, whole, ?_, rfl, known, ?_, Store.has_of_item? sound found, ?_, obeys⟩
    · show Segment.check (_ ++ first :: rest) = _
      rw [← whole, checked]
    · simpa using first_new
    · exact (sound.hash_eq found).symm
  · -- the stored headers are all of the front, since the first new one is not stored
    rintro ⟨front, rfl, prepared⟩
    obtain ⟨total, found⟩ := Store.has_iff.mp prepared.parent
    rw [← prepared.link] at found
    have obeys := prepared.obeys
    rw [prepared.known] at obeys
    rw [prepared.checked, List.takeWhile_append_of_pos prepared.stored,
      List.dropWhile_append_of_pos prepared.stored]
    have first_new : (c.store.item? x.first.hash).isSome = false := by
      rw [prepared.first]
      rfl
    unfold Candidate.headers at obeys ⊢
    simp only [List.takeWhile_cons, List.dropWhile_cons, first_new, Bool.false_eq_true, if_false,
      List.append_nil, found, obeys, Outcome.ok_bind]
    rw [← prepared.known]
    rfl

end Answers

/-! ### New headers -/

namespace Prepared

/-- The new headers come after those that are stored. -/
theorem getElem?_known (prepared : c.Prepared front x) (i : Nat) :
    (front ++ x.headers)[x.known + i]? = x.headers[i]? := by
  rw [prepared.known, List.getElem?_append_right (Nat.le_add_right _ _), Nat.add_sub_cancel_left]

/-- New headers that obey the retarget rule each precede the next. -/
theorem linked {r : Retarget} (prepared : c.Prepared front x) (rule : c.rule = .retarget r) :
    (x.parent :: x.headers).IsChain Header.Precedes := by
  have obeys := obey_eq_ok_iff.mp prepared.obeys
  rw [rule] at obeys
  exact obeys.imp fun _ _ => Rule.precedes_of_retarget

theorem is_sealed (prepared : c.Prepared front x) {h : Header} (mem : h ∈ x.headers) :
    h.isSealed :=
  (Segment.check_eq_ok_iff.mp prepared.checked).1 h (List.mem_append_right _ mem)

end Prepared

/-- Above a header that is not stored nothing is stored. -/
theorem unknown_of_linked {s : Store} {genesis p : Header} (rooted : s.Rooted genesis pool)
    (free : CollisionFree pool) (linked : (p :: headers).IsChain Header.Precedes)
    (offered : ∀ h ∈ headers, h ∈ pool ∧ h.isSealed) (unknown : s.item? p.hash = none) :
    ∀ h ∈ headers, s.item? h.hash = none := by
  induction headers generalizing p with
  | nil => exact List.forall_mem_nil _
  | cons h headers ih =>
    obtain ⟨precedes, linked⟩ := List.isChain_cons_cons.mp linked
    obtain ⟨⟨mem, is_sealed⟩, offered⟩ := List.forall_mem_cons.mp offered
    have here : s.item? h.hash = none := by
      rcases found : s.item? h.hash with - | e
      · rfl
      -- what is stored under this hash is this header, and its parent is stored too
      obtain ⟨path, l, -⟩ := rooted.lineage found
      have same : e.header = h := free _ (rooted.mem_pool found) _ mem (rooted.is_sealed found)
        is_sealed (rooted.sound.hash_eq found)
      rw [same] at l
      cases l with
      | root number =>
        have := precedes.number
        rw [number] at this
        exact absurd this.symm (Nat.succ_ne_zero _)
      | @step _ p' _ l precedes' _ =>
        rw [← precedes.link, precedes'.link] at unknown
        exact absurd l.has (Store.not_has_of_unknown unknown)
    exact List.forall_mem_cons.mpr ⟨here, ih linked offered here⟩

/-- **None of the new headers is stored.** -/
theorem Prepared.fresh (prepared : c.Prepared front x) (sound : c.Sound pool)
    (free : CollisionFree pool) (offered : ∀ h ∈ x.headers, h ∈ pool) :
    ∀ h ∈ x.headers, c.store.item? h.hash = none := by
  obtain ⟨r, -, rule⟩ := sound.rule
  have above := unknown_of_linked sound.rooted free (prepared.linked rule).tail
    (fun h mem => ⟨offered h (List.mem_cons_of_mem _ mem),
      prepared.is_sealed (List.mem_cons_of_mem _ mem)⟩) prepared.first
  exact List.forall_mem_cons.mpr ⟨prepared.first, above⟩

end ForkChoice.Chain
