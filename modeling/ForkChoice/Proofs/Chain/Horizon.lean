/-
ForkChoice/Proofs/Chain/Horizon.lean

Freezing is not seen by chain selection, except at the horizon.

Freezing changes nothing of a chain but its store, and the store keeps its
contents.  So a chain `c` is compared here with `c.onto s`, the same chain on
another store of the same contents: it prepares every segment alike
(`answer_prepare_onto`), the path of a parent leaves that of the head where it
did (`Fork.onto`), and what is assessed alike is inserted alike
(`Sound.insert_onto`).  The number of frozen items is read at one place only, as
the lowest height at which a fork may leave.  Above it an insertion comes to the
same, and below it is refused (`insert_freeze_alike`).
-/
import ForkChoice.Proofs.Chain.Progress

namespace ForkChoice.Chain

variable {pool offered segment : List Header} {c : Chain} {s : Store}

/-! ### The same chain on another store -/

/-- Two chains give the same answer to every read, and differ in their stores
only. -/
structure SameView (c c' : Chain) : Prop where
  reads : c.store.SameReads c'.store
  rest : c' = c.onto c'.store

theorem answer_prepare_onto (sound : c.store.Sound) (sound' : s.Sound)
    (answers : c.store.tier.service.AnswersReads) (answers' : s.tier.service.AnswersReads)
    (same : c.store.SameContents s) (segment : List Header) :
    s.answer ((c.onto s).prepare segment) = c.store.answer (c.prepare segment) := by
  -- a preparation looks headers up by their hashes, and does nothing else with the store
  have items : s.item? = c.store.item? := by
    funext hash
    exact same.item hash
  rw [answer_prepare sound answers, ← items]
  exact answer_prepare (c := c.onto s) sound' answers' segment

/-- A segment that is not prepared is assessed as it is prepared. -/
theorem answer_assessment_of_unprepared (answers : c.store.tier.service.AnswersReads)
    (unprepared : ∀ x, c.store.answer (c.prepare segment) ≠ .ok (some x)) :
    c.store.answer (c.assessment segment)
      = (c.store.answer (c.prepare segment)).map fun _ => none := by
  unfold assessment
  rw [Store.answer_bind answers]
  rcases prepared : c.store.answer (c.prepare segment) with (- | x) | e | w
  · rfl
  · exact absurd prepared (unprepared x)
  · rfl
  · rfl

/-! ### Inserting -/

section Assessed

variable (assessed : s.answer ((c.onto s).assessment segment)
  = c.store.answer (c.assessment segment))
include assessed

/-- What is assessed alike has the same result, and the same effect beside the
store. -/
theorem insert_onto : ((c.onto s).insert segment).1 = (c.insert segment).1 ∧
    ((c.onto s).insert segment).2
      = (c.insert segment).2.onto ((c.onto s).insert segment).2.store := by
  unfold Chain.insert
  rw [assessed]
  rcases c.store.answer (c.assessment segment) with (- | ⟨x, found⟩) | e | w
  · exact ⟨rfl, rfl⟩
  · dsimp only
    unfold execute
    split <;> exact ⟨rfl, rfl⟩
  · exact ⟨rfl, rfl⟩
  · exact ⟨rfl, rfl⟩

/-- What is assessed alike stores the same headers. -/
theorem item?_insert_onto (same : c.store.SameContents s) (hash : Hash) :
    ((c.onto s).insert segment).2.store.item? hash = (c.insert segment).2.store.item? hash := by
  have committed (b : Batch) : (s.commit b).item? hash = (c.store.commit b).item? hash := by
    rw [Store.item?_commit, Store.item?_commit, same.item]
  unfold Chain.insert
  rw [assessed]
  rcases c.store.answer (c.assessment segment) with (- | ⟨x, found⟩) | e | w
  · exact same.item hash
  · dsimp only
    unfold execute
    split
    · exact same.item hash
    · exact committed (sideChainBatch x found)
    · exact committed (headSwitchBatch x found)
  · exact same.item hash
  · exact same.item hash

/-- **What is assessed alike is inserted alike**, and then the two chains still
answer alike. -/
theorem Sound.insert_onto (sound : c.Sound pool) (sound' : (c.onto s).Sound pool)
    (free : CollisionFree pool) (offered : ∀ h ∈ segment, h ∈ pool)
    (answers : c.store.tier.service.AnswersReads) (answers' : s.tier.service.AnswersReads)
    (same : c.store.SameContents s) :
    ((c.onto s).insert segment).1 = (c.insert segment).1 ∧
      (c.insert segment).2.SameView ((c.onto s).insert segment).2 := by
  obtain ⟨result, rest⟩ := Chain.insert_onto assessed
  have after := sound.insert free offered
  have after' := sound'.insert free offered
  -- index and pointers follow from the headers and the head
  have contents := after.sameContents after' (by rw [rest]) (item?_insert_onto assessed same)
    (by rw [rest])
  have reads := contents.sameReads after.rooted.sound after'.rooted.sound
    (by rwa [tier_insert]) (by rwa [tier_insert])
  exact ⟨result, reads, rest⟩

end Assessed

/-! ### The horizon -/

/-- The lowest height at which a fork may leave the path of the head. -/
def horizon (c : Chain) : Nat := c.store.tier.items.length - 1

/-- Inserting a segment into a chain `c'` that has more frozen, compared with
inserting it into `c`. -/
structure Alike (c c' : Chain) (segment : List Header) : Prop where
  view : c.SameView c'
  prepare : c'.store.answer (c'.prepare segment) = c.store.answer (c.prepare segment)
  /-- If the preparation fails or finds nothing new, the insertions come to the same. -/
  unprepared : (∀ x, c.store.answer (c.prepare segment) ≠ .ok (some x)) →
    (c'.insert segment).1 = (c.insert segment).1 ∧
      (c.insert segment).2.SameView (c'.insert segment).2
  /-- So they do if the path of the new headers leaves the head's at the horizon of
  `c'` or above; if it leaves below, the segment is refused and nothing is stored. -/
  prepared : ∀ {x}, c.store.answer (c.prepare segment) = .ok (some x) →
    ∃ path spine fork, c.Ancestry x.parent path ∧ c.Ancestry c.headBlock spine ∧
      ForksAt path spine fork ∧
      (c'.horizon ≤ fork.number.toNat →
        (c'.insert segment).1 = (c.insert segment).1 ∧
          (c.insert segment).2.SameView (c'.insert segment).2) ∧
      (fork.number.toNat < c'.horizon →
        c'.insert segment = (.error ⟨x.known, .unknownAncestor x.parent.hash c'.horizon⟩,
          { c' with tally :=
              c'.tally.countFailure (.unknownAncestor x.parent.hash c'.horizon) }))

/-- A store of the same contents matters only by the number of its frozen items. -/
theorem Sound.alike (sound : c.Sound pool) (sound' : (c.onto s).Sound pool)
    (free : CollisionFree pool) (offered : ∀ h ∈ segment, h ∈ pool)
    (answers : c.store.tier.service.AnswersReads) (answers' : s.tier.service.AnswersReads)
    (same : c.store.SameContents s) (more : c.store.tier.items.length ≤ s.tier.items.length) :
    c.Alike (c.onto s) segment := by
  have legible := sound.rooted.sound
  have legible' := sound'.rooted.sound
  have prepare := answer_prepare_onto legible legible' answers answers' same segment
  refine ⟨⟨same.sameReads legible legible' answers answers', rfl⟩, prepare,
    fun unprepared => ?_, fun {x} prepared => ?_⟩
  · have unprepared' (x : Candidate) : s.answer ((c.onto s).prepare segment) ≠ .ok (some x) := by
      rw [prepare]
      exact unprepared x
    have assessed := answer_assessment_of_unprepared answers unprepared
    have assessed' := answer_assessment_of_unprepared (c := c.onto s) answers' unprepared'
    rw [prepare, ← assessed] at assessed'
    exact sound.insert_onto assessed' sound' free offered answers answers' same
  · obtain ⟨front, -, candidate⟩ := (answer_prepare_iff legible answers).mp prepared
    obtain ⟨trunk, a, branch, spine, fork⟩ := sound.exists_fork candidate.parent
    have assessed := fork.answer_assessment sound.rooted answers prepared
    have assessed' := (fork.onto same).answer_assessment sound'.rooted answers'
      (prepare.trans prepared)
    refine ⟨trunk ++ a :: branch, spine, a, sound.ancestry answers fork.path,
      sound.ancestry answers fork.head, fork.path.forksAt fork.shared fork.apart, fun high => ?_,
      fun low => ?_⟩
    · -- what leaves above the horizon with more frozen does so with less
      have high' : c.store.tier.items.length - 1 ≤ a.number.toNat :=
        Nat.le_trans (Nat.sub_le_sub_right more 1) high
      rw [if_pos high'] at assessed
      have agreed := (assessed'.trans (if_pos high)).trans assessed.symm
      exact sound.insert_onto agreed sound' free offered answers answers' same
    · have refused := assessed'.trans (if_neg (Nat.not_le.mpr low))
      rw [insert_of_error refused]
      rfl

/-- **Freezing is not seen by chain selection, except at the horizon.**  In a
reached chain whose tier answers reads let headers be frozen, as far as it goes.
Then a segment is prepared as before.  If there is nothing new in it, or its path
leaves the head's at the last frozen header or above, inserting it comes to the
same; otherwise it is refused, and nothing is stored. -/
theorem insert_freeze_alike (reached : Reached offered c)
    (free : CollisionFree (offered ++ segment)) (answers : c.store.tier.service.AnswersReads)
    (keepRecent : UInt64) : c.Alike (c.freeze keepRecent).2 segment := by
  have sound := reached.sound_append free
  have sound' := sound.freeze keepRecent
  have more := (sound.rests_freeze keepRecent).succeeds.length_items_le
  obtain ⟨limit, -, store⟩ := c.freeze_eq keepRecent
  rw [store] at sound' more ⊢
  rcases frozen : c.store.freeze limit with ⟨result, s⟩
  rw [frozen] at sound' more
  obtain ⟨same, -, service, -⟩ := Store.freeze_spec sound.rooted.sound sound.alone frozen
  have answers' : s.tier.service.AnswersReads := by rwa [service]
  exact sound.alike sound' free (fun h mem => List.mem_append_right _ mem) answers answers' same
    more

/-- With the genesis and the child frozen, the grandchild is inserted as before,
and so would the sibling be if it did not leave below the child. -/
theorem insert_freeze_alike_sampleGrandchild :
    (sampleGrown.freeze 0).2.store.tier.items.map (·.header) = [sampleGenesis, sampleChild] ∧
      sampleGrown.Alike (sampleGrown.freeze 0).2 [sampleGrandchild] ∧
      sampleGrown.Alike (sampleGrown.freeze 0).2 [sampleSibling] := by
  exact ⟨freeze_sampleGrown.2.1,
    insert_freeze_alike reached_sampleGrown (collisionFree_samples.mono (by simp [samples]))
      answers_sampleGrown 0,
    insert_freeze_alike reached_sampleGrown (collisionFree_samples.mono (by simp [samples]))
      answers_sampleGrown 0⟩

end ForkChoice.Chain
