/-
ForkChoice/Proofs/Chain/Failures.lean

What can go wrong with a reached chain.

An outcome is `Only` of some errors if it is a value or one of these errors, and
no fault.  Of the many readings of an insertion each could find a row missing or
a link broken; on a sound chain whose tier answers none does, whatever the
segment is.  What is left are the failures of the segment itself
(`SegmentError.Within`): a header that is not valid, a parent or a fork point
that is not there, and the objection of the gate, each blamed on a header of the
segment (`Sound.assessment_only`, `Sound.insert_only`).

A freeze of such a chain succeeds, since the canonical headers above the tier
all have their hot rows (`Sound.ripe_stretch`, `Sound.freeze_ok`).
`internal_failures_unreachable` puts these together.
-/
import Mathlib.Data.List.Perm.Subperm
import ForkChoice.Proofs.Chain.Evaluation
import ForkChoice.Proofs.Chain.Faults
import ForkChoice.Proofs.Chain.Progress

namespace ForkChoice

/-! ### Outcomes with some errors only -/

namespace Outcome

variable {ε α β : Type} {P : ε → Prop} {x : Outcome ε α}

/-- The outcome is a value or an error with the property. -/
def Only (P : ε → Prop) : Outcome ε α → Prop
  | ok _ => True
  | error e => P e
  | fault _ => False

theorem only_map {f : α → β} : (x.map f).Only P ↔ x.Only P := by
  rcases x with a | e | w <;> exact Iff.rfl

theorem Only.bind {f : α → Outcome ε β} (first : x.Only P)
    (second : ∀ a, x = .ok a → (f a).Only P) : (x >>= f).Only P := by
  rcases x with a | e | w
  · exact second a rfl
  · exact first
  · exact first

end Outcome

/-! ### Failures of a segment -/

/-- The error is the segment's own: it is not valid, has no parent or no fork
point, or the gate refuses it. -/
def ChainError.OfSegment : ChainError → Prop
  | validation _ | unknownParent _ | unknownAncestor .. | rejected _ => True
  | _ => False

/-- The error is the segment's own, and it is blamed on one of so many headers. -/
structure SegmentError.Within (length : Nat) (e : SegmentError) : Prop where
  index : e.index < length
  cause : e.cause.OfSegment

namespace Chain

variable {pool offered segment : List Header} {c : Chain} {x : Candidate} {a : Header}
  {trunk branch spine : List Header}

/-- The retarget rule, with parameters in range, blames a header that is held
against it. -/
theorem obey_retarget_only {r : Retarget} (checked : r.check = .ok ()) (index : Nat)
    (parent : Header) (headers : List Header) :
    (obey (.retarget r) index parent headers).Only (·.Within (index + headers.length)) := by
  rcases valid_or_first_invalid checked parent headers with
    valid | ⟨front, h, back, v, rfl, valid, invalid⟩
  · rw [obey_retarget_eq_ok_iff.mpr valid]
    trivial
  · rw [obey_retarget_of_invalid valid invalid, List.length_append, List.length_cons]
    exact ⟨by dsimp only; omega, trivial⟩

/-! ### Assessments -/

/-- A sound chain whose tier answers prepares a segment, or finds it at fault. -/
theorem Sound.prepare_only (sound : c.Sound pool) (answers : c.store.tier.service.AnswersReads)
    (segment : List Header) :
    (c.store.answer (c.prepare segment)).Only (·.Within segment.length) := by
  obtain ⟨r, checked, rule⟩ := sound.rule
  rw [answer_prepare sound.rooted.sound answers]
  split
  · rename_i index v failed
    obtain ⟨front, h, back, rfl, rfl, -⟩ := Segment.check_eq_error_iff.mp failed
    exact ⟨by simp, trivial⟩
  -- what is not skipped is the rest of the segment
  have whole := congrArg List.length (segment.takeWhile_append_dropWhile
    (p := fun h => (c.store.item? h.hash).isSome))
  rw [List.length_append] at whole
  dsimp only
  split
  · trivial
  · rename_i first rest dropped
    rw [dropped, List.length_cons] at whole
    split
    · exact ⟨by dsimp only; omega, trivial⟩
    · rename_i e _
      rw [rule, ← whole, ← List.length_cons (a := first)]
      refine .bind ?_ fun _ _ => trivial
      exact obey_retarget_only checked _ e.header (first :: rest)

/-- A candidate is some of the segment's headers. -/
theorem length_of_prepare (sound : c.Sound pool) (answers : c.store.tier.service.AnswersReads)
    (prepared : c.store.answer (c.prepare segment) = .ok (some x)) :
    x.known + x.headers.length = segment.length ∧
      (x.parent :: x.headers).IsChain Header.Precedes := by
  obtain ⟨r, -, rule⟩ := sound.rule
  obtain ⟨front, rfl, candidate⟩ := (answer_prepare_iff sound.rooted.sound answers).mp prepared
  exact ⟨by rw [candidate.known, List.length_append], candidate.linked rule⟩

/-- **The readings of an assessment never fail.**  What a sound chain whose tier
answers cannot assess is at fault itself. -/
theorem Sound.assessment_only (sound : c.Sound pool) (answers : c.store.tier.service.AnswersReads)
    (segment : List Header) :
    (c.store.answer (c.assessment segment)).Only (·.Within segment.length) := by
  have prepare := sound.prepare_only answers segment
  rcases prepared : c.store.answer (c.prepare segment) with (- | x) | e | w
  · unfold assessment
    rw [Store.answer_bind_of_ok answers prepared]
    trivial
  · obtain ⟨length, -⟩ := length_of_prepare sound answers prepared
    obtain ⟨front, -, candidate⟩ := (answer_prepare_iff sound.rooted.sound answers).mp prepared
    obtain ⟨trunk, a, branch, spine, fork⟩ := sound.exists_fork candidate.parent
    rw [fork.answer_assessment sound.rooted answers prepared]
    split
    · trivial
    · have some_header : 0 < x.headers.length := Nat.succ_pos _
      exact ⟨by dsimp only; omega, trivial⟩
  · rw [answer_assessment_of_error answers prepared]
    rwa [prepared] at prepare
  · rw [prepared] at prepare
    exact prepare.elim

/-! ### Insertions -/

/-- The gate blames a new header. -/
theorem rejectionIndex_lt {r : Rejection}
    (linked : (x.parent :: x.headers).IsChain Header.Precedes)
    (verdict : (c.reckoning x trunk a branch spine).verdict = .rejected r) :
    rejectionIndex x r < x.known + x.headers.length := by
  obtain ⟨s, mem, objects⟩ := Verdict.exists_objection verdict
  have number := Verdict.number_of_objection objects
  obtain ⟨i, at_i⟩ := List.getElem?_of_mem mem
  change (c.reckoning x trunk a branch spine).standings[i]? = some s at at_i
  rw [getElem?_reckoning] at at_i
  obtain ⟨h, at_h, rfl⟩ := Option.map_eq_some_iff.mp at_i
  change r.number = h.number at number
  rw [rejectionIndex_eq linked at_h number]
  exact Nat.add_lt_add_left (List.getElem?_eq_some_iff.mp at_h).1 x.known

/-- **The readings of an insertion never fail** either. -/
theorem Sound.insert_only (sound : c.Sound pool) (answers : c.store.tier.service.AnswersReads)
    (segment : List Header) : (c.insert segment).1.Only (·.Within segment.length) := by
  have only := sound.assessment_only answers segment
  unfold Chain.insert
  rcases assessed : c.store.answer (c.assessment segment) with (- | ⟨x, found⟩) | e | w
  · trivial
  · have prepared := prepare_of_assessment answers assessed
    obtain ⟨length, linked⟩ := length_of_prepare sound answers prepared
    obtain ⟨front, -, candidate⟩ := (answer_prepare_iff sound.rooted.sound answers).mp prepared
    obtain ⟨trunk, a, branch, spine, fork⟩ := sound.exists_fork candidate.parent
    rw [fork.answer_assessment sound.rooted answers prepared] at assessed
    split at assessed
    · cases assessed
      dsimp only
      unfold execute
      split
      · rename_i r rejected
        exact ⟨length ▸ rejectionIndex_lt linked rejected, trivial⟩
      · trivial
      · trivial
    · cases assessed
  · rwa [assessed] at only
  · rw [assessed] at only
    exact only.elim

/-! ### Freezes -/

/-- The headers of a path from one height up to another, with their total
difficulties. -/
def stretch (path : List Header) (start stop : Nat) : List Frozen :=
  (((ascent 0 path).take stop).drop start).map fun (h, total) => ⟨h, total⟩

theorem length_stretch {path : List Header} {start stop : Nat} (inside : stop ≤ path.length) :
    (stretch path start stop).length = stop - start := by
  unfold stretch
  rw [List.length_map, List.length_drop, List.length_take, length_ascent, Nat.min_eq_left inside]

theorem getElem?_stretch {path : List Header} {start stop i : Nat} {item : Frozen}
    (at_i : (stretch path start stop)[i]? = some item) :
    path[start + i]? = some item.header ∧
      item.totalDifficulty = .capped (work (path.take (start + i + 1))) := by
  unfold stretch at at_i
  rw [List.getElem?_map, List.getElem?_drop] at at_i
  obtain ⟨⟨h, total⟩, at_place, rfl⟩ := Option.map_eq_some_iff.mp at_i
  rw [List.getElem?_take, getElem?_ascent, Nat.zero_add] at at_place
  split at at_place
  · obtain ⟨h', on_path, same⟩ := Option.map_eq_some_iff.mp at_place
    cases same
    exact ⟨on_path, rfl⟩
  · cases at_place

/-- The headers of the head's path are ripe from the end of the tier on. -/
theorem Sound.ripe_stretch (sound : c.Sound pool)
    (l : c.store.Lineage c.genesis spine c.headBlock) (stop : Nat) :
    c.store.Ripe (stretch spine c.store.tier.items.length stop) := by
  obtain ⟨spine', l', canonical⟩ := sound.spine
  obtain rfl := l.unique l'
  have each {i : Nat} {item : Frozen}
      (at_i : (stretch spine c.store.tier.items.length stop)[i]? = some item) :
      item.header.number.toNat = c.store.tier.items.length + i ∧
        spine[item.header.number.toNat]? = some item.header ∧
        c.store.item? item.header.hash = some item := by
    obtain ⟨on_path, total⟩ := getElem?_stretch at_i
    have number := l.number_eq on_path
    have found := sound.rooted.item?_eq (l.take (List.mem_of_getElem? on_path))
    rw [number, ← total] at found
    exact ⟨number, number ▸ on_path, found⟩
  refine ⟨fun i item at_i => (each at_i).1, fun item mem => ?_, fun item mem => ?_⟩
  · obtain ⟨i, at_i⟩ := List.getElem?_of_mem mem
    obtain ⟨number, on_path, -⟩ := each at_i
    have named := canonical item.header.number
    rw [on_path] at named
    unfold Store.canonical? at named
    rwa [if_neg (by omega)] at named
  · obtain ⟨i, at_i⟩ := List.getElem?_of_mem mem
    obtain ⟨number, -, found⟩ := each at_i
    exact sound.rooted.sound.item?_of_unfrozen found (by omega)

/-- **A freeze succeeds** on a sound chain whose tier answers, if memory can hold
the headers to freeze. -/
theorem Sound.freeze_ok (sound : c.Sound pool) (answers : c.store.tier.service.Answers)
    (keepRecent : UInt64)
    (room : c.headBlock.number.toNat - keepRecent.toNat - c.store.tier.items.length
      ≤ Store.greatestBatch) :
    (c.freeze keepRecent).1
      = .ok (max c.store.tier.items.length (c.headBlock.number.toNat - keepRecent.toNat)) := by
  obtain ⟨limit, below, frozen⟩ := c.freeze_limit keepRecent
  rw [← below] at room ⊢
  obtain ⟨spine, l, -⟩ := sound.spine
  have inside : limit.toNat ≤ spine.length := by
    rw [l.length_eq]
    omega
  rw [frozen, Store.freeze_of_ripe sound.rooted.sound answers sound.alone room
    (sound.ripe_stretch l limit.toNat) (length_stretch inside)]
  rfl

/-! ### Reached chains -/

/-- The headers of a lineage are distinct. -/
theorem nodup_of_lineage {s : Store} {genesis h : Header} {path : List Header}
    (l : s.Lineage genesis path h) : path.Nodup :=
  Store.nodup_of_heights (·.number.toNat) 0 fun _ _ at_i =>
    (l.number_eq at_i).trans (Nat.zero_add _).symm

/-- The head of a sound chain is no higher than headers were offered to it. -/
theorem Sound.number_lt (sound : c.Sound pool) : c.headBlock.number.toNat < pool.length := by
  obtain ⟨spine, l, -⟩ := sound.spine
  have offered : spine ⊆ pool := by
    intro h mem
    obtain ⟨_, found⟩ := Store.has_iff.mp (l.has_of_mem mem)
    exact sound.rooted.mem_pool found
  have fewer := ((nodup_of_lineage l).subperm offered).length_le
  rw [l.length_eq] at fewer
  exact fewer

/-- What the chain is asked to do it does, unless the request itself is at fault.
The headers to freeze have to fit into memory, as they do if fewer were offered
than memory can hold. -/
structure Dependable (offered : List Header) (c : Chain) : Prop where
  insert : ∀ segment, (c.insert segment).1.Only (·.Within segment.length)
  assess : ∀ segment, (c.assess segment).Only (·.Within segment.length)
  freeze : ∀ keepRecent : UInt64,
    c.headBlock.number.toNat - keepRecent.toNat - c.store.tier.items.length ≤ Store.greatestBatch →
      (c.freeze keepRecent).1
        = .ok (max c.store.tier.items.length (c.headBlock.number.toNat - keepRecent.toNat))
  number : c.headBlock.number.toNat < offered.length

/-- Every freeze succeeds where fewer than 2 ^ 56 headers were offered: there is room
for all of them. -/
theorem Dependable.freeze_ok (dependable : c.Dependable offered) (few : offered.length < 2 ^ 56)
    (keepRecent : UInt64) :
    (c.freeze keepRecent).1
      = .ok (max c.store.tier.items.length (c.headBlock.number.toNat - keepRecent.toNat)) := by
  have below := dependable.number
  have bound : Store.greatestBatch = 2 ^ 56 - 1 := by decide
  exact dependable.freeze keepRecent (by omega)

/-- **Internal failures are unreachable.**  In every reached chain whose tier
answers, whatever was refused before, insertions and assessments of any segment
whatsoever do not fault and report no error but the segment's own, blamed on one
of its headers; and every freeze succeeds. -/
theorem internal_failures_unreachable (reached : Reached offered c) (free : CollisionFree offered)
    (answers : c.store.tier.service.Answers) : c.Dependable offered := by
  have sound := reached.sound free
  have reads : c.store.tier.service.AnswersReads :=
    fun place => ⟨answers place _, fun _ => answers place _⟩
  exact ⟨sound.insert_only reads,
    fun segment => Outcome.only_map.mpr (sound.assessment_only reads segment),
    sound.freeze_ok answers, sound.number_lt⟩

/-- With two headers frozen nothing fails as long as the tier answers, and every
freeze succeeds. -/
theorem internal_failures_unreachable_sampleLater :
    ∃ c : Chain, c.headBlock = sampleLater ∧
      c.store.tier.items.map (·.header) = [sampleGenesis, sampleChild] ∧
      c.Dependable [sampleGenesis, sampleChild, sampleLater] ∧
      ∀ keepRecent : UInt64, ∃ n, (c.freeze keepRecent).1 = .ok n := by
  obtain ⟨c, reached, head, frozen⟩ : ∃ c : Chain,
      Reached [sampleGenesis, sampleChild, sampleLater] c ∧ c.headBlock = sampleLater ∧
        c.store.tier.items.map (·.header) = [sampleGenesis, sampleChild] :=
    ⟨_, reached_sampleGrown.freeze 0, freeze_sampleGrown.1, freeze_sampleGrown.2.1⟩
  have later : Reached [sampleGenesis, sampleChild, sampleLater] c.answering :=
    reached.run [.serve fun _ _ => none]
  have dependable : c.answering.Dependable [sampleGenesis, sampleChild, sampleLater] :=
    internal_failures_unreachable later (collisionFree_samples.mono (by simp [samples]))
      fun _ _ => rfl
  exact ⟨c.answering, head, frozen, dependable,
    fun keepRecent => ⟨_, dependable.freeze_ok (by decide) keepRecent⟩⟩

end Chain

end ForkChoice
