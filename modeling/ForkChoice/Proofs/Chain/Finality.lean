/-
ForkChoice/Proofs/Chain/Finality.lean

What is frozen is final.

The tier answers alone for the heights that it holds, its items are never taken
out or replaced from one operation to the next, and the canonical index is the
lineage of the head whatever head there is.  So a frozen header lies on the path
of the head (`Sound.getElem?_spine`), and on that of every later head
(`frozen_final`): no fork, freeze or failure of the tier moves it.
-/
import ForkChoice.Proofs.Chain.Progress

namespace ForkChoice

/-- Of a height that is frozen the frozen header is canonical. -/
theorem Store.canonical?_of_frozen {s : Store} {number : UInt64} {item : Frozen}
    (frozen : s.tier.items[number.toNat]? = some item) :
    s.canonical? number = some item.header.hash := by
  have below : number.toNat < s.tier.items.length := (List.getElem?_eq_some_iff.mp frozen).1
  unfold canonical?
  rw [if_pos below, frozen]
  rfl

namespace Chain

variable {pool offered spine : List Header} {c c' : Chain} {number : UInt64} {item : Frozen}

/-- A frozen header is the ancestor of the head at its height. -/
theorem Sound.getElem?_spine (sound : c.Sound pool) (archived : c.store.Archived)
    (l : c.store.Lineage c.genesis spine c.headBlock)
    (frozen : c.store.tier.items[number.toNat]? = some item) :
    spine[number.toNat]? = some item.header := by
  obtain ⟨spine', l', canonical⟩ := sound.spine
  obtain rfl := l.unique l'
  -- the header of that height on the path has the same hash, and is stored too
  have same := canonical number
  rw [Store.canonical?_of_frozen frozen] at same
  obtain ⟨h, at_number, same⟩ := Option.map_eq_some_iff.mp same.symm
  have has := Store.has_iff.mpr ⟨_, archived item (List.mem_of_getElem? frozen)⟩
  rw [at_number, (l.has_of_mem (List.mem_of_getElem? at_number)).unique has same]

/-- What the second chain makes of the headers that are frozen in the first. -/
structure Final (c c' : Chain) : Prop where
  count : c.store.tier.items.length ≤ c'.store.tier.items.length
  below : c'.store.tier.items.length ≤ c'.headBlock.number.toNat
  item : ∀ {number : UInt64}, number.toNat < c.store.tier.items.length →
    ∃ item path, c.store.tier.items[number.toNat]? = some item ∧
      c'.store.tier.items[number.toNat]? = some item ∧
      c.answering.store.answer (c.answering.store.source.canonical? number)
        = .ok (some item.header.hash) ∧
      c'.answering.store.answer (c'.answering.store.source.canonical? number)
        = .ok (some item.header.hash) ∧
      c'.answering.Ancestry c'.headBlock path ∧ path[number.toNat]? = some item.header

/-- While the tier answers, a frozen header is canonical. -/
theorem Sound.answering_canonical? (sound : c.Sound pool)
    (frozen : c.store.tier.items[number.toNat]? = some item) :
    c.answering.store.answer (c.answering.store.source.canonical? number)
      = .ok (some item.header.hash) := by
  have answers := c.store.answersReads_answering
  have frozen' : c.answering.store.tier.items[number.toNat]? = some item := frozen
  rw [sound.answering.rooted.sound.answer_canonical answers, Store.canonical?_of_frozen frozen']

theorem Succeeds.final (succeeds : c.Succeeds c') (sound : c.Sound pool) (sound' : c'.Sound pool)
    (archived' : c'.store.Archived) : c.Final c' where
  count := succeeds.length_items_le
  below := sound'.frozen
  item {number} inside := by
    have frozen := List.getElem?_eq_getElem inside
    have frozen' := (succeeds.getElem?_items inside).trans frozen
    obtain ⟨spine, l, -⟩ := sound'.spine
    exact ⟨_, spine, frozen, frozen', sound.answering_canonical? frozen,
      sound'.answering_canonical? frozen', sound'.answering_ancestry_iff.mpr l,
      sound'.getElem?_spine archived' l frozen'⟩

/-- **Frozen history is final.**  At every later moment of a run there are as many
frozen items or more, but no more than the head's height; and what was frozen at
a height is frozen and canonical there, and the ancestor of the head. -/
theorem frozen_final (reached : Reached offered c) (actions : List Action)
    (free : CollisionFree (offered ++ actions.flatMap Action.headers)) :
    c.Final (c.run actions) := by
  have sound := reached.sound_append free
  have reached' := reached.run actions
  have succeeds := sound.succeeds_run free actions fun h mem => List.mem_append_right _ mem
  exact succeeds.final sound (reached'.sound free) (reached'.archived free)

/-- The grandchild takes over from the last frozen header on, which stays what it
is. -/
theorem frozen_final_sampleGrandchild :
    ∃ c : Chain, c.headBlock = sampleLater ∧
      c.store.tier.items.map (·.header) = [sampleGenesis, sampleChild] ∧
      (c.run [.insert [sampleGrandchild]]).headBlock = sampleGrandchild ∧
      c.Final (c.run [.insert [sampleGrandchild]]) := by
  have free : CollisionFree [sampleGenesis, sampleChild, sampleLater, sampleGrandchild] :=
    collisionFree_samples.mono (by simp [samples])
  obtain ⟨head, frozen, head'⟩ := freeze_sampleGrown
  exact ⟨_, head, frozen, head', frozen_final (reached_sampleGrown.freeze 0)
    [.insert [sampleGrandchild]] free⟩

end Chain

end ForkChoice
