/-
ForkChoice/Proofs/Chain/Records.lean

What a chain records of its headers is right.

The total difficulty of a header is written once, from a running sum that starts
at the stored total of its parent, and is never computed again.  In every
reached chain it is nevertheless the sum of the difficulties along the path from
the genesis, for the headers of either tier; and every stored header but the
genesis stands right above a stored one (`stored_recorded`).
-/
import ForkChoice.Proofs.Chain.Progress

namespace ForkChoice

/-- Below every header of a lineage but the genesis stands another. -/
theorem Store.Lineage.parent {s : Store} {genesis h : Header} {path : List Header}
    (l : s.Lineage genesis path h) : h = genesis ∨ ∃ p, s.Has p ∧ p.Precedes h := by
  cases l with
  | root => exact .inl rfl
  | step l precedes _ => exact .inr ⟨_, l.has, precedes⟩

namespace Chain

variable {offered : List Header} {c : Chain} {h : Header}

/-- What a chain records of a header is right: its hash is that of its contents,
it is the genesis or stands right above a stored header, and the total difficulty
kept for it is the work of its one path from the genesis. -/
structure Recorded (c : Chain) (h : Header) : Prop where
  is_sealed : h.isSealed
  parent : h = c.genesis ∨ ∃ p, c.store.Stores p ∧ p.Precedes h
  total : ∃ path, c.answering.Ancestry h path ∧
    (∀ path', c.answering.Ancestry h path' → path' = path) ∧
    ∀ total, c.store.Counts h total ↔ total = .capped (work path)

/-- **All that a reached chain records is right**, in either tier. -/
theorem stored_recorded (reached : Reached offered c) (free : CollisionFree offered)
    (stored : c.store.Stores h) : c.Recorded h := by
  have sound := reached.sound free
  have archived := reached.archived free
  have legible := sound.rooted.sound
  have has := (archived.stores_iff legible).mp stored
  obtain ⟨path, l⟩ := sound.rooted.exists_lineage has
  have item := sound.rooted.item?_eq l
  refine ⟨sound.rooted.is_sealed item, ?_, path, sound.answering_ancestry_iff.mpr l,
    fun path' ancestry => ?_, fun total => ?_⟩
  · rcases l.parent with genesis | ⟨p, has_p, precedes⟩
    · exact .inl genesis
    · exact .inr ⟨p, (archived.stores_iff legible).mpr has_p, precedes⟩
  · exact (sound.answering_ancestry_iff.mp ancestry).unique l
  · rw [archived.counts_iff legible, item]
    constructor
    · intro same
      exact (congrArg Frozen.totalDifficulty (Option.some.inj same)).symm
    · rintro rfl
      rfl

/-- A frozen header is recorded as it should be. -/
theorem stored_recorded_sampleChild :
    ∃ c : Chain, c.store.tier.items.map (·.header) = [sampleGenesis, sampleChild] ∧
      c.Recorded sampleChild := by
  obtain ⟨-, frozen, -⟩ := freeze_sampleGrown
  have stored : (sampleGrown.freeze 0).2.store.Stores sampleChild := by
    refine .inr (List.mem_map.mp ?_)
    rw [frozen]
    simp
  exact ⟨_, frozen, stored_recorded (reached_sampleGrown.freeze 0)
    (collisionFree_samples.mono (by simp [samples])) stored⟩

end Chain

end ForkChoice
