/-
ForkChoice/Proofs/Store/Archive.lean

What stands in the two tiers.

A lookup by hash asks the hot rows and the frozen tier in turn.  `Store.Stores`
and `Store.Counts` look into both of them instead: a header stands in a hot row
or among the frozen items, and a total difficulty stands beside it.  If a store
is `Archived`, so that each frozen item is also what its hash leads to, nothing
stands in a tier that a lookup does not find (`Archived.stores_iff`,
`Archived.counts_iff`).

Freezing keeps a store archived, since it only adds such items at the end of
the tier (`freeze_extends`).
-/
import ForkChoice.Proofs.Chain.Lineage
import ForkChoice.Proofs.Store.Freezing

namespace ForkChoice.Store

/-! ### Standing in a tier -/

/-- The header stands in a hot row, or it is frozen. -/
def Stores (s : Store) (h : Header) : Prop :=
  (∃ hash, s.rows.header? hash = .ok (some h)) ∨ ∃ item ∈ s.tier.items, item.header = h

/-- The total difficulty stands beside the header, in the hot rows or in the
frozen item. -/
def Counts (s : Store) (h : Header) (total : Difficulty) : Prop :=
  (∃ hash, s.rows.header? hash = .ok (some h) ∧ s.rows.total? hash = .ok (some total)) ∨
    ⟨h, total⟩ ∈ s.tier.items

/-- Every frozen item is what the store has under its hash. -/
def Archived (s : Store) : Prop := ∀ item ∈ s.tier.items, s.item? item.header.hash = some item

variable {s s' : Store} {h : Header} {total : Difficulty}

/-- A hot row is what the store has under the hash of its header. -/
theorem Sound.item?_of_hot (sound : s.Sound) {hash : Hash}
    (stored : s.rows.header? hash = .ok (some h)) :
    ∃ total, s.rows.total? hash = .ok (some total) ∧ s.item? h.hash = some ⟨h, total⟩ := by
  rw [sound.legible.header?_eq, Except.ok.injEq] at stored
  obtain ⟨⟨_, total⟩, hot, rfl⟩ := Option.map_eq_some_iff.mp stored
  have own : _ = hash := sound.legible.hash_eq hot
  refine ⟨total, ?_, ?_⟩
  · rw [sound.legible.total?_eq, hot]
    rfl
  · rw [own]
    exact Option.or_eq_some_iff.mpr (.inl hot)

/-- What a hash leads to stands in one of the tiers. -/
theorem Sound.counts_of_item? (sound : s.Sound) (found : s.item? h.hash = some ⟨h, total⟩) :
    s.Counts h total := by
  rcases Option.or_eq_some_iff.mp found with hot | ⟨-, frozen⟩
  · refine .inl ⟨h.hash, ?_, ?_⟩
    · rw [sound.legible.header?_eq, hot]
      rfl
    · rw [sound.legible.total?_eq, hot]
      rfl
  · obtain ⟨number, -, item⟩ := Option.bind_eq_some_iff.mp frozen
    exact .inr (List.mem_of_getElem? (Option.filter_eq_some_iff.mp item).1)

namespace Archived

/-- In an archived store the total difficulty of a header is the one that its
hash leads to. -/
theorem counts_iff (archived : s.Archived) (sound : s.Sound) :
    s.Counts h total ↔ s.item? h.hash = some ⟨h, total⟩ := by
  refine ⟨?_, sound.counts_of_item?⟩
  rintro (⟨hash, stored, counted⟩ | frozen)
  · obtain ⟨total', counted', found⟩ := sound.item?_of_hot stored
    rw [counted'] at counted
    cases counted
    exact found
  · exact archived _ frozen

/-- In an archived store a header stands in a tier exactly if its hash leads to
it. -/
theorem stores_iff (archived : s.Archived) (sound : s.Sound) : s.Stores h ↔ s.Has h := by
  constructor
  · rintro (⟨hash, stored⟩ | ⟨item, mem, rfl⟩)
    · obtain ⟨total, -, found⟩ := sound.item?_of_hot stored
      exact has_iff.mpr ⟨total, found⟩
    · exact has_iff.mpr ⟨item.totalDifficulty, archived item mem⟩
  · intro has
    obtain ⟨total, found⟩ := has_iff.mp has
    rcases sound.counts_of_item? found with ⟨hash, stored, -⟩ | frozen
    · exact .inl ⟨hash, stored⟩
    · exact .inr ⟨_, frozen, rfl⟩

end Archived

/-! ### Freezing -/

/-- Freezing only adds items at the end of the tier, each of which is what the
store had under its hash. -/
theorem freeze_extends {limit : UInt64} {result : Outcome StoreError Nat} (sound : s.Sound)
    (alone : s.tier.service.Alone) (h : s.freeze limit = (result, s')) :
    ∃ items, s'.tier.items = s.tier.items ++ items ∧
      ∀ item ∈ items, s.item? item.header.hash = some item := by
  obtain ⟨items, ripe, -, grown⟩ := freeze_cases sound alone h
  refine ⟨items, ?_, fun item mem => Option.or_eq_some_iff.mpr (.inl (ripe.item item mem))⟩
  rcases grown with ⟨rows, -, -, rfl⟩ | ⟨-, rfl, -⟩ <;> rfl

end ForkChoice.Store
