/-
ForkChoice/Proofs/Store/Committing.lean

What a store answers after a batch.

A batch is a list of writes of each kind, in which a hash or a height may come up
any number of times; the last time counts (`Batch.Puts`, `Batch.Sets`), and a height
that is both removed and set is set.  `Batch.Settles` says so in terms of answers
alone: every question about what the batch mentions has the answer of the batch, and
every other has the answer that it had before.  Of canonical heights this is so above
the tier only, since below the number of frozen items the tier goes on answering.

In a store built by batches and freezes every batch settles what it mentions, and
nothing else, whatever of it is frozen by then (`settles_commit`).
-/
import ForkChoice.Proofs.Store.Freezing

namespace ForkChoice

/-! ### The last of several writes -/

namespace Batch

variable {b : Batch} {hash : Hash} {h : Header} {total : Difficulty} {number : UInt64}

/-- The last header that the batch puts under a hash, with its total difficulty. -/
def Puts (b : Batch) (hash : Hash) (h : Header) (total : Difficulty) : Prop :=
  h.hash = hash ∧ ∃ before after, b.headers = before ++ (h, total) :: after ∧
    ∀ put ∈ after, put.1.hash ≠ hash

/-- The last canonical entry that the batch sets at a height. -/
def Sets (b : Batch) (number : UInt64) (hash : Hash) : Prop :=
  ∃ before after, b.canonical = before ++ (number, hash) :: after ∧
    ∀ set ∈ after, set.1 ≠ number

theorem item?_of_puts (puts : b.Puts hash h total) : b.item? hash = some ⟨h, total⟩ := by
  obtain ⟨same, before, after, split, last⟩ := puts
  refine Option.map_eq_some_iff.mpr ⟨(h, total), List.find?_eq_some_iff_append.mpr
    ⟨by simpa using same, after.reverse, before.reverse, by simp [split], fun put mem => ?_⟩, rfl⟩
  simpa using last put (List.mem_reverse.mp mem)

theorem canonical?_of_sets (sets : b.Sets number hash) : b.canonical? number = some hash := by
  obtain ⟨before, after, split, last⟩ := sets
  refine List.lookup_eq_some_iff.mpr
    ⟨after.reverse, before.reverse, by simp [split], fun set mem => ?_⟩
  simpa using (last set (List.mem_reverse.mp mem)).symm

theorem canonical?_eq_none (unset : ∀ set ∈ b.canonical, set.1 ≠ number) :
    b.canonical? number = none := by
  refine List.lookup_eq_none_iff.mpr fun set mem => ?_
  simpa using (unset set (List.mem_reverse.mp mem)).symm

end Batch

/-! ### Answers -/

/-- A batch settles what it mentions, and leaves all else: how the answers of one
store come of those of another. -/
structure Batch.Settles (b : Batch) (s s' : Store) : Prop where
  /-- The last header put under a hash is found there, with its total difficulty. -/
  put : ∀ {hash h total}, b.Puts hash h total →
    s'.answer (s'.source.header? hash) = .ok (some h) ∧
      s'.answer (s'.source.total? hash) = .ok (some total)
  /-- Under every other hash there is what was there before. -/
  unput : ∀ {hash}, (∀ put ∈ b.headers, put.1.hash ≠ hash) →
    s'.answer (s'.source.header? hash) = s.answer (s.source.header? hash) ∧
      s'.answer (s'.source.total? hash) = s.answer (s.source.total? hash)
  /-- Above the tier the last hash set at a height is canonical, -/
  set : ∀ {number hash}, s.tier.items.length ≤ number.toNat → b.Sets number hash →
    s'.answer (s'.source.canonical? number) = .ok (some hash)
  /-- none is at a height that is only removed, -/
  removed : ∀ {number}, s.tier.items.length ≤ number.toNat → number ∈ b.removed →
    (∀ set ∈ b.canonical, set.1 ≠ number) → s'.answer (s'.source.canonical? number) = .ok none
  /-- and at every other height the same as before. -/
  unset : ∀ {number}, number ∉ b.removed → (∀ set ∈ b.canonical, set.1 ≠ number) →
    s'.answer (s'.source.canonical? number) = s.answer (s.source.canonical? number)
  /-- Frozen heights do not change. -/
  frozen : ∀ {number}, number.toNat < s.tier.items.length →
    s'.answer (s'.source.canonical? number) = s.answer (s.source.canonical? number)
  headBlock : s'.rows.headBlock? = match b.headBlock with
    | some hash => .ok (some hash)
    | none => s.rows.headBlock?
  headHeader : s'.rows.headHeader? = match b.headHeader with
    | some hash => .ok (some hash)
    | none => s.rows.headHeader?
  tier : s'.tier = s.tier

namespace Store

/-- In a sound store whose tier answers, a batch settles what it mentions. -/
theorem Sound.settles {s : Store} (sound : s.Sound)
    (answers : s.tier.service.AnswersReads) (b : Batch) : b.Settles s (s.commit b) := by
  have sound' := sound.commit b
  constructor
  case put =>
    intro hash h total puts
    rw [sound'.answer_header answers, sound'.answer_total answers, item?_commit,
      Batch.item?_of_puts puts]
    exact ⟨rfl, rfl⟩
  case unput =>
    intro hash absent
    rw [sound'.answer_header answers, sound'.answer_total answers, item?_commit,
      Batch.item?_eq_none absent, sound.answer_header answers, sound.answer_total answers]
    exact ⟨rfl, rfl⟩
  case set =>
    intro number hash above sets
    rw [sound'.answer_canonical answers, canonical?_commit, if_neg (Nat.not_lt.mpr above),
      Batch.canonical?_of_sets sets]
    rfl
  case removed =>
    intro number above removed unset
    rw [sound'.answer_canonical answers, canonical?_commit, if_neg (Nat.not_lt.mpr above),
      Batch.canonical?_eq_none unset, if_pos removed]
    rfl
  case unset =>
    intro number kept unset
    rw [sound'.answer_canonical answers, sound.answer_canonical answers, canonical?_commit,
      Batch.canonical?_eq_none unset, if_neg kept, Option.none_or, ite_self]
  case frozen =>
    intro number below
    rw [sound'.answer_canonical answers, sound.answer_canonical answers, canonical?_commit,
      if_pos below]
  case headBlock => exact s.rows.headBlock?_commit b
  case headHeader => exact s.rows.headHeader?_commit b
  case tier => rfl

/-- **A batch is exactly its specification.**  In a store built from an empty one by
any batches and freezes, whatever calls of the tier were refused on the way, every
further batch settles what it mentions and nothing else, as long as the tier
answers. -/
theorem settles_commit (actions : List Action) (b : Batch) :
    b.Settles (run {} actions).answering ((run {} actions).commit b).answering :=
  ((sound_empty.run actions).serve _).settles (answersReads_answering _) b

end Store

end ForkChoice
