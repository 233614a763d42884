/-
ForkChoice/Proofs/Store/Answers.lean

What a store answers, hot rows and frozen tier together.

`Store.item?` is the header and total difficulty that a store has under a
hash, and `Store.canonical?` the canonical hash that it has for a height, as
partial functions.  A store is `Sound` if its rows are legible and every frozen
item lies at its own height.  A sound store whose tier answers reads answers
every question by these two functions, never with an error (`answer_header`,
`answer_total`, `answer_canonical`, `answer_hasHeader`).
-/
import ForkChoice.Proofs.Store.Legible

namespace ForkChoice

/-! ### A tier that answers -/

namespace Lookup

variable {ε δ α : Type} {t : Tier}

@[simp] theorem run_done (t : Tier) (result : Outcome ε α) : (done result).run t = result := rfl

@[simp] theorem run_ofExcept (t : Tier) (x : Except ε α) :
    (ofExcept x).run t = Outcome.ofExcept x := rfl

theorem run_mapError (t : Tier) (g : ε → δ) (x : Lookup ε α) :
    (x.mapError g).run t = (x.run t).mapError g :=
  runFrom_mapError t g x 0

/-- An answering tier tells its number of items. -/
theorem run_count (answers : t.service.AnswersReads) (next : Except TierError Nat → Lookup ε α) :
    (count next).run t = (next (.ok t.items.length)).run t := by
  have told : t.count 0 = .ok t.items.length := by
    unfold Tier.count Tier.call
    rw [(answers 0).1]
  show (next (t.count 0)).runFrom t 1 = _
  rw [told, runFrom_eq_run answers]

/-- An answering tier hands out the item of a height. -/
theorem run_fetch (answers : t.service.AnswersReads) (number : UInt64)
    (next : Except TierError (Option Frozen) → Lookup ε α) :
    (fetch number next).run t = (next (.ok t.items[number.toNat]?)).run t := by
  have handed : t.fetch 0 number = .ok t.items[number.toNat]? := by
    unfold Tier.fetch Tier.call
    rw [(answers 0).2]
  show (next (t.fetch 0 number)).runFrom t 1 = _
  rw [handed, runFrom_eq_run answers]

end Lookup

/-! ### Operations step by step -/

namespace Store

section Steps

variable {ε δ α β : Type} {s : Store}

theorem answer_bind (answers : s.tier.service.AnswersReads) (x : Lookup ε α) (f : α → Lookup ε β) :
    s.answer (x >>= f) = s.answer x >>= fun a => s.answer (f a) :=
  Lookup.run_bind answers x f

/-- An operation goes on with the answer to its first step. -/
theorem answer_bind_of_ok (answers : s.tier.service.AnswersReads) {x : Lookup ε α} {a : α}
    {f : α → Lookup ε β} (step : s.answer x = .ok a) : s.answer (x >>= f) = s.answer (f a) := by
  rw [answer_bind answers, step]
  rfl

/-- An operation ends with the error of its first step. -/
theorem answer_bind_of_error (answers : s.tier.service.AnswersReads) {x : Lookup ε α} {e : ε}
    {f : α → Lookup ε β} (step : s.answer x = .error e) : s.answer (x >>= f) = .error e := by
  rw [answer_bind answers, step]
  rfl

theorem answer_mapError (s : Store) (g : ε → δ) (x : Lookup ε α) :
    s.answer (x.mapError g) = (s.answer x).mapError g :=
  Lookup.run_mapError s.tier g x

theorem answer_mapError_of_ok {g : ε → δ} {x : Lookup ε α} {a : α} (step : s.answer x = .ok a) :
    s.answer (x.mapError g) = .ok a := by
  rw [answer_mapError, step]
  rfl

end Steps

/-! ### The store as two partial functions -/

/-- The frozen item that a hash leads to. -/
def frozen? (s : Store) (hash : Hash) : Option Frozen :=
  (s.rows.height? hash).bind fun number =>
    s.tier.items[number.toNat]?.filter fun item => item.header.hash = hash

/-- The header under a hash with its total difficulty, hot or frozen. -/
def item? (s : Store) (hash : Hash) : Option Frozen := (s.rows.item? hash).or (s.frozen? hash)

/-- The canonical hash of a height, frozen or hot. -/
def canonical? (s : Store) (number : UInt64) : Option Hash :=
  if number.toNat < s.tier.items.length then s.tier.items[number.toNat]?.map (·.header.hash)
  else s.rows.canonical? number

/-- The rows are legible, and every frozen item lies at its own height. -/
structure Sound (s : Store) : Prop where
  legible : s.rows.Legible
  height_eq : ∀ {i : Nat} {item : Frozen},
    s.tier.items[i]? = some item → item.header.number.toNat = i

theorem frozen?_hash {s : Store} {hash : Hash} {item : Frozen} (h : s.frozen? hash = some item) :
    item.header.hash = hash := by
  obtain ⟨number, -, found⟩ := Option.bind_eq_some_iff.mp h
  simpa using (Option.filter_eq_some_iff.mp found).2

namespace Sound

variable {s : Store}

/-- What stands under a hash carries that hash. -/
theorem hash_eq (sound : s.Sound) {hash : Hash} {e : Frozen} (h : s.item? hash = some e) :
    e.header.hash = hash := by
  rcases Option.or_eq_some_iff.mp h with hot | ⟨-, frozen⟩
  · exact sound.legible.hash_eq hot
  · exact frozen?_hash frozen

/-! ### Answers -/

variable (sound : s.Sound) (answers : s.tier.service.AnswersReads)
include sound answers

theorem run_frozen (hash : Hash) : (s.rows.frozen? hash).run s.tier = .ok (s.frozen? hash) := by
  unfold Rows.frozen? frozen?
  rw [Lookup.run_bind answers, Lookup.run_ofExcept, sound.legible.number?_eq]
  rcases s.rows.height? hash with - | number
  · rfl
  · simp only [Outcome.ofExcept, Outcome.ok_bind, Option.bind_some]
    rw [Lookup.run_count answers]
    by_cases below : s.tier.items.length ≤ number.toNat
    · simp [below]
    · simp only [if_neg below]
      rw [Lookup.run_fetch answers]
      rcases s.tier.items[number.toNat]? with - | item
      · rfl
      · by_cases same : item.header.hash = hash <;> simp [Option.filter_some, same]

theorem answer_header (hash : Hash) :
    s.answer (s.source.header? hash) = .ok ((s.item? hash).map (·.header)) := by
  show (s.rows.findHeader? hash).run s.tier = _
  unfold Rows.findHeader? item?
  rw [Lookup.run_bind answers, Lookup.run_ofExcept, sound.legible.header?_eq]
  rcases s.rows.item? hash with - | e
  · simp only [Outcome.ofExcept, Outcome.ok_bind, Option.map_none, Option.none_or]
    rw [Lookup.run_bind answers, sound.run_frozen answers]
    rfl
  · rfl

theorem answer_total (hash : Hash) :
    s.answer (s.source.total? hash) = .ok ((s.item? hash).map (·.totalDifficulty)) := by
  show (s.rows.findTotal? hash).run s.tier = _
  unfold Rows.findTotal? item?
  rw [Lookup.run_bind answers, Lookup.run_ofExcept, sound.legible.total?_eq]
  rcases s.rows.item? hash with - | e
  · simp only [Outcome.ofExcept, Outcome.ok_bind, Option.map_none, Option.none_or]
    rw [Lookup.run_bind answers, sound.run_frozen answers]
    rfl
  · rfl

theorem answer_hasHeader (hash : Hash) :
    s.answer (s.rows.hasHeader hash) = .ok (s.item? hash).isSome := by
  show (s.rows.hasHeader hash).run s.tier = _
  unfold Rows.hasHeader item?
  rw [sound.legible.contains_eq]
  rcases s.rows.item? hash with - | e
  · simp only [Option.isSome_none, Bool.false_eq_true, if_false, Option.none_or]
    rw [Lookup.run_bind answers, sound.run_frozen answers]
    rfl
  · rfl

theorem answer_canonical (number : UInt64) :
    s.answer (s.source.canonical? number) = .ok (s.canonical? number) := by
  show (s.rows.findCanonical? number).run s.tier = _
  unfold Rows.findCanonical? canonical?
  rw [Lookup.run_count answers]
  by_cases below : number.toNat < s.tier.items.length
  · simp only [if_pos below]
    rw [Lookup.run_fetch answers]
    rfl
  · simp only [if_neg below, Lookup.run_ofExcept, sound.legible.canonicalHash?_eq]
    rfl

theorem answer_canonicalHeader (number : UInt64) :
    s.answer (s.source.canonicalHeader? number)
      = .ok (((s.canonical? number).bind s.item?).map (·.header)) := by
  unfold Source.canonicalHeader?
  rw [answer_bind_of_ok answers (sound.answer_canonical answers number)]
  rcases s.canonical? number with - | hash
  · rfl
  · exact sound.answer_header answers hash

end Sound

/-! ### Batches -/

theorem item?_commit (s : Store) (b : Batch) (hash : Hash) :
    (s.commit b).item? hash = (b.item? hash).or (s.item? hash) := by
  show ((s.rows.commit b).item? hash).or (((s.rows.commit b).height? hash).bind _) = _
  rw [Rows.item?_commit, Rows.height?_commit]
  rcases b.item? hash with - | e
  · rfl
  · rfl

/-- No header put under a hash that led nowhere carries a hash that is known. -/
theorem ne_of_fresh {s : Store} {puts : List (Header × Difficulty)}
    (fresh : ∀ r ∈ puts, s.item? r.1.hash = none) {hash : Hash} {e : Frozen}
    (known : s.item? hash = some e) : ∀ r ∈ puts, r.1.hash ≠ hash := by
  rintro r mem rfl
  rw [fresh r mem] at known
  cases known

/-- Headers put under hashes that led nowhere leave what is stored as it is. -/
theorem item?_commit_of_fresh {s : Store} {b : Batch}
    (fresh : ∀ r ∈ b.headers, s.item? r.1.hash = none) {hash : Hash} {e : Frozen}
    (known : s.item? hash = some e) : (s.commit b).item? hash = some e := by
  rw [item?_commit, Batch.item?_eq_none (ne_of_fresh fresh known)]
  exact known

/-- The tier alone answers below the number of frozen items, so there a batch
changes nothing. -/
theorem canonical?_commit (s : Store) (b : Batch) (number : UInt64) :
    (s.commit b).canonical? number
      = if number.toNat < s.tier.items.length then s.canonical? number
        else (b.canonical? number).or
          (if number ∈ b.removed then none else s.canonical? number) := by
  unfold canonical?
  show (if number.toNat < s.tier.items.length then s.tier.items[number.toNat]?.map (·.header.hash)
    else (s.rows.commit b).canonical? number) = _
  by_cases below : number.toNat < s.tier.items.length
  · simp only [if_pos below]
  · simp only [if_neg below, Rows.canonical?_commit]

theorem Sound.commit {s : Store} (sound : s.Sound) (b : Batch) : (s.commit b).Sound :=
  ⟨sound.legible.commit b, sound.height_eq⟩

/-! ### Stores that say the same -/

/-- Two stores have the same headers, total difficulties, canonical hashes and
head pointers. -/
structure SameContents (s s' : Store) : Prop where
  item : ∀ hash, s'.item? hash = s.item? hash
  canonical : ∀ number, s'.canonical? number = s.canonical? number
  headBlock : s'.rows.headBlock? = s.rows.headBlock?
  headHeader : s'.rows.headHeader? = s.rows.headHeader?

namespace SameContents

theorem refl (s : Store) : s.SameContents s := ⟨fun _ => rfl, fun _ => rfl, rfl, rfl⟩

theorem symm {s s' : Store} (h : s.SameContents s') : s'.SameContents s :=
  ⟨fun hash => (h.item hash).symm, fun number => (h.canonical number).symm, h.headBlock.symm,
    h.headHeader.symm⟩

theorem trans {s s' s'' : Store} (h : s.SameContents s') (h' : s'.SameContents s'') :
    s.SameContents s'' :=
  ⟨fun hash => (h'.item hash).trans (h.item hash),
    fun number => (h'.canonical number).trans (h.canonical number),
    h'.headBlock.trans h.headBlock, h'.headHeader.trans h.headHeader⟩

end SameContents

end Store

end ForkChoice
