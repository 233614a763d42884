/-
ForkChoice/Proofs/Store/Legible.lean

Rows that can be read.

Rows are `Legible` if no reader fails and every header stands under its own
hash, with a total difficulty and its own height.  Empty rows are legible, and
batches and the retirement of a frozen header keep them so (`Legible.commit`,
`Legible.retire`).  The readers of legible rows are then the partial
functions `item?`, `height?` and `canonical?`, without errors.
-/
import ForkChoice.Proofs.Store.Contents

namespace ForkChoice.Rows

/-- Every row can be read, and every header stands under its own hash, with a
total difficulty and with its height. -/
structure Legible (rows : Rows) : Prop where
  header?_eq : ∀ hash, rows.header? hash = .ok ((rows.item? hash).map (·.header))
  total?_eq : ∀ hash, rows.total? hash = .ok ((rows.item? hash).map (·.totalDifficulty))
  number?_eq : ∀ hash, rows.number? hash = .ok (rows.height? hash)
  canonicalHash?_eq : ∀ number, rows.canonicalHash? number = .ok (rows.canonical? number)
  hash_eq : ∀ {hash e}, rows.item? hash = some e → e.header.hash = hash
  height?_eq : ∀ {hash e}, rows.item? hash = some e → rows.height? hash = some e.header.number

namespace Legible

theorem empty : Legible {} where
  header?_eq _ := rfl
  total?_eq _ := rfl
  number?_eq _ := rfl
  canonicalHash?_eq _ := rfl
  hash_eq e := by cases e
  height?_eq e := by cases e

variable {rows : Rows}

/-- In legible rows a header row is there exactly if its hash has an item. -/
theorem contains_eq (l : rows.Legible) (hash : Hash) :
    rows.headers.contains hash.bytes = (rows.item? hash).isSome := by
  have absent : rows.headers[hash.bytes]? = none ↔ rows.item? hash = none := by
    rw [Table.getElem?_eq_none_iff rows.headers hash.bytes readHeader]
    show rows.header? hash = .ok none ↔ _
    rw [l.header?_eq, Except.ok.injEq, Option.map_eq_none_iff]
  rw [Std.ExtTreeMap.contains_eq_isSome_getElem?, Bool.eq_iff_iff, Option.isSome_iff_ne_none,
    Option.isSome_iff_ne_none, ne_eq, ne_eq, absent]

/-! ### Writes -/

theorem putHeader (l : rows.Legible) (h : Header) (total : Difficulty) :
    (rows.putHeader h total).Legible where
  header?_eq hash := by
    rw [header?_putHeader, item?_putHeader, l.header?_eq]
    split <;> rfl
  total?_eq hash := by
    rw [total?_putHeader, item?_putHeader, l.total?_eq]
    split <;> rfl
  number?_eq hash := by
    rw [number?_putHeader, height?_putHeader, l.number?_eq]
    split <;> rfl
  canonicalHash?_eq := l.canonicalHash?_eq
  hash_eq {hash e} stored := by
    rw [item?_putHeader] at stored
    split at stored
    · rename_i same
      cases stored
      exact same
    · exact l.hash_eq stored
  height?_eq {hash e} stored := by
    rw [item?_putHeader] at stored
    rw [height?_putHeader]
    split at stored
    · rename_i same
      cases stored
      rw [if_pos same]
    · rename_i other
      rw [if_neg other, l.height?_eq stored]

theorem setCanonical (l : rows.Legible) (number : UInt64) (hash : Hash) :
    (rows.setCanonical number hash).Legible where
  header?_eq := l.header?_eq
  total?_eq := l.total?_eq
  number?_eq := l.number?_eq
  canonicalHash?_eq n := by
    rw [canonicalHash?_setCanonical, canonical?_setCanonical, l.canonicalHash?_eq]
    split <;> rfl
  hash_eq := l.hash_eq
  height?_eq := l.height?_eq

theorem removeCanonical (l : rows.Legible) (number : UInt64) :
    (rows.removeCanonical number).Legible where
  header?_eq := l.header?_eq
  total?_eq := l.total?_eq
  number?_eq := l.number?_eq
  canonicalHash?_eq n := by
    rw [canonicalHash?_removeCanonical, canonical?_removeCanonical, l.canonicalHash?_eq]
    split <;> rfl
  hash_eq := l.hash_eq
  height?_eq := l.height?_eq

theorem setPointer (l : rows.Legible) (key : Bytes) (hash? : Option Hash) :
    (rows.setPointer key hash?).Legible := by
  rcases hash? with - | hash
  · exact l
  · exact ⟨l.header?_eq, l.total?_eq, l.number?_eq, l.canonicalHash?_eq, l.hash_eq, l.height?_eq⟩

theorem foldl {α : Type} {write : Rows → α → Rows}
    (step : ∀ {rows} a, Legible rows → (write rows a).Legible) (l : rows.Legible)
    (writes : List α) : (writes.foldl write rows).Legible := by
  induction writes generalizing rows with
  | nil => exact l
  | cons a writes ih => exact ih (step a l)

/-- A batch leaves legible rows legible, whatever it writes. -/
theorem commit (l : rows.Legible) (b : Batch) : (rows.commit b).Legible := by
  refine (setPointer (setPointer ?_ _ _) _ _)
  refine foldl (fun set l => l.setCanonical set.1 set.2) ?_ _
  refine foldl (fun number l => l.removeCanonical number) ?_ _
  exact foldl (fun put l => l.putHeader put.1 put.2) l _

/-! ### Retirement -/

theorem retire {rows' : Rows} {h : Header} (l : rows.Legible) (retired : rows.retire h = .ok rows') :
    rows'.Legible := by
  -- the height kept for a hash outlives its header, and leads to the frozen copy
  have numbers (hash : Hash) : rows'.number? hash = rows.number? hash := by
    unfold number?
    rw [numbers_retire retired]
  have heights (hash : Hash) : rows'.height? hash = rows.height? hash :=
    congrArg found? (numbers hash)
  constructor
  case header?_eq =>
    intro hash
    rw [header?_retire retired, item?_retire retired, l.header?_eq]
    split <;> rfl
  case total?_eq =>
    intro hash
    rw [total?_retire retired, item?_retire retired, l.total?_eq]
    split <;> rfl
  case number?_eq =>
    intro hash
    rw [numbers, heights, l.number?_eq]
  case canonicalHash?_eq =>
    intro n
    rw [canonicalHash?_retire retired, canonical?_retire retired, l.canonicalHash?_eq]
    split <;> rfl
  case hash_eq =>
    intro hash e stored
    rw [item?_retire retired] at stored
    split at stored
    · cases stored
    · exact l.hash_eq stored
  case height?_eq =>
    intro hash e stored
    rw [item?_retire retired] at stored
    split at stored
    · cases stored
    · rw [heights, l.height?_eq stored]

end Legible

end ForkChoice.Rows
