/-
ForkChoice/Proofs/Store/Contents.lean

What the hot rows say.

`Rows.item?`, `Rows.height?` and `Rows.canonical?` read the rows as partial
functions: of a hash, the header with its total difficulty and the height kept
for it; of a height, the canonical hash.  An unreadable row counts as no row
here, which makes the effect of every write an equation without conditions:
`item?_putHeader`, `canonical?_removeCanonical` and so on for the single
writes, `item?_commit`, `height?_commit` and `canonical?_commit` for a batch.
-/
import ForkChoice.Store.Freeze

namespace ForkChoice

/-- A sequence of two steps succeeds if both do. -/
theorem except_bind_eq_ok {ε α β : Type} {x : Except ε α} {f : α → Except ε β} {b : β}
    (h : x >>= f = .ok b) : ∃ a, x = .ok a ∧ f a = .ok b := by
  rcases x with e | a
  · cases h
  · exact ⟨a, rfl, h⟩

/-! ### Keys -/

theorem heightRow_inj {m n : UInt64} : heightRow m = heightRow n ↔ m = n := by
  constructor
  · intro h
    have e := congrArg readHeight h
    simpa using e
  · rintro rfl
    rfl

theorem Hash.bytes_inj {a b : Hash} : a.bytes = b.bytes ↔ a = b :=
  Hash.ext_iff.symm

namespace Table

variable {α : Type}

theorem read?_insert (t : Table) (k k' v : Bytes) (read : Bytes → Except StoreError α) :
    Table.read? (t.insert k v) k' read = if k = k' then (read v).map some else t.read? k' read := by
  unfold read?
  rw [Std.ExtTreeMap.getElem?_insert]
  by_cases h : k = k' <;> simp [h]

theorem read?_erase (t : Table) (k k' : Bytes) (read : Bytes → Except StoreError α) :
    Table.read? (t.erase k) k' read = if k = k' then .ok none else t.read? k' read := by
  unfold read?
  rw [Std.ExtTreeMap.getElem?_erase]
  by_cases h : k = k' <;> simp [h]

/-- A row that is there is never read as absent. -/
theorem getElem?_eq_none_iff (t : Table) (k : Bytes) (read : Bytes → Except StoreError α) :
    t[k]? = none ↔ t.read? k read = .ok none := by
  unfold read?
  rcases t[k]? with - | v
  · simp
  · rcases h : read v with e | a <;> simp [h, Except.map]

end Table

/-! ### Rows as partial functions -/

/-- What a reader finds; an unreadable row counts as none. -/
def found? {ε α : Type} : Except ε (Option α) → Option α
  | .ok a? => a?
  | .error _ => none

namespace Rows

/-- The header under a hash, with its total difficulty. -/
def item? (rows : Rows) (hash : Hash) : Option Frozen :=
  (found? (rows.header? hash)).bind fun h =>
    (found? (rows.total? hash)).map fun total => ⟨h, total⟩

/-- The height kept for a hash. -/
def height? (rows : Rows) (hash : Hash) : Option UInt64 := found? (rows.number? hash)

/-- The canonical hash of a height. -/
def canonical? (rows : Rows) (number : UInt64) : Option Hash := found? (rows.canonicalHash? number)

/-! ### Single writes -/

section

variable (rows : Rows) (h : Header) (total : Difficulty) (number n : UInt64) (hash key : Hash)

theorem header?_putHeader :
    (rows.putHeader h total).header? key
      = if h.hash = key then .ok (some h) else rows.header? key := by
  simp only [header?, putHeader, Table.read?_insert, Hash.bytes_inj, readHeader_row]
  rfl

theorem total?_putHeader :
    (rows.putHeader h total).total? key
      = if h.hash = key then .ok (some total) else rows.total? key := by
  simp only [total?, putHeader, Table.read?_insert, Hash.bytes_inj, readTotal_totalRow]
  rfl

theorem number?_putHeader :
    (rows.putHeader h total).number? key
      = if h.hash = key then .ok (some h.number) else rows.number? key := by
  simp only [number?, putHeader, Table.read?_insert, Hash.bytes_inj, readHeight_heightRow]
  rfl

theorem canonicalHash?_setCanonical :
    (rows.setCanonical number hash).canonicalHash? n
      = if number = n then .ok (some hash) else rows.canonicalHash? n := by
  simp only [canonicalHash?, setCanonical, Table.read?_insert, heightRow_inj, readHash_bytes]
  rfl

theorem canonicalHash?_removeCanonical :
    (rows.removeCanonical number).canonicalHash? n
      = if number = n then .ok none else rows.canonicalHash? n := by
  simp only [canonicalHash?, removeCanonical, Table.read?_erase, heightRow_inj]

theorem item?_putHeader :
    (rows.putHeader h total).item? key
      = if h.hash = key then some ⟨h, total⟩ else rows.item? key := by
  unfold item?
  rw [header?_putHeader, total?_putHeader]
  split <;> rfl

theorem height?_putHeader :
    (rows.putHeader h total).height? key
      = if h.hash = key then some h.number else rows.height? key := by
  unfold height?
  rw [number?_putHeader]
  split <;> rfl

theorem canonical?_setCanonical :
    (rows.setCanonical number hash).canonical? n
      = if number = n then some hash else rows.canonical? n := by
  unfold canonical?
  rw [canonicalHash?_setCanonical]
  split <;> rfl

theorem canonical?_removeCanonical :
    (rows.removeCanonical number).canonical? n
      = if number = n then none else rows.canonical? n := by
  unfold canonical?
  rw [canonicalHash?_removeCanonical]
  split <;> rfl

end

/-! ### Batches -/

end Rows

/-- The last header that a batch puts under a hash. -/
def Batch.item? (b : Batch) (hash : Hash) : Option Frozen :=
  (b.headers.reverse.find? fun (h, _) => h.hash = hash).map fun (h, total) => ⟨h, total⟩

/-- The last canonical entry that a batch sets at a height. -/
def Batch.canonical? (b : Batch) (number : UInt64) : Option Hash :=
  b.canonical.reverse.lookup number

namespace Batch

theorem item?_eq_some {b : Batch} {hash : Hash} {e : Frozen} (found : b.item? hash = some e) :
    (e.header, e.totalDifficulty) ∈ b.headers ∧ e.header.hash = hash := by
  obtain ⟨⟨h, total⟩, here, rfl⟩ := Option.map_eq_some_iff.mp found
  exact ⟨List.mem_reverse.mp (List.mem_of_find?_eq_some here), by simpa using List.find?_some here⟩

/-- A batch has nothing under a hash that none of its headers carries. -/
theorem item?_eq_none {b : Batch} {hash : Hash} (absent : ∀ r ∈ b.headers, r.1.hash ≠ hash) :
    b.item? hash = none := by
  rcases found : b.item? hash with - | e
  · rfl
  · obtain ⟨mem, same⟩ := item?_eq_some found
    exact absurd same (absent _ mem)

theorem exists_item? {b : Batch} {h : Header} {total : Difficulty} (mem : (h, total) ∈ b.headers) :
    ∃ e, b.item? h.hash = some e := by
  rcases none_found : b.item? h.hash with - | e
  · have absent := Option.map_eq_none_iff.mp none_found
    have := List.find?_eq_none.mp absent (h, total) (List.mem_reverse.mpr mem)
    simp at this
  · exact ⟨e, rfl⟩

end Batch

namespace Rows

/-- The effect of a batch on the headers, reader by reader. -/
theorem headers_foldl_putHeader {α : Type} (get : Rows → Hash → Option α) (of : Frozen → α)
    (step : ∀ rows h total key, (get (putHeader rows h total) key)
      = if h.hash = key then some (of ⟨h, total⟩) else get rows key)
    (puts : List (Header × Difficulty)) (rows : Rows) (key : Hash) :
    get (puts.foldl (fun rows (h, total) => rows.putHeader h total) rows) key
      = ((puts.reverse.find? fun (h, _) => h.hash = key).map fun (h, total) => of ⟨h, total⟩).or
          (get rows key) := by
  induction puts generalizing rows with
  | nil => simp
  | cons put puts ih =>
    obtain ⟨h, total⟩ := put
    simp only [List.foldl_cons, List.reverse_cons, List.find?_append]
    rw [ih, step]
    generalize List.find? _ puts.reverse = last?
    rcases last? with - | last
    · by_cases e : h.hash = key <;> simp [e]
    · simp

theorem canonical?_foldl_setCanonical (sets : List (UInt64 × Hash)) (rows : Rows) (n : UInt64) :
    (sets.foldl (fun rows (number, hash) => rows.setCanonical number hash) rows).canonical? n
      = (sets.reverse.lookup n).or (rows.canonical? n) := by
  induction sets generalizing rows with
  | nil => simp
  | cons set sets ih =>
    obtain ⟨number, hash⟩ := set
    simp only [List.foldl_cons, List.reverse_cons, List.lookup_append]
    rw [ih, canonical?_setCanonical]
    generalize sets.reverse.lookup n = last?
    rcases last? with - | last
    · by_cases e : number = n
      · simp [e]
      · have miss : (n == number) = false := by simp [Ne.symm e]
        simp [e, List.lookup_cons, miss]
    · simp

theorem canonical?_foldl_removeCanonical (removed : List UInt64) (rows : Rows) (n : UInt64) :
    (removed.foldl removeCanonical rows).canonical? n
      = if n ∈ removed then none else rows.canonical? n := by
  induction removed generalizing rows with
  | nil => simp
  | cons number removed ih =>
    rw [List.foldl_cons, ih, canonical?_removeCanonical]
    by_cases e : number = n
    · simp [e]
    · simp [e, Ne.symm e]

/-- Writes that leave what a function of the rows says leave it together. -/
theorem foldl_frame {α β : Type} (get : Rows → β) (write : Rows → α → Rows)
    (step : ∀ rows a, get (write rows a) = get rows) (writes : List α) (rows : Rows) :
    get (writes.foldl write rows) = get rows := by
  induction writes generalizing rows with
  | nil => rfl
  | cons a writes ih => rw [List.foldl_cons, ih, step]

theorem frame_setPointer {β : Type} (get : Rows → β)
    (step : ∀ rows metadata, get { rows with metadata } = get rows) (rows : Rows) (key : Bytes)
    (hash? : Option Hash) : get (rows.setPointer key hash?) = get rows := by
  rcases hash? with - | hash
  · rfl
  · exact step _ _

/-- What neither canonical entries nor pointers decide, only puts of headers can
change. -/
theorem commit_frame {β : Type} (get : Rows → β)
    (canonical : ∀ rows canonical, get { rows with canonical } = get rows)
    (metadata : ∀ rows metadata, get { rows with metadata } = get rows) (rows : Rows) (b : Batch) :
    get (rows.commit b)
      = get (b.headers.foldl (fun rows (h, total) => rows.putHeader h total) rows) := by
  unfold commit
  rw [frame_setPointer get metadata, frame_setPointer get metadata]
  exact (foldl_frame get (fun rows (number, hash) => rows.setCanonical number hash)
      (fun _ _ => canonical _ _) _ _).trans
    (foldl_frame get removeCanonical (fun _ _ => canonical _ _) _ _)

theorem item?_commit (rows : Rows) (b : Batch) (key : Hash) :
    (rows.commit b).item? key = (b.item? key).or (rows.item? key) := by
  rw [commit_frame (fun rows => rows.item? key) (fun _ _ => rfl) fun _ _ => rfl]
  exact headers_foldl_putHeader item? id item?_putHeader b.headers rows key

theorem height?_commit (rows : Rows) (b : Batch) (key : Hash) :
    (rows.commit b).height? key
      = ((b.item? key).map fun e => e.header.number).or (rows.height? key) := by
  rw [commit_frame (fun rows => rows.height? key) (fun _ _ => rfl) fun _ _ => rfl]
  rw [headers_foldl_putHeader height? (fun e => e.header.number) height?_putHeader]
  unfold Batch.item?
  rw [Option.map_map]
  rfl

theorem canonical?_commit (rows : Rows) (b : Batch) (n : UInt64) :
    (rows.commit b).canonical? n
      = (b.canonical? n).or (if n ∈ b.removed then none else rows.canonical? n) := by
  have puts := foldl_frame (fun rows => rows.canonical? n)
    (fun rows (h, total) => rows.putHeader h total) (fun _ _ => rfl) b.headers rows
  unfold commit
  rw [frame_setPointer (fun rows => rows.canonical? n) (fun _ _ => rfl),
    frame_setPointer (fun rows => rows.canonical? n) (fun _ _ => rfl),
    canonical?_foldl_setCanonical, canonical?_foldl_removeCanonical, puts]
  rfl

/-- Setting a pointer changes what is read under its key only. -/
theorem pointer?_setPointer (rows : Rows) (key key' : Bytes) (hash? : Option Hash) :
    (rows.setPointer key hash?).metadata.read? key' readHash
      = match hash? with
        | some hash =>
          if key = key' then .ok (some hash) else rows.metadata.read? key' readHash
        | none => rows.metadata.read? key' readHash := by
  rcases hash? with - | hash
  · rfl
  · simp only [setPointer, Table.read?_insert, readHash_bytes]
    rfl

theorem metadata_commit (rows : Rows) (b : Batch) :
    (rows.commit b).metadata
      = ((rows.setPointer headBlockKey b.headBlock).setPointer headHeaderKey b.headHeader).metadata := by
  have frame (rows rows' : Rows) (same : rows.metadata = rows'.metadata) (key : Bytes)
      (hash? : Option Hash) :
      (rows.setPointer key hash?).metadata = (rows'.setPointer key hash?).metadata := by
    rcases hash? with - | hash
    · exact same
    · show rows.metadata.insert _ _ = rows'.metadata.insert _ _
      rw [same]
  refine frame _ _ (frame _ _ ?_ _ _) _ _
  exact (foldl_frame metadata (fun rows (number, hash) => rows.setCanonical number hash)
      (fun _ _ => rfl) _ _).trans
    ((foldl_frame metadata removeCanonical (fun _ _ => rfl) _ _).trans
      (foldl_frame metadata (fun rows (h, total) => rows.putHeader h total) (fun _ _ => rfl) _ _))

theorem headBlock?_commit (rows : Rows) (b : Batch) :
    (rows.commit b).headBlock? = match b.headBlock with
      | some hash => .ok (some hash)
      | none => rows.headBlock? := by
  unfold headBlock?
  rw [metadata_commit, pointer?_setPointer, pointer?_setPointer]
  rcases b.headHeader with - | headHeader
  · rcases b.headBlock with - | headBlock <;> simp
  · have other : headHeaderKey ≠ headBlockKey := by decide
    rcases b.headBlock with - | headBlock <;> simp [other]

theorem headHeader?_commit (rows : Rows) (b : Batch) :
    (rows.commit b).headHeader? = match b.headHeader with
      | some hash => .ok (some hash)
      | none => rows.headHeader? := by
  unfold headHeader?
  rw [metadata_commit, pointer?_setPointer, pointer?_setPointer]
  have other : headBlockKey ≠ headHeaderKey := by decide
  rcases b.headHeader with - | headHeader
  · rcases b.headBlock with - | headBlock <;> simp [other]
  · simp

/-! ### Retirement -/

theorem retire_eq_ok_iff (rows rows' : Rows) (h : Header) :
    rows.retire h = .ok rows' ↔
      rows.canonical[heightRow h.number]? = some h.hash.bytes ∧
        rows' = { rows with
          headers := rows.headers.erase h.hash.bytes
          totals := rows.totals.erase h.hash.bytes
          canonical := rows.canonical.erase (heightRow h.number) } := by
  unfold retire
  split
  · rename_i e
    simp [e, eq_comm]
  · rename_i e
    simp [e]

section

variable {rows rows' : Rows} {h : Header} (retired : rows.retire h = .ok rows')
include retired

theorem header?_retire (key : Hash) :
    rows'.header? key = if h.hash = key then .ok none else rows.header? key := by
  obtain ⟨-, rfl⟩ := (retire_eq_ok_iff _ _ _).mp retired
  simp only [header?, Table.read?_erase, Hash.bytes_inj]

theorem total?_retire (key : Hash) :
    rows'.total? key = if h.hash = key then .ok none else rows.total? key := by
  obtain ⟨-, rfl⟩ := (retire_eq_ok_iff _ _ _).mp retired
  simp only [total?, Table.read?_erase, Hash.bytes_inj]

theorem canonicalHash?_retire (n : UInt64) :
    rows'.canonicalHash? n = if h.number = n then .ok none else rows.canonicalHash? n := by
  obtain ⟨-, rfl⟩ := (retire_eq_ok_iff _ _ _).mp retired
  simp only [canonicalHash?, Table.read?_erase, heightRow_inj]

theorem item?_retire (key : Hash) :
    rows'.item? key = if h.hash = key then none else rows.item? key := by
  unfold item?
  rw [header?_retire retired, total?_retire retired]
  split <;> rfl

theorem canonical?_retire (n : UInt64) :
    rows'.canonical? n = if h.number = n then none else rows.canonical? n := by
  unfold canonical?
  rw [canonicalHash?_retire retired]
  split <;> rfl

theorem numbers_retire : rows'.numbers = rows.numbers := by
  obtain ⟨-, rfl⟩ := (retire_eq_ok_iff _ _ _).mp retired
  rfl

theorem metadata_retire : rows'.metadata = rows.metadata := by
  obtain ⟨-, rfl⟩ := (retire_eq_ok_iff _ _ _).mp retired
  rfl

end

end Rows

end ForkChoice
