/-
ForkChoice/Proofs/Store/Duplicates.lean

Frozen headers that are still hot.

A frozen item is `Hot` if the hot rows have it under its hash and at its height,
and `Cold` if they have nothing there.  `Store.Accounts` sorts the frozen items
of a store into hot ones and cold ones, and counts: rows and frozen items are
together as many as the stored headers and the hot items.

A batch of new headers that sets no entry below the end of the tier adds to the
stored headers only (`Accounts.commit`).  A freeze that succeeds makes cold what
it moves; one that fails leaves hot what it cannot take off the tier again
(`Accounts.freeze`).
-/
import ForkChoice.Proofs.Store.Archive

namespace ForkChoice

/-! ### Counting rows -/

namespace Rows

variable {rows rows' : Rows} {items : List Frozen} {b : Batch}

/-- New headers under different hashes each add a row. -/
theorem size_commit (legible : rows.Legible) (fresh : ∀ r ∈ b.headers, rows.item? r.1.hash = none)
    (apart : (b.headers.map (·.1.hash)).Nodup) :
    (rows.commit b).size = rows.size + b.headers.length := by
  rw [commit_frame Rows.size (fun _ _ => rfl) fun _ _ => rfl]
  generalize b.headers = puts at fresh apart
  induction puts generalizing rows with
  | nil => rfl
  | cons put puts ih =>
    obtain ⟨h, total⟩ := put
    obtain ⟨here, others⟩ := List.forall_mem_cons.mp fresh
    obtain ⟨alone, apart⟩ := List.nodup_cons.mp apart
    have later (r : Header × Difficulty) (mem : r ∈ puts) :
        (rows.putHeader h total).item? r.1.hash = none := by
      rw [item?_putHeader, if_neg, others r mem]
      intro same
      exact alone (List.mem_map.mpr ⟨r, mem, same.symm⟩)
    have absent : rows.headers.contains h.hash.bytes = false := by
      rw [legible.contains_eq, here]
      rfl
    have one : (rows.putHeader h total).size = rows.size + 1 := by
      show (rows.headers.insert h.hash.bytes h.row).size = _
      rw [Std.ExtTreeMap.size_insert, absent]
      rfl
    rw [List.foldl_cons, ih (legible.putHeader h total) later apart, one, List.length_cons]
    omega

/-- What is read under a hash after some items were retired. -/
theorem item?_retireAll (retired : rows.retireAll items = .ok rows') (key : Hash) :
    rows'.item? key = if key ∈ items.map (·.header.hash) then none else rows.item? key := by
  induction items generalizing rows with
  | nil =>
    cases retired
    rfl
  | cons item items ih =>
    obtain ⟨rows₁, first, others⟩ := except_bind_eq_ok retired
    rw [ih others, item?_retire first]
    by_cases here : item.header.hash = key
    · simp [here]
    · simp [here, Ne.symm here]

/-- What is read at a height after some items were retired. -/
theorem canonical?_retireAll (retired : rows.retireAll items = .ok rows') (n : UInt64) :
    rows'.canonical? n = if n ∈ items.map (·.header.number) then none else rows.canonical? n := by
  induction items generalizing rows with
  | nil =>
    cases retired
    rfl
  | cons item items ih =>
    obtain ⟨rows₁, first, others⟩ := except_bind_eq_ok retired
    rw [ih others, canonical?_retire first]
    by_cases here : item.header.number = n
    · simp [here]
    · simp [here, Ne.symm here]

/-- Hot items under different hashes each take a row with them. -/
theorem size_retireAll (legible : rows.Legible)
    (hot : ∀ item ∈ items, rows.item? item.header.hash = some item)
    (apart : (items.map (·.header.hash)).Nodup) (retired : rows.retireAll items = .ok rows') :
    rows'.size + items.length = rows.size := by
  induction items generalizing rows with
  | nil =>
    cases retired
    rfl
  | cons item items ih =>
    obtain ⟨rows₁, first, others⟩ := except_bind_eq_ok retired
    obtain ⟨here, hot⟩ := List.forall_mem_cons.mp hot
    obtain ⟨alone, apart⟩ := List.nodup_cons.mp apart
    have later (other : Frozen) (mem : other ∈ items) :
        rows₁.item? other.header.hash = some other := by
      rw [item?_retire first, if_neg, hot other mem]
      intro same
      exact alone (List.mem_map.mpr ⟨other, mem, same.symm⟩)
    have present : rows.headers.contains item.header.hash.bytes = true := by
      rw [legible.contains_eq, here]
      rfl
    have positive : 0 < rows.headers.size := by
      refine Nat.pos_of_ne_zero fun zero => ?_
      rw [Std.ExtTreeMap.eq_empty_iff_size_eq_zero.mpr zero] at present
      cases present
    have one : rows₁.size + 1 = rows.size := by
      obtain ⟨-, rfl⟩ := (retire_eq_ok_iff _ _ _).mp first
      show (rows.headers.erase item.header.hash.bytes).size + 1 = rows.headers.size
      rw [Std.ExtTreeMap.size_erase, if_pos present]
      exact Nat.sub_add_cancel positive
    have rest := ih (legible.retire first) later apart others
    rw [List.length_cons]
    omega

/-- There is a header row, a total difficulty or a canonical entry for the header. -/
def Mentions (rows : Rows) (h : Header) : Prop :=
  h.hash.bytes ∈ rows.headers ∨ h.hash.bytes ∈ rows.totals ∨ heightRow h.number ∈ rows.canonical

end Rows

namespace Store

variable {s s' : Store} {item : Frozen} {items left : List Frozen} {stored : List Header}
  {b : Batch}

/-! ### Hot and cold items -/

/-- The hot rows have the item, under its hash and at its height. -/
structure Hot (s : Store) (item : Frozen) : Prop where
  row : s.rows.item? item.header.hash = some item
  entry : s.rows.canonical? item.header.number = some item.header.hash

/-- The hot rows have nothing under the hash of the item, nor at its height. -/
structure Cold (s : Store) (item : Frozen) : Prop where
  row : s.rows.item? item.header.hash = none
  entry : s.rows.canonical? item.header.number = none

/-- The hot rows say the same of an item. -/
structure SameHot (s s' : Store) (item : Frozen) : Prop where
  row : s'.rows.item? item.header.hash = s.rows.item? item.header.hash
  entry : s'.rows.canonical? item.header.number = s.rows.canonical? item.header.number

theorem Hot.congr (hot : s.Hot item) (same : s.SameHot s' item) : s'.Hot item :=
  ⟨same.row.trans hot.row, same.entry.trans hot.entry⟩

theorem Cold.congr (cold : s.Cold item) (same : s.SameHot s' item) : s'.Cold item :=
  ⟨same.row.trans cold.row, same.entry.trans cold.entry⟩

/-- The index names what is hot. -/
theorem Hot.names (hot : s.Hot item) (sound : s.Sound) :
    s.rows.Names item.header.number item.header.hash item where
  canonical := by rw [sound.legible.canonicalHash?_eq, hot.entry]
  header := by
    rw [sound.legible.header?_eq, hot.row]
    rfl
  total := by
    rw [sound.legible.total?_eq, hot.row]
    rfl

/-- There is no row for what is cold. -/
theorem Cold.not_mentions (cold : s.Cold item) (sound : s.Sound) :
    ¬ s.rows.Mentions item.header := by
  have absent {α : Type} {table : Table} {key : Bytes} {read : Bytes → Except StoreError α}
      (nothing : table.read? key read = .ok none) : key ∉ table := by
    rw [Std.ExtTreeMap.mem_iff_contains, Std.ExtTreeMap.contains_eq_isSome_getElem?,
      (Table.getElem?_eq_none_iff table key read).mpr nothing]
    nofun
  have header := sound.legible.header?_eq item.header.hash
  have total := sound.legible.total?_eq item.header.hash
  have entry := sound.legible.canonicalHash?_eq item.header.number
  rw [cold.row] at header total
  rw [cold.entry] at entry
  rintro (mem | mem | mem)
  · exact absent header mem
  · exact absent total mem
  · exact absent entry mem

/-- What is ripe is hot. -/
theorem Ripe.hot (ripe : s.Ripe items) (mem : item ∈ items) : s.Hot item :=
  ⟨ripe.item item mem, ripe.canonical item mem⟩

/-- Ripe items have different hashes. -/
theorem Ripe.apart (ripe : s.Ripe items) : (items.map (·.header.hash)).Nodup := by
  have heights := ripe.next.apart
  refine List.pairwise_map.mpr ((List.pairwise_map.mp heights).imp_of_mem ?_)
  intro x y hx hy apart same
  have found := ripe.item x hx
  rw [same, ripe.item y hy] at found
  cases found
  exact apart rfl

/-- A ripe item is none of those that the tier holds, neither by its height nor by
its hash. -/
theorem Ripe.new (ripe : s.Ripe items) (sound : s.Sound) (archived : s.Archived)
    (old : item ∈ s.tier.items) :
    item.header.hash ∉ items.map (·.header.hash) ∧
      item.header.number ∉ items.map (·.header.number) := by
  obtain ⟨i, at_i⟩ := List.getElem?_of_mem old
  have inside := (List.getElem?_eq_some_iff.mp at_i).1
  have height := sound.height_eq at_i
  have apart {other : Frozen} (mem : other ∈ items) : other.header.number ≠ item.header.number := by
    intro same
    obtain ⟨j, at_j⟩ := List.getElem?_of_mem mem
    have above := ripe.next j other at_j
    rw [same] at above
    omega
  constructor
  · intro mem
    obtain ⟨other, mem, same⟩ := List.mem_map.mp mem
    -- the same hash leads to the same item
    have found := archived item old
    rw [← same] at found
    have hot : s.item? other.header.hash = some other :=
      Option.or_eq_some_iff.mpr (.inl (ripe.item other mem))
    rw [hot] at found
    cases found
    exact apart mem rfl
  · intro mem
    obtain ⟨other, mem, same⟩ := List.mem_map.mp mem
    exact apart mem same

/-- A batch of new headers under different hashes stores these headers and no
others. -/
theorem has_commit_iff (fresh : ∀ r ∈ b.headers, s.item? r.1.hash = none)
    (apart : (b.headers.map (·.1.hash)).Nodup) {h : Header} :
    (s.commit b).Has h ↔ s.Has h ∨ h ∈ b.headers.map (·.1) := by
  constructor
  · intro has
    obtain ⟨total, found⟩ := has_iff.mp has
    rw [item?_commit] at found
    rcases Option.or_eq_some_iff.mp found with put | ⟨-, old⟩
    · exact .inr (List.mem_map.mpr ⟨_, (Batch.item?_eq_some put).1, rfl⟩)
    · exact .inl (has_iff.mpr ⟨total, old⟩)
  · rintro (old | put)
    · obtain ⟨total, found⟩ := has_iff.mp old
      exact has_iff.mpr ⟨total, item?_commit_of_fresh fresh found⟩
    · obtain ⟨⟨h, total⟩, mem, rfl⟩ := List.mem_map.mp put
      obtain ⟨e, found⟩ := Batch.exists_item? mem
      obtain ⟨mem', same⟩ := Batch.item?_eq_some found
      cases List.inj_on_of_nodup_map apart mem' mem same
      refine has_iff.mpr ⟨e.totalDifficulty, ?_⟩
      rw [item?_commit, found]
      rfl

/-! ### Accounts -/

/-- The items that a freeze has added to the tier without removing their hot rows,
by its result and the store afterwards. -/
def strandedBy {ε : Type} (s s' : Store) : Outcome ε Nat → List Frozen
  | .ok _ => []
  | _ => s'.tier.items.drop s.tier.items.length

/-- Which frozen items are hot and which headers are stored. -/
structure Accounts (s : Store) (stored : List Header) (left : List Frozen) : Prop where
  within : left.Sublist s.tier.items
  hot : ∀ item ∈ left, s.Hot item
  cold : ∀ item ∈ s.tier.items, item ∉ left → s.Cold item
  distinct : stored.Nodup
  mem_stored : ∀ {h}, h ∈ stored ↔ s.Has h
  size : s.rows.size + s.tier.items.length = stored.length + left.length

namespace Accounts

variable (accounts : s.Accounts stored left)
include accounts

/-- Accounts are of rows and frozen items only. -/
theorem congr (rows : s'.rows = s.rows) (items : s'.tier.items = s.tier.items) :
    s'.Accounts stored left := by
  have has {h : Header} : s'.Has h ↔ s.Has h := by
    unfold Has item? frozen?
    rw [rows, items]
  exact {
    within := items ▸ accounts.within
    hot := fun item mem => (accounts.hot item mem).congr ⟨by rw [rows], by rw [rows]⟩
    cold := fun item mem out => (accounts.cold item (items ▸ mem) out).congr
      ⟨by rw [rows], by rw [rows]⟩
    distinct := accounts.distinct
    mem_stored := accounts.mem_stored.trans has.symm
    size := by rw [rows, items, accounts.size] }

/-- New headers under different hashes, with no entry touched below the end of the
tier, are stored beside those stored before. -/
theorem commit (sound : s.Sound) (archived : s.Archived)
    (fresh : ∀ r ∈ b.headers, s.item? r.1.hash = none) (apart : (b.headers.map (·.1.hash)).Nodup)
    (above : ∀ n : UInt64, n.toNat < s.tier.items.length → b.canonical? n = none ∧ n ∉ b.removed) :
    (s.commit b).Accounts (stored ++ b.headers.map (·.1)) left := by
  have same (item : Frozen) (mem : item ∈ s.tier.items) : s.SameHot (s.commit b) item := by
    obtain ⟨i, at_i⟩ := List.getElem?_of_mem mem
    have inside := (List.getElem?_eq_some_iff.mp at_i).1
    obtain ⟨unset, kept⟩ := above item.header.number (by rwa [sound.height_eq at_i])
    constructor
    · show (s.rows.commit b).item? _ = _
      rw [Rows.item?_commit, Batch.item?_eq_none (ne_of_fresh fresh (archived item mem))]
      rfl
    · show (s.rows.commit b).canonical? _ = _
      rw [Rows.canonical?_commit, unset, if_neg kept, Option.none_or]
  have none_hot (r : Header × Difficulty) (mem : r ∈ b.headers) : s.rows.item? r.1.hash = none :=
    (Option.or_eq_none_iff.mp (fresh r mem)).1
  refine ⟨accounts.within, fun item mem => ?_, fun item mem out => ?_, ?_, fun {h} => ?_, ?_⟩
  · exact (accounts.hot item mem).congr (same item (accounts.within.subset mem))
  · exact (accounts.cold item mem out).congr (same item mem)
  · have new : (b.headers.map (·.1)).Nodup := by
      refine .of_map Header.hash ?_
      rwa [List.map_map]
    refine accounts.distinct.append new fun h old put => ?_
    obtain ⟨r, mem, rfl⟩ := List.mem_map.mp put
    exact not_has_of_unknown (fresh r mem) (accounts.mem_stored.mp old)
  · rw [List.mem_append, accounts.mem_stored, has_commit_iff fresh apart]
  · show (s.rows.commit b).size + s.tier.items.length = _
    rw [Rows.size_commit sound.legible none_hot apart, List.length_append, List.length_map]
    have := accounts.size
    omega

/-- What is stored is told by the contents of the store. -/
theorem mem_of_sameContents (contents : s.SameContents s') {h : Header} :
    h ∈ stored ↔ s'.Has h :=
  accounts.mem_stored.trans
    ⟨fun has => has.congr (contents.item _), fun has => has.congr (contents.symm.item _)⟩

/-- Ripe items that are moved into the tier are cold from then on. -/
theorem move {rows : Rows} (sound : s.Sound) (archived : s.Archived) (ripe : s.Ripe items)
    (retired : s.rows.retireAll items = .ok rows) :
    ({ s.grow items with rows } : Store).Accounts stored left := by
  -- the rows of the new items are gone, and those of the old ones are as before
  have gone (item : Frozen) (mem : item ∈ items) : ({ s.grow items with rows } : Store).Cold item :=
    ⟨(Rows.item?_retireAll retired _).trans (if_pos (List.mem_map.mpr ⟨item, mem, rfl⟩)),
      (Rows.canonical?_retireAll retired _).trans (if_pos (List.mem_map.mpr ⟨item, mem, rfl⟩))⟩
  have same (item : Frozen) (mem : item ∈ s.tier.items) :
      s.SameHot { s.grow items with rows } item := by
    obtain ⟨hash, number⟩ := ripe.new sound archived mem
    exact ⟨(Rows.item?_retireAll retired _).trans (if_neg hash),
      (Rows.canonical?_retireAll retired _).trans (if_neg number)⟩
  obtain ⟨contents, -⟩ := sameContents_move sound ripe retired
  refine ⟨accounts.within.trans (List.sublist_append_left _ _), fun item mem => ?_,
    fun item mem out => ?_, accounts.distinct, accounts.mem_of_sameContents contents, ?_⟩
  · exact (accounts.hot item mem).congr (same item (accounts.within.subset mem))
  · rcases List.mem_append.mp mem with old | new
    · exact (accounts.cold item old out).congr (same item old)
    · exact gone item new
  · have fewer := Rows.size_retireAll sound.legible ripe.item ripe.apart retired
    have size := accounts.size
    show rows.size + (s.tier.items ++ items).length = _
    rw [List.length_append]
    omega

/-- Ripe items that are added to the tier only stay hot. -/
theorem grow (ripe : s.Ripe items) : (s.grow items).Accounts stored (left ++ items) := by
  refine ⟨accounts.within.append (.refl _), fun item mem => ?_, fun item mem out => ?_,
    accounts.distinct, accounts.mem_of_sameContents (sameContents_grow ripe), ?_⟩
  · rcases List.mem_append.mp mem with old | new
    · exact (accounts.hot item old).congr ⟨rfl, rfl⟩
    · exact (ripe.hot new).congr ⟨rfl, rfl⟩
  · obtain ⟨other, new⟩ := not_or.mp fun h => out (List.mem_append.mpr h)
    have old := (List.mem_append.mp mem).resolve_right new
    exact (accounts.cold item old other).congr ⟨rfl, rfl⟩
  · have size := accounts.size
    show s.rows.size + (s.tier.items ++ items).length = _
    rw [List.length_append, List.length_append]
    omega

/-- **What a freeze leaves hot** are the items that were hot before, and the new
ones if it fails. -/
theorem freeze {limit : UInt64} {result : Outcome StoreError Nat} (sound : s.Sound)
    (archived : s.Archived) (alone : s.tier.service.Alone)
    (h : s.freeze limit = (result, s')) :
    s'.Accounts stored (left ++ s.strandedBy s' result) := by
  obtain ⟨items, ripe, -, ⟨rows, rfl, retired, rfl⟩ | ⟨failed, rfl, -⟩⟩ :=
    freeze_cases sound alone h
  · unfold strandedBy
    rw [List.append_nil]
    exact accounts.move sound archived ripe retired
  · have stranded : s.strandedBy (s.grow items) result = items := by
      unfold strandedBy
      split
      · exact absurd rfl (failed _)
      · exact List.drop_left
    rw [stranded]
    exact accounts.grow ripe

end Accounts

/-- Unless the tier refuses to be cut back, a freeze strands nothing. -/
theorem strandedBy_eq_nil {limit : UInt64} {result : Outcome StoreError Nat} (sound : s.Sound)
    (alone : s.tier.service.Alone) (h : s.freeze limit = (result, s'))
    (truncates : s.tier.service.Truncates) : s.strandedBy s' result = [] := by
  obtain ⟨items, -, -, ⟨rows, rfl, -, rfl⟩ | ⟨-, rfl, undone⟩⟩ := freeze_cases sound alone h
  · rfl
  · rw [undone truncates, grow_nil]
    unfold strandedBy
    split
    · rfl
    · exact List.drop_length

end Store

end ForkChoice
