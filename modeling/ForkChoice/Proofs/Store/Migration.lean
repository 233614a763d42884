/-
ForkChoice/Proofs/Store/Migration.lean

Freezing is all or nothing.

A call of `Store.freeze` gathers what the canonical index names (`Rows.Names`),
appends it to the tier while a rival may write to the index, and removes the hot
rows (`Rows.Sheds`).  Nothing is assumed of the rows: entries may be missing,
unreadable or lead to a header of another height or hash.

`Store.Freezes` lists how a call ends: there is nothing to do, or no room for so
many items; it fails, and of its own it has written no row; or it is done, and
has moved exactly the items named (`freezes`).  Unless the tier refuses to be cut
back, a failure leaves the tier as it was (`freeze_all_or_nothing`).
-/
import Mathlib.Data.List.Nodup
import ForkChoice.Proofs.Store.Contents

namespace ForkChoice

/-- The tier never refuses to be cut back. -/
def Service.Truncates (service : Service) : Prop :=
  ∀ place items, service.refusal place (.truncate items) = none

/-! ### What the index names -/

namespace Rows

variable {rows rows' rows'' : Rows} {items : List Frozen} {item : Frozen} {number : UInt64}

/-- The canonical index names a hash at a height, and the rows under that hash
are those of the item. -/
structure Names (rows : Rows) (number : UInt64) (hash : Hash) (item : Frozen) : Prop where
  canonical : rows.canonicalHash? number = .ok (some hash)
  header : rows.header? hash = .ok (some item.header)
  total : rows.total? hash = .ok (some item.totalDifficulty)

/-- The items are what the index names from a height on. -/
def NamesFrom (rows : Rows) (start : Nat) (items : List Frozen) : Prop :=
  ∀ i item, items[i]? = some item → ∃ hash, rows.Names (UInt64.ofNat (start + i)) hash item

theorem demand_eq_ok_iff {α : Type} {what : Missing} {x : Except StoreError (Option α)} {a : α} :
    demand what x = .ok a ↔ x = .ok (some a) := by
  rcases x with e | (- | b)
  · simp [demand]
  · simp [demand]
  · simp [demand]

theorem hotItem_eq_ok_iff :
    rows.hotItem number = .ok item ↔ ∃ hash, rows.Names number hash item := by
  constructor
  · intro h
    obtain ⟨hash, canonical, h⟩ := except_bind_eq_ok h
    obtain ⟨header, stored, h⟩ := except_bind_eq_ok h
    obtain ⟨total, counted, h⟩ := except_bind_eq_ok h
    cases h
    exact ⟨hash, demand_eq_ok_iff.mp canonical, demand_eq_ok_iff.mp stored,
      demand_eq_ok_iff.mp counted⟩
  · rintro ⟨hash, canonical, stored, counted⟩
    -- each of the three demands is met, one after the other
    show demand _ (rows.canonicalHash? number) >>= _ = _
    rw [canonical]
    show demand _ (rows.header? hash) >>= _ = _
    rw [stored]
    show demand _ (rows.total? hash) >>= _ = _
    rw [counted]
    rfl

/-- The index names a hash at a height exactly if its row there is that hash. -/
theorem canonicalHash?_eq_some_iff {hash : Hash} :
    rows.canonicalHash? number = .ok (some hash) ↔
      rows.canonical[heightRow number]? = some hash.bytes := by
  unfold canonicalHash? Table.read?
  rcases rows.canonical[heightRow number]? with - | bytes
  · simp
  dsimp only
  unfold readHash
  rcases found : Hash.ofBytes? bytes with - | hash'
  · have other : bytes ≠ hash.bytes := by
      rintro rfl
      simp at found
    simp [Except.map, other]
  · rw [Hash.ofBytes?_eq_some.mp found]
    simp [Except.map, Hash.bytes_inj]

theorem namesFrom_nil (rows : Rows) (start : Nat) : rows.NamesFrom start [] :=
  fun i item found => by simp at found

theorem NamesFrom.tail {start : Nat} (named : rows.NamesFrom start (item :: items)) :
    rows.NamesFrom (start + 1) items := by
  intro i other found
  have shifted := named (i + 1) other (by simpa using found)
  rwa [← Nat.succ_add_eq_add_succ] at shifted

theorem hotItems_eq_ok_iff {count start : Nat} :
    rows.hotItems count start = .ok items ↔ items.length = count ∧ rows.NamesFrom start items := by
  induction count generalizing start items with
  | zero =>
    constructor
    · intro h
      cases h
      exact ⟨rfl, rows.namesFrom_nil start⟩
    · rintro ⟨none_left, -⟩
      rw [List.eq_nil_of_length_eq_zero none_left]
      rfl
  | succ count ih =>
    constructor
    · intro h
      obtain ⟨first, hot, h⟩ := except_bind_eq_ok h
      obtain ⟨others, later, h⟩ := except_bind_eq_ok h
      cases h
      obtain ⟨length, named⟩ := ih.mp later
      refine ⟨by rw [List.length_cons, length], fun i item found => ?_⟩
      rcases i with - | i
      · cases found
        exact hotItem_eq_ok_iff.mp hot
      · have shifted := named i item (by simpa using found)
        rwa [Nat.succ_add_eq_add_succ] at shifted
    · rintro ⟨length, named⟩
      rcases items with - | ⟨first, others⟩
      · cases length
      have hot := hotItem_eq_ok_iff.mpr (named 0 first rfl)
      have later := ih.mpr ⟨Nat.succ.inj length, named.tail⟩
      unfold hotItems
      rw [show UInt64.ofNat start = UInt64.ofNat (start + 0) from rfl, hot, later]
      rfl

/-- The front of what the index names is named too. -/
theorem NamesFrom.of_append {start : Nat} {front rest : List Frozen}
    (named : rows.NamesFrom start (front ++ rest)) : rows.NamesFrom start front := by
  intro i item found
  have bound := (List.getElem?_eq_some_iff.mp found).1
  exact named i item (by rw [List.getElem?_append_left bound, found])

/-! ### A rival's writes -/

/-- The rows after a rival has made its hashes canonical at the heights of some
items, where it has one. -/
def overwrite (rows : Rows) (rival : UInt64 → Option Hash) (items : List Frozen) : Rows :=
  items.foldl (fun rows item =>
    match rival item.header.number with
    | some hash => rows.setCanonical item.header.number hash
    | none => rows) rows

section Overwrite

variable {rival : UInt64 → Option Hash}

@[simp] theorem overwrite_nil (rows : Rows) : rows.overwrite rival [] = rows := rfl

theorem overwrite_cons (rows : Rows) (item : Frozen) (items : List Frozen) :
    rows.overwrite rival (item :: items) = (rows.overwrite rival [item]).overwrite rival items :=
  rfl

theorem overwrite_singleton_of_none (rows : Rows) (none_here : rival item.header.number = none) :
    rows.overwrite rival [item] = rows := by
  rw [overwrite, List.foldl_cons, none_here]
  rfl

theorem overwrite_singleton_of_some (rows : Rows) {hash : Hash}
    (here : rival item.header.number = some hash) :
    rows.overwrite rival [item] = rows.setCanonical item.header.number hash := by
  rw [overwrite, List.foldl_cons, here]
  rfl

/-- Who has no hash writes nothing. -/
theorem overwrite_of_none (rows : Rows) (none_at : ∀ number, rival number = none)
    (items : List Frozen) : rows.overwrite rival items = rows := by
  induction items with
  | nil => rfl
  | cons item items ih => rw [overwrite_cons, overwrite_singleton_of_none rows (none_at _), ih]

/-- A rival changes the index only. -/
theorem overwrite_eq (rows : Rows) (rival : UInt64 → Option Hash) (items : List Frozen) :
    ∃ canonical, rows.overwrite rival items = { rows with canonical } := by
  induction items generalizing rows with
  | nil => exact ⟨_, rfl⟩
  | cons item items ih =>
    rw [overwrite_cons]
    rcases here : rival item.header.number with - | hash
    · rw [overwrite_singleton_of_none rows here]
      exact ih rows
    · rw [overwrite_singleton_of_some rows here]
      exact ih (rows.setCanonical item.header.number hash)

/-- Under each key the index is as before, or the rival has put its hash there. -/
theorem getElem?_overwrite (rows : Rows) (rival : UInt64 → Option Hash) (items : List Frozen)
    (key : Bytes) :
    (rows.overwrite rival items).canonical[key]? = rows.canonical[key]? ∨
      ∃ item ∈ items, heightRow item.header.number = key ∧
        ∃ hash, rival item.header.number = some hash ∧
          (rows.overwrite rival items).canonical[key]? = some hash.bytes := by
  induction items generalizing rows with
  | nil => exact .inl rfl
  | cons item items ih =>
    rw [overwrite_cons]
    rcases ih (rows.overwrite rival [item]) with same | ⟨other, mem, at_key, written⟩
    · -- only the first write can have changed it
      rw [same]
      rcases here : rival item.header.number with - | hash
      · exact .inl (by rw [overwrite_singleton_of_none rows here])
      rw [overwrite_singleton_of_some rows here]
      unfold setCanonical
      rw [Std.ExtTreeMap.getElem?_insert]
      by_cases at_key : heightRow item.header.number = key
      · exact .inr ⟨item, List.mem_cons_self, at_key, hash, here, by simp [at_key]⟩
      · exact .inl (by simp [at_key])
    · exact .inr ⟨other, List.mem_cons_of_mem _ mem, at_key, written⟩

end Overwrite

/-! ### Removing hot rows -/

end Rows

/-- The second table is the first without the rows under some keys. -/
def Table.Without (table table' : Table) (keys : List Bytes) : Prop :=
  ∀ key : Bytes, table'[key]? = if key ∈ keys then none else table[key]?

namespace Table.Without

variable {table table' table'' : Table} {keys keys' : List Bytes}

theorem refl (table : Table) : table.Without table [] := fun _ => rfl

theorem erase (table : Table) (key : Bytes) : table.Without (table.erase key) [key] := by
  intro key'
  rw [Std.ExtTreeMap.getElem?_erase]
  by_cases same : key = key'
  · simp [same]
  · simp [same, Ne.symm same]

theorem trans (first : table.Without table' keys) (second : table'.Without table'' keys') :
    table.Without table'' (keys ++ keys') := by
  intro key
  rw [second, first]
  by_cases now : key ∈ keys'
  · simp [now]
  · simp [now]

end Table.Without

namespace Rows

variable {rows rows' rows'' : Rows} {items : List Frozen} {item : Frozen}

/-- The second rows are the first without the header, total difficulty and
canonical rows of the items. -/
structure Sheds (rows rows' : Rows) (items : List Frozen) : Prop where
  headers : rows.headers.Without rows'.headers (items.map (·.header.hash.bytes))
  totals : rows.totals.Without rows'.totals (items.map (·.header.hash.bytes))
  canonical : rows.canonical.Without rows'.canonical
    (items.map fun item => heightRow item.header.number)
  numbers : rows'.numbers = rows.numbers
  metadata : rows'.metadata = rows.metadata

theorem Sheds.refl (rows : Rows) : rows.Sheds rows [] :=
  ⟨.refl _, .refl _, .refl _, rfl, rfl⟩

/-- One item after another. -/
theorem Sheds.cons (first : rows.Sheds rows' [item]) (others : rows'.Sheds rows'' items) :
    rows.Sheds rows'' (item :: items) where
  headers := first.headers.trans others.headers
  totals := first.totals.trans others.totals
  canonical := first.canonical.trans others.canonical
  numbers := others.numbers.trans first.numbers
  metadata := others.metadata.trans first.metadata

/-- Where a rival wrote the index is shed with the items, so its writes leave no
trace. -/
theorem Sheds.of_overwrite {rival : UInt64 → Option Hash}
    (sheds : (rows.overwrite rival items).Sheds rows' items) : rows.Sheds rows' items := by
  obtain ⟨canonical, written⟩ := rows.overwrite_eq rival items
  have index := sheds.canonical
  rw [written] at sheds
  refine ⟨sheds.headers, sheds.totals, fun key => ?_, sheds.numbers, sheds.metadata⟩
  rw [index]
  split
  · rfl
  · rename_i outside
    rcases rows.getElem?_overwrite rival items key with same | ⟨item, mem, at_key, -⟩
    · exact same
    · exact absurd (List.mem_map.mpr ⟨item, mem, at_key⟩) outside

theorem sheds_of_retire (retired : rows.retire item.header = .ok rows') :
    rows.Sheds rows' [item] := by
  obtain ⟨-, rfl⟩ := (retire_eq_ok_iff _ _ _).mp retired
  exact ⟨.erase _ _, .erase _ _, .erase _ _, rfl, rfl⟩

/-- Retiring items removes their rows and no others, and every one of them is
canonical before. -/
theorem sheds_of_retireAll (retired : rows.retireAll items = .ok rows') :
    rows.Sheds rows' items ∧ ∀ item ∈ items,
      rows.canonical[heightRow item.header.number]? = some item.header.hash.bytes := by
  induction items generalizing rows with
  | nil =>
    cases retired
    exact ⟨.refl _, List.forall_mem_nil _⟩
  | cons item items ih =>
    obtain ⟨rows₁, first, others⟩ := except_bind_eq_ok retired
    have here := sheds_of_retire first
    obtain ⟨sheds, canonical⟩ := ih others
    refine ⟨here.cons sheds, List.forall_mem_cons.mpr
      ⟨((retire_eq_ok_iff _ _ _).mp first).1, fun other mem => ?_⟩⟩
    -- what is still there after the first removal was there before it
    have still := canonical other mem
    rw [here.canonical] at still
    split at still
    · cases still
    · exact still

/-- Items of different heights that are canonical can all be retired. -/
theorem exists_retireAll (apart : (items.map (·.header.number)).Nodup)
    (canonical : ∀ item ∈ items,
      rows.canonical[heightRow item.header.number]? = some item.header.hash.bytes) :
    ∃ rows', rows.retireAll items = .ok rows' := by
  induction items generalizing rows with
  | nil => exact ⟨rows, rfl⟩
  | cons item items ih =>
    obtain ⟨here, others⟩ := List.forall_mem_cons.mp canonical
    obtain ⟨alone, apart⟩ := List.nodup_cons.mp apart
    obtain ⟨rows₁, first⟩ : ∃ rows₁, rows.retire item.header = .ok rows₁ :=
      ⟨_, (retire_eq_ok_iff _ _ _).mpr ⟨here, rfl⟩⟩
    have others₁ (other : Frozen) (mem : other ∈ items) :
        rows₁.canonical[heightRow other.header.number]? = some other.header.hash.bytes := by
      rw [(sheds_of_retire first).canonical, if_neg, others other mem]
      intro same
      rw [List.map_singleton, List.mem_singleton, heightRow_inj] at same
      exact alone (List.mem_map.mpr ⟨other, mem, same⟩)
    obtain ⟨rows', rest⟩ := ih apart others₁
    refine ⟨rows', ?_⟩
    unfold retireAll
    rw [first]
    exact rest

end Rows

namespace Store

variable {s s' : Store} {limit : UInt64} {items : List Frozen}

/-! ### Appending -/

/-- The store with more items at the end of its tier. -/
def grow (s : Store) (items : List Frozen) : Store :=
  { s with tier := { s.tier with items := s.tier.items ++ items } }

/-- Items whose heights go on from the end of the tier. -/
def Next (s : Store) (items : List Frozen) : Prop :=
  ∀ i item, items[i]? = some item → item.header.number.toNat = s.tier.items.length + i

theorem grow_nil (s : Store) : s.grow [] = s := by simp [grow]

/-- The store after a rival may have written at the heights of some items, and the
tier has taken the front of them. -/
def appended (s : Store) (begun front : List Frozen) : Store :=
  { s.grow front with rows := s.rows.overwrite s.tier.service.rival begun }

theorem appended_nil (s : Store) : s.appended [] [] = s := by simp [appended, grow]

/-- Without a rival only the tier grows. -/
theorem appended_eq_grow (alone : s.tier.service.Alone) (begun front : List Frozen) :
    s.appended begun front = s.grow front := by
  rw [appended, Rows.overwrite_of_none _ alone]
  rfl

theorem appended_appended (s : Store) (item : Frozen) (begun front : List Frozen) :
    (s.appended [item] [item]).appended begun front
      = s.appended (item :: begun) (item :: front) := by
  unfold appended
  rw [Rows.overwrite_cons _ item begun]
  simp [grow]

theorem next_nil (s : Store) : s.Next [] := fun i item found => by simp at found

/-- Items that follow the first follow it in the tier. -/
theorem next_cons_iff {item : Frozen} :
    s.Next (item :: items) ↔
      item.header.number.toNat = s.tier.items.length ∧ (s.appended [item] [item]).Next items := by
  have longer : (s.appended [item] [item]).tier.items.length = s.tier.items.length + 1 :=
    List.length_append
  constructor
  · intro next
    refine ⟨next 0 item rfl, fun i other found => ?_⟩
    rw [next (i + 1) other (by simpa using found), longer]
    omega
  · rintro ⟨height, next⟩ (- | i) other found
    · cases found
      exact height
    · rw [next i other (by simpa using found), longer]
      omega

/-- An item is refused by the tier, or by its order after a rival may have written,
or it is taken. -/
theorem append_cases (s : Store) (place : Nat) (item : Frozen) :
    ((∃ reason, s.tier.service.refusal place (.append item.header.number) = some reason) ∧
        ∃ e, s.append place item = (.error e, s)) ∨
      (item.header.number.toNat ≠ s.tier.items.length ∧
        ∃ e, s.append place item = (.error e, s.appended [item] [])) ∨
      (item.header.number.toNat = s.tier.items.length ∧
        s.append place item = (.ok (), s.appended [item] [item])) := by
  unfold append
  rcases s.tier.service.refusal place (.append item.header.number) with - | reason
  · refine .inr ?_
    unfold appended
    rcases here : s.tier.service.rival item.header.number with - | hash
    · rw [Rows.overwrite_singleton_of_none _ here]
      by_cases next : item.header.number.toNat = s.tier.items.length
      · simp [Tier.push, next, grow]
      · simp [Tier.push, next, grow]
    · have written : s.commit { canonical := [(item.header.number, hash)] }
          = { s with rows := s.rows.setCanonical item.header.number hash } := rfl
      rw [Rows.overwrite_singleton_of_some _ here]
      by_cases next : item.header.number.toNat = s.tier.items.length
      · simp [Tier.push, next, grow, written]
      · simp [Tier.push, next, grow, written]
  · exact .inl ⟨⟨reason, rfl⟩, _, rfl⟩

/-- Appending goes as far as it can, and stops at the first failure. -/
theorem appendAll_eq (s : Store) (place : Nat) (items : List Frozen) :
    ∃ begun front rest result place',
      s.appendAll place items = (result, s.appended begun front, place') ∧
        items = begun ++ rest ∧ front <+: begun ∧ s.Next front ∧
        (result = .ok () → front = items ∧ begun = items) := by
  induction items generalizing s place with
  | nil =>
    refine ⟨[], [], [], .ok (), place, ?_, rfl, List.prefix_rfl, s.next_nil, fun _ => ⟨rfl, rfl⟩⟩
    rw [appended_nil]
    rfl
  | cons item items ih =>
    unfold appendAll
    rcases s.append_cases place item with ⟨-, e, refused⟩ | ⟨-, e, misplaced⟩ | ⟨height, taken⟩
    · refine ⟨[], [], item :: items, .error e, place + 1, ?_, rfl, List.prefix_rfl, s.next_nil,
        fun ok => by cases ok⟩
      rw [refused, appended_nil]
    · refine ⟨[item], [], items, .error e, place + 1, ?_, rfl, List.nil_prefix, s.next_nil,
        fun ok => by cases ok⟩
      rw [misplaced]
    · obtain ⟨begun, front, rest, result, place', all, split, front_begun, next, last⟩ :=
        ih (s.appended [item] [item]) (place + 1)
      refine ⟨item :: begun, item :: front, rest, result, place', ?_, by rw [split]; rfl,
        (List.cons_prefix_cons ..).mpr ⟨rfl, front_begun⟩, next_cons_iff.mpr ⟨height, next⟩,
        fun ok => ?_⟩
      · rw [appended_appended] at all
        rw [taken]
        exact all
      · obtain ⟨front_all, begun_all⟩ := last ok
        exact ⟨by rw [front_all], by rw [begun_all]⟩

/-- Cutting back to the old length takes the new items off again, unless the tier
refuses. -/
theorem cutBack_appended (s : Store) (place : Nat) (begun front : List Frozen)
    (short : s.tier.items.length < 2 ^ 64) :
    ∃ left, (s.appended begun front).cutBack place s.tier.items.length = s.appended begun left ∧
      left <+: front ∧ (s.tier.service.Truncates → left = []) := by
  have exact_length : (UInt64.ofNat s.tier.items.length).toNat = s.tier.items.length := by
    rw [UInt64.toNat_ofNat']
    exact Nat.mod_eq_of_lt short
  have service : (s.appended begun front).tier.service = s.tier.service := rfl
  unfold cutBack Tier.truncate Tier.call
  rw [service]
  rcases refused : s.tier.service.refusal place _ with - | reason
  · refine ⟨[], ?_, List.nil_prefix, fun _ => rfl⟩
    simp [exact_length, appended, grow]
  · refine ⟨front, rfl, List.prefix_rfl, fun truncates => ?_⟩
    rw [truncates] at refused
    cases refused

/-! ### The ways a call ends -/

/-- How a freeze up to a limit ends. -/
inductive Freezes (s : Store) (limit : UInt64) : Outcome StoreError Nat × Store → Prop
  /-- So much is frozen already. -/
  | enough : limit.toNat ≤ s.tier.items.length →
      Freezes s limit (.ok s.tier.items.length, s)
  /-- There is no room for so many items. -/
  | crowded : greatestBatch < limit.toNat - s.tier.items.length →
      Freezes s limit (.fault .capacityOverflow, s)
  /-- It fails after some items were begun.  Those left in the tier could not be
  taken off again. -/
  | failed (e : StoreError) {begun left : List Frozen} :
      begun.length ≤ limit.toNat - s.tier.items.length →
      s.rows.NamesFrom s.tier.items.length begun → left <+: begun → s.Next left →
      (s.tier.service.Truncates → left = []) → Freezes s limit (.error e, s.appended begun left)
  /-- All that the index names is moved. -/
  | done {items : List Frozen} {rows : Rows} :
      s.tier.items.length < limit.toNat →
      items.length = limit.toNat - s.tier.items.length →
      s.rows.NamesFrom s.tier.items.length items → s.Next items →
      (s.rows.overwrite s.tier.service.rival items).retireAll items = .ok rows →
      Freezes s limit (.ok limit.toNat, { s.grow items with rows })

/-- A failure that begins nothing changes nothing. -/
theorem Freezes.unbegun (s : Store) (limit : UInt64) (e : StoreError) :
    s.Freezes limit (.error e, s) := by
  have nothing : s.Freezes limit (.error e, s.appended [] []) :=
    .failed e (Nat.zero_le _) (s.rows.namesFrom_nil _) List.prefix_rfl s.next_nil fun _ => rfl
  rwa [appended_nil] at nothing

theorem Next.of_prefix {left front : List Frozen} (next : s.Next front) (part : left <+: front) :
    s.Next left := by
  obtain ⟨more, rfl⟩ := part
  intro i item found
  have bound := (List.getElem?_eq_some_iff.mp found).1
  exact next i item (by rw [List.getElem?_append_left bound, found])

/-- **A call of `freeze` ends in one of these ways.** -/
theorem freezes (s : Store) (limit : UInt64) : s.Freezes limit (s.freeze limit) := by
  unfold freeze
  rcases counted : s.tier.count 0 with e | frozen
  · exact .unbegun s limit _
  obtain rfl : frozen = s.tier.items.length := by
    unfold Tier.count Tier.call at counted
    split at counted
    · cases counted
    · cases counted; rfl
  dsimp only
  split
  · rename_i enough
    exact .enough enough
  split
  · rename_i crowded
    exact .crowded crowded
  -- there is something to freeze, so the length of the tier is a height
  rename_i above _
  have short : s.tier.items.length < 2 ^ 64 := by
    have := limit.toNat_lt
    omega
  split
  · exact .unbegun s limit _
  rename_i items hot
  obtain ⟨length, named⟩ := Rows.hotItems_eq_ok_iff.mp hot
  obtain ⟨begun, front, rest, result, place, all, rfl, front_begun, next, last⟩ :=
    s.appendAll_eq 1 items
  rw [all]
  rcases result with e | ⟨⟩
  · -- an append failed
    obtain ⟨left, cut, part, undone⟩ := s.cutBack_appended place begun front short
    dsimp only
    rw [cut]
    exact .failed _ (by rw [List.length_append] at length; omega) named.of_append
      (part.trans front_begun) (next.of_prefix part) undone
  · -- all items are in the tier
    obtain ⟨rfl, whole⟩ := last rfl
    rw [← whole] at length named next front_begun ⊢
    dsimp only
    rcases retired : (s.appended begun begun).rows.retireAll begun with e | rows
    · obtain ⟨left, cut, part, undone⟩ := s.cutBack_appended place begun begun short
      dsimp only
      rw [cut]
      exact .failed _ (Nat.le_of_eq length) named part (next.of_prefix part) undone
    · exact .done (Nat.lt_of_not_le above) length named next retired

/-! ### All or nothing -/

/-- The headers that the index names from the end of the tier up to the limit have
moved there, and nothing else has changed.  A hash that the index names is that
of the header under it, or a rival has made that one canonical at its height
meanwhile. -/
structure Moves (s : Store) (limit : UInt64) (items : List Frozen) (s' : Store) : Prop where
  length : items.length = limit.toNat - s.tier.items.length
  named : ∀ i item, items[i]? = some item →
    item.header.number.toNat = s.tier.items.length + i ∧
      ∃ hash, s.rows.Names item.header.number hash item ∧
        (hash = item.header.hash ∨
          s.tier.service.rival item.header.number = some item.header.hash)
  tier : s'.tier = { s.tier with items := s.tier.items ++ items }
  rows : s.rows.Sheds s'.rows items

/-- A retired item stood at its height under its own hash, before or after the
rival wrote. -/
theorem named_of_retireAll {rows : Rows} {item : Frozen} {hash : Hash}
    (named : s.rows.Names item.header.number hash item) (mem : item ∈ items)
    (retired : (s.rows.overwrite s.tier.service.rival items).retireAll items = .ok rows) :
    hash = item.header.hash ∨ s.tier.service.rival item.header.number = some item.header.hash := by
  have canonical := (Rows.sheds_of_retireAll retired).2 item mem
  rcases s.rows.getElem?_overwrite s.tier.service.rival items (heightRow item.header.number)
    with same | ⟨other, -, height, r, rival, written⟩
  · rw [same] at canonical
    have own := Rows.canonicalHash?_eq_some_iff.mpr canonical
    rw [named.canonical] at own
    exact .inl (Option.some.inj (Except.ok.inj own))
  · rw [heightRow_inj.mp height] at rival
    rw [written, Option.some.injEq, Hash.bytes_inj] at canonical
    exact .inr (rival.trans (congrArg some canonical))

/-- **Freezing is all or nothing.**  A freeze up to a limit above the tier, for
which there is room, moves all the headers that the index names below the limit;
or it fails, the rows are as before but for what a rival wrote at the heights
that were begun, and unless it cannot be cut back the tier is as before. -/
theorem freeze_all_or_nothing {result : Outcome StoreError Nat}
    (above : s.tier.items.length < limit.toNat)
    (room : limit.toNat - s.tier.items.length ≤ greatestBatch)
    (h : s.freeze limit = (result, s')) :
    (result = .ok limit.toNat ∧ ∃ items, s.Moves limit items s') ∨
      ((∃ e, result = .error e) ∧ (s.tier.service.Truncates → s'.tier = s.tier) ∧
        ∃ begun, s.rows.NamesFrom s.tier.items.length begun ∧
          s'.rows = s.rows.overwrite s.tier.service.rival begun) := by
  have ends := s.freezes limit
  rw [h] at ends
  cases ends with
  | enough enough => omega
  | crowded crowded => omega
  | @failed e begun left _ named _ _ undone =>
    refine .inr ⟨⟨e, rfl⟩, fun truncates => ?_, begun, named, rfl⟩
    rw [undone truncates]
    simp [appended, grow]
  | @done items rows _ length named next retired =>
    refine .inl ⟨rfl, items, length, fun i item found => ?_, rfl,
      (Rows.sheds_of_retireAll retired).1.of_overwrite⟩
    have height := next i item found
    obtain ⟨hash, names⟩ := named i item found
    rw [← height, UInt64.ofNat_toNat] at names
    exact ⟨height, hash, names, named_of_retireAll names (List.mem_of_getElem? found) retired⟩

/-- A header of a height with total difficulty. -/
def sampleItem (number : UInt64) (total : Difficulty) : Frozen where
  header := ⟨number, .filled (number.toUInt8 + 1), .filled number.toUInt8, 0, 1, 0⟩
  totalDifficulty := total

/-- A service that refuses one kind of call. -/
def sampleRefusing (refused : TierCall) : Service where
  refusal _ call := if call = refused then some "busy" else none

/-- Two hot canonical headers and an empty tier of the given service. -/
def sampleHot (service : Service) : Store :=
  commit { tier := { service } } {
    headers := [((sampleItem 0 1).header, 1), ((sampleItem 1 2).header, 2)]
    canonical := [(0, .filled 1), (1, .filled 2)] }

/-- A service whose rival rewrites the index at height 1 only. -/
def sampleRivalled : Service where
  rival number := if number = 1 then some (.filled 9) else none

/-- A tier that answers takes both headers.  If a rival rewrites one entry of the
index meanwhile the freeze fails and the tier is as before, and so it is if the
second header is refused. -/
theorem freeze_all_or_nothing_sampleHot :
    (∃ items, (sampleHot {}).Moves 2 items ((sampleHot {}).freeze 2).2) ∧
    ((sampleHot sampleRivalled).freeze 2).2.tier.items = [] ∧
    ((sampleHot (sampleRefusing (.append 1))).freeze 2).2.tier.items = [] := by
  refine ⟨?_, ?_, ?_⟩
  · have done : ((sampleHot {}).freeze 2).1 = .ok 2 := by decide +kernel
    rcases freeze_all_or_nothing (s := sampleHot {}) (by decide) (by decide)
      (Prod.ext done rfl) with ⟨-, moves⟩ | ⟨⟨_, failed⟩, -⟩
    · exact moves
    · cases failed
  · have moved : ((sampleHot sampleRivalled).freeze 2).1
        = .error (.canonicalMoved 1) := by decide +kernel
    rcases freeze_all_or_nothing (s := sampleHot sampleRivalled)
      (by decide) (by decide) (Prod.ext moved rfl) with ⟨done, -⟩ | ⟨-, same, -⟩
    · cases done
    · exact congrArg Tier.items (same fun _ _ => rfl)
  · have refused : ((sampleHot (sampleRefusing (.append 1))).freeze 2).1
        = .error (.tier (.unavailable "busy")) := by decide +kernel
    rcases freeze_all_or_nothing (s := sampleHot (sampleRefusing (.append 1)))
      (by decide) (by decide) (Prod.ext refused rfl) with ⟨done, -⟩ | ⟨-, same, -⟩
    · cases done
    · exact congrArg Tier.items (same fun _ _ => rfl)

/-! ### Freezes that succeed -/

/-- What goes up one by one does not repeat. -/
theorem nodup_of_heights {α : Type} {l : List α} (height : α → Nat) (start : Nat)
    (heights : ∀ i a, l[i]? = some a → height a = start + i) : l.Nodup := by
  apply List.nodup_iff_getElem?_ne_getElem?.mpr
  intro i j below inside same
  rw [List.getElem?_eq_getElem inside] at same
  have at_i := heights i _ same
  have at_j := heights j _ (List.getElem?_eq_getElem inside)
  omega

/-- The heights of the next items differ. -/
theorem Next.apart (next : s.Next items) : (items.map (·.header.number)).Nodup := by
  refine nodup_of_heights UInt64.toNat s.tier.items.length fun i number at_i => ?_
  rw [List.getElem?_map] at at_i
  obtain ⟨item, found, rfl⟩ := Option.map_eq_some_iff.mp at_i
  exact next i item found

/-- A tier that answers takes items of the next heights. -/
theorem appendAll_of_next (answers : s.tier.service.Answers) (place : Nat) (next : s.Next items) :
    ∃ place', s.appendAll place items = (.ok (), s.appended items items, place') := by
  induction items generalizing s place with
  | nil => exact ⟨place, by rw [appended_nil]; rfl⟩
  | cons item items ih =>
    obtain ⟨height, later⟩ := next_cons_iff.mp next
    have taken : s.append place item = (.ok (), s.appended [item] [item]) := by
      rcases s.append_cases place item with ⟨⟨reason, refused⟩, -⟩ | ⟨misplaced, -⟩ | ⟨-, taken⟩
      · rw [answers] at refused
        cases refused
      · exact absurd height misplaced
      · exact taken
    obtain ⟨place', all⟩ := ih (s := s.appended [item] [item]) answers (place + 1) later
    refine ⟨place', ?_⟩
    unfold appendAll
    rw [taken, ← appended_appended s item items items]
    exact all

/-- **A freeze succeeds** if the tier answers, no rival writes, and the index names
headers of the right heights by their own hashes. -/
theorem freeze_of_named (answers : s.tier.service.Answers) (alone : s.tier.service.Alone)
    (above : s.tier.items.length < limit.toNat)
    (room : limit.toNat - s.tier.items.length ≤ greatestBatch)
    (length : items.length = limit.toNat - s.tier.items.length)
    (named : s.rows.NamesFrom s.tier.items.length items) (next : s.Next items)
    (own : ∀ item ∈ items, s.rows.canonicalHash? item.header.number = .ok (some item.header.hash)) :
    (s.freeze limit).1 = .ok limit.toNat := by
  have counted : s.tier.count 0 = .ok s.tier.items.length := by
    unfold Tier.count Tier.call
    rw [answers]
  have hot := Rows.hotItems_eq_ok_iff.mpr ⟨length, named⟩
  obtain ⟨place, all⟩ := appendAll_of_next answers 1 next
  have rows : (s.appended items items).rows = s.rows := by
    rw [appended_eq_grow alone]
    rfl
  obtain ⟨rows', retired⟩ : ∃ rows', s.rows.retireAll items = .ok rows' :=
    Rows.exists_retireAll next.apart
      fun item mem => Rows.canonicalHash?_eq_some_iff.mp (own item mem)
  unfold freeze
  rw [counted]
  dsimp only
  rw [if_neg (Nat.not_le.mpr above), if_neg (Nat.not_lt.mpr room), hot]
  dsimp only
  rw [all]
  dsimp only
  rw [rows, retired]

end Store

end ForkChoice
