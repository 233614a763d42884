/-
ForkChoice/Proofs/Chain/Invariant.lean

The invariant of chains, and the operations that do not store segments.

The stored headers are `Rooted`: each has a lineage from the genesis, and its
total difficulty is the work of that lineage.  A chain is `Sound` if moreover
its canonical index is the lineage of its head, height by height, all four
heads are one header, and no height above the head is frozen.

Hashes name headers only as long as no two of them collide, so the invariant
speaks of a pool of headers, those that were ever offered to the chain; that
the pool is `CollisionFree` is assumed where it is needed.

A chain put on an empty store is sound (`sound_attach_empty`).  A sound chain
stays sound when its gate is changed, its tier begins to refuse calls, it
freezes headers (`Sound.freeze`) or is opened again (`Sound.reopen`).
-/
import ForkChoice.Proofs.Chain.Linked
import ForkChoice.Proofs.Store.Refusals

namespace ForkChoice

/-- No two sealed headers carry the same hash. -/
def CollisionFree (headers : List Header) : Prop :=
  ∀ a ∈ headers, ∀ b ∈ headers, a.isSealed → b.isSealed → a.hash = b.hash → a = b

theorem CollisionFree.mono {headers headers' : List Header} (free : CollisionFree headers)
    (sub : ∀ h ∈ headers', h ∈ headers) : CollisionFree headers' :=
  fun a ha b hb => free a (sub a ha) b (sub b hb)

theorem CollisionFree.left {headers more : List Header} (free : CollisionFree (headers ++ more)) :
    CollisionFree headers :=
  free.mono fun _ mem => List.mem_append_left _ mem

/-! ### Readings in a chain operation -/

namespace Store

theorem answer_inChain_of_ok {α : Type} {s : Store} {x : Lookup StoreError α} {a : α}
    (step : s.answer x = .ok a) : s.answer x.inChain = .ok a :=
  answer_mapError_of_ok step

theorem answer_blame_of_ok {α : Type} {s : Store} {index : Nat} {x : Lookup ChainError α} {a : α}
    (step : s.answer x = .ok a) : s.answer (x.blame index) = .ok a :=
  answer_mapError_of_ok step

/-- The total difficulty of a hash that leads somewhere. -/
theorem Sound.answer_totalOf {s : Store} (sound : s.Sound)
    (answers : s.tier.service.AnswersReads) {hash : Hash} {e : Frozen}
    (found : s.item? hash = some e) :
    s.answer (s.source.totalOf hash) = .ok e.totalDifficulty := by
  have counted := sound.answer_total answers hash
  rw [found] at counted
  unfold Source.totalOf
  rw [answer_bind_of_ok answers (answer_inChain_of_ok counted)]
  rfl

/-! ### Rooted stores -/

/-- Every stored header is a sealed one of the pool, has a lineage, and counts
the work of that lineage as its total difficulty. -/
structure Rooted (s : Store) (genesis : Header) (pool : List Header) : Prop where
  sound : s.Sound
  mem_pool : ∀ {hash e}, s.item? hash = some e → e.header ∈ pool
  is_sealed : ∀ {hash e}, s.item? hash = some e → e.header.isSealed
  lineage : ∀ {hash e}, s.item? hash = some e →
    ∃ path, s.Lineage genesis path e.header ∧ e.totalDifficulty = .capped (work path)

theorem has_of_item? {s : Store} (sound : s.Sound) {hash : Hash} {e : Frozen}
    (found : s.item? hash = some e) : s.Has e.header := by
  rw [← sound.hash_eq found] at found
  exact has_iff.mpr ⟨_, found⟩

theorem SameContents.has {s s' : Store} (same : s.SameContents s') {h : Header} (has : s.Has h) :
    s'.Has h :=
  has.congr (same.item h.hash)

namespace Rooted

variable {s s' : Store} {genesis h : Header} {pool path : List Header}

/-- The item of a header tells the work of its lineage. -/
theorem item?_eq (rooted : s.Rooted genesis pool) (l : s.Lineage genesis path h) :
    s.item? h.hash = some ⟨h, .capped (work path)⟩ := by
  obtain ⟨total, found⟩ := has_iff.mp l.has
  obtain ⟨path', l', total_eq⟩ := rooted.lineage found
  rw [l.unique l', found]
  exact congrArg (fun total => some (Frozen.mk h total)) total_eq

theorem exists_lineage (rooted : s.Rooted genesis pool) (has : s.Has h) :
    ∃ path, s.Lineage genesis path h := by
  obtain ⟨total, found⟩ := has_iff.mp has
  obtain ⟨path, l, -⟩ := rooted.lineage found
  exact ⟨path, l⟩

theorem of_sameContents (rooted : s.Rooted genesis pool) (same : s.SameContents s')
    (sound : s'.Sound) : s'.Rooted genesis pool where
  sound := sound
  mem_pool found := rooted.mem_pool (by rwa [same.item] at found)
  is_sealed found := rooted.is_sealed (by rwa [same.item] at found)
  lineage found := by
    rw [same.item] at found
    obtain ⟨path, l, total⟩ := rooted.lineage found
    exact ⟨path, l.mono fun _ => same.has, total⟩

/-! ### Answers -/

variable (rooted : s.Rooted genesis pool) (answers : s.tier.service.AnswersReads)
include rooted answers

theorem answer_header (has : s.Has h) : s.answer (s.source.header? h.hash) = .ok (some h) := by
  rw [rooted.sound.answer_header answers, has]

theorem has_of_answer (found : s.answer (s.source.header? h.hash) = .ok (some h)) : s.Has h := by
  rw [rooted.sound.answer_header answers] at found
  exact Outcome.ok.inj found

theorem answer_total (l : s.Lineage genesis path h) :
    s.answer (s.source.total? h.hash) = .ok (some (.capped (work path))) := by
  rw [rooted.sound.answer_total answers, rooted.item?_eq l]
  rfl

theorem answer_totalOf (l : s.Lineage genesis path h) :
    s.answer (s.source.totalOf h.hash) = .ok (.capped (work path)) :=
  rooted.sound.answer_totalOf answers (rooted.item?_eq l)

end Rooted

end Store

/-! ### Sound chains -/

namespace Chain

/-- What holds of a chain between any two operations: the canonical index is
the lineage of the head. -/
structure Sound (pool : List Header) (c : Chain) : Prop where
  rooted : c.store.Rooted c.genesis pool
  alone : c.store.tier.service.Alone
  rule : ∃ r : Retarget, r.check = .ok () ∧ c.rule = .retarget r
  spine : ∃ path, c.store.Lineage c.genesis path c.headBlock ∧
    ∀ number, c.store.canonical? number = path[number.toNat]?.map (·.hash)
  headHeader : c.headHeader = c.headBlock
  headBlock? : c.store.rows.headBlock? = .ok (some c.headBlock.hash)
  headHeader? : c.store.rows.headHeader? = .ok (some c.headBlock.hash)
  frozen : c.store.tier.items.length ≤ c.headBlock.number.toNat

/-- The chain on another store. -/
abbrev onto (c : Chain) (s : Store) : Chain := { c with store := s }

/-- The chain while its tier answers every call. -/
def answering (c : Chain) : Chain := { c with store := c.store.answering }

/-- The chain while its tier refuses the given calls. -/
def serve (c : Chain) (refusal : Nat → TierCall → Option String) : Chain :=
  { c with store := c.store.serve refusal }

/-- Freezing is left to the store, with a limit so much below the head. -/
theorem freeze_limit (c : Chain) (keepRecent : UInt64) :
    ∃ limit : UInt64, limit.toNat = c.headBlock.number.toNat - keepRecent.toNat ∧
      c.freeze keepRecent
        = ((c.store.freeze limit).1.mapError .storage, c.onto (c.store.freeze limit).2) := by
  refine ⟨if c.headBlock.number ≤ keepRecent then 0 else c.headBlock.number - keepRecent, ?_, rfl⟩
  split
  · rename_i enough
    exact (Nat.sub_eq_zero_of_le enough).symm
  · rename_i above
    exact UInt64.toNat_sub_of_le _ _ (UInt64.le_of_lt (UInt64.not_le.mp above))

/-- Freezing changes nothing but the store, where its limit is not above the head. -/
theorem freeze_eq (c : Chain) (keepRecent : UInt64) :
    ∃ limit : UInt64, limit.toNat ≤ c.headBlock.number.toNat ∧
      (c.freeze keepRecent).2 = c.onto (c.store.freeze limit).2 := by
  obtain ⟨limit, below, same⟩ := c.freeze_limit keepRecent
  exact ⟨limit, below ▸ Nat.sub_le _ _, congrArg Prod.snd same⟩

theorem headBlock_freeze (c : Chain) (keepRecent : UInt64) :
    (c.freeze keepRecent).2.headBlock = c.headBlock := rfl

namespace Sound

variable {pool : List Header} {c : Chain}

/-- The pool of a sound chain may be larger. -/
theorem mono {pool' : List Header} (sound : c.Sound pool) (sub : ∀ h ∈ pool, h ∈ pool') :
    c.Sound pool' :=
  ⟨⟨sound.rooted.sound, fun found => sub _ (sound.rooted.mem_pool found), sound.rooted.is_sealed,
    sound.rooted.lineage⟩, sound.alone, sound.rule, sound.spine, sound.headHeader, sound.headBlock?,
    sound.headHeader?, sound.frozen⟩

/-- A header that obeys the rule follows the one above it, -/
theorem precedes_of_obeys (sound : c.Sound pool) {p h : Header} (ok : c.rule p h = .ok ()) :
    p.Precedes h := by
  obtain ⟨r, -, rule⟩ := sound.rule
  rw [rule] at ok
  exact Rule.precedes_of_retarget ok

/-- and has some difficulty. -/
theorem positive_of_obeys (sound : c.Sound pool) {p : Header} {headers : List Header}
    (obeys : (p :: headers).IsChain fun p h => c.rule p h = .ok ()) {h : Header}
    (mem : h ∈ headers) : 0 < h.difficulty.toNat := by
  obtain ⟨r, checked, rule⟩ := sound.rule
  rw [rule] at obeys
  obtain ⟨i, bound, rfl⟩ := List.getElem_of_mem mem
  have ok := obeys.getElem i (by simpa using bound)
  exact Nat.lt_of_lt_of_le (Retarget.minimum_pos checked) (Rule.minimum_le_of_retarget ok)

/-- A sound chain with another store of the same contents is sound. -/
theorem withStore (sound : c.Sound pool) {s : Store} (same : c.store.SameContents s)
    (legible : s.Sound) (alone : s.tier.service.Alone)
    (frozen : s.tier.items.length ≤ c.headBlock.number.toNat) :
    (c.onto s).Sound pool where
  rooted := sound.rooted.of_sameContents same legible
  alone := alone
  rule := sound.rule
  spine := by
    obtain ⟨path, l, canonical⟩ := sound.spine
    refine ⟨path, l.mono fun _ => same.has, fun number => ?_⟩
    rw [← canonical]
    exact same.canonical number
  headHeader := sound.headHeader
  headBlock? := same.headBlock.trans sound.headBlock?
  headHeader? := same.headHeader.trans sound.headHeader?
  frozen := frozen

/-- Sound chains with the same headers and the same head have the same index and
pointers. -/
theorem sameContents {c' : Chain} (sound : c.Sound pool) (sound' : c'.Sound pool)
    (genesis : c'.genesis = c.genesis) (item : ∀ hash, c'.store.item? hash = c.store.item? hash)
    (head : c'.headBlock = c.headBlock) : c.store.SameContents c'.store where
  item := item
  canonical number := by
    obtain ⟨path, l, canonical⟩ := sound.spine
    obtain ⟨path', l', canonical'⟩ := sound'.spine
    have keeps (h : Header) (has : c.store.Has h) : c'.store.Has h := has.congr (item h.hash)
    rw [genesis, head] at l'
    rw [canonical, canonical', (l.mono keeps).unique l']
  headBlock := by rw [sound.headBlock?, sound'.headBlock?, head]
  headHeader := by rw [sound.headHeader?, sound'.headHeader?, head]

theorem serve (sound : c.Sound pool) (refusal : Nat → TierCall → Option String) :
    (c.serve refusal).Sound pool :=
  sound.withStore ⟨fun _ => rfl, fun _ => rfl, rfl, rfl⟩ (sound.rooted.sound.serve refusal)
    (c.store.alone_serve refusal) sound.frozen

theorem answering (sound : c.Sound pool) : c.answering.Sound pool := sound.serve _

theorem withGate (sound : c.Sound pool) (gate : Gate) : Sound pool { c with gate } :=
  ⟨sound.rooted, sound.alone, sound.rule, sound.spine, sound.headHeader, sound.headBlock?,
    sound.headHeader?, sound.frozen⟩

theorem enableGate (sound : c.Sound pool) (enabled : Bool) : (c.enableGate enabled).Sound pool :=
  sound.withGate _

theorem setGate (sound : c.Sound pool) (gate : Gate) : (c.setGate gate).2.Sound pool := by
  unfold Chain.setGate
  split
  · exact sound
  · exact sound.withGate gate

/-- Freezing keeps a chain sound, since it stops at the head at the latest. -/
theorem freeze (sound : c.Sound pool) (keepRecent : UInt64) :
    (c.freeze keepRecent).2.Sound pool := by
  obtain ⟨limit, bound, same⟩ := c.freeze_eq keepRecent
  rw [same]
  rcases frozen : c.store.freeze limit with ⟨result, store⟩
  obtain ⟨same, legible, service, length⟩ :=
    Store.freeze_spec sound.rooted.sound sound.alone frozen
  refine sound.withStore same legible ?_ (length.trans (Nat.max_le.mpr ⟨sound.frozen, bound⟩))
  rw [service]
  exact sound.alone

end Sound

/-! ### Putting a chain on a store -/

variable {pool : List Header} {store s : Store} {genesis : Header} {settings : Settings} {c : Chain}

theorem check_retarget (checked : settings.check = .ok ()) : settings.retarget.check = .ok () := by
  obtain ⟨-, -, rest⟩ := except_bind_eq_ok checked
  obtain ⟨⟨⟩, retarget, -⟩ := except_bind_eq_ok rest
  exact retarget

/-- What holds once a chain stands on a store. -/
theorem attach_eq_ok (h : attach store genesis settings = (.ok c, s)) :
    settings.check = .ok () ∧ genesis.number = 0 ∧ genesis.isSealed ∧
      begin store genesis = (.ok (c.headBlock, c.headHeader), s) ∧
      c.store = s ∧ c.genesis = genesis ∧ c.rule = .retarget settings.retarget := by
  unfold attach at h
  split at h
  · cases h
  rename_i checked
  split at h
  · cases h
  rename_i proper
  obtain ⟨number, is_sealed⟩ : genesis.number = 0 ∧ genesis.isSealed := by simpa using proper
  split at h
  · cases h
  · cases h
  rename_i begun
  split at h
  · cases h
  · obtain ⟨⟩ := h
    exact ⟨checked, number, is_sealed, begun, rfl, rfl, rfl⟩

/-- If no chain comes about, the store is as before or begun. -/
theorem attach_store (store : Store) (genesis : Header) (settings : Settings) :
    (attach store genesis settings).2 = store ∨
      (attach store genesis settings).2 = (begin store genesis).2 := by
  unfold attach
  split
  · exact .inl rfl
  split
  · exact .inl rfl
  rcases begin store genesis with ⟨heads, s⟩
  rcases heads with ⟨block, header⟩ | e | w
  · dsimp only
    split <;> exact .inr rfl
  · exact .inr rfl
  · exact .inr rfl

/-- The chain that stands on a store once its heads are known. -/
def placed (store : Store) (genesis : Header) (settings : Settings) (heads : Header × Header) :
    Chain where
  store := store
  genesis := genesis
  gate := settings.gate
  rule := .retarget settings.retarget
  headBlock := heads.1
  headHeader := heads.2
  eventCapacity := settings.eventCapacity.toNat
  tally := ({} : Tally).setHead heads.1.number

/-- A genesis that is not sealed at height zero is refused at once. -/
theorem attach_improper (store : Store) (checked : settings.check = .ok ())
    (improper : ¬ (genesis.number = 0 ∧ genesis.isSealed)) :
    attach store genesis settings
      = (.error (.validation (.hashMismatch genesis.number)), store) := by
  have refused : genesis.number ≠ 0 ∨ ¬ genesis.isSealed := not_and_or.mp improper
  unfold attach
  simp only [checked, if_pos refused]

section Proper

variable (checked : settings.check = .ok ()) (number : genesis.number = 0)
  (is_sealed : genesis.isSealed)
include checked number is_sealed

/-- With the heads found, only the room for events is left to be made, -/
theorem attach_of_begin {heads : Header × Header}
    (begun : begin store genesis = (.ok heads, s)) :
    attach store genesis settings
      = (if greatestChannel < settings.eventCapacity.toNat then .fault .capacityOverflow
          else .ok (placed s genesis settings heads), s) := by
  have proper : ¬ (genesis.number ≠ 0 ∨ ¬ genesis.isSealed) := by simp [number, is_sealed]
  unfold attach
  simp only [checked, if_neg proper, begun]
  split <;> rfl

/-- and heads that cannot be found are the end of it. -/
theorem attach_of_begin_error {e : ChainError} (failed : begin store genesis = (.error e, s)) :
    attach store genesis settings = (.error e, s) := by
  have proper : ¬ (genesis.number ≠ 0 ∨ ¬ genesis.isSealed) := by simp [number, is_sealed]
  unfold attach
  simp only [checked, if_neg proper, failed]

end Proper

/-- A chain that comes about on a store is placed there. -/
theorem eq_placed_of_attach (attached : attach store genesis settings = (.ok c, s)) :
    ∃ heads, c = placed s genesis settings heads := by
  obtain ⟨checked, number, is_sealed, begun, -⟩ := attach_eq_ok attached
  have opened := attach_of_begin checked number is_sealed begun
  rw [attached] at opened
  split at opened
  · cases opened
  · exact ⟨_, Outcome.ok.inj (congrArg Prod.fst opened)⟩

/-- A store that names no head is begun with the genesis. -/
theorem begin_blank (blank : store.rows.headBlock? = .ok none) :
    begin store genesis = (.ok (genesis, genesis), store.commit (genesisBatch genesis)) := by
  unfold begin
  rw [blank]

/-! ### Beginning -/

/-- An empty store after a chain has begun on it. -/
def genesisStore (refusal : Nat → TierCall → Option String) (genesis : Header) : Store :=
  (Store.serve {} refusal).commit (genesisBatch genesis)

section Genesis

variable (refusal : Nat → TierCall → Option String)

theorem item?_genesisStore (genesis : Header) (hash : Hash) :
    (genesisStore refusal genesis).item? hash
      = if genesis.hash = hash then some ⟨genesis, genesis.difficulty⟩ else none := by
  unfold genesisStore
  rw [Store.item?_commit]
  have nothing : (Store.serve {} refusal).item? hash = none := rfl
  by_cases same : genesis.hash = hash <;> simp [Batch.item?, genesisBatch, same, nothing]

theorem canonical?_genesisStore (genesis : Header) (number : UInt64) :
    (genesisStore refusal genesis).canonical? number
      = if number = 0 then some genesis.hash else none := by
  unfold genesisStore
  have nothing : (Store.serve {} refusal).canonical? number = none := rfl
  have unfrozen : ¬ number.toNat < (Store.serve {} refusal).tier.items.length := Nat.not_lt_zero _
  rw [Store.canonical?_commit, if_neg unfrozen]
  by_cases zero : number = 0
  · simp [Batch.canonical?, genesisBatch, zero]
  · simp [Batch.canonical?, genesisBatch, zero, nothing, List.lookup_cons, beq_false_of_ne zero]

theorem lineage_genesisStore (number : genesis.number = 0) :
    (genesisStore refusal genesis).Lineage genesis [genesis] genesis := by
  refine .root number (Store.has_iff.mpr ⟨genesis.difficulty, ?_⟩)
  rw [item?_genesisStore, if_pos rfl]

/-- A store that holds the genesis and nothing else is rooted. -/
theorem rooted_genesisStore (number : genesis.number = 0) (is_sealed : genesis.isSealed)
    (mem : genesis ∈ pool) : (genesisStore refusal genesis).Rooted genesis pool := by
  have only {hash : Hash} {e : Frozen}
      (found : (genesisStore refusal genesis).item? hash = some e) :
      e = ⟨genesis, genesis.difficulty⟩ := by
    rw [item?_genesisStore] at found
    split at found
    · exact (Option.some.inj found).symm
    · cases found
  refine ⟨(Store.sound_empty.serve refusal).commit _, ?_, ?_, ?_⟩
  · intro hash e found
    rw [only found]
    exact mem
  · intro hash e found
    rw [only found]
    exact is_sealed
  · intro hash e found
    rw [only found]
    exact ⟨[genesis], lineage_genesisStore refusal number, by simp⟩

end Genesis

/-- On an empty store a chain begins with its genesis and nothing else. -/
theorem attach_empty_eq {refusal : Nat → TierCall → Option String}
    (h : attach (Store.serve {} refusal) genesis settings = (.ok c, s)) :
    c.store = genesisStore refusal c.genesis ∧ c.headBlock = c.genesis ∧
      c.headHeader = c.genesis := by
  obtain ⟨-, -, -, begun, rfl, rfl, -⟩ := attach_eq_ok h
  have empty : (Store.serve {} refusal).rows.headBlock? = .ok none := rfl
  obtain ⟨⟨block, header⟩, store⟩ :
      (c.genesis = c.headBlock ∧ c.genesis = c.headHeader) ∧
        genesisStore refusal c.genesis = c.store := by
    simpa [begin, empty, genesisStore] using begun
  exact ⟨store.symm, block.symm, header.symm⟩

/-- **A chain put on an empty store is sound.** -/
theorem sound_attach_empty {refusal : Nat → TierCall → Option String}
    (h : attach (Store.serve {} refusal) genesis settings = (.ok c, s)) (mem : genesis ∈ pool) :
    c.Sound pool := by
  obtain ⟨checked, number, is_sealed, -, -, genesis_eq, rule⟩ := attach_eq_ok h
  obtain ⟨store, block, header⟩ := attach_empty_eq h
  rw [← genesis_eq] at number is_sealed mem
  refine ⟨?_, ?_, ⟨_, check_retarget checked, rule⟩, ?_, header.trans block.symm, ?_, ?_, ?_⟩
  · rw [store]
    exact rooted_genesisStore refusal number is_sealed mem
  · rw [store]
    exact Store.alone_serve {} refusal
  · rw [store, block]
    refine ⟨[c.genesis], lineage_genesisStore refusal number, fun n => ?_⟩
    rw [canonical?_genesisStore]
    rcases zero : n.toNat with - | i
    · rw [if_pos (UInt64.toNat_inj.mp zero)]
      rfl
    · rw [if_neg (by rintro rfl; cases zero)]
      rfl
  · rw [store, block]
    exact Rows.headBlock?_commit _ _
  · rw [store, block]
    exact Rows.headHeader?_commit _ _
  · rw [store]
    exact Nat.zero_le _

/-- The chain that comes about on an empty store. -/
def opened (refusal : Nat → TierCall → Option String) (genesis : Header) (settings : Settings) :
    Chain where
  store := genesisStore refusal genesis
  genesis := genesis
  gate := settings.gate
  rule := .retarget settings.retarget
  headBlock := genesis
  headHeader := genesis
  eventCapacity := settings.eventCapacity.toNat
  tally := ({} : Tally).setHead genesis.number

/-- With settings in range and a sealed genesis of height zero a chain comes
about on every empty store. -/
theorem attach_empty (refusal : Nat → TierCall → Option String) (checked : settings.check = .ok ())
    (number : genesis.number = 0) (is_sealed : genesis.isSealed)
    (room : settings.eventCapacity.toNat ≤ greatestChannel) :
    attach (Store.serve {} refusal) genesis settings
      = (.ok (opened refusal genesis settings), genesisStore refusal genesis) := by
  have blank : (Store.serve {} refusal).rows.headBlock? = .ok none := rfl
  rw [attach_of_begin checked number is_sealed (begin_blank blank),
    if_neg (Nat.not_lt.mpr room)]
  rfl

/-! ### Opening again -/

namespace Sound

/-- While the tier answers, the canonical hash of height zero is that of the
genesis, -/
theorem answer_first (sound : c.Sound pool) (answers : c.store.tier.service.AnswersReads) :
    c.store.answer (c.store.rows.findCanonical? 0) = .ok (some c.genesis.hash) := by
  obtain ⟨path, l, canonical⟩ := sound.spine
  change c.store.answer (c.store.source.canonical? 0) = _
  rw [sound.rooted.sound.answer_canonical answers, canonical]
  exact congrArg (fun a? : Option Header => Outcome.ok (a?.map (·.hash))) l.getElem?_zero

/-- and the heads that a sound chain's store names are the head. -/
theorem answer_storedHeads (sound : c.Sound pool) (answers : c.store.tier.service.AnswersReads) :
    c.store.answer (storedHeads c.store.rows c.genesis c.headBlock.hash)
      = .ok (c.headBlock, c.headBlock) := by
  obtain ⟨path, l, -⟩ := sound.spine
  have first := sound.answer_first answers
  have head := sound.rooted.answer_header answers l.has
  have named := sound.headHeader?
  change c.store.answer (c.store.rows.findHeader? _) = _ at head
  unfold storedHeads
  rw [Store.answer_bind_of_ok answers (Store.answer_inChain_of_ok first)]
  simp only [ne_eq, not_true_eq_false, if_false]
  rw [Store.answer_bind_of_ok answers (Store.answer_inChain_of_ok head), named]
  rw [Store.answer_bind_of_ok answers (Store.answer_inChain_of_ok rfl)]
  dsimp only
  rw [Store.answer_bind_of_ok answers (Store.answer_inChain_of_ok head)]
  rfl

/-- On the store of a sound chain only the heads are left to read. -/
theorem begin_eq (sound : c.Sound pool) (genesis : Header) :
    begin c.store genesis
      = (c.store.answer (storedHeads c.store.rows genesis c.headBlock.hash), c.store) := by
  unfold begin
  rw [sound.headBlock?]

/-- Opening a chain again leaves its store as it is. -/
theorem attach_store_eq (sound : c.Sound pool) (settings : Settings) :
    (attach c.store c.genesis settings).2 = c.store := by
  rcases attach_store c.store c.genesis settings with same | same
  · exact same
  · rw [same, sound.begin_eq]

/-- A sound chain that is opened again stands on the same store with the same
head, also with calls refused. -/
theorem reopen_eq {c' : Chain} (sound : c.Sound pool)
    (h : attach c.store c.genesis settings = (.ok c', s)) :
    c'.store = c.store ∧ c'.genesis = c.genesis ∧ c'.headBlock = c.headBlock ∧
      c'.headHeader = c.headBlock := by
  obtain ⟨-, -, -, begun, store, genesis, -⟩ := attach_eq_ok h
  rw [sound.begin_eq] at begun
  obtain ⟨heads, rfl⟩ := Prod.mk.inj begun
  -- under refusals the heads found are those found under none, and these are the head
  have found := strict_storedHeads c.store.rows c.genesis c.headBlock.hash _ 0 _ heads
  have known := sound.answering.answer_storedHeads c.store.answersReads_answering
  obtain ⟨block, header⟩ := Prod.mk.inj (Outcome.ok.inj (found.symm.trans known))
  exact ⟨store, genesis, block, header⟩

/-- **Opening a sound chain again gives a sound chain**, also with calls refused. -/
theorem reopen {c' : Chain} (sound : c.Sound pool)
    (h : attach c.store c.genesis settings = (.ok c', s)) : c'.Sound pool := by
  obtain ⟨checked, -, -, -, -, -, rule⟩ := attach_eq_ok h
  obtain ⟨store, genesis, block, header⟩ := sound.reopen_eq h
  refine ⟨?_, ?_, ⟨_, check_retarget checked, rule⟩, ?_, header.trans block.symm, ?_, ?_, ?_⟩
  · rw [store, genesis]
    exact sound.rooted
  · rw [store]
    exact sound.alone
  · rw [store, genesis, block]
    exact sound.spine
  · rw [store, block]
    exact sound.headBlock?
  · rw [store, block]
    exact sound.headHeader?
  · rw [store, block]
    exact sound.frozen

end Sound

end Chain

end ForkChoice
