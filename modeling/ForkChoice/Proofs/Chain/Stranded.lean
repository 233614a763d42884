/-
ForkChoice/Proofs/Chain/Stranded.lean

What a finished freeze leaves in the hot rows.

A freeze starts from the end of the tier.  If an earlier one failed and the tier
refused to be cut back, the items it had added are in the tier and in the hot
rows; later freezes start above them, and nothing ever removes those rows.
`Chain.stranded` collects these items along a run.

Every action keeps account of them (`Sound.accounts_act`).  So after a freeze
that succeeds the hot rows have nothing of a frozen header unless it was
stranded, and of a stranded one they still have everything
(`freeze_settled`).  With no truncation refused nothing is stranded; otherwise
a finished freeze can leave duplicates (`freeze_leaves_duplicates`).
-/
import ForkChoice.Proofs.Chain.Failures
import ForkChoice.Proofs.Chain.Finality
import ForkChoice.Proofs.Store.Duplicates

namespace ForkChoice

namespace Chain

variable {pool offered segment stored trunk branch spine : List Header} {c c' : Chain}
  {x : Candidate} {a : Header} {left : List Frozen}

/-! ### Stranded items -/

/-- The items that an action leaves in the tier beside their hot rows. -/
def strandedBy (c : Chain) : Action → List Frozen
  | .freeze keepRecent =>
    c.store.strandedBy (c.freeze keepRecent).2.store (c.freeze keepRecent).1
  | _ => []

/-- The items that the actions of a run leave in the tier beside their hot rows. -/
def stranded (c : Chain) : List Action → List Frozen
  | [] => []
  | action :: actions => c.strandedBy action ++ (c.act action).stranded actions

/-! ### Insertions -/

namespace Storable

variable (storable : Storable pool c x trunk a branch spine)
include storable

/-- The rows of a segment are under different hashes. -/
theorem apart (free : CollisionFree pool) :
    ((headerRows x (c.reckoning x trunk a branch spine)).map (·.1.hash)).Nodup := by
  have distinct : x.headers.Nodup :=
    Store.nodup_of_heights (·.number.toNat) (x.parent.number.toNat + 1) fun _ _ =>
      Header.number_eq_of_linked storable.linked
  rw [headerRows_reckoning, ← Function.comp_def Header.hash, ← List.map_map, map_fst_ascent]
  refine distinct.map_on fun h mem h' mem' same => ?_
  obtain ⟨offered, is_sealed⟩ := storable.offered h mem
  obtain ⟨offered', is_sealed'⟩ := storable.offered h' mem'
  exact free h offered h' offered' is_sealed is_sealed' same

/-- The tip stands above the fork point. -/
theorem tip_above : a.number.toNat < x.tip.number.toNat := by
  have last : (branch ++ x.headers).getLast? = some x.tip := by
    unfold Candidate.headers Candidate.tip
    rw [List.getLast?_append, List.getLast?_cons, Option.some_or, List.getLastD_eq_getLast?]
  rw [List.getLast?_eq_getElem?] at last
  have height := storable.heights last
  omega

/-- A takeover touches no entry below the end of the tier. -/
theorem entries_above {n : UInt64}
    (frozen : n.toNat < c.store.tier.items.length) :
    (headSwitchBatch x (c.reckoning x trunk a branch spine)).canonical? n = none ∧
      n ∉ (headSwitchBatch x (c.reckoning x trunk a branch spine)).removed := by
  have high := storable.high
  have tip := storable.tip_above
  constructor
  · rw [storable.canonical?_headSwitchBatch, if_pos (by omega)]
  · intro mem
    obtain ⟨above, -⟩ := mem_heightsAbove.mp mem
    rw [UInt64.lt_iff_toNat_lt] at above
    omega

end Storable

/-- An insertion adds to the stored headers, and leaves hot what was hot. -/
theorem Inserted.accounts (inserted : Inserted pool c c') (sound : c.Sound pool)
    (free : CollisionFree pool) (archived : c.store.Archived)
    (accounts : c.store.Accounts stored left) : ∃ stored, c'.store.Accounts stored left := by
  cases inserted with
  | nothing => exact ⟨stored, accounts⟩
  | sideChain storable _ =>
    exact ⟨_, accounts.commit sound.rooted.sound archived storable.fresh_rows (storable.apart free)
      fun n _ => ⟨rfl, List.not_mem_nil⟩⟩
  | headSwitch storable _ =>
    exact ⟨_, accounts.commit sound.rooted.sound archived storable.fresh_rows (storable.apart free)
      fun n => storable.entries_above⟩

/-! ### Runs -/

/-- What a freeze strands does not depend on how its error is stated. -/
theorem strandedBy_freeze (c : Chain) (keepRecent : UInt64) :
    ∃ limit : UInt64, (c.freeze keepRecent).2.store = (c.store.freeze limit).2 ∧
      c.strandedBy (.freeze keepRecent)
        = c.store.strandedBy (c.store.freeze limit).2 (c.store.freeze limit).1 := by
  obtain ⟨limit, -, same⟩ := c.freeze_limit keepRecent
  refine ⟨limit, by rw [same], ?_⟩
  show c.store.strandedBy (c.freeze keepRecent).2.store (c.freeze keepRecent).1 = _
  rw [same]
  dsimp only
  rcases (c.store.freeze limit).1 with n | e | w <;> rfl

/-- Settings and openings leave the store as it is. -/
theorem Sound.store_act (sound : c.Sound pool) {action : Action}
    (kept : ∀ segment, action ≠ .insert segment)
    (unfrozen : ∀ keepRecent, action ≠ .freeze keepRecent)
    (served : ∀ refusal, action ≠ .serve refusal) : (c.act action).store = c.store := by
  cases action with
  | insert segment => exact absurd rfl (kept segment)
  | assess segment => rfl
  | freeze keepRecent => exact absurd rfl (unfrozen keepRecent)
  | enableGate enabled => rfl
  | setGate gate =>
    unfold Chain.act Chain.setGate
    dsimp only
    split <;> rfl
  | reopen settings =>
    unfold Chain.act
    dsimp only
    split
    · rename_i opened
      exact (sound.reopen_eq opened).1
    · rename_i store _ failed
      have same := sound.attach_store_eq settings
      rwa [failed] at same
  | serve refusal => exact absurd rfl (served refusal)

/-- **Every action keeps account** of the stored headers and the hot items. -/
theorem Sound.accounts_act (sound : c.Sound pool) (free : CollisionFree pool)
    (archived : c.store.Archived) (action : Action) (known : ∀ h ∈ action.headers, h ∈ pool)
    (accounts : c.store.Accounts stored left) :
    ∃ stored, (c.act action).store.Accounts stored (left ++ c.strandedBy action) := by
  have quiet (nothing : c.strandedBy action = []) (rows : (c.act action).store.rows = c.store.rows)
      (items : (c.act action).store.tier.items = c.store.tier.items) :
      ∃ stored, (c.act action).store.Accounts stored (left ++ c.strandedBy action) := by
    rw [nothing, List.append_nil]
    exact ⟨stored, accounts.congr rows items⟩
  cases action with
  | insert segment =>
    obtain ⟨tally, inserted⟩ := sound.inserted free known
    rw [show c.strandedBy (.insert segment) = [] from rfl, List.append_nil]
    exact inserted.accounts (sound.withTally tally) free archived accounts
  | freeze keepRecent =>
    obtain ⟨limit, store, stranded⟩ := c.strandedBy_freeze keepRecent
    rw [stranded]
    show ∃ stored, (c.freeze keepRecent).2.store.Accounts stored _
    rw [store]
    exact ⟨stored, accounts.freeze sound.rooted.sound archived sound.alone rfl⟩
  | serve refusal => exact quiet rfl rfl rfl
  | _ =>
    exact quiet rfl (congrArg Store.rows (sound.store_act nofun nofun nofun))
      (congrArg (fun s : Store => s.tier.items) (sound.store_act nofun nofun nofun))

theorem Sound.accounts_run (sound : c.Sound pool) (free : CollisionFree pool)
    (archived : c.store.Archived) (actions : List Action)
    (known : ∀ h ∈ actions.flatMap Action.headers, h ∈ pool)
    (accounts : c.store.Accounts stored left) :
    ∃ stored, (c.run actions).store.Accounts stored (left ++ c.stranded actions) := by
  induction actions generalizing c stored left with
  | nil => exact ⟨stored, by rwa [show c.stranded [] = [] from rfl, List.append_nil]⟩
  | cons action actions ih =>
    rw [List.flatMap_cons] at known
    have here (h : Header) (mem : h ∈ action.headers) : h ∈ pool :=
      known h (List.mem_append_left _ mem)
    obtain ⟨stored', accounts'⟩ := sound.accounts_act free archived action here accounts
    have later := ih (sound.act free action here)
      ((sound.succeeds_act free action here).archived archived)
      (fun h mem => known h (List.mem_append_right _ mem)) accounts'
    rwa [List.append_assoc] at later

/-- A chain begins with its genesis stored and nothing frozen. -/
theorem accounts_genesisStore (refusal : Nat → TierCall → Option String) (genesis : Header) :
    (genesisStore refusal genesis).Accounts [genesis] [] := by
  have empty : (Store.serve {} refusal).Accounts [] [] :=
    ⟨.refl _, List.forall_mem_nil _, List.forall_mem_nil _, .nil,
      fun {h} => ⟨fun mem => (by cases mem), fun has => (by cases has)⟩, rfl⟩
  exact empty.commit (b := genesisBatch genesis) (Store.sound_empty.serve refusal)
    (List.forall_mem_nil _) (List.forall_mem_singleton.mpr rfl) (List.nodup_singleton _)
    fun n below => absurd below (Nat.not_lt_zero _)

/-! ### Nothing stranded -/

/-- The action does not make the tier refuse to be cut back. -/
def Action.Truncates : Action → Prop
  | .serve refusal => Service.Truncates { refusal }
  | _ => True

/-- As long as the tier does not refuse to be cut back, it goes on so. -/
theorem Sound.truncates_act (sound : c.Sound pool) {action : Action}
    (truncates : c.store.tier.service.Truncates) (next : action.Truncates) :
    (c.act action).store.tier.service.Truncates := by
  have quiet (same : (c.act action).store = c.store) :
      (c.act action).store.tier.service.Truncates := by rwa [same]
  cases action with
  | insert segment =>
    show (c.insert segment).2.store.tier.service.Truncates
    rwa [tier_insert]
  | freeze keepRecent =>
    show (c.freeze keepRecent).2.store.tier.service.Truncates
    rwa [sound.service_freeze]
  | serve refusal => exact next
  | _ => exact quiet (sound.store_act nofun nofun nofun)

/-- **Without a refused truncation nothing is stranded.** -/
theorem Sound.stranded_eq_nil (sound : c.Sound pool) (free : CollisionFree pool)
    (actions : List Action) (known : ∀ h ∈ actions.flatMap Action.headers, h ∈ pool)
    (truncates : c.store.tier.service.Truncates) (next : ∀ action ∈ actions, action.Truncates) :
    c.stranded actions = [] := by
  induction actions generalizing c with
  | nil => rfl
  | cons action actions ih =>
    rw [List.flatMap_cons] at known
    have here (h : Header) (mem : h ∈ action.headers) : h ∈ pool :=
      known h (List.mem_append_left _ mem)
    obtain ⟨now, next⟩ := List.forall_mem_cons.mp next
    have nothing : c.strandedBy action = [] := by
      cases action with
      | freeze keepRecent =>
        obtain ⟨limit, -, stranded⟩ := c.strandedBy_freeze keepRecent
        rw [stranded]
        exact Store.strandedBy_eq_nil sound.rooted.sound sound.alone rfl truncates
      | _ => rfl
    unfold stranded
    rw [nothing, List.nil_append]
    exact ih (sound.act free action here) (fun h mem => known h (List.mem_append_right _ mem))
      (sound.truncates_act truncates now) next

/-! ### Finished freezes -/

/-- A frozen header is the canonical one of its height, while the tier answers. -/
theorem Sound.answering_canonicalHeader? (sound : c.Sound pool) (archived : c.store.Archived)
    {number : UInt64} {item : Frozen} (frozen : c.store.tier.items[number.toNat]? = some item) :
    c.answering.store.answer (c.answering.store.source.canonicalHeader? number)
      = .ok (some item.header) := by
  have found : c.answering.store.item? item.header.hash = some item :=
    archived item (List.mem_of_getElem? frozen)
  have named : c.answering.store.canonical? number = some item.header.hash :=
    Store.canonical?_of_frozen frozen
  rw [sound.answering.rooted.sound.answer_canonicalHeader c.store.answersReads_answering, named,
    Option.bind_some, found]
  rfl

/-- What stands where once `n` headers are frozen, some of which were stranded on
the way: the canonical headers below height `n` are frozen, and the hot rows have
everything of those that were stranded and nothing of the others. -/
structure Settled (c : Chain) (n : Nat) (stranded : List Frozen) : Prop where
  count : c.store.tier.items.length = n
  canonical : ∀ number : UInt64, number.toNat < n →
    ∃ item, c.store.tier.items[number.toNat]? = some item ∧
      c.answering.store.answer (c.answering.store.source.canonicalHeader? number)
        = .ok (some item.header) ∧
      (item ∈ stranded → c.store.rows.Names number item.header.hash item) ∧
      (item ∉ stranded → ¬ c.store.rows.Mentions item.header)
  within : stranded.Sublist c.store.tier.items
  size : ∃ stored : List Header, stored.Nodup ∧ (∀ h, h ∈ stored ↔ c.store.Stores h) ∧
    c.store.rows.size + n = stored.length + stranded.length

/-- Accounts of a chain say what stands where. -/
theorem Sound.settled (sound : c.Sound pool) (archived : c.store.Archived)
    (accounts : c.store.Accounts stored left) : c.Settled c.store.tier.items.length left where
  count := rfl
  canonical number below := by
    have at_number := List.getElem?_eq_getElem below
    have mem := List.mem_of_getElem? at_number
    have height := UInt64.toNat_inj.mp (sound.rooted.sound.height_eq at_number)
    refine ⟨_, at_number, sound.answering_canonicalHeader? archived at_number, fun hot => ?_,
      fun out => (accounts.cold _ mem out).not_mentions sound.rooted.sound⟩
    have names := (accounts.hot _ hot).names sound.rooted.sound
    rwa [height] at names
  within := accounts.within
  size := ⟨stored, accounts.distinct,
    fun _ => accounts.mem_stored.trans (archived.stores_iff sound.rooted.sound).symm,
    accounts.size⟩

/-- A freeze that succeeds strands nothing more. -/
theorem Sound.settled_freeze {keepRecent : UInt64} {n : Nat} (sound : c.Sound pool)
    (free : CollisionFree pool) (archived : c.store.Archived)
    (accounts : c.store.Accounts stored left) (frozen : c.freeze keepRecent = (.ok n, c')) :
    c'.Settled n left := by
  have after : c.act (.freeze keepRecent) = c' := congrArg Prod.snd frozen
  have offers : ∀ h ∈ (Action.freeze keepRecent).headers, h ∈ pool := List.forall_mem_nil _
  have sound' := sound.act free (.freeze keepRecent) offers
  have archived' := (sound.succeeds_act free (.freeze keepRecent) offers).archived archived
  obtain ⟨stored', accounts'⟩ :=
    sound.accounts_act free archived (.freeze keepRecent) offers accounts
  have nothing : c.strandedBy (.freeze keepRecent) = [] := by
    show c.store.strandedBy (c.freeze keepRecent).2.store (c.freeze keepRecent).1 = []
    rw [frozen]
    rfl
  have length : c'.store.tier.items.length = n := by
    obtain ⟨limit, -, same⟩ := c.freeze_limit keepRecent
    rcases result : c.store.freeze limit with ⟨r, s⟩
    rw [frozen, result] at same
    rcases r with m | e | w <;> cases same
    exact Store.length_of_freeze sound.rooted.sound sound.alone result
  rw [after] at sound' archived' accounts'
  rw [nothing, List.append_nil] at accounts'
  exact length ▸ sound'.settled archived' accounts'

/-- **What a finished freeze leaves hot.**  In a run from an empty store, with any
calls of the tier refused on the way, after a freeze that succeeds the hot rows
have nothing of the frozen headers but of those that were stranded by a failed
freeze before; and if no truncation was refused there are none of these. -/
theorem freeze_settled {refusal : Nat → TierCall → Option String} {genesis : Header}
    {settings : Settings} {begun : Chain} {store : Store} {keepRecent : UInt64} {n : Nat}
    (attached : attach (Store.serve {} refusal) genesis settings = (.ok begun, store))
    (actions : List Action) (free : CollisionFree (genesis :: actions.flatMap Action.headers))
    (frozen : (begun.run actions).freeze keepRecent = (.ok n, c)) :
    c.Settled n (begun.stranded actions) ∧
      (Service.Truncates { refusal } → (∀ action ∈ actions, action.Truncates) →
        begun.stranded actions = []) := by
  have reached : Reached (genesis :: actions.flatMap Action.headers) (begun.run actions) :=
    ⟨refusal, genesis, settings, begun, store, actions, attached, rfl, rfl⟩
  have start : begun.Sound (genesis :: actions.flatMap Action.headers) :=
    sound_attach_empty attached List.mem_cons_self
  have known (h : Header) (mem : h ∈ actions.flatMap Action.headers) :
      h ∈ genesis :: actions.flatMap Action.headers := List.mem_cons_of_mem _ mem
  obtain ⟨started, -, -⟩ := attach_empty_eq attached
  have sound := reached.sound free
  have archived := reached.archived free
  constructor
  · obtain ⟨stored, accounts⟩ := start.accounts_run free
      (started ▸ List.forall_mem_nil _) actions known (started ▸ accounts_genesisStore refusal _)
    rw [List.nil_append] at accounts
    exact sound.settled_freeze free archived accounts frozen
  · intro truncates next
    refine start.stranded_eq_nil free actions known ?_ next
    rw [started]
    exact truncates

/-- The second append of a freeze is refused, and so is the truncation after it; then
the tier answers again. -/
def sampleFaults : List Action :=
  [.serve fun _ call => if call = .append 1 ∨ call = .truncate 0 then some "busy" else none,
    .freeze 0, .serve fun _ _ => none]

/-- The grown sample chain after these faults. -/
def sampleStuck : Chain := sampleGrown.run sampleFaults

theorem reached_sampleStuck : Reached [sampleGenesis, sampleChild, sampleLater] sampleStuck :=
  reached_sampleGrown.run sampleFaults

theorem freeze_sampleStuck : sampleStuck.headBlock = sampleLater ∧
    sampleStuck.store.tier.items.map (·.header) = [sampleGenesis] ∧
    (sampleStuck.freeze 0).2.store.tier.items.map (·.header) = [sampleGenesis, sampleChild] ∧
    (sampleStuck.freeze 0).2.store.rows.size = 2 ∧
    (sampleStuck.freeze 0).2.store.rows.headers.contains sampleGenesis.hash.bytes = true := by
  decide +kernel

theorem collisionFree_stuck : CollisionFree [sampleGenesis, sampleChild, sampleLater] :=
  collisionFree_samples.mono (by simp [samples])

theorem answers_sampleStuck : sampleStuck.store.tier.service.Answers := by
  have last (c : Chain) : (c.run sampleFaults).store.tier.service = {} := rfl
  unfold sampleStuck
  rw [last]
  exact fun _ _ => rfl

/-- The next freeze succeeds. -/
theorem exists_freeze_sampleStuck : ∃ c, sampleStuck.freeze 0 = (.ok 2, c) := by
  have sound := reached_sampleStuck.sound collisionFree_stuck
  obtain ⟨head, items, -⟩ := freeze_sampleStuck
  have length : sampleStuck.store.tier.items.length = 1 := by
    rw [← List.length_map (·.header), items]
    rfl
  have height : sampleStuck.headBlock.number.toNat = 2 := by
    rw [head]
    rfl
  have result := sound.freeze_ok answers_sampleStuck 0
  rw [length, height] at result
  rcases frozen : sampleStuck.freeze 0 with ⟨r, c⟩
  rw [frozen] at result
  exact ⟨c, congrArg (·, c) (result (by decide))⟩

/-- Once the tier answers again a freeze succeeds, and leaves hot what was
stranded. -/
theorem freeze_settled_sampleLater : ∃ c, sampleStuck.freeze 0 = (.ok 2, c) ∧
    c.Settled 2 (sampleChain.stranded (.insert [sampleChild, sampleLater] :: sampleFaults)) := by
  have attached : attach (Store.serve {} fun _ _ => none) sampleGenesis {}
      = (.ok sampleChain, genesisStore (fun _ _ => none) sampleGenesis) :=
    attach_empty _ rfl rfl (Header.isSealed_sealWith ..) (by decide)
  have whole (c : Chain) (first : Action) :
      c.run (first :: sampleFaults) = (c.run [first]).run sampleFaults := rfl
  obtain ⟨c, frozen⟩ := exists_freeze_sampleStuck
  have frozen' := frozen
  unfold sampleStuck sampleGrown at frozen'
  rw [← whole] at frozen'
  exact ⟨c, frozen, (freeze_settled attached (.insert [sampleChild, sampleLater] :: sampleFaults)
    collisionFree_stuck frozen').1⟩

/-- **A finished freeze can leave duplicates.**  The genesis is frozen, and the
canonical header of height zero; its row is still among the hot ones, of which
there are two where the three stored headers less the two frozen ones are one. -/
theorem freeze_leaves_duplicates : ∃ c, sampleStuck.freeze 0 = (.ok 2, c) ∧
    Reached [sampleGenesis, sampleChild, sampleLater] sampleStuck ∧
    c.answering.store.answer (c.answering.store.source.canonicalHeader? 0)
      = .ok (some sampleGenesis) ∧
    c.store.rows.Mentions sampleGenesis ∧
    c.store.rows.size = 2 ∧ c.store.tier.items.length = 2 := by
  have reached := reached_sampleStuck.freeze 0
  obtain ⟨c, frozen⟩ := exists_freeze_sampleStuck
  obtain ⟨-, -, items, size, hot⟩ := freeze_sampleStuck
  rw [frozen] at reached items size hot
  have sound := reached.sound collisionFree_stuck
  have archived := reached.archived collisionFree_stuck
  obtain ⟨item, first, same⟩ : ∃ item, c.store.tier.items[0]? = some item ∧
      item.header = sampleGenesis := by
    have mapped := congrArg (·[0]?) items
    rw [List.getElem?_map] at mapped
    exact Option.map_eq_some_iff.mp mapped
  have mentioned : c.store.rows.Mentions sampleGenesis :=
    .inl (Std.ExtTreeMap.mem_iff_contains.mpr hot)
  refine ⟨c, frozen, reached_sampleStuck, ?_, mentioned, size, ?_⟩
  · rw [← same]
    exact sound.answering_canonicalHeader? archived first
  · rw [← List.length_map (·.header), items]
    rfl

end Chain

end ForkChoice
