/-
ForkChoice/Proofs/Store/Freezing.lean

Freezing changes no answer.

A call of `Store.freeze` ends in one of the ways that `Freezes` lists.  If the
store is not as before, the tier has grown by canonical headers whose hot rows
are still there, because a failed migration could not be rolled back; or it has
grown and the hot rows of exactly the new items are gone.  Growing the tier by
`Ripe` items, the hot canonical headers of the next heights, keeps the contents
of a store (`sameContents_grow`), and so does retiring hot rows of items that
the tier holds (`sameContents_retireAll`).

The contents of a store are therefore the same after every call
(`freeze_spec`), and in a store built by batches and freezes every read has the
same answer before and after (`sameReads_freeze`).
-/
import ForkChoice.Proofs.Store.Answers
import ForkChoice.Proofs.Store.Migration

namespace ForkChoice

namespace Store

/-! ### Ripe headers -/

/-- A stored header at a height above the tier is in the hot rows. -/
theorem Sound.item?_of_unfrozen {s : Store} (sound : s.Sound) {hash : Hash} {e : Frozen}
    (found : s.item? hash = some e) (unfrozen : s.tier.items.length ≤ e.header.number.toNat) :
    s.rows.item? hash = some e := by
  rcases Option.or_eq_some_iff.mp found with hot | ⟨-, frozen⟩
  · exact hot
  · -- a frozen item lies at its own height, below the end of the tier
    obtain ⟨number, -, filed⟩ := Option.bind_eq_some_iff.mp frozen
    have at_number := (Option.filter_eq_some_iff.mp filed).1
    have height := sound.height_eq at_number
    have inside := (List.getElem?_eq_some_iff.mp at_number).1
    omega

/-- Items that may be frozen next: the hot canonical headers of the next
heights, with their total difficulties. -/
structure Ripe (s : Store) (items : List Frozen) : Prop where
  next : s.Next items
  canonical : ∀ item ∈ items, s.rows.canonical? item.header.number = some item.header.hash
  item : ∀ item ∈ items, s.rows.item? item.header.hash = some item

/-- What the index names is ripe. -/
theorem ripe_of_named {s : Store} (sound : s.Sound) {items : List Frozen}
    (named : s.rows.NamesFrom s.tier.items.length items) (next : s.Next items) : s.Ripe items := by
  have each (item : Frozen) (mem : item ∈ items) :
      s.rows.canonical? item.header.number = some item.header.hash ∧
        s.rows.item? item.header.hash = some item := by
    obtain ⟨i, bound, rfl⟩ := List.getElem_of_mem mem
    have here : items[i]? = some items[i] := List.getElem?_eq_getElem bound
    obtain ⟨hash, names⟩ := named i items[i] here
    rw [← next i items[i] here, UInt64.ofNat_toNat] at names
    have found : s.rows.item? hash = some items[i] := by
      unfold Rows.item?
      rw [names.header, names.total]
      rfl
    -- a header stands under its own hash
    rw [sound.legible.hash_eq found]
    exact ⟨congrArg found? names.canonical, found⟩
  exact ⟨next, fun item mem => (each item mem).1, fun item mem => (each item mem).2⟩

/-- The hot rows name what is ripe. -/
theorem Ripe.named {s : Store} {items : List Frozen} (ripe : s.Ripe items) (sound : s.Sound) :
    s.rows.NamesFrom s.tier.items.length items := by
  intro i item found
  have mem := List.mem_of_getElem? found
  refine ⟨item.header.hash, ?_⟩
  rw [← ripe.next i item found, UInt64.ofNat_toNat]
  constructor
  · rw [sound.legible.canonicalHash?_eq, ripe.canonical item mem]
  · rw [sound.legible.header?_eq, ripe.item item mem]
    rfl
  · rw [sound.legible.total?_eq, ripe.item item mem]
    rfl

/-- **A freeze of ripe headers succeeds** if the tier answers. -/
theorem freeze_of_ripe {s : Store} {limit : UInt64} {items : List Frozen} (sound : s.Sound)
    (answers : s.tier.service.Answers) (alone : s.tier.service.Alone)
    (room : limit.toNat - s.tier.items.length ≤ greatestBatch) (ripe : s.Ripe items)
    (length : items.length = limit.toNat - s.tier.items.length) :
    (s.freeze limit).1 = .ok (max s.tier.items.length limit.toNat) := by
  rcases Nat.lt_or_ge s.tier.items.length limit.toNat with above | enough
  · rw [Nat.max_eq_right (Nat.le_of_lt above)]
    refine freeze_of_named answers alone above room length (ripe.named sound) ripe.next
      fun item mem => ?_
    rw [sound.legible.canonicalHash?_eq, ripe.canonical item mem]
  · have counted : s.tier.count 0 = .ok s.tier.items.length := by
      unfold Tier.count Tier.call
      rw [answers]
    rw [Nat.max_eq_left enough]
    unfold freeze
    rw [counted]
    dsimp only
    rw [if_pos enough]

/-! ### Growing the tier -/

theorem Sound.grow {s : Store} (sound : s.Sound) {items : List Frozen} (next : s.Next items) :
    (s.grow items).Sound where
  legible := sound.legible
  height_eq {i item} found := by
    rcases Nat.lt_or_ge i s.tier.items.length with old | new
    · rw [show (s.grow items).tier.items[i]? = s.tier.items[i]? from
        List.getElem?_append_left old] at found
      exact sound.height_eq found
    · rw [show (s.grow items).tier.items[i]? = items[i - s.tier.items.length]? from
        List.getElem?_append_right new] at found
      rw [next _ _ found]
      omega

/-- A frozen copy of a hot header changes no answer. -/
theorem sameContents_grow {s : Store} {items : List Frozen} (ripe : s.Ripe items) :
    s.SameContents (s.grow items) where
  item hash := by
    show (s.rows.item? hash).or ((s.grow items).frozen? hash)
      = (s.rows.item? hash).or (s.frozen? hash)
    rcases hot : s.rows.item? hash with - | e
    · -- no new item has this hash, since each of them has a hot row
      show (s.rows.height? hash).bind _ = (s.rows.height? hash).bind _
      rcases s.rows.height? hash with - | number
      · rfl
      show (s.tier.items ++ items)[number.toNat]?.filter _ = s.tier.items[number.toNat]?.filter _
      rcases Nat.lt_or_ge number.toNat s.tier.items.length with old | new
      · rw [List.getElem?_append_left old]
      · rw [List.getElem?_append_right new, List.getElem?_eq_none new, Option.filter_none,
          Option.filter_eq_none_iff]
        intro item found same
        have stored := ripe.item item (List.mem_of_getElem? found)
        rw [of_decide_eq_true same, hot] at stored
        cases stored
    · rfl
  canonical number := by
    show (if number.toNat < (s.tier.items ++ items).length
        then (s.tier.items ++ items)[number.toNat]?.map (·.header.hash)
        else s.rows.canonical? number)
      = if number.toNat < s.tier.items.length then s.tier.items[number.toNat]?.map (·.header.hash)
        else s.rows.canonical? number
    rcases Nat.lt_or_ge number.toNat s.tier.items.length with old | new
    · rw [if_pos old, if_pos (by rw [List.length_append]; omega), List.getElem?_append_left old]
    · rw [if_neg (by omega : ¬ number.toNat < s.tier.items.length)]
      split
      · -- a new item answers for its height, where the hot index has its hash
        rename_i inside
        rw [List.length_append] at inside
        have bound : number.toNat - s.tier.items.length < items.length := by omega
        have found := List.getElem?_eq_getElem bound
        have height := ripe.next _ _ found
        have at_number : items[number.toNat - s.tier.items.length].header.number = number := by
          apply UInt64.toNat_inj.mp
          rw [height]
          omega
        have canonical := ripe.canonical _ (List.getElem_mem bound)
        rw [at_number] at canonical
        rw [List.getElem?_append_right new, found, canonical]
        rfl
      · rfl
  headBlock := rfl
  headHeader := rfl

/-! ### Retiring hot rows -/

/-- The tier holds an item, and the store has the same under its hash. -/
def Holds (s : Store) (item : Frozen) : Prop :=
  s.tier.items[item.header.number.toNat]? = some item ∧ s.item? item.header.hash = some item

theorem sameContents_retire {s : Store} {rows : Rows} {item : Frozen} (sound : s.Sound)
    (holds : s.Holds item) (retired : s.rows.retire item.header = .ok rows) :
    s.SameContents { s with rows } where
  item hash := by
    obtain ⟨inTier, stored⟩ := holds
    have heights : rows.height? = s.rows.height? := by
      unfold Rows.height? Rows.number?
      rw [Rows.numbers_retire retired]
    show (rows.item? hash).or ((rows.height? hash).bind _) = (s.rows.item? hash).or (s.frozen? hash)
    rw [Rows.item?_retire retired, heights]
    by_cases same : item.header.hash = hash
    · subst same
      rw [if_pos rfl, Option.none_or]
      rcases hot : s.rows.item? item.header.hash with - | e
      · rfl
      · -- the hot row was this item, so the height kept for it leads to the tier's copy
        have e_eq : e = item := by
          unfold item? at stored
          rw [hot] at stored
          exact Option.some.inj stored
        subst e_eq
        rw [sound.legible.height?_eq hot]
        simp [inTier]
    · rw [if_neg same]
      rfl
  canonical number := by
    show (if number.toNat < s.tier.items.length
        then s.tier.items[number.toNat]?.map (·.header.hash) else rows.canonical? number)
      = if number.toNat < s.tier.items.length
        then s.tier.items[number.toNat]?.map (·.header.hash) else s.rows.canonical? number
    split
    · rfl
    · -- a hot index entry is read above the tier only, and the removed one lies below
      rename_i above
      have frozen : item.header.number.toNat < s.tier.items.length :=
        (List.getElem?_eq_some_iff.mp holds.1).1
      have other : item.header.number ≠ number := by
        rintro rfl
        exact above frozen
      rw [Rows.canonical?_retire retired, if_neg other]
  headBlock := by
    show rows.metadata.read? _ _ = _
    rw [Rows.metadata_retire retired]
    rfl
  headHeader := by
    show rows.metadata.read? _ _ = _
    rw [Rows.metadata_retire retired]
    rfl

/-- Hot rows of items that the tier holds are not needed. -/
theorem sameContents_retireAll {s : Store} {rows : Rows} {items : List Frozen} (sound : s.Sound)
    (holds : ∀ item ∈ items, s.Holds item) (retired : s.rows.retireAll items = .ok rows) :
    s.SameContents { s with rows } ∧ ({ s with rows } : Store).Sound := by
  induction items generalizing s with
  | nil =>
    cases retired
    exact ⟨.refl s, sound⟩
  | cons item items ih =>
    obtain ⟨rows₁, first, others⟩ := except_bind_eq_ok retired
    have same := sameContents_retire sound (holds item List.mem_cons_self) first
    have sound₁ : ({ s with rows := rows₁ } : Store).Sound :=
      ⟨sound.legible.retire first, sound.height_eq⟩
    have holds₁ (other : Frozen) (mem : other ∈ items) :
        ({ s with rows := rows₁ } : Store).Holds other :=
      have ⟨inTier, stored⟩ := holds other (List.mem_cons_of_mem _ mem)
      ⟨inTier, (same.item _).trans stored⟩
    obtain ⟨rest, sound₂⟩ := ih sound₁ holds₁ others
    exact ⟨same.trans rest, sound₂⟩

/-! ### Freezing -/

/-- Moving ripe items from the hot rows into the tier changes no answer. -/
theorem sameContents_move {s : Store} {rows : Rows} {items : List Frozen} (sound : s.Sound)
    (ripe : s.Ripe items) (retired : s.rows.retireAll items = .ok rows) :
    s.SameContents { s.grow items with rows } ∧ ({ s.grow items with rows } : Store).Sound := by
  -- every item whose hot rows go lies in the tier by now
  have holds (item : Frozen) (mem : item ∈ items) : (s.grow items).Holds item := by
    obtain ⟨i, bound, rfl⟩ := List.getElem_of_mem mem
    refine ⟨?_, ?_⟩
    · show (s.tier.items ++ items)[_]? = _
      rw [ripe.next i items[i] (List.getElem?_eq_getElem bound),
        List.getElem?_append_right (Nat.le_add_right _ _), Nat.add_sub_cancel_left,
        List.getElem?_eq_getElem bound]
    · show (s.rows.item? _).or _ = _
      rw [ripe.item _ mem]
      rfl
  obtain ⟨same, moved⟩ :=
    sameContents_retireAll (s := s.grow items) (sound.grow ripe.next) holds retired
  exact ⟨(sameContents_grow ripe).trans same, moved⟩

/-- The two ways in which a freeze without a rival grows the tier.  If it succeeds
the hot rows of the new items are gone; if not they are still there, and unless
the tier refuses to be cut back there are no new items. -/
theorem freeze_cases {s s' : Store} {limit : UInt64} {result : Outcome StoreError Nat}
    (sound : s.Sound) (alone : s.tier.service.Alone) (h : s.freeze limit = (result, s')) :
    ∃ items, s.Ripe items ∧
      s.tier.items.length + items.length ≤ max s.tier.items.length limit.toNat ∧
      ((∃ rows, result = .ok (s.tier.items.length + items.length) ∧
          s.rows.retireAll items = .ok rows ∧ s' = { s.grow items with rows }) ∨
        ((∀ n, result ≠ .ok n) ∧ s' = s.grow items ∧
          (s.tier.service.Truncates → items = []))) := by
  have ends := s.freezes limit
  rw [h] at ends
  have nothing : s.Ripe [] := ⟨fun i item found => by simp at found, List.forall_mem_nil _,
    List.forall_mem_nil _⟩
  cases ends with
  | enough _ =>
    exact ⟨[], nothing, Nat.le_max_left _ _, .inl ⟨s.rows, rfl, rfl, s.grow_nil.symm⟩⟩
  | crowded _ =>
    exact ⟨[], nothing, Nat.le_max_left _ _,
      .inr ⟨fun n same => (by cases same), s.grow_nil.symm, fun _ => rfl⟩⟩
  | failed e length named part next undone =>
    -- what is left is a front of what was begun
    obtain ⟨more, rfl⟩ := part
    rw [List.length_append] at length
    exact ⟨_, ripe_of_named sound named.of_append next, by omega,
      .inr ⟨fun n same => (by cases same), appended_eq_grow alone _ _, undone⟩⟩
  | done above length named next retired =>
    rw [Rows.overwrite_of_none _ alone] at retired
    exact ⟨_, ripe_of_named sound named next, by omega,
      .inl ⟨_, by rw [length, Nat.add_sub_cancel' (Nat.le_of_lt above)], retired, rfl⟩⟩

/-- **Freezing changes no answer**: whether it succeeds, fails and is rolled
back, or fails and cannot be rolled back, the store says the same afterwards. -/
theorem freeze_spec {s s' : Store} {limit : UInt64} {result : Outcome StoreError Nat}
    (sound : s.Sound) (alone : s.tier.service.Alone) (h : s.freeze limit = (result, s')) :
    s.SameContents s' ∧ s'.Sound ∧ s'.tier.service = s.tier.service ∧
      s'.tier.items.length ≤ max s.tier.items.length limit.toNat := by
  obtain ⟨items, ripe, length, grown⟩ := freeze_cases sound alone h
  rw [← List.length_append] at length
  rcases grown with ⟨rows, -, retired, rfl⟩ | ⟨-, rfl, -⟩
  · obtain ⟨same, moved⟩ := sameContents_move sound ripe retired
    exact ⟨same, moved, rfl, length⟩
  · exact ⟨sameContents_grow ripe, sound.grow ripe.next, rfl, length⟩

/-- A freeze that succeeds gives the number of frozen items. -/
theorem length_of_freeze {s s' : Store} {limit : UInt64} {n : Nat} (sound : s.Sound)
    (alone : s.tier.service.Alone) (h : s.freeze limit = (.ok n, s')) :
    s'.tier.items.length = n := by
  obtain ⟨items, -, -, ⟨rows, result, -, rfl⟩ | ⟨failed, -, -⟩⟩ := freeze_cases sound alone h
  · cases result
    exact List.length_append
  · exact absurd rfl (failed n)

/-! ### Stores built by batches and freezes -/

/-- The store while its tier refuses the given calls, and no rival writes. -/
def serve (s : Store) (refusal : Nat → TierCall → Option String) : Store :=
  { s with tier := { s.tier with service := { refusal } } }

theorem alone_serve (s : Store) (refusal : Nat → TierCall → Option String) :
    (s.serve refusal).tier.service.Alone :=
  fun _ => rfl

/-- The store while its tier answers every call. -/
def answering (s : Store) : Store := s.serve fun _ _ => none

/-- What can be done to a store by itself.  While it freezes, its tier may
refuse any of the calls. -/
inductive Action where
  | commit (batch : Batch)
  | freeze (refusal : Nat → TierCall → Option String) (limit : UInt64)

/-- The store after an action. -/
def act (s : Store) : Action → Store
  | .commit batch => s.commit batch
  | .freeze refusal limit => ((s.serve refusal).freeze limit).2

/-- The store after a run of actions. -/
def run (s : Store) (actions : List Action) : Store := actions.foldl act s

theorem Sound.serve {s : Store} (sound : s.Sound) (refusal : Nat → TierCall → Option String) :
    (s.serve refusal).Sound :=
  ⟨sound.legible, sound.height_eq⟩

theorem Sound.act {s : Store} (sound : s.Sound) (action : Action) : (s.act action).Sound := by
  cases action with
  | commit batch => exact sound.commit batch
  | freeze refusal limit => exact (freeze_spec (sound.serve refusal) (s.alone_serve refusal) rfl).2.1

theorem Sound.run {s : Store} (sound : s.Sound) (actions : List Action) : (s.run actions).Sound := by
  induction actions generalizing s with
  | nil => exact sound
  | cons action actions ih => exact ih (sound.act action)

theorem sound_empty : Sound {} := ⟨.empty, fun found => by cases found⟩

/-! ### Answers before and after -/

/-- Two stores give the same answer to every read. -/
structure SameReads (s s' : Store) : Prop where
  header : ∀ hash, s.answer (s.source.header? hash) = s'.answer (s'.source.header? hash)
  total : ∀ hash, s.answer (s.source.total? hash) = s'.answer (s'.source.total? hash)
  hasHeader : ∀ hash, s.answer (s.rows.hasHeader hash) = s'.answer (s'.rows.hasHeader hash)
  canonical : ∀ number,
    s.answer (s.source.canonical? number) = s'.answer (s'.source.canonical? number)
  canonicalHeader : ∀ number,
    s.answer (s.source.canonicalHeader? number) = s'.answer (s'.source.canonicalHeader? number)
  headBlock : s.rows.headBlock? = s'.rows.headBlock?
  headHeader : s.rows.headHeader? = s'.rows.headHeader?

/-- Sound stores with the same contents give the same answers while their tiers
answer. -/
theorem SameContents.sameReads {s s' : Store} (same : s.SameContents s') (sound : s.Sound)
    (sound' : s'.Sound) (answers : s.tier.service.AnswersReads)
    (answers' : s'.tier.service.AnswersReads) : s.SameReads s' where
  header hash := by
    rw [sound.answer_header answers, sound'.answer_header answers', same.item]
  total hash := by
    rw [sound.answer_total answers, sound'.answer_total answers', same.item]
  hasHeader hash := by
    rw [sound.answer_hasHeader answers, sound'.answer_hasHeader answers', same.item]
  canonical number := by
    rw [sound.answer_canonical answers, sound'.answer_canonical answers', same.canonical]
  canonicalHeader number := by
    rw [sound.answer_canonicalHeader answers, sound'.answer_canonicalHeader answers',
      same.canonical, funext same.item]
  headBlock := same.headBlock.symm
  headHeader := same.headHeader.symm

/-- Whether the tier answers has nothing to do with the contents. -/
theorem sameContents_answering (s : Store) : s.SameContents s.answering :=
  ⟨fun _ => rfl, fun _ => rfl, rfl, rfl⟩

theorem answersReads_answering (s : Store) : s.answering.tier.service.AnswersReads :=
  fun _ => ⟨rfl, fun _ => rfl⟩

/-- **Freezing never changes what a store reads.**  In a store built from an
empty one by any batches and freezes, a further freeze up to any limit, with
any calls of the tier refused, leaves every answer as it was. -/
theorem sameReads_freeze (actions : List Action) (refusal : Nat → TierCall → Option String)
    (limit : UInt64) :
    (run {} actions).answering.SameReads
      (((run {} actions).serve refusal).freeze limit).2.answering := by
  have sound := sound_empty.run actions
  -- the calls are refused during the freeze, and answered while the store is read
  obtain ⟨same, sound', -, -⟩ := freeze_spec (sound.serve refusal) (alone_serve _ refusal)
    (rfl : ((run {} actions).serve refusal).freeze limit
      = ((((run {} actions).serve refusal).freeze limit).1, _))
  have same' : (run {} actions).answering.SameContents
      (((run {} actions).serve refusal).freeze limit).2.answering :=
    ⟨same.item, same.canonical, same.headBlock, same.headHeader⟩
  exact same'.sameReads (sound.serve _) (sound'.serve _) (answersReads_answering _)
    (answersReads_answering _)

end Store

end ForkChoice
