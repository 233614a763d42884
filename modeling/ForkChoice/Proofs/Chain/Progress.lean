/-
ForkChoice/Proofs/Chain/Progress.lean

What a chain keeps from one moment of a run to a later one.

Only an insertion stores headers or moves the head: after any other action a
sound chain `Rests` (`Sound.rests_act`).  An insertion stores headers under
hashes that led nowhere, so it changes nothing of what is stored either.  Along
a run every chain therefore `Succeeds` those before it: what was stored is still
stored, with the same total difficulty, and the frozen items of before are the
first ones of later (`Sound.succeeds_run`).

Every item that is frozen on the way is what its hash leads to, and a run starts
with no item frozen, so the store of a reached chain is archived
(`Reached.archived`).
-/
import ForkChoice.Proofs.Chain.Runs
import ForkChoice.Proofs.Store.Archive

namespace ForkChoice.Chain

variable {pool offered segment : List Header} {c c' c'' : Chain}

/-! ### Rests -/

/-- From one chain to the other no header was stored and the head stayed, but
stored headers may have been frozen. -/
structure Rests (c c' : Chain) : Prop where
  genesis : c'.genesis = c.genesis
  headBlock : c'.headBlock = c.headBlock
  item : ∀ hash, c'.store.item? hash = c.store.item? hash
  frozen : ∃ items, c'.store.tier.items = c.store.tier.items ++ items ∧
    ∀ item ∈ items, c.store.item? item.header.hash = some item

/-- Settings, counters and refusals have nothing to do with what is stored. -/
theorem rests_of_eq (genesis : c'.genesis = c.genesis) (headBlock : c'.headBlock = c.headBlock)
    (rows : c'.store.rows = c.store.rows) (items : c'.store.tier.items = c.store.tier.items) :
    c.Rests c' where
  genesis := genesis
  headBlock := headBlock
  item hash := by
    unfold Store.item? Store.frozen?
    rw [rows, items]
  frozen := ⟨[], by rw [items, List.append_nil], List.forall_mem_nil _⟩

theorem Sound.rests_freeze (sound : c.Sound pool) (keepRecent : UInt64) :
    c.Rests (c.freeze keepRecent).2 := by
  obtain ⟨limit, -, same⟩ := c.freeze_eq keepRecent
  rw [same]
  rcases frozen : c.store.freeze limit with ⟨result, store⟩
  obtain ⟨same, -, -, -⟩ := Store.freeze_spec sound.rooted.sound sound.alone frozen
  exact ⟨rfl, rfl, same.item, Store.freeze_extends sound.rooted.sound sound.alone frozen⟩

/-- Freezing leaves the tier as willing as it was. -/
theorem Sound.service_freeze (sound : c.Sound pool) (keepRecent : UInt64) :
    (c.freeze keepRecent).2.store.tier.service = c.store.tier.service := by
  obtain ⟨limit, -, same⟩ := c.freeze_eq keepRecent
  rcases frozen : c.store.freeze limit with ⟨result, store⟩
  obtain ⟨-, -, service, -⟩ := Store.freeze_spec sound.rooted.sound sound.alone frozen
  rw [same, frozen]
  exact service

/-- Insertions do not touch the tier. -/
theorem tier_insert (c : Chain) (segment : List Header) :
    (c.insert segment).2.store.tier = c.store.tier :=
  (settings_insert c segment).2.2.2

/-- **Only insertions store headers or move the head.** -/
theorem Sound.rests_act (sound : c.Sound pool) {action : Action}
    (still : ∀ segment, action ≠ .insert segment) : c.Rests (c.act action) := by
  cases action with
  | insert segment => exact absurd rfl (still segment)
  | assess segment => exact rests_of_eq rfl rfl rfl rfl
  | freeze keepRecent => exact sound.rests_freeze keepRecent
  | enableGate enabled => exact rests_of_eq rfl rfl rfl rfl
  | setGate gate =>
    unfold Chain.act Chain.setGate
    dsimp only
    split <;> exact rests_of_eq rfl rfl rfl rfl
  | reopen settings =>
    unfold Chain.act
    dsimp only
    split
    · rename_i opened
      obtain ⟨store, genesis, headBlock, -⟩ := sound.reopen_eq opened
      exact rests_of_eq genesis headBlock (by rw [store]) (by rw [store])
    · rename_i store _ failed
      have same := sound.attach_store_eq settings
      rw [failed] at same
      change store = c.store at same
      rw [same]
      exact rests_of_eq rfl rfl rfl rfl
  | serve refusal => exact rests_of_eq rfl rfl rfl rfl

/-! ### Successions -/

/-- The second chain comes after the first: what was stored still is, with the
same total difficulty, and what was frozen still is.  What has been frozen since
is what its hash leads to. -/
structure Succeeds (c c' : Chain) : Prop where
  genesis : c'.genesis = c.genesis
  keeps : ∀ {hash e}, c.store.item? hash = some e → c'.store.item? hash = some e
  frozen : ∃ items, c'.store.tier.items = c.store.tier.items ++ items ∧
    ∀ item ∈ items, c'.store.item? item.header.hash = some item

namespace Succeeds

theorem refl (c : Chain) : c.Succeeds c where
  genesis := rfl
  keeps known := known
  frozen := ⟨[], (List.append_nil _).symm, List.forall_mem_nil _⟩

theorem trans (first : c.Succeeds c') (second : c'.Succeeds c'') : c.Succeeds c'' where
  genesis := second.genesis.trans first.genesis
  keeps known := second.keeps (first.keeps known)
  frozen := by
    obtain ⟨items, grown, filed⟩ := first.frozen
    obtain ⟨items', grown', filed'⟩ := second.frozen
    refine ⟨items ++ items', by rw [grown', grown, List.append_assoc], fun item mem => ?_⟩
    rcases List.mem_append.mp mem with mem | mem
    · exact second.keeps (filed item mem)
    · exact filed' item mem

/-- What is frozen stays the same at its height. -/
theorem getElem?_items (succeeds : c.Succeeds c') {i : Nat}
    (inside : i < c.store.tier.items.length) :
    c'.store.tier.items[i]? = c.store.tier.items[i]? := by
  obtain ⟨items, grown, -⟩ := succeeds.frozen
  rw [grown, List.getElem?_append_left inside]

/-- The frozen items never become fewer. -/
theorem length_items_le (succeeds : c.Succeeds c') :
    c.store.tier.items.length ≤ c'.store.tier.items.length := by
  obtain ⟨items, grown, -⟩ := succeeds.frozen
  rw [grown, List.length_append]
  exact Nat.le_add_right _ _

theorem archived (succeeds : c.Succeeds c') (archived : c.store.Archived) : c'.store.Archived := by
  intro item mem
  obtain ⟨items, grown, filed⟩ := succeeds.frozen
  rw [grown] at mem
  rcases List.mem_append.mp mem with old | new
  · exact succeeds.keeps (archived item old)
  · exact filed item new

end Succeeds

theorem Rests.succeeds (rests : c.Rests c') : c.Succeeds c' where
  genesis := rests.genesis
  keeps known := (rests.item _).trans known
  frozen := by
    obtain ⟨items, grown, filed⟩ := rests.frozen
    exact ⟨items, grown, fun item mem => (rests.item _).trans (filed item mem)⟩

/-- The rows of a segment are for headers that were not stored. -/
theorem Storable.fresh_rows {x : Candidate} {a : Header} {trunk branch spine : List Header}
    (storable : Storable pool c x trunk a branch spine) :
    ∀ r ∈ headerRows x (c.reckoning x trunk a branch spine), c.store.item? r.1.hash = none := by
  intro r mem
  rw [headerRows_reckoning] at mem
  exact storable.fresh _ (fst_mem_of_mem_ascent mem)

theorem Inserted.succeeds (inserted : Inserted pool c c') : c.Succeeds c' := by
  have unfrozen : ∃ items : List Frozen, c.store.tier.items = c.store.tier.items ++ items ∧
      ∀ item ∈ items, c'.store.item? item.header.hash = some item :=
    ⟨[], (List.append_nil _).symm, List.forall_mem_nil _⟩
  cases inserted with
  | nothing => exact .refl c
  | sideChain storable _ =>
    exact ⟨rfl, Store.item?_commit_of_fresh storable.fresh_rows, unfrozen⟩
  | headSwitch storable _ =>
    exact ⟨rfl, Store.item?_commit_of_fresh storable.fresh_rows, unfrozen⟩

/-- **No action undoes what is stored or frozen.** -/
theorem Sound.succeeds_act (sound : c.Sound pool) (free : CollisionFree pool) (action : Action)
    (known : ∀ h ∈ action.headers, h ∈ pool) : c.Succeeds (c.act action) := by
  cases action with
  | insert segment =>
    obtain ⟨tally, inserted⟩ := sound.inserted free known
    have counted : c.Rests { c with tally } := rests_of_eq rfl rfl rfl rfl
    exact counted.succeeds.trans inserted.succeeds
  | _ => exact (sound.rests_act fun _ same => by cases same).succeeds

theorem Sound.succeeds_run (sound : c.Sound pool) (free : CollisionFree pool)
    (actions : List Action) (known : ∀ h ∈ actions.flatMap Action.headers, h ∈ pool) :
    c.Succeeds (c.run actions) :=
  sound.run_induction free actions known
    (fun sound known succeeds => succeeds.trans (sound.succeeds_act free _ known)) (.refl c)

/-- **The store of a reached chain is archived.** -/
theorem Reached.archived (reached : Reached offered c) (free : CollisionFree offered) :
    c.store.Archived := by
  refine reached.induction free (P := fun c => c.store.Archived)
    (fun sound known archived => (sound.succeeds_act free _ known).archived archived) ?_
  -- a chain begins with nothing frozen
  intro c refusal started _ _
  rw [started]
  exact List.forall_mem_nil _

/-! ### Samples -/

/-- A later child of the sample child, of less difficulty than the grandchild. -/
def sampleLater : Header := .sealWith 2 sampleChild.hash 1017 131136 0

/-- A sibling of the sample child, of less difficulty. -/
def sampleSibling : Header := .sealWith 1 sampleGenesis.hash 1015 131072 0

/-- The sample headers. -/
def samples : List Header :=
  [sampleGenesis, sampleChild, sampleGrandchild, sampleLater, sampleSibling]

theorem collisionFree_samples : CollisionFree samples := by
  have apart : (samples.map Header.hash).Nodup := by decide +kernel
  exact fun a ha b hb _ _ same => List.inj_on_of_nodup_map apart ha hb same

/-- The sample chain, grown by two headers. -/
def sampleGrown : Chain := sampleChain.run [.insert [sampleChild, sampleLater]]

theorem reached_sampleGrown : Reached [sampleGenesis, sampleChild, sampleLater] sampleGrown :=
  reached_sampleChain [.insert [sampleChild, sampleLater]]

/-- Two of its three headers can be frozen, and then the grandchild still takes
over: it forks off at the last frozen header. -/
theorem freeze_sampleGrown : (sampleGrown.freeze 0).2.headBlock = sampleLater ∧
    (sampleGrown.freeze 0).2.store.tier.items.map (·.header) = [sampleGenesis, sampleChild] ∧
    ((sampleGrown.freeze 0).2.run [.insert [sampleGrandchild]]).headBlock = sampleGrandchild := by
  decide +kernel

theorem headBlock_sampleGrown :
    (sampleChain.insert [sampleChild, sampleLater]).2.headBlock = sampleLater := by
  have head := freeze_sampleGrown.1
  rw [headBlock_freeze, sampleGrown, run_insert] at head
  exact head

theorem answers_sampleGrown : sampleGrown.store.tier.service.AnswersReads := by
  rw [sampleGrown, run_insert, tier_insert]
  exact fun _ => ⟨rfl, fun _ => rfl⟩

theorem collisionFree_sampleGrandchild :
    CollisionFree ([sampleGenesis, sampleChild, sampleLater] ++ [sampleGrandchild]) :=
  collisionFree_samples.mono (by simp [samples])

/-- The grandchild alone is assessed as the one new header above the sample child. -/
theorem eq_of_assessment_sampleGrandchild {c : Chain} {x : Candidate} {found : Assessment}
    (sound : c.Sound ([sampleGenesis, sampleChild, sampleLater] ++ [sampleGrandchild]))
    (answered : c.store.answer (c.assessment [sampleGrandchild]) = .ok (some (x, found))) :
    x = ⟨0, sampleChild, sampleGrandchild, []⟩ := by
  obtain ⟨front, whole, prepared⟩ := sound.prepared_of_assessment answered
  obtain ⟨known, parent, first, rest⟩ := x
  obtain ⟨rfl, new⟩ : front = [] ∧ first :: rest = [sampleGrandchild] := by
    rcases List.singleton_eq_append_iff.mp whole with ⟨none_known, new⟩ | ⟨-, none_new⟩
    · exact ⟨none_known, new⟩
    · cases none_new
  obtain ⟨rfl, rfl⟩ := List.cons.inj new
  obtain rfl : known = 0 := prepared.known
  -- one stored header has the hash of the parent
  obtain ⟨total, stored⟩ := Store.has_iff.mp prepared.parent
  obtain rfl : parent = sampleChild :=
    collisionFree_sampleGrandchild _ (sound.rooted.mem_pool stored) _ (by simp)
      (sound.rooted.is_sealed stored) (Header.isSealed_sealWith ..) prepared.link.symm
  rfl

/-- A chain with two of its three headers frozen assesses the grandchild.  Its path
parts from that of the head, its sibling, at the last frozen header. -/
theorem exists_fork_sampleGrandchild : ∃ (c : Chain) (found : Assessment),
    Reached [sampleGenesis, sampleChild, sampleLater] c ∧
      c.store.tier.service.AnswersReads ∧ c.headBlock = sampleLater ∧
      c.store.tier.items.map (·.header) = [sampleGenesis, sampleChild] ∧
      c.store.answer (c.assessment [sampleGrandchild])
        = .ok (some (⟨0, sampleChild, sampleGrandchild, []⟩, found)) ∧
      found.verdict = .headSwitch := by
  have answers : (sampleGrown.freeze 0).2.store.tier.service.AnswersReads := by
    rw [(reached_sampleGrown.sound collisionFree_sampleGrandchild.left).service_freeze]
    exact answers_sampleGrown
  obtain ⟨head, frozen, head'⟩ := freeze_sampleGrown
  have reached := reached_sampleGrown.freeze 0
  generalize (sampleGrown.freeze 0).2 = c at head frozen head' reached answers
  have moved : (c.insert [sampleGrandchild]).2.headBlock ≠ c.headBlock := by
    rw [head, ← run_insert, head']
    intro same
    exact absurd (congrArg Header.timestamp same) (by decide)
  obtain ⟨receipt, accepted, decided⟩ := exists_receipt_of_headBlock_ne moved
  obtain ⟨x, found, answered, switch, -⟩ := exists_assessment_of_receipt accepted decided
  obtain rfl := eq_of_assessment_sampleGrandchild
    (reached.sound_append collisionFree_sampleGrandchild) answered
  exact ⟨c, found, reached, answers, head, frozen, answered, switch⟩

end ForkChoice.Chain

