/-
ForkChoice/Proofs/Chain/Increase.lean

Total difficulties increase along every path, as far as they can.

Every header that a chain accepts has some difficulty, since the rule asks for
at least the least one of the chain, which is not zero (`Reached.weighty`).  So
each stored header but the genesis has more total difficulty than its parent.
But total difficulties stop at the greatest number of 128 bits, and a genesis
may begin there: then a child has no more than its parent (`totals_stall`).

A segment on top of the head is therefore heavier than the head unless the head
has the greatest total difficulty; nothing takes over from such a head
(`totals_increase`).
-/
import ForkChoice.Proofs.Chain.Confluence

namespace ForkChoice

/-! ### Sums that stop -/

/-- The total difficulty is more than another, or both are the greatest there is. -/
def Difficulty.Above (below total : Difficulty) : Prop :=
  below < total ∨ below = greatest ∧ total = greatest

/-- With more work comes more total difficulty, up to the greatest. -/
theorem Difficulty.above_capped {n m : Nat} (more : n < m) : (capped n).Above (capped m) := by
  unfold Above
  rw [lt_iff, Difficulty.ext_iff, Difficulty.ext_iff]
  simp only [toNat_capped, greatest]
  omega

/-- Below the greatest total difficulty only more is above. -/
theorem Difficulty.Above.lt {below total : Difficulty} (above : below.Above total)
    (small : below < greatest) : below < total := by
  rcases above with more | ⟨rfl, -⟩
  · exact more
  · exact absurd small (Nat.lt_irrefl _)

theorem Difficulty.not_greatest_lt (d : Difficulty) : ¬ greatest < d := by
  have := d.toNat_lt
  rw [lt_iff]
  simp only [greatest]
  omega

namespace Chain

variable {pool offered path spine front segment rest : List Header} {c c' : Chain}
  {x : Candidate} {h first : Header}

/-! ### Difficulties that are not zero -/

/-- Every stored header but the genesis has some difficulty. -/
def Weighty (c : Chain) : Prop :=
  ∀ h, c.store.Has h → h = c.genesis ∨ 0 < h.difficulty.toNat

/-- New headers that obey the rule have some difficulty. -/
theorem Prepared.positive (prepared : c.Prepared front x) (sound : c.Sound pool)
    (mem : h ∈ x.headers) : 0 < h.difficulty.toNat :=
  sound.positive_of_obeys (obey_eq_ok_iff.mp prepared.obeys) mem

/-- An insertion stores no header without difficulty. -/
theorem Sound.positive_insert (sound : c.Sound pool) (free : CollisionFree pool)
    (offered : ∀ h ∈ segment, h ∈ pool) (has : (c.insert segment).2.store.Has h) :
    c.store.Has h ∨ 0 < h.difficulty.toNat := by
  rcases c.accepted_or_untallied segment with ⟨receipt, ok⟩ | ⟨tally, same⟩
  · cases sound.accepted free offered ok with
    | held _ same =>
      rw [same] at has
      exact .inl has
    | stored _ prepared storable inserted =>
      rw [inserted] at ok has
      obtain ⟨b, rows, store⟩ := execute_eq_ok ok
      rw [store] at has
      exact ((storable.has_commit_iff sound free rows).mp has).imp_right (prepared.positive sound)
  · rw [same] at has
    exact .inl has

theorem Rests.weighty (rests : c.Rests c') (weighty : c.Weighty) : c'.Weighty := by
  intro h has
  rw [rests.genesis]
  exact weighty h (has.congr (rests.item h.hash).symm)

/-- **The headers of a reached chain have some difficulty**, the genesis apart. -/
theorem Reached.weighty (reached : Reached offered c) (free : CollisionFree offered) :
    c.Weighty := by
  refine reached.induction free (P := Weighty) (fun {c action} sound known weighty => ?_) ?_
  · cases action with
    | insert segment =>
      intro h has
      have genesis := (sound.succeeds_act free (.insert segment) known).genesis
      rw [genesis]
      exact (sound.positive_insert free known has).elim (weighty h) .inr
    | _ => exact (sound.rests_act fun _ same => by cases same).weighty weighty
  · -- a chain begins with its genesis alone
    intro c refusal started _ _ h has
    obtain ⟨total, found⟩ := Store.has_iff.mp has
    rw [started, item?_genesisStore] at found
    split at found
    · obtain ⟨⟩ := found
      exact .inl rfl
    · cases found

/-! ### Totals along a path -/

/-- A stored header but the genesis has more total difficulty than its parent, up
to the greatest. -/
theorem Sound.total_above (sound : c.Sound pool) (weighty : c.Weighty) (has : c.store.Has h)
    (other : h ≠ c.genesis) :
    ∃ p path, p.Precedes h ∧ c.store.Lineage c.genesis path p ∧
      c.store.item? h.hash = some ⟨h, .capped (work (path ++ [h]))⟩ ∧
      (Difficulty.capped (work path)).Above (.capped (work (path ++ [h]))) := by
  obtain ⟨path, l⟩ := sound.rooted.exists_lineage has
  have item := sound.rooted.item?_eq l
  cases l with
  | root => exact absurd rfl other
  | @step path p h l precedes _ =>
    have positive := (weighty h has).resolve_left other
    refine ⟨p, path, precedes, l, item, Difficulty.above_capped ?_⟩
    rw [work_append, work_cons]
    omega

/-! ### On top of the head -/

/-- Nothing takes over from a head of the greatest total difficulty. -/
theorem Sound.headBlock_insert_of_greatest (sound : c.Sound pool) (free : CollisionFree pool)
    (offered : ∀ h ∈ segment, h ∈ pool) (l : c.store.Lineage c.genesis spine c.headBlock)
    (full : Difficulty.capped (work spine) = .greatest) :
    (c.insert segment).2.headBlock = c.headBlock := by
  obtain ⟨tally, inserted⟩ := sound.inserted free offered
  generalize (c.insert segment).2 = c' at inserted ⊢
  cases inserted with
  | nothing => rfl
  | sideChain _ _ => rfl
  | headSwitch storable verdict =>
    have above := head_lt_tip verdict
    rw [← l.unique storable.fork.head, full] at above
    exact absurd above (Difficulty.not_greatest_lt _)

/-- Below the greatest total difficulty a header on top of the head is not stored:
it would be heavier than the head. -/
theorem Sound.not_has_of_follows (sound : c.Sound pool) (weighty : c.Weighty)
    (heaviest : c.Heaviest) (l : c.store.Lineage c.genesis spine c.headBlock)
    (below : Difficulty.capped (work spine) < .greatest)
    (follows : c.headBlock.follows first = .ok ()) : ¬ c.store.Has first := by
  intro has
  obtain ⟨number, link⟩ := Header.follows_eq_ok_iff.mp follows
  have other : first ≠ c.genesis := by
    rintro rfl
    rw [l.genesis_number] at number
    exact absurd number (Nat.succ_ne_zero _).symm
  obtain ⟨p, path, precedes, l', item, above⟩ := sound.total_above weighty has other
  obtain ⟨spine', head, top⟩ := heaviest
  have parent : p = c.headBlock := l'.has.unique l.has (precedes.link.symm.trans link)
  rw [parent] at l'
  rw [l'.unique l] at item above
  exact absurd (above.lt below) (Nat.not_lt.mpr (l.unique head ▸ top _ _ item))

/-- **An accepted segment on top of the head takes over**, unless the head has the
greatest total difficulty. -/
theorem Sound.headBlock_insert_of_follows {receipt : Receipt} (sound : c.Sound pool)
    (free : CollisionFree pool) (weighty : c.Weighty) (heaviest : c.Heaviest)
    (offered : ∀ h ∈ first :: rest, h ∈ pool)
    (l : c.store.Lineage c.genesis spine c.headBlock)
    (below : Difficulty.capped (work spine) < .greatest)
    (follows : c.headBlock.follows first = .ok ())
    (ok : (c.insert (first :: rest)).1 = .ok receipt) :
    (c.insert (first :: rest)).2.headBlock = rest.getLastD first := by
  have fresh := sound.not_has_of_follows weighty heaviest l below follows
  have accepted := sound.accepted free offered ok
  have is_sealed := (Segment.check_eq_ok_iff.mp accepted.checked).1 first List.mem_cons_self
  have unknown : ¬ (c.store.item? first.hash).isSome := fun stored =>
    fresh (sound.has_of_isSome free (offered first List.mem_cons_self) is_sealed stored)
  cases accepted with
  | held holds _ => exact absurd (holds.stored first List.mem_cons_self) unknown
  | @stored front x trunk branch spine' a whole prepared storable inserted =>
    -- none of the segment is stored, and its parent is the head
    rcases front with - | ⟨f, front⟩
    swap
    · obtain ⟨rfl, -⟩ := List.cons.inj whole
      exact absurd (prepared.stored _ List.mem_cons_self) unknown
    obtain ⟨rfl, rfl⟩ := List.cons.inj whole
    have parent : x.parent = c.headBlock := prepared.parent.unique l.has
      (prepared.link.symm.trans (Header.follows_eq_ok_iff.mp follows).2)
    have fork := storable.fork.path
    rw [parent] at fork
    have path_eq := fork.unique l
    have spine_eq := storable.fork.head.unique l
    have switch : (c.reckoning x trunk a branch spine').verdict = .headSwitch := by
      rcases verdict : (c.reckoning x trunk a branch spine').verdict with - | - | r
      · rfl
      · -- the first header is heavier than the head
        obtain ⟨s, at_first⟩ : ∃ s, (c.reckoning x trunk a branch spine').standings[0]? = some s :=
          ⟨_, getElem?_reckoning 0⟩
        have lighter := total_le_head verdict (List.mem_of_getElem? at_first)
        have positive := prepared.positive sound (h := x.first) List.mem_cons_self
        have more : work spine < work (trunk ++ a :: branch ++ x.headers.take 1) := by
          rw [path_eq, work_append]
          show _ < _ + (x.first.difficulty.toNat + 0)
          omega
        rw [total_reckoning at_first, spine_eq] at lighter
        exact absurd ((Difficulty.above_capped more).lt below) (Nat.not_lt.mpr lighter)
      · rw [inserted] at ok
        unfold execute at ok
        rw [verdict] at ok
        cases ok
    rw [inserted]
    unfold execute
    rw [switch]
    rfl

/-- **Total difficulties increase along every path, up to the greatest.**  In every
reached chain each stored header but the genesis has more total difficulty than
its parent, or both have the greatest there is.  A segment that is accepted on top
of the head takes over, whether or not the gate is on, unless the head has the
greatest total difficulty; then the head stays. -/
theorem totals_increase (reached : Reached offered c) (first : Header) (rest : List Header)
    (free : CollisionFree (offered ++ first :: rest)) :
    (∀ h, c.store.Stores h → h ≠ c.genesis →
      ∃ p below total, c.store.Stores p ∧ h.parentHash = p.hash ∧
        c.answering.total? p.hash = .ok (some below) ∧
        c.answering.total? h.hash = .ok (some total) ∧ below.Above total) ∧
    (c.headBlock.follows first = .ok () → ∀ receipt total,
      (c.insert (first :: rest)).1 = .ok receipt →
      c.answering.total? c.headBlock.hash = .ok (some total) →
        (total < .greatest → (c.insert (first :: rest)).2.headBlock = rest.getLastD first) ∧
        (total = .greatest → (c.insert (first :: rest)).2.headBlock = c.headBlock)) := by
  have sound := reached.sound_append free
  have weighty := reached.weighty free.left
  have archived := reached.archived free.left
  have legible := sound.rooted.sound
  have total {h : Header} {d : Difficulty} (item : c.store.item? h.hash = some ⟨h, d⟩) :
      c.answering.total? h.hash = .ok (some d) := by
    have answer :=
      sound.answering.rooted.sound.answer_total c.store.answersReads_answering h.hash
    rw [show c.answering.store.item? h.hash = some ⟨h, d⟩ from item] at answer
    exact read_eq_ok_iff.mpr answer
  constructor
  · intro h stored other
    have has := (archived.stores_iff legible).mp stored
    obtain ⟨p, path, precedes, l, item, above⟩ := sound.total_above weighty has other
    exact ⟨p, _, _, (archived.stores_iff legible).mpr l.has, precedes.link,
      total (sound.rooted.item?_eq l), total item, above⟩
  · intro follows receipt d ok counted
    have offers (h : Header) (mem : h ∈ first :: rest) := List.mem_append_right offered mem
    obtain ⟨spine, l, -⟩ := sound.spine
    rw [total (sound.rooted.item?_eq l)] at counted
    obtain ⟨⟩ := counted
    exact ⟨fun below => sound.headBlock_insert_of_follows free weighty (reached.heaviest free.left)
        offers l below follows ok,
      fun full => sound.headBlock_insert_of_greatest free offers l full⟩

/-- The later child is heavier than its parent, with which it took over. -/
theorem totals_increase_sampleLater :
    (∃ p below total, sampleGrown.store.Stores p ∧ sampleLater.parentHash = p.hash ∧
      sampleGrown.answering.total? p.hash = .ok (some below) ∧
      sampleGrown.answering.total? sampleLater.hash = .ok (some total) ∧ below.Above total) ∧
    (sampleChain.insert [sampleChild, sampleLater]).2.headBlock = sampleLater := by
  have free : CollisionFree ([sampleGenesis] ++ [sampleChild, sampleLater]) :=
    collisionFree_samples.mono (by simp [samples])
  have head : (sampleChain.insert [sampleChild, sampleLater]).2.headBlock = sampleLater := by
    have reached : Reached [sampleGenesis] sampleChain := reached_sampleChain []
    have sound := reached.sound_append free
    have first : sampleChain.headBlock = sampleGenesis := rfl
    have l : sampleChain.store.Lineage sampleChain.genesis [sampleGenesis] sampleChain.headBlock :=
      lineage_genesisStore _ rfl
    have follows : sampleChain.headBlock.follows sampleChild = .ok () := by
      rw [first]
      exact (Rule.retarget_eq_ok retarget_sampleChild).1
    obtain ⟨receipt, ok⟩ := sound.insert_grafts free (fun _ => ⟨rfl, fun _ => rfl⟩) rfl rfl
      (grafts_sampleForks _ List.mem_cons_self) fun h mem => List.mem_append_right _ mem
    exact ((totals_increase reached sampleChild [sampleLater] free).2 follows receipt _ ok
      (sound.answering_total? l)).1 (by decide)
  refine ⟨?_, head⟩
  have free' := collisionFree_sampleGrandchild
  have sound := reached_sampleGrown.sound free'.left
  obtain ⟨spine, l, -⟩ := sound.spine
  have grown : sampleGrown.headBlock = sampleLater := by
    rw [sampleGrown, run_insert, head]
  rw [grown] at l
  have stored :=
    ((reached_sampleGrown.archived free'.left).stores_iff sound.rooted.sound).mpr l.has
  refine (totals_increase reached_sampleGrown sampleGrandchild [] free').1 sampleLater stored ?_
  intro same
  have number := l.genesis_number
  rw [← same] at number
  exact absurd number (by decide)

/-! ### Where they stop -/

/-- A genesis of the greatest difficulty. -/
def sampleFull : Header := .genesis 1000 .greatest

/-- A child of it that obeys the default rule. -/
def sampleFullChild : Header := .sealWith 1 sampleFull.hash 1005 .greatest 0

/-- The chain of that genesis, with default settings. -/
def sampleFullChain : Chain := opened (fun _ _ => none) sampleFull {}

theorem reached_sampleFullChain : Reached [sampleFull] sampleFullChain :=
  ⟨_, sampleFull, {}, sampleFullChain, _, [],
    attach_empty _ rfl rfl (Header.isSealed_sealWith ..) (by decide), rfl, rfl⟩

/-- **Total difficulties can stall.**  The child is accepted on top of the head with
the gate off, has no more total difficulty than its parent, and does not take
over. -/
theorem totals_stall :
    Reached [sampleFull] sampleFullChain ∧ sampleFullChain.gate.enabled = false ∧
      sampleFullChain.headBlock.follows sampleFullChild = .ok () ∧
      (∃ receipt, (sampleFullChain.insert [sampleFullChild]).1 = .ok receipt) ∧
      (sampleFullChain.insert [sampleFullChild]).2.header? sampleFullChild.hash
        = .ok (some sampleFullChild) ∧
      (sampleFullChain.insert [sampleFullChild]).2.total? sampleFullChild.hash
        = .ok (some .greatest) ∧
      (sampleFullChain.insert [sampleFullChild]).2.total? sampleFullChild.parentHash
        = .ok (some .greatest) ∧
      (sampleFullChain.insert [sampleFullChild]).2.headBlock = sampleFull := by
  have apart : sampleFull.hash ≠ sampleFullChild.hash := by decide +kernel
  have free : CollisionFree ([sampleFull] ++ [sampleFullChild]) := by
    simp [CollisionFree, apart, apart.symm]
  have offers : ∀ h ∈ [sampleFullChild], h ∈ [sampleFull] ++ [sampleFullChild] :=
    fun h mem => List.mem_append_right _ mem
  have sound := reached_sampleFullChain.sound_append free
  have answers : sampleFullChain.store.tier.service.AnswersReads := fun _ => ⟨rfl, fun _ => rfl⟩
  have l : sampleFullChain.store.Lineage sampleFullChain.genesis [sampleFull]
      sampleFullChain.headBlock := lineage_genesisStore _ rfl
  have obeys : Rule.retarget {} sampleFull sampleFullChild = .ok () :=
    Rule.retarget_sealWith rfl (by decide) rfl
  have grafts : sampleFullChain.Grafts [sampleFullChild] :=
    .of_retarget sound answers rfl l.has
      (List.forall_mem_singleton.mpr (Header.isSealed_sealWith ..)) (List.isChain_pair.mpr obeys)
  obtain ⟨receipt, ok⟩ := sound.insert_grafts free answers rfl rfl grafts offers
  have first : sampleFullChain.headBlock = sampleFull := rfl
  have follows : sampleFullChain.headBlock.follows sampleFullChild = .ok () := by
    rw [first]
    exact (Rule.retarget_eq_ok obeys).1
  have stays := sound.headBlock_insert_of_greatest free offers l (by decide)
  rw [first] at stays
  -- after the insertion the path of the child is that of the genesis and the child
  have sound' := sound.insert free offers
  have has := (sound.accepted free offers ok).has_iff sound free offers ok
  have genesis := (sound.succeeds_act free (.insert [sampleFullChild]) offers).genesis
  have answers' : (sampleFullChain.insert [sampleFullChild]).2.store.tier.service.AnswersReads := by
    rw [tier_insert]
    exact answers
  have below := l.mono fun h old => (has h).mpr (.inl old)
  have above := below.step (Rule.precedes_of_retarget obeys)
    ((has sampleFullChild).mpr (.inr List.mem_cons_self))
  rw [← genesis, act_insert] at below above
  have link : sampleFullChild.parentHash = sampleFull.hash := rfl
  refine ⟨reached_sampleFullChain, rfl, follows, ⟨receipt, ok⟩, ?_, ?_, ?_, stays⟩
  · exact header?_eq_ok_iff.mpr (sound'.rooted.answer_header answers' above.has)
  · have greatest : Difficulty.capped (work ([sampleFull] ++ [sampleFullChild])) = .greatest := by
      decide
    exact read_eq_ok_iff.mpr (greatest ▸ sound'.rooted.answer_total answers' above)
  · have greatest : Difficulty.capped (work [sampleFull]) = .greatest := by decide
    rw [link]
    exact read_eq_ok_iff.mpr (greatest ▸ sound'.rooted.answer_total answers' below)

end Chain

end ForkChoice
