/-
ForkChoice/Proofs/Chain/Runs.lean

Everything that can happen to a chain keeps it sound.

A chain is `Reached` if it was put on an empty store and then acted on: segments
inserted or assessed, headers frozen, the gate changed, the chain opened again,
and all the while calls of the tier refused, any number of them at any place.
Each action keeps a chain sound (`Sound.act`), so every reached chain is sound
(`Reached.sound`), and its canonical index is the ancestry of its head
(`canonical_ancestry`).
-/
import ForkChoice.Proofs.Chain.Inserting

namespace ForkChoice.Chain

/-! ### Actions -/

/-- What can be done to a chain. -/
inductive Action where
  | insert (segment : List Header)
  | assess (segment : List Header)
  | freeze (keepRecent : UInt64)
  | enableGate (enabled : Bool)
  | setGate (gate : Gate)
  /-- Open the chain again on its store, with the same genesis. -/
  | reopen (settings : Settings)
  /-- From here on the tier refuses the given calls of each operation. -/
  | serve (refusal : Nat → TierCall → Option String)

/-- The headers that an action offers to the chain. -/
def Action.headers : Action → List Header
  | insert segment => segment
  | assess segment => segment
  | _ => []

/-- The chain after an action.  A chain that cannot be opened again stays as it
was, on the store that the attempt leaves. -/
def act (c : Chain) : Action → Chain
  | .insert segment => (c.insert segment).2
  | .assess _ => c
  | .freeze keepRecent => (c.freeze keepRecent).2
  | .enableGate enabled => c.enableGate enabled
  | .setGate gate => (c.setGate gate).2
  | .reopen settings =>
    match attach c.store c.genesis settings with
    | (.ok reopened, _) => reopened
    | (_, store) => { c with store }
  | .serve refusal => c.serve refusal

/-- The chain after a run of actions. -/
def run (c : Chain) (actions : List Action) : Chain := actions.foldl act c

theorem act_insert (c : Chain) (segment : List Header) :
    c.act (.insert segment) = (c.insert segment).2 := rfl

theorem run_insert (c : Chain) (segment : List Header) :
    c.run [.insert segment] = (c.insert segment).2 := rfl

/-- The chain comes about on an empty store by a run of actions, and is offered
the given headers on the way. -/
def Reached (offered : List Header) (c : Chain) : Prop :=
  ∃ (refusal : Nat → TierCall → Option String) (genesis : Header) (settings : Settings)
    (begun : Chain) (store : Store) (actions : List Action),
    attach (Store.serve {} refusal) genesis settings = (.ok begun, store) ∧
      c = begun.run actions ∧ offered = genesis :: actions.flatMap Action.headers

/-! ### Soundness -/

variable {pool offered path : List Header} {c : Chain} {h : Header}

/-- **Every action keeps a chain sound.** -/
theorem Sound.act (sound : c.Sound pool) (free : CollisionFree pool) (action : Action)
    (known : ∀ h ∈ action.headers, h ∈ pool) : (c.act action).Sound pool := by
  cases action with
  | insert segment => exact sound.insert free known
  | assess segment => exact sound
  | freeze keepRecent => exact sound.freeze keepRecent
  | enableGate enabled => exact sound.enableGate enabled
  | setGate gate => exact sound.setGate gate
  | reopen settings =>
    unfold Chain.act
    dsimp only
    split
    · rename_i reopened
      exact sound.reopen reopened
    · rename_i store _ failed
      have same := sound.attach_store_eq settings
      rw [failed] at same
      change store = c.store at same
      rw [same]
      exact sound
  | serve refusal => exact sound.serve refusal

/-- What every action on a sound chain keeps, a run keeps. -/
theorem Sound.run_induction {P : Chain → Prop} (sound : c.Sound pool) (free : CollisionFree pool)
    (actions : List Action) (known : ∀ h ∈ actions.flatMap Action.headers, h ∈ pool)
    (step : ∀ {c : Chain} {action : Action}, c.Sound pool → (∀ h ∈ action.headers, h ∈ pool) →
      P c → P (c.act action))
    (start : P c) : P (c.run actions) := by
  induction actions generalizing c with
  | nil => exact start
  | cons action actions ih =>
    rw [List.flatMap_cons] at known
    have here (h : Header) (mem : h ∈ action.headers) : h ∈ pool :=
      known h (List.mem_append_left _ mem)
    exact ih (sound.act free action here) (fun h mem => known h (List.mem_append_right _ mem))
      (step sound here start)

theorem Sound.run (sound : c.Sound pool) (free : CollisionFree pool) (actions : List Action)
    (known : ∀ h ∈ actions.flatMap Action.headers, h ∈ pool) : (c.run actions).Sound pool :=
  sound.run_induction free actions known (fun sound known _ => sound.act free _ known) sound

/-- **Every reached chain is sound**, as long as no two of its headers share a
hash. -/
theorem Reached.sound (reached : Reached offered c) (free : CollisionFree offered) :
    c.Sound offered := by
  obtain ⟨refusal, genesis, settings, begun, store, actions, attached, rfl, rfl⟩ := reached
  exact (sound_attach_empty attached List.mem_cons_self).run free actions
    fun h mem => List.mem_cons_of_mem _ mem

/-- The pool of a reached chain may be larger. -/
theorem Reached.sound_append {more : List Header} (reached : Reached offered c)
    (free : CollisionFree (offered ++ more)) : c.Sound (offered ++ more) :=
  (reached.sound free.left).mono fun _ mem => List.mem_append_left _ mem

/-- What holds of a chain with its genesis alone and is kept by every action on a
sound chain, holds of every reached chain. -/
theorem Reached.induction {P : Chain → Prop} (reached : Reached offered c)
    (free : CollisionFree offered)
    (step : ∀ {c : Chain} {action : Action}, c.Sound offered →
      (∀ h ∈ action.headers, h ∈ offered) → P c → P (c.act action))
    (start : ∀ {c : Chain} {refusal : Nat → TierCall → Option String},
      c.store = genesisStore refusal c.genesis → c.headBlock = c.genesis → c.genesis.number = 0 →
        P c) : P c := by
  obtain ⟨refusal, genesis, settings, begun, store, actions, attached, rfl, rfl⟩ := reached
  obtain ⟨started, head, -⟩ := attach_empty_eq attached
  obtain ⟨-, number, -, -, -, same, -⟩ := attach_eq_ok attached
  exact (sound_attach_empty attached List.mem_cons_self).run_induction free actions
    (fun h mem => List.mem_cons_of_mem _ mem) step (start started head (same ▸ number))

/-- A chain that is reached is so after further actions. -/
theorem Reached.run (reached : Reached offered c) (actions : List Action) :
    Reached (offered ++ actions.flatMap Action.headers) (c.run actions) := by
  obtain ⟨refusal, genesis, settings, begun, store, before, attached, rfl, rfl⟩ := reached
  refine ⟨refusal, genesis, settings, begun, store, before ++ actions, attached, ?_, by simp⟩
  unfold Chain.run
  rw [List.foldl_append]

theorem Reached.freeze (reached : Reached offered c) (keepRecent : UInt64) :
    Reached offered (c.freeze keepRecent).2 := by
  have offers : [Action.freeze keepRecent].flatMap Action.headers = [] := rfl
  have frozen := reached.run [.freeze keepRecent]
  rwa [offers, List.append_nil] at frozen

/-! ### Ancestries -/

/-- The headers from the genesis up to a header: each is the parent of the next,
stands at its own height, and is what the chain has under its hash. -/
structure Ancestry (c : Chain) (h : Header) (path : List Header) : Prop where
  first : path.head? = some c.genesis
  last : path.getLast? = some h
  linked : path.IsChain fun p h => h.parentHash = p.hash
  heights : ∀ {i : Nat} {a : Header}, path[i]? = some a → a.number.toNat = i
  stored : ∀ a ∈ path, c.header? a.hash = .ok (some a)

/-- A chain reads what its store answers. -/
theorem read_eq_ok_iff {α : Type} {x : Lookup StoreError α} {a : α} :
    c.read x = .ok a ↔ c.store.answer x = .ok a := by
  unfold read Lookup.inChain
  rw [Store.answer_mapError]
  cases c.store.answer x <;> simp [Outcome.mapError]

theorem header?_eq_ok_iff {hash : Hash} {h? : Option Header} :
    c.header? hash = .ok h? ↔ c.store.answer (c.store.source.header? hash) = .ok h? :=
  read_eq_ok_iff

/-- A lineage is an ancestry, once the tier answers. -/
theorem Sound.ancestry (sound : c.Sound pool) (answers : c.store.tier.service.AnswersReads)
    (l : c.store.Lineage c.genesis path h) : c.Ancestry h path where
  first := by rw [List.head?_eq_getElem?, l.getElem?_zero]
  last := by
    obtain ⟨below, rfl⟩ := l.eq_append
    exact List.getLast?_concat
  linked := l.isChain.imp fun _ _ precedes => precedes.link
  heights := l.number_eq
  stored a mem := header?_eq_ok_iff.mpr (sound.rooted.answer_header answers (l.has_of_mem mem))

/-- An ancestry is a lineage, so a header has one ancestry only. -/
theorem Sound.lineage (sound : c.Sound pool) (answers : c.store.tier.service.AnswersReads)
    (ancestry : c.Ancestry h path) : c.store.Lineage c.genesis path h := by
  induction path using List.reverseRecOn generalizing h with
  | nil => cases ancestry.last
  | append_singleton below a ih =>
    have last := ancestry.last
    rw [List.getLast?_concat] at last
    obtain ⟨⟩ := last
    have stored := header?_eq_ok_iff.mp (ancestry.stored a (by simp))
    have has := sound.rooted.has_of_answer answers stored
    have number := ancestry.heights (i := below.length) (a := a) (by simp)
    obtain ⟨path', l⟩ := sound.rooted.exists_lineage has
    rcases List.eq_nil_or_concat' below with rfl | ⟨lower, p, rfl⟩
    · obtain ⟨⟩ := ancestry.first
      exact .root (UInt64.toNat_inj.mp number) has
    · have below_ancestry : c.Ancestry p (lower ++ [p]) := by
        refine ⟨?_, by simp, ancestry.linked.left_of_append, fun at_i => ?_,
          fun b mem => ancestry.stored b (List.mem_append_left _ mem)⟩
        · rw [← ancestry.first]
          simp
        · have bound := (List.getElem?_eq_some_iff.mp at_i).1
          exact ancestry.heights (by rw [List.getElem?_append_left bound, at_i])
      have lp := ih below_ancestry
      -- the stored lineage of the header goes through its parent too
      cases l with
      | root zero =>
        rw [zero] at number
        simp at number
      | @step _ p' _ l' precedes _ =>
        have link : a.parentHash = p.hash :=
          (List.isChain_append.mp ancestry.linked).2.2 p (by simp) a (by simp)
        rw [l'.has.unique lp.has (precedes.link.symm.trans link)] at precedes
        exact lp.step precedes has

/-- Ancestries are lineages, read while the tier answers. -/
theorem Sound.answering_ancestry_iff (sound : c.Sound pool) :
    c.answering.Ancestry h path ↔ c.store.Lineage c.genesis path h := by
  have answers := c.store.answersReads_answering
  have same := c.store.sameContents_answering
  constructor
  · intro ancestry
    exact (sound.answering.lineage answers ancestry).mono fun _ => same.symm.has
  · intro l
    exact sound.answering.ancestry answers (l.mono fun _ => same.has)

/-- **The canonical index is the ancestry of the head.**  In every reached chain
whose tier answers, the canonical hash of each height up to the head's is that
of the head's ancestor there, above the head there is none, and the two head
pointers of the store and the two heads of the chain are one header. -/
theorem canonical_ancestry (reached : Reached offered c) (free : CollisionFree offered)
    (answers : c.store.tier.service.AnswersReads) :
    ∃ path, c.Ancestry c.headBlock path ∧ path.length = c.headBlock.number.toNat + 1 ∧
      (∀ number, c.store.answer (c.store.source.canonical? number)
        = .ok (path[number.toNat]?.map (·.hash))) ∧
      c.store.rows.headBlock? = .ok (some c.headBlock.hash) ∧
      c.store.rows.headHeader? = .ok (some c.headBlock.hash) ∧
      c.headHeader = c.headBlock := by
  have sound := reached.sound free
  obtain ⟨path, l, canonical⟩ := sound.spine
  refine ⟨path, sound.ancestry answers l, l.length_eq, fun number => ?_, sound.headBlock?,
    sound.headHeader?, sound.headHeader⟩
  rw [sound.rooted.sound.answer_canonical answers, canonical]

/-- A genesis. -/
def sampleGenesis : Header := .genesis 1000 131072

/-- A child of it that obeys the default rule. -/
def sampleChild : Header := .sealWith 1 sampleGenesis.hash 1005 131136 0

/-- A child of the sample child that obeys the default rule. -/
def sampleGrandchild : Header := .sealWith 2 sampleChild.hash 1010 131200 0

/-- The chain of that genesis, with default settings. -/
def sampleChain : Chain := opened (fun _ _ => none) sampleGenesis {}

theorem reached_sampleChain (actions : List Action) :
    Reached (sampleGenesis :: actions.flatMap Action.headers) (sampleChain.run actions) :=
  ⟨_, sampleGenesis, {}, sampleChain, _, actions,
    attach_empty _ rfl rfl (Header.isSealed_sealWith ..) (by decide), rfl, rfl⟩

theorem sampleGenesis_hash_ne : sampleGenesis.hash ≠ sampleChild.hash := by decide +kernel

theorem collisionFree_sample : CollisionFree [sampleGenesis, sampleChild] := by
  simp [CollisionFree, sampleGenesis_hash_ne, sampleGenesis_hash_ne.symm]

/-- The child takes over, the freeze after it is refused, and then the tier
answers: the index is the ancestry of the child. -/
theorem canonical_ancestry_sampleChild :
    ∃ c, Reached [sampleGenesis, sampleChild] c ∧ c.store.tier.service.AnswersReads ∧
      c.headBlock = sampleChild ∧
      ∃ path, c.Ancestry c.headBlock path ∧ path.length = c.headBlock.number.toNat + 1 ∧
        (∀ number, c.store.answer (c.store.source.canonical? number)
          = .ok (path[number.toNat]?.map (·.hash))) ∧
        c.store.rows.headBlock? = .ok (some c.headBlock.hash) ∧
        c.store.rows.headHeader? = .ok (some c.headBlock.hash) ∧
        c.headHeader = c.headBlock := by
  have reached := reached_sampleChain
    [.insert [sampleChild], .serve fun _ _ => some "busy", .freeze 0, .serve fun _ _ => none]
  have answers : (sampleChain.run [.insert [sampleChild], .serve fun _ _ => some "busy", .freeze 0,
      .serve fun _ _ => none]).store.tier.service.AnswersReads :=
    fun _ => ⟨rfl, fun _ => rfl⟩
  refine ⟨_, reached, answers, by decide +kernel,
    canonical_ancestry reached collisionFree_sample answers⟩

end ForkChoice.Chain
