/-
ForkChoice/Proofs/Chain/Announcing.lean

What a chain tells its subscribers is what happened to it.

The depth that a head switch announces is a difference of heights.  It is also
the number of heights whose canonical header was retired (`Storable.retired`):
above the fork point no header of the old head's path is on the new one, since
the branch parts there and the new headers were not stored before, and up to the
fork point both paths are the same.

`Announces` says for each way an insertion can end what is sent and what becomes
of the canonical headers, and every insertion is of that kind
(`Sound.announces`).  The head switches of a run name each other in turn, from
the head at its start to the head at its end (`Relay`).  The last theorem puts
both together.
-/
import Mathlib.Data.Set.Card
import ForkChoice.Proofs.Chain.Atomicity
import ForkChoice.Proofs.Chain.Growth
import ForkChoice.Proofs.Chain.Progress

namespace ForkChoice.Chain

variable {pool offered segment trunk branch spine : List Header} {c c' : Chain} {x : Candidate}
  {a : Header}

/-! ### Canonical headers -/

/-- The canonical header of a height, read while the tier answers every call. -/
def canonicalAt (c : Chain) (n : UInt64) : Outcome ChainError (Option Header) :=
  c.answering.canonicalHeader? n

/-- The heights whose canonical header in the first chain is not canonical there
in the second. -/
def retired (c c' : Chain) : Set UInt64 :=
  {n | ∃ h, c.canonicalAt n = .ok (some h) ∧ c'.canonicalAt n ≠ .ok (some h)}

/-- The canonical headers of a sound chain are the path of its head. -/
theorem Sound.canonicalAt_eq (sound : c.Sound pool)
    (l : c.store.Lineage c.genesis spine c.headBlock) (n : UInt64) :
    c.canonicalAt n = .ok spine[n.toNat]? := by
  obtain ⟨path, l', canonical⟩ := sound.spine
  obtain rfl := l.unique l'
  have named : c.answering.store.canonical? n = spine[n.toNat]?.map (·.hash) := canonical n
  apply read_eq_ok_iff.mpr
  rw [sound.answering.rooted.sound.answer_canonicalHeader c.store.answersReads_answering, named]
  rcases at_height : spine[n.toNat]? with - | h
  · rfl
  · obtain ⟨total, found⟩ :=
      Store.has_iff.mp (l.has_of_mem (List.mem_of_getElem? at_height))
    have found' : c.answering.store.item? h.hash = some ⟨h, total⟩ := found
    rw [Option.map_some, Option.bind_some, found']
    rfl

/-- The number of heights above one and up to another. -/
theorem ncard_between (low high : UInt64) :
    {n | low < n ∧ n ≤ high}.ncard = high.toNat - low.toNat := by
  have listed : {n | low < n ∧ n ≤ high} = ((heightsAbove low high).toFinset : Set UInt64) := by
    ext n
    simp [mem_heightsAbove]
  have distinct : (heightsAbove low high).Nodup := by
    apply List.Nodup.map_on _ (List.nodup_range' ..)
    intro i i_mem j j_mem same
    have bound := high.toNat_lt
    rw [List.mem_range'_1] at i_mem j_mem
    have value := congrArg UInt64.toNat same
    rwa [UInt64.toNat_ofNat', UInt64.toNat_ofNat', Nat.mod_eq_of_lt (by omega),
      Nat.mod_eq_of_lt (by omega)] at value
  rw [listed, Set.ncard_coe_finset, List.toFinset_card_of_nodup distinct]
  simp [heightsAbove]

namespace Storable

variable (storable : Storable pool c x trunk a branch spine)
include storable

/-- The path of the tip is that of the head up to the fork point, and then the
branch and the new headers. -/
theorem getElem?_path (i : Nat) :
    (trunk ++ a :: branch ++ x.headers)[i]?
      = if i ≤ a.number.toNat then spine[i]?
        else (branch ++ x.headers)[i - (a.number.toNat + 1)]? := by
  have whole : trunk ++ a :: branch ++ x.headers = (trunk ++ [a]) ++ (branch ++ x.headers) := by
    simp
  have length : (trunk ++ [a]).length = a.number.toNat + 1 := by
    simp [storable.fork.number_eq]
  rw [whole]
  split
  · rw [List.getElem?_append_left (by omega), ← storable.fork.spine_take,
      List.getElem?_take_of_lt (by omega)]
  · rw [List.getElem?_append_right (by omega), length]

/-- Above the fork point no header of the head's path is on the new one. -/
theorem not_mem_above {h : Header} (mem : h ∈ spine) : h ∉ branch ++ x.headers := by
  intro above
  rcases List.mem_append.mp above with on_branch | new
  · exact storable.fork.apart h on_branch mem
  · exact Store.not_has_of_unknown (storable.fresh h new) (storable.fork.head.has_of_mem mem)

/-- The canonical headers before a takeover and after it. -/
theorem canonicalAt_switchHead (sound : c.Sound pool) (free : CollisionFree pool) (n : UInt64) :
    c.canonicalAt n = .ok spine[n.toNat]? ∧
      (c.switchHead x (c.reckoning x trunk a branch spine)).canonicalAt n
        = .ok (if n ≤ a.number then spine[n.toNat]?
            else (branch ++ x.headers)[n.toNat - (a.number.toNat + 1)]?) := by
  obtain ⟨-, -, grown⟩ := storable.rooted_commit sound free
    (b := headSwitchBatch x (c.reckoning x trunk a branch spine)) rfl
  have after := (storable.sound_switchHead sound free).canonicalAt_eq grown n
  rw [storable.getElem?_path] at after
  exact ⟨sound.canonicalAt_eq storable.fork.head n, after⟩

/-- Up to the fork point a takeover leaves the canonical headers as they are. -/
theorem canonicalAt_of_le (sound : c.Sound pool) (free : CollisionFree pool) {n : UInt64}
    (low : n ≤ a.number) :
    (c.switchHead x (c.reckoning x trunk a branch spine)).canonicalAt n = c.canonicalAt n := by
  obtain ⟨before, after⟩ := storable.canonicalAt_switchHead sound free n
  rw [before, after, if_pos low]

/-- **A takeover retires the canonical headers above the fork point**, all of them
and no others. -/
theorem retired (sound : c.Sound pool) (free : CollisionFree pool) :
    c.retired (c.switchHead x (c.reckoning x trunk a branch spine))
      = {n | a.number < n ∧ n ≤ c.headBlock.number} := by
  have height := storable.fork.head.length_eq
  ext n
  obtain ⟨before, after⟩ := storable.canonicalAt_switchHead sound free n
  constructor
  · rintro ⟨h, was, gone⟩
    have above : a.number < n := by
      apply UInt64.not_le.mp
      intro low
      rw [storable.canonicalAt_of_le sound free low] at gone
      exact gone was
    rw [before] at was
    have inside := (List.getElem?_eq_some_iff.mp (Outcome.ok.inj was)).1
    refine ⟨above, UInt64.le_iff_toNat_le.mpr ?_⟩
    omega
  · rintro ⟨above, below⟩
    rw [UInt64.le_iff_toNat_le] at below
    have inside : n.toNat < spine.length := by omega
    have was : spine[n.toNat]? = some spine[n.toNat] := List.getElem?_eq_getElem inside
    refine ⟨spine[n.toNat], by rw [before, was], ?_⟩
    rw [after, if_neg (UInt64.not_le.mpr above)]
    intro still
    exact storable.not_mem_above (List.mem_of_getElem? was)
      (List.mem_of_getElem? (Outcome.ok.inj still))

/-- The depth of a reorganisation is the number of heights that it retires. -/
theorem reorgDepth_eq (sound : c.Sound pool) (free : CollisionFree pool) :
    (c.reckoning x trunk a branch spine).reorgDepth
      = (c.retired (c.switchHead x (c.reckoning x trunk a branch spine))).ncard := by
  rw [storable.retired sound free, ncard_between]
  rfl

/-- A side chain changes no canonical header. -/
theorem canonicalAt_storeSideChain (sound : c.Sound pool) (free : CollisionFree pool)
    (n : UInt64) :
    (c.storeSideChain x (c.reckoning x trunk a branch spine)).canonicalAt n = c.canonicalAt n := by
  obtain ⟨-, keeps, -⟩ := storable.rooted_commit sound free
    (b := sideChainBatch x (c.reckoning x trunk a branch spine)) rfl
  rw [sound.canonicalAt_eq storable.fork.head]
  exact (storable.sound_storeSideChain sound free).canonicalAt_eq
    (storable.fork.head.mono keeps) n

end Storable

/-! ### Insertions -/

/-- What a takeover announces and does: one event names the tip, the head before
and how many heights were retired, which are those above the fork point. -/
structure TakenOver (c : Chain) (tip fork : Header) (c' : Chain) : Prop where
  head : c'.headBlock = tip
  sent : c'.events = c.events
    ++ [.headChanged tip.number tip.hash c.headBlock.hash (c.retired c').ncard]
  retired : c.retired c' = {n | fork.number < n ∧ n ≤ c.headBlock.number}
  kept : ∀ n, n ≤ fork.number → c'.canonicalAt n = c.canonicalAt n

/-- What a side chain announces and does: one event names the tip and the height
of the fork point, and no canonical header changes. -/
structure SetAside (c : Chain) (tip fork : Header) (c' : Chain) : Prop where
  head : c'.headBlock = c.headBlock
  sent : c'.events = c.events ++ [.sideChain tip.number tip.hash fork.number]
  kept : ∀ n, c'.canonicalAt n = c.canonicalAt n

/-- The ways in which an insertion ends, with what is announced. -/
inductive Announces (c : Chain) (segment : List Header) :
    Outcome SegmentError Receipt × Chain → Prop
  | headSwitch {receipt : Receipt} {tip : Header} {found : Assessment} {c' : Chain} :
      receipt.verdict = some .headSwitch → segment.getLast? = some tip →
      c.assess segment = .ok (some found) → c.TakenOver tip found.fork.header c' →
      Announces c segment (.ok receipt, c')
  | sideChain {receipt : Receipt} {tip : Header} {found : Assessment} {c' : Chain} :
      receipt.verdict = some .sideChain → segment.getLast? = some tip →
      c.assess segment = .ok (some found) → c.SetAside tip found.fork.header c' →
      Announces c segment (.ok receipt, c')
  /-- Nothing was new, and nothing is announced. -/
  | held {receipt : Receipt} :
      receipt.verdict = none → Announces c segment (.ok receipt, c)
  /-- The insertion failed, and nothing is announced. -/
  | failed {result : Outcome SegmentError Receipt} {c' : Chain} :
      (∀ receipt, result ≠ .ok receipt) → c.Untallied c' → Announces c segment (result, c')

/-- The last header of a segment with something new is the tip of what is new. -/
theorem Sound.getLast?_of_assessment {found : Assessment} (sound : c.Sound pool)
    (assessed : c.store.answer (c.assessment segment) = .ok (some (x, found))) :
    segment.getLast? = some x.tip := by
  obtain ⟨front, rfl, -⟩ := sound.prepared_of_assessment assessed
  unfold Candidate.headers Candidate.tip
  rw [List.getLast?_append, List.getLast?_cons, Option.some_or, List.getLastD_eq_getLast?]

/-- **What an insertion announces is what happened.** -/
theorem Sound.announces (sound : c.Sound pool) (free : CollisionFree pool)
    (offered : ∀ h ∈ segment, h ∈ pool) : c.Announces segment (c.insert segment) := by
  rcases assessed : c.store.answer (c.assessment segment) with (- | ⟨x, found⟩) | e | w
  · rw [insert_of_held assessed]
    exact .held rfl
  · obtain ⟨trunk, a, branch, spine, storable, rfl⟩ := sound.assessment_eq_ok free offered assessed
    have last := sound.getLast?_of_assessment assessed
    have found : c.assess segment = .ok (some (c.reckoning x trunk a branch spine)) := by
      unfold assess
      rw [assessed]
      rfl
    rw [insert_eq assessed]
    rcases verdict : (c.reckoning x trunk a branch spine).verdict with - | - | r
    · unfold execute
      rw [verdict]
      refine .headSwitch rfl last found ⟨rfl, ?_, storable.retired sound free,
        fun n => storable.canonicalAt_of_le sound free⟩
      show c.events ++ [.headChanged _ _ _ (c.reckoning x trunk a branch spine).reorgDepth] = _
      rw [storable.reorgDepth_eq sound free]
      rfl
    · unfold execute
      rw [verdict]
      exact .sideChain rfl last found
        ⟨rfl, rfl, storable.canonicalAt_storeSideChain sound free⟩
    · unfold execute
      rw [verdict]
      exact .failed nofun ⟨_, rfl⟩
  · rw [insert_of_error assessed]
    exact .failed nofun ⟨_, rfl⟩
  · rw [insert_of_fault assessed]
    exact .failed nofun ⟨c.tally, rfl⟩

/-! ### Runs -/

/-- Events that lead from one head to another: each head switch names the head
before it as the previous one, and the next head. -/
inductive Relay : Header → List Event → Header → Prop
  | nil (h : Header) : Relay h [] h
  | sideChain {h last : Header} {sent : List Event} (number : UInt64) (hash : Hash)
      (fork : UInt64) : Relay h sent last → Relay h (.sideChain number hash fork :: sent) last
  | headChanged {last : Header} {sent : List Event} (h next : Header) (depth : Nat) :
      Relay next sent last →
      Relay h (.headChanged next.number next.hash h.hash depth :: sent) last

theorem Relay.append {h mid last : Header} {sent more : List Event} (first : Relay h sent mid)
    (second : Relay mid more last) : Relay h (sent ++ more) last := by
  induction first with
  | nil => exact second
  | sideChain number hash fork _ ih => exact .sideChain number hash fork (ih second)
  | headChanged h next depth _ ih => exact .headChanged h next depth (ih second)

/-- The second chain comes after the first, and the events sent in between lead
from one head to the other. -/
def Relays (c c' : Chain) : Prop :=
  ∃ sent, c'.events = c.events ++ sent ∧ Relay c.headBlock sent c'.headBlock

theorem Relays.of_same (events : c'.events = c.events) (head : c'.headBlock = c.headBlock) :
    c.Relays c' :=
  ⟨[], by rw [events, List.append_nil], head ▸ .nil _⟩

theorem Relays.trans {c'' : Chain} (first : c.Relays c') (second : c'.Relays c'') :
    c.Relays c'' := by
  obtain ⟨sent, events, relay⟩ := first
  obtain ⟨more, events', relay'⟩ := second
  exact ⟨sent ++ more, by rw [events', events, List.append_assoc], relay.append relay'⟩

theorem Announces.relays {result : Outcome SegmentError Receipt}
    (announces : c.Announces segment (result, c')) : c.Relays c' := by
  cases announces with
  | headSwitch _ _ _ taken =>
    refine ⟨_, taken.sent, ?_⟩
    rw [taken.head]
    exact .headChanged _ _ _ (.nil _)
  | sideChain _ _ _ aside =>
    refine ⟨_, aside.sent, ?_⟩
    rw [aside.head]
    exact .sideChain _ _ _ (.nil _)
  | held _ => exact .of_same rfl rfl
  | failed _ untallied =>
    obtain ⟨tally, rfl⟩ := untallied
    exact .of_same rfl rfl

/-- An action that does not open the chain again leads from head to head. -/
theorem Sound.relays_act (sound : c.Sound pool) (free : CollisionFree pool) {action : Action}
    (known : ∀ h ∈ action.headers, h ∈ pool) (stays : ∀ settings, action ≠ .reopen settings) :
    c.Relays (c.act action) := by
  cases action with
  | insert segment => exact (sound.announces free known).relays
  | assess segment => exact .of_same rfl rfl
  | freeze keepRecent => exact .of_same rfl rfl
  | enableGate enabled => exact .of_same rfl rfl
  | setGate gate =>
    show c.Relays (c.setGate gate).2
    unfold Chain.setGate
    split <;> exact .of_same rfl rfl
  | reopen settings => exact absurd rfl (stays settings)
  | serve refusal => exact .of_same rfl rfl

theorem Sound.relays_run (sound : c.Sound pool) (free : CollisionFree pool)
    (actions : List Action) (known : ∀ h ∈ actions.flatMap Action.headers, h ∈ pool)
    (stays : ∀ settings, .reopen settings ∉ actions) : c.Relays (c.run actions) := by
  induction actions generalizing c with
  | nil => exact .of_same rfl rfl
  | cons action actions ih =>
    rw [List.flatMap_cons] at known
    have here (h : Header) (mem : h ∈ action.headers) : h ∈ pool :=
      known h (List.mem_append_left _ mem)
    have step := sound.relays_act free here
      fun settings same => stays settings (same ▸ List.mem_cons_self)
    exact step.trans (ih (sound.act free action here)
      (fun h mem => known h (List.mem_append_right _ mem))
      fun settings mem => stays settings (List.mem_cons_of_mem _ mem))

/-- A chain that has just been opened has sent nothing. -/
theorem events_of_attach {store s : Store} {genesis : Header} {settings : Settings}
    (attached : attach store genesis settings = (.ok c, s)) : c.events = [] := by
  obtain ⟨heads, rfl⟩ := eq_placed_of_attach attached
  rfl

/-- **Events describe the reorganisations exactly.**  Whatever segment a reached
chain is offered, what it announces is what happened; and the events of a run in
which it is not opened again lead from the head at the start to that at the end,
beginning with none where it was just opened. -/
theorem events_exact (reached : Reached offered c) :
    (∀ segment, CollisionFree (offered ++ segment) → c.Announces segment (c.insert segment)) ∧
    (∀ actions : List Action, CollisionFree (offered ++ actions.flatMap Action.headers) →
      (∀ settings, .reopen settings ∉ actions) → c.Relays (c.run actions)) ∧
    ∀ (store s : Store) (genesis : Header) (settings : Settings),
      attach store genesis settings = (.ok c, s) → c.events = [] := by
  refine ⟨fun segment free => ?_, fun actions free stays => ?_,
    fun store s genesis settings => events_of_attach⟩
  · exact (reached.sound_append free).announces free fun h mem => List.mem_append_right _ mem
  · exact (reached.sound_append free).relays_run free actions
      (fun h mem => List.mem_append_right _ mem) stays

/-- The grandchild takes the head over from the later child, with two headers
frozen. -/
theorem events_exact_sampleGrandchild :
    ∃ c : Chain, c.headBlock = sampleLater ∧
      c.store.tier.items.map (·.header) = [sampleGenesis, sampleChild] ∧
      (c.run [.insert [sampleGrandchild]]).headBlock = sampleGrandchild ∧
      c.Announces [sampleGrandchild] (c.insert [sampleGrandchild]) ∧
      c.Relays (c.run [.insert [sampleGrandchild]]) := by
  have free : CollisionFree [sampleGenesis, sampleChild, sampleLater, sampleGrandchild] :=
    collisionFree_samples.mono (by simp [samples])
  obtain ⟨head, frozen, head'⟩ := freeze_sampleGrown
  obtain ⟨announces, relays, -⟩ := events_exact (reached_sampleGrown.freeze 0)
  exact ⟨_, head, frozen, head', announces [sampleGrandchild] free,
    relays [.insert [sampleGrandchild]] free (by simp)⟩

end ForkChoice.Chain
