/-
ForkChoice/Proofs/Chain/Reopening.lean

A chain that is opened again goes on as if it had never been closed.

Opening reads the heads back from the store, and takes the gate, the rule and
the room for events from the settings.  What the chain had counted and sent
before is lost: it is the `Past` of the chain that was not closed.  No answer
depends on it (`handle_withPast` for one request, `replies_withPast` for any
number), so with the same gate and rule the two chains answer alike
(`reopen_restores`), including what they tell those who subscribe afterwards.

The store is not written to when a chain is opened again, whatever comes of it.
Opening succeeds if the room for events can be made; no check of the settings
bounds it from above (`reopen_faults`).
-/
import ForkChoice.Proofs.Chain.Opening
import ForkChoice.Proofs.Chain.Progress

namespace ForkChoice

/-! ### Subscribers -/

namespace Subscription

/-- The place of a subscriber with so many more events behind it. -/
def after (s : Subscription) (more : Nat) : Subscription := ⟨more + s.position⟩

/-- Events from before a subscriber came make no difference to it. -/
theorem receive_after (s : Subscription) (capacity : Nat) (before sent : List Event) :
    (s.after before.length).receive capacity (before ++ sent)
      = ((s.receive capacity sent).1, (s.receive capacity sent).2.after before.length) := by
  have length : (before ++ sent).length = before.length + sent.length := List.length_append
  rcases Nat.lt_or_ge sent.length (room capacity) with kept | full
  · -- nothing that was sent since has been dropped
    have now : sent.length - room capacity = 0 := Nat.sub_eq_zero_of_le (Nat.le_of_lt kept)
    have not_past : before.length + sent.length - room capacity ≤ before.length + s.position := by
      omega
    simp only [receive, after, length, now, Nat.max_eq_left not_past, Nat.not_lt.mpr not_past,
      Nat.not_lt_zero, Nat.max_eq_left (Nat.zero_le _), List.drop_length_add_append, if_false]
  · have oldest : before.length + sent.length - room capacity
        = before.length + (sent.length - room capacity) := Nat.add_sub_assoc full _
    simp only [receive, after, length, oldest, Nat.add_max_add_left, List.drop_length_add_append,
      Nat.add_lt_add_iff_left, Nat.add_sub_add_left]

end Subscription

namespace Chain

/-! ### Requests and replies -/

/-- What is asked of a chain, or happens to its tier. -/
inductive Request where
  /-- Look at the genesis, the heads and the gate. -/
  | look
  | header (hash : Hash)
  | total (hash : Hash)
  | canonicalHeader (number : UInt64)
  | ratio (fork canonical candidate : Header)
  | required (elapsed : Float)
  | assess (segment : List Header)
  | insert (segment : List Header)
  | freeze (keepRecent : UInt64)
  | enableGate (enabled : Bool)
  | setGate (gate : Gate)
  | setRule (rule : Rule)
  | subscribe
  /-- Hand out what a subscriber has not received yet. -/
  | receive (subscriber : Nat)
  /-- Open the chain again on its store, with the same genesis. -/
  | reopen (settings : Settings)
  /-- From here on the tier refuses the given calls of each operation. -/
  | serve (refusal : Nat → TierCall → Option String)

/-- What a request gives back. -/
inductive Reply where
  | looked (genesis headBlock headHeader : Header) (gate : Gate)
  | header (found : Outcome ChainError (Option Header))
  | total (found : Outcome ChainError (Option Difficulty))
  | ratio (found : Outcome ChainError Float)
  | required (ratio : Float)
  | assessed (result : Outcome SegmentError (Option Assessment))
  /-- The receipt, and the events that were sent. -/
  | inserted (result : Outcome SegmentError Receipt) (sent : List Event)
  | frozen (result : Outcome ChainError Nat)
  | gateSet (result : Except ChainError Unit)
  | received (notices : List Notice)
  | opened (result : Outcome ChainError Unit)
  | done

/-- A chain with those who have subscribed to it. -/
structure Session where
  chain : Chain
  subscribers : List Subscription := []

namespace Session

/-- Serve a request. -/
def handle (s : Session) : Request → Reply × Session
  | .look => (.looked s.chain.genesis s.chain.headBlock s.chain.headHeader s.chain.gate, s)
  | .header hash => (.header (s.chain.header? hash), s)
  | .total hash => (.total (s.chain.total? hash), s)
  | .canonicalHeader number => (.header (s.chain.canonicalHeader? number), s)
  | .ratio fork canonical candidate => (.ratio (s.chain.ratio fork canonical candidate), s)
  | .required elapsed => (.required (s.chain.required elapsed), s)
  | .assess segment => (.assessed (s.chain.assess segment), s)
  | .insert segment =>
    let (result, c) := s.chain.insert segment
    (.inserted result (c.events.drop s.chain.events.length), { s with chain := c })
  | .freeze keepRecent =>
    let (result, c) := s.chain.freeze keepRecent
    (.frozen result, { s with chain := c })
  | .enableGate enabled => (.done, { s with chain := s.chain.enableGate enabled })
  | .setGate gate =>
    let (result, c) := s.chain.setGate gate
    (.gateSet result, { s with chain := c })
  | .setRule rule => (.done, { s with chain := s.chain.withRule rule })
  | .subscribe => (.done, { s with subscribers := s.subscribers ++ [s.chain.subscribe] })
  | .receive i =>
    match s.subscribers[i]? with
    | none => (.received [], s)
    | some subscriber =>
      let (notices, subscriber) := s.chain.receive subscriber
      (.received notices, { s with subscribers := s.subscribers.set i subscriber })
  | .reopen settings =>
    match attach s.chain.store s.chain.genesis settings with
    | (.ok c, _) => (.opened (.ok ()), ⟨c, []⟩)
    | (.error e, store) => (.opened (.error e), { s with chain := s.chain.onto store })
    | (.fault w, store) => (.opened (.fault w), { s with chain := s.chain.onto store })
  | .serve refusal => (.done, { s with chain := s.chain.serve refusal })

/-- The replies to requests made one after the other. -/
def replies (s : Session) : List Request → List Reply
  | [] => []
  | request :: rest => (s.handle request).1 :: (s.handle request).2.replies rest

end Session

/-! ### The past of a chain -/

/-- What a chain loses when it is closed: the events it has sent, what it has
counted, and the room it had for events. -/
structure Past where
  events : List Event
  tally : Tally
  capacity : Nat

/-- The chain with another past. -/
def withPast (c : Chain) (past : Past) : Chain :=
  { c with
    events := past.events ++ c.events
    tally := past.tally
    eventCapacity := past.capacity }

section Past

variable (c : Chain) (past : Past)

/-- Setting the gate does not look at the past, -/
theorem setGate_withPast (gate : Gate) :
    (c.withPast past).setGate gate = ((c.setGate gate).1, (c.setGate gate).2.withPast past) := by
  unfold setGate
  cases gate.check <;> rfl

/-- nor assessing a segment, -/
theorem answer_assessment_withPast (segment : List Header) :
    (c.withPast past).store.answer ((c.withPast past).assessment segment)
      = c.store.answer (c.assessment segment) := rfl

/-- nor does carrying out a verdict, which adds to the past what it adds without
it, -/
theorem execute_withPast (x : Candidate) (a : Assessment) :
    ∃ tally, (c.withPast past).execute x a
      = ((c.execute x a).1, (c.execute x a).2.withPast { past with tally }) := by
  rcases verdict : a.verdict with - | - | r
  · refine ⟨((c.withPast past).switchHead x a).tally, ?_⟩
    have sent : ((c.withPast past).switchHead x a).events
        = past.events ++ (c.switchHead x a).events := List.append_assoc ..
    simp only [execute, verdict, withPast, switchHead, receipt] at sent ⊢
    rw [sent]
  · refine ⟨past.tally, ?_⟩
    have sent : ((c.withPast past).storeSideChain x a).events
        = past.events ++ (c.storeSideChain x a).events := List.append_assoc ..
    simp only [execute, verdict, withPast, storeSideChain, receipt] at sent ⊢
    rw [sent]
  · refine ⟨past.tally, ?_⟩
    simp only [execute, verdict]

/-- and so does inserting a segment. -/
theorem insert_withPast (segment : List Header) :
    ∃ tally, (c.withPast past).insert segment
      = ((c.insert segment).1, (c.insert segment).2.withPast { past with tally }) := by
  unfold insert
  rw [answer_assessment_withPast]
  rcases c.store.answer (c.assessment segment) with (- | ⟨x, a⟩) | e | w
  · exact ⟨past.tally, rfl⟩
  · exact execute_withPast { c with tally := c.tally.countVerdict a.verdict }
      { past with tally := past.tally.countVerdict a.verdict } x a
  · exact ⟨past.tally.countFailure e.cause, rfl⟩
  · exact ⟨past.tally, rfl⟩

end Past

namespace Session

/-- The session with another past of its chain; the subscribers came after it. -/
def withPast (s : Session) (past : Past) : Session :=
  ⟨s.chain.withPast past, s.subscribers.map (·.after past.events.length)⟩

/-- **No reply depends on the past**, but for the room for events where they are
handed out. -/
theorem handle_withPast (s : Session) (past : Past) (request : Request)
    (room : past.capacity = s.chain.eventCapacity ∨ ∀ i, request ≠ .receive i) :
    ((s.withPast past).handle request).1 = (s.handle request).1 ∧
      ∃ past', ((s.withPast past).handle request).2 = (s.handle request).2.withPast past' ∧
        (past.capacity = s.chain.eventCapacity →
          past'.capacity = (s.handle request).2.chain.eventCapacity) := by
  cases request with
  | insert segment =>
    obtain ⟨tally, same⟩ := insert_withPast s.chain past segment
    have sent : ((s.chain.insert segment).2.withPast { past with tally }).events.drop
        (s.chain.withPast past).events.length
          = (s.chain.insert segment).2.events.drop s.chain.events.length := by
      simp only [Chain.withPast, List.length_append, List.drop_length_add_append]
    simp only [handle, withPast, same, sent]
    exact ⟨trivial, { past with tally }, rfl, fun equal =>
      equal.trans (settings_insert s.chain segment).2.2.1.symm⟩
  | setGate gate =>
    simp only [handle, withPast, setGate_withPast]
    refine ⟨trivial, past, rfl, fun equal => equal.trans ?_⟩
    unfold Chain.setGate
    split <;> rfl
  | subscribe =>
    refine ⟨rfl, past, ?_, id⟩
    simp only [handle, withPast, Chain.withPast, Chain.subscribe, Subscription.after,
      List.map_append, List.map_cons, List.map_nil, List.length_append]
  | receive i =>
    have equal := room.resolve_right fun never => never i rfl
    rcases found : s.subscribers[i]? with - | subscriber
    · simp only [handle, withPast, List.getElem?_map, found, Option.map_none]
      exact ⟨trivial, past, rfl, id⟩
    · have received : (s.chain.withPast past).receive (subscriber.after past.events.length)
          = ((s.chain.receive subscriber).1,
            (s.chain.receive subscriber).2.after past.events.length) := by
        unfold Chain.receive
        rw [← Subscription.receive_after, ← equal]
        rfl
      simp only [handle, withPast, List.getElem?_map, found, Option.map_some, received]
      refine ⟨trivial, past, ?_, id⟩
      rw [List.map_set]
  | reopen settings =>
    have same : attach (s.chain.withPast past).store (s.chain.withPast past).genesis settings
        = attach s.chain.store s.chain.genesis settings := rfl
    simp only [handle, withPast, same]
    rcases attach s.chain.store s.chain.genesis settings with ⟨c | e | w, store⟩
    · exact ⟨rfl, ⟨[], c.tally, c.eventCapacity⟩, rfl, fun _ => rfl⟩
    · exact ⟨rfl, past, rfl, id⟩
    · exact ⟨rfl, past, rfl, id⟩
  | _ => exact ⟨rfl, past, rfl, id⟩

/-- **No replies depend on the past**, but for the room for events where they are
handed out. -/
theorem replies_withPast (requests : List Request) (s : Session) (past : Past)
    (room : past.capacity = s.chain.eventCapacity ∨ ∀ i, .receive i ∉ requests) :
    (s.withPast past).replies requests = s.replies requests := by
  induction requests generalizing s past with
  | nil => rfl
  | cons request rest ih =>
    have here : past.capacity = s.chain.eventCapacity ∨ ∀ i, request ≠ .receive i :=
      room.imp_right fun never i same => never i (same ▸ List.mem_cons_self)
    obtain ⟨reply, past', after, equal⟩ := s.handle_withPast past request here
    unfold replies
    rw [reply, after, ih _ past' (room.imp equal fun never i mem =>
      never i (List.mem_cons_of_mem _ mem))]

end Session

/-! ### Opening the chain again -/

variable {pool offered : List Header} {c : Chain} {settings : Settings}

namespace Sound

/-- The genesis of a sound chain is one that a chain can be opened with. -/
theorem genesis_proper (sound : c.Sound pool) : c.genesis.number = 0 ∧ c.genesis.isSealed := by
  obtain ⟨path, l, -⟩ := sound.spine
  obtain ⟨total, found⟩ := Store.has_iff.mp (l.has_of_mem l.genesis_mem)
  exact ⟨l.genesis_number, sound.rooted.is_sealed found⟩

/-- Opening a sound chain again gives its heads back, if the tier answers and
there is room for the events, and the store is only read. -/
theorem attach_eq (sound : c.Sound pool) (answers : c.store.tier.service.AnswersReads)
    (checked : settings.check = .ok ()) :
    attach c.store c.genesis settings
      = (if greatestChannel < settings.eventCapacity.toNat then .fault .capacityOverflow
          else .ok (placed c.store c.genesis settings (c.headBlock, c.headHeader)), c.store) := by
  have begun := sound.begin_eq c.genesis
  rw [sound.answer_storedHeads answers, ← congrArg (c.headBlock, ·) sound.headHeader] at begun
  exact attach_of_begin checked sound.genesis_proper.1 sound.genesis_proper.2 begun

/-- Opening it with another genesis is an error. -/
theorem attach_other (sound : c.Sound pool) (answers : c.store.tier.service.AnswersReads)
    (checked : settings.check = .ok ()) {other : Header} (number : other.number = 0)
    (is_sealed : other.isSealed) (ne : other.hash ≠ c.genesis.hash) :
    attach c.store other settings
      = (.error (.genesisMismatch c.genesis.hash other.hash), c.store) := by
  have first := sound.answer_first answers
  have mismatch : c.store.answer (storedHeads c.store.rows other c.headBlock.hash)
      = .error (.genesisMismatch c.genesis.hash other.hash) := by
    unfold storedHeads
    rw [Store.answer_bind_of_ok answers (Store.answer_inChain_of_ok first)]
    simp only [if_pos ne.symm]
    rfl
  have begun := sound.begin_eq other
  rw [mismatch] at begun
  exact attach_of_begin_error checked number is_sealed begun

end Sound

/-- Heights below 2^63 are counted as they are. -/
theorem toInt_headNumber_setHead (tally : Tally) {number : UInt64} (low : number.toNat < 2 ^ 63) :
    (tally.setHead number).headNumber.toInt = number.toNat := by
  have same : (tally.setHead number).headNumber.toBitVec.toNat = number.toNat := rfl
  refine (BitVec.toInt_eq_toNat_of_lt ?_).trans (congrArg Nat.cast same)
  omega

/-- What it means that a chain opened again is the chain that was not closed: the
heads are the same, the gauge shows the height of the head, and with the gate and
the rule of the settings all requests get the same replies; where subscribers are
handed events, with the same room for them too. -/
structure Restored (c : Chain) (settings : Settings) (c' : Chain) : Prop where
  headBlock : c'.headBlock = c.headBlock
  headHeader : c'.headHeader = c.headHeader
  gauge : c.headBlock.number.toNat < 2 ^ 63 →
    c'.tally.headNumber.toInt = c.headBlock.number.toNat
  replies : c.gate = settings.gate → c.rule = .retarget settings.retarget →
    ∀ requests : List Request,
      (c.eventCapacity = settings.eventCapacity.toNat ∨ ∀ i, .receive i ∉ requests) →
        (Session.mk c' []).replies requests = (Session.mk c []).replies requests

/-- A chain placed on the store of another, with its heads, is that chain
restored. -/
theorem restored_placed (c : Chain) (settings : Settings) :
    c.Restored settings (placed c.store c.genesis settings (c.headBlock, c.headHeader)) where
  headBlock := rfl
  headHeader := rfl
  gauge := toInt_headNumber_setHead _
  replies := by
    intro gate rule requests room
    let past : Past := ⟨c.events, c.tally, c.eventCapacity⟩
    have same :
        (placed c.store c.genesis settings (c.headBlock, c.headHeader)).withPast past = c := by
      simp only [placed, Chain.withPast, past, ← gate, ← rule, List.append_nil]
    have replies := Session.replies_withPast requests
      ⟨placed c.store c.genesis settings (c.headBlock, c.headHeader), []⟩ past room
    unfold Session.withPast at replies
    rw [same] at replies
    exact replies.symm

/-- **A chain that is opened again is the chain that was closed.**  While the tier
answers and there is room for the events, every reached chain is restored by
opening it with any settings in range, and nothing is written; nor is anything
written where a genesis with another hash is refused.  Where there is no room for
the events opening faults, since no check bounds that room from above. -/
theorem reopen_restores (reached : Reached offered c) (free : CollisionFree offered)
    (answers : c.store.tier.service.AnswersReads) (checked : settings.check = .ok ()) :
    (settings.eventCapacity.toNat ≤ greatestChannel →
      ∃ c', attach c.store c.genesis settings = (.ok c', c.store) ∧ c.Restored settings c') ∧
    (greatestChannel < settings.eventCapacity.toNat →
      attach c.store c.genesis settings = (.fault .capacityOverflow, c.store)) ∧
    ∀ other : Header, other.number = 0 → other.isSealed → other.hash ≠ c.genesis.hash →
      attach c.store other settings
        = (.error (.genesisMismatch c.genesis.hash other.hash), c.store) := by
  have sound := reached.sound free
  have opened := sound.attach_eq answers checked
  refine ⟨fun room => ?_, fun crowded => ?_, fun other number is_sealed ne => ?_⟩
  · rw [if_neg (Nat.not_lt.mpr room)] at opened
    exact ⟨_, opened, restored_placed c settings⟩
  · rwa [if_pos crowded] at opened
  · exact sound.attach_other answers checked number is_sealed ne

/-- A genesis a second after the sample genesis. -/
def otherGenesis : Header := .genesis 1001 131072

/-- The sample chain is restored once its genesis and child are frozen. -/
theorem reopen_restores_sampleLater :
    ∃ c : Chain, c.headBlock = sampleLater ∧
      c.store.tier.items.map (·.header) = [sampleGenesis, sampleChild] ∧
      (∃ c', attach c.store c.genesis {} = (.ok c', c.store) ∧ c.Restored {} c') ∧
      attach c.store otherGenesis {}
        = (.error (.genesisMismatch sampleGenesis.hash otherGenesis.hash), c.store) := by
  let actions : List Action :=
    [.insert [sampleChild, sampleLater], .freeze 0, .serve fun _ _ => none]
  have free : CollisionFree ([sampleGenesis] ++ [sampleChild, sampleLater]) :=
    collisionFree_samples.mono (by simp [samples])
  have begun : (sampleChain.run actions).genesis = sampleGenesis :=
    (((reached_sampleChain []).sound_append free).succeeds_run free actions
      (by simp [actions, Action.headers])).genesis
  have checked : ({} : Settings).check = .ok () := rfl
  have room : ({} : Settings).eventCapacity.toNat ≤ greatestChannel := by decide
  have apart : otherGenesis.hash ≠ sampleGenesis.hash := by decide +kernel
  obtain ⟨restores, -, refuses⟩ := reopen_restores (c := sampleChain.run actions)
    (reached_sampleChain actions) free (fun _ => ⟨rfl, fun _ => rfl⟩) checked
  have refused := refuses otherGenesis rfl (Header.isSealed_sealWith ..) (begun ▸ apart)
  rw [begun] at refused
  -- the last step only changes what the tier refuses
  have whole (c : Chain) (segment : List Header) :
      c.run [.insert segment, .freeze 0, .serve fun _ _ => none]
        = ((c.run [.insert segment]).freeze 0).2.serve fun _ _ => none := rfl
  have served (c : Chain) : (c.serve fun _ _ => none).headBlock = c.headBlock ∧
      (c.serve fun _ _ => none).store.tier.items = c.store.tier.items := ⟨rfl, rfl⟩
  obtain ⟨head, frozen, -⟩ := freeze_sampleGrown
  rw [sampleGrown] at head frozen
  refine ⟨sampleChain.run actions, ?_, ?_, restores room, refused⟩
  · rw [whole, (served _).1, head]
  · rw [whole, (served _).2, frozen]

/-- Opening the sample chain again faults with settings that are all in range. -/
theorem reopen_faults :
    Reached [sampleGenesis] sampleChain ∧ sampleChain.store.tier.service.AnswersReads ∧
      roomySettings.check = .ok () ∧
      attach sampleChain.store sampleChain.genesis roomySettings
        = (.fault .capacityOverflow, sampleChain.store) := by
  have reached : Reached [sampleGenesis] sampleChain := reached_sampleChain []
  have free : CollisionFree [sampleGenesis] := collisionFree_samples.mono (by simp [samples])
  have answers : sampleChain.store.tier.service.AnswersReads := fun _ => ⟨rfl, fun _ => rfl⟩
  have checked : roomySettings.check = .ok () := rfl
  have crowded : greatestChannel < roomySettings.eventCapacity.toNat := by decide
  have opened := (reached.sound free).attach_eq answers checked
  rw [if_pos crowded] at opened
  exact ⟨reached, answers, checked, opened⟩

end Chain

end ForkChoice
