/-
ForkChoice/Proofs/Chain/Tallying.lean

What a chain counts is what its insertions returned.

An insertion counts its verdict before it is carried out, and the cause of a
failure after it.  A refusal by the gate is such a failure too, and it is counted
once: as a verdict.  For no assessment ends in a refusal, whatever the store
holds and whoever answers for the tier (`ErrsOnly`, `isRejection_of_assessment`).

`Counts` lists the ways in which an insertion ends with what is counted for each,
and no other request counts anything.  So the counters of a chain that was just
opened agree with the replies to all requests that were made of it since
(`Accounts`, `replies_accounted`).
-/
import ForkChoice.Proofs.Chain.Reopening

namespace ForkChoice

/-! ### Errors of lookups -/

namespace Lookup

variable {ε δ α β : Type} {P : ε → Prop} {x : Lookup ε α}

/-- Whoever answers, the lookup ends with no error but those with the property. -/
def ErrsOnly (P : ε → Prop) (x : Lookup ε α) : Prop :=
  ∀ (t : Tier) (place : Nat) (e : ε), x.runFrom t place = .error e → P e

theorem errsOnly_done {result : Outcome ε α} (holds : ∀ e, result = .error e → P e) :
    (done result).ErrsOnly P :=
  fun _ _ => holds

theorem errsOnly_pure (a : α) : (pure a : Lookup ε α).ErrsOnly P :=
  errsOnly_done nofun

theorem errsOnly_fail {e : ε} (holds : P e) : (fail e : Lookup ε α).ErrsOnly P :=
  errsOnly_done (by rintro _ ⟨⟩; exact holds)

theorem runFrom_bind_eq_error {t : Tier} {f : α → Lookup ε β} {place : Nat} {e : ε}
    (h : (x >>= f).runFrom t place = .error e) :
    x.runFrom t place = .error e ∨
      ∃ a place', x.runFrom t place = .ok a ∧ (f a).runFrom t place' = .error e := by
  change (x.bind f).runFrom t place = .error e at h
  -- as for values, the second part starts at the call after the last of the first
  induction x generalizing place with
  | done result =>
    cases result with
    | ok a => exact .inr ⟨a, place, rfl, h⟩
    | error e' => cases h; exact .inl rfl
    | fault w => cases h
  | count next ih => exact ih _ h
  | fetch number next ih => exact ih _ h

/-- Only what follows a value that can be found matters. -/
theorem ErrsOnly.bind_of {f : α → Lookup ε β} (first : x.ErrsOnly P)
    (second : ∀ t place a, x.runFrom t place = .ok a → (f a).ErrsOnly P) :
    (x >>= f).ErrsOnly P := by
  intro t place e h
  rcases runFrom_bind_eq_error h with failed | ⟨a, place', found, failed⟩
  · exact first t place e failed
  · exact second t place a found t place' e failed

theorem ErrsOnly.bind {f : α → Lookup ε β} (first : x.ErrsOnly P)
    (second : ∀ a, (f a).ErrsOnly P) : (x >>= f).ErrsOnly P :=
  first.bind_of fun _ _ a _ => second a

theorem ErrsOnly.mapError {Q : δ → Prop} {g : ε → δ} (errs : x.ErrsOnly P)
    (restates : ∀ e, P e → Q (g e)) : (x.mapError g).ErrsOnly Q := by
  intro t place e h
  rw [runFrom_mapError] at h
  rcases found : x.runFrom t place with a | cause | w <;> rw [found] at h
  · cases h
  · cases h
    exact restates cause (errs t place cause found)
  · cases h

/-- An attempt has no errors, -/
theorem errsOnly_attempt {Q : δ → Prop} : (x.attempt : Lookup δ (Except ε α)).ErrsOnly Q := by
  intro t place e h
  induction x generalizing place with
  | done result => cases result <;> cases h
  | count next ih => exact ih _ _ h
  | fetch number next ih => exact ih _ _ h

/-- for it hands out the errors of the lookup. -/
theorem runFrom_attempt_eq_error {t : Tier} {place : Nat} {e : ε}
    (h : (x.attempt : Lookup δ (Except ε α)).runFrom t place = .ok (.error e)) :
    x.runFrom t place = .error e := by
  induction x generalizing place with
  | done result =>
    cases result with
    | ok a => cases h
    | error e' => cases h; rfl
    | fault w => cases h
  | count next ih => exact ih _ h
  | fetch number next ih => exact ih _ h

end Lookup

open Lookup

/-! ### Assessments refuse nothing -/

/-- The error is not a refusal by the gate. -/
def ChainError.Unrefused (e : ChainError) : Prop := e.isRejection = false

variable {α : Type}

/-- What the store reports is no refusal. -/
theorem errsOnly_inChain (x : Lookup StoreError α) : x.inChain.ErrsOnly ChainError.Unrefused :=
  ErrsOnly.mapError (P := fun _ => True) (fun _ _ _ _ => trivial) fun _ _ => rfl

theorem Lookup.ErrsOnly.blame {x : Lookup ChainError α} (errs : x.ErrsOnly ChainError.Unrefused)
    (index : Nat) : (x.blame index).ErrsOnly (·.cause.Unrefused) :=
  errs.mapError fun _ unrefused => unrefused

section Source

variable (source : Source)

theorem errsOnly_totalOf (hash : Hash) : (source.totalOf hash).ErrsOnly ChainError.Unrefused := by
  apply (errsOnly_inChain _).bind
  intro total?
  rcases total? with - | total
  · exact errsOnly_fail rfl
  · exact errsOnly_pure _

theorem errsOnly_walk {unknown : ChainError} (unrefused : unknown.Unrefused)
    (retainedFrom steps : Nat) (cursor : Header) (branch : List (UInt64 × Hash)) :
    (ForkPoint.walk source unknown retainedFrom steps cursor branch).ErrsOnly
      ChainError.Unrefused := by
  -- wherever the walk gives up, it is with the error it was given
  induction steps generalizing cursor branch with
  | zero => exact errsOnly_done nofun
  | succ steps ih =>
    unfold ForkPoint.walk
    split
    · exact errsOnly_fail unrefused
    apply (errsOnly_inChain _).bind
    intro canonical
    split
    · exact errsOnly_pure _
    split
    · exact errsOnly_fail unrefused
    apply (errsOnly_inChain _).bind
    intro parent?
    rcases parent? with - | parent
    · exact errsOnly_fail unrefused
    · exact ih _ _

theorem errsOnly_search (parentHash : Hash) (retainedFrom : Nat) :
    (ForkPoint.search source parentHash retainedFrom).ErrsOnly ChainError.Unrefused := by
  apply (errsOnly_inChain _).bind
  intro parent?
  rcases parent? with - | parent
  · exact errsOnly_fail rfl
  have unknown : (ChainError.unknownAncestor parentHash retainedFrom).Unrefused := rfl
  apply (errsOnly_walk source unknown _ _ _ _).bind
  intro found
  exact (errsOnly_totalOf source _).bind fun _ => errsOnly_pure _

theorem errsOnly_standing (fork : ForkPoint) (headNumber : UInt64) (total : Difficulty)
    (h : Header) :
    (Standing.of source fork headNumber total h).ErrsOnly ChainError.Unrefused := by
  apply (errsOnly_inChain _).bind
  intro canonical?
  rcases canonical? with - | canonical
  · exact errsOnly_fail rfl
  · exact (errsOnly_totalOf source _).bind fun _ => errsOnly_pure _

/-- A race has no errors, -/
theorem errsOnly_race (fork : ForkPoint) (headNumber : UInt64) (total : Difficulty)
    (headers : List Header) :
    (Race.run source fork headNumber total headers).ErrsOnly ChainError.Unrefused := by
  induction headers generalizing total with
  | nil => exact errsOnly_pure _
  | cons h headers ih =>
    refine errsOnly_attempt.bind fun standing? => ?_
    rcases standing? with e | standing
    · exact errsOnly_pure _
    · exact (ih _).bind fun _ => errsOnly_pure _

/-- and what cut it short is no refusal. -/
theorem unrefused_of_failure {fork : ForkPoint} {headNumber : UInt64} {total : Difficulty}
    {headers : List Header} {t : Tier} {place : Nat} {race : Race} {e : ChainError}
    (raced : (Race.run source fork headNumber total headers).runFrom t place = .ok race)
    (failed : race.failure = some e) : e.Unrefused := by
  induction headers generalizing total place race with
  | nil =>
    cases raced
    cases failed
  | cons h headers ih =>
    obtain ⟨standing?, place₁, first, raced⟩ := runFrom_bind_eq_ok raced
    rcases standing? with cause | standing
    · cases raced
      cases failed
      exact errsOnly_standing source _ _ _ _ t place _ (runFrom_attempt_eq_error first)
    · obtain ⟨race', place₂, rest, raced⟩ := runFrom_bind_eq_ok raced
      cases raced
      exact ih rest failed

end Source

namespace Chain

theorem errsOnly_judge (c : Chain) (x : Candidate) :
    (c.judge x).ErrsOnly ChainError.Unrefused := by
  apply ((errsOnly_inChain _).bind fun _ => errsOnly_pure _).bind
  intro retained
  apply (errsOnly_search _ _ _).bind
  intro fork
  apply (errsOnly_totalOf _ _).bind
  intro headTotal
  apply (errsOnly_totalOf _ _).bind
  intro parentTotal
  -- a race ends well even if it was cut short: the error stands in its result
  apply (errsOnly_race _ _ _ _ _).bind_of
  intro t place race raced
  split
  · rename_i e failed
    exact errsOnly_fail (unrefused_of_failure _ raced failed)
  · exact errsOnly_pure _

theorem errsOnly_skipKnown (rows : Rows) (known : Nat) (segment : List Header) :
    (skipKnown rows known segment).ErrsOnly (·.cause.Unrefused) := by
  induction segment generalizing known with
  | nil => exact errsOnly_pure _
  | cons h rest ih =>
    apply ((errsOnly_inChain _).blame _).bind
    intro stored
    split
    · exact ih _
    · exact errsOnly_pure _

/-- A rule objects to headers, not to segments. -/
theorem unrefused_of_obey {rule : Rule} {index : Nat} {parent : Header} {headers : List Header}
    {e : SegmentError} (failed : obey rule index parent headers = .error e) :
    e.cause.Unrefused := by
  induction headers generalizing index parent with
  | nil => cases failed
  | cons h rest ih =>
    rw [obey] at failed
    rcases held : rule parent h with ⟨⟩ | v | w <;> rw [held] at failed
    · exact ih failed
    · cases failed
      rfl
    · cases failed

theorem errsOnly_prepare (c : Chain) (segment : List Header) :
    (c.prepare segment).ErrsOnly (·.cause.Unrefused) := by
  unfold prepare
  split
  · exact errsOnly_fail rfl
  apply (errsOnly_skipKnown _ _ _).bind
  intro skipped
  rcases skipped with ⟨known, - | ⟨first, rest⟩⟩
  · exact errsOnly_pure _
  apply ((errsOnly_inChain _).blame _).bind
  intro parent?
  rcases parent? with - | parent
  · exact errsOnly_fail rfl
  · exact (errsOnly_done fun _ => unrefused_of_obey).bind fun _ => errsOnly_pure _

/-- **No assessment ends in a refusal.** -/
theorem isRejection_of_assessment {c : Chain} {segment : List Header} {e : SegmentError}
    (failed : c.store.answer (c.assessment segment) = .error e) :
    e.cause.isRejection = false := by
  have errs : (c.assessment segment).ErrsOnly (·.cause.Unrefused) := by
    apply (c.errsOnly_prepare segment).bind
    intro x?
    rcases x? with - | x
    · exact errsOnly_pure _
    · exact ((c.errsOnly_judge x).blame _).bind fun _ => errsOnly_pure _
  exact errs _ 0 e failed

/-! ### What an insertion counts -/

variable {c : Chain}

/-- The ways in which an insertion ends, with what is counted for each. -/
inductive Counts (c : Chain) : Outcome SegmentError Receipt × Chain → Prop
  | headSwitch {receipt : Receipt} (x : Candidate) (a : Assessment) :
      receipt.verdict = some .headSwitch →
      Counts c (.ok receipt, { c with tally := c.tally.countVerdict .headSwitch }.switchHead x a)
  | sideChain {receipt : Receipt} (x : Candidate) (a : Assessment) :
      receipt.verdict = some .sideChain →
      Counts c (.ok receipt, { c with tally := c.tally.countVerdict .sideChain }.storeSideChain x a)
  | refused (index : Nat) (r : Rejection) :
      Counts c (.error ⟨index, .rejected r⟩, { c with tally := c.tally.countVerdict (.rejected r) })
  /-- Nothing was new, and nothing is counted. -/
  | held {receipt : Receipt} : receipt.verdict = none → Counts c (.ok receipt, c)
  /-- The segment did not get as far as a verdict. -/
  | failed {e : SegmentError} : e.cause.isRejection = false →
      Counts c (.error e, { c with tally := c.tally.countFailure e.cause })
  | faulted (w : Fault) : Counts c (.fault w, c)

theorem counts_insert (c : Chain) (segment : List Header) : c.Counts (c.insert segment) := by
  rcases assessed : c.store.answer (c.assessment segment) with (- | ⟨x, a⟩) | e | w
  · rw [insert_of_held assessed]
    exact .held rfl
  · rw [insert_eq assessed, execute]
    split <;> rename_i verdict <;> rw [verdict]
    · exact .refused _ _
    · exact .sideChain x a rfl
    · exact .headSwitch x a rfl
  · rw [insert_of_error assessed]
    exact .failed (isRejection_of_assessment assessed)
  · rw [insert_of_fault assessed]
    exact .faulted w

end Chain

/-! ### Accounts -/

def Verdict.isSideChain : Verdict → Bool
  | sideChain => true
  | _ => false

def ChainError.isValidation : ChainError → Bool
  | validation _ => true
  | _ => false

/-- The depth that a head switch announces, as it is measured. -/
def Event.depth? : Event → Option Float
  | headChanged _ _ _ depth => some (Binary64.ofNat depth)
  | sideChain .. => none

namespace Chain

namespace Reply

/-- An insertion returned a receipt with such a verdict. -/
def returns (verdict : Verdict → Bool) : Reply → Bool
  | .inserted (.ok receipt) _ => receipt.verdict.any verdict
  | _ => false

/-- An insertion failed with such an error. -/
def fails (cause : ChainError → Bool) : Reply → Bool
  | .inserted (.error e) _ => cause e.cause
  | _ => false

end Reply

/-- What a chain counts: things that its insertions return. -/
inductive Counter where
  | headSwitches
  | sideChains
  | rejections
  | validationFailures
  | unknownAncestors
  /-- The samples of the depth of reorganisations. -/
  | reorgs

namespace Counter

/-- How far a tally has counted. -/
def value (t : Tally) : Counter → Nat
  | headSwitches => t.headSwitches
  | sideChains => t.sideChains
  | rejections => t.rejections
  | validationFailures => t.validationFailures
  | unknownAncestors => t.unknownAncestors
  | reorgs => t.reorgCount

/-- The replies that are to be counted. -/
def counts : Counter → Reply → Bool
  | headSwitches => Reply.returns Verdict.isHeadSwitch
  | sideChains => Reply.returns Verdict.isSideChain
  | rejections => Reply.fails ChainError.isRejection
  | validationFailures => Reply.fails ChainError.isValidation
  | unknownAncestors => Reply.fails ChainError.isUnknownAncestor
  | reorgs => Reply.returns Verdict.isHeadSwitch

end Counter

variable {c c' : Chain} {result : Outcome SegmentError Receipt} {replies : List Reply}

/-- **An insertion is counted by what it returns**, once by each counter for it and
by no other. -/
theorem Counts.value_eq (counts : c.Counts (result, c')) (sent : List Event) (k : Counter) :
    k.value c'.tally = k.value c.tally + (k.counts (.inserted result sent)).toNat := by
  cases counts with
  | @headSwitch receipt x a verdict =>
    obtain ⟨_, _, _, _, _⟩ := receipt
    cases verdict
    cases k with
    | reorgs => exact List.length_append
    | _ => rfl
  | @sideChain receipt x a verdict =>
    obtain ⟨_, _, _, _, _⟩ := receipt
    cases verdict
    cases k <;> rfl
  | refused index r => cases k <;> rfl
  | @held receipt verdict =>
    obtain ⟨_, _, _, _, _⟩ := receipt
    cases verdict
    cases k <;> rfl
  | @failed e unrefused =>
    -- a refusal without a verdict would go uncounted
    obtain ⟨index, cause⟩ := e
    cases cause with
    | rejected r => cases unrefused
    | _ => cases k <;> rfl
  | faulted w => cases k <;> rfl

/-- What the counters of a chain have to do with each other, with its events and
with its head. -/
structure Balanced (c : Chain) : Prop where
  verdicts : c.tally.segmentsEvaluated
    = c.tally.headSwitches + c.tally.sideChains + c.tally.rejections
  /-- The depths that were measured are those that were announced. -/
  depths : c.tally.reorgDepths = c.events.filterMap Event.depth?
  gauge : c.headBlock.number.toNat < 2 ^ 63 →
    c.tally.headNumber.toInt = c.headBlock.number.toNat

/-- Failures are counted by themselves. -/
theorem Balanced.countFailure (balanced : c.Balanced) (e : ChainError) :
    { c with tally := c.tally.countFailure e }.Balanced := by
  obtain ⟨verdicts, depths, gauge⟩ := balanced
  unfold Tally.countFailure
  split <;> exact ⟨verdicts, depths, gauge⟩

/-- **An insertion keeps the counters balanced.** -/
theorem Counts.balanced (counts : c.Counts (result, c')) (balanced : c.Balanced) :
    c'.Balanced := by
  have failure := balanced.countFailure
  obtain ⟨verdicts, depths, gauge⟩ := balanced
  cases counts with
  | headSwitch x a _ =>
    refine ⟨?_, ?_, toInt_headNumber_setHead c.tally⟩
    · show c.tally.segmentsEvaluated + 1
        = c.tally.headSwitches + 1 + c.tally.sideChains + c.tally.rejections
      omega
    · show c.tally.reorgDepths ++ [_] = (c.events ++ [_]).filterMap Event.depth?
      rw [List.filterMap_append, depths]
      rfl
  | sideChain x a _ =>
    refine ⟨?_, ?_, gauge⟩
    · show c.tally.segmentsEvaluated + 1
        = c.tally.headSwitches + (c.tally.sideChains + 1) + c.tally.rejections
      omega
    · show c.tally.reorgDepths = (c.events ++ [_]).filterMap Event.depth?
      rw [List.filterMap_append, depths]
      exact (List.append_nil _).symm
  | refused index r =>
    refine ⟨?_, depths, gauge⟩
    show c.tally.segmentsEvaluated + 1
      = c.tally.headSwitches + c.tally.sideChains + (c.tally.rejections + 1)
    omega
  | held _ => exact ⟨verdicts, depths, gauge⟩
  | failed _ => exact failure _
  | faulted _ => exact ⟨verdicts, depths, gauge⟩

/-! ### Accounts -/

/-- The counters of a chain are balanced, and agree with the replies to the
requests that were made of it. -/
structure Accounts (c : Chain) (replies : List Reply) : Prop extends c.Balanced where
  counted : ∀ k : Counter, k.value c.tally = replies.countP k.counts

namespace Accounts

/-- A reply is entered as one more, or not at all. -/
theorem countP_concat {α : Type} (p : α → Bool) (l : List α) (a : α) :
    (l ++ [a]).countP p = l.countP p + (p a).toNat := by
  rw [List.countP_append, List.countP_singleton]
  cases p a <;> rfl

/-- What an insertion counts is entered with its reply, -/
theorem insertion (accounts : c.Accounts replies) (counts : c.Counts (result, c'))
    (sent : List Event) : c'.Accounts (replies ++ [.inserted result sent]) where
  toBalanced := counts.balanced accounts.toBalanced
  counted k := by rw [counts.value_eq sent, accounts.counted, countP_concat]

/-- and no other reply is entered. -/
theorem quiet (accounts : c.Accounts replies) {reply : Reply}
    (other : ∀ result sent, reply ≠ .inserted result sent) (tally : c'.tally = c.tally)
    (events : c'.events = c.events) (head : c'.headBlock = c.headBlock) :
    c'.Accounts (replies ++ [reply]) := by
  obtain ⟨⟨verdicts, depths, gauge⟩, counted⟩ := accounts
  rw [← tally] at verdicts depths gauge counted
  rw [← events] at depths
  rw [← head] at gauge
  refine ⟨⟨verdicts, depths, gauge⟩, fun k => ?_⟩
  have not_counted : k.counts reply = false := by
    cases reply with
    | inserted result sent => exact absurd rfl (other result sent)
    | _ => cases k <;> rfl
  rw [countP_concat, not_counted]
  exact counted k

/-- **Every request keeps the accounts**, as long as the chain is not opened
again. -/
theorem handle {s : Session} (accounts : s.chain.Accounts replies) {request : Request}
    (stays : ∀ settings, request ≠ .reopen settings) :
    (s.handle request).2.chain.Accounts (replies ++ [(s.handle request).1]) := by
  cases request with
  | insert segment => exact accounts.insertion (s.chain.counts_insert segment) _
  | reopen settings => exact absurd rfl (stays settings)
  | setGate gate =>
    unfold Session.handle Chain.setGate
    dsimp only
    split <;> exact accounts.quiet nofun rfl rfl rfl
  | receive i =>
    unfold Session.handle
    dsimp only
    split <;> exact accounts.quiet nofun rfl rfl rfl
  | _ => exact accounts.quiet nofun rfl rfl rfl

end Accounts

/-- The session after requests made one after the other. -/
def Session.after (s : Session) : List Request → Session :=
  List.foldl (fun s request => (s.handle request).2) s

/-- **Any number of requests keeps the accounts.** -/
theorem Accounts.after {s : Session} (accounts : s.chain.Accounts replies)
    {requests : List Request} (stays : ∀ settings, .reopen settings ∉ requests) :
    (s.after requests).chain.Accounts (replies ++ s.replies requests) := by
  -- the session moves on and its replies become part of those given before
  induction requests generalizing s replies with
  | nil => rwa [Session.replies, List.append_nil]
  | cons request rest ih =>
    have here : (s.handle request).2.chain.Accounts (replies ++ [(s.handle request).1]) :=
      accounts.handle fun settings same => stays settings (same ▸ List.mem_cons_self)
    have later := ih here fun settings mem => stays settings (List.mem_cons_of_mem _ mem)
    rwa [List.append_assoc, List.singleton_append] at later

variable {store store' : Store} {genesis : Header} {settings : Settings}

/-- A chain that was just opened has nothing on its accounts. -/
theorem accounts_of_attach (attached : attach store genesis settings = (.ok c, store')) :
    c.Accounts [] := by
  obtain ⟨heads, rfl⟩ := eq_placed_of_attach attached
  exact ⟨⟨rfl, rfl, toInt_headNumber_setHead {}⟩, fun k => by cases k <;> rfl⟩

/-- **The counters account for every insertion.**  Whatever is asked of a chain from
the moment it was opened until it is opened again, its counters agree with the
replies. -/
theorem replies_accounted {s : Session}
    (attached : attach store genesis settings = (.ok s.chain, store')) (requests : List Request)
    (stays : ∀ settings, .reopen settings ∉ requests) :
    (s.after requests).chain.Accounts (s.replies requests) := by
  have accounts := (accounts_of_attach attached).after stays
  rwa [List.nil_append] at accounts

/-- A header before its parent, a head switch, a side chain after a dry run of it,
another head switch and a segment that is out of order.  A freeze and a header that
is known come last. -/
def sampleRequests : List Request :=
  [.insert [sampleLater], .insert [sampleChild], .assess [sampleSibling], .insert [sampleSibling],
    .insert [sampleChild, sampleLater], .insert [sampleChild, sampleChild], .freeze 0,
    .insert [sampleSibling]]

def sampleSession : Session := ⟨sampleChain, []⟩

def sampleTally : Tally := (sampleSession.after sampleRequests).chain.tally

theorem sampleTally_values :
    sampleTally.segmentsEvaluated = 3 ∧ sampleTally.headSwitches = 2 ∧
      sampleTally.sideChains = 1 ∧ sampleTally.validationFailures = 1 ∧
      sampleTally.unknownAncestors = 1 ∧ sampleTally.reorgCount = 2 := by
  decide +kernel

/-- They are counted one by one; the dry run and what comes last are not. -/
theorem replies_accounted_sampleRequests :
    (sampleTally.segmentsEvaluated = 3 ∧ sampleTally.headSwitches = 2 ∧
      sampleTally.sideChains = 1 ∧ sampleTally.validationFailures = 1 ∧
      sampleTally.unknownAncestors = 1 ∧ sampleTally.reorgCount = 2) ∧
      (sampleSession.after sampleRequests).chain.Accounts
        (sampleSession.replies sampleRequests) := by
  have attached : attach (Store.serve {} fun _ _ => none) sampleGenesis {}
      = (.ok sampleSession.chain, genesisStore (fun _ _ => none) sampleGenesis) :=
    attach_empty _ rfl rfl (Header.isSealed_sealWith ..) (by decide)
  exact ⟨sampleTally_values,
    replies_accounted attached sampleRequests (by simp [sampleRequests])⟩

end Chain

end ForkChoice
