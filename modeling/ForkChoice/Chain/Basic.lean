/-
ForkChoice/Chain/Basic.lean

A chain: a store of headers with a head, the rule for new headers and the gate.

`Chain.attach` puts a chain on a store.  On an empty store it writes the
genesis; otherwise the store must have been begun with the same genesis, and
the heads are the ones it names.  A head header that cannot be found is replaced
by the head block.
-/
import ForkChoice.Event
import ForkChoice.Store.Freeze
import ForkChoice.Tally.Basic

namespace ForkChoice

/-- A chain on a store. -/
structure Chain where
  store : Store
  genesis : Header
  gate : Gate
  rule : Rule
  /-- The canonical head. -/
  headBlock : Header
  headHeader : Header
  /-- How many events a slow subscriber may fall behind. -/
  eventCapacity : Nat
  /-- All events so far, oldest first. -/
  events : List Event := []
  tally : Tally := {}

namespace Chain

/-! ### Putting a chain on a store -/

/-- The writes that begin a chain. -/
def genesisBatch (genesis : Header) : Batch where
  headers := [(genesis, genesis.difficulty)]
  canonical := [(0, genesis.hash)]
  headBlock := some genesis.hash
  headHeader := some genesis.hash

/-- The head block and head header that a store names, for a chain with the
given genesis. -/
def storedHeads (rows : Rows) (genesis : Header) (headHash : Hash) :
    Lookup ChainError (Header × Header) := do
  match ← (rows.findCanonical? 0).inChain with
  | none => .fail (.missingHeader genesis.hash)
  | some stored =>
    if stored ≠ genesis.hash then .fail (.genesisMismatch stored genesis.hash)
    else
      match ← (rows.findHeader? headHash).inChain with
      | none => .fail (.missingHeader headHash)
      | some block =>
        match ← (Lookup.ofExcept rows.headHeader?).inChain with
        | none => return (block, block)
        | some hash => return (block, (← (rows.findHeader? hash).inChain).getD block)

/-- The heads of a chain on a store, and the store with the genesis in it. -/
def begin (store : Store) (genesis : Header) : Outcome ChainError (Header × Header) × Store :=
  match store.rows.headBlock? with
  | .error e => (.error (.storage e), store)
  | .ok none => (.ok (genesis, genesis), store.commit (genesisBatch genesis))
  | .ok (some hash) => (store.answer (storedHeads store.rows genesis hash), store)

/-- The most room for events that a chain can be asked to have.  It is rounded up to a
power of two, and an event takes at least 64 bytes there and less than 128. -/
def greatestChannel : Nat := 2 ^ 56

/-- A channel of that size fits into a buffer, and the next larger one does not. -/
example : greatestChannel ≤ greatestBuffer 127 ∧ greatestBuffer 64 < 2 * greatestChannel := by
  decide

/-- Put a chain on a store.  Beside the chain this gives the store, which may
have changed even if there is no chain: the genesis is written before the room
for events is made. -/
def attach (store : Store) (genesis : Header) (settings : Settings) :
    Outcome ChainError Chain × Store :=
  match settings.check with
  | .error e => (.error (.settings e), store)
  | .ok () =>
    if genesis.number ≠ 0 ∨ ¬ genesis.isSealed then
      (.error (.validation (.hashMismatch genesis.number)), store)
    else
      match begin store genesis with
      | (.error e, store) => (.error e, store)
      | (.fault w, store) => (.fault w, store)
      | (.ok (headBlock, headHeader), store) =>
        if greatestChannel < settings.eventCapacity.toNat then (.fault .capacityOverflow, store)
        else
          let chain : Chain := {
            store, genesis, headBlock, headHeader
            gate := settings.gate
            rule := .retarget settings.retarget
            eventCapacity := settings.eventCapacity.toNat
            tally := ({} : Tally).setHead headBlock.number }
          (.ok chain, store)

/-! ### Settings -/

/-- Replace the rule for new headers. -/
def withRule (c : Chain) (rule : Rule) : Chain := { c with rule }

/-- Switch the gate on or off. -/
def enableGate (c : Chain) (enabled : Bool) : Chain := { c with gate := { c.gate with enabled } }

/-- Replace the settings of the gate, if they are in range. -/
def setGate (c : Chain) (gate : Gate) : Except ChainError Unit × Chain :=
  match gate.check with
  | .error e => (.error (.settings e), c)
  | .ok () => (.ok (), { c with gate })

/-- The ratio that the curve requires after a time, whether or not the gate is
enabled. -/
def required (c : Chain) (elapsed : Float) : Float := c.gate.curve.required elapsed

/-! ### Reading -/

/-- Read the store of a chain. -/
def read {α : Type} (c : Chain) (x : Lookup StoreError α) : Outcome ChainError α :=
  c.store.answer x.inChain

/-- The header with a hash. -/
def header? (c : Chain) (hash : Hash) : Outcome ChainError (Option Header) :=
  c.read (c.store.source.header? hash)

/-- The total difficulty of the header with a hash. -/
def total? (c : Chain) (hash : Hash) : Outcome ChainError (Option Difficulty) :=
  c.read (c.store.source.total? hash)

/-- The canonical header of a height. -/
def canonicalHeader? (c : Chain) (number : UInt64) : Outcome ChainError (Option Header) :=
  c.read (c.store.source.canonicalHeader? number)

/-- The work ratio of three stored headers. -/
def ratio (c : Chain) (fork canonical candidate : Header) : Outcome ChainError Float :=
  c.store.answer (storedRatio c.store.source fork canonical candidate)

/-! ### Events -/

/-- Subscribe to the events from now on. -/
def subscribe (c : Chain) : Subscription := ⟨c.events.length⟩

/-- All that a subscriber has not received yet. -/
def receive (c : Chain) (s : Subscription) : List Notice × Subscription :=
  s.receive c.eventCapacity c.events

/-! ### Freezing -/

/-- Freeze the canonical headers that are more than `keepRecent` below the head. -/
def freeze (c : Chain) (keepRecent : UInt64) : Outcome ChainError Nat × Chain :=
  let limit := if c.headBlock.number ≤ keepRecent then 0 else c.headBlock.number - keepRecent
  let (result, store) := c.store.freeze limit
  (result.mapError .storage, { c with store })

end Chain

end ForkChoice
