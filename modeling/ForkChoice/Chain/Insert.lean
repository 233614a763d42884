/-
ForkChoice/Chain/Insert.lean

Storing segments.

A segment that is accepted is stored in one batch, whole or not at all.  If it
takes over, the same batch makes it and the branch below it canonical, removes
the canonical entries above its tip, and moves both heads to the tip.  On an
error nothing is written; a segment refused by the gate is blamed on the header
that would have taken over.
-/
import ForkChoice.Chain.Assess

namespace ForkChoice

/-- What became of a segment. -/
structure Receipt where
  /-- The verdict; `none` if the segment held nothing new. -/
  verdict : Option Verdict
  /-- The number of headers that were stored before. -/
  known : Nat
  /-- The number of headers stored now. -/
  written : Nat
  /-- Hash and height of the head afterwards. -/
  head : Hash
  headNumber : UInt64

namespace Chain

/-! ### Batches -/

/-- The new headers, with the total difficulties found for them. -/
def headerRows (x : Candidate) (a : Assessment) : List (Header × Difficulty) :=
  (x.headers.zip a.standings).map fun (h, s) => (h, s.total)

/-- The heights of the old head's chain above the new tip. -/
def heightsAbove (tip head : UInt64) : List UInt64 :=
  (List.range' (tip.toNat + 1) (head.toNat - tip.toNat)).map UInt64.ofNat

/-- The writes that store a side chain. -/
def sideChainBatch (x : Candidate) (a : Assessment) : Batch where
  headers := headerRows x a

/-- The writes that store a segment and move the head to its tip. -/
def headSwitchBatch (x : Candidate) (a : Assessment) : Batch where
  headers := headerRows x a
  removed := heightsAbove x.tip.number a.head.number
  canonical := a.fork.branch ++ x.headers.map fun h => (h.number, h.hash)
  headBlock := some x.tip.hash
  headHeader := some x.tip.hash

/-! ### Inserting -/

/-- Store a side chain. -/
def storeSideChain (c : Chain) (x : Candidate) (a : Assessment) : Chain :=
  { c with
    store := c.store.commit (sideChainBatch x a)
    events := c.events ++ [.sideChain x.tip.number x.tip.hash a.fork.header.number] }

/-- Store a segment and move the head to its tip. -/
def switchHead (c : Chain) (x : Candidate) (a : Assessment) : Chain :=
  { c with
    store := c.store.commit (headSwitchBatch x a)
    headBlock := x.tip
    headHeader := x.tip
    events := c.events ++ [.headChanged x.tip.number x.tip.hash a.head.hash a.reorgDepth]
    tally := (c.tally.setHead x.tip.number).observeReorg (Binary64.ofNat a.reorgDepth) }

/-- The receipt for a segment, from the chain afterwards. -/
def receipt (c : Chain) (verdict : Option Verdict) (known written : Nat) : Receipt :=
  ⟨verdict, known, written, c.headBlock.hash, c.headBlock.number⟩

/-- The index of a rejected header in its segment. -/
def rejectionIndex (x : Candidate) (r : Rejection) : Nat :=
  x.known + (r.number.toNat - x.first.number.toNat)

/-- Carry out the verdict on a segment. -/
def execute (c : Chain) (x : Candidate) (a : Assessment) : Outcome SegmentError Receipt × Chain :=
  match a.verdict with
  | .rejected r => (.error ⟨rejectionIndex x r, .rejected r⟩, c)
  | .sideChain =>
    let c := c.storeSideChain x a
    (.ok (c.receipt (some a.verdict) x.known x.headers.length), c)
  | .headSwitch =>
    let c := c.switchHead x a
    (.ok (c.receipt (some a.verdict) x.known x.headers.length), c)

/-- Assess a segment and, unless it is refused, store it. -/
def insert (c : Chain) (segment : List Header) : Outcome SegmentError Receipt × Chain :=
  match c.store.answer (c.assessment segment) with
  | .fault w => (.fault w, c)
  | .error e => (.error e, { c with tally := c.tally.countFailure e.cause })
  | .ok none => (.ok (c.receipt none segment.length 0), c)
  | .ok (some (x, a)) => { c with tally := c.tally.countVerdict a.verdict }.execute x a

end Chain

end ForkChoice
