/-
ForkChoice/Race.lean

How a candidate segment stands against the canonical chain, header by header.

Each new header is compared with the canonical header of its height, or with
the head if it is higher.  Its standing records the total difficulties of both,
the ratio of the work that each side has done since the fork point, and the
time since then.  `Race.run` goes along a segment, adding up difficulties from
the segment's parent, up to the first header that cannot be compared.
-/
import ForkChoice.Curve
import ForkChoice.ForkPoint

namespace ForkChoice

/-! ### Ratios of work -/

/-- The ratio that stands for any amount of work against none. -/
def unboundedRatio : Float := Binary64.greatest

/-- The work of a candidate over that of the canonical side, both since the
fork point; each amount is rounded to a double before they are divided. -/
def workRatio (fork canonical candidate : Difficulty) : Float :=
  let work := canonical.minus fork
  if work = 0 then unboundedRatio
  else Binary64.ofNat (candidate.minus fork).toNat / Binary64.ofNat work.toNat

/-- The work ratio of three stored headers. -/
def storedRatio (source : Source) (fork canonical candidate : Header) :
    Lookup ChainError Float := do
  let fork ← source.totalOf fork.hash
  let canonical ← source.totalOf canonical.hash
  let candidate ← source.totalOf candidate.hash
  return workRatio fork canonical candidate

/-! ### Standings -/

/-- How a new header stands against the canonical chain. -/
structure Standing where
  number : UInt64
  hash : Hash
  /-- The total difficulty up to and including the header. -/
  total : Difficulty
  /-- The total difficulty of the canonical header it is compared with. -/
  canonicalTotal : Difficulty
  ratio : Float
  /-- Seconds between the fork point and the header. -/
  elapsed : UInt64

namespace Standing

/-- The ratio that a curve requires at the header's time. -/
def required (s : Standing) (curve : Curve) : Float :=
  curve.required (Binary64.ofNat s.elapsed.toNat)

/-- The header reaches the ratio that a curve requires. -/
def passes (s : Standing) (curve : Curve) : Bool := s.ratio ≥ s.required curve

/-- Seconds from one timestamp to another, none if it is not later. -/
def secondsSince (start timestamp : UInt64) : UInt64 :=
  if timestamp ≤ start then 0 else timestamp - start

/-- Compare a header, with its total difficulty, with the canonical chain. -/
def of (source : Source) (fork : ForkPoint) (headNumber : UInt64) (total : Difficulty)
    (h : Header) : Lookup ChainError Standing := do
  let height := if h.number ≤ headNumber then h.number else headNumber
  match ← (source.canonical? height).inChain with
  | none => .fail (.missingHeader h.hash)
  | some canonical =>
    let canonicalTotal ← source.totalOf canonical
    return {
      number := h.number
      hash := h.hash
      total
      canonicalTotal
      ratio := workRatio fork.total canonicalTotal total
      elapsed := secondsSince fork.header.timestamp h.timestamp }

end Standing

/-! ### Races -/

/-- The standings of a segment, as far as they could be taken. -/
structure Race where
  /-- The total difficulty up to and including the last header looked at. -/
  total : Difficulty
  standings : List Standing
  /-- Why the race ended before the segment did, if so. -/
  failure : Option ChainError

namespace Race

/-- Go along a segment whose parent has the given total difficulty. -/
def run (source : Source) (fork : ForkPoint) (headNumber : UInt64) :
    (total : Difficulty) → List Header → Lookup ChainError Race
  | total, [] => return ⟨total, [], none⟩
  | total, h :: rest => do
    let total := total.plus h.difficulty
    match ← (Standing.of source fork headNumber total h).attempt with
    | .error e => return ⟨total, [], some e⟩
    | .ok standing =>
      let race ← run source fork headNumber total rest
      return { race with standings := standing :: race.standings }

end Race

end ForkChoice
