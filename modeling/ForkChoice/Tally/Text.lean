/-
ForkChoice/Tally/Text.lean

The counters of a chain in the text format that monitoring systems collect.

Each family of samples has a line of help, a line with its kind, and its
samples, one a line.  Families stand in the order of their names.  The depths of
reorganisations form a histogram: for each bound the number of depths up to it,
then all of them, their sum and their number.
-/
import ForkChoice.Binary64.Text
import ForkChoice.Tally.Basic

namespace ForkChoice

/-- A named group of samples: each has an ending to the name and a value. -/
structure Family where
  name : String
  help : String
  kind : String
  samples : List (String × Float)

/-- What all names begin with. -/
def Family.namespaceText : String := "mess_"

/-- The lines of a family. -/
def Family.text (f : Family) : String :=
  let name := Family.namespaceText ++ f.name
  "# HELP " ++ name ++ " " ++ f.help ++ "\n"
    ++ "# TYPE " ++ name ++ " " ++ f.kind ++ "\n"
    ++ String.join (f.samples.map fun (ending, value) =>
      name ++ ending ++ " " ++ Binary64.shortest value ++ "\n")

namespace Tally

/-- A family with one counter. -/
def counter (name help : String) (count : Nat) : Family :=
  ⟨name, help, "counter", [("", Binary64.ofNat count)]⟩

/-- The double nearest to a signed number. -/
def signed (n : Int64) : Float :=
  if n < 0 then -Binary64.ofNat n.toInt.natAbs else Binary64.ofNat n.toInt.natAbs

/-- The bounds of the histogram. -/
def reorgBounds : List Nat := [0, 1, 2, 4, 8, 16, 64, 256, 1024]

/-- The ending of a sample that counts depths up to a bound. -/
def bucket (bound : String) : String := "_bucket\x7ble=\"" ++ bound ++ "\"\x7d"

/-- The histogram of the depths of reorganisations. -/
def histogram (t : Tally) : Family where
  name := "reorg_depth"
  help := "Canonical headers retired per head switch"
  kind := "histogram"
  samples :=
    reorgBounds.map (fun bound =>
      (bucket bound.repr, Binary64.ofNat (t.reorgsWithin (Binary64.ofNat bound))))
    ++ [(bucket "+Inf", Binary64.ofNat t.reorgCount), ("_sum", t.reorgSum),
      ("_count", Binary64.ofNat t.reorgCount)]

/-- All families, in the order of their names. -/
def families (t : Tally) : List Family :=
  [ counter "finality_rejections_total"
      "Candidates rejected by the artificial finality gate" t.rejections,
    ⟨"head_number", "Height of the canonical head", "gauge", [("", signed t.headNumber)]⟩,
    counter "head_switches_total" "Candidates that became the canonical chain" t.headSwitches,
    t.histogram,
    counter "segments_evaluated_total" "Candidate segments evaluated" t.segmentsEvaluated,
    counter "side_chains_total" "Candidates stored as side chains" t.sideChains,
    counter "unknown_ancestors_total"
      "Candidates with no common ancestor in retained history" t.unknownAncestors,
    counter "validation_failures_total" "Candidates failing header validation"
      t.validationFailures ]

/-- The counters as text. -/
def text (t : Tally) : String := String.join (t.families.map Family.text)

end Tally

end ForkChoice
