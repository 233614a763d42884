/-
ForkChoice.lean

Chain selection by total difficulty with a finality gate: headers and their
hashes, a two-tier store, the rule for new headers, the search for fork points,
the curves that forks are measured against, and the chain that decides.
-/
import ForkChoice.Chain.Insert
import ForkChoice.Forge
import ForkChoice.Header.Json
import ForkChoice.Proofs.Chain.Delivery
import ForkChoice.Proofs.Chain.Finality
import ForkChoice.Proofs.Chain.Heaviest
import ForkChoice.Proofs.Chain.Horizon
import ForkChoice.Proofs.Chain.Records
import ForkChoice.Settings.Json
import ForkChoice.Tally.Text
import ForkChoice.Proofs.Chain.Atomicity
import ForkChoice.Proofs.Chain.Failures
import ForkChoice.Proofs.Store.Duplicates
import ForkChoice.Proofs.Chain.Opening
import ForkChoice.Proofs.Chain.Stranded
import ForkChoice.Proofs.Chain.Confluence
import ForkChoice.Proofs.Chain.Increase
import ForkChoice.Proofs.Gating
import ForkChoice.Proofs.Chain.Announcing
import ForkChoice.Proofs.Chain.Reopening
import ForkChoice.Proofs.Chain.Tightening
import ForkChoice.Proofs.Chain.Diagnosing
import ForkChoice.Proofs.Chain.Overtaking
import ForkChoice.Proofs.Chain.Ruling
import ForkChoice.Proofs.Meeting
import ForkChoice.Proofs.Retargeting
import ForkChoice.Proofs.Store.Committing
import ForkChoice.Proofs.Forging
import ForkChoice.Proofs.Chain.Extending
import ForkChoice.Proofs.Chain.Tallying
import ForkChoice.Proofs.Layout
