/-
ForkChoice/Proofs/Chain/Opening.lean

What an attempt to open a chain comes to.

Opening checks the settings and the genesis, then reads the heads of the store
or, where it names none, writes the genesis, and makes room for events last.
The first three steps can fail only before anything is written.  The last comes
after the write, and it does not fail but fault: the settings bound the room for
events from below and not from above.

`Atomic` is what one asks of such an attempt.  On a store without a head
`attach_atomic_iff` says when opening is atomic, and what it leaves where it is
not.
-/
import ForkChoice.Proofs.Chain.Runs

namespace ForkChoice.Chain

variable {store : Store} {settings : Settings}

/-! ### Atomic openings -/

/-- An attempt on a store that either comes off, or ends in an error and leaves
the store as it was.  It does not fault. -/
inductive Atomic {ε α : Type} (store : Store) : Outcome ε α × Store → Prop
  | comesOff (a : α) (s : Store) : Atomic store (.ok a, s)
  | refused (e : ε) : Atomic store (.error e, store)

/-- **Opening is atomic on a store without a head as long as the room for events
can be made.**  With settings in range a proper genesis is written and the chain
stands on it, and any other is refused.  But no check bounds the room for events:
where a proper genesis meets more than a channel can have, opening faults, and
leaves the store begun. -/
theorem attach_atomic_iff (genesis : Header) (checked : settings.check = .ok ())
    (blank : store.rows.headBlock? = .ok none) :
    (Atomic store (attach store genesis settings) ↔
      (genesis.number = 0 ∧ genesis.isSealed → settings.eventCapacity.toNat ≤ greatestChannel)) ∧
    (¬ Atomic store (attach store genesis settings) →
      attach store genesis settings
        = (.fault .capacityOverflow, store.commit (genesisBatch genesis))) := by
  by_cases proper : genesis.number = 0 ∧ genesis.isSealed
  · have opened := attach_of_begin checked proper.1 proper.2 (begin_blank blank)
    by_cases room : settings.eventCapacity.toNat ≤ greatestChannel
    · rw [if_neg (Nat.not_lt.mpr room)] at opened
      have comes_off : Atomic store (attach store genesis settings) := opened ▸ .comesOff _ _
      exact ⟨iff_of_true comes_off fun _ => room, fun broken => (broken comes_off).elim⟩
    · rw [if_pos (Nat.not_le.mp room)] at opened
      have faults : ¬ Atomic store (attach store genesis settings) := by
        rw [opened]
        intro atomic
        cases atomic
      exact ⟨iff_of_false faults fun bounded => room (bounded proper), fun _ => opened⟩
  · have refused : Atomic store (attach store genesis settings) :=
      attach_improper store checked proper ▸ .refused _
    exact ⟨iff_of_true refused fun is_proper => (proper is_proper).elim,
      fun broken => (broken refused).elim⟩

/-- The default settings open a chain of the sample genesis on an empty store. -/
theorem attach_atomic_iff_sampleGenesis :
    ({} : Settings).check = .ok () ∧ ({} : Store).rows.headBlock? = .ok none ∧
      Atomic {} (attach {} sampleGenesis {}) := by
  have checked : ({} : Settings).check = .ok () := rfl
  have blank : ({} : Store).rows.headBlock? = .ok none := rfl
  have room : ({} : Settings).eventCapacity.toNat ≤ greatestChannel := by decide
  exact ⟨checked, blank, (attach_atomic_iff sampleGenesis checked blank).1.mpr fun _ => room⟩

/-- Settings that are in range, with half of the address space as the room for
events. -/
def roomySettings : Settings := { eventCapacity := 9223372036854775808 }

/-- Opening is not atomic with all settings in range: these fault on an empty
store, and the genesis is written and is the head. -/
theorem attach_faults_begun :
    roomySettings.check = .ok () ∧
      (attach {} sampleGenesis roomySettings).1 = .fault .capacityOverflow ∧
      (attach {} sampleGenesis roomySettings).2 ≠ {} ∧
      (attach {} sampleGenesis roomySettings).2.rows.headBlock? = .ok (some sampleGenesis.hash) := by
  have checked : roomySettings.check = .ok () := rfl
  have blank : ({} : Store).rows.headBlock? = .ok none := rfl
  have number : sampleGenesis.number = 0 := rfl
  have opened := attach_of_begin checked number (Header.isSealed_sealWith ..) (begin_blank blank)
  have crowded : greatestChannel < roomySettings.eventCapacity.toNat := by decide
  rw [if_pos crowded] at opened
  have head : ((({} : Store).commit (genesisBatch sampleGenesis)).rows.headBlock?)
      = .ok (some sampleGenesis.hash) := Rows.headBlock?_commit _ _
  rw [opened]
  refine ⟨checked, rfl, ?_, head⟩
  intro same
  change ({} : Store).commit (genesisBatch sampleGenesis) = {} at same
  rw [same] at head
  cases head

end ForkChoice.Chain
