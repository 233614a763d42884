/-
ForkChoice/Proofs/Forging.lean

What a run of made headers is, and when its headers come.

`Forge.Makes` says field by field what the next header is, `Forge.MakesRun` that each
header of a run is the next one after the header before it.  Making headers comes to
just that (`next_eq_ok_iff`, `run_eq_ok_iff`), so the headers of a run are sealed and
valid one above the other, and each comes by its spacing after the one before it
(`MakesRun.timestamp`).  With parameters in range a run is made unless it leaves the
heights, the timestamps or the memory there are (`exists_run`).

`Forge.intended` is the spacing that is meant, a sum of integers.  The spacing that is
kept is never more, and is less where the target spacing or the sum does not fit
the signed numbers that it is computed in (`spacing_eq_intended_iff`).  The times of a
run are as meant exactly up to the first such header (`timestamps_exact_iff`).
-/
import ForkChoice.Forge
import ForkChoice.Proofs.Chain.Faults
import Mathlib.Algebra.BigOperators.Ring.Finset
import Mathlib.Algebra.Order.BigOperators.Group.Finset
import Mathlib.Algebra.Order.Ring.Int

namespace ForkChoice

open Finset

/-- A sealed header is all that it was sealed from. -/
theorem Header.sealWith_of_isSealed {h : Header} (is_sealed : h.isSealed) :
    sealWith h.number h.parentHash h.timestamp h.difficulty h.nonce = h :=
  Header.ext rfl (of_decide_eq_true is_sealed).symm rfl rfl rfl rfl

namespace Forge

variable {forge : Forge} {parent h : Header} {plan : Plan} {plans : Nat → Plan}
  {index count i : Nat} {headers : List Header} {offset : Int64}

/-! ### One header -/

/-- A header is the one that is made above `parent` by a plan. -/
structure Makes (forge : Forge) (parent : Header) (plan : Plan) (h : Header) : Prop
    extends parent.Continues h where
  timestamp : h.timestamp.toNat = parent.timestamp.toNat + forge.spacing plan.offset
  difficulty : forge.retarget.required parent h.timestamp = .ok h.difficulty
  nonce : h.nonce = plan.nonce
  is_sealed : h.isSealed

theorem Makes.next (made : forge.Makes parent plan h) : forge.next parent plan = .ok h := by
  have above : parent.nextNumber? = some h.number := Header.nextNumber?_eq_some_iff.mpr made.number
  have time : UInt64.ofNat (parent.timestamp.toNat + forge.spacing plan.offset) = h.timestamp := by
    rw [← made.timestamp, UInt64.ofNat_toNat]
  have fits : ¬ 2 ^ 64 ≤ parent.timestamp.toNat + forge.spacing plan.offset := by
    have := h.timestamp.toNat_lt
    have := made.timestamp
    omega
  unfold Forge.next
  dsimp only
  rw [if_neg (by simp [above]), if_neg fits, time, made.difficulty]
  show parent.child h.timestamp h.difficulty plan.nonce = _
  rw [Header.child, above, ← made.nonce, ← made.link]
  exact congrArg _ (Header.sealWith_of_isSealed made.is_sealed)

theorem makes_of_next (made : forge.next parent plan = .ok h) : forge.Makes parent plan h := by
  unfold Forge.next at made
  dsimp only at made
  split at made
  · cases made
  split at made
  · cases made
  rename_i fits
  obtain ⟨difficulty, required, made⟩ := except_bind_eq_ok made
  unfold Header.child at made
  split at made
  · rename_i number above
    obtain ⟨⟩ := made
    have time : (UInt64.ofNat (parent.timestamp.toNat + forge.spacing plan.offset)).toNat
        = parent.timestamp.toNat + forge.spacing plan.offset :=
      UInt64.toNat_ofNat_of_lt' (Nat.lt_of_not_le fits)
    exact { number := Header.nextNumber?_eq_some_iff.mp above
            link := rfl
            timestamp := time
            difficulty := required
            nonce := rfl
            is_sealed := Header.isSealed_sealWith .. }
  · cases made

/-- **To make a header** is to give it the fields that are called for. -/
theorem next_eq_ok_iff : forge.next parent plan = .ok h ↔ forge.Makes parent plan h :=
  ⟨makes_of_next, Makes.next⟩

theorem one_le_spacing : 1 ≤ forge.spacing offset := by
  unfold spacing
  omega

theorem Makes.valid (made : forge.Makes parent plan h) : forge.retarget.Valid parent h where
  toContinues := made.toContinues
  later := by
    have := @one_le_spacing forge plan.offset
    have := made.timestamp
    exact UInt64.lt_iff_toNat_lt.mpr (by omega)
  difficulty := made.difficulty

/-- With parameters in range the next header is made if there is a height and a time
for it. -/
theorem exists_makes (checked : forge.retarget.check = .ok ())
    (height : parent.number.toNat + 1 < 2 ^ 64)
    (time : parent.timestamp.toNat + forge.spacing plan.offset < 2 ^ 64) :
    ∃ h, forge.Makes parent plan h := by
  obtain ⟨difficulty, required⟩ := Retarget.exists_required checked parent
    (.ofNat (parent.timestamp.toNat + forge.spacing plan.offset))
  exact ⟨.sealWith (.ofNat (parent.number.toNat + 1)) parent.hash _ difficulty plan.nonce,
    { number := UInt64.toNat_ofNat_of_lt' height
      link := rfl
      timestamp := UInt64.toNat_ofNat_of_lt' time
      difficulty := required
      nonce := rfl
      is_sealed := Header.isSealed_sealWith .. }⟩

/-! ### Runs -/

/-- The first of the spacings from an index on, and those from the next index on. -/
theorem sum_spacing_succ (forge : Forge) (plans : Nat → Plan) (index n : Nat) :
    ∑ j ∈ range (n + 1), forge.spacing (plans (index + j)).offset
      = forge.spacing (plans index).offset
        + ∑ j ∈ range n, forge.spacing (plans (index + 1 + j)).offset := by
  rw [sum_range_succ', Nat.add_comm, Nat.add_zero]
  refine congrArg _ (sum_congr rfl fun j _ => ?_)
  rw [Nat.add_assoc, Nat.add_comm 1]

/-- Headers are made one above the other, the first above `parent` and by the plan of
the given index. -/
inductive MakesRun (forge : Forge) (plans : Nat → Plan) :
    (index : Nat) → (parent : Header) → List Header → Prop
  | nil {index : Nat} {parent : Header} : MakesRun forge plans index parent []
  | cons {index : Nat} {parent h : Header} {rest : List Header} :
      forge.Makes parent (plans index) h → MakesRun forge plans (index + 1) h rest →
      MakesRun forge plans index parent (h :: rest)

theorem runFrom_eq_ok_iff :
    forge.runFrom plans count index parent = .ok headers ↔
      headers.length = count ∧ forge.MakesRun plans index parent headers := by
  constructor
  · intro made
    induction count generalizing index parent headers with
    | zero =>
      cases made
      exact ⟨rfl, .nil⟩
    | succ count ih =>
      obtain ⟨h, first, made⟩ := except_bind_eq_ok made
      obtain ⟨rest, others, made⟩ := except_bind_eq_ok made
      cases made
      obtain ⟨length, made⟩ := ih others
      exact ⟨congrArg (· + 1) length, .cons (next_eq_ok_iff.mp first) made⟩
  · rintro ⟨rfl, made⟩
    induction made with
    | nil => rfl
    | cons first _ others =>
      rw [List.length_cons, runFrom, next_eq_ok_iff.mpr first]
      show (do return _ :: (← forge.runFrom plans _ _ _)) = _
      rw [others]
      rfl

/-- **To make a run** of headers is to make so many headers one above the other. -/
theorem run_eq_ok_iff :
    forge.run parent count plans = .ok headers ↔
      count ≤ greatestRun ∧ headers.length = count ∧ forge.MakesRun plans 0 parent headers := by
  unfold run
  rw [← runFrom_eq_ok_iff]
  split
  · rename_i crowded
    constructor
    · intro made
      cases made
    · rintro ⟨room, -⟩
      exact absurd crowded (Nat.not_lt_of_le room)
  · rename_i room
    exact ⟨fun made => ⟨Nat.le_of_not_lt room, made⟩, And.right⟩

namespace MakesRun

/-- Made headers are valid one above the other, -/
theorem isChain (made : forge.MakesRun plans index parent headers) :
    (parent :: headers).IsChain forge.retarget.Valid := by
  induction made with
  | nil => exact List.isChain_singleton _
  | cons first _ rest => exact List.isChain_cons_cons.mpr ⟨first.valid, rest⟩

/-- and sealed. -/
theorem all_sealed (made : forge.MakesRun plans index parent headers) :
    ∀ h ∈ headers, h.isSealed := by
  induction made with
  | nil => exact List.forall_mem_nil _
  | cons first _ rest => exact List.forall_mem_cons.mpr ⟨first.is_sealed, rest⟩

/-- Their times add up the spacings. -/
theorem timestamp (made : forge.MakesRun plans index parent headers) (lt : i < headers.length) :
    headers[i].timestamp.toNat = parent.timestamp.toNat
      + ∑ j ∈ range (i + 1), forge.spacing (plans (index + j)).offset := by
  induction made generalizing i with
  | nil => cases lt
  | cons first _ ih =>
    cases i with
    | zero => simpa using first.timestamp
    | succ i =>
      have rest := ih (Nat.lt_of_succ_lt_succ lt)
      rw [List.getElem_cons_succ, rest, first.timestamp, sum_spacing_succ _ _ _ (i + 1), Nat.add_assoc]

end MakesRun

/-- With parameters in range headers are made as long as there are heights and times
for them. -/
theorem exists_makesRun (checked : forge.retarget.check = .ok ())
    (heights : parent.number.toNat + count < 2 ^ 64)
    (times : parent.timestamp.toNat
      + ∑ j ∈ range count, forge.spacing (plans (index + j)).offset < 2 ^ 64) :
    ∃ headers, headers.length = count ∧ forge.MakesRun plans index parent headers := by
  induction count generalizing index parent with
  | zero => exact ⟨[], rfl, .nil⟩
  | succ count ih =>
    rw [sum_spacing_succ] at times
    obtain ⟨h, first⟩ : ∃ h, forge.Makes parent (plans index) h :=
      exists_makes checked (by omega) (by omega)
    have number := first.number
    have timestamp := first.timestamp
    obtain ⟨rest, length, others⟩ := @ih h (index + 1) (by omega) (by omega)
    exact ⟨h :: rest, congrArg (· + 1) length, .cons first others⟩

/-- **With parameters in range a run is made** if there are heights and times for it
and a buffer holds it. -/
theorem exists_run (checked : forge.retarget.check = .ok ()) (room : count ≤ greatestRun)
    (heights : parent.number.toNat + count < 2 ^ 64)
    (times : parent.timestamp.toNat
      + ∑ j ∈ range count, forge.spacing (plans j).offset < 2 ^ 64) :
    ∃ headers, forge.run parent count plans = .ok headers := by
  obtain ⟨headers, length, made⟩ : ∃ headers : List Header, headers.length = count ∧
      forge.MakesRun plans 0 parent headers :=
    exists_makesRun checked heights (by simpa using times)
  exact ⟨headers, run_eq_ok_iff.mpr ⟨room, length, made⟩⟩

/-! ### Spacings -/

/-- The spacing that is meant: the target spacing and the offset, but at least a second. -/
def intended (forge : Forge) (offset : Int64) : Int :=
  max 1 (forge.interval.toNat + offset.toInt)

/-- The spacing that is meant is a second, or else it and the target spacing are signed
numbers of 64 bits. -/
def Measured (forge : Forge) (offset : Int64) : Prop :=
  (forge.interval.toNat : Int) + offset.toInt ≤ 1 ∨
    forge.interval.toNat < 2 ^ 63 ∧ (forge.interval.toNat : Int) + offset.toInt < 2 ^ 63

instance (forge : Forge) (offset : Int64) : Decidable (forge.Measured offset) :=
  inferInstanceAs (Decidable (_ ∨ _))

/-- The upper half of the unsigned numbers counts as negative. -/
theorem toInt_toInt64 (x : UInt64) :
    x.toInt64.toInt = if x.toNat < 2 ^ 63 then (x.toNat : Int) else x.toNat - 2 ^ 64 := by
  show x.toBitVec.toInt = _
  rw [BitVec.toInt_eq_toNat_cond, UInt64.toNat_toBitVec]
  omega

theorem spacing_le_intended : (forge.spacing offset : Int) ≤ forge.intended offset := by
  have unsigned := toInt_toInt64 forge.interval
  unfold spacing addCapped intended
  omega

theorem spacing_eq_intended_iff :
    (forge.spacing offset : Int) = forge.intended offset ↔ forge.Measured offset := by
  have unsigned := toInt_toInt64 forge.interval
  have := forge.interval.toNat_lt
  have := offset.toInt_lt
  unfold spacing addCapped intended Measured
  split at unsigned <;> omega

/-- **Headers come as meant until a spacing does not fit.**  With parameters in range,
heights, times and a buffer for them, the headers of a run are made.  None comes later
than the spacings up to it that are meant add up to, and it comes just then exactly if
each of them is a second, or fits the signed numbers together with the target spacing. -/
theorem timestamps_exact_iff (forge : Forge) (parent : Header) (plans : Nat → Plan) (count : Nat) :
    (forge.retarget.check = .ok () → count ≤ greatestRun →
      parent.number.toNat + count < 2 ^ 64 →
      parent.timestamp.toNat + ∑ j ∈ range count, forge.intended (plans j).offset < 2 ^ 64 →
      ∃ headers, forge.run parent count plans = .ok headers ∧ headers.length = count) ∧
    ∀ headers, forge.run parent count plans = .ok headers → ∀ i, (lt : i < headers.length) →
      (headers[i].timestamp.toNat : Int)
        ≤ parent.timestamp.toNat + ∑ j ∈ range (i + 1), forge.intended (plans j).offset ∧
      ((headers[i].timestamp.toNat : Int)
        = parent.timestamp.toNat + ∑ j ∈ range (i + 1), forge.intended (plans j).offset ↔
        ∀ j ≤ i, forge.Measured (plans j).offset) := by
  have below (n : Nat) : ∀ j ∈ range n,
      (forge.spacing (plans j).offset : Int) ≤ forge.intended (plans j).offset :=
    fun _ _ => spacing_le_intended
  refine ⟨fun checked room heights times => ?_, fun headers made i lt => ?_⟩
  · have kept := sum_le_sum (below count)
    rw [← Nat.cast_sum] at kept
    obtain ⟨headers, made⟩ : ∃ headers, forge.run parent count plans = .ok headers :=
      exists_run checked room heights (by omega)
    exact ⟨headers, made, (run_eq_ok_iff.mp made).2.1⟩
  · obtain ⟨-, -, run⟩ := run_eq_ok_iff.mp made
    have kept := sum_le_sum (below (i + 1))
    have same := sum_eq_sum_iff_of_le (below (i + 1))
    have time := run.timestamp lt
    simp only [Nat.zero_add] at time
    simp only [spacing_eq_intended_iff, mem_range, Nat.lt_succ_iff] at same
    rw [← Nat.cast_sum] at kept same
    rw [time, Nat.cast_add, ← same]
    exact ⟨by omega, by omega⟩

/-- A first header that is called for before its parent, and then late ones. -/
def sampleOffsets (i : Nat) : Plan := ⟨if i = 0 then -100 else 20, 0⟩

/-- The first header comes after a second and the next one 30 seconds later. -/
theorem timestamps_exact_iff_sampleOffsets :
    ∃ h h', run {} (.genesis 0 131072) 2 sampleOffsets = .ok [h, h'] ∧
      (h.timestamp.toNat : Int) = 1 ∧ (h'.timestamp.toNat : Int) = 31 := by
  obtain ⟨produced, times⟩ := timestamps_exact_iff {} (.genesis 0 131072) sampleOffsets 2
  obtain ⟨headers, made, length⟩ := produced (by decide) (by decide) (by decide) (by decide +kernel)
  obtain ⟨h, h', rfl⟩ := List.length_eq_two.mp length
  have first := (times _ made 0 (by simp)).2.mpr (by decide)
  have second := (times _ made 1 (by simp)).2.mpr (by decide)
  exact ⟨h, h', made, first.trans (by decide +kernel), second.trans (by decide +kernel)⟩

/-- Headers at the target spacing. -/
def sampleOnTime : Nat → Plan := fun _ => ⟨0, 0⟩

/-- The least target spacing that is no signed number of 64 bits, 2 ^ 63 seconds. -/
def sampleFar : Forge where
  interval := 9223372036854775808

/-- Such a target spacing counts as negative: the header that is meant for the time
2 ^ 63 comes after a second. -/
theorem timestamps_wrap :
    ∃ h, sampleFar.run (.genesis 0 131072) 1 sampleOnTime = .ok [h] ∧
      h.timestamp.toNat = 1 ∧
      ((Header.genesis 0 131072).timestamp.toNat : Int)
        + ∑ j ∈ range 1, sampleFar.intended (sampleOnTime j).offset = 2 ^ 63 := by
  obtain ⟨headers, made⟩ : ∃ headers,
      sampleFar.run (.genesis 0 131072) 1 sampleOnTime = .ok headers :=
    exists_run (by decide) (by decide) (by decide) (by decide +kernel)
  obtain ⟨-, length, run⟩ := run_eq_ok_iff.mp made
  obtain ⟨h, rfl⟩ := List.length_eq_one_iff.mp length
  have time := run.timestamp (i := 0) (by simp)
  exact ⟨h, made, time.trans (by decide +kernel), by decide +kernel⟩

end Forge

end ForkChoice
