/-
ForkChoice/Proofs/Chain/Extending.lean

A run of made headers is valid, and on top of the head it takes over.

The making of headers and the checks of a chain are two sides of one definition:
what is made is sealed, continues the header before it and has the difficulty that
the rule asks for (`Forge.MakesRun.isChain`), which is what the check of a segment
and the rule look at.

Valid headers on top of the head come under a single case of the rulings
(`Sound.headSwitch_of_valid`): the first of them is not stored, since it would be
heavier than the head; the path of their parent is that of the head, so it leaves it
at the head, which is never frozen; and the first header is heavier than the head.
With the gate off nothing keeps it from taking over.
-/
import ForkChoice.Proofs.Chain.Increase
import ForkChoice.Proofs.Chain.Ruling
import ForkChoice.Proofs.Forging

namespace ForkChoice

open Finset

/-- What is below some total difficulty is below the greatest. -/
theorem Difficulty.lt_greatest_of_lt {below total : Difficulty} (less : below < total) :
    below < greatest :=
  Nat.lt_of_lt_of_le less (Nat.le_of_lt_succ total.toNat_lt)

/-- A path shares all of itself with itself. -/
theorem Store.Lineage.forksAt_self {s : Store} {genesis h : Header} {path : List Header}
    (l : s.Lineage genesis path h) : ForksAt path path h := by
  obtain ⟨trunk, rfl⟩ := l.eq_append
  exact l.forksAt (by simp) (List.forall_mem_nil _)

namespace Chain

variable {pool spine rest : List Header} {c : Chain} {r : Retarget} {first : Header}

/-! ### On top of the head -/

/-- The first of valid headers makes a path heavier, if its work has 128 bits. -/
theorem lt_capped_work {path : List Header} (positive : 0 < first.difficulty.toNat)
    (fits : work (path ++ first :: rest) < 2 ^ 128) :
    Difficulty.capped (work path) < .capped (work (path ++ [first])) := by
  rw [work_append, work_cons] at fits
  rw [work_append, work_cons, Difficulty.lt_iff, Difficulty.toNat_capped, Difficulty.toNat_capped]
  omega

section Extension

variable (sound : c.Sound pool) (free : CollisionFree pool)
  (answers : c.store.tier.service.AnswersReads) (weighty : c.Weighty) (heaviest : c.Heaviest)
  (rule : c.rule = .retarget r) (l : c.store.Lineage c.genesis spine c.headBlock)
  (offers : ∀ h ∈ first :: rest, h ∈ pool)
  (all_sealed : ∀ h ∈ first :: rest, h.isSealed)
  (valid : (c.headBlock :: first :: rest).IsChain r.Valid)
  (fits : work (spine ++ first :: rest) < 2 ^ 128)
include sound free answers weighty heaviest l offers all_sealed valid fits

/-- Valid headers on top of the head are all new and leave the head's path at the head. -/
theorem Sound.contends_of_valid (positive : 0 < first.difficulty.toNat) :
    c.Contends r (first :: rest) [] (first :: rest) c.headBlock spine spine c.headBlock := by
  have legible := sound.rooted.sound
  obtain ⟨continues, later⟩ := List.isChain_cons_cons.mp valid
  have follows := Header.follows_eq_ok_iff_continues.mpr continues.toContinues
  have small := Difficulty.lt_greatest_of_lt (lt_capped_work positive fits)
  have fresh := sound.not_has_of_follows weighty heaviest l small follows
  have head : c.header? c.headBlock.hash = .ok (some c.headBlock) :=
    header?_eq_ok_iff.mpr (sound.rooted.answer_header answers l.has)
  exact {
    whole := rfl
    coherent := ⟨all_sealed, later.imp fun _ _ valid => valid.toContinues⟩
    stored := List.forall_mem_nil _
    fresh := by
      rintro h ⟨⟩ known
      exact fresh (sound.has_of_isSome free (offers first List.mem_cons_self)
        (all_sealed first List.mem_cons_self) ((knows_iff legible answers).mp known))
    child := ⟨first, rfl, continues.link ▸ head⟩
    valid
    below := sound.ancestry answers l
    head := sound.ancestry answers l
    forks := l.forksAt_self }

include rule

/-- **Valid headers on top of the head take over**, with the gate off and a total
difficulty of 128 bits. -/
theorem Sound.headSwitch_of_valid (ungated : c.gate.enabled = false) :
    (c.insert (first :: rest)).1 = .ok {
        verdict := some .headSwitch
        known := 0
        written := (first :: rest).length
        head := (rest.getLastD first).hash
        headNumber := (rest.getLastD first).number } ∧
      (c.insert (first :: rest)).2.headBlock = rest.getLastD first := by
  obtain ⟨continues, -⟩ := List.isChain_cons_cons.mp valid
  have follows := Header.follows_eq_ok_iff_continues.mpr continues.toContinues
  have obeys : (c.headBlock :: first :: rest).IsChain fun p h => c.rule p h = .ok () := by
    rw [rule]
    exact valid.imp fun _ _ valid => Rule.retarget_eq_ok_iff.mpr valid
  have positive := sound.positive_of_obeys obeys (h := first) List.mem_cons_self
  have contends : c.Contends r (first :: rest) [] ([] ++ first :: rest) c.headBlock spine spine
      c.headBlock :=
    sound.contends_of_valid free answers weighty heaviest l offers all_sealed valid fits positive
  have high : c.store.tier.items.length - 1 ≤ c.headBlock.number.toNat :=
    Nat.le_trans (Nat.sub_le _ _) sound.frozen
  have heavier := lt_capped_work positive fits
  have overtakes : Overtakes spine spine [] first := ⟨lighter_nil, heavier⟩
  obtain ⟨x, trunk, branch, -, -, -, reference, -⟩ := contends.exists_assessment sound answers rule
  obtain ⟨s, -, point⟩ := reference.point (i := 0) (h := first) rfl
  have passes : ¬ c.gate.Refuses s := by
    rintro ⟨enabled, -⟩
    exact Bool.false_ne_true (ungated.symm.trans enabled)
  have ok := (Ruling.headSwitch contends high overtakes point passes).insert_eq sound answers rule
  exact ⟨ok, sound.headBlock_insert_of_follows free weighty heaviest offers l
    (Difficulty.lt_greatest_of_lt heavier) follows ok⟩

end Extension

/-! ### Made headers -/

/-- **What is made is valid, and on top of the head it takes over.**  With parameters
in range, and heights, times and a buffer for them, so many headers are made.  They
hang together, the first continues the given header, and each obeys the rule above
the one before it.  If the given header is the head of a reached chain with that
rule, whose tier answers and whose gate is off, and the total difficulty has 128
bits, then inserting them makes the last one the head. -/
theorem run_takes_over (forge : Forge) (parent : Header) (count : Nat) (plans : Nat → Plan)
    (checked : forge.retarget.check = .ok ()) (room : count ≤ Forge.greatestRun)
    (heights : parent.number.toNat + count < 2 ^ 64)
    (times : parent.timestamp.toNat
      + ∑ j ∈ range count, forge.spacing (plans j).offset < 2 ^ 64) :
    ∃ headers, forge.run parent count plans = .ok headers ∧ headers.length = count ∧
      Segment.check headers = .ok () ∧
      (∀ first ∈ headers.head?, parent.follows first = .ok ()) ∧
      (parent :: headers).IsChain (fun p h => Rule.retarget forge.retarget p h = .ok ()) ∧
      ∀ offered c path, Reached offered c → CollisionFree (offered ++ headers) →
        c.store.tier.service.AnswersReads → c.rule = .retarget forge.retarget →
        c.headBlock = parent → 0 < count → c.gate.enabled = false → c.Ancestry parent path →
        work (path ++ headers) < 2 ^ 128 →
        ∃ tip, headers.getLast? = some tip ∧
          (c.insert headers).1 = .ok {
            verdict := some .headSwitch
            known := 0
            written := count
            head := tip.hash
            headNumber := tip.number } ∧
          (c.insert headers).2.headBlock = tip := by
  obtain ⟨headers, made⟩ := Forge.exists_run checked room heights times
  obtain ⟨-, length, run⟩ := Forge.run_eq_ok_iff.mp made
  have valid := run.isChain
  have all_sealed := run.all_sealed
  have coherent : Segment.Coherent headers :=
    ⟨all_sealed, valid.tail.imp fun _ _ valid => valid.toContinues⟩
  refine ⟨headers, made, length, Segment.check_eq_ok_iff_coherent.mpr coherent, ?_,
    valid.imp fun _ _ valid => Rule.retarget_eq_ok_iff.mpr valid, ?_⟩
  · rintro first mem
    rcases headers with - | ⟨first, rest⟩
    · cases mem
    obtain ⟨⟩ := mem
    exact Header.follows_eq_ok_iff_continues.mpr (List.isChain_cons_cons.mp valid).1.toContinues
  · rintro offered c path reached free answers rule rfl some_header ungated ancestry fits
    have sound := reached.sound_append free
    have l := sound.lineage answers ancestry
    rcases headers with - | ⟨first, rest⟩
    · exact absurd length (Nat.ne_of_lt some_header)
    obtain ⟨receipt, head⟩ := sound.headSwitch_of_valid free answers (reached.weighty free.left)
      (reached.heaviest free.left) rule l (fun h mem => List.mem_append_right _ mem) all_sealed
      valid fits ungated
    rw [length] at receipt
    refine ⟨rest.getLastD first, ?_, receipt, head⟩
    rw [List.getLast?_cons, List.getLastD_eq_getLast?]

/-- Headers that come five seconds early. -/
def sampleEarly : Nat → Plan := fun _ => ⟨-5, 0⟩

theorem run_sampleEarly :
    Forge.run {} sampleGenesis 2 sampleEarly = .ok [sampleChild, sampleGrandchild] := by
  have child : Forge.Makes {} sampleGenesis (sampleEarly 0) sampleChild := {
    number := rfl
    link := rfl
    timestamp := by decide
    difficulty := by decide
    nonce := rfl
    is_sealed := Header.isSealed_sealWith .. }
  have grandchild : Forge.Makes {} sampleChild (sampleEarly 1) sampleGrandchild := {
    number := rfl
    link := rfl
    timestamp := by decide
    difficulty := by decide
    nonce := rfl
    is_sealed := Header.isSealed_sealWith .. }
  exact Forge.run_eq_ok_iff.mpr ⟨by decide, rfl, .cons child (.cons grandchild .nil)⟩

theorem collisionFree_sampleEarly :
    CollisionFree ([sampleGenesis] ++ [sampleChild, sampleGrandchild]) :=
  collisionFree_samples.mono (by simp [samples])

/-- On the genesis two early headers are made, and the second becomes the head. -/
theorem run_takes_over_sampleEarly :
    Forge.run {} sampleGenesis 2 sampleEarly = .ok [sampleChild, sampleGrandchild] ∧
      Segment.check [sampleChild, sampleGrandchild] = .ok () ∧
      (sampleChain.insert [sampleChild, sampleGrandchild]).1 = .ok {
        verdict := some .headSwitch
        known := 0
        written := 2
        head := sampleGrandchild.hash
        headNumber := sampleGrandchild.number } ∧
      (sampleChain.insert [sampleChild, sampleGrandchild]).2.headBlock = sampleGrandchild := by
  obtain ⟨headers, made, -, coherent, -, -, takes_over⟩ :=
    run_takes_over {} sampleGenesis 2 sampleEarly (by decide) (by decide) (by decide)
      (by decide +kernel)
  obtain ⟨⟩ := made.symm.trans run_sampleEarly
  have reached : Reached [sampleGenesis] sampleChain := reached_sampleChain []
  have answers : sampleChain.store.tier.service.AnswersReads := fun _ => ⟨rfl, fun _ => rfl⟩
  have ancestry : sampleChain.Ancestry sampleGenesis [sampleGenesis] :=
    (reached.sound_append collisionFree_sampleEarly).ancestry answers (lineage_genesisStore _ rfl)
  obtain ⟨tip, last, switch⟩ := takes_over [sampleGenesis] sampleChain [sampleGenesis] reached
    collisionFree_sampleEarly answers rfl rfl (by decide) rfl ancestry (by decide)
  obtain ⟨⟩ := last
  exact ⟨made, coherent, switch⟩

/-- **Made headers can fail**: no buffer holds 2 ^ 60 of them, although there are heights
and times for them; and while the tier refuses to answer they are not stored. -/
theorem made_headers_fail :
    (Retarget.check {} = .ok () ∧ (Header.genesis 0 131072).number.toNat + 2 ^ 60 < 2 ^ 64 ∧
      (Header.genesis 0 131072).timestamp.toNat
        + ∑ j ∈ range (2 ^ 60), Forge.spacing {} (Forge.sampleOnTime j).offset < 2 ^ 64 ∧
      Forge.run {} (.genesis 0 131072) (2 ^ 60) Forge.sampleOnTime = .error .capacityOverflow) ∧
    ∃ c cause, Reached [sampleGenesis] c ∧
      CollisionFree ([sampleGenesis] ++ [sampleChild, sampleGrandchild]) ∧
      c.rule = .retarget {} ∧ c.headBlock = sampleGenesis ∧ c.gate.enabled = false ∧
      work [sampleGenesis, sampleChild, sampleGrandchild] < 2 ^ 128 ∧
      Forge.run {} sampleGenesis 2 sampleEarly = .ok [sampleChild, sampleGrandchild] ∧
      (c.insert [sampleChild, sampleGrandchild]).1 = .error ⟨0, .storage cause⟩ := by
  constructor
  · refine ⟨by decide, by decide, ?_, rfl⟩
    simp only [Forge.sampleOnTime, sum_const, card_range]
    decide
  · have reached := reached_sampleChain [.serve fun _ _ => some "down"]
    have refused : (match ((sampleChain.run [.serve fun _ _ => some "down"]).insert
        [sampleChild, sampleGrandchild]).1 with
        | .error ⟨0, .storage _⟩ => true
        | _ => false) = true := by decide +kernel
    split at refused
    · rename_i cause failed
      exact ⟨_, cause, reached, collisionFree_sampleEarly, rfl, rfl, rfl, by decide, run_sampleEarly,
        failed⟩
    · cases refused

end Chain

end ForkChoice
