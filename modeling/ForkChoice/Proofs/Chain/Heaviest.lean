/-
ForkChoice/Proofs/Chain/Heaviest.lean

The head is the heaviest stored header.

A chain is `Heaviest` if no stored header has a greater total difficulty than
the head.  A segment is a side chain only if none of its headers is heavier than
the head, and it takes over only if one of them is; its tip is then the heaviest
of all, since totals only grow along a segment.  So every insertion keeps the
chain heaviest (`Inserted.heaviest`), whatever the gate refuses, and all other
actions do because they let it rest.

Stored headers stay stored, so the old head is never heavier than a later one:
the total difficulty of the head never decreases (`head_heaviest`).
-/
import ForkChoice.Proofs.Chain.Evaluation
import ForkChoice.Proofs.Chain.Progress

namespace ForkChoice.Chain

variable {pool offered trunk branch spine : List Header} {c c' : Chain} {x : Candidate}
  {a : Header}

/-- No stored header is heavier than the head. -/
def Heaviest (c : Chain) : Prop :=
  ∃ spine, c.store.Lineage c.genesis spine c.headBlock ∧
    ∀ hash e, c.store.item? hash = some e → e.totalDifficulty ≤ .capped (work spine)

/-! ### New headers -/

/-- A total difficulty written with a segment is that of one of its standings. -/
theorem mem_headerRows {found : Assessment} {h : Header} {total : Difficulty}
    (mem : (h, total) ∈ headerRows x found) : ∃ s ∈ found.standings, s.total = total := by
  obtain ⟨⟨h', s⟩, pair, same⟩ := List.mem_map.mp mem
  obtain ⟨-, rfl⟩ := Prod.mk.inj same
  exact ⟨s, (List.of_mem_zip pair).2, rfl⟩

/-- No new header is heavier than the tip. -/
theorem total_le_tip {s : Standing}
    (mem : s ∈ (c.reckoning x trunk a branch spine).standings) :
    s.total ≤ .capped (work (trunk ++ a :: branch ++ x.headers)) := by
  obtain ⟨i, at_i⟩ := List.getElem?_of_mem mem
  rw [total_reckoning at_i]
  exact capped_work_take_le _ _ _

/-- A side chain has no header that is heavier than the head. -/
theorem total_le_head (verdict : (c.reckoning x trunk a branch spine).verdict = .sideChain)
    {s : Standing} (mem : s ∈ (c.reckoning x trunk a branch spine).standings) :
    s.total ≤ .capped (work spine) :=
  Nat.le_of_not_lt (Verdict.ofStandings_eq_sideChain_iff.mp verdict s mem)

/-- Some header of a segment that takes over is heavier than the head, -/
theorem exists_heavier (verdict : (c.reckoning x trunk a branch spine).verdict = .headSwitch) :
    ∃ s ∈ (c.reckoning x trunk a branch spine).standings,
      Difficulty.capped (work spine) < s.total := by
  by_contra lighter
  push Not at lighter
  have side : (c.reckoning x trunk a branch spine).verdict = .sideChain :=
    Verdict.ofStandings_eq_sideChain_iff.mpr lighter
  cases side.symm.trans verdict

/-- and so is its tip. -/
theorem head_lt_tip (verdict : (c.reckoning x trunk a branch spine).verdict = .headSwitch) :
    Difficulty.capped (work spine) < .capped (work (trunk ++ a :: branch ++ x.headers)) := by
  obtain ⟨s, mem, above⟩ := exists_heavier verdict
  exact Nat.lt_of_lt_of_le above (total_le_tip mem)

/-! ### Every action keeps the head heaviest -/

theorem Rests.heaviest (rests : c.Rests c') (heaviest : c.Heaviest) : c'.Heaviest := by
  obtain ⟨spine, l, top⟩ := heaviest
  refine ⟨spine, ?_, fun hash e found => top hash e ((rests.item hash).symm.trans found)⟩
  rw [rests.genesis, rests.headBlock]
  exact l.mono fun h has => has.congr (rests.item h.hash)

/-- **Storing a segment keeps the head heaviest.** -/
theorem Inserted.heaviest (inserted : Inserted pool c c') (sound : c.Sound pool)
    (free : CollisionFree pool) (heaviest : c.Heaviest) : c'.Heaviest := by
  obtain ⟨spine', l, top⟩ := heaviest
  cases inserted with
  | nothing => exact ⟨spine', l, top⟩
  | @sideChain x trunk branch spine a storable verdict =>
    obtain rfl := l.unique storable.fork.head
    obtain ⟨-, keeps, -⟩ := storable.rooted_commit sound free
      (b := sideChainBatch x (c.reckoning x trunk a branch spine')) rfl
    refine ⟨spine', l.mono keeps, fun hash e found => ?_⟩
    rcases Option.or_eq_some_iff.mp ((Store.item?_commit ..).symm.trans found) with new | ⟨-, old⟩
    · obtain ⟨s, mem, total⟩ := mem_headerRows (Batch.item?_eq_some new).1
      exact total ▸ total_le_head verdict mem
    · exact top hash e old
  | @headSwitch x trunk branch spine a storable verdict =>
    obtain rfl := l.unique storable.fork.head
    obtain ⟨-, -, grown⟩ := storable.rooted_commit sound free
      (b := headSwitchBatch x (c.reckoning x trunk a branch spine')) rfl
    refine ⟨_, grown, fun hash e found => ?_⟩
    rcases Option.or_eq_some_iff.mp ((Store.item?_commit ..).symm.trans found) with new | ⟨-, old⟩
    · obtain ⟨s, mem, total⟩ := mem_headerRows (Batch.item?_eq_some new).1
      exact total ▸ total_le_tip mem
    · exact Nat.le_trans (top hash e old) (Nat.le_of_lt (head_lt_tip verdict))

theorem Sound.heaviest_act (sound : c.Sound pool) (free : CollisionFree pool)
    (heaviest : c.Heaviest) (action : Action) (known : ∀ h ∈ action.headers, h ∈ pool) :
    (c.act action).Heaviest := by
  cases action with
  | insert segment =>
    obtain ⟨tally, inserted⟩ := sound.inserted free known
    have counted : c.Rests { c with tally } := rests_of_eq rfl rfl rfl rfl
    exact inserted.heaviest (sound.withTally tally) free (counted.heaviest heaviest)
  | _ => exact (sound.rests_act fun _ same => by cases same).heaviest heaviest

/-- **The head of a reached chain is heaviest.** -/
theorem Reached.heaviest (reached : Reached offered c) (free : CollisionFree offered) :
    c.Heaviest := by
  refine reached.induction free (P := Heaviest)
    (fun sound known heaviest => sound.heaviest_act free heaviest _ known) ?_
  -- a chain begins with its genesis alone
  intro c refusal started head number
  refine ⟨[c.genesis], ?_, fun hash e found => ?_⟩
  · rw [started, head]
    exact lineage_genesisStore refusal number
  · rw [started, item?_genesisStore] at found
    split at found
    · obtain ⟨⟩ := found
      have own : Difficulty.capped (work [c.genesis]) = c.genesis.difficulty := by simp
      rw [own]
      exact Nat.le_refl _
    · cases found

/-! ### The head of a run -/

/-- While the tier answers, the total difficulty of the head is the work of its path. -/
theorem Sound.answering_total? (sound : c.Sound pool)
    (l : c.store.Lineage c.genesis spine c.headBlock) :
    c.answering.total? c.headBlock.hash = .ok (some (.capped (work spine))) := by
  have l' := l.mono fun _ => c.store.sameContents_answering.has
  exact read_eq_ok_iff.mpr
    (sound.answering.rooted.answer_total c.store.answersReads_answering l')

/-- **The head is the heaviest stored header**, in either tier, and its total
difficulty never decreases: not from any moment of a run to a later one. -/
theorem head_heaviest (reached : Reached offered c) (actions : List Action)
    (free : CollisionFree (offered ++ actions.flatMap Action.headers)) :
    ∃ total, c.answering.total? c.headBlock.hash = .ok (some total) ∧
      (∀ h, c.store.Stores h →
        (∃ d, c.store.Counts h d) ∧ ∀ d, c.store.Counts h d → d ≤ total) ∧
      ∃ total', (c.run actions).answering.total? (c.run actions).headBlock.hash
          = .ok (some total') ∧ total ≤ total' := by
  have sound := reached.sound_append free
  have archived := reached.archived free.left
  have legible := sound.rooted.sound
  obtain ⟨spine, l, top⟩ := reached.heaviest free.left
  have sound' := (reached.run actions).sound free
  obtain ⟨spine', l', top'⟩ := (reached.run actions).heaviest free
  refine ⟨_, sound.answering_total? l, fun h stored => ⟨?_, fun d counted => ?_⟩, _,
    sound'.answering_total? l', ?_⟩
  · obtain ⟨d, found⟩ := Store.has_iff.mp ((archived.stores_iff legible).mp stored)
    exact ⟨d, (archived.counts_iff legible).mpr found⟩
  · exact top _ _ ((archived.counts_iff legible).mp counted)
  · -- the old head is still stored, with the same total difficulty
    have succeeds := sound.succeeds_run free actions fun h mem => List.mem_append_right _ mem
    exact top' _ _ (succeeds.keeps (sound.rooted.item?_eq l))

/-- The grandchild takes over from the head, with two headers frozen. -/
theorem head_heaviest_sampleGrandchild :
    ∃ c : Chain, c.headBlock = sampleLater ∧
      (c.run [.insert [sampleGrandchild]]).headBlock = sampleGrandchild ∧
      ∃ total, c.answering.total? c.headBlock.hash = .ok (some total) ∧
        (∀ h, c.store.Stores h →
          (∃ d, c.store.Counts h d) ∧ ∀ d, c.store.Counts h d → d ≤ total) ∧
        ∃ total', (c.run [.insert [sampleGrandchild]]).answering.total?
            (c.run [.insert [sampleGrandchild]]).headBlock.hash = .ok (some total') ∧
          total ≤ total' := by
  have free : CollisionFree [sampleGenesis, sampleChild, sampleLater, sampleGrandchild] :=
    collisionFree_samples.mono (by simp [samples])
  obtain ⟨head, -, head'⟩ := freeze_sampleGrown
  exact ⟨_, head, head', head_heaviest (reached_sampleGrown.freeze 0)
    [.insert [sampleGrandchild]] free⟩

end ForkChoice.Chain
