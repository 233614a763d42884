/-
ForkChoice/Proofs/Chain/Diagnosing.lean

What was found out about a new header can be read back from the store.

An assessment adds up difficulties from the segment's parent, holds each sum
against the canonical index as it is before the insertion, and keeps the ratio
and the sum in the header's standing.  Reading a total difficulty or a ratio of
three stored headers back looks rows up, after the segment was stored, the index
rewritten and headers frozen.  The two have nothing but the quotient in common
and agree: the fork point and the rival were stored before and stay, and the row
of a new header holds the work of its path (`Storable.item?_commit`), which is
what the sum comes to.

Main result: `diagnostics_agree`, for every accepted segment and at every later
moment.
-/
import ForkChoice.Proofs.Chain.Permanence

namespace ForkChoice.Chain

variable {pool offered trunk branch spine segment : List Header} {c c' : Chain} {x : Candidate}
  {a h : Header} {receipt : Receipt} {verdict : Verdict} {i : Nat}

/-! ### Rows of new headers -/

/-- The path of a new header goes up to it and no further. -/
theorem Storable.take_path (storable : Storable pool c x trunk a branch spine)
    (at_h : x.headers[i]? = some h) :
    (trunk ++ a :: branch ++ x.headers).take (h.number.toNat + 1)
      = trunk ++ a :: branch ++ x.headers.take (i + 1) := by
  rw [storable.number_eq at_h, Nat.add_assoc, List.take_length_add_append]

/-- The row of a new header holds the total difficulty that its standing records. -/
theorem Storable.item?_commit (storable : Storable pool c x trunk a branch spine)
    (sound : c.Sound pool) (free : CollisionFree pool) {b : Batch}
    (rows : b.headers = headerRows x (c.reckoning x trunk a branch spine))
    (at_h : x.headers[i]? = some h) :
    (c.store.commit b).item? h.hash
      = some ⟨h, .capped (work (trunk ++ a :: branch ++ x.headers.take (i + 1)))⟩ := by
  obtain ⟨rooted, -, grown⟩ := storable.rooted_commit sound free rows
  have l := grown.take (List.mem_append_right _ (List.mem_of_getElem? at_h))
  rw [storable.take_path at_h] at l
  exact rooted.item?_eq l

/-! ### Reading back -/

/-- The work ratio of three headers, from the totals stored for them. -/
theorem ratio_eq (sound : c.store.Sound) (answers : c.store.tier.service.AnswersReads)
    {fork rival h : Header} {e e' e'' : Frozen} (fork_item : c.store.item? fork.hash = some e)
    (rival_item : c.store.item? rival.hash = some e') (item : c.store.item? h.hash = some e'') :
    c.ratio fork rival h
      = .ok (workRatio e.totalDifficulty e'.totalDifficulty e''.totalDifficulty) := by
  unfold ratio storedRatio
  rw [Store.answer_bind_of_ok answers (sound.answer_totalOf answers fork_item),
    Store.answer_bind_of_ok answers (sound.answer_totalOf answers rival_item),
    Store.answer_bind_of_ok answers (sound.answer_totalOf answers item)]
  rfl

/-- A later chain reads of a header what its standing recorded: its total
difficulty, and the ratio of its work and that of the header that was canonical
before at its height, or at the head's if that is lower. -/
structure Confirms (c c' : Chain) (fork h : Header) (s : Standing) : Prop where
  hash : s.hash = h.hash
  total : c'.total? h.hash = .ok (some s.total)
  ratio : ∃ rival, c.answering.canonicalHeader? (c.rivalNumber h) = .ok (some rival) ∧
    c'.ratio fork rival h = .ok s.ratio

/-- The canonical header that a new one is compared with, and its stored total. -/
theorem Fork.canonical_rival {p : Header} (fork : c.Fork p trunk a branch spine)
    (sound : c.Sound pool) (h : Header) :
    ∃ rival, c.answering.canonicalHeader? (c.rivalNumber h) = .ok (some rival) ∧
      c.store.item? rival.hash
        = some ⟨rival, .capped (work (spine.take (h.number.toNat + 1)))⟩ := by
  obtain ⟨rival, at_rival, l⟩ := fork.exists_rival h
  have item := sound.rooted.item?_eq l
  refine ⟨rival, read_eq_ok_iff.mpr ?_, item⟩
  have answer := sound.answering.rooted.sound.answer_canonicalHeader
    c.store.answersReads_answering (c.rivalNumber h)
  have canonical : c.answering.store.canonical? (c.rivalNumber h) = some rival.hash := by
    refine (fork.canonical _).trans ?_
    rw [at_rival]
    rfl
  have item' : c.answering.store.item? rival.hash = some _ := item
  rw [canonical, Option.bind_some, item'] at answer
  exact answer

/-- What is recorded of a new header is confirmed by every chain that keeps what was
stored before the insertion and the header's own row. -/
theorem Storable.confirms (storable : Storable pool c x trunk a branch spine)
    (sound : c.Sound pool) (at_h : x.headers[i]? = some h)
    (keeps : ∀ {hash e}, c.store.item? hash = some e → c'.store.item? hash = some e)
    (row : c'.store.item? h.hash
      = some ⟨h, .capped (work (trunk ++ a :: branch ++ x.headers.take (i + 1)))⟩)
    (legible : c'.store.Sound) (answers : c'.store.tier.service.AnswersReads) :
    ∃ s, (c.reckoning x trunk a branch spine).standings[i]? = some s ∧ c.Confirms c' a h s := by
  have at_s : (c.reckoning x trunk a branch spine).standings[i]? = _ := getElem?_reckoning i
  rw [at_h] at at_s
  refine ⟨_, at_s, rfl, ?_, ?_⟩
  · have counted := legible.answer_total answers h.hash
    rw [row] at counted
    exact read_eq_ok_iff.mpr counted
  · obtain ⟨rival, canonical, item⟩ := storable.fork.canonical_rival sound h
    have fork_item := sound.rooted.item?_eq storable.fork.trunk_lineage
    have quotient := ratio_eq legible answers (keeps fork_item) (keeps item) row
    exact ⟨rival, canonical, quotient⟩

/-- **What is recorded of new headers agrees with what is stored.**  Let a reached
chain accept a segment as a side chain or a head switch.  Then it was assessed
so, with a standing for each new header; and right after the insertion, or after
any further actions, as soon as the tier answers, the total difficulty and the
ratio of each standing are those read from the store, the ratio being held
against the header that was canonical before the insertion. -/
theorem diagnostics_agree (reached : Reached offered c) (segment : List Header)
    (later : List Action)
    (free : CollisionFree (offered ++ (.insert segment :: later).flatMap Action.headers))
    (accepted : (c.insert segment).1 = .ok receipt) (decided : receipt.verdict = some verdict)
    (answers : (c.run (.insert segment :: later)).store.tier.service.AnswersReads) :
    ∃ found, c.assess segment = .ok (some found) ∧ found.verdict = verdict ∧
      found.known = receipt.known ∧ found.standings.length = receipt.written ∧
      found.known + found.standings.length = segment.length ∧
      ∀ i h, segment[found.known + i]? = some h →
        ∃ s, found.standings[i]? = some s ∧
          c.Confirms (c.run (.insert segment :: later)) found.fork.header h s := by
  have sound := reached.sound_append free
  have here (h : Header) (mem : h ∈ segment) :
      h ∈ offered ++ (.insert segment :: later).flatMap Action.headers :=
    List.mem_append_right _ (List.mem_append_left _ mem)
  have next (h : Header) (mem : h ∈ later.flatMap Action.headers) :
      h ∈ offered ++ (.insert segment :: later).flatMap Action.headers :=
    List.mem_append_right _ (List.mem_append_right _ mem)
  have sound' := sound.insert free here
  obtain ⟨x, found, answered, decides, known, written⟩ :=
    exists_assessment_of_receipt accepted decided
  have assessed : c.assess segment = .ok (some found) := assess_of_assessment answered
  obtain ⟨trunk, a, branch, spine, storable, rfl⟩ := sound.assessment_eq_ok free here answered
  obtain ⟨front, rfl, prepared⟩ := sound.prepared_of_assessment answered
  have count : (c.reckoning x trunk a branch spine).standings.length = x.headers.length := by
    simp [reckoning, length_ascent]
  refine ⟨_, assessed, decides, known.symm, count.trans written.symm, ?_, fun i h at_i => ?_⟩
  · show x.known + _ = _
    rw [count, prepared.known, List.length_append]
  · have at_h : x.headers[i]? = some h := (prepared.getElem?_known i).symm.trans at_i
    have inserted := insert_eq answered
    rw [inserted] at accepted
    obtain ⟨b, rows, stored⟩ := execute_eq_ok accepted
    have row := storable.item?_commit sound free rows at_h
    rw [← stored, ← inserted] at row
    have first := sound.succeeds_act free (.insert (front ++ x.headers)) here
    have rest := sound'.succeeds_run free later next
    exact storable.confirms sound at_h (first.trans rest).keeps (rest.keeps row)
      (sound'.run free later next).rooted.sound answers

/-- What was recorded of the later child when it took over is still read from the
store when headers have been frozen and another header has overtaken it. -/
theorem diagnostics_agree_sampleTurns :
    ∃ found s, sampleChain.assess [sampleChild, sampleLater] = .ok (some found) ∧
      found.verdict = .headSwitch ∧ found.standings[1]? = some s ∧
      sampleChain.Confirms (sampleChain.run sampleTurns) found.fork.header sampleLater s := by
  have free : CollisionFree ([sampleGenesis] ++ sampleTurns.flatMap Action.headers) :=
    collisionFree_samples.mono (by simp [samples, sampleTurns, Action.headers])
  have moved : (sampleChain.insert [sampleChild, sampleLater]).2.headBlock
      ≠ sampleChain.headBlock := by
    rw [headBlock_sampleGrown]
    intro same
    exact absurd (congrArg Header.number same) (by decide)
  obtain ⟨receipt, accepted, decided⟩ := exists_receipt_of_headBlock_ne moved
  obtain ⟨found, assessed, switch, -, -, -, agree⟩ :=
    diagnostics_agree (reached_sampleChain []) [sampleChild, sampleLater]
      (sampleTurns.drop 1) free accepted decided fun _ => ⟨rfl, fun _ => rfl⟩
  -- nothing of the segment is stored before
  have known : found.known = 0 := by
    obtain ⟨x, answered⟩ := exists_candidate assessed
    have sound : sampleChain.Sound [sampleGenesis] :=
      (reached_sampleChain []).sound (by simp [CollisionFree])
    obtain ⟨front, whole, prepared⟩ := sound.prepared_of_assessment answered
    obtain ⟨_, _, _, _, -, rfl⟩ := ((reached_sampleChain []).sound_append free).assessment_eq_ok free
      (by simp [sampleTurns, Action.headers]) answered
    show x.known = 0
    rw [prepared.known, List.length_eq_zero_iff]
    rcases front with - | ⟨h, front⟩
    · rfl
    · obtain ⟨rfl, -⟩ := List.cons.inj whole
      have stored := prepared.stored sampleChild List.mem_cons_self
      have absent : sampleChain.store.item? sampleChild.hash = none :=
        (item?_genesisStore ..).trans (if_neg sampleGenesis_hash_ne)
      rw [absent] at stored
      cases stored
  obtain ⟨s, stands, confirms⟩ := agree 1 sampleLater (by rw [known]; rfl)
  exact ⟨found, s, assessed, switch, stands, confirms⟩

end ForkChoice.Chain
