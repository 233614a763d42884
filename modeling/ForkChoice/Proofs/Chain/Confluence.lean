/-
ForkChoice/Proofs/Chain/Confluence.lean

The order of competing forks does not matter while the gate is off.

A segment `Grafts` onto a chain if it hangs together and obeys the rule above a
stored header.  With the gate off and nothing frozen such a segment is accepted
(`Sound.insert_grafts`), and it grafts as well after others have been inserted
(`Grafts.later`), whichever of its headers they had in common with it.  So a list
of such segments is accepted in any order, and each order stores the same headers
(`Sound.insertAll_spec`).

What is stored settles the total difficulties, since a header has one lineage
(`Rooted.item?_eq_of_has`), and the greatest of them is the head's.  The head
itself is settled unless several headers attain it (`insertAll_perm`).
-/
import ForkChoice.Proofs.Chain.Heaviest
import ForkChoice.Proofs.Chain.Permanence

namespace ForkChoice

/-- Without a gate every segment is accepted. -/
theorem Verdict.isAccepted_ofStandings (ancestor : Header) (standings : List Standing)
    (headTotal : Difficulty) : (ofStandings none ancestor standings headTotal).isAccepted = true := by
  unfold ofStandings
  rcases takeover? standings headTotal with - | s <;> rfl

namespace Store

variable {s s' : Store} {genesis : Header} {pool : List Header} {hash : Hash} {e : Frozen}

/-- What is stored in one rooted store is so in another that has the headers of
the first: each header has the work of its lineage. -/
theorem Rooted.item?_of_has (rooted : s.Rooted genesis pool) (rooted' : s'.Rooted genesis pool)
    (has : ∀ h, s.Has h → s'.Has h) (found : s.item? hash = some e) : s'.item? hash = some e := by
  obtain ⟨path, l, total⟩ := rooted.lineage found
  rw [← rooted.sound.hash_eq found, rooted'.item?_eq (l.mono has), ← total]

/-- **The headers settle the total difficulties** of a rooted store. -/
theorem Rooted.item?_eq_of_has (rooted : s.Rooted genesis pool) (rooted' : s'.Rooted genesis pool)
    (same : ∀ h, s.Has h ↔ s'.Has h) (hash : Hash) : s'.item? hash = s.item? hash :=
  Option.ext fun _ => ⟨rooted'.item?_of_has rooted fun h => (same h).mpr,
    rooted.item?_of_has rooted' fun h => (same h).mp⟩

end Store

namespace Chain

variable {pool offered segment : List Header} {segments segments' : List (List Header)}
  {c c' : Chain}

/-! ### Insertions one after another -/

/-- Insert segments one after another, whatever becomes of each. -/
def insertAll (c : Chain) : List (List Header) → List (Outcome SegmentError Receipt) × Chain
  | [] => ([], c)
  | segment :: segments =>
    let (result, c) := c.insert segment
    let (results, c) := c.insertAll segments
    (result :: results, c)

/-- The chain afterwards is that of a run. -/
theorem insertAll_snd (c : Chain) (segments : List (List Header)) :
    (c.insertAll segments).2 = c.run (segments.map .insert) := by
  induction segments generalizing c with
  | nil => rfl
  | cons segment segments ih => exact ih (c.insert segment).2

theorem headers_insertAll (segments : List (List Header)) :
    (segments.map Action.insert).flatMap Action.headers = segments.flatten := by
  rw [List.flatMap_map]
  exact List.flatMap_id'

/-! ### Segments on stored headers -/

/-- The segment hangs together, and obeys the rule above a stored header. -/
structure Grafts (c : Chain) (segment : List Header) : Prop where
  checked : Segment.check segment = .ok ()
  obeys : ∃ p, c.header? p.hash = .ok (some p) ∧ obey c.rule 0 p segment = .ok ()

/-- What grafts onto a chain grafts onto every later one with the same rule. -/
theorem Grafts.later (grafts : c.Grafts segment) (sound : c.Sound pool) (sound' : c'.Sound pool)
    (answers : c.store.tier.service.AnswersReads) (answers' : c'.store.tier.service.AnswersReads)
    (succeeds : c.Succeeds c') (rule : c'.rule = c.rule) : c'.Grafts segment := by
  obtain ⟨p, found, obeys⟩ := grafts.obeys
  obtain ⟨total, item⟩ :=
    Store.has_iff.mp (sound.rooted.has_of_answer answers (header?_eq_ok_iff.mp found))
  have has : c'.store.Has p := Store.has_iff.mpr ⟨total, succeeds.keeps item⟩
  exact ⟨grafts.checked, p, header?_eq_ok_iff.mpr (sound'.rooted.answer_header answers' has),
    rule ▸ obeys⟩

/-- Sealed headers that obey the retarget rule above a stored header graft onto a
chain with that rule. -/
theorem Grafts.of_retarget {r : Retarget} {p : Header} (sound : c.Sound pool)
    (answers : c.store.tier.service.AnswersReads) (rule : c.rule = .retarget r)
    (has : c.store.Has p) (are_sealed : ∀ h ∈ segment, h.isSealed)
    (obeys : (p :: segment).IsChain fun a h => Rule.retarget r a h = .ok ()) :
    c.Grafts segment := by
  refine ⟨Segment.check_eq_ok_iff.mpr ⟨are_sealed, ?_⟩, p,
    header?_eq_ok_iff.mpr (sound.rooted.answer_header answers has), ?_⟩
  · exact obeys.tail.imp fun _ _ ok => (Rule.retarget_eq_ok ok).1
  · rw [rule]
    exact obey_eq_ok_iff.mpr obeys

section Grafting

variable (sound : c.Sound pool) (free : CollisionFree pool)
  (answers : c.store.tier.service.AnswersReads)
include sound free answers

/-- A segment that grafts is held already, or it is prepared. -/
theorem Grafts.prepared (grafts : c.Grafts segment) (offered : ∀ h ∈ segment, h ∈ pool) :
    c.Holds segment ∨ ∃ front x, segment = front ++ x.headers ∧ c.Prepared front x := by
  obtain ⟨p, found, obeys⟩ := grafts.obeys
  have has := sound.rooted.has_of_answer answers (header?_eq_ok_iff.mp found)
  have all_sealed := (Segment.check_eq_ok_iff.mp grafts.checked).1
  rcases unknown : segment.find? fun h => (c.store.item? h.hash).isNone with - | first
  · refine .inl ⟨grafts.checked, fun h mem => ?_⟩
    simpa [Option.isSome_iff_ne_none] using List.find?_eq_none.mp unknown h mem
  · obtain ⟨is_new, front, rest, rfl, known⟩ := List.find?_eq_some_iff_append.mp unknown
    have stored (h : Header) (mem : h ∈ front) : (c.store.item? h.hash).isSome := by
      simpa using known h mem
    have linked := isChain_after (obey_eq_ok_iff.mp obeys)
    -- the last header that is known is the parent of the first that is not
    have parent : c.store.Has (front.getLastD p) := by
      have mem : front.getLastD p ∈ p :: front := List.getLastD_mem_cons
      rcases List.mem_cons.mp mem with same | mem
      · rw [same]
        exact has
      · exact sound.has_of_isSome free (offered _ (List.mem_append_left _ mem))
          (all_sealed _ (List.mem_append_left _ mem)) (stored _ mem)
    have precedes := sound.precedes_of_obeys (List.isChain_cons_cons.mp linked).1
    exact .inr ⟨front, ⟨front.length, front.getLastD p, first, rest⟩, rfl, grafts.checked, rfl,
      stored, Option.isNone_iff_eq_none.mp is_new, parent, precedes.link,
      obey_eq_ok_iff.mpr linked⟩

/-- **A segment that grafts is accepted**, with the gate off and nothing frozen. -/
theorem Sound.insert_grafts (unfrozen : c.store.tier.items = []) (ungated : c.gate.enabled = false)
    (grafts : c.Grafts segment) (offered : ∀ h ∈ segment, h ∈ pool) :
    ∃ receipt, (c.insert segment).1 = .ok receipt := by
  rcases grafts.prepared sound free answers offered with holds | ⟨front, x, whole, prepared⟩
  · exact ⟨_, congrArg Prod.fst (holds.ignored sound.rooted.sound answers)⟩
  obtain ⟨trunk, a, branch, spine, fork⟩ := sound.exists_fork prepared.parent
  have prepare := (answer_prepare_iff sound.rooted.sound answers).mpr ⟨front, whole, prepared⟩
  have high : c.store.tier.items.length - 1 ≤ a.number.toNat := by
    rw [unfrozen]
    exact Nat.zero_le _
  have assessed := (fork.answer_assessment sound.rooted answers prepare).trans (if_pos high)
  have off : c.gate.curve? = none := by
    unfold Gate.curve?
    rw [ungated]
    rfl
  have accepted : (c.reckoning x trunk a branch spine).verdict.isAccepted = true := by
    show (Verdict.ofStandings c.gate.curve? _ _ _).isAccepted = true
    rw [off]
    exact Verdict.isAccepted_ofStandings _ _ _
  rw [insert_eq assessed]
  unfold execute
  split
  · rename_i rejected
    rw [rejected] at accepted
    cases accepted
  · exact ⟨_, rfl⟩
  · exact ⟨_, rfl⟩

/-- **Segments that graft are all accepted**, and their headers are stored beside
those stored before. -/
theorem Sound.insertAll_spec (unfrozen : c.store.tier.items = []) (ungated : c.gate.enabled = false)
    (grafts : ∀ segment ∈ segments, c.Grafts segment)
    (offered : ∀ h ∈ segments.flatten, h ∈ pool) :
    (∀ result ∈ (c.insertAll segments).1, ∃ receipt, result = .ok receipt) ∧
      (∀ h, (c.insertAll segments).2.store.Has h ↔ c.store.Has h ∨ h ∈ segments.flatten) ∧
      (c.insertAll segments).2.store.tier = c.store.tier := by
  induction segments generalizing c with
  | nil => exact ⟨List.forall_mem_nil _, fun h => by simp [insertAll], rfl⟩
  | cons segment segments ih =>
    obtain ⟨here, grafts⟩ := List.forall_mem_cons.mp grafts
    rw [List.flatten_cons] at offered
    have first (h : Header) (mem : h ∈ segment) := offered h (List.mem_append_left _ mem)
    obtain ⟨receipt, accepted⟩ := sound.insert_grafts free answers unfrozen ungated here first
    have has_iff := (sound.accepted free first accepted).has_iff sound free first accepted
    have tier := tier_insert c segment
    obtain ⟨rule, gate, -⟩ := settings_insert c segment
    have sound' := sound.insert free first
    have succeeds : c.Succeeds (c.insert segment).2 := sound.succeeds_act free (.insert segment) first
    -- the other segments graft as well after this one
    obtain ⟨others, has_iff', tier'⟩ := ih sound' (by rw [tier]; exact answers)
      (by rw [tier]; exact unfrozen) (by rw [gate]; exact ungated)
      (fun s mem => (grafts s mem).later sound sound' answers (by rw [tier]; exact answers)
        succeeds rule)
      fun h mem => offered h (List.mem_append_right _ mem)
    refine ⟨List.forall_mem_cons.mpr ⟨⟨receipt, accepted⟩, others⟩, fun h => ?_, tier'.trans tier⟩
    show ((c.insert segment).2.insertAll segments).2.store.Has h ↔ _
    rw [has_iff', has_iff, or_assoc, List.flatten_cons, List.mem_append]

end Grafting

/-! ### Any order -/

/-- A single stored header attains the greatest total difficulty. -/
def SoleHeaviest (c : Chain) : Prop :=
  ∃ h total, c.header? h.hash = .ok (some h) ∧ c.total? h.hash = .ok (some total) ∧
    ∀ hash other, hash ≠ h.hash → c.total? hash = .ok (some other) → other < total

/-- Two chains store the same headers with the same total difficulties, in either
tier, and their heads have the same total difficulty.  If a single header attains
the greatest one, they have the same head and read the same throughout. -/
structure Converged (c c' : Chain) : Prop where
  header : ∀ hash, c'.header? hash = c.header? hash
  total : ∀ hash, c'.total? hash = c.total? hash
  stores : ∀ h, c'.store.Stores h ↔ c.store.Stores h
  counts : ∀ h total, c'.store.Counts h total ↔ c.store.Counts h total
  headTotal : ∃ total, c.total? c.headBlock.hash = .ok (some total) ∧
    c'.total? c'.headBlock.hash = .ok (some total)
  settled : c.SoleHeaviest → c'.headBlock = c.headBlock ∧ c'.headHeader = c.headHeader ∧
    c.store.SameReads c'.store

/-- A header with more total difficulty than any other is the head. -/
theorem Heaviest.headBlock_eq {h : Header} {total : Difficulty} (heaviest : c.Heaviest)
    (rooted : c.store.Rooted c.genesis pool) (item : c.store.item? h.hash = some ⟨h, total⟩)
    (sole : ∀ hash e, hash ≠ h.hash → c.store.item? hash = some e → e.totalDifficulty < total) :
    c.headBlock = h := by
  obtain ⟨spine, l, top⟩ := heaviest
  have head := rooted.item?_eq l
  by_cases same : c.headBlock.hash = h.hash
  · exact l.has.unique (Store.has_iff.mpr ⟨total, item⟩) same
  · exact absurd (sole _ _ same head) (Nat.not_lt.mpr (top _ _ item))

/-- **What is stored settles the rest**: two reached chains with the same genesis
and the same stored headers have converged. -/
theorem Reached.converged {offered' : List Header} (reached : Reached offered c)
    (reached' : Reached offered' c') (free : CollisionFree offered)
    (sub : ∀ h ∈ offered', h ∈ offered) (genesis : c'.genesis = c.genesis)
    (same : ∀ h, c.store.Has h ↔ c'.store.Has h) (answers : c.store.tier.service.AnswersReads)
    (answers' : c'.store.tier.service.AnswersReads) : c.Converged c' := by
  have free' := free.mono sub
  have sound := reached.sound free
  have sound' := (reached'.sound free').mono sub
  have legible := sound.rooted.sound
  have legible' := sound'.rooted.sound
  have item := sound.rooted.item?_eq_of_has (genesis ▸ sound'.rooted) same
  obtain ⟨spine, l, top⟩ := reached.heaviest free
  obtain ⟨spine', l', top'⟩ := reached'.heaviest free'
  have head := sound.rooted.item?_eq l
  have head' := sound'.rooted.item?_eq l'
  have totals : Difficulty.capped (work spine') = .capped (work spine) :=
    Difficulty.ext (Nat.le_antisymm (top _ _ ((item _).symm.trans head'))
      (top' _ _ ((item _).trans head)))
  have read {α : Type} {x x' : Lookup StoreError α}
      (eq : c'.store.answer x' = c.store.answer x) : c'.read x' = c.read x := by
    unfold Chain.read Lookup.inChain
    rw [Store.answer_mapError, Store.answer_mapError, eq]
  refine ⟨fun hash => read ?_, fun hash => read ?_, fun h => ?_, fun h total => ?_, ?_, ?_⟩
  · rw [legible'.answer_header answers', legible.answer_header answers, item]
  · rw [legible'.answer_total answers', legible.answer_total answers, item]
  · rw [(reached'.archived free').stores_iff legible', (reached.archived free).stores_iff legible]
    exact (same h).symm
  · rw [(reached'.archived free').counts_iff legible', (reached.archived free).counts_iff legible,
      item]
  · exact ⟨_, read_eq_ok_iff.mpr (sound.rooted.answer_total answers l),
      totals ▸ read_eq_ok_iff.mpr (sound'.rooted.answer_total answers' l')⟩
  · rintro ⟨h, total, found, counted, others⟩
    obtain ⟨total', stored⟩ :=
      Store.has_iff.mp (sound.rooted.has_of_answer answers (header?_eq_ok_iff.mp found))
    have own := read_eq_ok_iff.mp counted
    rw [legible.answer_total answers, stored] at own
    obtain ⟨⟩ := own
    have sole (hash : Hash) (e : Frozen) (apart : hash ≠ h.hash)
        (at_hash : c.store.item? hash = some e) : e.totalDifficulty < total' := by
      refine others hash _ apart (read_eq_ok_iff.mpr ?_)
      rw [legible.answer_total answers, at_hash]
      rfl
    have first := Heaviest.headBlock_eq ⟨spine, l, top⟩ sound.rooted stored sole
    have second := Heaviest.headBlock_eq ⟨spine', l', top'⟩ sound'.rooted ((item _).trans stored)
      fun hash e apart at_hash => sole hash e apart ((item _).symm.trans at_hash)
    have heads : c'.headBlock = c.headBlock := second.trans first.symm
    refine ⟨heads, by rw [sound'.headHeader, sound.headHeader, heads], ?_⟩
    exact (sound.sameContents sound' genesis item heads).sameReads legible legible' answers answers'

/-- **The order of competing forks does not matter with the gate off.**  Let a
reached chain have nothing frozen and the gate off, and let its tier answer.
Segments that graft onto it, with headers in common or not, are all accepted in
any order, and the chains that come of two orders have converged. -/
theorem insertAll_perm (reached : Reached offered c)
    (free : CollisionFree (offered ++ segments.flatten))
    (answers : c.store.tier.service.AnswersReads) (unfrozen : c.store.tier.items = [])
    (ungated : c.gate.enabled = false) (grafts : ∀ segment ∈ segments, c.Grafts segment)
    (perm : segments.Perm segments') :
    (∀ result ∈ (c.insertAll segments).1, ∃ receipt, result = .ok receipt) ∧
      (∀ result ∈ (c.insertAll segments').1, ∃ receipt, result = .ok receipt) ∧
      (c.insertAll segments).2.Converged (c.insertAll segments').2 := by
  have sound := reached.sound_append free
  have mem_iff (h : Header) : h ∈ segments.flatten ↔ h ∈ segments'.flatten := perm.flatten.mem_iff
  obtain ⟨accepted, has_iff, tier⟩ := sound.insertAll_spec free answers unfrozen ungated grafts
    fun h mem => List.mem_append_right _ mem
  obtain ⟨accepted', has_iff', tier'⟩ := sound.insertAll_spec free answers unfrozen ungated
    (fun s mem => grafts s (perm.mem_iff.mpr mem))
    fun h mem => List.mem_append_right _ ((mem_iff h).mpr mem)
  have begun (segments : List (List Header)) :
      Reached (offered ++ segments.flatten) (c.insertAll segments).2 := by
    rw [insertAll_snd, ← headers_insertAll segments]
    exact reached.run _
  have genesis {segments' : List (List Header)} (sub : ∀ h ∈ segments'.flatten, h ∈ segments.flatten) :
      (c.insertAll segments').2.genesis = c.genesis := by
    rw [insertAll_snd]
    refine (sound.succeeds_run free _ fun h mem => ?_).genesis
    rw [headers_insertAll] at mem
    exact List.mem_append_right _ (sub h mem)
  refine ⟨accepted, accepted', (begun segments).converged (begun segments') free ?_ ?_ ?_ ?_ ?_⟩
  · intro h mem
    exact (List.mem_append.mp mem).elim (List.mem_append_left _)
      fun mem => List.mem_append_right _ ((mem_iff h).mpr mem)
  · rw [genesis fun h => (mem_iff h).mpr, genesis fun h => id]
  · intro h
    rw [has_iff, has_iff', mem_iff]
  · rw [tier]
    exact answers
  · rw [tier']
    exact answers

/-- Two segments that share their first header. -/
def sampleForks : List (List Header) :=
  [[sampleChild, sampleLater], [sampleChild, sampleGrandchild]]

theorem grafts_sampleForks : ∀ segment ∈ sampleForks, sampleChain.Grafts segment := by
  have sound := (reached_sampleChain []).sound (by simp [CollisionFree])
  have answers : sampleChain.store.tier.service.AnswersReads := fun _ => ⟨rfl, fun _ => rfl⟩
  obtain ⟨_, -, prepared⟩ := (answer_prepare_iff sound.rooted.sound answers).mp prepare_sampleChild
  have grafts {tip : Header} (is_sealed : tip.isSealed)
      (obeys : Rule.retarget {} sampleChild tip = .ok ()) :
      sampleChain.Grafts [sampleChild, tip] := by
    refine .of_retarget sound answers rfl prepared.parent ?_ ?_
    · exact List.forall_mem_cons.mpr
        ⟨Header.isSealed_sealWith .., List.forall_mem_singleton.mpr is_sealed⟩
    · exact List.isChain_cons_cons.mpr ⟨retarget_sampleChild, List.isChain_pair.mpr obeys⟩
  have later : Rule.retarget {} sampleChild sampleLater = .ok () :=
    Rule.retarget_sealWith rfl (by decide) rfl
  have grandchild : Rule.retarget {} sampleChild sampleGrandchild = .ok () :=
    Rule.retarget_sealWith rfl (by decide) rfl
  exact List.forall_mem_cons.mpr ⟨grafts (Header.isSealed_sealWith ..) later,
    List.forall_mem_singleton.mpr (grafts (Header.isSealed_sealWith ..) grandchild)⟩

/-- Whichever of the two comes first, both are accepted. -/
theorem insertAll_perm_sampleForks :
    (∀ result ∈ (sampleChain.insertAll sampleForks).1, ∃ receipt, result = .ok receipt) ∧
      (∀ result ∈ (sampleChain.insertAll sampleForks.reverse).1,
        ∃ receipt, result = .ok receipt) ∧
      (sampleChain.insertAll sampleForks).2.Converged
        (sampleChain.insertAll sampleForks.reverse).2 := by
  have free : CollisionFree ([sampleGenesis] ++ sampleForks.flatten) :=
    collisionFree_samples.mono (by simp [samples, sampleForks])
  exact insertAll_perm (reached_sampleChain []) free (fun _ => ⟨rfl, fun _ => rfl⟩) rfl rfl
    grafts_sampleForks (List.reverse_perm _).symm

end Chain

end ForkChoice
