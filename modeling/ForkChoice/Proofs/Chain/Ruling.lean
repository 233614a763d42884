/-
ForkChoice/Proofs/Chain/Ruling.lean

What becomes of a segment, and which header is blamed.

`Ruling` lists the ways in which an insertion ends, each with the condition under
which it does, by the contents of the headers, by what is stored under their
hashes, and by the path of the head and that of the first new header's parent.
Nothing in it refers to the order in which an insertion looks at things, and a
segment with several faults comes under one of them only.

On a reached chain whose tier answers, every ruling is what the insertion comes
to (`Ruling.insert_eq`), and there is one for every segment (`exists_ruling`); so
the two are the same (`insert_eq_iff_ruling`).
-/
import ForkChoice.Proofs.Chain.Faults
import ForkChoice.Proofs.Chain.Permanence

namespace ForkChoice

/-! ### Standings -/

/-- A standing that follows the reference is the only one. -/
theorem Chain.Reference.Point.unique {fork h : Header} {path spine headers : List Header}
    {s s' : Standing} (point : Reference.Point fork path spine headers h s)
    (point' : Reference.Point fork path spine headers h s') : s = s' := by
  have number := point.number.trans point'.number.symm
  have hash := point.hash.trans point'.hash.symm
  have total := point.total.trans point'.total.symm
  have canonicalTotal := point.canonicalTotal.trans point'.canonicalTotal.symm
  have ratio : s.ratio = s'.ratio := by
    rw [point.ratio, point'.ratio, canonicalTotal, total]
  have elapsed : s.elapsed = s'.elapsed :=
    UInt64.toNat_inj.mp (Nat.add_right_cancel (point.elapsed.trans point'.elapsed.symm))
  rcases s
  rcases s'
  simp only [Standing.mk.injEq]
  exact ⟨number, hash, total, canonicalTotal, ratio, elapsed⟩

/-- The gate is enabled, and the ratio of a header falls short of what it requires
after the time that has passed. -/
def Gate.Refuses (gate : Gate) (s : Standing) : Prop :=
  gate.enabled ∧ s.ratio < gate.curve.required (Binary64.ofNat s.elapsed.toNat)

namespace Chain

variable {pool offered segment held new path spine trunk branch front back : List Header}
  {c : Chain} {r : Retarget} {parent fork h t : Header}

/-! ### Overtaking -/

/-- Of the headers on top of a path the one after the front is the first that is
heavier than the end of the head's path. -/
structure Overtakes (path spine front : List Header) (t : Header) : Prop where
  lighter : Lighter (work path) spine front
  heavier : Difficulty.capped (work spine) < .capped (work (path ++ (front ++ [t])))

/-! ### Rulings -/

/-- Something is stored under the header's hash: the header itself, unless hashes
collide. -/
def Knows (c : Chain) (h : Header) : Prop := ∃ e, c.header? h.hash = .ok (some e)

/-- The segment hangs together and consists of headers that are stored and of the
rest, which does not begin with a stored one. -/
structure Opens (c : Chain) (segment held new : List Header) : Prop where
  whole : segment = held ++ new
  coherent : Segment.Coherent segment
  stored : ∀ h ∈ held, c.Knows h
  fresh : ∀ h ∈ new.head?, ¬ c.Knows h

/-- There is a rest, and the parent of its first header is stored. -/
structure Grounded (c : Chain) (segment held new : List Header) (parent : Header) : Prop extends
    c.Opens segment held new where
  child : ∃ first ∈ new.head?, c.header? first.parentHash = .ok (some parent)

/-- The headers of the rest are valid, each above the one before it.  Their parent
has the given path, which leaves the path of the head at the given header. -/
structure Contends (c : Chain) (r : Retarget) (segment held new : List Header) (parent : Header)
    (path spine : List Header) (fork : Header) : Prop extends
    c.Grounded segment held new parent where
  valid : (parent :: new).IsChain r.Valid
  below : c.Ancestry parent path
  head : c.Ancestry c.headBlock spine
  forks : ForksAt path spine fork

/-- **What becomes of a segment.**  The rule for new headers has the parameters `r`,
and `held` are the headers at the front that are stored. -/
inductive Ruling (c : Chain) (r : Retarget) (segment : List Header) :
    Outcome SegmentError Receipt → Prop
  /-- A header is not sealed or does not continue the one before it; the first such
  header is blamed. -/
  | flawed {front back : List Header} {h : Header} {v : Violation} :
      segment = front ++ h :: back → Segment.Coherent front → Segment.Flaw front.getLast? h v →
      Ruling c r segment (.error ⟨front.length, .validation v⟩)
  /-- Every header is stored. -/
  | held : c.Opens segment segment [] →
      Ruling c r segment (.ok (c.receipt none segment.length 0))
  /-- The parent of the first new header is not stored. -/
  | orphan {held new : List Header} {first : Header} : c.Opens segment held new →
      first ∈ new.head? → c.header? first.parentHash = .ok none →
      Ruling c r segment (.error ⟨held.length, .unknownParent first.parentHash⟩)
  /-- A new header is not a valid child of the one before it; the first such header
  is blamed. -/
  | invalid {held front back : List Header} {parent h : Header} {v : Violation} :
      c.Grounded segment held (front ++ h :: back) parent → (parent :: front).IsChain r.Valid →
      r.Invalid (front.getLastD parent) h v →
      Ruling c r segment (.error ⟨held.length + front.length, .validation v⟩)
  /-- The new headers leave the path of the head below the last frozen header. -/
  | low {held new path spine : List Header} {parent fork : Header} :
      c.Contends r segment held new parent path spine fork →
      fork.number.toNat < c.store.tier.items.length - 1 →
      Ruling c r segment
        (.error ⟨held.length, .unknownAncestor parent.hash (c.store.tier.items.length - 1)⟩)
  /-- The gate refuses the first header that is heavier than the head. -/
  | rejected {held front back path spine : List Header} {parent fork t : Header} {s : Standing} :
      c.Contends r segment held (front ++ t :: back) parent path spine fork →
      c.store.tier.items.length - 1 ≤ fork.number.toNat →
      Overtakes path spine front t → Reference.Point fork path spine (front ++ [t]) t s →
      c.gate.Refuses s →
      Ruling c r segment (.error ⟨held.length + front.length, .rejected {
        ancestorNumber := fork.number
        ancestorHash := fork.hash
        number := t.number
        hash := t.hash
        elapsed := s.elapsed
        ratio := s.ratio
        required := c.gate.curve.required (Binary64.ofNat s.elapsed.toNat) }⟩)
  /-- No new header is heavier than the head. -/
  | sideChain {held new path spine : List Header} {parent fork : Header} :
      c.Contends r segment held new parent path spine fork →
      c.store.tier.items.length - 1 ≤ fork.number.toNat → Lighter (work path) spine new →
      Ruling c r segment (.ok (c.receipt (some .sideChain) held.length new.length))
  /-- The gate lets the first header pass that is heavier than the head. -/
  | headSwitch {held front back path spine : List Header} {parent fork t : Header} {s : Standing} :
      c.Contends r segment held (front ++ t :: back) parent path spine fork →
      c.store.tier.items.length - 1 ≤ fork.number.toNat →
      Overtakes path spine front t → Reference.Point fork path spine (front ++ [t]) t s →
      ¬ c.gate.Refuses s →
      Ruling c r segment (.ok {
        verdict := some .headSwitch
        known := held.length
        written := (front ++ t :: back).length
        head := (back.getLastD t).hash
        headNumber := (back.getLastD t).number })

/-! ### What a reached chain reads -/

section Readings

variable (sound : c.store.Sound) (answers : c.store.tier.service.AnswersReads)
include sound answers

theorem header?_eq (hash : Hash) :
    c.header? hash = .ok ((c.store.item? hash).map (·.header)) :=
  header?_eq_ok_iff.mpr (sound.answer_header answers hash)

theorem knows_iff : c.Knows h ↔ (c.store.item? h.hash).isSome := by
  unfold Knows
  rw [header?_eq sound answers]
  rcases c.store.item? h.hash with - | e <;> simp

theorem Opens.isSome_item (opens : c.Opens segment held new) :
    ∀ h ∈ held, (c.store.item? h.hash).isSome :=
  fun h mem => (knows_iff sound answers).mp (opens.stored h mem)

/-- Every segment that hangs together opens with the stored headers at its front. -/
theorem exists_opens (coherent : Segment.Coherent segment) :
    ∃ held new, c.Opens segment held new := by
  refine ⟨segment.takeWhile fun h => (c.store.item? h.hash).isSome,
    segment.dropWhile fun h => (c.store.item? h.hash).isSome,
    List.takeWhile_append_dropWhile.symm, coherent, fun h mem => ?_, fun h first => ?_⟩
  · have stored := List.mem_takeWhile_imp
      (p := fun h : Header => (c.store.item? h.hash).isSome) mem
    exact (knows_iff sound answers).mpr stored
  · have unknown := List.head?_dropWhile_not (fun h => (c.store.item? h.hash).isSome) segment
    rw [Option.mem_def.mp first] at unknown
    exact mt (knows_iff sound answers).mp (by simpa using unknown)

/-- A segment that opens with a stored front is prepared from the first new header on. -/
theorem Opens.answer_prepare {first : Header} {rest : List Header}
    (opens : c.Opens segment held (first :: rest)) :
    c.store.answer (c.prepare segment) =
      match c.store.item? first.parentHash with
      | none => .error ⟨held.length, .unknownParent first.parentHash⟩
      | some e => do
        obey c.rule held.length e.header (first :: rest)
        return some { known := held.length, parent := e.header, first, rest } := by
  have stored := opens.isSome_item sound answers
  have unknown : (c.store.item? first.hash).isSome = false :=
    Bool.eq_false_iff.mpr (mt (knows_iff sound answers).mpr (opens.fresh first rfl))
  rw [Chain.answer_prepare sound answers, Segment.check_eq_ok_iff_coherent.mpr opens.coherent]
  obtain rfl := opens.whole
  rw [List.takeWhile_append_of_pos stored, List.dropWhile_append_of_pos stored]
  rcases parent? : c.store.item? first.parentHash with - | e <;>
    simp only [List.takeWhile_cons, List.dropWhile_cons, unknown, Bool.false_eq_true, if_false,
      List.append_nil, parent?]

theorem Grounded.has (grounded : c.Grounded segment held new parent) : c.store.Has parent := by
  obtain ⟨first, -, found⟩ := grounded.child
  rw [header?_eq sound answers] at found
  obtain ⟨e, item, rfl⟩ := Option.map_eq_some_iff.mp (Outcome.ok.inj found)
  exact Store.has_of_item? sound item

/-- On a stored parent it is held against the rule. -/
theorem Grounded.answer_prepare (grounded : c.Grounded segment held new parent) :
    ∃ x : Candidate, x.known = held.length ∧ x.parent = parent ∧ x.headers = new ∧
      c.store.answer (c.prepare segment) = do
        obey c.rule held.length parent new
        return some x := by
  obtain ⟨first, mem, found⟩ := grounded.child
  rw [header?_eq sound answers] at found
  obtain ⟨e, item, rfl⟩ := Option.map_eq_some_iff.mp (Outcome.ok.inj found)
  rcases new with - | ⟨first', rest⟩
  · cases mem
  obtain ⟨⟩ := mem
  refine ⟨⟨held.length, e.header, first, rest⟩, rfl, rfl, rfl, ?_⟩
  rw [grounded.toOpens.answer_prepare sound answers, item]

/-- A segment of stored headers comes to nothing. -/
theorem Opens.ignored (opens : c.Opens segment segment []) : c.Ignores segment := by
  have holds : c.Holds segment :=
    ⟨Segment.check_eq_ok_iff_coherent.mpr opens.coherent, opens.isSome_item sound answers⟩
  exact holds.ignored sound answers

end Readings

/-- What is prepared with an error is inserted with the same. -/
theorem insert_of_prepare_error {e : SegmentError} (answers : c.store.tier.service.AnswersReads)
    (failed : c.store.answer (c.prepare segment) = .error e) : (c.insert segment).1 = .error e := by
  rw [insert_of_error (answer_assessment_of_error answers failed)]

/-! ### Contending headers -/

namespace Contends

variable (contends : c.Contends r segment held new parent path spine fork)
include contends

theorem linked : (parent :: new).IsChain Header.Precedes :=
  contends.valid.imp fun _ _ valid => valid.precedes

theorem new_ne_nil : new ≠ [] := by
  rintro rfl
  obtain ⟨first, mem, -⟩ := contends.child
  cases mem

/-- What is assessed are the new headers, by the two paths. -/
theorem exists_assessment (sound : c.Sound pool) (answers : c.store.tier.service.AnswersReads)
    (rule : c.rule = .retarget r) :
    ∃ (x : Candidate) (trunk branch : List Header), x.known = held.length ∧ x.headers = new ∧
      x.parent = parent ∧
      Reference c.gate fork path spine new (c.reckoning x trunk fork branch spine) ∧
      c.store.answer (c.assessment segment)
        = if c.store.tier.items.length - 1 ≤ fork.number.toNat
          then .ok (some (x, c.reckoning x trunk fork branch spine))
          else .error ⟨held.length, .unknownAncestor parent.hash (c.store.tier.items.length - 1)⟩ := by
  obtain ⟨x, known, rfl, rfl, prepared⟩ :=
    contends.toGrounded.answer_prepare sound.rooted.sound answers
  rw [rule, obey_retarget_eq_ok_iff.mpr contends.valid, Outcome.ok_bind] at prepared
  -- the given paths are the lineages, which part where they do
  have l := sound.lineage answers contends.below
  have l' := sound.lineage answers contends.head
  obtain ⟨trunk, a, branch, spine', parts⟩ := sound.exists_fork l.has
  obtain rfl := l'.unique parts.head
  obtain rfl := l.unique parts.path
  obtain rfl := l.forksAt_unique contends.forks (l.forksAt parts.shared parts.apart)
  refine ⟨x, trunk, branch, known, rfl, rfl, parts.reference contends.linked, ?_⟩
  rw [parts.answer_assessment sound.rooted answers prepared, known]

end Contends

/-- Where a header overtakes, the gate decides by its standing. -/
theorem Reference.verdict_of_overtakes {gate : Gate} {a : Assessment} {s : Standing}
    (reference : Reference gate fork path spine (front ++ t :: back) a)
    (overtakes : Overtakes path spine front t)
    (point : Reference.Point fork path spine (front ++ [t]) t s) :
    (¬ gate.Refuses s → a.verdict = .headSwitch) ∧
      (gate.Refuses s → a.verdict = .rejected {
        ancestorNumber := fork.number
        ancestorHash := fork.hash
        number := t.number
        hash := t.hash
        elapsed := s.elapsed
        ratio := s.ratio
        required := gate.curve.required (Binary64.ofNat s.elapsed.toNat) }) := by
  have at_t : (front ++ t :: back)[front.length]? = some t := by simp
  have upto : (front ++ t :: back).take (front.length + 1) = front ++ [t] := by
    rw [List.take_length_add_append]
    rfl
  obtain ⟨s', at_s, point'⟩ := reference.point at_t
  rw [upto] at point'
  obtain rfl := point.unique point'
  have decided := reference.takeover at_t at_s (fun j below => by
    rw [List.take_append_of_le_length below]
    exact overtakes.lighter.capped_le below) (upto ▸ overtakes.heavier)
  exact ⟨fun passes => decided.trans (if_neg passes), fun refuses => decided.trans (if_pos refuses)⟩

/-! ### Rulings are what insertions come to -/

/-- **A ruling is what the insertion comes to.** -/
theorem Ruling.insert_eq {result : Outcome SegmentError Receipt} (ruling : Ruling c r segment result)
    (sound : c.Sound pool) (answers : c.store.tier.service.AnswersReads)
    (rule : c.rule = .retarget r) : (c.insert segment).1 = result := by
  have legible := sound.rooted.sound
  cases ruling with
  | @flawed front back h v whole coherent flaw =>
    refine insert_of_prepare_error answers ?_
    rw [Chain.answer_prepare legible answers,
      Segment.check_eq_error_iff.mpr ⟨front, h, back, whole, rfl, coherent, flaw⟩]
  | held opens => exact congrArg Prod.fst (opens.ignored legible answers)
  | @orphan held new first opens mem unknown =>
    refine insert_of_prepare_error answers ?_
    rw [header?_eq legible answers] at unknown
    rcases new with - | ⟨first', rest⟩
    · cases mem
    obtain ⟨⟩ := mem
    rw [opens.answer_prepare legible answers, Option.map_eq_none_iff.mp (Outcome.ok.inj unknown)]
  | @invalid held front back parent h v grounded valid invalid =>
    refine insert_of_prepare_error answers ?_
    obtain ⟨x, -, -, -, prepared⟩ := grounded.answer_prepare legible answers
    rw [prepared, rule, obey_retarget_of_invalid valid invalid]
    rfl
  | low contends low =>
    obtain ⟨x, trunk, branch, -, -, -, -, assessed⟩ := contends.exists_assessment sound answers rule
    rw [if_neg (Nat.not_le.mpr low)] at assessed
    rw [insert_of_error assessed]
  | @rejected held front back path spine parent fork t s contends high overtakes point refuses =>
    obtain ⟨x, trunk, branch, known, headers, parented, reference, assessed⟩ :=
      contends.exists_assessment sound answers rule
    rw [if_pos high] at assessed
    have verdict := (reference.verdict_of_overtakes overtakes point).2 refuses
    have linked := contends.linked
    rw [← headers, ← parented] at linked
    have at_t : x.headers[front.length]? = some t := by simp [headers]
    rw [Chain.insert_eq assessed, execute, verdict]
    dsimp only
    rw [rejectionIndex_eq linked at_t rfl, known]
  | @sideChain held new path spine parent fork contends high lighter =>
    obtain ⟨x, trunk, branch, known, headers, -, reference, assessed⟩ :=
      contends.exists_assessment sound answers rule
    rw [if_pos high] at assessed
    have verdict : (c.reckoning x trunk fork branch spine).verdict = .sideChain := by
      refine reference.sideChain_iff.mpr ?_
      -- the last header has the work of all
      have last := List.length_pos_iff.mpr contends.new_ne_nil
      have whole := lighter.capped_le (Nat.sub_one_lt_of_lt last)
      rwa [List.take_of_length_le (by omega)] at whole
    rw [Chain.insert_eq assessed, execute, verdict, known, headers]
    rfl
  | @headSwitch held front back path spine parent fork t s contends high overtakes point passes =>
    obtain ⟨x, trunk, branch, known, headers, -, reference, assessed⟩ :=
      contends.exists_assessment sound answers rule
    rw [if_pos high] at assessed
    have verdict := (reference.verdict_of_overtakes overtakes point).1 passes
    have tip : x.tip = back.getLastD t := by
      rw [tip_eq x parent, headers]
      simp [List.getLast?_cons]
    rw [Chain.insert_eq assessed, execute, verdict, known, headers, ← tip]
    rfl

/-- There is a ruling on new headers that are valid, -/
theorem Contends.exists_ruling (contends : c.Contends r segment held new parent path spine fork)
    (sound : c.Sound pool) (answers : c.store.tier.service.AnswersReads)
    (rule : c.rule = .retarget r) : ∃ result, Ruling c r segment result := by
  rcases Nat.lt_or_ge fork.number.toNat (c.store.tier.items.length - 1) with low | high
  · exact ⟨_, .low contends low⟩
  rcases lighter_or_first path spine new with lighter | ⟨front, t, back, rfl, lighter, heavier⟩
  · exact ⟨_, .sideChain contends high lighter⟩
  have overtakes : Overtakes path spine front t := ⟨lighter, heavier⟩
  -- the standing of the header that overtakes is among those that are found
  obtain ⟨x, trunk, branch, -, -, -, reference, -⟩ := contends.exists_assessment sound answers rule
  obtain ⟨s, -, point⟩ := reference.point (i := front.length) (h := t) (by simp)
  rw [List.take_length_add_append] at point
  by_cases refuses : c.gate.Refuses s
  · exact ⟨_, .rejected contends high overtakes point refuses⟩
  · exact ⟨_, .headSwitch contends high overtakes point refuses⟩

/-- on any new headers on top of a stored one, -/
theorem Grounded.exists_ruling (grounded : c.Grounded segment held new parent)
    (sound : c.Sound pool) (answers : c.store.tier.service.AnswersReads)
    (checked : r.check = .ok ()) (rule : c.rule = .retarget r) :
    ∃ result, Ruling c r segment result := by
  rcases valid_or_first_invalid checked parent new with
    valid | ⟨front, h, back, v, rfl, valid, invalid⟩
  · obtain ⟨trunk, fork, branch, spine, parts⟩ :=
      sound.exists_fork (grounded.has sound.rooted.sound answers)
    have contends : c.Contends r segment held new parent (trunk ++ fork :: branch) spine fork :=
      ⟨grounded, valid, sound.ancestry answers parts.path, sound.ancestry answers parts.head,
        parts.path.forksAt parts.shared parts.apart⟩
    exact contends.exists_ruling sound answers rule
  · exact ⟨_, .invalid grounded valid invalid⟩

/-- and **on every segment**. -/
theorem Sound.exists_ruling (sound : c.Sound pool) (answers : c.store.tier.service.AnswersReads)
    (checked : r.check = .ok ()) (rule : c.rule = .retarget r) (segment : List Header) :
    ∃ result, Ruling c r segment result := by
  have legible := sound.rooted.sound
  rcases failed : Segment.check segment with ⟨i, v⟩ | ⟨⟨⟩⟩
  · obtain ⟨front, h, back, whole, -, coherent, flaw⟩ := Segment.check_eq_error_iff.mp failed
    exact ⟨_, .flawed whole coherent flaw⟩
  have coherent := Segment.check_eq_ok_iff_coherent.mp failed
  obtain ⟨held, new, opens⟩ := exists_opens legible answers coherent
  rcases new with - | ⟨first, rest⟩
  · obtain rfl : segment = held := opens.whole.trans held.append_nil
    exact ⟨_, .held opens⟩
  have read := header?_eq legible answers first.parentHash
  rcases parent? : c.store.item? first.parentHash with - | e <;> rw [parent?] at read
  · exact ⟨_, .orphan opens rfl read⟩
  · have grounded : c.Grounded segment held (first :: rest) e.header := ⟨opens, first, rfl, read⟩
    exact grounded.exists_ruling sound answers checked rule

/-- **An insertion accepts exactly the valid segments and blames the right header.**
In every reached chain whose tier answers, an insertion comes to what the ruling
on the segment says, for any segment whatsoever; a segment of stored headers
leaves the chain as it is. -/
theorem insert_eq_iff_ruling (reached : Reached offered c) (free : CollisionFree offered)
    (answers : c.store.tier.service.AnswersReads) (segment : List Header) :
    ∃ r : Retarget, r.check = .ok () ∧ c.rule = .retarget r ∧
      (∀ result, (c.insert segment).1 = result ↔ Ruling c r segment result) ∧
      (c.Opens segment segment [] → (c.insert segment).2 = c) := by
  have sound := reached.sound free
  have legible := sound.rooted.sound
  obtain ⟨r, checked, rule⟩ := sound.rule
  refine ⟨r, checked, rule, fun result => ⟨?_, fun ruling => ruling.insert_eq sound answers rule⟩,
    fun opens => congrArg Prod.snd (opens.ignored legible answers)⟩
  rintro rfl
  obtain ⟨result, ruling⟩ := sound.exists_ruling answers checked rule segment
  rwa [ruling.insert_eq sound answers rule]

/-- On the chain of the genesis a height that is left out is blamed behind a stored
header, and alone on its missing parent; the genesis again comes to nothing. -/
theorem insert_eq_iff_ruling_sampleLater :
    (sampleChain.insert [sampleGenesis, sampleLater]).1
        = .error ⟨1, .validation (.nonSequential 1 2)⟩ ∧
      (sampleChain.insert [sampleLater]).1 = .error ⟨0, .unknownParent sampleChild.hash⟩ ∧
      (sampleChain.insert [sampleGenesis]).2 = sampleChain := by
  have reached : Reached [sampleGenesis] sampleChain := reached_sampleChain []
  have free : CollisionFree [sampleGenesis] := collisionFree_samples.mono (by simp [samples])
  have answers : sampleChain.store.tier.service.AnswersReads := fun _ => ⟨rfl, fun _ => rfl⟩
  have legible := (reached.sound free).rooted.sound
  have coherent (h : Header) (is_sealed : h.isSealed) : Segment.Coherent [h] :=
    ⟨List.forall_mem_singleton.mpr is_sealed, List.isChain_singleton h⟩
  have genesis_sealed : sampleGenesis.isSealed := Header.isSealed_sealWith ..
  have later_sealed : sampleLater.isSealed := Header.isSealed_sealWith ..
  have stored (hash : Hash) : sampleChain.header? hash
      = .ok (if sampleGenesis.hash = hash then some sampleGenesis else none) := by
    have item : sampleChain.store.item? hash = _ := item?_genesisStore _ sampleGenesis hash
    rw [header?_eq legible answers, item]
    split <;> rfl
  have other (h : Header) (mem : h ∈ samples) (is_sealed : h.isSealed) (ne : sampleGenesis ≠ h) :
      sampleChain.header? h.hash = .ok none := by
    rw [stored, if_neg (mt (collisionFree_samples _ (by simp [samples]) h mem genesis_sealed
      is_sealed) ne)]
  refine ⟨?_, ?_, ?_⟩
  · obtain ⟨r, -, -, rules, -⟩ :=
      insert_eq_iff_ruling reached free answers [sampleGenesis, sampleLater]
    have whole : [sampleGenesis, sampleLater] = [sampleGenesis] ++ sampleLater :: [] := rfl
    have breaks : sampleGenesis.Breaks sampleLater (.nonSequential 1 2) := .height (by decide)
    exact (rules _).mpr (.flawed whole (coherent _ genesis_sealed) (.unlinked later_sealed breaks))
  · obtain ⟨r, -, -, rules, -⟩ := insert_eq_iff_ruling reached free answers [sampleLater]
    have unknown := other sampleLater (by simp [samples]) later_sealed
      fun same => absurd (congrArg Header.number same) (by decide)
    have opens : sampleChain.Opens [sampleLater] [] [sampleLater] := by
      refine ⟨rfl, coherent _ later_sealed, List.forall_mem_nil _, ?_⟩
      rintro h ⟨⟩ ⟨e, found⟩
      cases unknown.symm.trans found
    refine (rules _).mpr (.orphan opens rfl ?_)
    exact other sampleChild (by simp [samples]) (Header.isSealed_sealWith ..)
      fun same => absurd (congrArg Header.number same) (by decide)
  · obtain ⟨r, -, -, -, nothing⟩ := insert_eq_iff_ruling reached free answers [sampleGenesis]
    have known : sampleChain.Knows sampleGenesis :=
      ⟨sampleGenesis, (stored _).trans (by rw [if_pos rfl])⟩
    refine nothing ⟨rfl, coherent _ genesis_sealed, List.forall_mem_singleton.mpr known, ?_⟩
    intro h mem
    cases mem

end Chain

end ForkChoice
