/-
ForkChoice/Proofs/Chain/Judging.lean

What the judgement of a candidate comes to.

The path of the candidate's parent leaves the path of the head at one header
(`Chain.Fork`).  That header is where the trail of parents meets the canonical
chain (`Fork.meets`), so the search finds it and the branch above it unless it
lies too low (`Fork.answer_search`); every new header is compared with the
header of its height on the head's path, or with the head
(`Fork.answer_standing`), and the race ends without a failure
(`Fork.answer_race`).  So the whole assessment is a function of the two paths
(`Fork.answer_judge`): the index, the stored total difficulties and the running
sum stand for sums of difficulties along them.
-/
import ForkChoice.Proofs.Chain.Preparing
import ForkChoice.Proofs.Meeting

namespace ForkChoice

/-! ### Two paths -/

namespace Store.Lineage

variable {s : Store} {genesis h b : Header} {path : List Header}

/-- A lineage of more than the genesis goes back to the parent's lineage. -/
theorem of_append (l : s.Lineage genesis (path ++ [b]) h) (above : path ≠ []) :
    h = b ∧ ∃ p, s.Lineage genesis path p ∧ p.Precedes b := by
  generalize whole : path ++ [b] = all at l
  cases l with
  | root =>
    have lengths := congrArg List.length whole
    rw [List.length_append, List.length_singleton, List.length_singleton] at lengths
    exact absurd (List.eq_nil_of_length_eq_zero (by omega)) above
  | @step path' p h l precedes _ =>
    obtain ⟨rfl, last⟩ := List.append_inj' whole rfl
    obtain ⟨⟩ := last
    exact ⟨rfl, p, l, precedes⟩

end Store.Lineage

/-! ### What a store says -/

namespace Store

variable {s : Store} {genesis : Header} {pool : List Header}

/-- The headers, total difficulties and canonical hashes of a store. -/
def register (s : Store) : Register where
  header hash := (s.item? hash).map (·.header)
  total hash := (s.item? hash).map (·.totalDifficulty)
  canonical := s.canonical?

/-- A sound store whose tier answers is a source that does not fail. -/
theorem Sound.reads (sound : s.Sound) (answers : s.tier.service.AnswersReads) :
    s.source.Reads s.tier s.register where
  header hash place :=
    (Lookup.runFrom_eq_run answers _ place).trans (sound.answer_header answers hash)
  total hash place :=
    (Lookup.runFrom_eq_run answers _ place).trans (sound.answer_total answers hash)
  canonical number place :=
    (Lookup.runFrom_eq_run answers _ place).trans (sound.answer_canonical answers number)

/-- In a rooted store numbers fall along parent links. -/
theorem Rooted.falling (rooted : s.Rooted genesis pool) : s.register.Falling := by
  intro hash h p stored raised parent_stored
  obtain ⟨e, found, rfl⟩ := Option.map_eq_some_iff.mp stored
  obtain ⟨path, l, -⟩ := rooted.lineage found
  cases l with
  | root number => exact absurd number raised
  | @step _ p' _ l precedes _ =>
    rw [precedes.link] at parent_stored
    rw [← Option.some.inj (l.has.symm.trans parent_stored), UInt64.lt_iff_toNat_lt]
    exact Nat.lt_of_lt_of_eq (Nat.lt_succ_self _) precedes.number.symm

end Store

namespace Chain

/-- The path of a header `p` leaves the path of the head at `a`: below and up to
there they agree, and of the branch above none is on the path of the head. -/
structure Fork (c : Chain) (p : Header) (trunk : List Header) (a : Header)
    (branch spine : List Header) : Prop where
  path : c.store.Lineage c.genesis (trunk ++ a :: branch) p
  head : c.store.Lineage c.genesis spine c.headBlock
  canonical : ∀ number, c.store.canonical? number = spine[number.toNat]?.map (·.hash)
  shared : a ∈ spine
  apart : ∀ b ∈ branch, b ∉ spine

theorem Sound.exists_fork {pool : List Header} {c : Chain} (sound : c.Sound pool) {p : Header}
    (has : c.store.Has p) : ∃ trunk a branch spine, c.Fork p trunk a branch spine := by
  obtain ⟨path, l⟩ := sound.rooted.exists_lineage has
  obtain ⟨spine, l', canonical⟩ := sound.spine
  obtain ⟨trunk, a, branch, rfl, shared, apart⟩ := l.exists_fork l'
  exact ⟨trunk, a, branch, spine, l, l', canonical, shared, apart⟩

/-- On another store of the same contents the paths part where they did. -/
theorem Fork.onto {c : Chain} {s : Store} {p a : Header} {trunk branch spine : List Header}
    (fork : c.Fork p trunk a branch spine) (same : c.store.SameContents s) :
    (c.onto s).Fork p trunk a branch spine where
  path := fork.path.mono fun _ => same.has
  head := fork.head.mono fun _ => same.has
  canonical number := (same.canonical number).trans (fork.canonical number)
  shared := fork.shared
  apart := fork.apart

/-- The height of the canonical header that a header is compared with: its own, or
the head's if it is higher. -/
def rivalNumber (c : Chain) (h : Header) : UInt64 :=
  if h.number ≤ c.headBlock.number then h.number else c.headBlock.number

theorem toNat_rivalNumber (c : Chain) (h : Header) :
    (c.rivalNumber h).toNat = min h.number.toNat c.headBlock.number.toNat := by
  unfold rivalNumber
  split
  · rename_i le
    exact (Nat.min_eq_left le).symm
  · rename_i above
    exact (Nat.min_eq_right (Nat.le_of_not_le above)).symm

/-- The fork point of two paths. -/
def forkPoint (trunk : List Header) (a : Header) (branch : List Header) : ForkPoint :=
  ⟨a, .capped (work (trunk ++ [a])), branch.map fun b => (b.number, b.hash)⟩

/-- How a header of the given total difficulty stands against a path. -/
def standing (fork : ForkPoint) (spine : List Header) (h : Header) (total : Difficulty) :
    Standing :=
  let canonicalTotal := .capped (work (spine.take (h.number.toNat + 1)))
  { number := h.number
    hash := h.hash
    total
    canonicalTotal
    ratio := workRatio fork.total canonicalTotal total
    elapsed := Standing.secondsSince fork.header.timestamp h.timestamp }

/-- The assessment of a candidate, from the two paths. -/
def reckoning (c : Chain) (x : Candidate) (trunk : List Header) (a : Header)
    (branch spine : List Header) : Assessment :=
  let fork := forkPoint trunk a branch
  let standings := (ascent (work (trunk ++ a :: branch)) x.headers).map fun (h, total) =>
    standing fork spine h total
  let headTotal := .capped (work spine)
  { fork
    known := x.known
    standings
    head := c.headBlock
    headTotal
    gate := c.gate.curve?
    verdict := Verdict.ofStandings c.gate.curve? a standings headTotal }

namespace Fork

variable {pool : List Header} {c : Chain} {p a : Header} {trunk branch spine : List Header}

/-- Of the stored headers those on the path of the head are canonical. -/
theorem canonical_iff (fork : c.Fork p trunk a branch spine) {h : Header} (has : c.store.Has h) :
    c.store.canonical? h.number = some h.hash ↔ h ∈ spine := by
  rw [fork.canonical]
  constructor
  · intro found
    obtain ⟨h', at_h, same⟩ := Option.map_eq_some_iff.mp found
    have mem := List.mem_of_getElem? at_h
    rwa [has.unique (fork.head.has_of_mem mem) same.symm]
  · intro mem
    rw [fork.head.getElem?_of_mem mem]
    rfl

/-- The header at which the paths part has its own lineage. -/
theorem trunk_lineage (fork : c.Fork p trunk a branch spine) :
    c.store.Lineage c.genesis (trunk ++ [a]) a := by
  have number := fork.path.number_eq (a := a) (i := trunk.length) (by simp)
  have l := fork.path.take (a := a) (by simp)
  rw [number] at l
  simpa [List.take_append, List.take_of_length_le] using l

theorem number_eq (fork : c.Fork p trunk a branch spine) : a.number.toNat = trunk.length :=
  fork.path.number_eq (i := trunk.length) (by simp)

/-- Up to the header at which they part the two paths are the same. -/
theorem spine_take (fork : c.Fork p trunk a branch spine) :
    spine.take (a.number.toNat + 1) = trunk ++ [a] := by
  rw [fork.head.take_eq_take fork.path fork.shared (by simp), fork.number_eq]
  simp [List.take_append, List.take_of_length_le]

/-! ### The search -/

/-- Down from its end a path is the trail of parents that the store tells. -/
theorem trail (fork : c.Fork p trunk a branch spine) :
    c.store.register.Trail p.hash (branch.reverse ++ [a]) := by
  induction branch using List.reverseRecOn generalizing p with
  | nil =>
    obtain ⟨below, whole⟩ := fork.path.eq_append
    obtain ⟨-, last⟩ := List.append_inj' whole rfl
    obtain ⟨⟩ := last
    exact .stop fork.path.has
  | append_singleton branch b ih =>
    have longer := fork.path
    rw [← List.cons_append, ← List.append_assoc] at longer
    obtain ⟨rfl, parent, l, precedes⟩ := longer.of_append (by simp)
    have below := ih ⟨l, fork.head, fork.canonical, fork.shared,
      fun b mem => fork.apart b (List.mem_append_left _ mem)⟩
    rw [← precedes.link] at below
    rw [List.reverse_append, List.reverse_singleton, List.append_assoc]
    exact .down fork.path.has below

/-- The path meets the canonical chain at the header where it leaves the head's. -/
theorem meets (fork : c.Fork p trunk a branch spine) {retained : Nat}
    (high : retained ≤ a.number.toNat) :
    c.store.register.Meets p.hash retained branch.reverse a := by
  have has {b : Header} (mem : b ∈ trunk ++ a :: branch) := fork.path.has_of_mem mem
  have above (b : Header) (mem : b ∈ branch) : a.number.toNat < b.number.toNat := by
    obtain ⟨i, at_i⟩ := List.getElem?_of_mem mem
    have number := fork.path.number_eq (a := b) (i := trunk.length + (i + 1)) (by
      rw [List.getElem?_append_right (Nat.le_add_right _ _), Nat.add_sub_cancel_left]
      exact at_i)
    rw [number, fork.number_eq]
    omega
  refine ⟨fork.trail, (fork.canonical_iff (has (by simp))).mpr fork.shared, ?_, ?_, ?_⟩
  · intro b mem canonical
    rw [List.mem_reverse] at mem
    exact fork.apart b mem ((fork.canonical_iff (has (by simp [mem]))).mp canonical)
  · intro b mem zero
    rw [List.mem_reverse] at mem
    have := above b mem
    rw [zero] at this
    exact absurd this (Nat.not_lt_zero _)
  · intro b mem
    rw [List.mem_append, List.mem_reverse, List.mem_singleton] at mem
    rcases mem with mem | rfl
    · exact Nat.le_trans high (Nat.le_of_lt (above b mem))
    · exact high

variable (rooted : c.store.Rooted c.genesis pool) (answers : c.store.tier.service.AnswersReads)
include rooted answers

/-- The search finds the header at which the paths part, unless it lies too low. -/
theorem answer_search (fork : c.Fork p trunk a branch spine) (retained : Nat) :
    c.store.answer (ForkPoint.search c.store.source p.hash retained)
      = if retained ≤ a.number.toNat then .ok (forkPoint trunk a branch)
        else .error (.unknownAncestor p.hash retained) := by
  have reads := rooted.sound.reads answers
  by_cases high : retained ≤ a.number.toNat
  · rw [if_pos high]
    have counted : c.store.register.total a.hash = some (.capped (work (trunk ++ [a]))) := by
      show (c.store.item? a.hash).map (·.totalDifficulty) = _
      rw [rooted.item?_eq fork.trunk_lineage]
      rfl
    have found := ForkPoint.run_search_of_searched reads rooted.falling
      (.met (fork.meets high) counted)
    rw [List.map_reverse, List.reverse_reverse] at found
    exact found
  · rw [if_neg high]
    refine ForkPoint.run_search_of_searched reads rooted.falling (.parted fun passed b meets => ?_)
    -- with no least height asked for, this is the one meeting point there is
    have lower : c.store.register.Meets p.hash 0 passed b :=
      { meets with high := fun _ _ => Nat.zero_le _ }
    obtain ⟨-, rfl⟩ := lower.unique (fork.meets (Nat.zero_le _))
    exact high (meets.high b (by simp))

/-! ### The race -/

omit rooted answers in
/-- The header that a new header is compared with is on the path of the head.  Up to
it that path is what the new header's height takes of it. -/
theorem exists_rival (fork : c.Fork p trunk a branch spine) (h : Header) :
    ∃ rival, spine[(c.rivalNumber h).toNat]? = some rival ∧
      c.store.Lineage c.genesis (spine.take (h.number.toNat + 1)) rival := by
  have length := fork.head.length_eq
  have height := c.toNat_rivalNumber h
  obtain ⟨rival, at_rival⟩ : ∃ rival, spine[(c.rivalNumber h).toNat]? = some rival :=
    ⟨_, List.getElem?_eq_getElem (by omega)⟩
  refine ⟨rival, at_rival, ?_⟩
  have l := fork.head.take (List.mem_of_getElem? at_rival)
  rw [fork.head.number_eq at_rival, height] at l
  rcases Nat.le_total h.number.toNat c.headBlock.number.toNat with le | le
  · rwa [Nat.min_eq_left le] at l
  · -- above the head the whole path of the head is meant, which taking more of it gives too
    rw [Nat.min_eq_right le, List.take_of_length_le (by omega)] at l
    rwa [List.take_of_length_le (by omega)]

/-- A new header is compared with the header of its height on the path of the
head, or with the head. -/
theorem answer_standing (fork : c.Fork p trunk a branch spine) (point : ForkPoint)
    (total : Difficulty) (h : Header) :
    c.store.answer (Standing.of c.store.source point c.headBlock.number total h)
      = .ok (standing point spine h total) := by
  obtain ⟨rival, at_rival, l⟩ := fork.exists_rival h
  have canonical := rooted.sound.answer_canonical answers (c.rivalNumber h)
  rw [fork.canonical, at_rival] at canonical
  have counted := rooted.answer_totalOf answers l
  show c.store.answer ((c.store.source.canonical? (c.rivalNumber h)).inChain >>= _) = _
  rw [Store.answer_bind_of_ok answers (Store.answer_inChain_of_ok canonical)]
  dsimp only [Option.map_some]
  rw [Store.answer_bind_of_ok answers counted]
  rfl

/-- The race goes through, and its sums are those of the difficulties. -/
theorem answer_race (fork : c.Fork p trunk a branch spine) (point : ForkPoint) (below : Nat)
    (headers : List Header) :
    c.store.answer
        (Race.run c.store.source point c.headBlock.number (.capped below) headers)
      = .ok ⟨.capped (below + work headers),
          (ascent below headers).map fun (h, total) => standing point spine h total, none⟩ := by
  induction headers generalizing below with
  | nil => rfl
  | cons h rest ih =>
    have stands := fork.answer_standing rooted answers point
      ((Difficulty.capped below).plus h.difficulty) h
    have others := ih (below + h.difficulty.toNat)
    rw [Difficulty.capped_plus] at stands
    unfold Race.run
    rw [Difficulty.capped_plus, Store.answer_bind_of_ok answers (Lookup.run_attempt stands)]
    dsimp only
    rw [Store.answer_bind_of_ok answers others, work_cons, ← Nat.add_assoc]
    rfl

/-! ### The judgement -/

/-- **The judgement of a candidate** is a function of the path of its parent and
the path of the head. -/
theorem answer_judge {x : Candidate} (fork : c.Fork x.parent trunk a branch spine) :
    c.store.answer (c.judge x)
      = if c.store.tier.items.length - 1 ≤ a.number.toNat
        then .ok (c.reckoning x trunk a branch spine)
        else .error (.unknownAncestor x.parent.hash (c.store.tier.items.length - 1)) := by
  have frozen : c.store.answer retainedFrom = .ok (c.store.tier.items.length - 1) := by
    have count : c.store.answer frozenCount = .ok c.store.tier.items.length :=
      Lookup.run_count answers _
    unfold retainedFrom
    rw [Store.answer_bind_of_ok answers (Store.answer_inChain_of_ok count)]
    rfl
  have searched := fork.answer_search rooted answers (c.store.tier.items.length - 1)
  have headTotal := rooted.answer_totalOf answers fork.head
  have parentTotal := rooted.answer_totalOf answers fork.path
  have raced := fork.answer_race rooted answers (forkPoint trunk a branch)
    (work (trunk ++ a :: branch)) x.headers
  unfold judge
  rw [Store.answer_bind_of_ok answers frozen]
  split <;> rename_i low
  · rw [if_pos low] at searched
    rw [Store.answer_bind_of_ok answers searched, Store.answer_bind_of_ok answers headTotal,
      Store.answer_bind_of_ok answers parentTotal, Store.answer_bind_of_ok answers raced]
    rfl
  · rw [if_neg low] at searched
    exact Store.answer_bind_of_error answers searched

end Fork

section Assessment

variable {pool : List Header} {c : Chain} {x : Candidate} {a : Header}
  {trunk branch spine segment : List Header}

/-- The assessment of a prepared segment is its judgement. -/
theorem answer_assessment (answers : c.store.tier.service.AnswersReads)
    (prepared : c.store.answer (c.prepare segment) = .ok (some x)) :
    c.store.answer (c.assessment segment)
      = ((c.store.answer (c.judge x)).mapError (⟨x.known, ·⟩)).map fun a => some (x, a) := by
  unfold assessment Lookup.blame
  rw [Store.answer_bind_of_ok answers prepared]
  dsimp only
  rw [Store.answer_bind answers, Store.answer_mapError]
  rcases c.store.answer (c.judge x) with a | e | w <;> rfl

/-- A segment that cannot be prepared is not assessed. -/
theorem answer_assessment_of_error {e : SegmentError}
    (answers : c.store.tier.service.AnswersReads)
    (failed : c.store.answer (c.prepare segment) = .error e) :
    c.store.answer (c.assessment segment) = .error e := by
  unfold assessment
  exact Store.answer_bind_of_error answers failed

/-- A segment that is assessed is prepared before. -/
theorem prepare_of_assessment {found : Assessment} (answers : c.store.tier.service.AnswersReads)
    (h : c.store.answer (c.assessment segment) = .ok (some (x, found))) :
    c.store.answer (c.prepare segment) = .ok (some x) := by
  have whole := h
  unfold assessment at whole
  rw [Store.answer_bind answers] at whole
  obtain ⟨x?, prepared, -⟩ := Outcome.bind_eq_ok.mp whole
  rcases x? with - | y
  · have nothing : c.store.answer (c.assessment segment) = .ok none := by
      unfold assessment
      rw [Store.answer_bind_of_ok answers prepared]
      rfl
    rw [nothing] at h
    cases h
  · have judged := Chain.answer_assessment answers prepared
    rw [h] at judged
    rcases result : c.store.answer (c.judge y) with a | e | w <;> rw [result] at judged
    · cases judged
      exact prepared
    · cases judged
    · cases judged

/-- The assessment of a prepared segment is the reckoning along the two paths,
unless they part too low. -/
theorem Fork.answer_assessment (fork : c.Fork x.parent trunk a branch spine)
    (rooted : c.store.Rooted c.genesis pool) (answers : c.store.tier.service.AnswersReads)
    (prepared : c.store.answer (c.prepare segment) = .ok (some x)) :
    c.store.answer (c.assessment segment)
      = if c.store.tier.items.length - 1 ≤ a.number.toNat
        then .ok (some (x, c.reckoning x trunk a branch spine))
        else .error ⟨x.known, .unknownAncestor x.parent.hash (c.store.tier.items.length - 1)⟩ := by
  rw [Chain.answer_assessment answers prepared, fork.answer_judge rooted answers]
  split <;> rfl

end Assessment

end Chain

end ForkChoice
