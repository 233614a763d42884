/-
ForkChoice/Proofs/Meeting.lean

The search for a fork point over any source that does not fail.

What such a source says of hashes and heights is a `Register`: three partial
functions, with no word on how the answers are come by.  In a register the
parent links below a hash give a `Trail` of stored headers, and a trail `Meets`
the canonical chain at the first header on it that is canonical, if all headers
up to there are high enough and those passed over are not of height zero.
`Searched` lists what a search can come to: the meeting point with its total
difficulty and the headers passed, lowest first; a meeting point that has no
total difficulty; or no meeting point.

Main results:
* `walk_searched`: one walk downward, by induction on its steps, ends at the
  meeting point or finds that there is none;
* `Register.Meets.unique`: there is at most one meeting point;
* `ForkPoint.search_eq_iff`: if numbers fall along parent links, the search ends
  and comes to the one result that the register calls for.
-/
import ForkChoice.ForkPoint

namespace ForkChoice

/-! ### Lookups that come to one result -/

namespace Lookup

variable {ε δ α β : Type} {t : Tier}

/-- A tier leads a lookup to this result, from whichever of its calls on. -/
def ComesTo (t : Tier) (x : Lookup ε α) (result : Outcome ε α) : Prop :=
  ∀ place, x.runFrom t place = result

/-- The second part of a sequence starts at the call after the last one of the
first part. -/
theorem exists_runFrom_bind (t : Tier) (x : Lookup ε α) (f : α → Lookup ε β) (place : Nat) :
    ∃ place', (x >>= f).runFrom t place
      = x.runFrom t place >>= fun a => (f a).runFrom t place' := by
  show ∃ place', (x.bind f).runFrom t place = _
  induction x generalizing place with
  | done result => rcases result with a | e | w <;> exact ⟨place, rfl⟩
  | count next ih => exact ih _ _
  | fetch number next ih => exact ih _ _

theorem comesTo_done (result : Outcome ε α) : (done result).ComesTo t result := fun _ => rfl

theorem ComesTo.bind {x : Lookup ε α} {f : α → Lookup ε β} {a : α} {result : Outcome ε β}
    (hx : x.ComesTo t (.ok a)) (hf : (f a).ComesTo t result) : (x >>= f).ComesTo t result := by
  intro place
  obtain ⟨place', step⟩ := exists_runFrom_bind t x f place
  rw [step, hx place]
  exact hf place'

theorem ComesTo.bind_error {x : Lookup ε α} {e : ε} (hx : x.ComesTo t (.error e))
    (f : α → Lookup ε β) : (x >>= f).ComesTo t (.error e) := by
  intro place
  obtain ⟨place', step⟩ := exists_runFrom_bind t x f place
  rw [step, hx place]
  rfl

theorem ComesTo.mapError {x : Lookup ε α} {result : Outcome ε α} (hx : x.ComesTo t result)
    (g : ε → δ) : (x.mapError g).ComesTo t (result.mapError g) := by
  intro place
  rw [runFrom_mapError, hx place]

end Lookup

/-! ### Registers -/

/-- What a source says: headers and total difficulties by hash, canonical hashes
by height. -/
structure Register where
  header : Hash → Option Header
  total : Hash → Option Difficulty
  canonical : UInt64 → Option Hash

/-- Behind the tier, the source answers every question from the register. -/
structure Source.Reads (source : Source) (t : Tier) (reg : Register) : Prop where
  header (hash : Hash) : (source.header? hash).ComesTo t (.ok (reg.header hash))
  total (hash : Hash) : (source.total? hash).ComesTo t (.ok (reg.total hash))
  canonical (number : UInt64) : (source.canonical? number).ComesTo t (.ok (reg.canonical number))

namespace Register

/-- The source that answers from a register at once. -/
def source (reg : Register) (size : Nat) : Source where
  header? hash := .done (.ok (reg.header hash))
  total? hash := .done (.ok (reg.total hash))
  canonical? number := .done (.ok (reg.canonical number))
  size := size

theorem reads_source (reg : Register) (size : Nat) (t : Tier) : (reg.source size).Reads t reg :=
  ⟨fun _ => Lookup.comesTo_done _, fun _ => Lookup.comesTo_done _, fun _ => Lookup.comesTo_done _⟩

/-- Above height zero, a stored parent has a smaller number than its child. -/
def Falling (reg : Register) : Prop :=
  ∀ {hash : Hash} {h p : Header}, reg.header hash = some h → h.number ≠ 0 →
    reg.header h.parentHash = some p → p.number < h.number

/-- The header is the canonical one of its height. -/
def Canonical (reg : Register) (h : Header) : Prop := reg.canonical h.number = some h.hash

instance (reg : Register) (h : Header) : Decidable (reg.Canonical h) :=
  inferInstanceAs (Decidable (_ = _))

/-- The first headers of the stored path of parents below a hash, highest first. -/
inductive Trail (reg : Register) : Hash → List Header → Prop where
  | stop {hash h} : reg.header hash = some h → Trail reg hash [h]
  | down {hash h path} :
      reg.header hash = some h → Trail reg h.parentHash path → Trail reg hash (h :: path)

/-- From the hash down, `a` is the first canonical header; it and those `passed`
on the way lie at `retained` or above, and none of the latter at height zero. -/
structure Meets (reg : Register) (hash : Hash) (retained : Nat) (passed : List Header)
    (a : Header) : Prop where
  trail : reg.Trail hash (passed ++ [a])
  canonical : reg.Canonical a
  apart : ∀ b ∈ passed, ¬ reg.Canonical b
  raised : ∀ b ∈ passed, b.number ≠ 0
  high : ∀ b ∈ passed ++ [a], retained ≤ b.number.toNat

/-- What a search can come to. -/
inductive Searched (reg : Register) (hash : Hash) (retained : Nat) :
    Outcome ChainError ForkPoint → Prop where
  /-- The meeting point, with the headers passed on the way in rising order. -/
  | met {passed a total} : reg.Meets hash retained passed a → reg.total a.hash = some total →
      Searched reg hash retained
        (.ok ⟨a, total, (passed.map fun b => (b.number, b.hash)).reverse⟩)
  | uncounted {passed a} : reg.Meets hash retained passed a → reg.total a.hash = none →
      Searched reg hash retained (.error (.missingTotal a.hash))
  | parted : (∀ passed a, ¬ reg.Meets hash retained passed a) →
      Searched reg hash retained (.error (.unknownAncestor hash retained))

/-! ### Meeting points -/

variable {reg : Register} {hash : Hash} {retained : Nat} {passed path : List Header} {a h : Header}

/-- A trail starts with the header stored under its hash, and goes on with the
trail below that header's parent hash. -/
theorem Trail.head_eq (trail : reg.Trail hash (a :: path)) :
    reg.header hash = some a ∧ (path = [] ∨ reg.Trail a.parentHash path) := by
  cases trail with
  | stop stored => exact ⟨stored, .inl rfl⟩
  | down stored below => exact ⟨stored, .inr below⟩

/-- At a canonical header a trail meets the canonical chain there and then. -/
theorem meets_of_canonical (stored : reg.header hash = some h) (canonical : reg.Canonical h)
    (high : retained ≤ h.number.toNat) : reg.Meets hash retained [] h where
  trail := .stop stored
  canonical := canonical
  apart _ mem := absurd mem List.not_mem_nil
  raised _ mem := absurd mem List.not_mem_nil
  high _ mem := List.mem_singleton.mp mem ▸ high

/-- A trail that may pass its first header meets where the trail below it does. -/
theorem Meets.cons (meets : reg.Meets h.parentHash retained passed a)
    (stored : reg.header hash = some h) (apart : ¬ reg.Canonical h) (raised : h.number ≠ 0)
    (high : retained ≤ h.number.toNat) : reg.Meets hash retained (h :: passed) a where
  trail := .down stored meets.trail
  canonical := meets.canonical
  apart := List.forall_mem_cons.mpr ⟨apart, meets.apart⟩
  raised := List.forall_mem_cons.mpr ⟨raised, meets.raised⟩
  high := List.forall_mem_cons.mpr ⟨high, meets.high⟩

/-- The ways in which a trail goes from its first header to a meeting point. -/
theorem Meets.first_cases (meets : reg.Meets hash retained passed a)
    (stored : reg.header hash = some h) :
    retained ≤ h.number.toNat ∧
      ((reg.Canonical h ∧ passed = [] ∧ a = h) ∨
        (¬ reg.Canonical h ∧ h.number ≠ 0 ∧
          ∃ rest, passed = h :: rest ∧ reg.Meets h.parentHash retained rest a)) := by
  obtain ⟨trail, canonical, apart, raised, high⟩ := meets
  cases passed with
  | nil =>
    obtain ⟨there, -⟩ := trail.head_eq
    obtain rfl := Option.some.inj (there.symm.trans stored)
    exact ⟨high a (List.mem_singleton_self a), .inl ⟨canonical, rfl, rfl⟩⟩
  | cons b rest =>
    obtain ⟨there, below⟩ := trail.head_eq
    obtain rfl := Option.some.inj (there.symm.trans stored)
    rw [List.cons_append, List.forall_mem_cons] at high
    rw [List.forall_mem_cons] at apart raised
    have below := below.resolve_left (List.append_ne_nil_of_right_ne_nil _ (List.cons_ne_nil _ _))
    exact ⟨high.1, .inr ⟨apart.1, raised.1, rest, rfl, below, canonical, apart.2, raised.2, high.2⟩⟩

theorem Meets.exists_stored (meets : reg.Meets hash retained passed a) :
    ∃ h, reg.header hash = some h := by
  have trail := meets.trail
  cases passed with
  | nil => exact ⟨_, trail.head_eq.1⟩
  | cons b rest => exact ⟨_, trail.head_eq.1⟩

/-- There is at most one meeting point, and one way to it. -/
theorem Meets.unique {passed' : List Header} {a' : Header}
    (meets : reg.Meets hash retained passed a) (meets' : reg.Meets hash retained passed' a') :
    passed = passed' ∧ a = a' := by
  induction passed generalizing hash passed' with
  | nil =>
    have stored := meets.trail.head_eq.1
    obtain ⟨-, ⟨-, rfl, rfl⟩ | ⟨apart, -⟩⟩ := meets'.first_cases stored
    · exact ⟨rfl, rfl⟩
    · exact absurd meets.canonical apart
  | cons b passed ih =>
    have stored := meets.trail.head_eq.1
    obtain ⟨-, ⟨canonical, -⟩ | ⟨-, -, rest, whole, below⟩⟩ := meets.first_cases stored
    · exact absurd canonical (meets.apart b List.mem_cons_self)
    obtain ⟨-⟩ := whole
    obtain ⟨-, ⟨canonical, -⟩ | ⟨-, -, rest', rfl, below'⟩⟩ := meets'.first_cases stored
    · exact absurd canonical (meets.apart b List.mem_cons_self)
    obtain ⟨rfl, rfl⟩ := ih below below'
    exact ⟨rfl, rfl⟩

/-- A search comes to one result only. -/
theorem Searched.unique {result result' : Outcome ChainError ForkPoint}
    (searched : reg.Searched hash retained result)
    (searched' : reg.Searched hash retained result') : result = result' := by
  cases searched with
  | met meets counted =>
    cases searched' with
    | met meets' counted' =>
      obtain ⟨rfl, rfl⟩ := meets.unique meets'
      rw [Option.some.inj (counted.symm.trans counted')]
    | uncounted meets' none' =>
      obtain ⟨rfl, rfl⟩ := meets.unique meets'
      cases counted.symm.trans none'
    | parted never => exact absurd meets (never _ _)
  | uncounted meets none =>
    cases searched' with
    | met meets' counted' =>
      obtain ⟨rfl, rfl⟩ := meets.unique meets'
      cases none.symm.trans counted'
    | uncounted meets' none' =>
      obtain ⟨rfl, rfl⟩ := meets.unique meets'
      rfl
    | parted never => exact absurd meets (never _ _)
  | parted never =>
    cases searched' with
    | met meets' _ => exact absurd meets' (never _ _)
    | uncounted meets' _ => exact absurd meets' (never _ _)
    | parted _ => rfl

end Register

/-! ### The search -/

namespace Source.Reads

variable {source : Source} {t : Tier} {reg : Register}

theorem isCanonical (reads : source.Reads t reg) (h : Header) :
    (source.isCanonical h).inChain.ComesTo t (.ok (decide (reg.Canonical h))) := by
  have told : (source.isCanonical h).ComesTo t (.ok (decide (reg.Canonical h))) :=
    (reads.canonical h.number).bind (Lookup.comesTo_done _)
  exact told.mapError _

theorem header_inChain (reads : source.Reads t reg) (hash : Hash) :
    (source.header? hash).inChain.ComesTo t (.ok (reg.header hash)) :=
  (reads.header hash).mapError _

theorem totalOf (reads : source.Reads t reg) (hash : Hash) :
    (source.totalOf hash).ComesTo t
      (match reg.total hash with
        | some total => .ok total
        | none => .error (.missingTotal hash)) := by
  apply ((reads.total hash).mapError _).bind
  rcases reg.total hash with - | total <;> exact Lookup.comesTo_done _

end Source.Reads

namespace ForkPoint

variable {source : Source} {t : Tier} {reg : Register}

/-- **A walk down from a stored header** ends at the meeting point, or finds that
there is none, if it may make more steps than the header's number tells. -/
theorem walk_searched (reads : source.Reads t reg) (falling : reg.Falling) (unknown : ChainError)
    (retained steps : Nat) {hash : Hash} {cursor : Header} (stored : reg.header hash = some cursor)
    (enough : cursor.number.toNat < steps) (branch : List (UInt64 × Hash)) :
    (∃ passed a, reg.Meets hash retained passed a ∧
      (walk source unknown retained steps cursor branch).ComesTo t
        (.ok (a, (passed.map fun b => (b.number, b.hash)).reverse ++ branch))) ∨
    ((∀ passed a, ¬ reg.Meets hash retained passed a) ∧
      (walk source unknown retained steps cursor branch).ComesTo t (.error unknown)) := by
  induction steps generalizing hash cursor branch with
  | zero => exact absurd enough (Nat.not_lt_zero _)
  | succ steps ih =>
    have asked := reads.isCanonical cursor
    unfold walk
    by_cases low : cursor.number.toNat < retained
    · rw [if_pos low]
      refine .inr ⟨fun passed a meets => ?_, Lookup.comesTo_done _⟩
      exact Nat.not_le.mpr low (meets.first_cases stored).1
    rw [if_neg low]
    by_cases canonical : reg.Canonical cursor
    · -- the first canonical header
      rw [decide_eq_true canonical] at asked
      refine .inl ⟨[], cursor, ?_, asked.bind (Lookup.comesTo_done _)⟩
      exact Register.meets_of_canonical stored canonical (Nat.not_lt.mp low)
    rw [decide_eq_false canonical] at asked
    by_cases zero : cursor.number = 0
    · -- the genesis of another chain
      refine .inr ⟨fun passed a meets => ?_, asked.bind ?_⟩
      · obtain ⟨-, ⟨here, -⟩ | ⟨-, raised, -⟩⟩ := meets.first_cases stored
        · exact canonical here
        · exact raised zero
      · simp only [Bool.false_eq_true, if_false, if_pos zero]
        exact Lookup.comesTo_done _
    have parent_asked := reads.header_inChain cursor.parentHash
    rcases parent_stored : reg.header cursor.parentHash with - | parent
    · -- a link that leads nowhere
      rw [parent_stored] at parent_asked
      refine .inr ⟨fun passed a meets => ?_, asked.bind ?_⟩
      · obtain ⟨-, ⟨here, -⟩ | ⟨-, -, rest, -, below⟩⟩ := meets.first_cases stored
        · exact canonical here
        · obtain ⟨h, there⟩ := below.exists_stored
          cases parent_stored.symm.trans there
      · simp only [Bool.false_eq_true, if_false, if_neg zero]
        exact parent_asked.bind (Lookup.comesTo_done _)
    rw [parent_stored] at parent_asked
    have lower : parent.number.toNat < cursor.number.toNat := falling stored zero parent_stored
    rcases ih parent_stored (by omega) ((cursor.number, cursor.hash) :: branch) with
      ⟨passed, a, meets, walked⟩ | ⟨never, walked⟩
    · refine .inl ⟨cursor :: passed, a, ?_, asked.bind ?_⟩
      · exact meets.cons stored canonical zero (Nat.not_lt.mp low)
      · simp only [Bool.false_eq_true, if_false, if_neg zero, List.map_cons, List.reverse_cons,
          List.append_assoc, List.cons_append, List.nil_append]
        exact parent_asked.bind walked
    · refine .inr ⟨fun passed a meets => ?_, asked.bind ?_⟩
      · obtain ⟨-, ⟨here, -⟩ | ⟨-, -, rest, -, below⟩⟩ := meets.first_cases stored
        · exact canonical here
        · exact never _ _ below
      · simp only [Bool.false_eq_true, if_false, if_neg zero]
        exact parent_asked.bind walked

/-- A search comes to a result that the register calls for. -/
theorem exists_searched (reads : source.Reads t reg) (falling : reg.Falling) (hash : Hash)
    (retained : Nat) :
    ∃ result, (search source hash retained).ComesTo t result ∧
      reg.Searched hash retained result := by
  have asked := reads.header_inChain hash
  rcases stored : reg.header hash with - | parent
  · rw [stored] at asked
    refine ⟨_, asked.bind (Lookup.comesTo_done _), .parted fun passed a meets => ?_⟩
    obtain ⟨h, there⟩ := meets.exists_stored
    cases stored.symm.trans there
  rw [stored] at asked
  rcases walk_searched reads falling (.unknownAncestor hash retained) retained
      (parent.number.toNat + source.size + 1) stored (by omega) [] with
    ⟨passed, a, meets, walked⟩ | ⟨never, walked⟩
  · have counted := reads.totalOf a.hash
    rw [List.append_nil] at walked
    rcases total_eq : reg.total a.hash with - | total <;> rw [total_eq] at counted
    · exact ⟨_, asked.bind (walked.bind (counted.bind_error _)), .uncounted meets total_eq⟩
    · exact ⟨_, asked.bind (walked.bind (counted.bind (Lookup.comesTo_done _))),
        .met meets total_eq⟩
  · exact ⟨_, asked.bind (walked.bind_error _), .parted never⟩

theorem run_search_of_searched (reads : source.Reads t reg) (falling : reg.Falling) {hash : Hash}
    {retained : Nat} {result : Outcome ChainError ForkPoint}
    (searched : reg.Searched hash retained result) : (search source hash retained).run t = result := by
  obtain ⟨found, comesTo, same⟩ := exists_searched reads falling hash retained
  exact (comesTo 0).trans (same.unique searched)

/-- **The search for a fork point is correct and ends.**  Over a source that
answers every question, from a register in which stored parents lie lower than
their children, it comes to what the register calls for and to nothing else:
the first canonical header on the trail below the hash, if that header and all
before it lie at the least height asked for or above and none before it is a
genesis, with the stored total difficulty and the headers before it from the
lowest up; an error if no total difficulty is stored for it; and in every other
case the one error that carries the hash and the least height. -/
theorem search_eq_iff (reads : source.Reads t reg) (falling : reg.Falling) (hash : Hash)
    (retained : Nat) (result : Outcome ChainError ForkPoint) :
    (search source hash retained).run t = result ↔ reg.Searched hash retained result := by
  refine ⟨?_, run_search_of_searched reads falling⟩
  rintro rfl
  obtain ⟨found, comesTo, searched⟩ := exists_searched reads falling hash retained
  show reg.Searched hash retained ((search source hash retained).runFrom t 0)
  rwa [comesTo 0]

/-- A header of a height under a hash, linked to another. -/
def sampleLink (number : UInt64) (name parent : UInt8) : Header :=
  ⟨number, .filled name, .filled parent, 0, 1, 0⟩

/-- Three canonical headers, and two on a side chain that leaves at height one. -/
def sampleLinks : List Header :=
  [sampleLink 0 1 0, sampleLink 1 2 1, sampleLink 2 3 2, sampleLink 2 4 2, sampleLink 3 5 4]

/-- The links by their hashes, with a total difficulty for that at height one. -/
def sampleRegister : Register where
  header hash := sampleLinks.find? fun h => h.hash = hash
  total hash := if hash = .filled 2 then some 2 else none
  canonical number := if number < 3 then some (.filled (number.toUInt8 + 1)) else none

theorem sampleRegister_falling : sampleRegister.Falling := by
  have links : ∀ h ∈ sampleLinks, ∀ p ∈ sampleLinks, p.hash = h.parentHash →
      p.number < h.number := by decide
  have listed {hash : Hash} {h : Header} (stored : sampleRegister.header hash = some h) :
      h ∈ sampleLinks ∧ h.hash = hash := by
    simp only [sampleRegister] at stored
    have named := List.find?_some stored
    exact ⟨List.mem_of_find?_eq_some stored, of_decide_eq_true named⟩
  intro hash h p stored _ parent_stored
  exact links h (listed stored).1 p (listed parent_stored).1 (listed parent_stored).2

/-- From the tip of the side chain two headers are passed; above height one
there is no meeting point. -/
theorem search_eq_iff_sampleRegister :
    ((sampleRegister.source 5).Reads {} sampleRegister ∧ sampleRegister.Falling) ∧
    (search (sampleRegister.source 5) (.filled 5) 1).run {}
      = .ok ⟨sampleLink 1 2 1, 2, [(2, .filled 4), (3, .filled 5)]⟩ ∧
    (search (sampleRegister.source 5) (.filled 5) 2).run {}
      = .error (.unknownAncestor (.filled 5) 2) := by
  have reads := sampleRegister.reads_source 5 {}
  have meets (retained : Nat) (low : retained ≤ 1) : sampleRegister.Meets (.filled 5) retained
      [sampleLink 3 5 4, sampleLink 2 4 2] (sampleLink 1 2 1) :=
    ((Register.meets_of_canonical (by decide) (by decide) low).cons (by decide) (by decide)
      (by decide) (Nat.le_succ_of_le low)).cons (by decide) (by decide) (by decide)
      (Nat.le_trans low (by decide))
  refine ⟨⟨reads, sampleRegister_falling⟩, ?_, ?_⟩
  · exact (search_eq_iff reads sampleRegister_falling _ _ _).mpr
      (.met (meets 1 (Nat.le_refl 1)) (by decide))
  · refine (search_eq_iff reads sampleRegister_falling _ _ _).mpr (.parted fun passed a found => ?_)
    have found_lower : sampleRegister.Meets (.filled 5) 0 passed a :=
      { found with high := fun b mem => Nat.zero_le _ }
    obtain ⟨-, rfl⟩ := found_lower.unique (meets 0 (Nat.zero_le 1))
    exact absurd (found.high _ (List.mem_append_right _ List.mem_cons_self)) (by decide)

end ForkPoint

end ForkChoice
