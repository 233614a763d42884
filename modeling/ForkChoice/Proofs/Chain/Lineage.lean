/-
ForkChoice/Proofs/Chain/Lineage.lean

Lineages: the headers from the genesis up to a stored header.

A header precedes another if it can stand right below it, and a lineage is a
path of stored headers, each preceding the next, that starts at the genesis.
The height of a header is its place in its lineage (`Lineage.number_eq`), a
header has one lineage only (`Lineage.unique`), and two lineages that share a
header agree up to it (`Lineage.take_eq_take`).  So two lineages part at one
header: the highest that both contain (`Lineage.exists_fork`).
-/
import Mathlib.Algebra.GroupWithZero.Nat
import Mathlib.Data.List.Chain
import ForkChoice.Proofs.Store.Answers

namespace ForkChoice

/-! ### Headers above each other -/

/-- The second header can stand right above the first: one height more, linked
to it, and later. -/
structure Header.Precedes (p h : Header) : Prop where
  number : h.number.toNat = p.number.toNat + 1
  link : h.parentHash = p.hash
  later : p.timestamp < h.timestamp

/-- Linked headers go up one by one. -/
theorem Header.number_eq_of_linked {p a : Header} {headers : List Header} {i : Nat}
    (linked : (p :: headers).IsChain Header.Precedes) (at_i : headers[i]? = some a) :
    a.number.toNat = p.number.toNat + 1 + i := by
  induction headers generalizing p i with
  | nil => cases at_i
  | cons b headers ih =>
    obtain ⟨precedes, linked⟩ := List.isChain_cons_cons.mp linked
    rcases i with - | i
    · cases at_i
      rw [precedes.number]
    · rw [ih linked at_i, precedes.number]
      omega

/-- The sum of the difficulties of some headers. -/
def work (headers : List Header) : Nat := (headers.map (·.difficulty.toNat)).sum

@[simp] theorem work_nil : work [] = 0 := rfl

@[simp] theorem work_cons (h : Header) (rest : List Header) :
    work (h :: rest) = h.difficulty.toNat + work rest := rfl

@[simp] theorem work_append (front back : List Header) :
    work (front ++ back) = work front + work back := by
  simp [work]

/-- Adding up stops at the greatest difficulty, whether at each step or once. -/
theorem Difficulty.capped_plus (n : Nat) (d : Difficulty) :
    (capped n).plus d = capped (n + d.toNat) := by
  ext
  simp only [toNat_plus, toNat_capped]
  omega

@[simp] theorem Difficulty.capped_toNat (d : Difficulty) : capped d.toNat = d := by
  have := d.toNat_lt
  ext
  simp only [toNat_capped]
  omega

/-! ### Lineages -/

namespace Store

/-- The store has the header, under its hash. -/
def Has (s : Store) (h : Header) : Prop := (s.item? h.hash).map (·.header) = some h

theorem has_iff {s : Store} {h : Header} :
    s.Has h ↔ ∃ total, s.item? h.hash = some ⟨h, total⟩ := by
  constructor
  · intro has
    obtain ⟨⟨_, total⟩, found, rfl⟩ := Option.map_eq_some_iff.mp has
    exact ⟨total, found⟩
  · rintro ⟨total, found⟩
    exact congrArg (Option.map (·.header)) found

/-- A store has one header under a hash. -/
theorem Has.unique {s : Store} {a b : Header} (ha : s.Has a) (hb : s.Has b)
    (same : a.hash = b.hash) : a = b := by
  obtain ⟨_, found⟩ := has_iff.mp ha
  obtain ⟨_, found'⟩ := has_iff.mp hb
  rw [same, found'] at found
  exact (congrArg Frozen.header (Option.some.inj found)).symm

/-- A header stays where the answer under its hash does. -/
theorem Has.congr {s s' : Store} {h : Header} (has : s.Has h)
    (same : s'.item? h.hash = s.item? h.hash) : s'.Has h := by
  obtain ⟨total, found⟩ := has_iff.mp has
  exact has_iff.mpr ⟨total, same.trans found⟩

theorem not_has_of_unknown {s : Store} {h : Header} (unknown : s.item? h.hash = none) :
    ¬ s.Has h := by
  intro has
  obtain ⟨_, found⟩ := has_iff.mp has
  rw [unknown] at found
  cases found

/-- A path of stored headers from the genesis up to a header. -/
inductive Lineage (s : Store) (genesis : Header) : List Header → Header → Prop
  | root : genesis.number = 0 → s.Has genesis → Lineage s genesis [genesis] genesis
  | step {path : List Header} {p h : Header} :
      Lineage s genesis path p → p.Precedes h → s.Has h → Lineage s genesis (path ++ [h]) h

namespace Lineage

variable {s s' : Store} {genesis h h' a : Header} {path path' : List Header}

theorem has (l : s.Lineage genesis path h) : s.Has h := by
  cases l with
  | root _ has => exact has
  | step _ _ has => exact has

theorem mono (keeps : ∀ a, s.Has a → s'.Has a) (l : s.Lineage genesis path h) :
    s'.Lineage genesis path h := by
  induction l with
  | root number has => exact .root number (keeps _ has)
  | step _ precedes has ih => exact ih.step precedes (keeps _ has)

/-- A lineage ends with its header. -/
theorem eq_append (l : s.Lineage genesis path h) : ∃ below, path = below ++ [h] := by
  cases l with
  | root => exact ⟨[], rfl⟩
  | step => exact ⟨_, rfl⟩

theorem mem (l : s.Lineage genesis path h) : h ∈ path := by
  obtain ⟨below, rfl⟩ := l.eq_append
  exact List.mem_append_right _ List.mem_cons_self

theorem genesis_mem (l : s.Lineage genesis path h) : genesis ∈ path := by
  induction l with
  | root => exact List.mem_cons_self
  | step _ _ _ ih => exact List.mem_append_left _ ih

theorem isChain (l : s.Lineage genesis path h) : path.IsChain Header.Precedes := by
  induction l with
  | root => exact List.isChain_singleton _
  | @step path p h l precedes _ ih =>
    refine List.isChain_append.mpr ⟨ih, List.isChain_singleton h, fun a last b only => ?_⟩
    obtain ⟨below, rfl⟩ := l.eq_append
    rw [List.getLast?_concat] at last
    obtain ⟨⟩ := last
    obtain ⟨⟩ := only
    exact precedes

/-! ### Heights -/

theorem length_eq (l : s.Lineage genesis path h) : path.length = h.number.toNat + 1 := by
  induction l with
  | root number => rw [number]; rfl
  | step _ precedes _ ih => rw [List.length_append, ih, precedes.number]; rfl

/-- Every header of a lineage stands at its own height. -/
theorem number_eq (l : s.Lineage genesis path h) {i : Nat} (at_i : path[i]? = some a) :
    a.number.toNat = i := by
  induction l with
  | root number =>
    obtain ⟨bound, rfl⟩ := List.getElem?_eq_some_iff.mp at_i
    have : i = 0 := by simpa using bound
    subst this
    simp [number]
  | @step path p h l precedes _ ih =>
    rcases Nat.lt_or_ge i path.length with below | above
    · rw [List.getElem?_append_left below] at at_i
      exact ih at_i
    · -- the last header is one higher than its parent, as the path is one longer
      rw [List.getElem?_append_right above] at at_i
      obtain ⟨bound, rfl⟩ := List.getElem?_eq_some_iff.mp at_i
      have i_eq : i = path.length := by
        rw [List.length_singleton] at bound
        omega
      subst i_eq
      simp only [Nat.sub_self, List.getElem_cons_zero]
      rw [precedes.number, l.length_eq]

theorem getElem?_of_mem (l : s.Lineage genesis path h) (mem : a ∈ path) :
    path[a.number.toNat]? = some a := by
  obtain ⟨i, at_i⟩ := List.getElem?_of_mem mem
  rw [l.number_eq at_i]
  exact at_i

theorem genesis_number (l : s.Lineage genesis path h) : genesis.number = 0 := by
  induction l with
  | root number => exact number
  | step _ _ _ ih => exact ih

theorem getElem?_zero (l : s.Lineage genesis path h) : path[0]? = some genesis := by
  have first := l.getElem?_of_mem l.genesis_mem
  rwa [l.genesis_number] at first

theorem number_le (l : s.Lineage genesis path h) (mem : a ∈ path) :
    a.number.toNat ≤ h.number.toNat := by
  have bound := (List.getElem?_eq_some_iff.mp (l.getElem?_of_mem mem)).1
  rw [l.length_eq] at bound
  omega

theorem later (l : s.Lineage genesis path h) (mem : a ∈ path) (below : a.number < h.number) :
    a.timestamp < h.timestamp := by
  induction l with
  | root =>
    rw [List.mem_singleton.mp mem] at below
    exact absurd below (UInt64.lt_irrefl _)
  | @step path p h l precedes _ ih =>
    rcases List.mem_append.mp mem with mem | last
    · rcases Nat.lt_or_ge a.number.toNat p.number.toNat with lower | equal
      · exact UInt64.lt_trans (ih mem lower) precedes.later
      · -- at the height of `p` the path has `p` only
        have same : a.number.toNat = p.number.toNat := by
          have := l.number_le mem
          omega
        have at_a := l.getElem?_of_mem mem
        rw [same, l.getElem?_of_mem l.mem] at at_a
        rw [← Option.some.inj at_a]
        exact precedes.later
    · rw [List.mem_singleton.mp last] at below
      exact absurd below (UInt64.lt_irrefl _)

/-! ### One header, one lineage -/

/-- What lies below a header of a lineage is the lineage of that header. -/
theorem take (l : s.Lineage genesis path h) (mem : a ∈ path) :
    s.Lineage genesis (path.take (a.number.toNat + 1)) a := by
  induction l with
  | root number has =>
    rw [List.mem_singleton.mp mem, List.take_of_length_le (by simp)]
    exact .root number has
  | @step path p h l precedes has ih =>
    rcases List.mem_append.mp mem with mem | last
    · have := l.number_le mem
      rw [List.take_append_of_le_length (by rw [l.length_eq]; omega)]
      exact ih mem
    · have length := (l.step precedes has).length_eq
      rw [List.mem_singleton.mp last, List.take_of_length_le (by omega)]
      exact l.step precedes has

theorem has_of_mem (l : s.Lineage genesis path h) (mem : a ∈ path) : s.Has a :=
  (l.take mem).has

theorem unique (l : s.Lineage genesis path h) (l' : s.Lineage genesis path' h) : path = path' := by
  induction l generalizing path' with
  | root number =>
    cases l' with
    | root => rfl
    | step _ precedes =>
      have := precedes.number
      rw [number] at this
      exact absurd this (Nat.succ_ne_zero _).symm
  | @step path p h l precedes _ ih =>
    cases l' with
    | root number =>
      have := precedes.number
      rw [number] at this
      exact absurd this (Nat.succ_ne_zero _).symm
    | @step path' p' _ l' precedes' _ =>
      -- both parents are stored under the parent hash of the header
      have same : p' = p := l'.has.unique l.has (precedes'.link.symm.trans precedes.link)
      subst same
      rw [ih l']

/-- Two lineages with a common header agree up to it. -/
theorem take_eq_take (l : s.Lineage genesis path h) (l' : s.Lineage genesis path' h')
    (mem : a ∈ path) (mem' : a ∈ path') :
    path.take (a.number.toNat + 1) = path'.take (a.number.toNat + 1) :=
  (l.take mem).unique (l'.take mem')

end Lineage

end Store

/-! ### Where two paths part -/

/-- The highest header that two paths share. -/
structure ForksAt (path path' : List Header) (a : Header) : Prop where
  mem : a ∈ path
  mem' : a ∈ path'
  highest : ∀ b ∈ path, b ∈ path' → b.number ≤ a.number

namespace Store.Lineage

variable {s : Store} {genesis h h' a : Header} {path path' : List Header}

/-- Two lineages part at a header: the first goes on with headers that the
second does not have. -/
theorem exists_fork (l : s.Lineage genesis path h) (l' : s.Lineage genesis path' h') :
    ∃ trunk a branch, path = trunk ++ a :: branch ∧ a ∈ path' ∧ ∀ b ∈ branch, b ∉ path' := by
  -- from the genesis, which both have, go up as far as the other path does
  induction l with
  | root => exact ⟨[], genesis, [], rfl, l'.genesis_mem, fun b mem => by cases mem⟩
  | @step path p h l _ _ ih =>
    by_cases shared : h ∈ path'
    · exact ⟨path, h, [], rfl, shared, fun b mem => by cases mem⟩
    · obtain ⟨trunk, a, branch, rfl, mem, apart⟩ := ih
      refine ⟨trunk, a, branch ++ [h], by simp, mem, fun b hb => ?_⟩
      rcases List.mem_append.mp hb with hb | hb
      · exact apart b hb
      · rw [List.mem_singleton.mp hb]
        exact shared

/-- The header at which two lineages part is the highest that they share. -/
theorem forksAt {trunk branch : List Header} (l : s.Lineage genesis (trunk ++ a :: branch) h)
    (mem : a ∈ path') (apart : ∀ b ∈ branch, b ∉ path') :
    ForksAt (trunk ++ a :: branch) path' a where
  mem := by simp
  mem' := mem
  highest b hb hb' := by
    rcases List.mem_append.mp hb with below | above
    · -- on a path, what comes earlier is lower
      obtain ⟨i, at_i⟩ := List.getElem?_of_mem below
      have bound := (List.getElem?_eq_some_iff.mp at_i).1
      have number := l.number_eq (i := i) (by rw [List.getElem?_append_left bound, at_i])
      have number' := l.number_eq (a := a) (i := trunk.length) (by simp)
      rw [UInt64.le_iff_toNat_le]
      omega
    · rcases List.mem_cons.mp above with rfl | above
      · exact UInt64.le_refl _
      · exact absurd hb' (apart b above)

/-- Of the headers that two lineages share only one is the highest. -/
theorem forksAt_unique {b : Header} (l : s.Lineage genesis path h) (ha : ForksAt path path' a)
    (hb : ForksAt path path' b) : a = b := by
  have same : a.number = b.number :=
    UInt64.le_antisymm (hb.highest a ha.mem ha.mem') (ha.highest b hb.mem hb.mem')
  have at_a := l.getElem?_of_mem ha.mem
  rw [same, l.getElem?_of_mem hb.mem] at at_a
  exact (Option.some.inj at_a).symm

end Store.Lineage

/-! ### Growing upwards -/

/-- Headers on top of a path of the given work, each with the total difficulty
up to it. -/
def ascent : (below : Nat) → List Header → List (Header × Difficulty)
  | _, [] => []
  | below, h :: rest =>
    (h, .capped (below + h.difficulty.toNat)) :: ascent (below + h.difficulty.toNat) rest

theorem ascent_append (below : Nat) (front back : List Header) :
    ascent below (front ++ back) = ascent below front ++ ascent (below + work front) back := by
  induction front generalizing below with
  | nil => rfl
  | cons h front ih =>
    show _ :: ascent _ (front ++ back) = _ :: (_ ++ _)
    rw [ih, work_cons, Nat.add_assoc]

theorem getElem?_ascent (below : Nat) (headers : List Header) (i : Nat) :
    (ascent below headers)[i]?
      = headers[i]?.map fun h => (h, .capped (below + work (headers.take (i + 1)))) := by
  induction headers generalizing below i with
  | nil => rfl
  | cons h headers ih =>
    rcases i with - | i
    · simp [ascent]
    · show (ascent _ headers)[i]? = headers[i]?.map _
      rw [ih]
      simp [Nat.add_assoc]

theorem map_fst_ascent (below : Nat) (headers : List Header) :
    (ascent below headers).map (·.1) = headers := by
  induction headers generalizing below with
  | nil => rfl
  | cons h headers ih => rw [ascent, List.map_cons, ih]

theorem fst_mem_of_mem_ascent {below : Nat} {headers : List Header} {r : Header × Difficulty}
    (mem : r ∈ ascent below headers) : r.1 ∈ headers := by
  rw [← map_fst_ascent below headers]
  exact List.mem_map_of_mem mem

theorem length_ascent (below : Nat) (headers : List Header) :
    (ascent below headers).length = headers.length := by
  rw [← List.length_map (·.1), map_fst_ascent]

namespace Store.Lineage

variable {s : Store} {genesis h : Header} {path headers : List Header}

/-- Stored headers, each above the one before it, continue a lineage. -/
theorem append (l : s.Lineage genesis path h) (linked : (h :: headers).IsChain Header.Precedes)
    (has : ∀ a ∈ headers, s.Has a) :
    s.Lineage genesis (path ++ headers) (headers.getLastD h) := by
  induction headers generalizing path h with
  | nil => simpa using l
  | cons a headers ih =>
    obtain ⟨precedes, linked⟩ := List.isChain_cons_cons.mp linked
    have grown := ih (l.step precedes (has a List.mem_cons_self)) linked
      fun b mem => has b (List.mem_cons_of_mem _ mem)
    rw [List.append_assoc, List.singleton_append] at grown
    rwa [List.getLastD_cons]

end Store.Lineage

end ForkChoice
