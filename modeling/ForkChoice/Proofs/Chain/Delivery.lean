/-
ForkChoice/Proofs/Chain/Delivery.lean

A segment does the same whole and in pieces.

`Pieces` cuts a segment into consecutive pieces, each of which may begin with a
run of the headers sent just before it, and `Chain.deliver` inserts pieces one
after another up to the first that fails.  What a delivery comes to does not
depend on the cut: it is decided by the first header of the segment that makes
its path heavier than the head's (`Grown.deliver_lighter`,
`Grown.deliver_first`, `Grown.deliver_ahead`).  The segment itself is a cut into
one piece, so inserting it whole and delivering it in pieces agree
(`insert_agrees_deliver`).
-/
import ForkChoice.Proofs.Chain.Growth

namespace ForkChoice

/-! ### Cuts and deliveries -/

/-- The headers that come after those `sent`, cut into pieces.  A piece repeats
none or some of the last headers sent and goes on with at least one new one. -/
inductive Pieces : (sent coming : List Header) → List (List Header) → Prop
  | done {sent : List Header} : Pieces sent [] []
  | piece {sent again new rest : List Header} {pieces : List (List Header)} :
      again <:+ sent → new ≠ [] → Pieces (sent ++ new) rest pieces →
      Pieces sent (new ++ rest) ((again ++ new) :: pieces)

namespace Chain

/-- Insert pieces one after another, up to the first that fails.  The failure
comes with the place of that piece. -/
def deliver (c : Chain) :
    (place : Nat) → List (List Header) → Outcome (Nat × SegmentError) Unit × Chain
  | _, [] => (.ok (), c)
  | place, piece :: pieces =>
    match c.insert piece with
    | (.ok _, c) => c.deliver (place + 1) pieces
    | (.error e, c) => (.error (place, e), c)
    | (.fault w, c) => (.fault w, c)

variable {pool offered : List Header} {c c' : Chain} {parent a t : Header}
  {trunk branch spine path segment sent rest front back : List Header} {pieces : List (List Header)}

theorem deliver_of_ok {piece : List Header} {receipt : Receipt} {place : Nat}
    (inserted : c.insert piece = (.ok receipt, c')) :
    c.deliver place (piece :: pieces) = c'.deliver (place + 1) pieces := by
  rw [deliver, inserted]

theorem deliver_of_error {piece : List Header} {e : SegmentError} {place : Nat}
    (inserted : c.insert piece = (.error e, c')) :
    c.deliver place (piece :: pieces) = (.error (place, e), c') := by
  rw [deliver, inserted]

/-- Where a list that goes on after `new` has an element: later, or in `new`. -/
theorem append_eq_append_cons {new coming : List Header}
    (h : new ++ rest = coming ++ t :: back) :
    (∃ later, coming = new ++ later ∧ rest = later ++ t :: back) ∨
      ∃ back', new = coming ++ t :: back' := by
  rcases List.append_eq_append_iff.mp h with later | ⟨kept, new_eq, back_eq⟩
  · exact .inl later
  · rcases kept with - | ⟨t', kept⟩
    · rw [List.append_nil] at new_eq
      exact .inl ⟨[], by rw [new_eq, List.append_nil], back_eq.symm⟩
    · obtain ⟨⟩ := back_eq
      exact .inr ⟨kept, new_eq⟩

/-! ### Deliveries of a stream -/

namespace Grown

variable (stream : Stream pool c parent trunk a branch spine segment)
  (sound : c.Sound pool) (free : CollisionFree pool) (answers : c.store.tier.service.AnswersReads)
include stream sound free answers

/-- Once the front is not lighter any more, all further pieces are accepted. -/
theorem deliver_ahead (bounded : c.Bounded) (cut : Pieces sent rest pieces) (place : Nat)
    (grown : Grown pool c parent (trunk ++ a :: branch) spine sent c')
    (split : segment = sent ++ rest) (heavy : ¬ Lighter (work (trunk ++ a :: branch)) spine sent) :
    ∃ c'', c'.deliver place pieces = (.ok (), c'') ∧
      Grown pool c parent (trunk ++ a :: branch) spine segment c'' := by
  induction cut generalizing c' place with
  | done =>
    rw [List.append_nil] at split
    exact ⟨c', rfl, split ▸ grown⟩
  | @piece sent again new rest pieces overlap some_new cut ih =>
    obtain ⟨first, more, rfl⟩ := List.exists_cons_of_ne_nil some_new
    obtain ⟨receipt, c₁, inserted, grown₁⟩ :=
      grown.insert_ahead stream sound free answers split overlap bounded heavy
    rw [deliver_of_ok inserted]
    exact ih (place + 1) grown₁ (by rw [split, List.append_assoc])
      fun light => heavy (lighter_append.mp light).1

/-- If the whole segment is lighter, all pieces are accepted. -/
theorem deliver_lighter (high : c.store.tier.items.length - 1 ≤ a.number.toNat)
    (light : Lighter (work (trunk ++ a :: branch)) spine segment)
    (cut : Pieces sent rest pieces) (place : Nat)
    (grown : Grown pool c parent (trunk ++ a :: branch) spine sent c')
    (split : segment = sent ++ rest) :
    ∃ c'', c'.deliver place pieces = (.ok (), c'') ∧
      Grown pool c parent (trunk ++ a :: branch) spine segment c'' := by
  -- a front of a lighter segment is lighter, so each piece goes the same way
  induction cut generalizing c' place with
  | done =>
    rw [List.append_nil] at split
    exact ⟨c', rfl, split ▸ grown⟩
  | @piece sent again new rest pieces overlap some_new cut ih =>
    obtain ⟨first, more, rfl⟩ := List.exists_cons_of_ne_nil some_new
    have light_front : Lighter (work (trunk ++ a :: branch)) spine (sent ++ first :: more) := by
      rw [split, ← List.append_assoc] at light
      exact (lighter_append.mp light).1
    obtain ⟨receipt, c₁, inserted, grown₁⟩ :=
      grown.insert_lighter stream sound free answers split overlap high light_front
    rw [deliver_of_ok inserted]
    exact ih (place + 1) grown₁ (by rw [split, List.append_assoc])

/-- The first header `t` that is not lighter decides.  If the gate does not object
to it all pieces are accepted; if it does, the piece that holds it is refused at
it, and the head is as before. -/
theorem deliver_first (bounded : c.Bounded) (high : c.store.tier.items.length - 1 ≤ a.number.toNat)
    (light : Lighter (work (trunk ++ a :: branch)) spine front)
    (heavy : Difficulty.capped (work spine)
      < .capped (work (trunk ++ a :: branch ++ (front ++ [t]))))
    (cut : Pieces sent rest pieces) (place : Nat) {coming : List Header}
    (grown : Grown pool c parent (trunk ++ a :: branch) spine sent c')
    (split : segment = sent ++ rest) (arrives : rest = coming ++ t :: back)
    (front_eq : front = sent ++ coming) :
    match c.objection trunk a spine t (.capped (work (trunk ++ a :: branch ++ (front ++ [t])))) with
    | none => ∃ c'', c'.deliver place pieces = (.ok (), c'') ∧
        Grown pool c parent (trunk ++ a :: branch) spine segment c''
    | some r => ∃ k j piece front' c'', pieces[k]? = some piece ∧ piece[j]? = some t ∧
        c'.deliver place pieces = (.error (place + k, ⟨j, .rejected r⟩), c'') ∧
        Lighter (work (trunk ++ a :: branch)) spine front' ∧
        (∃ back', segment = front' ++ back') ∧
        Grown pool c parent (trunk ++ a :: branch) spine front' c'' := by
  induction cut generalizing c' place coming with
  | done =>
    have := congrArg List.length arrives
    simp at this
  | @piece sent again new rest pieces overlap some_new cut ih =>
    obtain ⟨first, more, rfl⟩ := List.exists_cons_of_ne_nil some_new
    rcases append_eq_append_cons arrives with ⟨later, rfl, rest_eq⟩ | ⟨back', new_eq⟩
    · -- the header comes after this piece
      have light_front : Lighter (work (trunk ++ a :: branch)) spine (sent ++ first :: more) := by
        rw [front_eq, ← List.append_assoc] at light
        exact (lighter_append.mp light).1
      obtain ⟨receipt, c₁, inserted, grown₁⟩ :=
        grown.insert_lighter stream sound free answers split overlap high light_front
      have tail := ih (place + 1) grown₁ (by rw [split, List.append_assoc]) rest_eq
        (by rw [front_eq, List.append_assoc])
      rw [deliver_of_ok inserted]
      -- the place of a failure is counted from the next piece on
      rcases objects : c.objection trunk a spine t _ with - | r
      · rw [objects] at tail
        exact tail
      · rw [objects] at tail
        obtain ⟨k, j, piece, front', c'', at_k, at_j, result, rest⟩ := tail
        refine ⟨k + 1, j, piece, front', c'', at_k, at_j, ?_, rest⟩
        rw [result, Nat.add_assoc, Nat.add_comm 1]
    · -- this piece holds the header
      subst front_eq
      rcases objects : c.objection trunk a spine t _ with - | r
      · obtain ⟨receipt, c₁, inserted, grown₁⟩ :=
          grown.insert_takeover stream sound free answers split overlap high new_eq light heavy
            objects
        have taken : ¬ Lighter (work (trunk ++ a :: branch)) spine (sent ++ first :: more) := by
          rw [new_eq, ← List.append_assoc]
          exact not_lighter heavy
        rw [deliver_of_ok inserted]
        exact deliver_ahead stream sound free answers bounded cut (place + 1) grown₁
          (by rw [split, List.append_assoc]) taken
      · obtain ⟨c'', inserted, grown'⟩ :=
          grown.insert_rejected stream sound free answers split overlap high new_eq light heavy
            objects
        rw [deliver_of_error inserted]
        -- of the piece nothing is stored, so the front is still that of the pieces before
        refine ⟨0, _, _, sent, c'', rfl, ?_, rfl, (lighter_append.mp light).1, ⟨_, split⟩, grown'⟩
        rw [new_eq, List.getElem?_append_right (by omega)]
        simp

end Grown

/-! ### A piece by itself -/

/-- The insertion fails because the fork leaves too low or is not known. -/
def UnknownAncestor (result : Outcome SegmentError Receipt) : Prop :=
  ∃ index hash height, result = .error ⟨index, .unknownAncestor hash height⟩

namespace Stream

variable {new : List Header} (stream : Stream pool c parent trunk a branch spine segment)
  (sound : c.Sound pool) (free : CollisionFree pool) (answers : c.store.tier.service.AnswersReads)
  (split : segment = new ++ rest) (some_new : new ≠ [])
include stream sound free answers split some_new

/-- A fork that leaves too low is refused with the first piece already. -/
theorem insert_low (low : ¬ c.store.tier.items.length - 1 ≤ a.number.toNat) :
    ∃ index hash height c'', c.insert new = (.error ⟨index, .unknownAncestor hash height⟩, c'') := by
  obtain ⟨first, more, rfl⟩ := List.exists_cons_of_ne_nil some_new
  have prepared := (stream.grown_nil sound).prepared stream sound free split (List.nil_suffix)
  have prepare := (answer_prepare_iff sound.rooted.sound answers).mpr ⟨[], rfl, prepared⟩
  have assessed := stream.fork.answer_assessment (x := ⟨0, parent, first, more⟩) sound.rooted answers
    prepare
  rw [if_neg low] at assessed
  exact ⟨_, _, _, _, insert_of_error assessed⟩

/-- Otherwise it is accepted, or refused by the gate. -/
theorem insert_high (high : c.store.tier.items.length - 1 ≤ a.number.toNat) :
    (∃ receipt c'', c.insert new = (.ok receipt, c'')) ∨
      ∃ index r c'', c.insert new = (.error ⟨index, .rejected r⟩, c'') := by
  obtain ⟨first, more, rfl⟩ := List.exists_cons_of_ne_nil some_new
  have grown := stream.grown_nil sound
  rcases lighter_or_first (trunk ++ a :: branch) spine (first :: more) with
    light | ⟨front, t, back, cut, light, heavy⟩
  · obtain ⟨receipt, c'', inserted, -⟩ :=
      grown.insert_lighter stream sound free answers split (List.nil_suffix) high light
    exact .inl ⟨receipt, c'', inserted⟩
  · rcases objects : c.objection trunk a spine t
      (.capped (work (trunk ++ a :: branch ++ (front ++ [t])))) with - | r
    · obtain ⟨receipt, c'', inserted, -⟩ :=
        grown.insert_takeover stream sound free answers split (List.nil_suffix) high cut light heavy
          objects
      exact .inl ⟨receipt, c'', inserted⟩
    · obtain ⟨c'', inserted, -⟩ :=
        grown.insert_rejected stream sound free answers split (List.nil_suffix) high cut light heavy
          objects
      exact .inr ⟨_, r, c'', inserted⟩

end Stream

/-! ### Heads and contents -/

/-- Two chains have the same heads and the same canonical index. -/
structure SameHead (c c' : Chain) : Prop where
  headBlock : c'.headBlock = c.headBlock
  headHeader : c'.headHeader = c.headHeader
  storedBlock : c'.store.rows.headBlock? = c.store.rows.headBlock?
  storedHeader : c'.store.rows.headHeader? = c.store.rows.headHeader?
  canonical : ∀ number, c'.store.answer (c'.store.source.canonical? number)
    = c.store.answer (c.store.source.canonical? number)

/-- While the front is lighter, heads and index are those of before. -/
theorem Grown.sameHead (grown : Grown pool c parent (trunk ++ a :: branch) spine sent c')
    (stream : Stream pool c parent trunk a branch spine segment) (sound : c.Sound pool)
    (answers : c.store.tier.service.AnswersReads) (split : segment = sent ++ rest)
    (light : Lighter (work (trunk ++ a :: branch)) spine sent) : c.SameHead c' := by
  have fork := grown.fork_behind stream light split
  have answers' : c'.store.tier.service.AnswersReads := grown.tier ▸ answers
  have head := grown.behind light
  refine ⟨head, ?_, ?_, ?_, fun number => ?_⟩
  · rw [grown.sound.headHeader, sound.headHeader, head]
  · rw [grown.sound.headBlock?, sound.headBlock?, head]
  · rw [grown.sound.headHeader?, sound.headHeader?, head]
  · rw [grown.sound.rooted.sound.answer_canonical answers', fork.canonical,
      sound.rooted.sound.answer_canonical answers, stream.fork.canonical]

/-- The head once a front of a stream has arrived. -/
theorem Grown.headBlock_eq {c₁ c₂ : Chain} (grown₁ : Grown pool c parent path spine sent c₁)
    (grown₂ : Grown pool c parent path spine sent c₂) : c₂.headBlock = c₁.headBlock := by
  by_cases light : Lighter (work path) spine sent
  · rw [grown₁.behind light, grown₂.behind light]
  · rw [grown₁.ahead light, grown₂.ahead light]

/-- However the headers arrived, the chains read the same. -/
theorem Grown.sameReads {c₁ c₂ : Chain} (grown₁ : Grown pool c parent path spine sent c₁)
    (grown₂ : Grown pool c parent path spine sent c₂) (answers : c.store.tier.service.AnswersReads) :
    c₁.store.SameReads c₂.store := by
  have same := grown₁.sound.sameContents grown₂.sound (grown₂.genesis.trans grown₁.genesis.symm)
    (fun hash => (grown₂.item hash).trans (grown₁.item hash).symm) (grown₁.headBlock_eq grown₂)
  exact same.sameReads grown₁.sound.rooted.sound grown₂.sound.rooted.sound (grown₁.tier ▸ answers)
    (grown₂.tier ▸ answers)

/-! ### Whole and in pieces -/

/-- Inserting a segment whole and delivering it in pieces come to the same. -/
structure Agreement (c : Chain) (segment first : List Header) (pieces : List (List Header)) :
    Prop where
  /-- The fork leaves too low for the segment if and only if it does for the first piece. -/
  unknown : UnknownAncestor (c.insert segment).1 ↔ UnknownAncestor (c.insert first).1
  /-- The gate refuses the segment at a header if and only if it refuses, with the same
  rejection, the piece that holds the header, at that header. -/
  rejected : ∀ i r, (c.insert segment).1 = .error ⟨i, .rejected r⟩ ↔
    ∃ k j piece, (c.deliver 0 pieces).1 = .error (k, ⟨j, .rejected r⟩) ∧
      pieces[k]? = some piece ∧ i < segment.length ∧ piece[j]? = segment[i]?
  /-- Then heads and index stay as they were. -/
  unchanged : ∀ i r, (c.insert segment).1 = .error ⟨i, .rejected r⟩ →
    c.SameHead (c.insert segment).2 ∧ c.SameHead (c.deliver 0 pieces).2
  /-- Otherwise all is accepted, and the two chains read the same. -/
  accepted : ¬ UnknownAncestor (c.insert segment).1 →
    (∀ i r, (c.insert segment).1 ≠ .error ⟨i, .rejected r⟩) →
    (∃ receipt, (c.insert segment).1 = .ok receipt) ∧ (c.deliver 0 pieces).1 = .ok () ∧
      (c.insert segment).2.store.SameReads (c.deliver 0 pieces).2.store ∧
      (c.deliver 0 pieces).2.headBlock = (c.insert segment).2.headBlock ∧
      (c.deliver 0 pieces).2.headHeader = (c.insert segment).2.headHeader

variable {first : List Header} {others : List (List Header)}

/-- Two runs that took in the whole segment agree. -/
theorem agreement_of_accepted {receipt : Receipt} {c₁ c₂ : Chain}
    (answers : c.store.tier.service.AnswersReads)
    (whole : c.insert segment = (.ok receipt, c₁))
    (delivered : c.deliver 0 (first :: others) = (.ok (), c₂))
    (known : ¬ UnknownAncestor (c.insert first).1)
    (grown₁ : Grown pool c parent (trunk ++ a :: branch) spine segment c₁)
    (grown₂ : Grown pool c parent (trunk ++ a :: branch) spine segment c₂) :
    Agreement c segment first (first :: others) := by
  constructor
  · rw [whole]
    refine iff_of_false ?_ known
    rintro ⟨_, _, _, e⟩
    cases e
  · intro i r
    rw [whole, delivered]
    apply iff_of_false nofun
    rintro ⟨_, _, _, e, -⟩
    cases e
  · intro i r e
    rw [whole] at e
    cases e
  · intro _ _
    rw [whole, delivered]
    have head := grown₁.headBlock_eq grown₂
    exact ⟨⟨receipt, rfl⟩, rfl, grown₁.sameReads grown₂ answers, head, by
      rw [grown₁.sound.headHeader, grown₂.sound.headHeader, head]⟩

/-- Two runs that were refused at the same header agree. -/
theorem agreement_of_rejected {c₁ c₂ : Chain} {r : Rejection} {k j : Nat} {piece : List Header}
    (linked : (parent :: segment).IsChain Header.Precedes) (cut : segment = front ++ t :: back)
    (whole : c.insert segment = (.error ⟨front.length, .rejected r⟩, c₁))
    (delivered : c.deliver 0 (first :: others) = (.error (k, ⟨j, .rejected r⟩), c₂))
    (at_k : (first :: others)[k]? = some piece) (at_j : piece[j]? = some t)
    (known : ¬ UnknownAncestor (c.insert first).1) (same₁ : c.SameHead c₁) (same₂ : c.SameHead c₂) :
    Agreement c segment first (first :: others) := by
  have at_t : segment[front.length]? = some t := by simp [cut]
  constructor
  · rw [whole]
    refine iff_of_false ?_ known
    rintro ⟨_, _, _, e⟩
    cases e
  · intro i r'
    rw [whole, delivered]
    constructor
    · rintro ⟨⟩
      exact ⟨k, j, piece, rfl, at_k, by simp [cut], at_j.trans at_t.symm⟩
    · rintro ⟨k', j', piece', e, at_k', bound, at_i⟩
      cases e
      rw [at_k] at at_k'
      cases at_k'
      -- headers of a segment stand at different heights, so the place is this one
      rw [at_j] at at_i
      have here := Header.number_eq_of_linked linked at_t
      have there := Header.number_eq_of_linked linked at_i.symm
      have same : i = front.length := by omega
      rw [same]
  · intro _ _ _
    rw [whole, delivered]
    exact ⟨same₁, same₂⟩
  · intro _ passes
    rw [whole] at passes
    exact absurd rfl (passes _ _)

/-- Two runs that were refused for the fork point agree. -/
theorem agreement_of_unknown {c₁ c₂ : Chain} {i j k n n' : Nat} {hash hash' : Hash}
    (whole : c.insert segment = (.error ⟨i, .unknownAncestor hash n⟩, c₁))
    (delivered : c.deliver 0 (first :: others) = (.error (k, ⟨j, .unknownAncestor hash' n'⟩), c₂))
    (unknown : UnknownAncestor (c.insert first).1) :
    Agreement c segment first (first :: others) := by
  constructor
  · rw [whole]
    exact iff_of_true ⟨i, hash, n, rfl⟩ unknown
  · intro i' r
    rw [whole, delivered]
    apply iff_of_false nofun
    rintro ⟨_, _, _, e, -⟩
    cases e
  · intro i' r e
    rw [whole] at e
    cases e
  · intro known
    rw [whole] at known
    exact absurd ⟨i, hash, n, rfl⟩ known

/-- A stream and its segment agree. -/
theorem Stream.agreement (stream : Stream pool c parent trunk a branch spine segment)
    (sound : c.Sound pool) (free : CollisionFree pool) (answers : c.store.tier.service.AnswersReads)
    (bounded : c.Bounded) (cut : Pieces [] segment (first :: others)) :
    Agreement c segment first (first :: others) := by
  have grown := stream.grown_nil sound
  -- the first piece repeats nothing, so it is a front of the segment
  obtain ⟨rest, split, some_new⟩ : ∃ rest, segment = first ++ rest ∧ first ≠ [] := by
    cases cut with
    | @piece _ again new rest _ overlap some_new _ =>
      rw [List.suffix_nil.mp overlap]
      exact ⟨rest, rfl, some_new⟩
  have nonempty : segment ≠ [] := by simp [split, some_new]
  have all : segment = segment ++ [] := (List.append_nil _).symm
  -- either the fork leaves too low for every piece, or the first heavier header decides
  by_cases high : c.store.tier.items.length - 1 ≤ a.number.toNat
  · have known : ¬ UnknownAncestor (c.insert first).1 := by
      rintro ⟨_, _, _, e⟩
      rcases stream.insert_high sound free answers split some_new high with
        ⟨_, _, inserted⟩ | ⟨_, _, _, inserted⟩ <;> rw [inserted] at e <;> cases e
    obtain ⟨head, more, rfl⟩ := List.exists_cons_of_ne_nil nonempty
    rcases lighter_or_first (trunk ++ a :: branch) spine (head :: more) with
      light | ⟨front, t, back, split', light, heavy⟩
    · -- no header takes over, and the segment is a piece that repeats nothing
      obtain ⟨receipt, c₁, whole, grown₁⟩ :=
        grown.insert_lighter stream sound free answers all List.nil_suffix high light
      obtain ⟨c₂, delivered, grown₂⟩ :=
        Grown.deliver_lighter stream sound free answers high light cut 0 grown rfl
      exact agreement_of_accepted answers whole delivered known grown₁ grown₂
    · have decided := Grown.deliver_first stream sound free answers bounded high light heavy cut 0
        grown rfl split' rfl
      rcases objects : c.objection trunk a spine t
        (.capped (work (trunk ++ a :: branch ++ (front ++ [t])))) with - | r
      · rw [objects] at decided
        obtain ⟨c₂, delivered, grown₂⟩ := decided
        obtain ⟨receipt, c₁, whole, grown₁⟩ :=
          grown.insert_takeover stream sound free answers all List.nil_suffix high split' light heavy
            objects
        exact agreement_of_accepted answers whole delivered known grown₁ grown₂
      · rw [objects] at decided
        obtain ⟨k, j, piece, front', c₂, at_k, at_j, delivered, light', ⟨back', split''⟩, grown₂⟩ :=
          decided
        obtain ⟨c₁, whole, grown₁⟩ :=
          grown.insert_rejected stream sound free answers all List.nil_suffix high split' light heavy
            objects
        rw [Nat.zero_add] at delivered
        rw [List.length_nil, Nat.zero_add] at whole
        exact agreement_of_rejected (stream.linked sound) split' whole delivered at_k at_j known
          (grown₁.sameHead stream sound answers rfl lighter_nil)
          (grown₂.sameHead stream sound answers split'' light')
  · obtain ⟨i, hash, n, c₁, whole⟩ := stream.insert_low sound free answers all nonempty high
    obtain ⟨j, hash', n', c₂, inserted⟩ := stream.insert_low sound free answers split some_new high
    exact agreement_of_unknown whole (deliver_of_error inserted) (by
      rw [inserted]
      exact ⟨j, hash', n', rfl⟩)

/-- **Batch and stream agree.**  In every reached chain whose tier answers, let a
segment of headers that are not stored pass its check and obey the rule on top of
a stored parent, with a total difficulty in range, and let no curve in force ask
for more than the unbounded ratio.  However the segment is cut into pieces,
inserting it whole and delivering the pieces come to the same. -/
theorem insert_agrees_deliver (reached : Reached offered c)
    (free : CollisionFree (offered ++ segment)) (answers : c.store.tier.service.AnswersReads)
    (bounded : c.Bounded) (checked : Segment.check segment = .ok ())
    (unstored : ∀ h ∈ segment, c.header? h.hash = .ok none)
    (stored : c.header? parent.hash = .ok (some parent))
    (obeys : obey c.rule 0 parent segment = .ok ())
    (small : ∀ path, c.Ancestry parent path → work (path ++ segment) < 2 ^ 128)
    (cut : Pieces [] segment (first :: others)) : Agreement c segment first (first :: others) := by
  have sound : c.Sound (offered ++ segment) :=
    (reached.sound (free.mono fun h mem => List.mem_append_left _ mem)).mono
      fun h mem => List.mem_append_left _ mem
  have has := sound.rooted.has_of_answer answers (header?_eq_ok_iff.mp stored)
  obtain ⟨trunk, a, branch, spine, fork⟩ := sound.exists_fork has
  have fresh (h : Header) (mem : h ∈ segment) : c.store.item? h.hash = none := by
    have found := header?_eq_ok_iff.mp (unstored h mem)
    rw [sound.rooted.sound.answer_header answers] at found
    exact Option.map_eq_none_iff.mp (Outcome.ok.inj found)
  have stream : Stream (offered ++ segment) c parent trunk a branch spine segment :=
    ⟨fork, checked, obey_eq_ok_iff.mp obeys, fresh, fun h mem => List.mem_append_right _ mem,
      small _ (sound.ancestry answers fork.path)⟩
  exact stream.agreement sound free answers bounded cut

/-- A gate in force whose curve stays at 1. -/
def flatGate : Gate := { enabled := true, shape := .exponential, ceiling := 1.0 }

/-- A flat curve asks for 1, or for what is no number, after any time. -/
theorem not_lt_flat (y : Float) : ¬ unboundedRatio < 1.0 + (1.0 - 1.0) * y := by
  have zero : (1.0 - 1.0 : Float) = .ofModel (.pack (.zero .positive)) := by decide +kernel
  -- the exponential is not computed: zero times it is a zero, or not a number
  have product : (1.0 - 1.0) * y = .ofModel (.pack (.zero .positive)) ∨
      (1.0 - 1.0) * y = .ofModel (.pack (.zero .negative)) ∨
      (1.0 - 1.0) * y = .ofModel (.pack .notANumber) := by
    have unpacked : (1.0 - 1.0) * y
        = .ofModel (.pack (.mul .binary64 (.zero .positive) y.toModel.unpack)) := by
      rw [zero]
      rfl
    rw [unpacked]
    rcases y.toModel.unpack with _ | _ | sign | ⟨sign, _, _, _⟩
    · exact .inr (.inr rfl)
    · exact .inr (.inr rfl)
    · cases sign
      · exact .inr (.inl rfl)
      · exact .inl rfl
    · cases sign
      · exact .inr (.inl rfl)
      · exact .inl rfl
  rcases product with e | e | e <;> rw [e] <;> decide +kernel

/-- Behind a flat gate, the child and the grandchild sent together do the same as
the child sent alone and then both. -/
theorem insert_agrees_deliver_sampleGrandchild :
    Agreement (opened (fun _ _ => none) sampleGenesis { gate := flatGate })
      [sampleChild, sampleGrandchild] [sampleChild]
      [[sampleChild], [sampleChild, sampleGrandchild]] := by
  have reached : Reached [sampleGenesis]
      (opened (fun _ _ => none) sampleGenesis { gate := flatGate }) :=
    ⟨_, sampleGenesis, _, _, _, [],
      attach_empty _ rfl rfl (Header.isSealed_sealWith ..) (by decide), rfl, rfl⟩
  have apart : sampleGenesis.hash ≠ sampleGrandchild.hash ∧
      sampleChild.hash ≠ sampleGrandchild.hash := by decide +kernel
  have free : CollisionFree ([sampleGenesis] ++ [sampleChild, sampleGrandchild]) := by
    simp [CollisionFree, sampleGenesis_hash_ne, sampleGenesis_hash_ne.symm, apart, apart.1.symm,
      apart.2.symm]
  have sound := reached.sound (free.mono fun h mem => List.mem_append_left _ mem)
  have answers : (genesisStore (fun _ _ => none) sampleGenesis).tier.service.AnswersReads :=
    fun _ => ⟨rfl, fun _ => rfl⟩
  have obeys : Rule.retarget {} sampleChild sampleGrandchild = .ok () := by decide +kernel
  have l : (genesisStore (fun _ _ => none) sampleGenesis).Lineage sampleGenesis [sampleGenesis]
      sampleGenesis := lineage_genesisStore _ rfl
  refine insert_agrees_deliver reached free answers ?_ ?_ ?_
    (header?_eq_ok_iff.mpr (sound.rooted.answer_header answers l.has)) ?_ ?_ ?_
  · rintro curve ⟨⟩ seconds
    exact not_lt_flat _
  · have follows : sampleChild.follows sampleGrandchild = .ok () :=
      Header.follows_eq_ok_iff.mpr ⟨rfl, rfl⟩
    refine Segment.check_eq_ok_iff.mpr ⟨?_, List.isChain_pair.mpr follows⟩
    simp [sampleChild, sampleGrandchild, Header.isSealed_sealWith]
  · intro h mem
    have other : sampleGenesis.hash ≠ h.hash := by
      rcases List.mem_pair.mp mem with rfl | rfl
      · exact sampleGenesis_hash_ne
      · exact apart.1
    rw [header?_eq_ok_iff]
    apply (sound.rooted.sound.answer_header answers h.hash).trans
    exact congrArg (fun e? : Option Frozen => Outcome.ok (e?.map (·.header)))
      ((item?_genesisStore _ _ _).trans (if_neg other))
  · exact obey_eq_ok_iff.mpr (List.isChain_cons_cons.mpr ⟨retarget_sampleChild,
      List.isChain_pair.mpr obeys⟩)
  · intro path ancestry
    rw [(sound.lineage answers ancestry).unique l]
    decide
  · have second : Pieces [sampleChild] [sampleGrandchild] [[sampleChild, sampleGrandchild]] :=
      .piece (List.suffix_refl [sampleChild]) (List.cons_ne_nil sampleGrandchild []) .done
    exact .piece List.nil_suffix (List.cons_ne_nil sampleChild []) second

end Chain

end ForkChoice
