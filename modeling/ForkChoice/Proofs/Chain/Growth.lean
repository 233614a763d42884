/-
ForkChoice/Proofs/Chain/Growth.lean

How a chain grows by a segment that arrives in pieces.

A `Stream` is a segment on top of a stored header that can be stored as far as
checks and rule go.  `Grown` describes the chain once some front of it has
arrived: the front is stored with the totals of its path, the rest of the chain
is as it was, and the head is the old one as long as the front is `Lighter`
than the head's path, and the last header of the front from then on.

A further piece finds the same fork point and the same standings as it would
within the whole segment as long as the front is lighter
(`Grown.insert_lighter`, `Grown.insert_takeover`); afterwards it extends the
head, and the ratio of an extension is unbounded (`Grown.insert_ahead`).
-/
import ForkChoice.Proofs.Chain.Evaluation

namespace ForkChoice

/-! ### Fronts of a segment -/

/-- What links a run of headers links what comes after a front to the front. -/
theorem isChain_after {R : Header → Header → Prop} {p : Header} {front back : List Header}
    (linked : (p :: (front ++ back)).IsChain R) : (front.getLastD p :: back).IsChain R := by
  induction front generalizing p with
  | nil => exact linked
  | cons h front ih =>
    rw [List.getLastD_cons]
    exact ih linked.tail

theorem getLastD_append (front back : List Header) (p : Header) :
    (front ++ back).getLastD p = back.getLastD (front.getLastD p) := by
  induction front generalizing p with
  | nil => rfl
  | cons h front ih => rw [List.cons_append, List.getLastD_cons, List.getLastD_cons, ih]

/-- Later headers of a linked run differ from the earlier ones. -/
theorem Header.disjoint_of_linked {p h : Header} {front back : List Header}
    (linked : (p :: (front ++ back)).IsChain Header.Precedes) (before : h ∈ front)
    (after : h ∈ back) : False := by
  obtain ⟨i, at_i⟩ := List.getElem?_of_mem before
  obtain ⟨j, at_j⟩ := List.getElem?_of_mem after
  have bound := (List.getElem?_eq_some_iff.mp at_i).1
  have low := Header.number_eq_of_linked (i := i) linked
    (by rw [List.getElem?_append_left bound, at_i])
  have high := Header.number_eq_of_linked (i := front.length + j) linked
    (by rw [List.getElem?_append_right (by omega), Nat.add_sub_cancel_left, at_j])
  omega

theorem Batch.item?_append (front back : List (Header × Difficulty)) (hash : Hash) :
    Batch.item? { headers := front ++ back } hash
      = (Batch.item? { headers := back } hash).or (Batch.item? { headers := front } hash) := by
  unfold Batch.item?
  rw [List.reverse_append, List.find?_append]
  rcases List.find? _ back.reverse with - | r <;> rfl

/-! ### Lighter headers -/

/-- None of the headers, on top of a path of the given work, is heavier than
the path of the head. -/
def Lighter (below : Nat) (spine headers : List Header) : Prop :=
  ∀ r ∈ ascent below headers, ¬ Difficulty.capped (work spine) < r.2

theorem lighter_append {below : Nat} {spine front back : List Header} :
    Lighter below spine (front ++ back) ↔
      Lighter below spine front ∧ Lighter (below + work front) spine back := by
  unfold Lighter
  rw [ascent_append]
  simp only [List.mem_append, or_imp, forall_and]

theorem lighter_nil {below : Nat} {spine : List Header} : Lighter below spine [] :=
  List.forall_mem_nil _

/-- A header that makes its path heavier than the head's ends a lighter front. -/
theorem not_lighter {path spine front back : List Header} {t : Header}
    (heavy : Difficulty.capped (work spine) < .capped (work (path ++ (front ++ [t])))) :
    ¬ Lighter (work path) spine (front ++ t :: back) := by
  intro light
  have total : work (path ++ (front ++ [t])) = work path + work front + t.difficulty.toNat := by
    simp only [work_append, work_cons, work_nil]
    omega
  rw [total] at heavy
  exact (lighter_append.mp light).2 _ List.mem_cons_self heavy

/-- Headers are all lighter than the head, or there is a first that is not. -/
theorem lighter_or_first (below : List Header) (spine headers : List Header) :
    Lighter (work below) spine headers ∨
      ∃ front t back, headers = front ++ t :: back ∧ Lighter (work below) spine front ∧
        Difficulty.capped (work spine) < .capped (work (below ++ (front ++ [t]))) := by
  induction headers using List.reverseRecOn with
  | nil => exact .inl lighter_nil
  | append_singleton headers h ih =>
    rcases ih with light | ⟨front, t, back, rfl, light, heavy⟩
    · by_cases heavy : Difficulty.capped (work spine) < .capped (work (below ++ (headers ++ [h])))
      · exact .inr ⟨headers, h, [], rfl, light, heavy⟩
      · refine .inl (lighter_append.mpr ⟨light, fun r mem => ?_⟩)
        rw [ascent, ascent, List.mem_singleton] at mem
        rw [mem]
        simpa [Nat.add_assoc] using heavy
    · exact .inr ⟨front, t, back ++ [h], by simp, light, heavy⟩

/-- Up to any of some lighter headers the path is no heavier than the head's. -/
theorem Lighter.capped_le {path spine headers : List Header} (light : Lighter (work path) spine headers)
    {i : Nat} (inside : i < headers.length) :
    Difficulty.capped (work (path ++ headers.take (i + 1))) ≤ .capped (work spine) := by
  have at_i : (ascent (work path) headers)[i]?
      = some (headers[i], .capped (work path + work (headers.take (i + 1)))) := by
    rw [getElem?_ascent, List.getElem?_eq_getElem inside]
    rfl
  rw [work_append]
  exact Nat.le_of_not_lt (light _ (List.mem_of_getElem? at_i))

namespace Chain

variable {pool : List Header} {c c' : Chain} {parent a : Header}
  {trunk branch spine segment sent again new rest : List Header}

/-! ### Streams -/

/-- A segment on top of a stored header whose path leaves the head's at `a`; it
passes its check and the rule, none of it is stored, and its total difficulty is
in range. -/
structure Stream (pool : List Header) (c : Chain) (parent : Header) (trunk : List Header)
    (a : Header) (branch spine segment : List Header) : Prop where
  fork : c.Fork parent trunk a branch spine
  checked : Segment.check segment = .ok ()
  obeys : (parent :: segment).IsChain fun p h => c.rule p h = .ok ()
  fresh : ∀ h ∈ segment, c.store.item? h.hash = none
  offered : ∀ h ∈ segment, h ∈ pool
  small : work (trunk ++ a :: branch ++ segment) < 2 ^ 128

/-- The chain after the front `sent` of a stream on top of `path` has arrived. -/
structure Grown (pool : List Header) (c : Chain) (parent : Header)
    (path spine sent : List Header) (c' : Chain) : Prop where
  sound : c'.Sound pool
  genesis : c'.genesis = c.genesis
  rule : c'.rule = c.rule
  gate : c'.gate = c.gate
  tier : c'.store.tier = c.store.tier
  item : ∀ hash, c'.store.item? hash
    = (Batch.item? { headers := ascent (work path) sent } hash).or (c.store.item? hash)
  keeps : ∀ h, c.store.Has h → c'.store.Has h
  above : c'.store.Lineage c'.genesis (path ++ sent) (sent.getLastD parent)
  behind : Lighter (work path) spine sent → c'.headBlock = c.headBlock
  ahead : ¬ Lighter (work path) spine sent → c'.headBlock = sent.getLastD parent

namespace Stream

variable (stream : Stream pool c parent trunk a branch spine segment)
include stream

theorem linked (sound : c.Sound pool) : (parent :: segment).IsChain Header.Precedes :=
  stream.obeys.imp fun _ _ => sound.precedes_of_obeys

theorem positive (sound : c.Sound pool) {h : Header} (mem : h ∈ segment) :
    0 < h.difficulty.toNat :=
  sound.positive_of_obeys stream.obeys mem

/-- The headers of a piece are among those offered. -/
theorem offered_of_piece (split : segment = sent ++ (new ++ rest)) (overlap : again <:+ sent)
    {h : Header} (mem : h ∈ again ++ new) : h ∈ pool := by
  apply stream.offered h
  rw [split]
  rcases List.mem_append.mp mem with old | new
  · exact List.mem_append_left _ (overlap.subset old)
  · exact List.mem_append_right _ (List.mem_append_left _ new)

/-- Before anything has arrived the chain is as it was. -/
theorem grown_nil (sound : c.Sound pool) :
    Grown pool c parent (trunk ++ a :: branch) spine [] c where
  sound := sound
  genesis := rfl
  rule := rfl
  gate := rfl
  tier := rfl
  item _ := rfl
  keeps _ has := has
  above := by simpa using stream.fork.path
  behind _ := rfl
  ahead heavy := absurd lighter_nil heavy

end Stream

/-! ### Verdicts -/

/-- The objection of the gate if `t` takes over, coming to the given total. -/
def objection (c : Chain) (trunk : List Header) (a : Header) (spine : List Header) (t : Header)
    (total : Difficulty) : Option Rejection :=
  Verdict.objection? c.gate.curve? a (standing (forkPoint trunk a []) spine t total)

theorem objection_number {t : Header} {total : Difficulty} {r : Rejection}
    (objects : c.objection trunk a spine t total = some r) : r.number = t.number :=
  Verdict.number_of_objection objects

/-- The curve in force, if any, asks for no more than the unbounded ratio after
any time. -/
def Bounded (c : Chain) : Prop :=
  ∀ curve, c.gate.curve? = some curve → ∀ seconds : UInt64,
    ¬ unboundedRatio < curve.required (Binary64.ofNat seconds.toNat)

/-- No curve objects to a header on top of the head, if none asks for more than
the unbounded ratio: since the head the canonical chain has done no work. -/
theorem objection_extension {below : List Header} {p t : Header} {total : Difficulty}
    (bounded : c.Bounded) (above : (below ++ [p]).length ≤ t.number.toNat + 1) :
    c.objection below p (below ++ [p]) t total = none := by
  have ratio : (standing (forkPoint below p []) (below ++ [p]) t total).ratio = unboundedRatio := by
    show workRatio (.capped (work (below ++ [p])))
      (.capped (work ((below ++ [p]).take (t.number.toNat + 1)))) total = _
    have none_done : (Difficulty.capped (work (below ++ [p]))).minus
        (.capped (work (below ++ [p]))) = 0 := Difficulty.ext (Nat.sub_self _)
    rw [List.take_of_length_le above]
    unfold workRatio
    rw [none_done]
    rfl
  unfold objection Verdict.objection?
  rcases gate : c.gate.curve? with - | curve
  · rfl
  · dsimp only
    rw [ratio]
    exact if_neg (bounded curve gate _)

/-- Headers that are all lighter are a side chain. -/
theorem verdict_of_lighter {x : Candidate}
    (light : Lighter (work (trunk ++ a :: branch)) spine x.headers) :
    (c.reckoning x trunk a branch spine).verdict = .sideChain := by
  apply Verdict.ofStandings_eq_sideChain_iff.mpr
  intro s mem
  obtain ⟨r, r_mem, rfl⟩ := List.mem_map.mp mem
  exact light r r_mem

/-- The first header that is not lighter takes over, unless the gate objects. -/
theorem verdict_of_first {x : Candidate} {front back : List Header} {t : Header}
    (split : x.headers = front ++ t :: back)
    (light : Lighter (work (trunk ++ a :: branch)) spine front)
    (heavy : Difficulty.capped (work spine)
      < .capped (work (trunk ++ a :: branch ++ (front ++ [t])))) :
    (c.reckoning x trunk a branch spine).verdict
      = match c.objection trunk a spine t
          (.capped (work (trunk ++ a :: branch ++ (front ++ [t])))) with
        | some rejection => .rejected rejection
        | none => .headSwitch := by
  have total : work (trunk ++ a :: branch ++ (front ++ [t]))
      = work (trunk ++ a :: branch) + work front + t.difficulty.toNat := by
    simp only [work_append, work_cons, work_nil]
    omega
  show Verdict.ofStandings _ _ ((ascent _ x.headers).map _) _ = _
  rw [split, ascent_append, List.map_append, ascent, List.map_cons]
  refine Verdict.ofStandings_of_first (fun s mem => ?_) (total ▸ heavy) |>.trans ?_
  · obtain ⟨r, r_mem, rfl⟩ := List.mem_map.mp mem
    exact light r r_mem
  · rw [total]
    rfl

/-! ### The next piece -/

namespace Grown

variable (grown : Grown pool c parent (trunk ++ a :: branch) spine sent c')
  (stream : Stream pool c parent trunk a branch spine segment)
include grown stream

omit stream in
theorem has_of_mem {h : Header} (mem : h ∈ sent) : c'.store.Has h :=
  grown.above.has_of_mem (List.mem_append_right _ mem)

/-- What has not arrived yet is not stored. -/
theorem unknown (sound : c.Sound pool) (free : CollisionFree pool) (split : segment = sent ++ rest)
    {h : Header} (mem : h ∈ rest) : c'.store.item? h.hash = none := by
  have linked := stream.linked sound
  have sealed_of := (Segment.check_eq_ok_iff.mp stream.checked).1
  subst split
  rw [grown.item, stream.fresh h (List.mem_append_right _ mem), Option.or_none]
  rcases found : Batch.item? _ h.hash with - | e
  · rfl
  · -- a header with this hash among those sent would be this one, twice in the segment
    obtain ⟨e_mem, same⟩ := Batch.item?_eq_some found
    obtain ⟨front, back, whole, -⟩ := mem_ascent e_mem
    have e_sent : e.header ∈ sent := by simp [whole]
    have e_eq : e.header = h :=
      free _ (stream.offered _ (List.mem_append_left _ e_sent)) _
        (stream.offered _ (List.mem_append_right _ mem)) (sealed_of _ (List.mem_append_left _ e_sent))
        (sealed_of _ (List.mem_append_right _ mem)) same
    rw [e_eq] at e_sent
    exact (Header.disjoint_of_linked linked e_sent mem).elim

/-- The next piece is prepared, without what arrived before. -/
theorem prepared {first : Header} {more : List Header} (sound : c.Sound pool)
    (free : CollisionFree pool) (split : segment = sent ++ (first :: more ++ rest))
    (overlap : again <:+ sent) :
    c'.Prepared again ⟨again.length, sent.getLastD parent, first, more⟩ := by
  have linked := stream.linked sound
  have obeys := stream.obeys
  obtain ⟨old, whole⟩ := overlap
  have within : again ++ first :: more <:+: segment := ⟨old, rest, by simp [split, ← whole]⟩
  rw [split] at linked obeys
  have next := isChain_after linked
  refine ⟨Segment.check_part stream.checked within, rfl, fun h mem => ?_, ?_, grown.above.has, ?_,
    ?_⟩
  · have has := grown.has_of_mem (whole ▸ List.mem_append_right _ mem)
    obtain ⟨_, found⟩ := Store.has_iff.mp has
    rw [found]
    rfl
  · exact grown.unknown stream sound free split (by simp)
  · exact (List.isChain_cons_cons.mp next).1.link
  · rw [grown.rule]
    have all := isChain_after obeys
    rw [← List.cons_append] at all
    exact obey_eq_ok_iff.mpr all.left_of_append

/-- As long as the front is lighter, the next piece leaves the head's path where
the segment does. -/
theorem fork_behind (light : Lighter (work (trunk ++ a :: branch)) spine sent)
    (split : segment = sent ++ rest) :
    c'.Fork (sent.getLastD parent) trunk a (branch ++ sent) spine := by
  have head : c'.store.Lineage c'.genesis spine c'.headBlock := by
    rw [grown.behind light, grown.genesis]
    exact stream.fork.head.mono grown.keeps
  refine ⟨by simpa using grown.above, head, ?_, stream.fork.shared, fun b mem => ?_⟩
  · obtain ⟨path, l, canonical⟩ := grown.sound.spine
    rw [head.unique l]
    exact canonical
  · rcases List.mem_append.mp mem with mem | mem
    · exact stream.fork.apart b mem
    · -- the path of the old head was stored before the segment
      intro on_spine
      exact Store.not_has_of_unknown (stream.fresh b (split ▸ List.mem_append_left _ mem))
        (stream.fork.head.has_of_mem on_spine)

omit stream in
/-- Once the front is not lighter any more, the next piece extends the head. -/
theorem fork_ahead (heavy : ¬ Lighter (work (trunk ++ a :: branch)) spine sent) :
    ∃ below, trunk ++ a :: branch ++ sent = below ++ [sent.getLastD parent] ∧
      c'.Fork (sent.getLastD parent) below (sent.getLastD parent) []
        (trunk ++ a :: branch ++ sent) := by
  obtain ⟨below, whole⟩ := grown.above.eq_append
  have head : c'.store.Lineage c'.genesis (trunk ++ a :: branch ++ sent) c'.headBlock := by
    rw [grown.ahead heavy]
    exact grown.above
  refine ⟨below, whole, ?_, head, ?_, ?_, List.forall_mem_nil _⟩
  · rw [← whole]
    exact grown.above
  · obtain ⟨path, l, canonical⟩ := grown.sound.spine
    rw [head.unique l]
    exact canonical
  · rw [whole]
    simp

/-! ### Storing a piece -/

omit stream in
/-- The store after a piece has been put on top of the front, whatever becomes
of the head. -/
theorem commit {x : Candidate} {trunk' branch' spine' : List Header} {a' : Header} {b : Batch}
    {c'' : Chain} (free : CollisionFree pool)
    (storable : Storable pool c' x trunk' a' branch' spine')
    (parent_eq : x.parent = sent.getLastD parent)
    (path_eq : trunk' ++ a' :: branch' = trunk ++ a :: branch ++ sent)
    (rows : b.headers = headerRows x (c'.reckoning x trunk' a' branch' spine'))
    (store : c''.store = c'.store.commit b) (sound : c''.Sound pool)
    (genesis : c''.genesis = c'.genesis) (rule : c''.rule = c'.rule) (gate : c''.gate = c'.gate)
    (behind : Lighter (work (trunk ++ a :: branch)) spine (sent ++ x.headers) →
      c''.headBlock = c.headBlock)
    (ahead : ¬ Lighter (work (trunk ++ a :: branch)) spine (sent ++ x.headers) →
      c''.headBlock = x.tip) :
    Grown pool c parent (trunk ++ a :: branch) spine (sent ++ x.headers) c'' := by
  obtain ⟨-, keeps, above⟩ := storable.rooted_commit grown.sound free rows
  have tip : x.tip = (sent ++ x.headers).getLastD parent := by
    rw [getLastD_append, ← parent_eq, tip_eq x x.parent]
  refine ⟨sound, genesis.trans grown.genesis, rule.trans grown.rule, gate.trans grown.gate, ?_,
    fun hash => ?_, fun h has => ?_, ?_, behind, fun heavy => (ahead heavy).trans tip⟩
  · rw [store]
    exact grown.tier
  · rw [headerRows_reckoning, path_eq, work_append] at rows
    rw [store, Store.item?_commit, grown.item, ascent_append, Batch.item?_append, ← rows,
      Option.or_assoc]
    rfl
  · rw [store]
    exact keeps h (grown.keeps h has)
  · rw [store, genesis, ← tip, ← List.append_assoc, ← path_eq]
    exact above

omit stream in
theorem withTally (tally : Tally) :
    Grown pool c parent (trunk ++ a :: branch) spine sent { c' with tally } :=
  ⟨grown.sound.withTally tally, grown.genesis, grown.rule, grown.gate, grown.tier, grown.item,
    grown.keeps, grown.above, grown.behind, grown.ahead⟩

omit stream in
/-- An accepted piece makes the front longer by its new headers. -/
theorem accept {x : Candidate} {trunk' branch' spine' piece : List Header} {a' : Header}
    (free : CollisionFree pool) (offered : ∀ h ∈ piece, h ∈ pool)
    (storable : Storable pool c' x trunk' a' branch' spine')
    (parent_eq : x.parent = sent.getLastD parent)
    (path_eq : trunk' ++ a' :: branch' = trunk ++ a :: branch ++ sent)
    (assessed : c'.store.answer (c'.assessment piece)
      = .ok (some (x, c'.reckoning x trunk' a' branch' spine')))
    (verdict : ((c'.reckoning x trunk' a' branch' spine').verdict = .sideChain ∧
        Lighter (work (trunk ++ a :: branch)) spine (sent ++ x.headers)) ∨
      ((c'.reckoning x trunk' a' branch' spine').verdict = .headSwitch ∧
        ¬ Lighter (work (trunk ++ a :: branch)) spine (sent ++ x.headers))) :
    ∃ receipt c'', c'.insert piece = (.ok receipt, c'') ∧
      Grown pool c parent (trunk ++ a :: branch) spine (sent ++ x.headers) c'' := by
  have sound := grown.sound.insert free offered
  rw [insert_eq assessed] at sound ⊢
  unfold execute at sound ⊢
  rcases verdict with ⟨side, light⟩ | ⟨switch, heavy⟩
  · rw [side] at sound ⊢
    refine ⟨_, _, rfl, grown.commit free storable parent_eq path_eq
      (b := sideChainBatch x (c'.reckoning x trunk' a' branch' spine')) rfl rfl sound rfl rfl rfl
      (fun _ => grown.behind (lighter_append.mp light).1) fun heavy => absurd light heavy⟩
  · rw [switch] at sound ⊢
    exact ⟨_, _, rfl, grown.commit free storable parent_eq path_eq
      (b := headSwitchBatch x (c'.reckoning x trunk' a' branch' spine')) rfl rfl sound rfl rfl rfl
      (fun light => absurd light heavy) fun _ => rfl⟩

end Grown

/-! ### Inserting a piece -/

/-- The candidate that a piece comes to. -/
def pieceCandidate (parent : Header) (sent again : List Header) (first : Header)
    (more : List Header) : Candidate :=
  ⟨again.length, sent.getLastD parent, first, more⟩

namespace Grown

variable {first : Header} {more : List Header}
  (grown : Grown pool c parent (trunk ++ a :: branch) spine sent c')
  (stream : Stream pool c parent trunk a branch spine segment)
  (sound : c.Sound pool) (free : CollisionFree pool) (answers : c.store.tier.service.AnswersReads)
  (split : segment = sent ++ (first :: more ++ rest)) (overlap : again <:+ sent)
include grown stream sound free answers split overlap

/-- How a piece is assessed, given where its path leaves the head's. -/
theorem assessed {trunk' branch' spine' : List Header} {a' : Header}
    (fork : c'.Fork (sent.getLastD parent) trunk' a' branch' spine')
    (high : c.store.tier.items.length - 1 ≤ a'.number.toNat) :
    Storable pool c' (pieceCandidate parent sent again first more) trunk' a' branch' spine' ∧
      c'.store.answer (c'.assessment (again ++ first :: more))
        = .ok (some (pieceCandidate parent sent again first more,
            c'.reckoning (pieceCandidate parent sent again first more) trunk' a' branch'
              spine')) := by
  have prepared := grown.prepared stream sound free split overlap
  have answers' : c'.store.tier.service.AnswersReads := grown.tier ▸ answers
  have high' : c'.store.tier.items.length - 1 ≤ a'.number.toNat := grown.tier ▸ high
  refine ⟨prepared.storable grown.sound free (fun h mem => ?_) fork high', ?_⟩
  · exact stream.offered_of_piece split overlap (List.mem_append_right _ mem)
  · have prepare := (answer_prepare_iff grown.sound.rooted.sound answers').mpr ⟨again, rfl, prepared⟩
    exact (fork.answer_assessment grown.sound.rooted answers' prepare).trans (if_pos high')

/-- A piece that leaves the front lighter is stored as a side chain. -/
theorem insert_lighter (high : c.store.tier.items.length - 1 ≤ a.number.toNat)
    (light : Lighter (work (trunk ++ a :: branch)) spine (sent ++ first :: more)) :
    ∃ receipt c'', c'.insert (again ++ first :: more) = (.ok receipt, c'') ∧
      Grown pool c parent (trunk ++ a :: branch) spine (sent ++ first :: more) c'' := by
  obtain ⟨light_sent, light_new⟩ := lighter_append.mp light
  have fork := grown.fork_behind stream light_sent split
  obtain ⟨storable, assessed⟩ := grown.assessed stream sound free answers split overlap fork high
  have path_eq : trunk ++ a :: (branch ++ sent) = trunk ++ a :: branch ++ sent := by simp
  refine grown.accept free (fun h mem => stream.offered_of_piece split overlap mem) storable rfl
    path_eq assessed (.inl ⟨verdict_of_lighter ?_, light⟩)
  rw [path_eq, work_append]
  exact light_new

omit stream sound free answers split overlap in
/-- The verdict on a piece with the first header that is not lighter. -/
theorem verdict_piece (again : List Header) {front back : List Header} {t : Header}
    (cut : first :: more = front ++ t :: back)
    (light : Lighter (work (trunk ++ a :: branch)) spine (sent ++ front))
    (heavy : Difficulty.capped (work spine)
      < .capped (work (trunk ++ a :: branch ++ (sent ++ front ++ [t])))) :
    (c'.reckoning (pieceCandidate parent sent again first more) trunk a (branch ++ sent)
        spine).verdict
      = match c.objection trunk a spine t
          (.capped (work (trunk ++ a :: branch ++ (sent ++ front ++ [t])))) with
        | some rejection => .rejected rejection
        | none => .headSwitch := by
  have path_eq : trunk ++ a :: (branch ++ sent) = trunk ++ a :: branch ++ sent := by simp
  have whole : trunk ++ a :: (branch ++ sent) ++ (front ++ [t])
      = trunk ++ a :: branch ++ (sent ++ front ++ [t]) := by simp
  rw [← whole] at heavy ⊢
  have light_front : Lighter (work (trunk ++ a :: (branch ++ sent))) spine front := by
    rw [path_eq, work_append]
    exact (lighter_append.mp light).2
  have verdict := verdict_of_first (c := c') (x := pieceCandidate parent sent again first more) cut
    light_front heavy
  unfold objection at verdict ⊢
  rw [verdict, grown.gate]

/-- With the first header that is not lighter a piece takes over, if the gate
does not object. -/
theorem insert_takeover {front back : List Header} {t : Header}
    (high : c.store.tier.items.length - 1 ≤ a.number.toNat)
    (cut : first :: more = front ++ t :: back)
    (light : Lighter (work (trunk ++ a :: branch)) spine (sent ++ front))
    (heavy : Difficulty.capped (work spine)
      < .capped (work (trunk ++ a :: branch ++ (sent ++ front ++ [t]))))
    (passes : c.objection trunk a spine t
      (.capped (work (trunk ++ a :: branch ++ (sent ++ front ++ [t])))) = none) :
    ∃ receipt c'', c'.insert (again ++ first :: more) = (.ok receipt, c'') ∧
      Grown pool c parent (trunk ++ a :: branch) spine (sent ++ first :: more) c'' := by
  have fork := grown.fork_behind stream (lighter_append.mp light).1 split
  obtain ⟨storable, assessed⟩ := grown.assessed stream sound free answers split overlap fork high
  refine grown.accept free (fun h mem => stream.offered_of_piece split overlap mem) storable rfl
    (by simp) assessed (.inr ⟨?_, ?_⟩)
  · rw [grown.verdict_piece again cut light heavy, passes]
  · show ¬ Lighter _ _ (sent ++ (first :: more))
    rw [cut, ← List.append_assoc]
    exact not_lighter heavy

/-- If the gate objects, the piece is refused at that header, and the chain is as
before. -/
theorem insert_rejected {front back : List Header} {t : Header} {r : Rejection}
    (high : c.store.tier.items.length - 1 ≤ a.number.toNat)
    (cut : first :: more = front ++ t :: back)
    (light : Lighter (work (trunk ++ a :: branch)) spine (sent ++ front))
    (heavy : Difficulty.capped (work spine)
      < .capped (work (trunk ++ a :: branch ++ (sent ++ front ++ [t]))))
    (objects : c.objection trunk a spine t
      (.capped (work (trunk ++ a :: branch ++ (sent ++ front ++ [t])))) = some r) :
    ∃ c'', c'.insert (again ++ first :: more)
        = (.error ⟨again.length + front.length, .rejected r⟩, c'') ∧
      Grown pool c parent (trunk ++ a :: branch) spine sent c'' := by
  have fork := grown.fork_behind stream (lighter_append.mp light).1 split
  obtain ⟨storable, assessed⟩ := grown.assessed stream sound free answers split overlap fork high
  have verdict : (c'.reckoning (pieceCandidate parent sent again first more) trunk a
      (branch ++ sent) spine).verdict = .rejected r := by
    rw [grown.verdict_piece again cut light heavy, objects]
  have at_t : (pieceCandidate parent sent again first more).headers[front.length]? = some t := by
    show (first :: more)[front.length]? = some t
    simp [cut]
  have index : rejectionIndex (pieceCandidate parent sent again first more) r
      = again.length + front.length :=
    rejectionIndex_eq storable.linked at_t (objection_number objects)
  rw [insert_eq assessed]
  unfold execute
  rw [verdict, ← index]
  exact ⟨_, rfl, grown.withTally _⟩

/-- A piece on top of the head extends it: its work since the head is measured
against none, and no curve asks for more than the unbounded ratio. -/
theorem insert_ahead (bounded : c.Bounded)
    (heavy : ¬ Lighter (work (trunk ++ a :: branch)) spine sent) :
    ∃ receipt c'', c'.insert (again ++ first :: more) = (.ok receipt, c'') ∧
      Grown pool c parent (trunk ++ a :: branch) spine (sent ++ first :: more) c'' := by
  obtain ⟨below, whole, fork⟩ := grown.fork_ahead heavy
  -- the fork point is the head, which no frozen header lies above
  have at_head := grown.sound.frozen
  rw [grown.tier, grown.ahead heavy] at at_head
  obtain ⟨storable, assessed⟩ :=
    grown.assessed stream sound free answers split overlap fork (by omega)
  refine grown.accept free (fun h mem => stream.offered_of_piece split overlap mem) storable rfl
    whole.symm assessed (.inr ⟨?_, fun light => heavy (lighter_append.mp light).1⟩)
  -- the first header is heavier than the head, which is its parent
  have positive := stream.positive sound (h := first) (by simp [split])
  have small := stream.small
  have total : work (below ++ [sent.getLastD parent] ++ ([] ++ [first]))
      = work (trunk ++ a :: branch ++ sent) + first.difficulty.toNat := by
    rw [← whole]
    simp [Nat.add_assoc]
  have more_work : work (trunk ++ a :: branch ++ sent) + first.difficulty.toNat < 2 ^ 128 := by
    rw [split] at small
    simp only [work_append, work_cons] at small ⊢
    omega
  have takes_over : Difficulty.capped (work (trunk ++ a :: branch ++ sent))
      < .capped (work (below ++ [sent.getLastD parent] ++ ([] ++ [first]))) := by
    rw [total, Difficulty.lt_iff]
    simp only [Difficulty.toNat_capped]
    omega
  have linked := stream.linked sound
  rw [split] at linked
  have number := (List.isChain_cons_cons.mp (isChain_after linked)).1.number
  have verdict := verdict_of_first (c := c') (x := pieceCandidate parent sent again first more)
    (show first :: more = [] ++ first :: more from rfl) lighter_nil takes_over
  have length := grown.above.length_eq
  rw [whole] at length
  have bounded' : c'.Bounded := by
    unfold Bounded
    rw [grown.gate]
    exact bounded
  rw [verdict, whole, objection_extension bounded' (by omega)]

end Grown

end Chain

end ForkChoice
