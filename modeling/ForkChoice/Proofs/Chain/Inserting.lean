/-
ForkChoice/Proofs/Chain/Inserting.lean

Storing a segment keeps a chain sound.

The rows of an accepted segment are its new headers, each with the work of its
path (`headerRows_reckoning`), so the store stays rooted (`Rooted.commit`).  If
the segment takes over, its path is that of the new head; the index then says
the same as that path at every height: up to the fork point both heads share it,
from there to the tip the batch sets every entry, and above the tip it removes
what the old head left (`Fork.canonical?_switch`).  No height that the batch
touches is frozen, since forks leave at the last frozen header or above.
-/
import ForkChoice.Chain.Insert
import ForkChoice.Proofs.Chain.Judging

namespace ForkChoice

/-! ### Batches of new headers -/

theorem mem_ascent {below : Nat} {headers : List Header} {h : Header} {total : Difficulty}
    (mem : (h, total) ∈ ascent below headers) :
    ∃ front back, headers = front ++ h :: back ∧
      total = .capped (below + work (front ++ [h])) := by
  obtain ⟨i, at_i⟩ := List.getElem?_of_mem mem
  rw [getElem?_ascent] at at_i
  obtain ⟨h', found, same⟩ := Option.map_eq_some_iff.mp at_i
  obtain ⟨⟩ := same
  obtain ⟨bound, rfl⟩ := List.getElem?_eq_some_iff.mp found
  refine ⟨headers.take i, headers.drop (i + 1), ?_, ?_⟩
  · rw [← List.drop_eq_getElem_cons bound, List.take_append_drop]
  · rw [List.take_append_getElem]

namespace Store

variable {s : Store} {genesis p : Header} {pool path headers : List Header} {b : Batch}

/-- New headers on top of a stored one, each with the work of its path, keep a
store rooted. -/
theorem Rooted.commit (rooted : s.Rooted genesis pool) (free : CollisionFree pool)
    (l : s.Lineage genesis path p) (linked : (p :: headers).IsChain Header.Precedes)
    (fresh : ∀ h ∈ headers, s.item? h.hash = none)
    (offered : ∀ h ∈ headers, h ∈ pool ∧ h.isSealed)
    (rows : b.headers = ascent (work path) headers) :
    (s.commit b).Rooted genesis pool ∧ (∀ h, s.Has h → (s.commit b).Has h) ∧
      (s.commit b).Lineage genesis (path ++ headers) (headers.getLastD p) := by
  have new {hash : Hash} {e : Frozen} (found : b.item? hash = some e) :
      e.header.hash = hash ∧ ∃ front back, headers = front ++ e.header :: back ∧
        e.totalDifficulty = .capped (work path + work (front ++ [e.header])) := by
    obtain ⟨mem, same⟩ := Batch.item?_eq_some found
    rw [rows] at mem
    exact ⟨same, mem_ascent mem⟩
  have keeps (h : Header) (has : s.Has h) : (s.commit b).Has h := by
    obtain ⟨total, found⟩ := has_iff.mp has
    refine has_iff.mpr ⟨total, item?_commit_of_fresh (fun r mem => ?_) found⟩
    rw [rows] at mem
    exact fresh _ (fst_mem_of_mem_ascent mem)
  -- what the batch brings under a header's hash is that header, as no hashes collide
  have added (h : Header) (mem : h ∈ headers) : (s.commit b).Has h := by
    obtain ⟨r, r_mem, rfl⟩ := List.mem_map.mp ((map_fst_ascent (work path) headers).symm ▸ mem)
    obtain ⟨e, found⟩ := Batch.exists_item? (rows.symm ▸ r_mem)
    obtain ⟨same, front, back, whole, -⟩ := new found
    have e_mem : e.header ∈ headers := by simp [whole]
    have e_eq : e.header = r.1 :=
      free _ (offered _ e_mem).1 _ (offered _ mem).1 (offered _ e_mem).2 (offered _ mem).2 same
    refine has_iff.mpr ⟨e.totalDifficulty, ?_⟩
    rw [item?_commit, found, ← e_eq]
    rfl
  refine ⟨⟨rooted.sound.commit b, ?_, ?_, ?_⟩, keeps, (l.mono keeps).append linked added⟩
  · intro hash e found
    rw [item?_commit] at found
    rcases Option.or_eq_some_iff.mp found with here | ⟨-, old⟩
    · obtain ⟨-, front, back, whole, -⟩ := new here
      exact (offered _ (by simp [whole])).1
    · exact rooted.mem_pool old
  · intro hash e found
    rw [item?_commit] at found
    rcases Option.or_eq_some_iff.mp found with here | ⟨-, old⟩
    · obtain ⟨-, front, back, whole, -⟩ := new here
      exact (offered _ (by simp [whole])).2
    · exact rooted.is_sealed old
  · intro hash e found
    rw [item?_commit] at found
    rcases Option.or_eq_some_iff.mp found with here | ⟨-, old⟩
    · -- the lineage of a new header is the path below with the headers up to it
      obtain ⟨-, front, back, whole, total⟩ := new here
      refine ⟨path ++ (front ++ [e.header]), ?_, by rw [total, work_append path]⟩
      rw [List.append_cons] at whole
      rw [whole, ← List.cons_append] at linked
      have up := (l.mono keeps).append linked.left_of_append
        fun h mem => added h (whole ▸ List.mem_append_left _ mem)
      simpa using up
    · obtain ⟨path', l', total⟩ := rooted.lineage old
      exact ⟨path', l'.mono keeps, total⟩

end Store

/-! ### Canonical entries -/

/-- The canonical entries set for headers of consecutive heights are found at
those heights. -/
theorem lookup_heights {base : Nat} {headers : List Header}
    (heights : ∀ {i h}, headers[i]? = some h → h.number.toNat = base + i) (n : UInt64) :
    (headers.map fun h => (h.number, h.hash)).reverse.lookup n
      = if n.toNat < base then none else headers[n.toNat - base]?.map (·.hash) := by
  induction headers using List.reverseRecOn with
  | nil => simp
  | append_singleton headers h ih =>
    have here : h.number.toNat = base + headers.length := heights (by simp)
    have below {i : Nat} {h' : Header} (found : headers[i]? = some h') :
        h'.number.toNat = base + i := by
      have bound := (List.getElem?_eq_some_iff.mp found).1
      exact heights (by rw [List.getElem?_append_left bound, found])
    have last_first : ((headers ++ [h]).map fun h => (h.number, h.hash)).reverse
        = (h.number, h.hash) :: (headers.map fun h => (h.number, h.hash)).reverse := by simp
    rw [last_first, List.lookup_cons]
    -- the last entry set for a height wins, and the others are for heights below it
    by_cases same : n = h.number
    · rw [same, beq_self_eq_true, here, if_neg (by omega), Nat.add_sub_cancel_left]
      simp
    · have other : n.toNat ≠ base + headers.length := by
        rw [← here]
        exact fun e => same (UInt64.toNat_inj.mp e)
      rw [beq_false_of_ne same, ih below]
      dsimp only
      split
      · rfl
      · rcases Nat.lt_or_ge (n.toNat - base) headers.length with inside | above
        · rw [List.getElem?_append_left inside]
        · rw [List.getElem?_eq_none above, List.getElem?_eq_none (by simp; omega)]

namespace Chain

theorem mem_heightsAbove {tip head n : UInt64} :
    n ∈ heightsAbove tip head ↔ tip < n ∧ n ≤ head := by
  unfold heightsAbove
  rw [UInt64.lt_iff_toNat_lt, UInt64.le_iff_toNat_le]
  have tip_lt := tip.toNat_lt
  have head_lt := head.toNat_lt
  have n_lt := n.toNat_lt
  constructor
  · intro mem
    obtain ⟨k, k_mem, rfl⟩ := List.mem_map.mp mem
    obtain ⟨i, bound, rfl⟩ := List.mem_range'.mp k_mem
    have value : (UInt64.ofNat (tip.toNat + 1 + 1 * i)).toNat = tip.toNat + 1 + i := by
      rw [UInt64.toNat_ofNat', Nat.mod_eq_of_lt (by omega), Nat.one_mul]
    omega
  · rintro ⟨above, below⟩
    refine List.mem_map.mpr ⟨n.toNat, List.mem_range'.mpr ⟨n.toNat - (tip.toNat + 1), ?_⟩, by simp⟩
    omega

/-! ### The batches of a segment -/

variable {pool : List Header} {c : Chain} {x : Candidate} {a : Header}
  {front trunk branch spine segment : List Header}

theorem tip_eq (x : Candidate) (p : Header) : x.tip = x.headers.getLastD p :=
  (List.getLastD_cons ..).symm

/-- The index of a rejected header, which is told by heights, is its place in the
segment, since heights go up one by one. -/
theorem rejectionIndex_eq {r : Rejection} {t : Header} {i : Nat}
    (linked : (x.parent :: x.headers).IsChain Header.Precedes) (at_t : x.headers[i]? = some t)
    (number : r.number = t.number) : rejectionIndex x r = x.known + i := by
  have here := Header.number_eq_of_linked linked at_t
  have first := Header.number_eq_of_linked linked (i := 0) (a := x.first) rfl
  unfold rejectionIndex
  rw [number]
  omega

/-- A segment writes its new headers, each with the work of its path. -/
theorem headerRows_reckoning (c : Chain) (x : Candidate) (trunk : List Header) (a : Header)
    (branch spine : List Header) :
    headerRows x (c.reckoning x trunk a branch spine)
      = ascent (work (trunk ++ a :: branch)) x.headers := by
  unfold headerRows reckoning
  generalize work (trunk ++ a :: branch) = below
  generalize x.headers = headers
  dsimp only
  induction headers generalizing below with
  | nil => rfl
  | cons h rest ih =>
    rw [ascent, List.map_cons, List.zip_cons_cons, List.map_cons, ih]
    rfl

/-- What is known of a candidate about to be stored: where its parent's path
leaves that of the head, and that its headers are new and go up from there. -/
structure Storable (pool : List Header) (c : Chain) (x : Candidate) (trunk : List Header)
    (a : Header) (branch spine : List Header) : Prop where
  fork : c.Fork x.parent trunk a branch spine
  high : c.store.tier.items.length - 1 ≤ a.number.toNat
  linked : (x.parent :: x.headers).IsChain Header.Precedes
  fresh : ∀ h ∈ x.headers, c.store.item? h.hash = none
  offered : ∀ h ∈ x.headers, h ∈ pool ∧ h.isSealed

namespace Storable

variable (storable : Storable pool c x trunk a branch spine)
include storable

/-- Any batch with the rows of the segment keeps the store rooted. -/
theorem rooted_commit (sound : c.Sound pool) (free : CollisionFree pool) {b : Batch}
    (rows : b.headers = headerRows x (c.reckoning x trunk a branch spine)) :
    (c.store.commit b).Rooted c.genesis pool ∧
      (∀ h, c.store.Has h → (c.store.commit b).Has h) ∧
      (c.store.commit b).Lineage c.genesis (trunk ++ a :: branch ++ x.headers) x.tip := by
  rw [tip_eq x x.parent]
  rw [headerRows_reckoning] at rows
  exact sound.rooted.commit free storable.fork.path storable.linked storable.fresh
    storable.offered rows

/-- A side chain leaves the chain sound. -/
theorem sound_storeSideChain (sound : c.Sound pool) (free : CollisionFree pool) :
    (c.storeSideChain x (c.reckoning x trunk a branch spine)).Sound pool := by
  obtain ⟨rooted, keeps, -⟩ := storable.rooted_commit sound free
    (b := sideChainBatch x (c.reckoning x trunk a branch spine)) rfl
  refine ⟨rooted, sound.alone, sound.rule, ⟨spine, storable.fork.head.mono keeps, fun n => ?_⟩,
    sound.headHeader, ?_, ?_, sound.frozen⟩
  · show (c.store.commit _).canonical? n = _
    rw [Store.canonical?_commit, ← storable.fork.canonical]
    split <;> rfl
  · exact (Rows.headBlock?_commit _ _).trans sound.headBlock?
  · exact (Rows.headHeader?_commit _ _).trans sound.headHeader?

/-- The branch and the new headers count up from the fork point, wherever one ends. -/
theorem heights {i : Nat} {h : Header} (found : (branch ++ x.headers)[i]? = some h) :
    h.number.toNat = a.number.toNat + 1 + i := by
  obtain ⟨below, whole⟩ := storable.fork.path.eq_append
  have path := storable.fork.path.isChain
  rw [whole] at path
  have linked := path.append_overlap storable.linked (List.cons_ne_nil _ _)
  rw [← whole, List.append_assoc, List.cons_append] at linked
  exact Header.number_eq_of_linked linked.right_of_append found

/-- The new headers stand at the heights above the path of their parent. -/
theorem number_eq {i : Nat} {h : Header} (at_h : x.headers[i]? = some h) :
    h.number.toNat = (trunk ++ a :: branch).length + i := by
  have height := storable.heights (i := branch.length + i) (h := h) (by
    rw [List.getElem?_append_right (Nat.le_add_right _ _), Nat.add_sub_cancel_left, at_h])
  rw [height, storable.fork.number_eq, List.length_append, List.length_cons]
  omega

/-- The entries that a takeover sets, height by height. -/
theorem canonical?_headSwitchBatch (n : UInt64) :
    (headSwitchBatch x (c.reckoning x trunk a branch spine)).canonical? n
      = if n.toNat < a.number.toNat + 1 then none
        else (branch ++ x.headers)[n.toNat - (a.number.toNat + 1)]?.map (·.hash) := by
  have sets : (headSwitchBatch x (c.reckoning x trunk a branch spine)).canonical
      = (branch ++ x.headers).map fun h => (h.number, h.hash) := by
    simp [headSwitchBatch, reckoning, forkPoint]
  unfold Batch.canonical?
  rw [sets, lookup_heights storable.heights]

/-- **After a takeover the index is the path of the new head**, height by height. -/
theorem canonical?_switch (grown : (c.store.commit (headSwitchBatch x
      (c.reckoning x trunk a branch spine))).Lineage c.genesis
        (trunk ++ a :: branch ++ x.headers) x.tip) (n : UInt64) :
    (c.store.commit (headSwitchBatch x (c.reckoning x trunk a branch spine))).canonical? n
      = (trunk ++ a :: branch ++ x.headers)[n.toNat]?.map (·.hash) := by
  have a_number := storable.fork.number_eq
  have high := storable.high
  have split_path : trunk ++ a :: branch ++ x.headers = (trunk ++ [a]) ++ (branch ++ x.headers) := by
    simp
  have base : (trunk ++ [a]).length = a.number.toNat + 1 := by simp [a_number]
  have tip_number := grown.length_eq
  rw [split_path] at tip_number ⊢
  rw [List.length_append, base] at tip_number
  rw [Store.canonical?_commit, storable.canonical?_headSwitchBatch, storable.fork.canonical]
  generalize branch ++ x.headers = new at tip_number ⊢
  show (if n.toNat < c.store.tier.items.length then _
    else Option.or _ (if n ∈ heightsAbove x.tip.number c.headBlock.number then none else _)) = _
  simp only [mem_heightsAbove]
  rcases Nat.lt_or_ge n.toNat (a.number.toNat + 1) with low | high'
  · -- up to the fork point both heads have the same headers
    have kept : spine[n.toNat]? = ((trunk ++ [a]) ++ new)[n.toNat]? := by
      rw [List.getElem?_append_left (by omega), ← storable.fork.spine_take,
        List.getElem?_take_of_lt low]
    have below_tip : ¬ (x.tip.number < n ∧ n ≤ c.headBlock.number) := by
      rintro ⟨above, -⟩
      rw [UInt64.lt_iff_toNat_lt] at above
      omega
    rw [if_pos low, if_neg below_tip, kept]
    split <;> rfl
  · have unfrozen : ¬ n.toNat < c.store.tier.items.length := by omega
    rw [if_neg unfrozen, if_neg (Nat.not_lt.mpr high'), List.getElem?_append_right (by omega), base]
    rcases Nat.lt_or_ge n.toNat (x.tip.number.toNat + 1) with inside | above
    · -- up to the tip every entry is set
      rw [List.getElem?_eq_getElem (by omega)]
      rfl
    · -- above the tip the old head's entries are removed
      rw [List.getElem?_eq_none (by omega)]
      split
      · rfl
      · rename_i outside
        have beyond : spine.length ≤ n.toNat := by
          rw [storable.fork.head.length_eq]
          rw [UInt64.lt_iff_toNat_lt, UInt64.le_iff_toNat_le] at outside
          omega
        rw [List.getElem?_eq_none beyond]
        rfl

/-- A takeover leaves the chain sound. -/
theorem sound_switchHead (sound : c.Sound pool) (free : CollisionFree pool) :
    (c.switchHead x (c.reckoning x trunk a branch spine)).Sound pool := by
  obtain ⟨rooted, -, grown⟩ := storable.rooted_commit sound free
    (b := headSwitchBatch x (c.reckoning x trunk a branch spine)) rfl
  refine ⟨rooted, sound.alone, sound.rule, ⟨_, grown, storable.canonical?_switch grown⟩, rfl,
    Rows.headBlock?_commit _ _, Rows.headHeader?_commit _ _, ?_⟩
  -- the fork point lies no lower than the last frozen header, and the tip above it
  show c.store.tier.items.length ≤ x.tip.number.toNat
  have length := grown.length_eq
  have a_number := storable.fork.number_eq
  have high := storable.high
  have some_header : 0 < x.headers.length := Nat.succ_pos _
  rw [List.length_append, List.length_append, List.length_cons] at length
  omega

end Storable

/-! ### Inserting -/

/-- A segment with nothing new changes nothing, -/
theorem insert_of_held (assessed : c.store.answer (c.assessment segment) = .ok none) :
    c.insert segment = (.ok (c.receipt none segment.length 0), c) := by
  unfold Chain.insert
  rw [assessed]

/-- a segment that cannot be assessed is counted at most, -/
theorem insert_of_error {e : SegmentError}
    (assessed : c.store.answer (c.assessment segment) = .error e) :
    c.insert segment = (.error e, { c with tally := c.tally.countFailure e.cause }) := by
  unfold Chain.insert
  rw [assessed]

theorem insert_of_fault {w : Fault}
    (assessed : c.store.answer (c.assessment segment) = .fault w) :
    c.insert segment = (.fault w, c) := by
  unfold Chain.insert
  rw [assessed]

/-- and on any other the verdict is carried out. -/
theorem insert_eq {found : Assessment}
    (assessed : c.store.answer (c.assessment segment) = .ok (some (x, found))) :
    c.insert segment
      = ({ c with tally := c.tally.countVerdict found.verdict } : Chain).execute x found := by
  unfold Chain.insert
  rw [assessed]

/-- A receipt with a verdict tells what was assessed. -/
theorem exists_assessment_of_receipt {receipt : Receipt} {verdict : Verdict}
    (accepted : (c.insert segment).1 = .ok receipt) (decided : receipt.verdict = some verdict) :
    ∃ x found, c.store.answer (c.assessment segment) = .ok (some (x, found)) ∧
      found.verdict = verdict ∧ receipt.known = x.known ∧ receipt.written = x.headers.length := by
  rcases answered : c.store.answer (c.assessment segment) with (- | ⟨x, found⟩) | e | w
  · rw [insert_of_held answered] at accepted
    cases accepted
    cases decided
  · refine ⟨x, found, rfl, ?_⟩
    rw [insert_eq answered, execute] at accepted
    rcases given : found.verdict with - | - | r <;> rw [given] at accepted <;> cases accepted <;>
      cases decided <;> exact ⟨rfl, rfl, rfl⟩
  · rw [insert_of_error answered] at accepted
    cases accepted
  · rw [insert_of_fault answered] at accepted
    cases accepted

/-- A segment that moves the head is accepted as a head switch. -/
theorem exists_receipt_of_headBlock_ne (moved : (c.insert segment).2.headBlock ≠ c.headBlock) :
    ∃ receipt, (c.insert segment).1 = .ok receipt ∧ receipt.verdict = some .headSwitch := by
  rcases answered : c.store.answer (c.assessment segment) with (- | ⟨x, found⟩) | e | w
  · rw [insert_of_held answered] at moved
    exact absurd rfl moved
  · rw [insert_eq answered, execute] at moved ⊢
    rcases given : found.verdict with - | - | r <;> rw [given] at moved
    · exact ⟨_, rfl, rfl⟩
    · exact absurd rfl moved
    · exact absurd rfl moved
  · rw [insert_of_error answered] at moved
    exact absurd rfl moved
  · rw [insert_of_fault answered] at moved
    exact absurd rfl moved

/-- Insertions leave the settings of a chain and its tier alone. -/
theorem settings_insert (c : Chain) (segment : List Header) :
    (c.insert segment).2.rule = c.rule ∧ (c.insert segment).2.gate = c.gate ∧
      (c.insert segment).2.eventCapacity = c.eventCapacity ∧
      (c.insert segment).2.store.tier = c.store.tier := by
  unfold Chain.insert execute
  split
  · exact ⟨rfl, rfl, rfl, rfl⟩
  · exact ⟨rfl, rfl, rfl, rfl⟩
  · exact ⟨rfl, rfl, rfl, rfl⟩
  · split <;> exact ⟨rfl, rfl, rfl, rfl⟩

/-- While the tier answers, a prepared candidate whose path leaves the head's
high enough can be stored. -/
theorem Prepared.storable (prepared : c.Prepared front x) (sound : c.Sound pool)
    (free : CollisionFree pool) (offered : ∀ h ∈ x.headers, h ∈ pool)
    (fork : c.Fork x.parent trunk a branch spine)
    (high : c.store.tier.items.length - 1 ≤ a.number.toNat) :
    Storable pool c x trunk a branch spine := by
  obtain ⟨r, -, rule⟩ := sound.rule
  exact ⟨fork, high, prepared.linked rule, prepared.fresh sound free offered,
    fun h mem => ⟨offered h mem, prepared.is_sealed mem⟩⟩

/-- A segment with something new is what is stored of it and the candidate's
headers, also while calls may be refused. -/
theorem Sound.prepared_of_assessment {found : Assessment} (sound : c.Sound pool)
    (h : c.store.answer (c.assessment segment) = .ok (some (x, found))) :
    ∃ front, segment = front ++ x.headers ∧ c.Prepared front x := by
  have answers := c.store.answersReads_answering
  have prepared := prepare_of_assessment (c := c.answering) answers
    (c.strict_assessment segment _ 0 _ h)
  obtain ⟨front, whole, p⟩ := (answer_prepare_iff sound.answering.rooted.sound answers).mp prepared
  exact ⟨front, whole, p.checked, p.known, p.stored, p.first, p.parent, p.link, p.obeys⟩

/-- What a sound chain makes of a segment, while calls may be refused. -/
theorem Sound.assessment_eq_ok {found : Assessment} (sound : c.Sound pool)
    (free : CollisionFree pool) (offered : ∀ h ∈ segment, h ∈ pool)
    (h : c.store.answer (c.assessment segment) = .ok (some (x, found))) :
    ∃ trunk a branch spine, Storable pool c x trunk a branch spine ∧
      found = c.reckoning x trunk a branch spine := by
  -- under refusals the same is found as under none
  have answers := c.store.answersReads_answering
  have sound' := sound.answering
  have h' : c.answering.store.answer (c.answering.assessment segment) = .ok (some (x, found)) :=
    c.strict_assessment segment _ 0 _ h
  have prepare_eq := prepare_of_assessment answers h'
  obtain ⟨front, rfl, prepared⟩ := (answer_prepare_iff sound'.rooted.sound answers).mp prepare_eq
  obtain ⟨trunk, a, branch, spine, fork⟩ := sound'.exists_fork prepared.parent
  rw [fork.answer_assessment sound'.rooted answers prepare_eq] at h'
  split at h'
  · rename_i high
    obtain ⟨⟩ := h'
    have storable := prepared.storable sound' free
      (fun h mem => offered h (List.mem_append_right _ mem)) fork high
    have fork' := fork.onto c.store.sameContents_answering.symm
    exact ⟨trunk, a, branch, spine,
      ⟨fork', high, storable.linked, storable.fresh, storable.offered⟩, rfl⟩
  · cases h'

theorem assess_of_assessment {x : Candidate} {found : Assessment}
    (answered : c.store.answer (c.assessment segment) = .ok (some (x, found))) :
    c.assess segment = .ok (some found) := by
  unfold assess
  rw [answered]
  rfl

/-- Behind an assessment stands a candidate. -/
theorem exists_candidate {found : Assessment} (assessed : c.assess segment = .ok (some found)) :
    ∃ x, c.store.answer (c.assessment segment) = .ok (some (x, found)) := by
  unfold assess at assessed
  rcases answered : c.store.answer (c.assessment segment) with (- | ⟨x, found'⟩) | e | w <;>
    rw [answered] at assessed <;> cases assessed
  exact ⟨x, rfl⟩

/-- A segment that is assessed consists of stored headers and of a candidate's that
can be stored, and the assessment is the reckoning. -/
theorem Sound.exists_storable {found : Assessment} (sound : c.Sound pool)
    (free : CollisionFree pool) (offered : ∀ h ∈ segment, h ∈ pool)
    (assessed : c.assess segment = .ok (some found)) :
    ∃ x front trunk a branch spine, segment = front ++ x.headers ∧ c.Prepared front x ∧
      Storable pool c x trunk a branch spine ∧ found = c.reckoning x trunk a branch spine := by
  obtain ⟨x, answered⟩ := exists_candidate assessed
  obtain ⟨front, whole, prepared⟩ := sound.prepared_of_assessment answered
  obtain ⟨trunk, a, branch, spine, storable, reckoned⟩ :=
    sound.assessment_eq_ok free offered answered
  exact ⟨x, front, trunk, a, branch, spine, whole, prepared, storable, reckoned⟩

theorem Sound.withTally (sound : c.Sound pool) (tally : Tally) : Sound pool { c with tally } :=
  ⟨sound.rooted, sound.alone, sound.rule, sound.spine, sound.headHeader, sound.headBlock?,
    sound.headHeader?, sound.frozen⟩

/-- The ways in which storing a candidate ends: nothing is stored, or the new
headers are, and the head stays or moves to their tip. -/
inductive Inserted (pool : List Header) (c : Chain) : Chain → Prop
  | nothing : Inserted pool c c
  | sideChain {x : Candidate} {trunk branch spine : List Header} {a : Header} :
      Storable pool c x trunk a branch spine →
      (c.reckoning x trunk a branch spine).verdict = .sideChain →
      Inserted pool c (c.storeSideChain x (c.reckoning x trunk a branch spine))
  | headSwitch {x : Candidate} {trunk branch spine : List Header} {a : Header} :
      Storable pool c x trunk a branch spine →
      (c.reckoning x trunk a branch spine).verdict = .headSwitch →
      Inserted pool c (c.switchHead x (c.reckoning x trunk a branch spine))

/-- What an insertion into a sound chain comes to, beside the counters. -/
theorem Sound.inserted (sound : c.Sound pool) (free : CollisionFree pool)
    (offered : ∀ h ∈ segment, h ∈ pool) :
    ∃ tally, Inserted pool { c with tally } (c.insert segment).2 := by
  unfold Chain.insert
  split
  · exact ⟨c.tally, .nothing⟩
  · exact ⟨_, .nothing⟩
  · exact ⟨c.tally, .nothing⟩
  · -- the verdict is counted before it is executed
    rename_i x found assessed
    obtain ⟨trunk, a, branch, spine, storable, rfl⟩ := sound.assessment_eq_ok free offered assessed
    have storable' : Storable pool
        { c with tally := c.tally.countVerdict (c.reckoning x trunk a branch spine).verdict }
        x trunk a branch spine :=
      ⟨⟨storable.fork.path, storable.fork.head, storable.fork.canonical, storable.fork.shared,
        storable.fork.apart⟩, storable.high, storable.linked, storable.fresh, storable.offered⟩
    refine ⟨c.tally.countVerdict (c.reckoning x trunk a branch spine).verdict, ?_⟩
    unfold execute
    split
    · exact .nothing
    · rename_i verdict
      exact .sideChain storable' verdict
    · rename_i verdict
      exact .headSwitch storable' verdict

/-- **Inserting a segment keeps a chain sound**, whatever comes of it. -/
theorem Sound.insert (sound : c.Sound pool) (free : CollisionFree pool)
    (offered : ∀ h ∈ segment, h ∈ pool) : (c.insert segment).2.Sound pool := by
  obtain ⟨tally, inserted⟩ := sound.inserted free offered
  have sound' := sound.withTally tally
  generalize (c.insert segment).2 = c' at inserted ⊢
  cases inserted with
  | nothing => exact sound'
  | sideChain storable _ => exact storable.sound_storeSideChain sound' free
  | headSwitch storable _ => exact storable.sound_switchHead sound' free

end Chain

end ForkChoice
