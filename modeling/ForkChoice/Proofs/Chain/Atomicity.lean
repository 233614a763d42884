/-
ForkChoice/Proofs/Chain/Atomicity.lean

An insertion that fails leaves the chain as it was.

`Chain.insert` applies its batch by `Store.commit`, which never refuses.
`Chain.insertBy` is the same with a commit that may refuse a batch as a whole,
and `insertBy_commit` ties the two.  Nothing is assumed of the chain: its rows
may be unreadable, its rule and its settings anything, and its tier may refuse
any call.

A failed insertion has counted at most a verdict or a cause
(`insert_error_untouched`).  Nothing that is done later depends on the counters
(`act_untallied`), so the chain goes on as if the insertion had not been tried
(`run_untallied_of_failed`).
-/
import ForkChoice.Proofs.Chain.Evaluation

namespace ForkChoice.Chain

variable {c c' c'' : Chain} {segment : List Header}

/-! ### A commit that may refuse -/

/-- A way of applying batches.  It gives the store afterwards, or it refuses the
whole batch. -/
abbrev Commit : Type := Store → Batch → Except StoreError Store

/-- Carry out the verdict on a segment by a commit that may refuse.  Heads,
counters and events follow the commit. -/
def executeBy (commit : Commit) (c : Chain) (x : Candidate) (a : Assessment) :
    Outcome SegmentError Receipt × Chain :=
  match a.verdict with
  | .rejected r => (.error ⟨rejectionIndex x r, .rejected r⟩, c)
  | .sideChain =>
    match commit c.store (sideChainBatch x a) with
    | .error e => (.error ⟨x.known, .storage e⟩, c)
    | .ok store =>
      let c := (c.storeSideChain x a).onto store
      (.ok (c.receipt (some a.verdict) x.known x.headers.length), c)
  | .headSwitch =>
    match commit c.store (headSwitchBatch x a) with
    | .error e => (.error ⟨x.known, .storage e⟩, c)
    | .ok store =>
      let c := (c.switchHead x a).onto store
      (.ok (c.receipt (some a.verdict) x.known x.headers.length), c)

/-- Assess a segment and, unless it is refused, store it by a commit that may
refuse. -/
def insertBy (commit : Commit) (c : Chain) (segment : List Header) :
    Outcome SegmentError Receipt × Chain :=
  match c.store.answer (c.assessment segment) with
  | .fault w => (.fault w, c)
  | .error e => (.error e, { c with tally := c.tally.countFailure e.cause })
  | .ok none => (.ok (c.receipt none segment.length 0), c)
  | .ok (some (x, a)) => { c with tally := c.tally.countVerdict a.verdict }.executeBy commit x a

/-- With the commit that never refuses this is the insertion. -/
theorem insertBy_commit (c : Chain) (segment : List Header) :
    c.insertBy (fun s b => .ok (s.commit b)) segment = c.insert segment := by
  have same (c : Chain) (x : Candidate) (a : Assessment) :
      c.executeBy (fun s b => .ok (s.commit b)) x a = c.execute x a := by
    unfold executeBy execute
    rcases a.verdict with - | - | r <;> rfl
  unfold insertBy Chain.insert
  rcases c.store.answer (c.assessment segment) with (- | ⟨x, a⟩) | e | w
  · rfl
  · exact same _ x a
  · rfl
  · rfl

/-! ### Failed insertions -/

/-- The second chain is the first, but for its counters of verdicts and failures.
Of what is measured at a change of the head nothing has changed. -/
def Untouched (c c' : Chain) : Prop :=
  ∃ tally, c' = { c with tally } ∧
    tally.headNumber = c.tally.headNumber ∧ tally.reorgDepths = c.tally.reorgDepths

/-- Counting a verdict touches nothing else. -/
theorem untouched_countVerdict (c : Chain) (v : Verdict) :
    c.Untouched { c with tally := c.tally.countVerdict v } := by
  refine ⟨_, rfl, ?_⟩
  unfold Tally.countVerdict
  rcases v with - | - | r <;> exact ⟨rfl, rfl⟩

/-- Counting a failure touches nothing else. -/
theorem untouched_countFailure (c : Chain) (e : ChainError) :
    c.Untouched { c with tally := c.tally.countFailure e } := by
  refine ⟨_, rfl, ?_⟩
  unfold Tally.countFailure
  split <;> exact ⟨rfl, rfl⟩

/-- A verdict that is not carried out changes nothing. -/
theorem executeBy_eq_of_error {commit : Commit} {x : Candidate} {a : Assessment} {e : SegmentError}
    (failed : (c.executeBy commit x a).1 = .error e) : (c.executeBy commit x a).2 = c := by
  unfold executeBy at failed ⊢
  split at failed
  · rfl
  · split at failed
    · rfl
    · cases failed
  · split at failed
    · rfl
    · cases failed

theorem insertBy_error_untouched {commit : Commit} {e : SegmentError}
    (failed : (c.insertBy commit segment).1 = .error e) :
    c.Untouched (c.insertBy commit segment).2 := by
  unfold insertBy at failed ⊢
  generalize c.store.answer (c.assessment segment) = assessed at failed ⊢
  rcases assessed with (- | ⟨x, a⟩) | cause | w
  · cases failed
  · -- the verdict has been counted before it turns out that it is not carried out
    dsimp only at failed ⊢
    rw [executeBy_eq_of_error failed]
    exact c.untouched_countVerdict a.verdict
  · exact c.untouched_countFailure cause.cause
  · cases failed

/-- **A failed insertion leaves everything as it was.**  Whatever the chain and the
segment are and whichever calls the tier refuses, after an error store, heads,
settings and events are as before, and so are the measured height of the head
and the depths of reorganisations; and so it is if the error is that of a commit
that refuses its batch as a whole. -/
theorem insert_error_untouched (c : Chain) (segment : List Header) :
    (∀ e, (c.insert segment).1 = .error e → c.Untouched (c.insert segment).2) ∧
      ∀ commit e, (c.insertBy commit segment).1 = .error e →
        c.Untouched (c.insertBy commit segment).2 := by
  refine ⟨fun e failed => ?_, fun commit e failed => insertBy_error_untouched failed⟩
  rw [← insertBy_commit] at failed ⊢
  exact insertBy_error_untouched failed

/-- If no batch is taken an assessed segment fails. -/
theorem insertBy_of_refusing {commit : Commit} {found : Candidate × Assessment}
    (assessed : c.store.answer (c.assessment segment) = .ok (some found))
    (refuses : ∀ s b, ∃ e, commit s b = .error e) :
    ∃ e, (c.insertBy commit segment).1 = .error e := by
  obtain ⟨e, side⟩ := refuses c.store (sideChainBatch found.1 found.2)
  obtain ⟨e', switch⟩ := refuses c.store (headSwitchBatch found.1 found.2)
  unfold insertBy
  rw [assessed]
  dsimp only
  unfold executeBy
  rw [side, switch]
  split <;> exact ⟨_, rfl⟩

/-- On an empty store no header has a parent. -/
theorem insert_of_empty (c : Chain) {h : Header} (is_sealed : h.isSealed) :
    ∃ e, ((c.onto {}).insert [h]).1 = .error e := by
  have checked : Segment.check [h] = .ok () :=
    Segment.check_eq_ok_iff.mpr ⟨List.forall_mem_singleton.mpr is_sealed, List.isChain_singleton _⟩
  unfold Chain.insert assessment prepare
  rw [checked]
  exact ⟨_, rfl⟩

theorem assessment_sampleChild : ∃ found,
    sampleChain.store.answer (sampleChain.assessment [sampleChild]) = .ok (some found) := by
  have sound : sampleChain.Sound [sampleGenesis] :=
    (reached_sampleChain []).sound (by simp [CollisionFree])
  have answers : sampleChain.store.tier.service.AnswersReads := fun _ => ⟨rfl, fun _ => rfl⟩
  obtain ⟨_, _, prepared⟩ := (answer_prepare_iff sound.rooted.sound answers).mp prepare_sampleChild
  obtain ⟨trunk, a, branch, spine, fork⟩ := sound.exists_fork prepared.parent
  have assessed := fork.answer_assessment sound.rooted answers prepare_sampleChild
  exact ⟨_, assessed.trans (if_pos (Nat.zero_le _))⟩

/-- On an empty store the child has no parent, and on the genesis no commit takes
it: neither attempt changes the chain. -/
theorem insert_error_untouched_sampleChild :
    (∃ e, ((sampleChain.onto {}).insert [sampleChild]).1 = .error e ∧
      (sampleChain.onto {}).Untouched ((sampleChain.onto {}).insert [sampleChild]).2) ∧
    ∃ e, (sampleChain.insertBy (fun _ _ => .error (.row .short)) [sampleChild]).1 = .error e ∧
      sampleChain.Untouched
        (sampleChain.insertBy (fun _ _ => .error (.row .short)) [sampleChild]).2 := by
  constructor
  · obtain ⟨e, failed⟩ := sampleChain.insert_of_empty (h := sampleChild)
      (Header.isSealed_sealWith ..)
    exact ⟨e, failed, (insert_error_untouched _ _).1 e failed⟩
  · obtain ⟨found, assessed⟩ := assessment_sampleChild
    obtain ⟨e, failed⟩ : ∃ e,
        (sampleChain.insertBy (fun _ _ => .error (.row .short)) [sampleChild]).1 = .error e :=
      insertBy_of_refusing assessed fun _ _ => ⟨_, rfl⟩
    exact ⟨e, failed, (insert_error_untouched _ _).2 _ e failed⟩

/-! ### Later on -/

/-- The two chains differ in their counters at most. -/
def Untallied (c c' : Chain) : Prop := ∃ tally, c' = { c with tally }

/-- **No action depends on the counters.** -/
theorem act_untallied (same : c.Untallied c') (action : Action) :
    (c.act action).Untallied (c'.act action) := by
  obtain ⟨tally, rfl⟩ := same
  cases action with
  | insert segment =>
    -- the assessment is the same, since it reads store, head, rule and gate only
    have assessed : Chain.assessment { c with tally } segment = c.assessment segment := rfl
    unfold Chain.act Chain.insert
    dsimp only
    rw [assessed]
    rcases c.store.answer (c.assessment segment) with (- | ⟨x, a⟩) | e | w
    · exact ⟨_, rfl⟩
    · dsimp only
      unfold execute
      split <;> exact ⟨_, rfl⟩
    · exact ⟨_, rfl⟩
    · exact ⟨_, rfl⟩
  | assess segment => exact ⟨tally, rfl⟩
  | freeze keepRecent => exact ⟨tally, rfl⟩
  | enableGate enabled => exact ⟨tally, rfl⟩
  | setGate gate =>
    unfold Chain.act Chain.setGate
    dsimp only
    split <;> exact ⟨tally, rfl⟩
  | reopen settings =>
    unfold Chain.act
    dsimp only
    split
    · exact ⟨_, rfl⟩
    · exact ⟨tally, rfl⟩
  | serve refusal => exact ⟨tally, rfl⟩

/-- No run of actions depends on the counters. -/
theorem run_untallied (same : c.Untallied c') (actions : List Action) :
    (c.run actions).Untallied (c'.run actions) := by
  induction actions generalizing c c' with
  | nil => exact same
  | cons action actions ih => exact ih (act_untallied same action)

/-- **A failed insertion leaves no trace**: whatever is done afterwards comes to
what it would have come to without the attempt. -/
theorem run_untallied_of_failed {e : SegmentError} (failed : (c.insert segment).1 = .error e)
    (actions : List Action) : (c.run actions).Untallied ((c.insert segment).2.run actions) := by
  rw [← insertBy_commit] at failed ⊢
  obtain ⟨tally, same, -, -⟩ := insertBy_error_untouched failed
  exact run_untallied ⟨tally, same⟩ actions

end ForkChoice.Chain
