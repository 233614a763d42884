/-
ForkChoice/Proofs/Chain/Linked.lean

What it means that headers pass.

A segment passes its check if its headers are sealed and each follows the one
before it (`Segment.check_eq_ok_iff`); headers obey a rule if each does so above
the one before it (`Chain.obey_eq_ok_iff`), wherever the count of headers
starts.  Under the retarget rule each header precedes the next and no
difficulty is below the least one of the chain (`Rule.precedes_of_retarget`,
`Rule.minimum_le_of_retarget`).
-/
import ForkChoice.Chain.Assess
import ForkChoice.Proofs.Chain.Lineage

namespace ForkChoice

/-! ### Links -/

namespace Header

/-- The height above is one more, and is none if that does not fit. -/
theorem nextNumber?_eq_some_iff {p h : Header} :
    p.nextNumber? = some h.number ↔ h.number.toNat = p.number.toNat + 1 := by
  unfold nextNumber?
  have below := h.number.toNat_lt
  constructor
  · intro next
    split at next
    · rw [← Option.some.inj next, UInt64.toNat_add]
      simp only [UInt64.reduceToNat]
      omega
    · cases next
  · intro next
    rw [if_pos (by omega), Option.some.injEq, ← UInt64.toNat_inj, UInt64.toNat_add]
    simp only [UInt64.reduceToNat]
    omega

/-- The height is one more, and the parent hash is the parent's hash. -/
theorem follows_eq_ok_iff {p h : Header} :
    p.follows h = .ok () ↔ h.number.toNat = p.number.toNat + 1 ∧ h.parentHash = p.hash := by
  unfold follows
  rw [← nextNumber?_eq_some_iff]
  by_cases next : p.nextNumber? = some h.number
  · by_cases link : h.parentHash = p.hash <;> simp [next, link]
  · simp [next]

end Header

/-! ### Segments -/

namespace Segment

theorem checkHeader_none_eq_ok_iff {h : Header} : checkHeader none h = .ok () ↔ h.isSealed := by
  unfold checkHeader
  by_cases is_sealed : h.isSealed <;> simp [is_sealed]

theorem checkHeader_some_eq_ok_iff {p h : Header} :
    checkHeader (some p) h = .ok () ↔ h.isSealed ∧ p.follows h = .ok () := by
  unfold checkHeader
  by_cases is_sealed : h.isSealed <;> simp [is_sealed]

theorem checkFrom_cons_eq_ok_iff {index : Nat} {previous? : Option Header} {h : Header}
    {rest : List Header} :
    checkFrom index previous? (h :: rest) = .ok () ↔
      checkHeader previous? h = .ok () ∧ checkFrom (index + 1) (some h) rest = .ok () := by
  rcases passes : checkHeader previous? h with e | ⟨⟨⟩⟩ <;> simp [checkFrom, passes]

theorem checkFrom_some_eq_ok_iff {index : Nat} {p : Header} {rest : List Header} :
    checkFrom index (some p) rest = .ok () ↔
      (∀ h ∈ rest, h.isSealed) ∧ (p :: rest).IsChain fun p h => p.follows h = .ok () := by
  induction rest generalizing index p with
  | nil => exact ⟨fun _ => ⟨List.forall_mem_nil _, List.isChain_singleton p⟩, fun _ => rfl⟩
  | cons h rest ih =>
    rw [checkFrom_cons_eq_ok_iff, checkHeader_some_eq_ok_iff, ih, List.isChain_cons_cons,
      List.forall_mem_cons]
    exact ⟨fun ⟨⟨a, b⟩, c, d⟩ => ⟨⟨a, c⟩, b, d⟩, fun ⟨⟨a, c⟩, b, d⟩ => ⟨⟨a, b⟩, c, d⟩⟩

/-- **The check of a segment** asks that every header is sealed and follows the
one before it. -/
theorem check_eq_ok_iff {segment : List Header} :
    check segment = .ok () ↔
      (∀ h ∈ segment, h.isSealed) ∧ segment.IsChain fun p h => p.follows h = .ok () := by
  rcases segment with - | ⟨h, rest⟩
  · exact ⟨fun _ => ⟨List.forall_mem_nil _, List.isChain_nil⟩, fun _ => rfl⟩
  · unfold check
    rw [checkFrom_cons_eq_ok_iff, checkHeader_none_eq_ok_iff, checkFrom_some_eq_ok_iff,
      List.forall_mem_cons, and_assoc]

/-- A run of headers out of a segment that passes also passes. -/
theorem check_part {segment part : List Header} (checked : check segment = .ok ())
    (within : part <:+: segment) : check part = .ok () := by
  obtain ⟨all_sealed, linked⟩ := check_eq_ok_iff.mp checked
  obtain ⟨before, after, rfl⟩ := within
  refine check_eq_ok_iff.mpr ⟨fun h mem => all_sealed h ?_, linked.left_of_append.right_of_append⟩
  exact List.mem_append_left _ (List.mem_append_right _ mem)

end Segment

/-! ### Rules -/

namespace Chain

/-- Headers obey a rule if each does so above the one before it. -/
theorem obey_eq_ok_iff {rule : Rule} {index : Nat} {parent : Header} {headers : List Header} :
    obey rule index parent headers = .ok () ↔
      (parent :: headers).IsChain fun p h => rule p h = .ok () := by
  induction headers generalizing index parent with
  | nil => exact ⟨fun _ => List.isChain_singleton parent, fun _ => rfl⟩
  | cons h rest ih =>
    unfold obey
    rw [List.isChain_cons_cons, ← @ih (index + 1) h]
    rcases rule parent h with ⟨⟨⟩⟩ | e | w <;> simp [Outcome.mapError]

end Chain

/-- No adjusted difficulty is below the least one. -/
theorem Retarget.minimum_le_required {r : Retarget} {parent : Header} {timestamp : UInt64}
    {d : Difficulty} (h : r.required parent timestamp = .ok d) : r.minimum ≤ d := by
  unfold required at h
  obtain ⟨steps, -, h⟩ := except_bind_eq_ok h
  split at h
  · cases h
  · obtain ⟨⟩ := h
    split
    · exact Nat.le_refl _
    · rename_i above
      exact Nat.le_of_not_lt above

/-- The least difficulty of a chain is not zero. -/
theorem Retarget.minimum_pos {r : Retarget} (h : r.check = .ok ()) : 0 < r.minimum.toNat := by
  unfold check at h
  obtain ⟨-, -, h⟩ := except_bind_eq_ok h
  obtain ⟨-, -, h⟩ := except_bind_eq_ok h
  obtain ⟨⟨⟩, minimum, -⟩ := except_bind_eq_ok h
  rcases Nat.eq_zero_or_pos r.minimum.toNat with zero | pos
  · have : r.minimum = 0 := Difficulty.ext zero
    simp [Setting.ensure, this] at minimum
  · exact pos

namespace Rule

variable {r : Retarget} {p h : Header}

theorem retarget_eq_ok (ok : retarget r p h = .ok ()) :
    p.follows h = .ok () ∧ p.timestamp < h.timestamp ∧
      r.required p h.timestamp = .ok h.difficulty := by
  unfold retarget at ok
  obtain ⟨⟨⟩, follows, ok⟩ := Outcome.bind_eq_ok.mp ok
  split at ok
  · cases ok
  rename_i later
  obtain ⟨expected, required, ok⟩ := Outcome.bind_eq_ok.mp ok
  split at ok
  · rename_i same
    refine ⟨?_, UInt64.not_le.mp later, ?_⟩
    · rcases e : p.follows h with e' | ⟨⟨⟩⟩
      · rw [e] at follows
        cases follows
      · rfl
    · rw [same]
      rcases e : r.required p h.timestamp with e' | d
      · rw [e] at required
        cases required
      · rw [e] at required
        cases required
        rfl
  · cases ok

/-- A header sealed on top of another obeys the retarget rule if it is later and
has the difficulty called for. -/
theorem retarget_sealWith {number timestamp nonce : UInt64} {d : Difficulty}
    (next : number.toNat = p.number.toNat + 1) (later : p.timestamp < timestamp)
    (required : r.required p timestamp = .ok d) :
    retarget r p (.sealWith number p.hash timestamp d nonce) = .ok () := by
  generalize sealed_eq : Header.sealWith number p.hash timestamp d nonce = h
  obtain ⟨follows, timestamp_eq, difficulty_eq⟩ :
      p.follows h = .ok () ∧ h.timestamp = timestamp ∧ h.difficulty = d := by
    rw [← sealed_eq]
    exact ⟨Header.follows_eq_ok_iff.mpr ⟨next, rfl⟩, rfl, rfl⟩
  unfold retarget
  rw [follows, timestamp_eq, difficulty_eq, required]
  show (if timestamp ≤ p.timestamp then _ else if d = d then _ else _ : Outcome Violation Unit) = _
  rw [if_neg (UInt64.not_le.mpr later), if_pos rfl]

/-- A header that obeys the retarget rule can stand above its parent. -/
theorem precedes_of_retarget (ok : retarget r p h = .ok ()) : p.Precedes h := by
  obtain ⟨follows, later, -⟩ := retarget_eq_ok ok
  obtain ⟨number, link⟩ := Header.follows_eq_ok_iff.mp follows
  exact ⟨number, link, later⟩

/-- A header that obeys the retarget rule has at least the least difficulty. -/
theorem minimum_le_of_retarget (ok : retarget r p h = .ok ()) : r.minimum ≤ h.difficulty :=
  Retarget.minimum_le_required (retarget_eq_ok ok).2.2

end Rule

end ForkChoice
