/-
ForkChoice/Proofs/Chain/Faults.lean

What it means that headers do not pass.

Each check of headers stops at the first one that is at fault and says what the
matter is.  For a single header the ways to be at fault are listed in the order
in which they are looked for: `Header.Breaks` for a link, `Segment.Flaw` for a
header of a segment, `Retarget.Invalid` for a child under the retarget rule.
A check of many headers then fails with a fault if the headers before pass and the
next one has it (`Segment.check_eq_error_iff`, `Chain.obey_retarget_of_invalid`),
and there is no other way to fail (`Chain.valid_or_first_invalid`).

Beside each stands what it means to pass: `Header.Continues`, `Segment.Coherent`
and `Retarget.Valid`.
-/
import ForkChoice.Proofs.Chain.Linked

namespace ForkChoice

variable {p h : Header} {v : Violation}

/-! ### Links -/

namespace Header

/-- A header continues another: the height is one more, without wrapping, and the
parent hash is the other's hash. -/
structure Continues (p h : Header) : Prop where
  number : h.number.toNat = p.number.toNat + 1
  link : h.parentHash = p.hash

/-- How a header fails to continue another.  The height is looked at first. -/
inductive Breaks (p h : Header) : Violation → Prop
  | height : h.number.toNat ≠ p.number.toNat + 1 →
      Breaks p h (.nonSequential p.nextNumberCapped h.number)
  | link : h.number.toNat = p.number.toNat + 1 → h.parentHash ≠ p.hash →
      Breaks p h (.brokenLink h.number h.parentHash p.hash)

theorem follows_eq_ok_iff_continues : p.follows h = .ok () ↔ p.Continues h :=
  follows_eq_ok_iff.trans ⟨fun ⟨number, link⟩ => ⟨number, link⟩, fun ok => ⟨ok.number, ok.link⟩⟩

theorem follows_eq_error_iff : p.follows h = .error v ↔ p.Breaks h v := by
  constructor
  · intro failed
    by_cases number : h.number.toNat = p.number.toNat + 1
    · by_cases link : h.parentHash = p.hash
      · rw [follows_eq_ok_iff.mpr ⟨number, link⟩] at failed
        cases failed
      · rw [follows, if_neg (not_not.mpr (nextNumber?_eq_some_iff.mpr number)), if_pos link] at failed
        cases failed
        exact .link number link
    · rw [follows, if_pos (mt nextNumber?_eq_some_iff.mp number)] at failed
      cases failed
      exact .height number
  · rintro (number | ⟨number, link⟩)
    · rw [follows, if_pos (mt nextNumber?_eq_some_iff.mp number)]
    · rw [follows, if_neg (not_not.mpr (nextNumber?_eq_some_iff.mpr number)), if_pos link]

end Header

/-! ### Segments -/

namespace Segment

variable {segment : List Header} {previous? : Option Header}

/-- All headers are sealed, and each continues the one before it. -/
structure Coherent (segment : List Header) : Prop where
  all_sealed : ∀ h ∈ segment, h.isSealed
  linked : segment.IsChain Header.Continues

theorem check_eq_ok_iff_coherent : check segment = .ok () ↔ Coherent segment := by
  have same : (fun p h : Header => p.follows h = .ok ()) = Header.Continues := by
    funext p h
    exact propext Header.follows_eq_ok_iff_continues
  rw [check_eq_ok_iff, same]
  exact ⟨fun ⟨all_sealed, linked⟩ => ⟨all_sealed, linked⟩, fun ok => ⟨ok.all_sealed, ok.linked⟩⟩

/-- What is wrong with a header of a segment, given the one before it if there is
one.  Its seal is looked at before its link. -/
inductive Flaw : (previous? : Option Header) → (h : Header) → Violation → Prop
  | unsealed {previous? : Option Header} {h : Header} : ¬ h.isSealed →
      Flaw previous? h (.hashMismatch h.number)
  | unlinked {p h : Header} {v : Violation} : h.isSealed → p.Breaks h v → Flaw (some p) h v

theorem checkHeader_eq_error_iff : checkHeader previous? h = .error v ↔ Flaw previous? h v := by
  unfold checkHeader
  by_cases is_sealed : h.isSealed
  · rw [if_pos is_sealed]
    constructor
    · intro failed
      rcases previous? with - | p
      · cases failed
      · exact .unlinked is_sealed (Header.follows_eq_error_iff.mp failed)
    · rintro (unsealed | ⟨-, breaks⟩)
      · exact absurd is_sealed unsealed
      · exact Header.follows_eq_error_iff.mpr breaks
  · rw [if_neg is_sealed]
    constructor
    · intro failed
      cases failed
      exact .unsealed is_sealed
    · rintro (- | ⟨sealed_here, -⟩)
      · rfl
      · exact absurd sealed_here is_sealed

/-- The header before the end of a front is the last of the front, or else the one
before the front. -/
theorem getLast?_cons_or (a : Header) (front : List Header) (previous? : Option Header) :
    (a :: front).getLast?.or previous? = front.getLast?.or (some a) := by
  rw [List.getLast?_cons]
  rcases front.getLast? with - | b <;> rfl

theorem checkFrom_eq_error_iff {index i : Nat} :
    checkFrom index previous? segment = .error (i, v) ↔
      ∃ front h back, segment = front ++ h :: back ∧ i = index + front.length ∧
        checkFrom index previous? front = .ok () ∧ Flaw (front.getLast?.or previous?) h v := by
  induction segment generalizing index previous? with
  | nil => simp [checkFrom]
  | cons a rest ih =>
    rcases passes : checkHeader previous? a with e | ⟨⟨⟩⟩
    · -- the first header is at fault, so no front but the empty one passes
      have flaw := checkHeader_eq_error_iff.mp passes
      rw [checkFrom, passes]
      constructor
      · intro failed
        cases failed
        exact ⟨[], a, rest, rfl, rfl, rfl, flaw⟩
      · rintro ⟨front, h, back, whole, rfl, clean, other⟩
        rcases front with - | ⟨b, front⟩
        · obtain ⟨rfl, -⟩ := List.cons.inj whole
          have here := checkHeader_eq_error_iff.mpr other
          cases passes.symm.trans here
          rfl
        · obtain ⟨rfl, -⟩ := List.cons.inj whole
          cases passes.symm.trans (checkFrom_cons_eq_ok_iff.mp clean).1
    · have step : checkFrom index previous? (a :: rest) = checkFrom (index + 1) (some a) rest := by
        rw [checkFrom, passes]
      rw [step, ih]
      constructor
      · rintro ⟨front, h, back, rfl, rfl, clean, flaw⟩
        refine ⟨a :: front, h, back, rfl, by rw [List.length_cons]; omega,
          checkFrom_cons_eq_ok_iff.mpr ⟨passes, clean⟩, ?_⟩
        rwa [getLast?_cons_or]
      · rintro ⟨front, h, back, whole, rfl, clean, flaw⟩
        rcases front with - | ⟨b, front⟩
        · obtain ⟨rfl, -⟩ := List.cons.inj whole
          cases passes.symm.trans (checkHeader_eq_error_iff.mpr flaw)
        · obtain ⟨rfl, rfl⟩ := List.cons.inj whole
          refine ⟨front, h, back, rfl, by rw [List.length_cons]; omega,
            (checkFrom_cons_eq_ok_iff.mp clean).2, ?_⟩
          rwa [getLast?_cons_or] at flaw

/-- **The check of a segment blames** the first header that is not sealed or does
not continue the one before it. -/
theorem check_eq_error_iff {i : Nat} :
    check segment = .error (i, v) ↔
      ∃ front h back, segment = front ++ h :: back ∧ i = front.length ∧ Coherent front ∧
        Flaw front.getLast? h v := by
  rw [check, checkFrom_eq_error_iff]
  simp only [Nat.zero_add, Option.or_none]
  exact exists₃_congr fun front h back => and_congr_right' (and_congr_right'
    (and_congr_left' check_eq_ok_iff_coherent))

end Segment

/-! ### Rules -/

namespace Retarget

/-- A header is a valid child of another: it continues it, is later, and has
exactly the difficulty that the adjustment calls for. -/
structure Valid (r : Retarget) (p h : Header) : Prop extends p.Continues h where
  later : p.timestamp < h.timestamp
  difficulty : r.required p h.timestamp = .ok h.difficulty

theorem Valid.precedes {r : Retarget} (valid : r.Valid p h) : p.Precedes h :=
  ⟨valid.number, valid.link, valid.later⟩

/-- What is wrong with a child, in the order in which it is looked for. -/
inductive Invalid (r : Retarget) (p h : Header) : Violation → Prop
  | unlinked {v : Violation} : p.Breaks h v → Invalid r p h v
  | early : p.Continues h → h.timestamp ≤ p.timestamp →
      Invalid r p h (.timestampNotIncreasing h.number h.timestamp p.timestamp)
  | difficulty {d : Difficulty} : p.Continues h → p.timestamp < h.timestamp →
      r.required p h.timestamp = .ok d → h.difficulty ≠ d →
      Invalid r p h (.difficultyMismatch h.number d h.difficulty)

variable {r : Retarget}

/-- Parameters in range can be divided by and negated. -/
theorem of_check (checked : r.check = .ok ()) :
    r.boundDivisor ≠ 0 ∧ r.durationLimit ≠ 0 ∧ 0 ≤ r.maxDecrease := by
  have holds {setting : Setting} {condition : Bool} {u : Unit}
      (passed : setting.ensure condition = .ok u) : condition = true := by
    unfold Setting.ensure at passed
    split at passed
    · assumption
    · cases passed
  unfold check at checked
  obtain ⟨_, divisor, checked⟩ := except_bind_eq_ok checked
  obtain ⟨_, limit, checked⟩ := except_bind_eq_ok checked
  obtain ⟨_, -, decrease⟩ := except_bind_eq_ok checked
  exact ⟨of_decide_eq_true (holds divisor), of_decide_eq_true (holds limit),
    of_decide_eq_true (holds decrease)⟩

/-- With parameters in range the adjustment always calls for some difficulty. -/
theorem exists_required (checked : r.check = .ok ()) (parent : Header) (timestamp : UInt64) :
    ∃ d, r.required parent timestamp = .ok d := by
  obtain ⟨divisor, limit, decrease⟩ := of_check checked
  have negatable : r.maxDecrease ≠ leastSigned := by
    unfold leastSigned
    omega
  unfold required adjustment
  rw [if_neg limit, if_neg negatable]
  show ∃ d, (if r.boundDivisor = 0 then _ else _) = _
  rw [if_neg divisor]
  exact ⟨_, rfl⟩

end Retarget

namespace Rule

variable {r : Retarget}

/-- Of a header that continues its parent the rule looks at the time next, -/
theorem retarget_of_early (continues : p.Continues h) (early : h.timestamp ≤ p.timestamp) :
    retarget r p h = .error (.timestampNotIncreasing h.number h.timestamp p.timestamp) := by
  unfold retarget
  rw [Header.follows_eq_ok_iff_continues.mpr continues]
  exact if_pos early

/-- and of one that is later at the difficulty. -/
theorem retarget_of_later {d : Difficulty} (continues : p.Continues h)
    (later : p.timestamp < h.timestamp) (required : r.required p h.timestamp = .ok d) :
    retarget r p h = if h.difficulty = d then .ok ()
      else .error (.difficultyMismatch h.number d h.difficulty) := by
  unfold retarget
  rw [Header.follows_eq_ok_iff_continues.mpr continues, required]
  exact if_neg (UInt64.not_le.mpr later)

theorem retarget_eq_ok_iff : retarget r p h = .ok () ↔ r.Valid p h := by
  constructor
  · intro ok
    obtain ⟨follows, later, difficulty⟩ := retarget_eq_ok ok
    exact ⟨Header.follows_eq_ok_iff_continues.mp follows, later, difficulty⟩
  · intro valid
    rw [retarget_of_later valid.toContinues valid.later valid.difficulty, if_pos rfl]

theorem retarget_eq_error_of_invalid (invalid : r.Invalid p h v) : retarget r p h = .error v := by
  cases invalid with
  | unlinked breaks =>
    unfold retarget
    rw [Header.follows_eq_error_iff.mpr breaks]
    rfl
  | early continues early => exact retarget_of_early continues early
  | difficulty continues later required other =>
    rw [retarget_of_later continues later required, if_neg other]

end Rule

/-- With parameters in range every child is valid or at fault. -/
theorem Retarget.valid_or_invalid {r : Retarget} (checked : r.check = .ok ()) (p h : Header) :
    r.Valid p h ∨ ∃ v, r.Invalid p h v := by
  obtain ⟨d, required⟩ := exists_required checked p h.timestamp
  rcases follows : p.follows h with v | ⟨⟨⟩⟩
  · exact .inr ⟨v, .unlinked (Header.follows_eq_error_iff.mp follows)⟩
  have continues := Header.follows_eq_ok_iff_continues.mp follows
  by_cases early : h.timestamp ≤ p.timestamp
  · exact .inr ⟨_, .early continues early⟩
  have later := UInt64.not_le.mp early
  by_cases same : h.difficulty = d
  · exact .inl ⟨continues, later, same ▸ required⟩
  · exact .inr ⟨_, .difficulty continues later required same⟩

namespace Chain

variable {r : Retarget} {index : Nat} {parent : Header} {headers front back : List Header}

/-- Headers obey the retarget rule if each is a valid child of the one before it. -/
theorem obey_retarget_eq_ok_iff :
    obey (.retarget r) index parent headers = .ok () ↔ (parent :: headers).IsChain r.Valid := by
  have same : (fun p h => Rule.retarget r p h = .ok ()) = r.Valid := by
    funext p h
    exact propext Rule.retarget_eq_ok_iff
  rw [obey_eq_ok_iff, same]

/-- The first header that is not a valid child of the one before it is blamed. -/
theorem obey_retarget_of_invalid (valid : (parent :: front).IsChain r.Valid)
    (invalid : r.Invalid (front.getLastD parent) h v) :
    obey (.retarget r) index parent (front ++ h :: back)
      = .error ⟨index + front.length, .validation v⟩ := by
  induction front generalizing index parent with
  | nil =>
    have blamed := Rule.retarget_eq_error_of_invalid invalid
    rw [List.getLastD_nil] at blamed
    rw [List.nil_append, obey, blamed]
    rfl
  | cons a front ih =>
    obtain ⟨first, valid⟩ := List.isChain_cons_cons.mp valid
    rw [List.getLastD_cons] at invalid
    have rest := @ih (index + 1) a valid invalid
    rw [List.cons_append, obey, Rule.retarget_eq_ok_iff.mpr first, List.length_cons,
      Nat.add_comm front.length, ← Nat.add_assoc]
    exact rest

/-- **Headers are valid one above the other, or there is a first that is not.** -/
theorem valid_or_first_invalid (checked : r.check = .ok ()) (parent : Header)
    (headers : List Header) :
    (parent :: headers).IsChain r.Valid ∨
      ∃ front h back v, headers = front ++ h :: back ∧ (parent :: front).IsChain r.Valid ∧
        r.Invalid (front.getLastD parent) h v := by
  induction headers generalizing parent with
  | nil => exact .inl (List.isChain_singleton parent)
  | cons a headers ih =>
    rcases r.valid_or_invalid checked parent a with first | ⟨v, invalid⟩
    · rcases ih a with valid | ⟨front, h, back, v, rfl, valid, invalid⟩
      · exact .inl (List.isChain_cons_cons.mpr ⟨first, valid⟩)
      · refine .inr ⟨a :: front, h, back, v, rfl, List.isChain_cons_cons.mpr ⟨first, valid⟩, ?_⟩
        rwa [List.getLastD_cons]
    · exact .inr ⟨[], a, headers, v, rfl, List.isChain_singleton parent, invalid⟩

end Chain

end ForkChoice
