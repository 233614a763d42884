/-
ForkChoice/Proofs/Layout.lean

Where the fields of a header stand in its bytes.

The digits of a number in base 256 are spelled least significant first
(`Bytes.Spells`).  `Header.LaidOut` and `Frozen.LaidOut` say where the fields
stand in a stored row, and `Header.Covers` where they stand in what the hash of
a header covers.  Nothing else stands there, so each layout fits one header only
and the fields put together are the bytes again.

Reading a row finds the header that is laid out at its front and fails only
where the row is too short (`rows_lossless`).  What a hash covers belongs to one
header, so a sealed header is known by its hash, as long as no two different
contents have the same digest (`eq_or_collision_of_isSealed`).
-/
import ForkChoice.Header.Row

namespace ForkChoice

/-! ### Digits -/

namespace Bytes

variable {bytes : Bytes} {offset width m n : Nat}

/-- From `offset` on stand the last `width` digits of `n` in base 256, the least
significant first. -/
def Spells (bytes : Bytes) (offset width n : Nat) : Prop :=
  ∀ i < width, bytes[offset + i]?.map UInt8.toNat = some (n / 256 ^ i % 256)

theorem getElem?_ofNatLE (n : Nat) {i width : Nat} (inside : i < width) :
    (ofNatLE width n)[i]? = some (n / 256 ^ i).toUInt8 := by
  induction width generalizing n i with
  | zero => cases inside
  | succ width ih =>
    rcases i with - | i
    · simp [ofNatLE]
    · rw [ofNatLE, List.getElem?_cons_succ, ih _ (Nat.lt_of_succ_lt_succ inside),
        Nat.div_div_eq_div_mul, Nat.pow_succ']

theorem getElem?_field (bytes : Bytes) (offset width i : Nat) :
    (bytes.field offset width)[i]? = if i < width then bytes[offset + i]? else none := by
  rw [field, List.getElem?_take, List.getElem?_drop]

/-- Neighbouring fields make up one field. -/
theorem field_append_field (bytes : Bytes) (offset width more : Nat) :
    bytes.field offset width ++ bytes.field (offset + width) more
      = bytes.field offset (width + more) := by
  simp only [field, List.take_add, List.drop_drop]

/-- The digits of a number are what it is written as. -/
theorem spells_iff : bytes.Spells offset width n ↔ bytes.field offset width = ofNatLE width n := by
  constructor
  · intro spells
    apply List.ext_getElem?
    intro i
    rw [getElem?_field]
    split
    · rename_i inside
      obtain ⟨digit, at_i, value⟩ := Option.map_eq_some_iff.mp (spells i inside)
      rw [at_i, getElem?_ofNatLE n inside]
      exact congrArg some (UInt8.toNat_inj.mp (value.trans (toNat_toUInt8 _).symm))
    · rename_i outside
      exact (List.getElem?_eq_none (by simpa using outside)).symm
  · intro same i inside
    have at_i := getElem?_field bytes offset width i
    rw [same, getElem?_ofNatLE n inside, if_pos inside] at at_i
    rw [← at_i, Option.map_some, toNat_toUInt8]

/-- A field spells the number that it is read as, -/
theorem spells_toNatLE_field (inside : offset + width ≤ bytes.length) :
    bytes.Spells offset width (bytes.field offset width).toNatLE := by
  have written := ofNatLE_toNatLE (bytes.field offset width)
  rw [length_field inside] at written
  exact spells_iff.mpr written.symm

theorem toNatLE_field_lt (inside : offset + width ≤ bytes.length) :
    (bytes.field offset width).toNatLE < 256 ^ width := by
  have small := toNatLE_lt (bytes.field offset width)
  rwa [length_field inside] at small

/-- which fits into 64 bits if the field has eight bytes, -/
theorem spells_uint64_field (inside : offset + 8 ≤ bytes.length) :
    bytes.Spells offset 8 (UInt64.ofNat (bytes.field offset 8).toNatLE).toNat := by
  rw [UInt64.toNat_ofNat_of_lt' (toNatLE_field_lt inside)]
  exact spells_toNatLE_field inside

/-- and is a difficulty if it has sixteen. -/
theorem spells_difficulty_field (inside : offset + 16 ≤ bytes.length) :
    bytes.Spells offset 16 (Difficulty.capped (bytes.field offset 16).toNatLE).toNat := by
  rw [Difficulty.toNat_capped, Nat.min_eq_left (Nat.le_sub_one_of_lt (toNatLE_field_lt inside))]
  exact spells_toNatLE_field inside

/-- Digits spell one number of their width only. -/
theorem Spells.unique (first : bytes.Spells offset width m) (second : bytes.Spells offset width n)
    (m_lt : m < 256 ^ width) (n_lt : n < 256 ^ width) : m = n := by
  rw [← toNatLE_ofNatLE width m m_lt, ← spells_iff.mp first, spells_iff.mp second,
    toNatLE_ofNatLE width n n_lt]

theorem Spells.uint64_unique {m n : UInt64} (first : bytes.Spells offset 8 m.toNat)
    (second : bytes.Spells offset 8 n.toNat) : m = n :=
  UInt64.toNat_inj.mp (first.unique second m.toNat_lt n.toNat_lt)

theorem Spells.difficulty_unique {m n : Difficulty} (first : bytes.Spells offset 16 m.toNat)
    (second : bytes.Spells offset 16 n.toNat) : m = n :=
  Difficulty.ext (first.unique second m.toNat_lt n.toNat_lt)

/-- Digits can only stand where there are bytes. -/
theorem Spells.le_length (spells : bytes.Spells offset (width + 1) n) :
    offset + (width + 1) ≤ bytes.length := by
  obtain ⟨digit, last, -⟩ := Option.map_eq_some_iff.mp (spells width (Nat.lt_succ_self width))
  exact (List.getElem?_eq_some_iff.mp last).1

end Bytes

/-! ### Stored headers -/

/-- Writing and reading in so many bytes lose nothing.  What is written reads back
whatever follows it; reading fails on shorter byte strings only; and what is read
is written again as the bytes it was read from. -/
structure Lossless {α : Type} (width : Nat) (write : α → Bytes) (read? : Bytes → Option α) :
    Prop where
  read_write : ∀ a rest, read? (write a ++ rest) = some a
  read_iff : ∀ bytes, (read? bytes).isSome ↔ width ≤ bytes.length
  write_read : ∀ bytes a, read? bytes = some a → write a = bytes.take width

namespace Header

variable {a b h : Header} {bytes : Bytes}

/-- The fields of a header stand one after the other at the front. -/
structure LaidOut (h : Header) (bytes : Bytes) : Prop where
  number : bytes.Spells 0 8 h.number.toNat
  hash : bytes.field 8 32 = h.hash.bytes
  parentHash : bytes.field 40 32 = h.parentHash.bytes
  timestamp : bytes.Spells 72 8 h.timestamp.toNat
  difficulty : bytes.Spells 80 16 h.difficulty.toNat
  nonce : bytes.Spells 96 8 h.nonce.toNat

/-- One header only is laid out in a byte string. -/
theorem LaidOut.unique (first : a.LaidOut bytes) (second : b.LaidOut bytes) : a = b :=
  Header.ext (first.number.uint64_unique second.number)
    (Hash.ext (first.hash.symm.trans second.hash))
    (Hash.ext (first.parentHash.symm.trans second.parentHash))
    (first.timestamp.uint64_unique second.timestamp)
    (first.difficulty.difficulty_unique second.difficulty)
    (first.nonce.uint64_unique second.nonce)

/-- The fields of a header that is laid out make up its row. -/
theorem LaidOut.row_eq (laid : h.LaidOut bytes) : h.row = bytes.take 104 := by
  rw [row, ← Bytes.spells_iff.mp laid.number, ← laid.hash, ← laid.parentHash,
    ← Bytes.spells_iff.mp laid.timestamp, ← Bytes.spells_iff.mp laid.difficulty,
    ← Bytes.spells_iff.mp laid.nonce]
  -- each field ends where the next one starts; they are joined from the back
  rw [bytes.field_append_field 80 16 8, bytes.field_append_field 72 8 24,
    bytes.field_append_field 40 32 32, bytes.field_append_field 8 32 64,
    bytes.field_append_field 0 8 96]
  rfl

theorem laidOut_of_ofRow? (found : ofRow? bytes = some h) : h.LaidOut bytes := by
  unfold ofRow? at found
  split at found
  · cases found
    exact ⟨Bytes.spells_uint64_field (by omega), rfl, rfl, Bytes.spells_uint64_field (by omega),
      Bytes.spells_difficulty_field (by omega), Bytes.spells_uint64_field (by omega)⟩
  · cases found

/-- **A row is read as the header that is laid out in it.** -/
theorem ofRow?_eq_some_iff : ofRow? bytes = some h ↔ h.LaidOut bytes := by
  refine ⟨laidOut_of_ofRow?, fun laid => ?_⟩
  rcases found : ofRow? bytes with - | h'
  · have short := (ofRow?_eq_none_iff bytes).mp found
    exact absurd laid.nonce.le_length (Nat.not_le.mpr short)
  · rw [(laidOut_of_ofRow? found).unique laid]

theorem isSome_ofRow? (bytes : Bytes) : (ofRow? bytes).isSome ↔ 104 ≤ bytes.length := by
  rw [Option.isSome_iff_ne_none, ne_eq, ofRow?_eq_none_iff, Nat.not_lt]

theorem lossless_row : Lossless 104 row ofRow? where
  read_write := ofRow?_row_append
  read_iff := isSome_ofRow?
  write_read _ _ found := (ofRow?_eq_some_iff.mp found).row_eq

end Header

/-! ### Frozen headers -/

namespace Frozen

variable {item : Frozen} {bytes : Bytes}

/-- The total difficulty stands behind the header. -/
structure LaidOut (item : Frozen) (bytes : Bytes) : Prop where
  header : item.header.LaidOut bytes
  totalDifficulty : bytes.Spells 104 16 item.totalDifficulty.toNat

/-- A frozen header that is laid out makes up its row. -/
theorem LaidOut.row_eq (laid : item.LaidOut bytes) : item.row = bytes.take 120 := by
  rw [row, laid.header.row_eq, ← Bytes.spells_iff.mp laid.totalDifficulty]
  exact bytes.field_append_field 0 104 16

/-- A row is read as the frozen header that is laid out in it. -/
theorem ofRow?_eq_some_iff : ofRow? bytes = some item ↔ item.LaidOut bytes := by
  unfold ofRow?
  constructor
  · intro found
    split at found
    · obtain ⟨h, read, rfl⟩ := Option.map_eq_some_iff.mp found
      exact ⟨Header.ofRow?_eq_some_iff.mp read, Bytes.spells_difficulty_field (by omega)⟩
    · cases found
  · intro laid
    have long : 120 ≤ bytes.length := laid.totalDifficulty.le_length
    have total := (Bytes.spells_difficulty_field long).difficulty_unique laid.totalDifficulty
    rw [if_pos long, Header.ofRow?_eq_some_iff.mpr laid.header, Option.map_some, total]

theorem isSome_ofRow? (bytes : Bytes) : (ofRow? bytes).isSome ↔ 120 ≤ bytes.length := by
  unfold ofRow?
  split
  · rename_i long
    rw [Option.isSome_map, Header.isSome_ofRow?]
    exact iff_of_true (Nat.le_trans (by decide) long) long
  · rename_i short
    exact iff_of_false Bool.false_ne_true short

theorem lossless_row : Lossless 120 row ofRow? where
  read_write := ofRow?_row_append
  read_iff := isSome_ofRow?
  write_read _ _ found := (ofRow?_eq_some_iff.mp found).row_eq

end Frozen

/-- **Stored rows lose nothing**, neither of a header nor of a frozen header, and
what a row is read as is what is laid out in it field by field. -/
theorem rows_lossless :
    Lossless 104 Header.row Header.ofRow? ∧ Lossless 120 Frozen.row Frozen.ofRow? ∧
      (∀ (h : Header) (bytes : Bytes), Header.ofRow? bytes = some h ↔ h.LaidOut bytes) ∧
      ∀ (item : Frozen) (bytes : Bytes), Frozen.ofRow? bytes = some item ↔ item.LaidOut bytes :=
  ⟨Header.lossless_row, Frozen.lossless_row, fun _ _ => Header.ofRow?_eq_some_iff,
    fun _ _ => Frozen.ofRow?_eq_some_iff⟩

/-! ### What a hash covers -/

namespace Header

variable {a b h : Header} {bytes : Bytes}

/-- The fields that the hash of a header covers, one after the other and nothing
else. -/
structure Covers (h : Header) (bytes : Bytes) : Prop where
  length : bytes.length = 72
  number : bytes.Spells 0 8 h.number.toNat
  parentHash : bytes.field 8 32 = h.parentHash.bytes
  timestamp : bytes.Spells 40 8 h.timestamp.toNat
  difficulty : bytes.Spells 48 16 h.difficulty.toNat
  nonce : bytes.Spells 64 8 h.nonce.toNat

/-- The fields that are covered make up the contents. -/
theorem Covers.contents_eq (covers : h.Covers bytes) : h.contents = bytes := by
  rw [contents, ← Bytes.spells_iff.mp covers.number, ← covers.parentHash,
    ← Bytes.spells_iff.mp covers.timestamp, ← Bytes.spells_iff.mp covers.difficulty,
    ← Bytes.spells_iff.mp covers.nonce]
  rw [bytes.field_append_field 0 8 32, bytes.field_append_field 0 40 8,
    bytes.field_append_field 0 48 16, bytes.field_append_field 0 64 8]
  exact List.take_of_length_le (Nat.le_of_eq covers.length)

/-- The contents of a header are what its hash covers. -/
theorem covers_contents (h : Header) : h.Covers h.contents := by
  -- every part has a fixed length, so what stands before a field can be dropped
  have parent := h.parentHash.length_bytes
  refine ⟨h.length_contents, Bytes.spells_iff.mpr ?_, ?_, Bytes.spells_iff.mpr ?_,
    Bytes.spells_iff.mpr ?_, Bytes.spells_iff.mpr ?_⟩
  all_goals
    simp [contents, Bytes.field, List.drop_append, List.drop_eq_nil_of_le,
      List.take_of_length_le, parent]

theorem contents_eq_iff : h.contents = bytes ↔ h.Covers bytes :=
  ⟨fun same => same ▸ h.covers_contents, Covers.contents_eq⟩

/-- The fields of a header that its hash covers are those of another. -/
structure SameFields (a b : Header) : Prop where
  number : a.number = b.number
  parentHash : a.parentHash = b.parentHash
  timestamp : a.timestamp = b.timestamp
  difficulty : a.difficulty = b.difficulty
  nonce : a.nonce = b.nonce

/-- A byte string is covered by one choice of the fields only. -/
theorem Covers.sameFields (first : a.Covers bytes) (second : b.Covers bytes) : a.SameFields b where
  number := first.number.uint64_unique second.number
  parentHash := Hash.ext (first.parentHash.symm.trans second.parentHash)
  timestamp := first.timestamp.uint64_unique second.timestamp
  difficulty := first.difficulty.difficulty_unique second.difficulty
  nonce := first.nonce.uint64_unique second.nonce

/-- **What a hash covers is written without loss.** -/
theorem contents_eq_contents_iff : a.contents = b.contents ↔ a.SameFields b := by
  constructor
  · intro same
    exact (contents_eq_iff.mp same).sameFields b.covers_contents
  · intro same
    simp only [contents, same.number, same.parentHash, same.timestamp, same.difficulty, same.nonce]

/-- **A sealed header is known by its hash**, unless two different contents have
the same digest.  What a hash covers is written without loss, each field at its
place. -/
theorem eq_or_collision_of_isSealed :
    (∀ (h : Header) (bytes : Bytes), h.contents = bytes ↔ h.Covers bytes) ∧
      (∀ a b : Header, a.contents = b.contents ↔ a.SameFields b) ∧
      ∀ a b : Header, a.isSealed → b.isSealed → a.hash = b.hash →
        a = b ∨ a.contents ≠ b.contents ∧ Blake3.digest a.contents = Blake3.digest b.contents := by
  refine ⟨fun _ _ => contents_eq_iff, fun _ _ => contents_eq_contents_iff,
    fun a b sealed_a sealed_b same => ?_⟩
  by_cases contents : a.contents = b.contents
  · -- the hash is the one field that is not covered, and it is the same
    have fields := contents_eq_contents_iff.mp contents
    exact .inl (Header.ext fields.number same fields.parentHash fields.timestamp
      fields.difficulty fields.nonce)
  · have digest_a : a.hash = a.digest := of_decide_eq_true sealed_a
    have digest_b : b.hash = b.digest := of_decide_eq_true sealed_b
    rw [digest_a, digest_b] at same
    exact .inr ⟨contents, congrArg Hash.bytes same⟩

/-- A child of a genesis, and what it is after its hash was lost and it was sealed
again. -/
theorem eq_or_collision_of_isSealed_reseal :
    let a := sealWith 1 (genesis 1000 131072).hash 1005 131136 7
    let b := reseal { a with hash := .filled 238 }
    a.isSealed ∧ b.isSealed ∧ a.hash = b.hash ∧
      (a = b ∨ a.contents ≠ b.contents ∧
        Blake3.digest a.contents = Blake3.digest b.contents) := by
  intro a b
  have sealed_a : a.isSealed := isSealed_sealWith ..
  have sealed_b : b.isSealed := isSealed_reseal _
  -- the digest does not look at the hash
  have same : a.hash = b.hash := rfl
  exact ⟨sealed_a, sealed_b, same, eq_or_collision_of_isSealed.2.2 a b sealed_a sealed_b same⟩

end Header

end ForkChoice
