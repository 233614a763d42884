/-
ForkChoice/Header/Row.lean

The stored form of a header: its fields one after another at fixed widths,
104 bytes in all, numbers with the least significant byte first.  A frozen
header is followed by the 16 bytes of its total difficulty.

Reading looks at the first 104 (or 120) bytes only and fails exactly on shorter
rows.  `ofRow?_row_append` says that what was written reads back, whatever
follows it.
-/
import ForkChoice.Header.Basic

namespace ForkChoice

namespace Bytes

/-- The bytes of a field that starts at `offset`. -/
def field (row : Bytes) (offset width : Nat) : Bytes :=
  (row.drop offset).take width

theorem length_field {row : Bytes} {offset width : Nat} (h : offset + width ≤ row.length) :
    (row.field offset width).length = width := by
  simp [field]; omega

theorem field_append_right {front row : Bytes} {offset width : Nat} (h : front.length ≤ offset) :
    (front ++ row).field offset width = row.field (offset - front.length) width := by
  simp [field, List.drop_append, List.drop_eq_nil_of_le h]

theorem field_append_left {row back : Bytes} (width : Nat) (h : row.length = width) :
    (row ++ back).field 0 width = row := by
  simp [field, ← h]

end Bytes

namespace Header

/-- The stored form of a header. -/
def row (h : Header) : Bytes :=
  Bytes.ofNatLE 8 h.number.toNat
    ++ (h.hash.bytes
    ++ (h.parentHash.bytes
    ++ (Bytes.ofNatLE 8 h.timestamp.toNat
    ++ (Bytes.ofNatLE 16 h.difficulty.toNat
    ++ Bytes.ofNatLE 8 h.nonce.toNat))))

/-- Read a stored header from the front of a byte string. -/
def ofRow? (bytes : Bytes) : Option Header :=
  if long : 104 ≤ bytes.length then
    some {
      number := UInt64.ofNat (bytes.field 0 8).toNatLE
      hash := ⟨bytes.field 8 32, Bytes.length_field (by omega)⟩
      parentHash := ⟨bytes.field 40 32, Bytes.length_field (by omega)⟩
      timestamp := UInt64.ofNat (bytes.field 72 8).toNatLE
      difficulty := .capped (bytes.field 80 16).toNatLE
      nonce := UInt64.ofNat (bytes.field 96 8).toNatLE }
  else none

@[simp] theorem length_row (h : Header) : h.row.length = 104 := by
  simp [row, h.hash.length_bytes, h.parentHash.length_bytes]

/-- Only rows that are too short cannot be read. -/
theorem ofRow?_eq_none_iff (bytes : Bytes) : ofRow? bytes = none ↔ bytes.length < 104 := by
  unfold ofRow?
  split <;> simp <;> omega

theorem toNatLE_ofNatLE_uint64 (n : UInt64) :
    UInt64.ofNat (Bytes.toNatLE (Bytes.ofNatLE 8 n.toNat)) = n := by
  rw [Bytes.toNatLE_ofNatLE 8 n.toNat (by have := n.toNat_lt; omega)]
  simp

theorem toNatLE_ofNatLE_difficulty (d : Difficulty) :
    Difficulty.capped (Bytes.toNatLE (Bytes.ofNatLE 16 d.toNat)) = d := by
  have := d.toNat_lt
  rw [Bytes.toNatLE_ofNatLE 16 d.toNat (by omega)]
  ext
  simp only [Difficulty.toNat_capped]
  omega

/-- A written header reads back, whatever follows it. -/
theorem ofRow?_row_append (h : Header) (rest : Bytes) : ofRow? (h.row ++ rest) = some h := by
  have hh := h.hash.length_bytes
  have hp := h.parentHash.length_bytes
  have long : 104 ≤ (h.row ++ rest).length := by simp
  simp only [ofRow?, long, dite_true, Option.some.injEq]
  have e0 : (h.row ++ rest).field 0 8 = Bytes.ofNatLE 8 h.number.toNat := by
    simp only [row, List.append_assoc]
    exact Bytes.field_append_left 8 (by simp)
  have e8 : (h.row ++ rest).field 8 32 = h.hash.bytes := by
    simp only [row, List.append_assoc]
    rw [Bytes.field_append_right (by simp)]
    simpa using Bytes.field_append_left 32 hh
  have e40 : (h.row ++ rest).field 40 32 = h.parentHash.bytes := by
    simp only [row, List.append_assoc]
    rw [Bytes.field_append_right (by simp), Bytes.field_append_right (by simp [hh])]
    simpa [hh] using Bytes.field_append_left 32 hp
  have e72 : (h.row ++ rest).field 72 8 = Bytes.ofNatLE 8 h.timestamp.toNat := by
    simp only [row, List.append_assoc]
    rw [Bytes.field_append_right (by simp), Bytes.field_append_right (by simp [hh]),
      Bytes.field_append_right (by simp [hh, hp])]
    simpa [hh, hp] using Bytes.field_append_left 8 (by simp)
  have e80 : (h.row ++ rest).field 80 16 = Bytes.ofNatLE 16 h.difficulty.toNat := by
    simp only [row, List.append_assoc]
    rw [Bytes.field_append_right (by simp), Bytes.field_append_right (by simp [hh]),
      Bytes.field_append_right (by simp [hh, hp]), Bytes.field_append_right (by simp [hh, hp])]
    simpa [hh, hp] using Bytes.field_append_left 16 (by simp)
  have e96 : (h.row ++ rest).field 96 8 = Bytes.ofNatLE 8 h.nonce.toNat := by
    simp only [row, List.append_assoc]
    rw [Bytes.field_append_right (by simp), Bytes.field_append_right (by simp [hh]),
      Bytes.field_append_right (by simp [hh, hp]), Bytes.field_append_right (by simp [hh, hp]),
      Bytes.field_append_right (by simp [hh, hp])]
    simpa [hh, hp] using Bytes.field_append_left 8 (by simp)
  ext1 <;> simp only [e0, e8, e40, e72, e80, e96, toNatLE_ofNatLE_uint64, toNatLE_ofNatLE_difficulty]

@[simp] theorem ofRow?_row (h : Header) : ofRow? h.row = some h := by
  simpa using ofRow?_row_append h []

end Header

/-! ### Frozen headers -/

/-- A canonical header together with its total difficulty, as the frozen tier
keeps it. -/
@[ext] structure Frozen where
  header : Header
  totalDifficulty : Difficulty
deriving DecidableEq, Inhabited

namespace Frozen

/-- The stored form of a frozen header. -/
def row (item : Frozen) : Bytes :=
  item.header.row ++ Bytes.ofNatLE 16 item.totalDifficulty.toNat

/-- Read a stored frozen header from the front of a byte string. -/
def ofRow? (bytes : Bytes) : Option Frozen :=
  if 120 ≤ bytes.length then
    (Header.ofRow? bytes).map fun header =>
      ⟨header, .capped (bytes.field 104 16).toNatLE⟩
  else none

/-- A written frozen header reads back, whatever follows it. -/
theorem ofRow?_row_append (item : Frozen) (rest : Bytes) :
    ofRow? (item.row ++ rest) = some item := by
  have long : 120 ≤ (item.row ++ rest).length := by simp [row]; omega
  have field : (item.row ++ rest).field 104 16
      = Bytes.ofNatLE 16 item.totalDifficulty.toNat := by
    simp only [row, List.append_assoc]
    rw [Bytes.field_append_right (by simp)]
    simpa using Bytes.field_append_left 16 (by simp)
  simp only [ofRow?, if_pos long, field, Header.toNatLE_ofNatLE_difficulty]
  simp [row, List.append_assoc, Header.ofRow?_row_append]

end Frozen

end ForkChoice
