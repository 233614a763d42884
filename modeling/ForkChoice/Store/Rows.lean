/-
ForkChoice/Store/Rows.lean

The stored rows: five tables of byte strings, and what the rows of each mean.

* `headers`: hash to stored header;
* `totals`: hash to total difficulty, 16 bytes, most significant first;
* `numbers`: hash to height, 8 bytes, most significant first;
* `canonical`: height, written in the same way, to the canonical hash;
* `metadata`: the two head pointers, each a hash under a name.

Heights are keys with the most significant byte first, so that the order of
keys is the order of heights.  A row of the wrong form is an error of its
reader, never taken for an absent row.
-/
import ForkChoice.Header.Row
import ForkChoice.Store.Tier
import Std.Data.ExtTreeMap

namespace ForkChoice

/-! ### Errors -/

/-- What the store can be found to lack. -/
inductive Missing where
  | canonicalHash (number : UInt64)
  | header (hash : Hash)
  | total (hash : Hash)
deriving DecidableEq

/-- Why a stored row cannot be read. -/
inductive RowError where
  /-- A number or hash with the wrong count of bytes. -/
  | width (what : String) (got want : Nat)
  /-- A header that ends too early. -/
  | short
deriving DecidableEq

/-- Why the store does not do what it is asked. -/
inductive StoreError where
  | row (cause : RowError)
  | missing (what : Missing)
  | tier (cause : TierError)
  /-- A canonical entry changed while its header was being frozen. -/
  | canonicalMoved (number : UInt64)
deriving DecidableEq

/-- The text that names a missing row. -/
def Missing.message : Missing → String
  | canonicalHash number => "canonical hash #" ++ number.toNat.repr
  | header hash => "header " ++ hash.hex
  | total hash => "td " ++ hash.hex

/-- The text of an unreadable row. -/
def RowError.message : RowError → String
  | width what got want => what ++ " has " ++ got.repr ++ " bytes, want " ++ want.repr
  | short => "io error: unexpected end of file"

/-- The text of an error of the store. -/
def StoreError.message : StoreError → String
  | row cause => "serialization error: " ++ cause.message
  | missing what => "key not found: " ++ what.message
  | tier cause => "ancient store error: " ++ cause.message
  | canonicalMoved number => "canonical #" ++ number.toNat.repr ++ " changed while freezing"

/-! ### Keys and values -/

/-- The key or value that stands for a height. -/
def heightRow (number : UInt64) : Bytes := Bytes.ofNatBE 8 number.toNat

/-- The value that stands for a total difficulty. -/
def totalRow (total : Difficulty) : Bytes := Bytes.ofNatBE 16 total.toNat

/-- Read a height. -/
def readHeight (bytes : Bytes) : Except StoreError UInt64 :=
  if bytes.length = 8 then .ok (UInt64.ofNat bytes.toNatBE)
  else .error (.row (.width "height" bytes.length 8))

/-- Read a total difficulty. -/
def readTotal (bytes : Bytes) : Except StoreError Difficulty :=
  if bytes.length = 16 then .ok (.capped bytes.toNatBE)
  else .error (.row (.width "td" bytes.length 16))

/-- Read a hash. -/
def readHash (bytes : Bytes) : Except StoreError Hash :=
  match Hash.ofBytes? bytes with
  | some hash => .ok hash
  | none => .error (.row (.width "hash" bytes.length 32))

/-- Read a header. -/
def readHeader (bytes : Bytes) : Except StoreError Header :=
  match Header.ofRow? bytes with
  | some h => .ok h
  | none => .error (.row .short)

@[simp] theorem readHeight_heightRow (n : UInt64) : readHeight (heightRow n) = .ok n := by
  have := n.toNat_lt
  simp [readHeight, heightRow, Bytes.toNatBE_ofNatBE 8 n.toNat (by omega)]

@[simp] theorem readTotal_totalRow (d : Difficulty) : readTotal (totalRow d) = .ok d := by
  have := d.toNat_lt
  have e : Difficulty.capped d.toNat = d := by
    ext
    simp only [Difficulty.toNat_capped]
    omega
  simp [readTotal, totalRow, Bytes.toNatBE_ofNatBE 16 d.toNat (by omega), e]

@[simp] theorem readHash_bytes (h : Hash) : readHash h.bytes = .ok h := by
  simp [readHash]

@[simp] theorem readHeader_row (h : Header) : readHeader h.row = .ok h := by
  simp [readHeader]

/-! ### Tables -/

/-- A table of rows, in the order of their keys. -/
abbrev Table : Type := Std.ExtTreeMap Bytes Bytes

/-- The row under a key, read. -/
def Table.read? {α : Type} (table : Table) (key : Bytes) (read : Bytes → Except StoreError α) :
    Except StoreError (Option α) :=
  match table[key]? with
  | none => .ok none
  | some bytes => (read bytes).map some

/-- The five tables. -/
structure Rows where
  headers : Table := ∅
  totals : Table := ∅
  numbers : Table := ∅
  canonical : Table := ∅
  metadata : Table := ∅

instance : Inhabited Rows := ⟨{}⟩

namespace Rows

/-- The name of the pointer to the head block. -/
def headBlockKey : Bytes := "head_block".toList.map fun c => c.toNat.toUInt8

/-- The name of the pointer to the head header. -/
def headHeaderKey : Bytes := "head_header".toList.map fun c => c.toNat.toUInt8

/-! ### Reading rows -/

/-- The header stored under a hash. -/
def header? (rows : Rows) (hash : Hash) : Except StoreError (Option Header) :=
  rows.headers.read? hash.bytes readHeader

/-- The total difficulty stored under a hash. -/
def total? (rows : Rows) (hash : Hash) : Except StoreError (Option Difficulty) :=
  rows.totals.read? hash.bytes readTotal

/-- The height stored under a hash. -/
def number? (rows : Rows) (hash : Hash) : Except StoreError (Option UInt64) :=
  rows.numbers.read? hash.bytes readHeight

/-- The hash stored under a height. -/
def canonicalHash? (rows : Rows) (number : UInt64) : Except StoreError (Option Hash) :=
  rows.canonical.read? (heightRow number) readHash

/-- The hash of the head block. -/
def headBlock? (rows : Rows) : Except StoreError (Option Hash) :=
  rows.metadata.read? headBlockKey readHash

/-- The hash of the head header. -/
def headHeader? (rows : Rows) : Except StoreError (Option Hash) :=
  rows.metadata.read? headHeaderKey readHash

/-- The number of stored headers. -/
def size (rows : Rows) : Nat := rows.headers.size

end Rows

end ForkChoice
