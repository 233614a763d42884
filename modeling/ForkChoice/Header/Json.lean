/-
ForkChoice/Header/Json.lean

Headers in JSON: every field has to be given, numbers as integers in range and
hashes as arrays of 32 bytes.
-/
import ForkChoice.Header.Basic
import ForkChoice.Json.Reader
import ForkChoice.Json.Record

namespace ForkChoice

/-- Read a hash. -/
def Hash.ofJson? (value : Json) : Option Hash := do
  Hash.ofBytes? (← Json.bytes? value)

namespace Header

/-- Read a header. -/
def ofJson? (value : Json) : Option Header := do
  let names := ["number", "hash", "parent_hash", "timestamp", "difficulty", "nonce"]
  match ← Json.record? names value with
  | [some number, some hash, some parentHash, some timestamp, some difficulty, some nonce] =>
    return {
      number := ← Json.uint64? number
      hash := ← Hash.ofJson? hash
      parentHash := ← Hash.ofJson? parentHash
      timestamp := ← Json.uint64? timestamp
      difficulty := ← Json.difficulty? difficulty
      nonce := ← Json.uint64? nonce }
  | _ => none

/-- Read a header from a text. -/
def ofText? (text : String) : Option Header := Json.read? text >>= ofJson?

/-- The bytes of a hash as an array of numbers. -/
def hashText (h : Hash) : String :=
  "[" ++ ",".intercalate (h.bytes.map fun b => b.toNat.repr) ++ "]"

/-- Write a header without blanks. -/
def toText (h : Header) : String :=
  "\x7b\"number\":" ++ h.number.toNat.repr
    ++ ",\"hash\":" ++ hashText h.hash
    ++ ",\"parent_hash\":" ++ hashText h.parentHash
    ++ ",\"timestamp\":" ++ h.timestamp.toNat.repr
    ++ ",\"difficulty\":" ++ h.difficulty.toNat.repr
    ++ ",\"nonce\":" ++ h.nonce.toNat.repr ++ "\x7d"

end Header

end ForkChoice
