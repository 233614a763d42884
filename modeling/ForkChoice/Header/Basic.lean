/-
ForkChoice/Header/Basic.lean

Block headers, the digest of their contents, and sealed headers.

A header carries its own hash beside the contents that the hash covers:
height, parent hash, timestamp, difficulty and nonce.  `contents` writes those
in 72 bytes, `digest` is the BLAKE3 hash of them, and a header is sealed if the
hash it carries is that digest.  `sealWith` makes sealed headers (`isSealed_sealWith`).

`line` and `listing` show a header to people, with its hashes cut to their first four
bytes and without the nonce.
-/
import ForkChoice.Blake3
import ForkChoice.Difficulty
import ForkChoice.Hash
import ForkChoice.Outcome

namespace ForkChoice

/-- The header of a block.  The timestamp counts seconds. -/
@[ext] structure Header where
  number : UInt64
  hash : Hash
  parentHash : Hash
  timestamp : UInt64
  difficulty : Difficulty
  nonce : UInt64
deriving DecidableEq, Inhabited

namespace Header

/-! ### The hash of a header -/

/-- What the hash of a header covers: height, parent hash, timestamp,
difficulty and nonce, numbers with the least significant byte first. -/
def contents (h : Header) : Bytes :=
  Bytes.ofNatLE 8 h.number.toNat
    ++ h.parentHash.bytes
    ++ Bytes.ofNatLE 8 h.timestamp.toNat
    ++ Bytes.ofNatLE 16 h.difficulty.toNat
    ++ Bytes.ofNatLE 8 h.nonce.toNat

/-- The hash that the contents of a header call for. -/
def digest (h : Header) : Hash := ⟨Blake3.digest h.contents, Blake3.length_digest _⟩

/-- The header carries the hash of its contents. -/
def isSealed (h : Header) : Bool := h.hash = h.digest

/-- Give the header the hash of its contents. -/
def reseal (h : Header) : Header := { h with hash := h.digest }

/-! ### Making sealed headers -/

/-- The sealed header with the given contents. -/
def sealWith (number : UInt64) (parentHash : Hash) (timestamp : UInt64) (difficulty : Difficulty)
    (nonce : UInt64) : Header :=
  reseal ⟨number, .zero, parentHash, timestamp, difficulty, nonce⟩

/-- The genesis: height and nonce zero, and the zero hash in place of a parent. -/
def genesis (timestamp : UInt64) (difficulty : Difficulty) : Header :=
  sealWith 0 .zero timestamp difficulty 0

/-- The height above, unless the header has the greatest height there is. -/
def nextNumber? (h : Header) : Option UInt64 :=
  if h.number.toNat + 1 < 2 ^ 64 then some (h.number + 1) else none

/-- A sealed child of a header. -/
def child (parent : Header) (timestamp : UInt64) (difficulty : Difficulty) (nonce : UInt64) :
    Checked Header :=
  match parent.nextNumber? with
  | some number => .ok (sealWith number parent.hash timestamp difficulty nonce)
  | none => .error .heightOverflow

/-! ### Text -/

/-- The fields that are shown, each with its text. -/
def shownFields (h : Header) : List (String × String) :=
  [ ("number", h.number.toNat.repr),
    ("hash", "\"" ++ h.hash.short ++ "\""),
    ("parent", "\"" ++ h.parentHash.short ++ "\""),
    ("timestamp", h.timestamp.toNat.repr),
    ("difficulty", h.difficulty.toNat.repr) ]

/-- A header on one line. -/
def line (h : Header) : String :=
  "Header \x7b " ++ ", ".intercalate (h.shownFields.map fun (name, text) => name ++ ": " ++ text)
    ++ " \x7d"

/-- A header with every field on a line of its own, indented and ended with a
comma. -/
def listing (h : Header) : String :=
  "Header \x7b\n"
    ++ String.join (h.shownFields.map fun (name, text) => "    " ++ name ++ ": " ++ text ++ ",\n")
    ++ "\x7d"

/-! ### Facts -/

@[simp] theorem length_contents (h : Header) : h.contents.length = 72 := by
  simp [contents, h.parentHash.length_bytes]

/-- The digest does not depend on the hash that the header carries. -/
@[simp] theorem digest_reseal (h : Header) : h.reseal.digest = h.digest := rfl

@[simp] theorem isSealed_reseal (h : Header) : h.reseal.isSealed = true := by
  simp [isSealed, reseal, digest, contents]

theorem isSealed_sealWith (number : UInt64) (parentHash : Hash) (timestamp : UInt64)
    (difficulty : Difficulty) (nonce : UInt64) :
    (sealWith number parentHash timestamp difficulty nonce).isSealed = true :=
  isSealed_reseal _

end Header

end ForkChoice
