/-
ForkChoice/Hash.lean

Hashes: the 32 bytes that name a header.
-/
import ForkChoice.Bytes

namespace ForkChoice

/-- A name of 32 bytes. -/
@[ext] structure Hash where
  bytes : Bytes
  length_bytes : bytes.length = 32
deriving DecidableEq

namespace Hash

/-- The hash of which every byte is the same. -/
def filled (byte : UInt8) : Hash := ⟨List.replicate 32 byte, by simp⟩

/-- All bytes zero: the parent hash of a genesis. -/
def zero : Hash := filled 0

instance : Inhabited Hash := ⟨zero⟩

/-- A byte string as a hash, if it has 32 bytes. -/
def ofBytes? (bytes : Bytes) : Option Hash :=
  if h : bytes.length = 32 then some ⟨bytes, h⟩ else none

/-- All 32 bytes in hexadecimal. -/
def hex (h : Hash) : String := Bytes.hex h.bytes

/-- The first four bytes in hexadecimal, by which messages name a header. -/
def short (h : Hash) : String := Bytes.hex (h.bytes.take 4)

@[simp] theorem ofBytes?_bytes (h : Hash) : ofBytes? h.bytes = some h := by
  simp [ofBytes?, h.length_bytes]

theorem ofBytes?_eq_some {bytes : Bytes} {h : Hash} :
    ofBytes? bytes = some h ↔ bytes = h.bytes := by
  constructor
  · intro e
    unfold ofBytes? at e
    split at e
    · cases e; rfl
    · cases e
  · rintro rfl
    exact ofBytes?_bytes h

end Hash

end ForkChoice
