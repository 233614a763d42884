/-
ForkChoice/Blake3.lean

The BLAKE3 hash of a byte string, 32 bytes long.

The message is cut into chunks of 1024 bytes and these into blocks of 64.  The
blocks of a chunk are compressed one after another, each keyed with the result
of the one before.  Neighbouring chunks are then joined in pairs, level by
level, a last odd one moving up unchanged, until one node is left; its
compression with the root flag is the digest (`digest`, `length_digest`).
-/
import ForkChoice.Bytes

namespace ForkChoice.Blake3

/-! ### Words and compression -/

/-- Eight words: a chaining value. -/
abbrev Key : Type := Vector UInt32 8

/-- Sixteen words: a message block, or the state of a compression. -/
abbrev Block : Type := Vector UInt32 16

/-- The key of an unkeyed hash. -/
def initialKey : Key :=
  #v[0x6A09E667, 0xBB67AE85, 0x3C6EF372, 0xA54FF53A, 0x510E527F, 0x9B05688C, 0x1F83D9AB, 0x5BE0CD19]

/-- Where each word of a block comes from in the next round. -/
def permutation : Vector (Fin 16) 16 :=
  #v[2, 6, 3, 10, 7, 0, 4, 13, 1, 11, 12, 5, 9, 14, 15, 8]

/-- Rotate a word to the right by fewer than 32 places. -/
def rotateRight (word count : UInt32) : UInt32 :=
  (word >>> count) ||| (word <<< (32 - count))

/-- Mix two message words into four words of the state. -/
def mix (s : Block) (a b c d : Fin 16) (x y : UInt32) : Block :=
  let a₁ := s[a] + s[b] + x
  let d₁ := rotateRight (s[d] ^^^ a₁) 16
  let c₁ := s[c] + d₁
  let b₁ := rotateRight (s[b] ^^^ c₁) 12
  let a₂ := a₁ + b₁ + y
  let d₂ := rotateRight (d₁ ^^^ a₂) 8
  let c₂ := c₁ + d₂
  let b₂ := rotateRight (b₁ ^^^ c₂) 7
  (((s.set a a₂).set b b₂).set c c₂).set d d₂

/-- One round: the four columns of the state, then its four diagonals. -/
def round (m s : Block) : Block :=
  let s := mix s 0 4 8 12 m[0] m[1]
  let s := mix s 1 5 9 13 m[2] m[3]
  let s := mix s 2 6 10 14 m[4] m[5]
  let s := mix s 3 7 11 15 m[6] m[7]
  let s := mix s 0 5 10 15 m[8] m[9]
  let s := mix s 1 6 11 12 m[10] m[11]
  let s := mix s 2 7 8 13 m[12] m[13]
  mix s 3 4 9 14 m[14] m[15]

/-- Rounds with the message permuted between them. -/
def rounds : Nat → Block → Block → Block
  | 0, _, s => s
  | n + 1, m, s => rounds n (permutation.map fun i => m[i]) (round m s)

/-- Compress a block of `length` bytes under a key: seven rounds, and the two
halves of the state joined. -/
def compress (key : Key) (block : Block) (counter : UInt64) (length flags : UInt32) : Key :=
  let start : Block := key ++ #v[initialKey[0], initialKey[1], initialKey[2], initialKey[3],
    counter.toUInt32, (counter >>> 32).toUInt32, length, flags]
  let s := rounds 7 block start
  Vector.ofFn fun i : Fin 8 => s[i.val] ^^^ s[i.val + 8]

/-! ### The tree of chunks -/

/-- The flags of a compression: first or last block of its chunk, a node that
joins two others, the root of the tree. -/
def chunkStart : UInt32 := 1
def chunkEnd : UInt32 := 2
def joins : UInt32 := 4
def isRoot : UInt32 := 8

/-- A compression still to be run: its result is a chaining value, or the
digest if the node is the root. -/
structure Node where
  key : Key
  block : Block
  counter : UInt64
  length : UInt32
  flags : UInt32

/-- The chaining value of a node below the root. -/
def Node.value (n : Node) : Key :=
  compress n.key n.block n.counter n.length n.flags

/-- The digest words of the root. -/
def Node.rootValue (n : Node) : Key :=
  compress n.key n.block n.counter n.length (n.flags ||| isRoot)

/-- The sixteen words of at most 64 bytes, filled up with zeros. -/
def blockOf (bytes : Bytes) : Block :=
  Vector.ofFn fun i : Fin 16 => (Bytes.toNatLE ((bytes.drop (4 * i.val)).take 4)).toUInt32

/-- Cut a byte string into pieces of `size` bytes, the last of them possibly
shorter; the empty string is one empty piece. -/
def pieces (size : Nat) (bytes : Bytes) : List Bytes :=
  (List.range (max 1 ((bytes.length + size - 1) / size))).map fun i =>
    (bytes.drop (size * i)).take size

/-- Chain the blocks of a chunk: all but the last are compressed on the way,
and the last is left as a node. -/
def chain (counter : UInt64) (key : Key) (start : UInt32) : Bytes → List Bytes → Node
  | last, [] => ⟨key, blockOf last, counter, last.length.toUInt32, start ||| chunkEnd⟩
  | block, next :: rest =>
    let key := compress key (blockOf block) counter block.length.toUInt32 start
    chain counter key 0 next rest

/-- The node of one chunk. -/
def chunkNode (counter : UInt64) (chunk : Bytes) : Node :=
  match pieces 64 chunk with
  | [] => chain counter initialKey chunkStart [] []
  | first :: rest => chain counter initialKey chunkStart first rest

/-- The node above two neighbours. -/
def join (left right : Node) : Node :=
  ⟨initialKey, left.value ++ right.value, 0, 64, joins⟩

/-- Join neighbours in pairs; a last odd node stays as it is. -/
def joinPairs : List Node → List Node
  | left :: right :: rest => join left right :: joinPairs rest
  | nodes => nodes

/-- Join a row of nodes, one after another, until one is left.  `levels`
bounds the height of the tree. -/
def root : (levels : Nat) → Node → List Node → Node
  | 0, first, _ => first
  | _ + 1, first, [] => first
  | levels + 1, first, next :: rest => root levels (join first next) (joinPairs rest)

/-- The root of the tree over a message. -/
def rootOf (message : Bytes) : Node :=
  match (pieces 1024 message).zipIdx.map fun (chunk, i) => chunkNode i.toUInt64 chunk with
  | [] => chunkNode 0 []
  | first :: rest => root rest.length first rest

/-- The BLAKE3 digest of a message. -/
def digest (message : Bytes) : Bytes :=
  (rootOf message).rootValue.toList.flatMap fun word => Bytes.ofNatLE 4 word.toNat

/-- A digest has 32 bytes. -/
theorem length_digest (message : Bytes) : (digest message).length = 32 := by
  simp [digest, List.length_flatMap, List.map_const']

end ForkChoice.Blake3
