/-! The BLAKE3 fingerprint of a text. A text is cut into chunks of 1024 bytes,
each chunk is compressed block by block to a chaining value, and the values are
combined pairwise in the unique tree whose left subtrees are complete. -/
namespace KindLift

/-- Eight words: the value passed from one compression to the next, and the
fingerprint itself. -/
structure Digest where
  words : Vector UInt32 8
deriving DecidableEq

namespace Digest

/-- The words every chain starts from. -/
def initial : Vector UInt32 8 :=
  #v[0x6A09E667, 0xBB67AE85, 0x3C6EF372, 0xA54FF53A, 0x510E527F, 0x9B05688C, 0x1F83D9AB, 0x5BE0CD19]

/-- The flags that separate the uses of the compression function. -/
def chunkStart : UInt32 := 1
def chunkEnd : UInt32 := 2
def parent : UInt32 := 4
def root : UInt32 := 8

def rotateRight (word : UInt32) (count : UInt32) : UInt32 :=
  (word >>> count) ||| (word <<< (32 - count))

/-- Mixes two message words into one column or diagonal of the state. -/
def mix (state : Vector UInt32 16) (a b c d : Fin 16) (x y : UInt32) : Vector UInt32 16 :=
  let a₁ := state[a] + state[b] + x
  let d₁ := rotateRight (state[d] ^^^ a₁) 16
  let c₁ := state[c] + d₁
  let b₁ := rotateRight (state[b] ^^^ c₁) 12
  let a₂ := a₁ + b₁ + y
  let d₂ := rotateRight (d₁ ^^^ a₂) 8
  let c₂ := c₁ + d₂
  let b₂ := rotateRight (b₁ ^^^ c₂) 7
  (((state.set a a₂).set b b₂).set c c₂).set d d₂

/-- The columns, then the diagonals. -/
def mixAll (state block : Vector UInt32 16) : Vector UInt32 16 :=
  let s := mix state 0 4 8 12 block[0] block[1]
  let s := mix s 1 5 9 13 block[2] block[3]
  let s := mix s 2 6 10 14 block[4] block[5]
  let s := mix s 3 7 11 15 block[6] block[7]
  let s := mix s 0 5 10 15 block[8] block[9]
  let s := mix s 1 6 11 12 block[10] block[11]
  let s := mix s 2 7 8 13 block[12] block[13]
  mix s 3 4 9 14 block[14] block[15]

/-- The order in which the next round takes the message words. -/
def permute (block : Vector UInt32 16) : Vector UInt32 16 :=
  #v[block[2], block[6], block[3], block[10], block[7], block[0], block[4], block[13],
     block[1], block[11], block[12], block[5], block[9], block[14], block[15], block[8]]

/-- The given number of rounds, permuting the message between them. -/
def rounds : Nat → Vector UInt32 16 → Vector UInt32 16 → Vector UInt32 16
  | 0, state, _ => state
  | n + 1, state, block => rounds n (mixAll state block) (permute block)

/-- Compresses one block of at most 64 bytes into the chaining value. -/
def compress (chain : Vector UInt32 8) (block : Vector UInt32 16) (counter : Nat)
    (size flags : UInt32) : Vector UInt32 8 :=
  let state : Vector UInt32 16 :=
    #v[chain[0], chain[1], chain[2], chain[3], chain[4], chain[5], chain[6], chain[7],
       initial[0], initial[1], initial[2], initial[3],
       counter.toUInt32, (counter / 4294967296).toUInt32, size, flags]
  let final := rounds 7 state block
  Vector.ofFn fun i => final[i.val] ^^^ final[i.val + 8]

/-- Cuts a list into pieces of `size + 1` elements; the last may be shorter. -/
def pieces (size : Nat) (items : List α) : List (List α) :=
  match items with
  | [] => []
  | item :: rest => (item :: rest.take size) :: pieces size (rest.drop size)
termination_by items.length

/-- The word made of four bytes, least significant first; absent bytes are zero. -/
def wordAt (bytes : Array UInt8) (index : Nat) : UInt32 :=
  let byte (i : Nat) : UInt32 := (bytes.getD (4 * index + i) 0).toUInt32
  byte 0 ||| (byte 1 <<< 8) ||| (byte 2 <<< 16) ||| (byte 3 <<< 24)

/-- A block as message words, filled with zeros. -/
def blockWords (bytes : List UInt8) : Vector UInt32 16 :=
  let array := bytes.toArray
  Vector.ofFn fun i => wordAt array i.val

/-- Compresses the blocks of one chunk in order. -/
def chainBlocks (counter : Nat) (lastFlags : UInt32) :
    UInt32 → Vector UInt32 8 → List (List UInt8) → Vector UInt32 8
  | _, chain, [] => chain
  | flags, chain, [block] =>
    compress chain (blockWords block) counter block.length.toUInt32 (flags ||| chunkEnd ||| lastFlags)
  | flags, chain, block :: blocks =>
    chainBlocks counter lastFlags 0
      (compress chain (blockWords block) counter block.length.toUInt32 flags) blocks

/-- The chaining value of a chunk; an empty chunk has one empty block. -/
def ofChunk (counter : Nat) (lastFlags : UInt32) (bytes : List UInt8) : Vector UInt32 8 :=
  chainBlocks counter lastFlags chunkStart initial (if bytes.isEmpty then [[]] else pieces 63 bytes)

/-- Two subtrees under one node. -/
def join (flags : UInt32) (left right : Vector UInt32 8) : Vector UInt32 8 :=
  compress initial (left ++ right) 0 64 (parent ||| flags)

/-- The number of leaves of the left subtree over `count` leaves: the largest
power of two below `count`. -/
def leftLeaves (count : Nat) : Nat := Nat.pow 2 (count - 1).log2

theorem leftLeaves_pos (count : Nat) : 0 < leftLeaves count := Nat.two_pow_pos _

theorem leftLeaves_lt {count : Nat} (several : 2 ≤ count) : leftLeaves count < count :=
  Nat.lt_of_le_of_lt (Nat.log2_self_le (by omega)) (by omega)

/-- The value of the tree over the given leaves. -/
def tree (flags : UInt32) (leaves : List (Vector UInt32 8)) : Vector UInt32 8 :=
  match leaves with
  | [] => initial
  | [leaf] => leaf
  | first :: second :: rest =>
    let all := first :: second :: rest
    let half := leftLeaves all.length
    join flags (tree 0 (all.take half)) (tree 0 (all.drop half))
termination_by leaves.length
decreasing_by
  · have := @leftLeaves_lt (first :: second :: rest).length (by simp)
    rw [List.length_take]
    omega
  · have := leftLeaves_pos (first :: second :: rest).length
    simp only [List.length_drop, List.length_cons] at *
    omega

/-- The fingerprint of a byte sequence. -/
def ofBytes (bytes : List UInt8) : Digest :=
  match pieces 1023 bytes with
  | [] => ⟨ofChunk 0 root []⟩
  | [chunk] => ⟨ofChunk 0 root chunk⟩
  | chunks => ⟨tree root (chunks.mapIdx fun index chunk => ofChunk index 0 chunk)⟩

/-- The fingerprint of the UTF-8 form of a text. -/
def ofText (text : String) : Digest := ofBytes text.toUTF8.data.toList

/-- Two lower-case digits for a byte. -/
def hexByte (byte : Nat) : List Char :=
  [Nat.digitChar (byte / 16 % 16), Nat.digitChar (byte % 16)]

/-- The 64 hexadecimal digits of the fingerprint. -/
def render (digest : Digest) : String :=
  String.ofList (digest.words.toList.flatMap fun word =>
    (List.range 4).flatMap fun i => hexByte (word.toNat / Nat.pow 256 i % 256))

end Digest
end KindLift
