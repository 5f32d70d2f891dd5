import CommandWiring.Digest.Words

/-!
# BLAKE3

The digest of a text of bytes in thirty-two bytes. The message is cut into chunks, every chunk is
compressed block by block, and the results are joined pairwise in a binary tree whose left part is
the largest complete one.
-/

namespace CommandWiring
namespace Digest
namespace BLAKE3

abbrev Chaining := Vector UInt32 8

def initial : Chaining :=
  #v[0x6a09e667, 0xbb67ae85, 0x3c6ef372, 0xa54ff53a, 0x510e527f, 0x9b05688c, 0x1f83d9ab, 0x5be0cd19]

def chunkLength : Nat := 1024
def chunkStart : UInt32 := 1
def chunkEnd : UInt32 := 2
def parentNode : UInt32 := 4
def rootNode : UInt32 := 8

/-!
# Compression
-/

def mix (v : Vector UInt32 16) (a b c d : Fin 16) (x y : UInt32) : Vector UInt32 16 :=
  let va := v[a] + v[b] + x
  let vd := rotateRight (v[d] ^^^ va) 16
  let vc := v[c] + vd
  let vb := rotateRight (v[b] ^^^ vc) 12
  let va := va + vb + y
  let vd := rotateRight (vd ^^^ va) 8
  let vc := vc + vd
  let vb := rotateRight (vb ^^^ vc) 7
  (((v.set a va).set b vb).set c vc).set d vd

def round (v m : Vector UInt32 16) : Vector UInt32 16 :=
  let v := mix v 0 4 8 12 m[0] m[1]
  let v := mix v 1 5 9 13 m[2] m[3]
  let v := mix v 2 6 10 14 m[4] m[5]
  let v := mix v 3 7 11 15 m[6] m[7]
  let v := mix v 0 5 10 15 m[8] m[9]
  let v := mix v 1 6 11 12 m[10] m[11]
  let v := mix v 2 7 8 13 m[12] m[13]
  mix v 3 4 9 14 m[14] m[15]

def permutation : Vector (Fin 16) 16 :=
  #v[2, 6, 3, 10, 7, 0, 4, 13, 1, 11, 12, 5, 9, 14, 15, 8]

def permute (m : Vector UInt32 16) : Vector UInt32 16 :=
  permutation.map fun index => m[index]

def rounds : Nat -> Vector UInt32 16 -> Vector UInt32 16 -> Vector UInt32 16
  | 0, v, _ => v
  | count + 1, v, m => rounds count (round v m) (permute m)

structure Block where
  chaining : Chaining
  words : Vector UInt32 16
  counter : Nat
  length : Nat
  flags : UInt32

def Block.compress (block : Block) : Chaining :=
  let h := block.chaining
  let start : Vector UInt32 16 :=
    #v[h[0], h[1], h[2], h[3], h[4], h[5], h[6], h[7],
      initial[0], initial[1], initial[2], initial[3],
      UInt32.ofNat block.counter, UInt32.ofNat (block.counter >>> 32), UInt32.ofNat block.length,
      block.flags]
  let v := rounds 7 start block.words
  Vector.ofFn fun index => v[Fin.castAdd 8 index] ^^^ v[Fin.natAdd 8 index]

/-!
# Chunks
-/

/-- The last block of a chunk, after the blocks before it have been compressed. -/
def chunkBlock (counter : Nat) : Chaining -> UInt32 -> List (List UInt8) -> Block
  | chaining, flags, [] =>
      { chaining := chaining, words := blockWords [], counter := counter, length := 0
        flags := flags ||| chunkEnd }
  | chaining, flags, [last] =>
      { chaining := chaining, words := blockWords last, counter := counter, length := last.length
        flags := flags ||| chunkEnd }
  | chaining, flags, first :: rest =>
      let block : Block :=
        { chaining := chaining, words := blockWords first, counter := counter
          length := first.length, flags := flags }
      chunkBlock counter block.compress 0 rest

def ofChunk (counter : Nat) (bytes : List UInt8) : Block :=
  chunkBlock counter initial chunkStart (chunksOf 64 bytes)

/-!
# The tree
-/

def joined (left right : Chaining) : Block where
  chaining := initial
  words := left ++ right
  counter := 0
  length := 64
  flags := parentNode

/-- The largest power of two below `n`, for `n` at least two. -/
def leftSize (n : Nat) : Nat :=
  1 <<< Nat.log2 (n - 1)

theorem leftSize_lt {n : Nat} (h : 2 ≤ n) : leftSize n < n := by
  have := Nat.log2_self_le (n := n - 1) (by omega)
  rw [leftSize, Nat.one_shiftLeft]
  omega

theorem leftSize_pos (n : Nat) : 0 < leftSize n := by
  rw [leftSize, Nat.one_shiftLeft]
  exact Nat.two_pow_pos _

/-- The last block of the tree over `chunks`, the first of which has the number `counter`. -/
def ofChunks (counter : Nat) (chunks : List (List UInt8)) : Block :=
  match chunks with
  | [] => ofChunk counter []
  | [chunk] => ofChunk counter chunk
  | first :: second :: rest =>
      let all := first :: second :: rest
      let size := leftSize all.length
      joined (ofChunks counter (all.take size)).compress
        (ofChunks (counter + size) (all.drop size)).compress
termination_by chunks.length
decreasing_by
  · have := leftSize_lt (n := (first :: second :: rest).length) (by simp)
    simp only [List.length_take]
    omega
  · have := leftSize_pos (first :: second :: rest).length
    simp only [List.length_drop]
    simp only [List.length_cons] at this ⊢
    omega

def digest (message : List UInt8) : List UInt8 :=
  let last := ofChunks 0 (chunksOf chunkLength message)
  let words := { last with flags := last.flags ||| rootNode }.compress
  words.toList.flatMap fun word => littleEndian 4 word.toNat

def hex (text : String) : String :=
  hexOf (digest text.toUTF8.toList)

end BLAKE3
end Digest
end CommandWiring
