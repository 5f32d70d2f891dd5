import CommandWiring.Digest.Words

/-!
# MD5

The digest of a text of bytes in sixteen bytes. The bytes are padded to blocks of sixty-four, and
every block is mixed into a state of four words in sixty-four steps.
-/

namespace CommandWiring
namespace Digest
namespace MD5

structure State where
  a : UInt32
  b : UInt32
  c : UInt32
  d : UInt32
deriving DecidableEq, Repr

def initial : State where
  a := 0x67452301
  b := 0xefcdab89
  c := 0x98badcfe
  d := 0x10325476

/-- The additive constants: the whole part of `2 ^ 32` times the sine of the number of the step,
without its sign. -/
def sines : Vector UInt32 64 :=
  #v[
    0xd76aa478, 0xe8c7b756, 0x242070db, 0xc1bdceee,
    0xf57c0faf, 0x4787c62a, 0xa8304613, 0xfd469501,
    0x698098d8, 0x8b44f7af, 0xffff5bb1, 0x895cd7be,
    0x6b901122, 0xfd987193, 0xa679438e, 0x49b40821,
    0xf61e2562, 0xc040b340, 0x265e5a51, 0xe9b6c7aa,
    0xd62f105d, 0x02441453, 0xd8a1e681, 0xe7d3fbc8,
    0x21e1cde6, 0xc33707d6, 0xf4d50d87, 0x455a14ed,
    0xa9e3e905, 0xfcefa3f8, 0x676f02d9, 0x8d2a4c8a,
    0xfffa3942, 0x8771f681, 0x6d9d6122, 0xfde5380c,
    0xa4beea44, 0x4bdecfa9, 0xf6bb4b60, 0xbebfbc70,
    0x289b7ec6, 0xeaa127fa, 0xd4ef3085, 0x04881d05,
    0xd9d4d039, 0xe6db99e5, 0x1fa27cf8, 0xc4ac5665,
    0xf4292244, 0x432aff97, 0xab9423a7, 0xfc93a039,
    0x655b59c3, 0x8f0ccc92, 0xffeff47d, 0x85845dd1,
    0x6fa87e4f, 0xfe2ce6e0, 0xa3014314, 0x4e0811a1,
    0xf7537e82, 0xbd3af235, 0x2ad7d2bb, 0xeb86d391]

/-- How far the steps of each round rotate; a round repeats its four amounts four times. -/
def rotations : Vector UInt32 16 :=
  #v[7, 12, 17, 22, 5, 9, 14, 20, 4, 11, 16, 23, 6, 10, 15, 21]

/-- The bitwise function of the round of `step`. -/
def select (step : Fin 64) (b c d : UInt32) : UInt32 :=
  match step.val / 16 with
  | 0 => (b &&& c) ||| (~~~b &&& d)
  | 1 => (d &&& b) ||| (~~~d &&& c)
  | 2 => b ^^^ c ^^^ d
  | _ => c ^^^ (b ||| ~~~d)

def modSixteen (n : Nat) : Fin 16 :=
  ⟨n % 16, Nat.mod_lt n (by decide)⟩

def wordIndex (step : Fin 64) : Fin 16 :=
  match step.val / 16 with
  | 0 => modSixteen step.val
  | 1 => modSixteen (5 * step.val + 1)
  | 2 => modSixteen (3 * step.val + 5)
  | _ => modSixteen (7 * step.val)

def rotationOf (step : Fin 64) : UInt32 :=
  rotations[modSixteen (4 * (step.val / 16) + step.val % 4)]

def advance (block : Vector UInt32 16) (state : State) (step : Fin 64) : State :=
  let sum := state.a + select step state.b state.c state.d + sines[step] + block[wordIndex step]
  { a := state.d
    b := state.b + rotateLeft sum (rotationOf step)
    c := state.b
    d := state.c }

def absorb (state : State) (block : Vector UInt32 16) : State :=
  let final := (List.finRange 64).foldl (advance block) state
  { a := state.a + final.a
    b := state.b + final.b
    c := state.c + final.c
    d := state.d + final.d }

/-- The bytes behind a message of `length` bytes: one bit, zeros up to the last eight bytes of a
block, and the length of the message in bits. -/
def padding (length : Nat) : List UInt8 :=
  0x80 :: (List.replicate ((119 - length % 64) % 64) 0 ++ littleEndian 8 (8 * length))

def digest (message : List UInt8) : List UInt8 :=
  let blocks := chunksOf 64 (message ++ padding message.length)
  let final := (blocks.map blockWords).foldl absorb initial
  [final.a, final.b, final.c, final.d].flatMap fun word => littleEndian 4 word.toNat

def hex (text : String) : String :=
  hexOf (digest text.toUTF8.toList)

end MD5
end Digest
end CommandWiring
