/-!
# Bytes and words

Messages are cut into blocks of bytes, and a block of sixty-four bytes is read as sixteen words of
thirty-two bits, the lowest byte of a word first.
-/

namespace CommandWiring
namespace Digest

def chunksOf (size : Nat) (items : List α) : List (List α) :=
  match size, items with
  | 0, _ => []
  | _, [] => []
  | size + 1, first :: rest =>
      (first :: rest.take size) :: chunksOf (size + 1) (rest.drop size)
termination_by items.length
decreasing_by
  simp only [List.length_drop, List.length_cons]
  omega

def rotateLeft (word : UInt32) (amount : UInt32) : UInt32 :=
  (word <<< amount) ||| (word >>> (32 - amount))

def rotateRight (word : UInt32) (amount : UInt32) : UInt32 :=
  rotateLeft word (32 - amount)

def ofLittleEndian : List UInt8 -> Nat
  | [] => 0
  | first :: rest => first.toNat + 256 * ofLittleEndian rest

def littleEndian : Nat -> Nat -> List UInt8
  | 0, _ => []
  | count + 1, n => UInt8.ofNat n :: littleEndian count (n / 256)

def blockWords (block : List UInt8) : Vector UInt32 16 :=
  let bytes := block.toArray
  Vector.ofFn fun index =>
    let start := 4 * index.val
    UInt32.ofNat (ofLittleEndian
      [bytes.getD start 0, bytes.getD (start + 1) 0, bytes.getD (start + 2) 0,
        bytes.getD (start + 3) 0])

def hexDigit (n : Nat) : Char :=
  if n < 10 then Char.ofNat ('0'.toNat + n) else Char.ofNat ('a'.toNat + (n - 10))

/-- Two lower case digits for every byte. -/
def hexOf (bytes : List UInt8) : String :=
  String.ofList (bytes.flatMap fun b => [hexDigit (b.toNat / 16), hexDigit (b.toNat % 16)])

end Digest
end CommandWiring
