/-!
# Slices of a text

A slice takes the bytes between two offsets of a text in UTF-8. A slice that splits a character is
no text; where some text is needed all the same, each broken part of a character is read as U+FFFD.
-/

namespace CommandWiring
namespace Text

/-- The text between the byte offsets `start` and `stop`, if both are offsets of `text` at which a
character begins or the text ends. -/
def slice? (text : String) (start stop : Nat) : Option String :=
  if start ≤ stop ∧ stop ≤ text.utf8ByteSize then
    String.fromUTF8? (text.toUTF8.extract start stop)
  else
    none

theorem slice?_append (before text after : String) :
    slice? (before ++ text ++ after) before.utf8ByteSize
      (before.utf8ByteSize + text.utf8ByteSize) = some text := by
  have cut : (before ++ text ++ after).toUTF8.extract before.utf8ByteSize
      (before.utf8ByteSize + text.utf8ByteSize) = text.toByteArray := by
    rw [String.toUTF8_eq_toByteArray, String.toByteArray_append, String.toByteArray_append,
      ByteArray.append_assoc, ← String.size_toByteArray, ← String.size_toByteArray]
    exact (ByteArray.extract_append_size_add (i := 0)).trans (ByteArray.extract_append_eq_left rfl)
  have inside : before.utf8ByteSize ≤ before.utf8ByteSize + text.utf8ByteSize ∧
      before.utf8ByteSize + text.utf8ByteSize ≤ (before ++ text ++ after).utf8ByteSize := by
    rw [String.utf8ByteSize_append, String.utf8ByteSize_append]
    exact ⟨Nat.le_add_right _ _, Nat.le_add_right _ _⟩
  rw [slice?, if_pos inside, cut, String.fromUTF8?, dif_pos text.isValidUTF8]
  rfl

/-!
# Broken characters

A broken part is the longest run of bytes that begins a character and does not complete it, or else
a single byte.
-/

def replacement : Char := '\uFFFD'

def isContinuation (b : UInt8) : Bool :=
  0x80 ≤ b && b ≤ 0xBF

/-- How many bytes a character with the first byte `b` has; zero if none begins with it. -/
def expectedLength (b : UInt8) : Nat :=
  if b < 0x80 then 1
  else if 0xC2 ≤ b && b ≤ 0xDF then 2
  else if 0xE0 ≤ b && b ≤ 0xEF then 3
  else if 0xF0 ≤ b && b ≤ 0xF4 then 4
  else 0

/-- Whether `second` can follow the first byte `first` of a character of several bytes. -/
def admitsSecond (first second : UInt8) : Bool :=
  if first = 0xE0 then 0xA0 ≤ second && second ≤ 0xBF
  else if first = 0xED then 0x80 ≤ second && second ≤ 0x9F
  else if first = 0xF0 then 0x90 ≤ second && second ≤ 0xBF
  else if first = 0xF4 then 0x80 ≤ second && second ≤ 0x8F
  else isContinuation second

/-- The number of bytes after `first` that belong to a broken part. -/
def brokenTail (first : UInt8) (rest : List UInt8) : Nat :=
  match expectedLength first, rest with
  | 0, _ => 0
  | 1, _ => 0
  | _, [] => 0
  | length, second :: more =>
      if admitsSecond first second then
        1 + ((more.take (length - 2)).takeWhile isContinuation).length
      else 0

def decodeLossyFrom (bytes : ByteArray) (offset : Nat) : List Char :=
  if inside : offset < bytes.size then
    match bytes.utf8DecodeChar? offset with
    | some c =>
        c :: decodeLossyFrom bytes (offset + c.utf8Size)
    | none =>
        let rest := (bytes.extract (offset + 1) (offset + 4)).toList
        replacement :: decodeLossyFrom bytes (offset + 1 + brokenTail bytes[offset] rest)
  else
    []
termination_by bytes.size - offset
decreasing_by
  · have := c.utf8Size_pos
    omega
  · omega

/-- The text written by `bytes`, with U+FFFD for every broken part. -/
def decodeLossy (bytes : ByteArray) : String :=
  match String.fromUTF8? bytes with
  | some text => text
  | none => String.ofList (decodeLossyFrom bytes 0)

/-- The text between two byte offsets of `text`, read with `decodeLossy`. It is empty unless the
first offset lies inside `text` and the second does not lie behind its end. -/
def sliceLossy (text : String) (start stop : Nat) : String :=
  if start < text.utf8ByteSize ∧ stop ≤ text.utf8ByteSize then
    decodeLossy (text.toUTF8.extract start stop)
  else
    ""

end Text
end CommandWiring
