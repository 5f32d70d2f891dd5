/-!
# Lines and positions

A line ends at a line feed, and a carriage return right before the line feed belongs to the end of
the line. Positions count bytes: the row of an offset is the number of line feeds before it, and its
column the number of bytes since the last of them.
-/

namespace CommandWiring
namespace Text

section

variable {α : Type} [DecidableEq α]

/-- The parts between separators, with `current` what was already read of the first one, in
reverse. -/
def partsFrom (separator : α) (current : List α) : List α -> List (List α)
  | [] => [current.reverse]
  | c :: rest =>
      if c = separator then current.reverse :: partsFrom separator [] rest
      else partsFrom separator (c :: current) rest

/-- Splits at every `separator`; there is one part more than there are separators. -/
def splitAt (separator : α) (text : List α) : List (List α) :=
  partsFrom separator [] text

end

def dropCarriageReturn (line : List Char) : List Char :=
  if line.getLast? = some '\r' then line.dropLast else line

/-- The lines of `text`. A last line that is empty is no line, and a carriage return is only taken
off a line that a line feed ends. -/
def lines (text : String) : List String :=
  let parts := splitAt '\n' text.toList
  let ended := parts.dropLast.map fun line => String.ofList (dropCarriageReturn line)
  match parts.getLast? with
  | none => ended
  | some [] => ended
  | some last => ended ++ [String.ofList last]

/-!
# Rows and columns
-/

structure Position where
  row : Nat
  column : Nat
deriving DecidableEq, Repr

def bytes (text : String) : List UInt8 :=
  text.toUTF8.data.toList

def lineFeed : UInt8 := 10

/-- The position of the offset `byte` in a text with the bytes `bytes`. -/
def positionOf (bytes : List UInt8) (byte : Nat) : Position :=
  let before := bytes.take byte
  { row := before.count lineFeed
    column := (before.reverse.takeWhile fun b => b != lineFeed).length }

end Text
end CommandWiring
