/-!
# White space

The characters with the Unicode property `White_Space`, and the operations on texts that depend on
them. There are twenty-five such characters, and none of them lies outside the basic plane.
-/

namespace CommandWiring
namespace Text

def isBlank (c : Char) : Bool :=
  let n := c.toNat
  (9 ≤ n && n ≤ 13) || n == 0x20 || n == 0x85 || n == 0xA0 || n == 0x1680 ||
    (0x2000 ≤ n && n ≤ 0x200A) || n == 0x2028 || n == 0x2029 || n == 0x202F || n == 0x205F ||
    n == 0x3000

/-!
# Trimming

Trimming takes the longest run of white space off each end.
-/

def trimStart (text : List Char) : List Char :=
  text.dropWhile isBlank

def trimEnd (text : List Char) : List Char :=
  (text.reverse.dropWhile isBlank).reverse

def trim (text : List Char) : List Char :=
  trimEnd (trimStart text)

/-!
# Words

A word is a longest run of characters that are not white space.
-/

/-- The words of `text`, with `current` the part already read of the first one, in reverse. -/
def wordsFrom (current : List Char) : List Char -> List (List Char)
  | [] => if current.isEmpty then [] else [current.reverse]
  | c :: rest =>
      if isBlank c then
        if current.isEmpty then wordsFrom [] rest else current.reverse :: wordsFrom [] rest
      else
        wordsFrom (c :: current) rest

def words (text : List Char) : List (List Char) :=
  wordsFrom [] text

/-- The words of `text` on one line, cut after `limit` characters and then marked by three dots. -/
def excerpt (limit : Nat) (text : String) : String :=
  let flat := (words text.toList).intersperse [' '] |>.flatten
  if flat.length > limit then String.ofList (flat.take limit ++ ['.', '.', '.'])
  else String.ofList flat

end Text
end CommandWiring
