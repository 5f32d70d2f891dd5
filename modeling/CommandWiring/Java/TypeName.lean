import CommandWiring.Text.Blank

/-!
# Simple type names

The simple name of a written type is the last segment of its qualified name, without type arguments
and array brackets.
-/

namespace CommandWiring
namespace Java

/-!
# Classes of characters

Outside ASCII every character that is not white space can stand in a name.
-/

def startsName (c : Char) : Bool :=
  c.isAlpha || c == '_' || c == '$' || (c.toNat ≥ 0x80 && !Text.isBlank c)

def continuesName (c : Char) : Bool :=
  startsName c || c.isDigit

/-!
# Simple names
-/

/-- Takes pairs of array brackets off the front of a reversed text. -/
def dropBracketsReversed : List Char -> List Char
  | ']' :: '[' :: rest => dropBracketsReversed rest
  | text => text

def dropBrackets (text : List Char) : List Char :=
  (dropBracketsReversed text.reverse).reverse

def lastSegment (text : List Char) : List Char :=
  (text.reverse.takeWhile (· != '.')).reverse

def simpleNameChars (text : List Char) : List Char :=
  let base := Text.trim (text.takeWhile (· != '<'))
  Text.trim (lastSegment (Text.trim (dropBrackets base)))

def simpleTypeName (text : String) : String :=
  String.ofList (simpleNameChars text.toList)

end Java
end CommandWiring
