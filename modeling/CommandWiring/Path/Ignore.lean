import CommandWiring.Path.Basic
import CommandWiring.Text.Blank

/-!
# Ignore patterns

A pattern that ends in a slash names a whole segment of a path. A pattern that begins with a star
names an ending. Any other pattern names a part of the path. Backslashes in a path count as slashes.
-/

namespace CommandWiring
namespace Path

inductive IgnorePattern where
  | segment (name : List Char)
  | ending (text : List Char)
  | part (text : List Char)
deriving DecidableEq, Repr

namespace IgnorePattern

def ofChars (pattern : List Char) : IgnorePattern :=
  if pattern.getLast? = some '/' then .segment pattern.dropLast
  else
    match pattern with
    | '*' :: text => .ending text
    | text => .part text

def startsWith : List Char -> List Char -> Bool
  | [], _ => true
  | _ :: _, [] => false
  | expected :: wanted, c :: text => expected == c && startsWith wanted text

def containsPart (wanted : List Char) : List Char -> Bool
  | [] => wanted.isEmpty
  | c :: text => startsWith wanted (c :: text) || containsPart wanted text

def covers (pattern : IgnorePattern) (path : List Char) : Bool :=
  match pattern with
  | .segment name => (Text.splitAt '/' path).contains name
  | .ending text => startsWith text.reverse path.reverse
  | .part text => containsPart text path

end IgnorePattern

def isIgnored (patterns : List String) (path : String) : Bool :=
  patterns.any fun pattern =>
    (IgnorePattern.ofChars pattern.toList).covers (slashed path).toList

/-!
# Lists of patterns

One pattern stands on a line, without the white space around it. Empty lines and lines that begin
with a hash give no pattern.
-/

def ignoreFileName : String :=
  ".binderlensignore"

def ignorePatterns (content : String) : List String :=
  (((Text.lines content).map fun line => Text.trim line.toList).filter fun line =>
    !line.isEmpty && line.head? != some '#').map String.ofList

end Path
end CommandWiring
