import CommandWiring.Java.Document
import CommandWiring.Java.TypeName

/-!
# Lexemes of Java

A source text is cut into pieces: runs of white space, comments, and lexemes. The pieces in order
make up the text. A string is several lexemes, because its fragments and escapes count one by one,
and because it can have code inside. How a text is cut at some place depends on the strings and the
interpolations that are open there.
-/

namespace CommandWiring
namespace Java

inductive LexemeKind where
  | word
  | number
  | character
  | quote
  | textQuote
  | fragment
  | textFragment
  | escape
  /-- An escape in a text block that does not count. -/
  | bareEscape
  | symbol
deriving DecidableEq, Repr

structure Lexeme where
  kind : LexemeKind
  text : List Char
deriving DecidableEq, Repr

inductive CommentKind where
  | line
  | block
deriving DecidableEq, Repr

inductive Piece where
  | blank (text : List Char)
  | comment (kind : CommentKind) (text : List Char)
  | lexeme (unit : Lexeme)
deriving DecidableEq, Repr

def Piece.text : Piece -> List Char
  | blank text => text
  | comment _ text => text
  | lexeme unit => unit.text

def Piece.segment : Piece -> Segment
  | blank text => .gap text
  | comment _ text => .leaf text
  | lexeme unit => .leaf unit.text

def byteOrderMark : Char := '\uFEFF'

/-!
# Comments
-/

def throughCommentEnd? (before : List Char) : List Char -> Option (List Char × List Char)
  | '*' :: '/' :: rest => some (('/' :: '*' :: before).reverse, rest)
  | c :: rest => throughCommentEnd? (c :: before) rest
  | [] => none

def comment? (text : List Char) : Option (CommentKind × List Char × List Char) :=
  match text with
  | '/' :: '/' :: _ =>
      let inLine (c : Char) : Bool := c != '\n'
      some (.line, text.takeWhile inLine, text.dropWhile inLine)
  | '/' :: '*' :: rest =>
      (throughCommentEnd? ['*', '/'] rest).map fun (text, rest) => (.block, text, rest)
  | _ => none

/-!
# Numbers

A number runs over letters, digits, underscores and dots, and over a sign right behind the mark of
an exponent.
-/

def marksExponent (hexadecimal : Bool) (c : Char) : Bool :=
  if hexadecimal then c == 'p' || c == 'P' else c == 'e' || c == 'E'

def numberTail (hexadecimal : Bool) (previous : Char) (before : List Char) :
    List Char -> List Char × List Char
  | [] => (before.reverse, [])
  | c :: rest =>
      if c.isAlphanum || c == '_' || c == '.' ||
          ((c == '+' || c == '-') && marksExponent hexadecimal previous) then
        numberTail hexadecimal c (c :: before) rest
      else (before.reverse, c :: rest)

def isHexadecimal : List Char -> Bool
  | '0' :: x :: _ => x == 'x' || x == 'X'
  | _ => false

/-!
# Escapes
-/

def isOctal (c : Char) : Bool :=
  '0' ≤ c && c ≤ '7'

def isHexadecimalDigit (c : Char) : Bool :=
  c.isDigit || ('a' ≤ c && c ≤ 'f') || ('A' ≤ c && c ≤ 'F')

def hasHexadecimalDigits (count : Nat) (text : List Char) : Bool :=
  ((text.take count).takeWhile isHexadecimalDigit).length == count

/-- How many characters an escape has behind its backslash; at least one, unless the text ends. -/
def escapeLength (text : List Char) : Nat :=
  match text with
  | [] => 0
  | 'u' :: '\x7b' :: rest =>
      let digits := rest.takeWhile isHexadecimalDigit
      if !digits.isEmpty && (rest.drop digits.length).head? == some '\x7d' then 3 + digits.length
      else 1
  | 'u' :: rest => if hasHexadecimalDigits 4 rest then 5 else 1
  | 'x' :: rest => if hasHexadecimalDigits 2 rest then 3 else 1
  | c :: rest => if isOctal c then 1 + ((rest.take 2).takeWhile isOctal).length else 1

/-- The characters that make an escape by themselves in a text block. -/
def countsEscaped (c : Char) : Bool :=
  ['b', 'f', 'n', 'r', 't', 's', '\x27', '"', '\\'].contains c

/-- The kind of an escape in a text block with the characters `text` behind its backslash. -/
def textEscapeKind (text : List Char) : LexemeKind :=
  match text with
  | [c] => if countsEscaped c then .escape else .bareEscape
  | _ => .escape

def interpolationMark : List Char :=
  ['\\', '\x7b']

def escapeLexeme (kindOf : List Char -> LexemeKind) (rest : List Char) : Lexeme × List Char :=
  match rest with
  | '\x7b' :: rest => ({ kind := .symbol, text := interpolationMark }, rest)
  | _ =>
      let text := rest.take (escapeLength rest)
      ({ kind := kindOf text, text := '\\' :: text }, rest.drop (escapeLength rest))

/-!
# Strings

A fragment of a string runs up to a quote or a backslash.
-/

def isPlain (c : Char) : Bool :=
  c != '"' && c != '\\'

def stringLexeme (c : Char) (rest : List Char) : Lexeme × List Char :=
  if c = '"' then ({ kind := .quote, text := [c] }, rest)
  else if c = '\\' then escapeLexeme (fun _ => .escape) rest
  else ({ kind := .fragment, text := c :: rest.takeWhile isPlain }, rest.dropWhile isPlain)

/-!
# Text blocks

In a text block a quote begins a new fragment, which can have escaped quotes in it. A comment may
stand where a fragment would begin, if it reaches further than that; it has the white space before
it.
-/

/-- The part of a fragment behind the quote at its front, and what follows it. -/
def throughQuoted (before : List Char) : List Char -> List Char × List Char
  | '\\' :: '"' :: rest => throughQuoted ('"' :: '\\' :: before) rest
  | c :: rest =>
      if isPlain c then throughQuoted (c :: before) rest else (before.reverse, c :: rest)
  | [] => (before.reverse, [])

def textPiece (text : List Char) : Piece × List Char :=
  let blank := text.takeWhile Text.isBlank
  let plain := text.takeWhile isPlain
  let fragment : Piece × List Char :=
    (.lexeme { kind := .textFragment, text := plain }, text.dropWhile isPlain)
  match comment? (text.drop blank.length) with
  | some (kind, comment, rest) =>
      if plain.length < blank.length + comment.length then (.comment kind (blank ++ comment), rest)
      else fragment
  | none => fragment

def textBlockPiece (c : Char) (rest : List Char) : Piece × List Char :=
  if c = '"' then
    match rest with
    | '"' :: '"' :: rest => (.lexeme { kind := .textQuote, text := ['"', '"', '"'] }, rest)
    | _ =>
        let (text, rest) := throughQuoted [c] rest
        (.lexeme { kind := .textFragment, text := text }, rest)
  else if c = '\\' then
    let (lexeme, rest) := escapeLexeme textEscapeKind rest
    (.lexeme lexeme, rest)
  else textPiece (c :: rest)

/-!
# Code
-/

def throughCharacterEnd? (before : List Char) : List Char -> Option (List Char × List Char)
  | '\x27' :: rest => some (('\x27' :: before).reverse, rest)
  | '\\' :: c :: rest => throughCharacterEnd? (c :: '\\' :: before) rest
  | '\n' :: _ => none
  | c :: rest => throughCharacterEnd? (c :: before) rest
  | [] => none

/-- Symbols of several characters are read whole. A right angle bracket is only read together with
an equals sign, because two of them may close two lists of type arguments. -/
def longSymbols : List (List Char) :=
  ["<<=", "...", "->", "::", "++", "--", "&&", "||", "==", "!=", "<=", ">=", "+=", "-=", "*=", "/=",
    "&=", "|=", "^=", "%=", "<<"].map String.toList

def symbolLength (text : List Char) : Nat :=
  match longSymbols.find? fun symbol => symbol.isPrefixOf text with
  | some symbol => symbol.length
  | none => 1

def symbolLexeme (c : Char) (rest : List Char) : Lexeme × List Char :=
  let length := symbolLength (c :: rest)
  ({ kind := .symbol, text := c :: rest.take (length - 1) }, rest.drop (length - 1))

def codeLexeme (c : Char) (rest : List Char) : Lexeme × List Char :=
  if startsName c then
    ({ kind := .word, text := c :: rest.takeWhile continuesName }, rest.dropWhile continuesName)
  else if c.isDigit || (c == '.' && (rest.head?.any Char.isDigit)) then
    let (text, rest) := numberTail (isHexadecimal (c :: rest)) c [c] rest
    ({ kind := .number, text := text }, rest)
  else if c = '"' then
    match rest with
    | '"' :: '"' :: rest => ({ kind := .textQuote, text := ['"', '"', '"'] }, rest)
    | _ => ({ kind := .quote, text := [c] }, rest)
  else if c = '\x27' then
    match throughCharacterEnd? [c] rest with
    | some (text, rest) => ({ kind := .character, text := text }, rest)
    | none => symbolLexeme c rest
  else symbolLexeme c rest

def codePiece (c : Char) (rest : List Char) : Piece × List Char :=
  if Text.isBlank c then
    (.blank (c :: rest.takeWhile Text.isBlank), rest.dropWhile Text.isBlank)
  else
    match comment? (c :: rest) with
    | some (kind, text, rest) => (.comment kind text, rest)
    | none =>
        let (lexeme, rest) := codeLexeme c rest
        (.lexeme lexeme, rest)

/-!
# Nesting

A string can hold interpolations, and the code in them can hold strings. What is open at a place is
a list of these, the innermost first. An interpolation ends at the brace that closes none of its
own.
-/

inductive Enclosure where
  | string
  | textBlock
  /-- An interpolation, with the number of braces that are open in it. -/
  | interpolation (braces : Nat)
deriving DecidableEq, Repr

/-- What is open behind `lexeme`, if `enclosures` are open before it. -/
def enclosuresBehind (lexeme : Lexeme) (enclosures : List Enclosure) : List Enclosure :=
  let isSymbol (text : List Char) : Bool := lexeme == { kind := .symbol, text := text }
  match enclosures with
  | .string :: outer =>
      if lexeme.kind = .quote then outer
      else if isSymbol interpolationMark then .interpolation 0 :: enclosures
      else enclosures
  | .textBlock :: outer =>
      if lexeme.kind = .textQuote then outer
      else if isSymbol interpolationMark then .interpolation 0 :: enclosures
      else enclosures
  | code =>
      if lexeme.kind = .quote then .string :: code
      else if lexeme.kind = .textQuote then .textBlock :: code
      else
        match code with
        | .interpolation braces :: outer =>
            if isSymbol ['\x7b'] then .interpolation (braces + 1) :: outer
            else if isSymbol ['\x7d'] then
              match braces with
              | 0 => outer
              | braces + 1 => .interpolation braces :: outer
            else code
        | _ => code

/-!
# Cutting a text
-/

def frontPiece (enclosures : List Enclosure) (c : Char) (rest : List Char) : Piece × List Char :=
  match enclosures with
  | .string :: _ =>
      let (lexeme, rest) := stringLexeme c rest
      (.lexeme lexeme, rest)
  | .textBlock :: _ => textBlockPiece c rest
  | _ => codePiece c rest

def piecesFrom : Nat -> List Enclosure -> Array Piece -> List Char -> List Piece
  | 0, _, found, _ => found.toList
  | _ + 1, _, found, [] => found.toList
  | fuel + 1, enclosures, found, c :: rest =>
      let (piece, rest) := frontPiece enclosures c rest
      let enclosures := match piece with
        | .lexeme lexeme => enclosuresBehind lexeme enclosures
        | _ => enclosures
      piecesFrom fuel enclosures (found.push piece) rest

/-- The pieces of `text` in order. A byte order mark in front counts as white space. -/
def pieces (text : List Char) : List Piece :=
  match text with
  | [] => []
  | c :: rest =>
      if c = byteOrderMark then piecesFrom (rest.length + 1) [] #[.blank [c]] rest
      else piecesFrom (text.length + 1) [] #[] text

end Java
end CommandWiring
