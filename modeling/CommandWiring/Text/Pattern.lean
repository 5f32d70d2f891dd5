import CommandWiring.Text.WordChar

/-!
# Search patterns

A pattern matches a text if it fits some part of it. Patterns are built of single characters,
classes of characters, anchors, choices and repetitions.
-/

namespace CommandWiring
namespace Text

inductive CharClass where
  | single (c : Char)
  | range (first last : Char)
  | word
  | digit
  | space
  | negated (inner : CharClass)
  | union (left right : CharClass)
  | empty
deriving DecidableEq, Repr

def CharClass.contains : CharClass -> Char -> Bool
  | single expected, c => c == expected
  | range first last, c => first ≤ c && c ≤ last
  | word, c => isWordChar c
  | digit, c => isDecimalDigit c
  | space, c => isBlank c
  | negated inner, c => !inner.contains c
  | union left right, c => left.contains c || right.contains c
  | empty, _ => false

inductive Pattern where
  | nothing
  | atStart
  | atEnd
  | char (accepted : CharClass)
  | sequence (first second : Pattern)
  | choice (left right : Pattern)
  | repeated (inner : Pattern)
deriving DecidableEq, Repr

namespace Pattern

/-!
# Matching

`endings` gives the places up to which a pattern fits from a given place on. A repetition goes on
from every place it has reached until it reaches no new one.
-/

/-- The places reached from `found` by any number of steps. -/
def reach (step : Nat -> List Nat) : Nat -> List Nat -> List Nat -> List Nat
  | 0, found, _ => found
  | _ + 1, found, [] => found
  | fuel + 1, found, fresh =>
      let next := (fresh.flatMap step).eraseDups.filter fun place => !found.contains place
      reach step fuel (found ++ next) next

def endings (text : Array Char) : Pattern -> Nat -> List Nat
  | nothing, place => [place]
  | atStart, place => if place = 0 then [place] else []
  | atEnd, place => if place = text.size then [place] else []
  | char accepted, place =>
      match text[place]? with
      | some c => if accepted.contains c then [place + 1] else []
      | none => []
  | sequence first second, place =>
      ((endings text first place).flatMap (endings text second)).eraseDups
  | choice left right, place =>
      (endings text left place ++ endings text right place).eraseDups
  | repeated inner, place => reach (endings text inner) (text.size + 1) [place] [place]

/-- Whether `pattern` fits some part of `text`. -/
def isMatch (pattern : Pattern) (text : String) : Bool :=
  let chars := text.toList.toArray
  (List.range (chars.size + 1)).any fun place => !(endings chars pattern place).isEmpty

/-!
# Reading patterns
-/

def escapedClass? : Char -> Option CharClass
  | 'w' => some .word
  | 'd' => some .digit
  | 's' => some .space
  | 'W' => some (.negated .word)
  | 'D' => some (.negated .digit)
  | 'S' => some (.negated .space)
  | 'n' => some (.single '\n')
  | 't' => some (.single '\t')
  | 'r' => some (.single '\r')
  | c => if c.isAlphanum then none else some (.single c)

/-- The members of a class in brackets, and what follows the closing one. -/
def classMembers? : Nat -> CharClass -> List Char -> Option (CharClass × List Char)
  | 0, _, _ => none
  | _ + 1, _, [] => none
  | _ + 1, members, ']' :: rest => some (members, rest)
  | fuel + 1, members, '\\' :: c :: rest =>
      match escapedClass? c with
      | some escaped => classMembers? fuel (.union members escaped) rest
      | none => none
  | fuel + 1, members, first :: '-' :: last :: rest =>
      if last = ']' then
        classMembers? fuel (.union (.union members (.single first)) (.single '-')) (last :: rest)
      else classMembers? fuel (.union members (.range first last)) rest
  | fuel + 1, members, c :: rest => classMembers? fuel (.union members (.single c)) rest

def bracketClass? (text : List Char) : Option (CharClass × List Char) :=
  match text with
  | '^' :: rest =>
      (classMembers? (rest.length + 1) .empty rest).map fun (members, rest) =>
        (.negated members, rest)
  | text => classMembers? (text.length + 1) .empty text

def withRepetition (inner : Pattern) : List Char -> Pattern × List Char
  | '*' :: rest => (repeated inner, rest)
  | '+' :: rest => (sequence inner (repeated inner), rest)
  | '?' :: rest => (choice inner nothing, rest)
  | text => (inner, text)

mutual

/-- Choices between sequences, up to a closing parenthesis or the end. -/
def choices? : Nat -> List Char -> Option (Pattern × List Char)
  | 0, _ => none
  | fuel + 1, text =>
      match items? fuel nothing text with
      | some (left, '|' :: rest) =>
          (choices? fuel rest).map fun (right, rest) => (choice left right, rest)
      | other => other

def items? : Nat -> Pattern -> List Char -> Option (Pattern × List Char)
  | 0, _, _ => none
  | fuel + 1, before, text =>
      match text with
      | [] => some (before, [])
      | '|' :: _ => some (before, text)
      | ')' :: _ => some (before, text)
      | _ =>
          match item? fuel text with
          | none => none
          | some (item, rest) =>
              let (item, rest) := withRepetition item rest
              items? fuel (sequence before item) rest

def item? : Nat -> List Char -> Option (Pattern × List Char)
  | 0, _ => none
  | fuel + 1, text =>
      match text with
      | [] => none
      | '^' :: rest => some (atStart, rest)
      | '$' :: rest => some (atEnd, rest)
      | '.' :: rest => some (char (.negated (.single '\n')), rest)
      | '[' :: rest => (bracketClass? rest).map fun (members, rest) => (char members, rest)
      | '(' :: rest =>
          let inner := match rest with
            | '?' :: ':' :: more => more
            | more => more
          match choices? fuel inner with
          | some (pattern, ')' :: rest) => some (pattern, rest)
          | _ => none
      | '\\' :: c :: rest => (escapedClass? c).map fun escaped => (char escaped, rest)
      | c :: rest =>
          if c = '*' ∨ c = '+' ∨ c = '?' ∨ c = '\\' then none else some (char (.single c), rest)

end

def parse? (text : String) : Option Pattern :=
  let chars := text.toList
  match choices? (3 * chars.length + 3) chars with
  | some (pattern, []) => some pattern
  | _ => none

end Pattern
end Text
end CommandWiring
