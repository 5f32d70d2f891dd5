import CommandWiring.Json.Basic

/-!
# Reading JSON

Blanks may stand around every token. A text is one value and nothing else. In strings, control
characters below U+0020 must be escaped, and a code unit of a surrogate pair may only stand with its
partner.
-/

namespace CommandWiring
namespace Json

def isBlank (c : Char) : Bool :=
  c == ' ' || c == '\n' || c == '\r' || c == '\t'

def skipBlanks (text : List Char) : List Char :=
  text.dropWhile isBlank

def dropWord? : List Char -> List Char -> Option (List Char)
  | [], text => some text
  | _ :: _, [] => none
  | expected :: word, c :: text => if c = expected then dropWord? word text else none

/-!
# Strings
-/

def hexValue? (c : Char) : Option Nat :=
  if '0' ≤ c ∧ c ≤ '9' then some (c.toNat - '0'.toNat)
  else if 'a' ≤ c ∧ c ≤ 'f' then some (c.toNat - 'a'.toNat + 10)
  else if 'A' ≤ c ∧ c ≤ 'F' then some (c.toNat - 'A'.toNat + 10)
  else none

def codeUnit? : List Char -> Option (Nat × List Char)
  | a :: b :: c :: d :: rest =>
      match hexValue? a, hexValue? b, hexValue? c, hexValue? d with
      | some w, some x, some y, some z => some (((w * 16 + x) * 16 + y) * 16 + z, rest)
      | _, _, _, _ => none
  | _ => none

def plainEscape? : Char -> Option Char
  | '"' => some '"'
  | '\\' => some '\\'
  | '/' => some '/'
  | 'b' => some '\x08'
  | 'f' => some '\x0c'
  | 'n' => some '\n'
  | 'r' => some '\r'
  | 't' => some '\t'
  | _ => none

/-- The character that a code unit stands for, together with a second unit where it needs one. -/
def unicodeEscape? (text : List Char) : Option (Char × List Char) :=
  match codeUnit? text with
  | none => none
  | some (high, rest) =>
      if 0xD800 ≤ high ∧ high < 0xDC00 then
        match rest with
        | '\\' :: 'u' :: more =>
            match codeUnit? more with
            | some (low, rest) =>
                if 0xDC00 ≤ low ∧ low < 0xE000 then
                  some (Char.ofNat (0x10000 + (high - 0xD800) * 0x400 + (low - 0xDC00)), rest)
                else none
            | none => none
        | _ => none
      else if 0xDC00 ≤ high ∧ high < 0xE000 then none
      else some (Char.ofNat high, rest)

/-- Reads up to the closing quote; `found` are the characters already read, in reverse. -/
def stringChars? : Nat -> List Char -> List Char -> Option (List Char × List Char)
  | 0, _, _ => none
  | _ + 1, _, [] => none
  | fuel + 1, found, c :: rest =>
      if c = '"' then some (found.reverse, rest)
      else if c = '\\' then
        match rest with
        | 'u' :: more =>
            match unicodeEscape? more with
            | some (decoded, rest) => stringChars? fuel (decoded :: found) rest
            | none => none
        | escape :: more =>
            match plainEscape? escape with
            | some decoded => stringChars? fuel (decoded :: found) more
            | none => none
        | [] => none
      else if c.toNat < 0x20 then none
      else stringChars? fuel (c :: found) rest

def quotedText? (text : List Char) : Option (String × List Char) :=
  (stringChars? (text.length + 1) [] text).map fun (chars, rest) => (String.ofList chars, rest)

/-!
# Numbers

An optional sign, digits without a needless zero in front, then optionally a fraction and an
exponent.
-/

def digits (text : List Char) : List Char × List Char :=
  (text.takeWhile Char.isDigit, text.dropWhile Char.isDigit)

def signPart : List Char -> List Char × List Char
  | '-' :: rest => (['-'], rest)
  | text => ([], text)

def wholePart? (text : List Char) : Option (List Char × List Char) :=
  match digits text with
  | ([], _) => none
  | ('0' :: _ :: _, _) => none
  | (whole, rest) => some (whole, rest)

def fractionPart? : List Char -> Option (List Char × List Char)
  | '.' :: rest =>
      match digits rest with
      | ([], _) => none
      | (fraction, rest) => some ('.' :: fraction, rest)
  | text => some ([], text)

def exponentDigits? (mark : List Char) (text : List Char) : Option (List Char × List Char) :=
  match digits text with
  | ([], _) => none
  | (exponent, rest) => some (mark ++ exponent, rest)

def exponentPart? : List Char -> Option (List Char × List Char)
  | c :: rest =>
      if c = 'e' ∨ c = 'E' then
        match rest with
        | '+' :: more => exponentDigits? [c, '+'] more
        | '-' :: more => exponentDigits? [c, '-'] more
        | more => exponentDigits? [c] more
      else some ([], c :: rest)
  | [] => some ([], [])

def number? (text : List Char) : Option (String × List Char) := do
  let (sign, rest) := signPart text
  let (whole, rest) <- wholePart? rest
  let (fraction, rest) <- fractionPart? rest
  let (exponent, rest) <- exponentPart? rest
  return (String.ofList (sign ++ whole ++ fraction ++ exponent), rest)

/-!
# Values

Every call reads at least one character or gives up, so twice the length of the text bounds how deep
the calls nest.
-/

mutual

def value? : Nat -> List Char -> Option (Json × List Char)
  | 0, _ => none
  | fuel + 1, text =>
      match skipBlanks text with
      | [] => none
      | 'n' :: rest => (dropWord? "ull".toList rest).map fun rest => (.null, rest)
      | 't' :: rest => (dropWord? "rue".toList rest).map fun rest => (.bool true, rest)
      | 'f' :: rest => (dropWord? "alse".toList rest).map fun rest => (.bool false, rest)
      | '"' :: rest => (quotedText? rest).map fun (text, rest) => (.string text, rest)
      | '[' :: rest =>
          match skipBlanks rest with
          | ']' :: rest => some (.array [], rest)
          | rest => (itemList? fuel rest).map fun (items, rest) => (.array items, rest)
      | '\x7b' :: rest =>
          match skipBlanks rest with
          | '\x7d' :: rest => some (.object [], rest)
          | rest => (memberList? fuel rest).map fun (members, rest) => (.object members, rest)
      | rest => (number? rest).map fun (literal, rest) => (.number literal, rest)

def itemList? : Nat -> List Char -> Option (List Json × List Char)
  | 0, _ => none
  | fuel + 1, text =>
      match value? fuel text with
      | none => none
      | some (item, rest) =>
          match skipBlanks rest with
          | ',' :: rest => (itemList? fuel rest).map fun (items, rest) => (item :: items, rest)
          | ']' :: rest => some ([item], rest)
          | _ => none

def memberList? : Nat -> List Char -> Option (List (String × Json) × List Char)
  | 0, _ => none
  | fuel + 1, text =>
      match skipBlanks text with
      | '"' :: rest =>
          match quotedText? rest with
          | none => none
          | some (name, rest) =>
              match skipBlanks rest with
              | ':' :: rest =>
                  match value? fuel rest with
                  | none => none
                  | some (value, rest) =>
                      match skipBlanks rest with
                      | ',' :: rest =>
                          (memberList? fuel rest).map fun (members, rest) =>
                            ((name, value) :: members, rest)
                      | '\x7d' :: rest => some ([(name, value)], rest)
                      | _ => none
              | _ => none
      | _ => none

end

def parse? (text : String) : Option Json :=
  let chars := text.toList
  match value? (2 * chars.length + 2) chars with
  | some (value, rest) => if skipBlanks rest = [] then some value else none
  | none => none

end Json
end CommandWiring
