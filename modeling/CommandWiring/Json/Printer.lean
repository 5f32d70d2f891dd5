import CommandWiring.Json.Basic

/-!
# Printing JSON

The wide form puts each item and each member on a line of its own, indented by two blanks a level;
empty arrays and objects stay on one line. The compact form has no blanks. Only quotes, backslashes
and control characters below U+0020 are escaped.
-/

namespace CommandWiring
namespace Json

def hexDigit (n : Nat) : Char :=
  if n < 10 then Char.ofNat ('0'.toNat + n) else Char.ofNat ('a'.toNat + (n - 10))

def escapeChar (c : Char) : List Char :=
  if c = '"' then ['\\', '"']
  else if c = '\\' then ['\\', '\\']
  else if c = '\x08' then ['\\', 'b']
  else if c = '\x0c' then ['\\', 'f']
  else if c = '\n' then ['\\', 'n']
  else if c = '\r' then ['\\', 'r']
  else if c = '\t' then ['\\', 't']
  else if c.toNat < 0x20 then
    ['\\', 'u', '0', '0', hexDigit (c.toNat / 16), hexDigit (c.toNat % 16)]
  else [c]

def quoted (text : String) : List Char :=
  '"' :: (text.toList.flatMap escapeChar ++ ['"'])

def newline (level : Nat) : List Char :=
  '\n' :: List.replicate (2 * level) ' '

def boolWord (value : Bool) : List Char :=
  if value then "true".toList else "false".toList

/-!
# The wide form
-/

mutual

def wideChars (level : Nat) : Json -> List Char
  | .null => "null".toList
  | .bool value => boolWord value
  | .number literal => literal.toList
  | .string text => quoted text
  | .array [] => ['[', ']']
  | .array (first :: rest) =>
      '[' :: (newline (level + 1) ++ wideChars (level + 1) first ++
        wideItems (level + 1) rest ++ newline level ++ [']'])
  | .object [] => ['\x7b', '\x7d']
  | .object ((name, first) :: rest) =>
      '\x7b' :: (newline (level + 1) ++ quoted name ++ [':', ' '] ++ wideChars (level + 1) first ++
        wideMembers (level + 1) rest ++ newline level ++ ['\x7d'])

def wideItems (level : Nat) : List Json -> List Char
  | [] => []
  | item :: rest => ',' :: (newline level ++ wideChars level item ++ wideItems level rest)

def wideMembers (level : Nat) : List (String × Json) -> List Char
  | [] => []
  | (name, value) :: rest =>
      ',' :: (newline level ++ quoted name ++ [':', ' '] ++ wideChars level value ++
        wideMembers level rest)

end

def wide (value : Json) : String :=
  String.ofList (wideChars 0 value)

/-!
# The compact form
-/

mutual

def compactChars : Json -> List Char
  | .null => "null".toList
  | .bool value => boolWord value
  | .number literal => literal.toList
  | .string text => quoted text
  | .array [] => ['[', ']']
  | .array (first :: rest) => '[' :: (compactChars first ++ compactItems rest ++ [']'])
  | .object [] => ['\x7b', '\x7d']
  | .object ((name, first) :: rest) =>
      '\x7b' :: (quoted name ++ ':' :: (compactChars first ++ compactMembers rest ++ ['\x7d']))

def compactItems : List Json -> List Char
  | [] => []
  | item :: rest => ',' :: (compactChars item ++ compactItems rest)

def compactMembers : List (String × Json) -> List Char
  | [] => []
  | (name, value) :: rest =>
      ',' :: (quoted name ++ ':' :: (compactChars value ++ compactMembers rest))

end

def compact (value : Json) : String :=
  String.ofList (compactChars value)

end Json
end CommandWiring
