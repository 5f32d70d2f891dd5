/-!
# JSON values

A number is kept as it is written, so nothing is lost between reading and printing. Objects keep the
order of their members.
-/

namespace CommandWiring

inductive Json where
  | null
  | bool (value : Bool)
  | number (literal : String)
  | string (text : String)
  | array (items : List Json)
  | object (members : List (String × Json))

namespace Json

def nat (n : Nat) : Json :=
  .number (toString n)

def optional (encode : α -> Json) : Option α -> Json
  | some value => encode value
  | none => .null

def strings (texts : List String) : Json :=
  .array (texts.map .string)

/-!
# Looking into a value

Of several members with one name the last one counts.
-/

def member? (name : String) : Json -> Option Json
  | .object members => (members.reverse.find? fun entry => entry.1 == name).map Prod.snd
  | _ => none

def string? : Json -> Option String
  | .string text => some text
  | _ => none

def bool? : Json -> Option Bool
  | .bool value => some value
  | _ => none

def items? : Json -> Option (List Json)
  | .array items => some items
  | _ => none

def isNull : Json -> Bool
  | .null => true
  | _ => false

def digitsValue (digits : List Char) : Nat :=
  digits.foldl (fun value digit => value * 10 + (digit.toNat - '0'.toNat)) 0

/-- A number written with digits alone and less than `bound`. -/
def natBelow? (bound : Nat) : Json -> Option Nat
  | .number literal =>
      let digits := literal.toList
      if digits ≠ [] ∧ digits.all Char.isDigit ∧ digitsValue digits < bound then
        some (digitsValue digits)
      else none
  | _ => none

end Json
end CommandWiring
