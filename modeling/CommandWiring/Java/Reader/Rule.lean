import CommandWiring.Java.Reader.Lexeme
import CommandWiring.Java.Reader.Skeleton

/-!
# Rules

A rule says which lexemes may come next and which skeletons they make. Choices are ordered: the
first alternative that fits is taken, and it is not taken back later. The skeletons made since the
beginning of a scope can be wrapped into a node, which is how left recursive constructs grow.
-/

namespace CommandWiring
namespace Java

inductive Rule (Part : Type) where
  /-- Takes one lexeme. An omissible one may be left out at the place of a gap. -/
  | lexeme (omissible : Bool) (accepts : Lexeme -> Bool)
  | done
  | part (name : Part)
  | both (first second : Rule Part)
  | either (first second : Rule Part)
  | many (rule : Rule Part)
  /-- Runs a rule in a scope of its own. -/
  | scope (rule : Rule Part)
  /-- Puts what the scope holds so far into a slot, goes on with a rule, and wraps all of it. -/
  | wrap (construct : Construct) (slot : Slot) (rule : Rule Part)
  | inSlot (slot : Slot) (rule : Rule Part)
  /-- Takes nothing, and fits where the rule does not fit. -/
  | avoid (rule : Rule Part)

namespace Rule

variable {Part : Type}

def optional (rule : Rule Part) : Rule Part :=
  either rule done

def sequence : List (Rule Part) -> Rule Part
  | [] => done
  | [rule] => rule
  | first :: rest => both first (sequence rest)

def nothing : Rule Part :=
  avoid done

def choice : List (Rule Part) -> Rule Part
  | [] => nothing
  | [rule] => rule
  | first :: rest => either first (choice rest)

def many1 (rule : Rule Part) : Rule Part :=
  both rule (many rule)

def node (construct : Construct) (rules : List (Rule Part)) : Rule Part :=
  scope (wrap construct .plain (sequence rules))

def grown (head : Rule Part) (suffixes : List (Rule Part)) : Rule Part :=
  scope (both head (many (choice suffixes)))

def separated1 (rule separator : Rule Part) : Rule Part :=
  both rule (many (both separator rule))

def separated (rule separator : Rule Part) : Rule Part :=
  optional (separated1 rule separator)

/-- Fits where the rule fits, and takes nothing. -/
def ahead (rule : Rule Part) : Rule Part :=
  avoid (avoid rule)

end Rule
end Java
end CommandWiring
