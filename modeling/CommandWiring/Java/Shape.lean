import CommandWiring.Java.Tree

/-!
# Shapes

Some constructs stand only below certain others, some have a fixed make-up, and some never come
first in another. A shape looks at a node and its children, and does not look any deeper.
-/

namespace CommandWiring
namespace Java

/-- A child as the node around it sees it. -/
structure Seat where
  slot : Slot
  construct : Construct
deriving DecidableEq, Repr

namespace Construct

/-- Whether a construct is that of a whole text: a program, or text that could not be read as one.
-/
def isUnit : Construct -> Bool
  | program => true
  | unreadable => true
  | _ => false

/-- Whether a list of arguments can stand right below. In text that could not be read it can stand
by itself. -/
def takesArguments : Construct -> Bool
  | methodInvocation => true
  | objectCreationExpression => true
  | explicitConstructorInvocation => true
  | enumConstant => true
  | unreadable => true
  | _ => false

/-- Whether a node has at least one token, even where others are missing. -/
def isFull : Construct -> Bool
  | methodInvocation => true
  | objectCreationExpression => true
  | classDeclaration => true
  | argumentList => true
  | _ => false

/-- Whether a construct comes first in nothing but a whole text. -/
def isLate : Construct -> Bool
  | argumentList => true
  | classDeclaration => true
  | _ => false

def declaresType : Construct -> Bool
  | classDeclaration => true
  | interfaceDeclaration => true
  | enumDeclaration => true
  | recordDeclaration => true
  | _ => false

/-- Whether a node is a single lexeme. -/
def isWord : Construct -> Bool
  | identifier => true
  | underscorePattern => true
  | typeIdentifier => true
  | _ => false

/-- Whether the name of a node can be qualified. -/
def takesQualifiedName : Construct -> Bool
  | annotationMark => true
  | annotationCall => true
  | moduleDeclaration => true
  | _ => false

end Construct

namespace Shape

/-!
# The make-up of single constructs
-/

def inSlot (slot : Slot) (seats : List Seat) : List Seat :=
  seats.filter fun seat => seat.slot == slot

def behind (wanted : Seat -> Bool) : List Seat -> List Seat
  | [] => []
  | first :: rest => if wanted first then rest else first :: rest

/-- Whether `seat` is that of a receiver. Type arguments receive no call. -/
def seatsReceiver (seat : Seat) : Bool :=
  seat.slot == .object && seat.construct != .typeArguments

/-- A call may begin with a receiver, with `super` behind it, and with type arguments. Then there
are the name of the method and the arguments. -/
def isCall (seats : List Seat) : Bool :=
  let behindReceiver := behind seatsReceiver seats
  let behindSuper := behind (fun seat => seat == ⟨.plain, .super⟩) behindReceiver
  let behindTypes := behind (fun seat => seat == ⟨.plain, .typeArguments⟩) behindSuper
  behindTypes == [⟨.name, .identifier⟩, ⟨.plain, .argumentList⟩]

/-- Arguments stand in a call, and in no slot. -/
def seatsArguments (construct : Construct) (seat : Seat) : Bool :=
  seat.construct != .argumentList || (construct.takesArguments && seat.slot == .plain)

/-- A whole text stands below nothing. -/
def seatsUnit (seat : Seat) : Bool :=
  !seat.construct.isUnit

/-- A name is a single word, except that annotations and modules can have qualified names. -/
def seatsName (construct : Construct) (seat : Seat) : Bool :=
  seat.slot != .name || seat.construct.isWord || construct.takesQualifiedName

/-- What is said of the supertypes of a declared type is said in one clause of each sort. -/
def repeatsNoClause (seats : List Seat) : Bool :=
  [Construct.superclass, .superInterfaces, .extendsInterfaces].all fun clause =>
    (seats.filter fun seat => seat.construct == clause).length ≤ 1

/-- Parentheses hold one node, a cast has one value, an object is created with arguments, a clause
on supertypes has one type or one list of types, and a declared type has one name. -/
def holds (construct : Construct) (seats : List Seat) : Bool :=
  match construct with
  | .parenthesizedExpression => seats.length == 1
  | .castExpression => (inSlot .value seats).length == 1
  | .methodInvocation => isCall seats
  | .objectCreationExpression => seats.contains ⟨.plain, .argumentList⟩
  | .superclass => seats.length == 1
  | .superInterfaces => seats == [⟨.plain, .typeList⟩]
  | .extendsInterfaces => seats == [⟨.plain, .typeList⟩]
  | other => !other.declaresType || ((inSlot .name seats).length == 1 && repeatsNoClause seats)

def admits (construct : Construct) (seats : List Seat) : Bool :=
  seats.all (seatsArguments construct) && seats.all seatsUnit &&
    seats.all (seatsName construct) && holds construct seats

theorem admits_iff {construct : Construct} {seats : List Seat} :
    admits construct seats = true ↔
      (∀ seat ∈ seats, seatsArguments construct seat = true) ∧
      (∀ seat ∈ seats, seatsUnit seat = true) ∧
      (∀ seat ∈ seats, seatsName construct seat = true) ∧ holds construct seats = true := by
  simp [admits, and_assoc]

theorem holds_of_declaresType {construct : Construct} {seats : List Seat}
    (declares : construct.declaresType = true) :
    holds construct seats = ((inSlot .name seats).length == 1 && repeatsNoClause seats) := by
  cases construct <;> first | rfl | cases declares

end Shape

/-!
# Shapes of trees
-/

namespace Tree

def seat? : Tree -> Option Seat
  | node slot construct _ _ => some ⟨slot, construct⟩
  | _ => none

theorem seat?_eq_some {tree : Tree} {seat : Seat} :
    tree.seat? = some seat ↔ tree.slot = seat.slot ∧ tree.construct? = some seat.construct := by
  cases tree with
  | token span => simp [seat?, construct?]
  | extra span parts => simp [seat?, construct?]
  | node slot construct span children =>
      rcases seat with ⟨otherSlot, other⟩
      simp [seat?, Tree.slot, construct?]

/-- The parts of a tree lie inside it, one behind the other. -/
def InOrder (tree : Tree) : Prop :=
  Between tree.span.start tree.span.stop (tree.parts.map span)

/-- What the shape of a construct asks of a node. Only a whole text can reach further than its last
child. -/
structure HasShape (construct : Construct) (tree : Tree) : Prop where
  admits : Shape.admits construct (tree.children.filterMap seat?) = true
  full : construct.isFull = true -> tree.IsFilled
  late : construct.isUnit = false -> ∀ child ∈ tree.children,
    child.construct?.any Construct.isLate = true -> tree.span.start < child.span.start
  stops : construct.isUnit = false ->
    ∀ last ∈ tree.children.getLast?, last.span.stop = tree.span.stop
  word : construct.isWord = true -> tree.children = [token tree.span]

def Ordered (tree : Tree) : Prop :=
  tree.Everywhere InOrder

/-- Every node has the shape that its construct asks for. -/
def Shaped (tree : Tree) : Prop :=
  tree.Everywhere fun part => ∀ construct, part.construct? = some construct ->
    part.HasShape construct

end Tree
end Java
end CommandWiring
