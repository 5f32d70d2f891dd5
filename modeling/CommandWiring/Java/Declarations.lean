import CommandWiring.Node.Walk
import CommandWiring.Extraction.TypeSet
import CommandWiring.Java.View

/-!
# Declared types

Every class, interface, enum and record is declared with the simple names of its direct supertypes.
A type is a command if a marker type is reached from it through supertypes.
-/

namespace CommandWiring

structure TypeDeclaration where
  name : String
  supertypes : List String
deriving DecidableEq, Repr

namespace Java
namespace Declarations

/-!
# Clauses

A clause lists types. Only types written with a name count, with or without type arguments.
-/

def isNamedType (tree : Tree) : Bool :=
  tree.construct? == some .typeIdentifier || tree.construct? == some .genericType ||
    tree.construct? == some .scopedTypeIdentifier

def childOf? (construct : Construct) (tree : Tree) : Option Tree :=
  tree.children.find? fun child => child.construct? == some construct

def simpleNames (document : Document) (types : List Tree) : List String :=
  types.map fun type => simpleTypeName (document.textOf type.span)

def listed (document : Document) (construct : Construct) (declaration : Tree) : List String :=
  match (childOf? construct declaration).bind (childOf? .typeList) with
  | some list => simpleNames document (list.children.filter isNamedType)
  | none => []

def extended (document : Document) (declaration : Tree) : List String :=
  match (childOf? .superclass declaration).bind fun clause => clause.children.find? isNamedType with
  | some type => simpleNames document [type]
  | none => []

def supertypes (document : Document) (declaration : Tree) : List String :=
  if declaration.construct? = some .interfaceDeclaration then
    listed document .extendsInterfaces declaration
  else
    extended document declaration ++ listed document .superInterfaces declaration

/-!
# Declarations of a document
-/

def declaresType (tree : Tree) : Bool :=
  tree.construct? == some .classDeclaration || tree.construct? == some .interfaceDeclaration ||
    tree.construct? == some .enumDeclaration || tree.construct? == some .recordDeclaration

def declaration? (document : Document) (node : document.Node) : Option TypeDeclaration :=
  (SyntaxNode.name? node).map fun name =>
    { name := name, supertypes := supertypes document node.place.focus }

def inDocument (document : Document) : List TypeDeclaration :=
  (SyntaxNode.collectAll document.rootNode fun node => declaresType node.place.focus).filterMap
    (declaration? document)

end Declarations
end Java

/-!
# Command types
-/

namespace TypeSet

def extend (known : TypeSet) (declaration : TypeDeclaration) : TypeSet :=
  if declaration.name ∈ known then known
  else if known.containsAny declaration.supertypes then known.insert declaration.name
  else known

def extendAll (known : TypeSet) (declarations : List TypeDeclaration) : TypeSet :=
  declarations.foldl extend known

/-- Extends `known` until nothing changes, at most `rounds` times. -/
def close : Nat -> List TypeDeclaration -> TypeSet -> TypeSet
  | 0, _, known => known
  | rounds + 1, declarations, known =>
      let next := known.extendAll declarations
      if next = known then known else close rounds declarations next

/-- The markers and every declared type from which one of them is reached. Each round but the last
takes in a new name, so there are no more rounds than declarations. -/
def resolve (declarations : List TypeDeclaration) (markers : List String) : TypeSet :=
  close declarations.length declarations (ofList markers)

end TypeSet
end CommandWiring
