/-!
# Kinds and roles of nodes

A program tree is looked at through a small vocabulary: what a node is, and which place it takes
under its parent. Everything else in a tree is of kind `other` and of role `other`.
-/

namespace CommandWiring

inductive NodeKind where
  | invocation
  | lambda
  | variableReference
  | methodReference
  | constructorCall
  | block
  | localVariable
  | classDeclaration
  | methodDeclaration
  | constructorDeclaration
  | fieldAccess
  | other
deriving DecidableEq, Repr

inductive NodeRole where
  | argument
  | target
  | body
  | initializer
  | other
deriving DecidableEq, Repr

/-!
# Labels

Each kind and each role is written in lower case with underscores. Reading a label accepts exactly
the written form.
-/

namespace NodeKind

def all : List NodeKind :=
  [invocation, lambda, variableReference, methodReference, constructorCall, block, localVariable,
    classDeclaration, methodDeclaration, constructorDeclaration, fieldAccess, other]

def label : NodeKind -> String
  | invocation => "invocation"
  | lambda => "lambda"
  | variableReference => "variable_reference"
  | methodReference => "method_reference"
  | constructorCall => "constructor_call"
  | block => "block"
  | localVariable => "local_variable"
  | classDeclaration => "class_declaration"
  | methodDeclaration => "method_declaration"
  | constructorDeclaration => "constructor_declaration"
  | fieldAccess => "field_access"
  | other => "other"

def ofLabel? (text : String) : Option NodeKind :=
  all.find? fun kind => kind.label == text

end NodeKind

namespace NodeRole

def all : List NodeRole :=
  [argument, target, body, initializer, other]

def label : NodeRole -> String
  | argument => "argument"
  | target => "target"
  | body => "body"
  | initializer => "initializer"
  | other => "other"

def ofLabel? (text : String) : Option NodeRole :=
  all.find? fun role => role.label == text

end NodeRole

end CommandWiring
