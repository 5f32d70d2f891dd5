/-!
# Outcomes of a search for a command

A search ends with the node of a command or with the reason why there is none. Three shapes of node
count as commands: a constructor call, a method reference, and a block.
-/

namespace CommandWiring

inductive MatchKind where
  | constructorCall
  | methodReference
  | block
deriving DecidableEq, Repr

inductive SiteKind where
  | binder
  | constructorScope
deriving DecidableEq, Repr

inductive MissReason where
  | malformedChain
  | noSupplierArgument
  | unrecognizedSupplierKind
  | noCommandConstructor
  | noEnclosingMethod
  | variableNotResolved
  | methodReferenceNotCommand
  | noBlockInAnonymousBinder
  | noConstructorLambda
  | ambiguousConstructorLambda (count : Nat)
deriving DecidableEq, Repr

inductive Outcome (N : Type) where
  | constructorCall (node : N)
  | methodReference (node : N)
  | block (node : N)
  | missed (reason : MissReason)
deriving DecidableEq, Repr

/-!
# Labels and messages
-/

namespace MatchKind

def all : List MatchKind :=
  [constructorCall, methodReference, block]

def label : MatchKind -> String
  | constructorCall => "constructor_call"
  | methodReference => "method_reference"
  | block => "block"

def ofLabel? (text : String) : Option MatchKind :=
  all.find? fun kind => kind.label == text

end MatchKind

namespace SiteKind

def all : List SiteKind :=
  [binder, constructorScope]

def label : SiteKind -> String
  | binder => "binder"
  | constructorScope => "constructor_scope"

def ofLabel? (text : String) : Option SiteKind :=
  all.find? fun kind => kind.label == text

end SiteKind

namespace MissReason

def message : MissReason -> String
  | malformedChain => "malformed chain"
  | noSupplierArgument => "no supplier argument"
  | unrecognizedSupplierKind => "unrecognized supplier kind"
  | noCommandConstructor => "no command constructor in lambda"
  | noEnclosingMethod => "no enclosing method"
  | variableNotResolved => "variable not resolved to lambda"
  | methodReferenceNotCommand => "method reference not a command"
  | noBlockInAnonymousBinder => "no block in anonymous binder"
  | noConstructorLambda => "unable to identify command"
  | ambiguousConstructorLambda count =>
      "ambiguous command in constructors (" ++ toString count ++ " candidates)"

end MissReason

/-!
# Parts of an outcome
-/

namespace Outcome

variable {N M : Type}

def node? : Outcome N -> Option N
  | constructorCall node => some node
  | methodReference node => some node
  | block node => some node
  | missed _ => none

def matchKind? : Outcome N -> Option MatchKind
  | constructorCall _ => some .constructorCall
  | methodReference _ => some .methodReference
  | block _ => some .block
  | missed _ => none

def reason? : Outcome N -> Option MissReason
  | missed reason => some reason
  | _ => none

def isFound (outcome : Outcome N) : Bool :=
  outcome.node?.isSome

def map (f : N -> M) : Outcome N -> Outcome M
  | constructorCall node => constructorCall (f node)
  | methodReference node => methodReference (f node)
  | block node => block (f node)
  | missed reason => missed reason

end Outcome
end CommandWiring
