import CommandWiring.Text.Blank
import CommandWiring.Extraction.TypeSet
import CommandWiring.Extraction.Outcome
import CommandWiring.Extraction.Chain

/-!
# The search for a command

Each entry point takes a node of some shape and looks for the command that it supplies. The types in
`types` are the ones that count as commands. Every miss gives exactly one warning.
-/

namespace CommandWiring
namespace Search

open SyntaxNode

variable {N : Type} [SyntaxNode N]

/-- The callee whose argument is a plain block of code. -/
def anonymousBinder : String :=
  "anonCmdBinder"

def excerptOf (node : N) : String :=
  Text.excerpt 80 (text node)

def mentionsAny (types : TypeSet) (node : N) : Bool :=
  types.containsAny (mentions node)

def missed (warning : Warning) (reason : MissReason) : Logged (Outcome N) :=
  .warned warning (.missed reason)

/-!
# Suppliers
-/

/-- The first constructor call in a lambda that mentions a command type. -/
def inLambda (types : TypeSet) (lambda : N) : Logged (Outcome N) :=
  match findFirst? lambda fun node => ofKind .constructorCall node && mentionsAny types node with
  | some call => pure (.constructorCall call)
  | none => missed (.noCommandInLambda (excerptOf lambda)) .noCommandConstructor

def initializes (name : String) (lambda : N) : Bool :=
  ofKind .lambda lambda &&
    ((enclosing? lambda .localVariable).bind name?) == some name

/-- A variable stands for the first lambda in its method that belongs to a local variable of the
same name; scopes are not told apart. -/
def inVariable (types : TypeSet) (reference : N) : Logged (Outcome N) :=
  match enclosing? reference .methodDeclaration with
  | none => missed (.variableOutsideMethod (excerptOf reference)) .noEnclosingMethod
  | some method =>
      match findFirst? method (initializes (text reference)) with
      | some lambda => inLambda types lambda
      | none => missed (.variableWithoutLambda (text reference)) .variableNotResolved

def inMethodReference (types : TypeSet) (reference : N) : Logged (Outcome N) :=
  if mentionsAny types reference then pure (.methodReference reference)
  else missed (.referenceToNoCommand (excerptOf reference)) .methodReferenceNotCommand

def inSupplier (types : TypeSet) (supplier : N) : Logged (Outcome N) :=
  match kind supplier with
  | .lambda => inLambda types supplier
  | .variableReference => inVariable types supplier
  | .methodReference => inMethodReference types supplier
  | unsupported =>
      missed (.unsupportedSupplier unsupported (excerptOf supplier)) .unrecognizedSupplierKind

/-!
# Binders
-/

/-- The block of the first lambda below an anonymous binder, whatever types it mentions. -/
def inAnonymousBinder (invocation : N) : Logged (Outcome N) :=
  let block? := (findFirst? invocation (ofKind .lambda)).bind fun lambda =>
    (children lambda).find? (ofKind .block)
  match block? with
  | some block => pure (.block block)
  | none => missed (.anonymousBinderWithoutBlock (excerptOf invocation)) .noBlockInAnonymousBinder

def inInvocation (types : TypeSet) (invocation : N) : Logged (Outcome N) :=
  match Chain.unwind? invocation with
  | none => missed (.chainTooDeep (excerptOf invocation)) .malformedChain
  | some chain =>
      if name? chain.innermost = some anonymousBinder then inAnonymousBinder invocation
      else
        match Chain.supplier? chain.arguments with
        | some supplier => inSupplier types supplier
        | none => missed (.noSupplier (excerptOf chain.innermost)) .noSupplierArgument

/-!
# Constructors

Without a binder, the lambdas in the constructors of a class are the candidates, and only a single
candidate is trusted.
-/

variable [DecidableEq N]

def candidates (types : TypeSet) (owner : N) : List N :=
  collectAll owner fun node =>
    (ofKind .lambda node && inConstructorOf owner node) && mentionsAny types node

def inClass (types : TypeSet) (owner : N) : Logged (Outcome N) :=
  let className := (name? owner).getD "<anonymous>"
  match candidates types owner with
  | [lambda] => inLambda types lambda
  | [] => missed (.noConstructorLambda className) .noConstructorLambda
  | many =>
      missed (.manyConstructorLambdas className many.length)
        (.ambiguousConstructorLambda many.length)

end Search
end CommandWiring
