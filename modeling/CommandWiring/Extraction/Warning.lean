import CommandWiring.Node.Kind

/-!
# Warnings

A search that misses, and a file that is passed over, leave a warning. Warnings are values that come
with a result, in the order in which they were given.
-/

namespace CommandWiring

/-- Most invocations followed below the first one of a chain. -/
def maxChainDepth : Nat :=
  256

inductive Warning where
  | chainTooDeep (excerpt : String)
  | noSupplier (excerpt : String)
  | unsupportedSupplier (kind : NodeKind) (excerpt : String)
  | noCommandInLambda (excerpt : String)
  | variableOutsideMethod (excerpt : String)
  | variableWithoutLambda (name : String)
  | referenceToNoCommand (excerpt : String)
  | anonymousBinderWithoutBlock (excerpt : String)
  | noConstructorLambda (className : String)
  | manyConstructorLambdas (className : String) (count : Nat)
  | chainSkipped (line : Nat)
  | typesSkipped (path : String) (cause : String)
  | extractionFailed (path : String) (cause : String)
  | unreadableFile (path : String) (cause : String)
deriving DecidableEq, Repr

def Warning.message : Warning -> String
  | chainTooDeep excerpt =>
      "Invocation chain deeper than " ++ toString maxChainDepth ++ " calls: " ++ excerpt
  | noSupplier excerpt =>
      "Binder has no supplier argument: " ++ excerpt
  | unsupportedSupplier kind excerpt =>
      "Not able to identify command: unsupported supplier kind " ++ kind.label ++
        " (" ++ excerpt ++ ")"
  | noCommandInLambda excerpt =>
      "Cannot find command in lambda: " ++ excerpt
  | variableOutsideMethod excerpt =>
      "Impossible to identify command: '" ++ excerpt ++ "' is not inside a method"
  | variableWithoutLambda name =>
      "Impossible to identify command: no local lambda assigned to '" ++ name ++ "'"
  | referenceToNoCommand excerpt =>
      "Can't find command in expression: " ++ excerpt
  | anonymousBinderWithoutBlock excerpt =>
      "Anonymous binder without a lambda block: " ++ excerpt
  | noConstructorLambda className =>
      "Unable to identify command in constructors of " ++ className
  | manyConstructorLambdas className count =>
      "Unable to identify command in constructors of " ++ className ++ ": " ++ toString count ++
        " candidate lambdas"
  | chainSkipped line =>
      "Skipping invocation chain at line " ++ toString line ++ ": too deeply nested"
  | typesSkipped path cause =>
      "Skipping " ++ path ++ " while collecting Command types: " ++ cause
  | extractionFailed path cause =>
      "Extraction failed for " ++ path ++ ": " ++ cause
  | unreadableFile path cause =>
      "Skipping unreadable file " ++ path ++ ": " ++ cause

/-!
# Results with warnings
-/

structure Logged (α : Type) where
  value : α
  warnings : List Warning
deriving DecidableEq

namespace Logged

variable {α β : Type}

def andThen (first : Logged α) (next : α -> Logged β) : Logged β :=
  let second := next first.value
  { value := second.value, warnings := first.warnings ++ second.warnings }

instance : Monad Logged where
  pure value := { value := value, warnings := [] }
  bind := andThen

def map (f : α -> β) (logged : Logged α) : Logged β :=
  { value := f logged.value, warnings := logged.warnings }

def warned (warning : Warning) (value : α) : Logged α :=
  { value := value, warnings := [warning] }

/-- Runs `step` on each element and keeps the results and the warnings in order. -/
def forEach (step : α -> Logged β) (elements : List α) : Logged (List β) :=
  let results := elements.map step
  { value := results.map Logged.value, warnings := results.flatMap Logged.warnings }

def attempt {ε : Type} (first : Logged α) (step : α -> Except ε β) : Except ε (Logged β) :=
  (step first.value).map fun value => first.map fun _ => value

/-- Runs `step` on each element as `forEach` does, unless it fails at one of them. -/
def tryEach {ε : Type} (step : α -> Except ε (Logged β)) (elements : List α) :
    Except ε (Logged (List β)) :=
  (elements.mapM step).map fun results =>
    { value := results.map Logged.value, warnings := results.flatMap Logged.warnings }

end Logged
end CommandWiring
