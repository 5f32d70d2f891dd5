import CommandWiring.Node.Walk
import CommandWiring.Extraction.Warning

/-!
# Invocation chains

A chain leads from an invocation to its first child as long as that is an invocation again, through
receivers and through first arguments. Its last call names the binder, and the arguments of that
call are the ones that matter.
-/

namespace CommandWiring

open SyntaxNode

variable {N : Type} [SyntaxNode N]

structure Chain (N : Type) where
  innermost : N
  arguments : List N
  depth : Nat
deriving DecidableEq, Repr

namespace Chain

def next? (node : N) : Option N :=
  match firstChild? node with
  | some child => if kind child = .invocation then some child else none
  | none => none

def argumentsOf (node : N) : List N :=
  (children node).filter fun child => role child == .argument

/-- Follows the chain from `node`, which lies `depth` steps below its start; there is no result if
more than `steps` steps remain. -/
def descend? : Nat -> N -> Nat -> Option (Chain N)
  | steps, node, depth =>
      match next? node with
      | none => some { innermost := node, arguments := argumentsOf node, depth := depth }
      | some child =>
          match steps with
          | 0 => none
          | fewer + 1 => descend? fewer child (depth + 1)

def unwind? (invocation : N) : Option (Chain N) :=
  descend? maxChainDepth invocation 0

/-- Of exactly two arguments the second one supplies the command, otherwise the first. -/
def supplier? (arguments : List N) : Option N :=
  match arguments with
  | [_, second] => some second
  | arguments => arguments.head?

end Chain
end CommandWiring
