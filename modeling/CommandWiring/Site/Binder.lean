import CommandWiring.Extraction.Chain
import CommandWiring.Java.View
import CommandWiring.Text.Lines

/-!
# Binder sites

A site is a chain of calls that is not part of a longer one and whose last call has the name of a
binder. It is found from the outermost call of the chain.
-/

namespace CommandWiring

open SyntaxNode

/-- Whether `node` is the first child of an invocation, so that a longer chain goes through it. -/
def isChained {N : Type} [SyntaxNode N] [DecidableEq N] (node : N) : Bool :=
  match parent? node with
  | none => false
  | some above => ofKind .invocation above && firstChild? above == some node

def chainStarts {N : Type} [SyntaxNode N] [DecidableEq N] (root : N) : List N :=
  collectAll root fun node => ofKind .invocation node && !isChained node

structure BinderSite (N : Type) where
  /-- The outermost call of the chain. -/
  invocation : N
  /-- The last call of the chain, which names the binder. -/
  binder : N
deriving DecidableEq

namespace BinderSite

variable {document : Java.Document}

def binderName {N : Type} [SyntaxNode N] (site : BinderSite N) : String :=
  (name? site.binder).getD ""

def lineOf (node : document.Node) : Nat :=
  (Text.positionOf document.text.toUTF8.toList node.span.start).row + 1

/-- The site whose chain begins at `invocation`, if its last call has an accepted name. -/
def atInvocation? (accepts : String -> Bool) (invocation : document.Node) :
    Logged (Option (BinderSite document.Node)) :=
  match Chain.unwind? invocation with
  | none => .warned (.chainSkipped (lineOf invocation)) none
  | some chain =>
      match name? chain.innermost with
      | some name =>
          if accepts name then pure (some { invocation := invocation, binder := chain.innermost })
          else pure none
      | none => pure none

def inDocument (accepts : String -> Bool) (document : Java.Document) :
    Logged (List (BinderSite document.Node)) := do
  let sites <- Logged.forEach (atInvocation? accepts) (chainStarts document.rootNode)
  return sites.filterMap id

end BinderSite
end CommandWiring
