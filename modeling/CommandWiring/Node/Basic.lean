import CommandWiring.Node.Kind

/-!
# Nodes of a program tree

The search for commands only asks a node the questions listed here, so it runs on parsed source and
on trees built by hand alike. Nothing is assumed about the answers: the structure may share
children, be cyclic, or name a parent that does not list the node.
-/

namespace CommandWiring

/-- The questions that can be put to a node. `children` are in document order, and `mentions` lists
the simple type names below the node, each once, in order of first occurrence. -/
class SyntaxNode (N : Type) where
  kind : N -> NodeKind
  role : N -> NodeRole
  parent? : N -> Option N
  children : N -> List N
  mentions : N -> List String
  name? : N -> Option String
  text : N -> String

namespace SyntaxNode

variable {N : Type} [SyntaxNode N]

def firstChild? (node : N) : Option N :=
  (children node).head?

def ofKind (wanted : NodeKind) (node : N) : Bool :=
  kind node == wanted

end SyntaxNode

end CommandWiring
