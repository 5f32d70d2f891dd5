import CommandWiring.Java.Cutting
import CommandWiring.Java.Shape

/-!
# Documents

A document is a source text with its tree. What is asked of the tree is what a parser grants
whatever the text is: its parts lie in order and between characters, its nodes are built by the
grammar, and its leaves make up the text, apart from white space. Text that the grammar does not
cover stands in extras or at the top, and tokens that the grammar asks for can be missing.
-/

namespace CommandWiring
namespace Java

/-- A tree begins and ends between characters of `text`. -/
structure Tree.Bounded (text : List Char) (tree : Tree) : Prop where
  start : IsBoundary text tree.span.start
  stop : IsBoundary text tree.span.stop

/-!
# Documents
-/

structure Document where
  text : String
  root : Tree
  isUnit : root.construct?.any Construct.isUnit = true
  ordered_root : root.Ordered
  shaped_root : root.Shaped
  bounded_root : root.Everywhere (Tree.Bounded text.toList)
  stop_root : root.span.stop = text.utf8ByteSize
  cut : ∃ cutting : Cutting text.toList, root.leaves = cutting.spans

/-!
# Parsers
-/

/-- Why a text has no document. -/
inductive ParseFailure where
  /-- The parser does not take the language. -/
  | language (cause : String)
  | noTree
deriving DecidableEq, Repr

/-- What is known of a parser. -/
structure Parser where
  parse : String -> Except ParseFailure Document
  faithful : ∀ {text : String} {document : Document}, parse text = .ok document ->
    document.text = text

end Java
end CommandWiring
