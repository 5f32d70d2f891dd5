import CommandWiring.Proofs.Places

/-!
# Leaves of a document

The leaves of a tree in order are a run of those of the text. So the text that a node covers is made
up of the texts of its leaves, with nothing but white space between two of them that are neighbours.
-/

namespace CommandWiring
namespace Java

namespace Tree

theorem leaves_infix_of_mem_parts {tree part : Tree} (member : part ∈ tree.parts) :
    part.leaves <:+: tree.leaves := by
  have inList {parts : List Tree} (member : part ∈ parts) : part.leaves <:+: leavesOf parts := by
    rcases List.append_of_mem member with ⟨before, after, rfl⟩
    refine ⟨leavesOf before, leavesOf after, ?_⟩
    rw [leavesOf_append, leavesOf, List.append_assoc]
  cases tree with
  | token span => cases member
  | extra span parts =>
      have notEmpty : ¬ parts.isEmpty = true := by
        rw [List.isEmpty_iff]
        exact List.ne_nil_of_mem member
      rw [leaves, if_neg notEmpty]
      exact inList member
  | node slot construct span children => exact inList member

theorem leaves_eq {tree : Tree} {construct : Construct}
    (isNode : tree.construct? = some construct) : tree.leaves = leavesOf tree.children := by
  cases tree with
  | token span => cases isNode
  | extra span parts => cases isNode
  | node slot construct span children => rfl

/-- What every tree in a document over `text` has in common. -/
structure LiesIn (text : String) (tree : Tree) : Prop where
  ordered : tree.Ordered
  shaped : tree.Shaped
  bounded : tree.Everywhere (Bounded text.toList)
  cut : ∃ cutting : Cutting text.toList, tree.leaves <:+: cutting.spans

namespace LiesIn

variable {text : String} {tree part : Tree}

theorem atPart (lies : tree.LiesIn text) (member : part ∈ tree.parts) : part.LiesIn text where
  ordered := lies.ordered.atPart member
  shaped := lies.shaped.atPart member
  bounded := lies.bounded.atPart member
  cut := by
    rcases lies.cut with ⟨cutting, inside⟩
    exact ⟨cutting, (leaves_infix_of_mem_parts member).trans inside⟩

theorem child (lies : tree.LiesIn text) (member : part ∈ tree.children) : part.LiesIn text :=
  lies.atPart (mem_parts_of_mem_children member)

theorem children_of_word (lies : tree.LiesIn text) {construct : Construct}
    (isNode : tree.construct? = some construct) (isWord : construct.isWord = true) :
    tree.children = [token tree.span] :=
  (lies.shaped.hasShape isNode).word isWord

theorem leaves_of_word (lies : tree.LiesIn text) {construct : Construct}
    (isNode : tree.construct? = some construct) (isWord : construct.isWord = true)
    (filled : tree.IsFilled) : tree.leaves = [tree.span] := by
  rw [leaves_eq isNode, lies.children_of_word isNode isWord, leavesOf, leaves_token_of_lt filled]
  rfl

end LiesIn

end Tree

namespace Document

theorem liesIn_root (document : Document) : document.root.LiesIn document.text where
  ordered := document.ordered_root
  shaped := document.shaped_root
  bounded := document.bounded_root
  cut := by
    rcases document.cut with ⟨cutting, areLeaves⟩
    exact ⟨cutting, areLeaves ▸ List.infix_refl _⟩

theorem liesIn_focus {document : Document} (place : Place document.root) :
    place.focus.LiesIn document.text :=
  place.holds_focus document.liesIn_root fun _ lies _ member => lies.child member

end Document
end Java
end CommandWiring
