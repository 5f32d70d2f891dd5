import CommandWiring.Java.Construct
import CommandWiring.Java.Span

/-!
# Source trees

A source tree covers spans of a text. Its nodes stand for constructs of the language, and its tokens
for what is read as one. An extra stands between them and belongs to no construct: a comment, or
text that fits nowhere, with the parts that could be made out in it.
-/

namespace CommandWiring
namespace Java

inductive Tree where
  | token (span : Span)
  | extra (span : Span) (parts : List Tree)
  | node (slot : Slot) (construct : Construct) (span : Span) (children : List Tree)

namespace Tree

def comment (span : Span) : Tree :=
  extra span []

def span : Tree -> Span
  | token span => span
  | extra span _ => span
  | node _ _ span _ => span

/-- What a node is made of. What stands in an extra belongs to no node. -/
def children : Tree -> List Tree
  | node _ _ _ children => children
  | _ => []

def parts : Tree -> List Tree
  | token _ => []
  | extra _ parts => parts
  | node _ _ _ children => children

def construct? : Tree -> Option Construct
  | node _ construct _ _ => some construct
  | _ => none

def slot : Tree -> Slot
  | node slot _ _ _ => slot
  | _ => .plain

/-- Whether the tree is a node of some construct. Tokens and extras are none. -/
def isNode (tree : Tree) : Bool :=
  tree.construct?.isSome

/-- A part that is missing from the text covers nothing. -/
def IsFilled (tree : Tree) : Prop :=
  tree.span.start < tree.span.stop

mutual

/-- What is read as one in a tree, in order. A token that is missing from the text does not count.
-/
def leaves : Tree -> List Span
  | token span => if span.start < span.stop then [span] else []
  | extra span parts => if parts.isEmpty then [span] else leavesOf parts
  | node _ _ _ children => leavesOf children

def leavesOf : List Tree -> List Span
  | [] => []
  | first :: rest => leaves first ++ leavesOf rest

end

theorem leavesOf_append (first second : List Tree) :
    leavesOf (first ++ second) = leavesOf first ++ leavesOf second := by
  induction first with
  | nil => rfl
  | cons tree rest ih => rw [List.cons_append, leavesOf, leavesOf, ih, List.append_assoc]

theorem leaves_token_of_lt {span : Span} (filled : span.start < span.stop) :
    (token span).leaves = [span] := by
  rw [leaves, if_pos filled]

/-- Every part of a tree has a property, and so has the whole tree. -/
inductive Everywhere (holds : Tree -> Prop) : Tree -> Prop where
  | intro {tree : Tree} : holds tree -> (∀ part ∈ tree.parts, Everywhere holds part) ->
      Everywhere holds tree

namespace Everywhere

variable {holds : Tree -> Prop} {tree part : Tree}

theorem here (everywhere : Everywhere holds tree) : holds tree := by
  cases everywhere with
  | intro here _ => exact here

theorem atPart (everywhere : Everywhere holds tree) (member : part ∈ tree.parts) :
    Everywhere holds part := by
  cases everywhere with
  | intro _ below => exact below part member

end Everywhere

section

variable (holds : Tree -> Prop) [DecidablePred holds]

mutual

def decideEverywhere : (tree : Tree) -> Decidable (Everywhere holds tree)
  | token span =>
      decidable_of_iff (holds (token span)) ⟨fun here => .intro here nofun, Everywhere.here⟩
  | extra span parts =>
      match decideEverywhereIn parts with
      | isTrue below =>
          decidable_of_iff (holds (extra span parts))
            ⟨fun here => .intro here below, Everywhere.here⟩
      | isFalse notBelow => isFalse fun everywhere => notBelow fun _ => everywhere.atPart
  | node slot construct span children =>
      match decideEverywhereIn children with
      | isTrue below =>
          decidable_of_iff (holds (node slot construct span children))
            ⟨fun here => .intro here below, Everywhere.here⟩
      | isFalse notBelow => isFalse fun everywhere => notBelow fun _ => everywhere.atPart

def decideEverywhereIn : (trees : List Tree) -> Decidable (∀ part ∈ trees, Everywhere holds part)
  | [] => isTrue nofun
  | first :: rest =>
      match decideEverywhere first with
      | isTrue isFirst =>
          match decideEverywhereIn rest with
          | isTrue areRest => isTrue (List.forall_mem_cons.mpr ⟨isFirst, areRest⟩)
          | isFalse notRest => isFalse fun all => notRest (List.forall_mem_cons.mp all).2
      | isFalse notFirst => isFalse fun all => notFirst (List.forall_mem_cons.mp all).1

end

instance (tree : Tree) : Decidable (Everywhere holds tree) :=
  decideEverywhere holds tree

end

theorem mem_parts_of_mem_children {tree child : Tree} (member : child ∈ tree.children) :
    child ∈ tree.parts := by
  cases tree with
  | token span => cases member
  | extra span parts => cases member
  | node slot construct span children => exact member

end Tree
end Java
end CommandWiring
