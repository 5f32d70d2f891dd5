import CommandWiring.Node.Basic
import CommandWiring.Text.Slice
import CommandWiring.Java.Document
import CommandWiring.Java.Place
import CommandWiring.Java.TypeName

/-!
# The view of a document

The search for commands sees a document without what only matters to the notation. Arguments stand
directly under their call; parentheses and casts give way to what they hold; extras, the name of a
called method and its type arguments are not seen. Going up undoes exactly what going down left out.
-/

namespace CommandWiring
namespace Java

namespace Place

variable {root : Tree}

def isA (place : Place root) (construct : Construct) : Bool :=
  place.focus.construct? == some construct

/-!
# Wrappers

A wrapper is a pair of parentheses or a cast. Its operand is what it holds.
-/

/-- What a wrapper holds, itself perhaps a wrapper. -/
def held? (place : Place root) : Option (Place root) :=
  if place.isA .parenthesizedExpression then place.nodes.head?
  else if place.isA .castExpression then place.inSlot? .value
  else none

theorem focus_mem_of_mem_childrenFrom {place child : Place root} {index : Nat} {trees : List Tree}
    {h : place.focus.children.drop index = trees}
    (mem : child ∈ childrenFrom place index trees h) : child.focus ∈ trees := by
  induction trees generalizing index with
  | nil => simp [childrenFrom] at mem
  | cons first rest ih =>
      rcases List.mem_cons.mp mem with rfl | mem
      · exact List.mem_cons_self
      · exact List.mem_cons_of_mem _ (ih mem)

theorem focus_mem_of_mem_children {place child : Place root} (mem : child ∈ place.children) :
    child.focus ∈ place.focus.children :=
  focus_mem_of_mem_childrenFrom mem

theorem sizeOf_focus_lt {place child : Place root} (mem : child ∈ place.children) :
    sizeOf child.focus < sizeOf place.focus := by
  have below := focus_mem_of_mem_children mem
  cases hfocus : place.focus with
  | token => simp [hfocus, Tree.children] at below
  | extra => simp [hfocus, Tree.children] at below
  | node slot construct span children =>
      simp only [hfocus, Tree.children] at below
      have := List.sizeOf_lt_of_mem below
      simp only [Tree.node.sizeOf_spec]
      omega

theorem mem_children_of_held {place inner : Place root} (h : place.held? = some inner) :
    inner ∈ place.children := by
  unfold held? at h
  split at h
  · exact (List.mem_filter.mp (List.mem_of_mem_head? h)).1
  · split at h
    · exact List.mem_of_find?_eq_some h
    · simp at h

/-- What stands inside all wrappers. -/
def operand (place : Place root) : Place root :=
  match _h : place.held? with
  | some inner => inner.operand
  | none => place
termination_by sizeOf place.focus
decreasing_by exact sizeOf_focus_lt (mem_children_of_held _h)

/-- Whether `around` is a wrapper that has its child `place` for its content. -/
def isHeldBy (place around : Place root) : Bool :=
  around.isA .parenthesizedExpression || (around.isA .castExpression && place.fills .value)

theorem above_length_parent {place around : Place root} (h : place.parent? = some around) :
    around.above.length < place.above.length := by
  obtain ⟨focus, above, leads⟩ := place
  cases above with
  | nil => simp [parent?] at h
  | cons step above =>
      simp only [parent?, Option.some.injEq] at h
      subst h
      simp

/-- `place` with all the wrappers around it. -/
def wrapped (place : Place root) : Place root :=
  match _h : place.parent? with
  | some around => if place.isHeldBy around then around.wrapped else place
  | none => place
termination_by place.above.length
decreasing_by exact above_length_parent _h

/-- The place around all wrappers of `place`. -/
def beyond? (place : Place root) : Option (Place root) :=
  place.wrapped.parent?

/-!
# Down and up
-/

/-- Whether a call does not show its child `place`: the name of the called method, or its type
arguments. -/
def isHidden (call place : Place root) : Bool :=
  call.isA .methodInvocation && (place.fills .name || place.isA .typeArguments)

def shown (place : Place root) : List (Place root) :=
  let visible := place.nodes.filter fun child => !isHidden place child
  visible.flatMap fun child =>
    if child.isA .argumentList then child.nodes.map operand else [child.operand]

def shownParent? (place : Place root) : Option (Place root) :=
  match place.beyond? with
  | none => none
  | some around => if around.isA .argumentList then around.beyond? else some around

/-!
# Kinds and roles
-/

def kind (place : Place root) : NodeKind :=
  match place.focus.construct? with
  | some .methodInvocation => .invocation
  | some .lambdaExpression => .lambda
  | some .methodReference => .methodReference
  | some .objectCreationExpression => .constructorCall
  | some .block => .block
  | some .classDeclaration => .classDeclaration
  | some .methodDeclaration => .methodDeclaration
  | some .constructorDeclaration => .constructorDeclaration
  | some .compactConstructorDeclaration => .constructorDeclaration
  | some .fieldAccess => .fieldAccess
  | some .identifier => if place.fills .name then .other else .variableReference
  | some .variableDeclarator =>
      match place.parent? with
      | some around => if around.isA .localVariableDeclaration then .localVariable else .other
      | none => .other
  | _ => .other

def role (place : Place root) : NodeRole :=
  match place.beyond? with
  | none => .other
  | some around =>
      match around.focus.construct? with
      | some .argumentList => .argument
      | some .methodInvocation => if place.wrapped.fills .object then .target else .other
      | some .lambdaExpression => if place.wrapped.fills .body then .body else .other
      | some .methodDeclaration => if place.wrapped.fills .body then .body else .other
      | some .constructorDeclaration => if place.wrapped.fills .body then .body else .other
      | some .variableDeclarator => if place.wrapped.fills .value then .initializer else .other
      | _ => .other

end Place

/-!
# Mentioned types

A scoped type counts by its last segment alone. The receiver of a method reference counts when it is
a name, because a type is written there like an expression. Types count in text that fits nowhere
too.
-/

def isNameLike (tree : Tree) : Bool :=
  tree.construct? == some .identifier || tree.construct? == some .fieldAccess ||
    tree.construct? == some .scopedIdentifier

/-- The name of the receiver of a method reference with the parts `parts`. -/
def receiverName (textOf : Span -> String) (parts : List Tree) : List String :=
  match parts.find? Tree.isNode with
  | some receiver => if isNameLike receiver then [simpleTypeName (textOf receiver.span)] else []
  | none => []

mutual

/-- The type names in `tree` in document order, with repetitions. -/
def typeNames (textOf : Span -> String) : Tree -> List String
  | .token _ => []
  | .extra _ parts => typeNamesIn textOf parts
  | .node _ .typeIdentifier span parts => textOf span :: typeNamesIn textOf parts
  | .node _ .scopedTypeIdentifier span _ => [simpleTypeName (textOf span)]
  | .node _ .methodReference _ parts => receiverName textOf parts ++ typeNamesIn textOf parts
  | .node _ _ _ parts => typeNamesIn textOf parts

def typeNamesIn (textOf : Span -> String) : List Tree -> List String
  | [] => []
  | first :: rest => typeNames textOf first ++ typeNamesIn textOf rest

end

def distinctNames (names : List String) : List String :=
  (names.filter fun name => name != "").eraseDups

/-!
# Nodes
-/

namespace Document

def textOf (document : Document) (span : Span) : String :=
  (Text.slice? document.text span.start span.stop).getD ""

structure Node (document : Document) where
  place : Place document.root
deriving DecidableEq

def rootNode (document : Document) : document.Node :=
  ⟨.top document.root⟩

namespace Node

variable {document : Document}

def span (node : document.Node) : Span :=
  node.place.focus.span

/-- Whether the span of `other` lies within that of `node`. -/
def contains (node other : document.Node) : Bool :=
  node.span.start ≤ other.span.start && other.span.stop ≤ node.span.stop

end Node

instance (document : Document) : SyntaxNode document.Node where
  kind node := node.place.kind
  role node := node.place.role
  parent? node := node.place.shownParent?.map Node.mk
  children node := node.place.shown.map Node.mk
  mentions node := distinctNames (typeNames document.textOf node.place.focus)
  name? node := (node.place.inSlot? .name).map fun name => document.textOf name.focus.span
  text node := document.textOf node.span

end Document
end Java
end CommandWiring
