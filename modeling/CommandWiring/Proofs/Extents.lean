import CommandWiring.Proofs.View

/-!
# Where nodes begin and end

Calls, classes and constructor calls are not empty. A class begins behind the beginning of the node
that it is declared in, and what stands in a constructor call covers less than the whole call.
-/

namespace CommandWiring
namespace Java

namespace Place

variable {root : Tree}

/-!
# Kinds
-/

theorem isA_of_kind (place : Place root) :
    (place.kind = .invocation -> place.isA .methodInvocation = true) ∧
      (place.kind = .constructorCall -> place.isA .objectCreationExpression = true) ∧
      (place.kind = .classDeclaration -> place.isA .classDeclaration = true) := by
  unfold kind
  split
  all_goals try split
  all_goals try split
  all_goals simp [isA, *]

theorem isFilled_of_isA (isUnit : root.IsUnit) {place : Place root} {construct : Construct}
    (isA : place.isA construct = true) (isFull : construct.isFull = true) : place.focus.IsFilled :=
  ((place.shaped_focus isUnit).hasShape (construct_of_isA isA)).full isFull

/-!
# Fronts
-/

theorem start_lt_of_isLate (isUnit : root.IsUnit) {place around : Place root}
    {construct outer : Construct} (isParent : place.parent? = some around)
    (isA : place.isA construct = true) (isLate : construct.isLate = true)
    (isOuter : around.isA outer = true) (notWhole : outer.isUnit = false) :
    around.focus.span.start < place.focus.span.start := by
  have shape := (around.shaped_focus isUnit).hasShape (construct_of_isA isOuter)
  apply shape.late notWhole _ (focus_mem_of_mem_children (mem_children.mpr isParent))
  rw [construct_of_isA isA]
  exact isLate

theorem apart_of_parent (isUnit : root.IsUnit) {first second around : Place root}
    (one : first.parent? = some around) (other : second.parent? = some around)
    (different : first ≠ second) :
    first.focus.span.stop ≤ second.focus.span.start ∨
      second.focus.span.stop ≤ first.focus.span.start := by
  have apart := around.pairwise_children isUnit
  have related := List.Pairwise.forall_of_forall_of_flip (l := around.children)
    (R := fun first second : Place root => first ≠ second ->
      first.focus.span.stop ≤ second.focus.span.start ∨
        second.focus.span.stop ≤ first.focus.span.start)
    (fun _ _ irrefl => absurd rfl irrefl) (apart.imp fun before _ => Or.inl before)
    (apart.imp fun before _ => Or.inr before)
  exact related (mem_children.mpr one) (mem_children.mpr other) different

/-!
# Constructor calls
-/

theorem arguments_of_constructorCall (isUnit : root.IsUnit) {place : Place root}
    (isA : place.isA .objectCreationExpression = true) :
    ∃ list : Place root, list.parent? = some place ∧ list.isA .argumentList = true := by
  have holds := holds_of_isA isUnit isA
  rw [Shape.holds, List.contains_iff_mem] at holds
  rcases List.mem_filterMap.mp holds with ⟨tree, isChild, isSeat⟩
  rw [← map_focus_children] at isChild
  rcases List.mem_map.mp isChild with ⟨list, member, rfl⟩
  refine ⟨list, mem_children.mp member, ?_⟩
  rw [Place.isA, (Tree.seat?_eq_some.mp isSeat).2]
  rfl

theorem narrower_of_mem_shown (isUnit : root.IsUnit) {place child : Place root}
    (isA : place.isA .objectCreationExpression = true) (member : child ∈ place.shown) :
    place.focus.span.start < child.focus.span.start ∨
      child.focus.span.stop < place.focus.span.stop := by
  have behind {list : Place root} (isParent : list.parent? = some place)
      (isList : list.isA .argumentList = true) :
      place.focus.span.start < list.focus.span.start := by
    exact start_lt_of_isLate isUnit isParent isList rfl isA rfl
  rcases exists_exposed_of_mem_shown isUnit member with ⟨exposed, _, exposes, rfl⟩
  have inside := (under_operand isUnit exposed).span isUnit
  cases exposes with
  | direct isParent notArguments =>
      rcases arguments_of_constructorCall isUnit isA with ⟨list, inPlace, isList⟩
      have := span_of_parent isUnit inPlace
      have := isFilled_of_isA isUnit isList rfl
      unfold Tree.IsFilled at this
      have different : exposed ≠ list := by
        intro same
        subst same
        rw [isList] at notArguments
        cases notArguments
      rcases apart_of_parent isUnit isParent inPlace different with before | after
      · right
        omega
      · left
        omega
  | argument inPlace isList inList _ =>
      have := behind inPlace isList
      have := span_of_parent isUnit inList
      left
      omega

/-!
# Classes
-/

theorem exists_parent_of_mem_shown (isUnit : root.IsUnit) {place child : Place root}
    (member : child ∈ place.shown) :
    ∃ around, child.parent? = some around ∧ Under place around := by
  rcases exists_exposed_of_mem_shown isUnit member with ⟨exposed, _, exposes, rfl⟩
  refine operand_induction (motive := fun p => ∃ around, p.parent? = some around ∧
    Under place around) exposed ?_ ?_
  · cases exposes with
    | direct isParent _ => exact ⟨place, isParent, .here⟩
    | argument inPlace _ inList _ => exact ⟨_, inList, .of_parent inPlace⟩
  · rintro outer inner ⟨around, isParent, under⟩ held
    exact ⟨outer, ((held?_eq_some isUnit).mp held).2.1, .down under isParent⟩

theorem eq_top_of_parent_eq_none {place : Place root} (noParent : place.parent? = none) :
    place = top root := by
  rcases place with ⟨focus, above, leads⟩
  cases leads with
  | here => rfl
  | down _ _ => cases noParent

theorem start_lt_of_mem_shown (isUnit : root.IsUnit) {place child : Place root}
    (member : child ∈ place.shown) (isClass : child.isA .classDeclaration = true)
    (notTop : place.parent? ≠ none) : place.focus.span.start < child.focus.span.start := by
  rcases exists_parent_of_mem_shown isUnit member with ⟨around, isParent, under⟩
  rcases seat_of_parent isUnit isParent (construct_of_isA isClass) with ⟨outer, isOuter, _⟩
  have isA : around.isA outer = true := by
    rw [Place.isA, isOuter]
    exact beq_self_eq_true _
  have notWhole : outer.isUnit = false := by
    rw [Bool.eq_false_iff]
    intro isWhole
    have noParent := parent_eq_none_of_isUnit isUnit isOuter isWhole
    cases under with
    | here => exact notTop noParent
    | down _ hasParent =>
        rw [noParent] at hasParent
        cases hasParent
  have := start_lt_of_isLate isUnit isParent isClass rfl isA notWhole
  have := under.span isUnit
  omega

end Place

/-!
# Nodes
-/

namespace Document

open SyntaxNode

variable {document : Document} {depth steps : Nat} {upper lower : document.Node}

theorem Node.isFilled_of_kind (node : document.Node)
    (h : kind node = .invocation ∨ kind node = .constructorCall ∨ kind node = .classDeclaration) :
    node.span.start < node.span.stop := by
  rcases node.place.isA_of_kind with ⟨isCall, isConstructorCall, isClass⟩
  rcases h with h | h | h
  · exact Place.isFilled_of_isA document.isUnit_root (isCall h) rfl
  · exact Place.isFilled_of_isA document.isUnit_root (isConstructorCall h) rfl
  · exact Place.isFilled_of_isA document.isUnit_root (isClass h) rfl

theorem span_ne_of_descends (reached : Descends document.rootNode depth upper)
    (below : Descends upper (steps + 1) lower) (isCall : kind upper = .constructorCall) :
    upper.span ≠ lower.span := by
  intro same
  rcases below.exists_child with ⟨child, member, rest⟩
  have inside := document.ordered.inside_of_descends (reached.down member) rest
  rcases List.mem_map.mp member with ⟨place, isShown, rfl⟩
  have narrower := Place.narrower_of_mem_shown document.isUnit_root
    (upper.place.isA_of_kind.2.1 isCall) isShown
  have sameStart := congrArg Span.start same
  have sameStop := congrArg Span.stop same
  simp only [Node.span] at *
  omega

/-- Of two nodes that begin at one place and are not empty, one is below the other. -/
theorem nested_of_start_eq {first second : document.Node} {other : Nat}
    (reached : Descends document.rootNode depth first)
    (otherReached : Descends document.rootNode other second)
    (filled : first.span.start < first.span.stop)
    (otherFilled : second.span.start < second.span.stop)
    (same : first.span.start = second.span.start) :
    first = second ∨ (∃ steps, Descends first (steps + 1) second) ∨
      ∃ steps, Descends second (steps + 1) first := by
  rcases document.ordered.comparable reached otherReached with
    ⟨steps, below⟩ | ⟨steps, below⟩ | before | behind
  · cases steps with
    | zero =>
        cases below with
        | here => exact Or.inl rfl
    | succ steps => exact Or.inr (Or.inl ⟨steps, below⟩)
  · cases steps with
    | zero =>
        cases below with
        | here => exact Or.inl rfl
    | succ steps => exact Or.inr (Or.inr ⟨steps, below⟩)
  · omega
  · omega

theorem eq_of_span_eq {first second : document.Node} {other : Nat}
    (reached : Descends document.rootNode depth first)
    (otherReached : Descends document.rootNode other second)
    (isCall : kind first = .constructorCall) (otherIsCall : kind second = .constructorCall)
    (same : first.span = second.span) : first = second := by
  rcases nested_of_start_eq reached otherReached (first.isFilled_of_kind (Or.inr (Or.inl isCall)))
    (second.isFilled_of_kind (Or.inr (Or.inl otherIsCall))) (congrArg Span.start same) with
    rfl | ⟨steps, below⟩ | ⟨steps, below⟩
  · rfl
  · exact absurd same (span_ne_of_descends reached below isCall)
  · exact absurd same.symm (span_ne_of_descends otherReached below otherIsCall)

theorem Node.stop_le (node : document.Node) (reached : Descends document.rootNode depth node) :
    node.span.stop ≤ document.text.utf8ByteSize := by
  rw [← document.stop_root]
  exact (document.ordered.inside_of_descends .here reached).2

theorem kind_rootNode (document : Document) : kind document.rootNode = .other := by
  rcases document.isUnit_root.exists_construct with ⟨construct, isRoot, isWhole⟩
  have isTop : (Place.top document.root).focus.construct? = some construct := isRoot
  change (Place.top document.root).kind = .other
  rw [Place.kind, isTop]
  cases construct <;> first | rfl | cases isWhole

theorem parent_ne_none_of_descends (reached : Descends document.rootNode depth upper)
    (below : Descends upper steps lower) (notTop : upper ≠ document.rootNode) :
    lower.place.parent? ≠ none := by
  intro noParent
  have isTop : lower = document.rootNode :=
    congrArg Node.mk (Place.eq_top_of_parent_eq_none noParent)
  cases below with
  | here => exact notTop isTop
  | down before member =>
      have isParent := document.coherent.back (reached.trans before) member
      rw [isTop, document.coherent.top] at isParent
      cases isParent

theorem start_lt_of_descends (reached : Descends document.rootNode depth upper)
    (below : Descends upper (steps + 1) lower) (isClass : kind lower = .classDeclaration)
    (notTop : upper ≠ document.rootNode) : upper.span.start < lower.span.start := by
  cases below with
  | down before member =>
      have inside := document.ordered.inside_of_descends reached before
      rcases List.mem_map.mp member with ⟨place, isShown, rfl⟩
      have less := Place.start_lt_of_mem_shown document.isUnit_root isShown
        (place.isA_of_kind.2.2 isClass) (parent_ne_none_of_descends reached before notTop)
      exact Nat.lt_of_le_of_lt inside.1 less

end Document
end Java
end CommandWiring
