import CommandWiring.Java.Reader
import CommandWiring.Proofs.Extents

/-!
# What the view shows

The view of a document is a tree whose nodes are those of the document, apart from the lists of
arguments, the parentheses and the casts, and apart from what calls and casts leave out together
with all that is below.
-/

namespace CommandWiring
namespace Java

namespace Place

variable {root : Tree}

/-!
# What is left out
-/

/-- Whether `around` leaves out its child `place` and all below it: a call leaves out the name of
the called method and its type arguments, a cast leaves out its types. -/
def omits (around place : Place root) : Bool :=
  isHidden around place || (around.isA .castExpression && !place.fills .value)

/-- `place` stands in a part that is left out. -/
def IsConcealed (place : Place root) : Prop :=
  ∃ upper around, upper.parent? = some around ∧ omits around upper = true ∧ Under upper place

theorem not_isConcealed_top : ¬ IsConcealed (top root) := by
  rintro ⟨upper, around, isParent, _, under⟩
  cases under with
  | here => cases isParent
  | down _ noParent => cases noParent

theorem isConcealed_iff {place around : Place root} (isParent : place.parent? = some around) :
    IsConcealed place ↔ omits around place = true ∨ IsConcealed around := by
  constructor
  · intro given
    rcases given with ⟨upper, other, isOther, omitted, under⟩
    cases under with
    | here =>
        rcases parent_unique isParent isOther with rfl
        exact Or.inl omitted
    | down before alsoParent =>
        rcases parent_unique isParent alsoParent with rfl
        exact Or.inr ⟨upper, other, isOther, omitted, before⟩
  · intro given
    rcases given with omitted | ⟨upper, other, isOther, omitted, under⟩
    · exact ⟨place, around, isParent, omitted, .here⟩
    · exact ⟨upper, other, isOther, omitted, .down under isParent⟩

theorem omits_of_not_isA {place around : Place root}
    (notCall : around.isA .methodInvocation = false)
    (notCast : around.isA .castExpression = false) : omits around place = false := by
  rw [omits, isHidden, notCall, notCast]
  rfl

theorem omits_of_notWrapper {place around : Place root} (notWrapper : around.isWrapper = false) :
    omits around place = isHidden around place := by
  rw [isWrapper, Bool.or_eq_false_iff] at notWrapper
  rw [omits, notWrapper.2, Bool.false_and, Bool.or_false]

theorem isA_eq_false {place : Place root} {construct other : Construct}
    (isA : place.isA construct = true) (different : construct ≠ other) :
    place.isA other = false := by
  rw [Place.isA, construct_of_isA isA, beq_eq_false_iff_ne]
  intro same
  exact different (Option.some.inj same)

theorem omits_of_held {place around : Place root} (held : place.isHeldBy around = true) :
    omits around place = false := by
  rw [isHeldBy, Bool.or_eq_true, Bool.and_eq_true] at held
  rcases held with paren | ⟨cast, fills⟩
  · exact omits_of_not_isA (isA_eq_false paren (by decide)) (isA_eq_false paren (by decide))
  · rw [omits, isHidden, isA_eq_false cast (by decide), fills, Bool.not_true, Bool.and_false]
    rfl

theorem isNode_of_parent {place around : Place root} (isParent : place.parent? = some around) :
    around.focus.isNode = true := by
  have member := focus_mem_of_mem_children (mem_children.mpr isParent)
  cases hfocus : around.focus with
  | token span => simp [hfocus, Tree.children] at member
  | extra span parts => simp [hfocus, Tree.children] at member
  | node slot construct span children => rfl

/-!
# Shown places are not left out
-/

theorem mem_exposed {place child : Place root} :
    child ∈ place.exposed ↔
      (child.isA .argumentList = false ∧ child ∈ place.nodes ∧ isHidden place child = false) ∨
        ∃ list, list.isA .argumentList = true ∧ list ∈ place.nodes ∧
          isHidden place list = false ∧ child ∈ list.nodes := by
  simp only [exposed, List.mem_flatMap, List.mem_filter, Bool.not_eq_true']
  constructor
  · intro given
    rcases given with ⟨visible, ⟨isNode, notHidden⟩, below⟩
    cases isList : visible.isA .argumentList with
    | true =>
        rw [isList] at below
        exact Or.inr ⟨visible, isList, isNode, notHidden, below⟩
    | false =>
        rw [isList] at below
        rcases List.mem_singleton.mp below with rfl
        exact Or.inl ⟨isList, isNode, notHidden⟩
  · intro given
    rcases given with ⟨notList, isNode, notHidden⟩ | ⟨list, isList, isNode, notHidden, inList⟩
    · refine ⟨child, ⟨isNode, notHidden⟩, ?_⟩
      rw [notList]
      exact List.mem_singleton_self child
    · refine ⟨list, ⟨isNode, notHidden⟩, ?_⟩
      rw [isList]
      exact inList

theorem not_isConcealed_of_mem_exposed {place child : Place root}
    (notWrapper : place.isWrapper = false) (seen : ¬ IsConcealed place)
    (member : child ∈ place.exposed) : ¬ IsConcealed child := by
  have notHere {visible : Place root} (isNode : visible ∈ place.nodes)
      (notHidden : isHidden place visible = false) : ¬ IsConcealed visible := by
    rw [isConcealed_iff (mem_nodes.mp isNode).1, omits_of_notWrapper notWrapper, notHidden]
    simp [seen]
  rcases mem_exposed.mp member with ⟨_, isNode, notHidden⟩ |
    ⟨list, isList, isNode, notHidden, inList⟩
  · exact notHere isNode notHidden
  · rw [isConcealed_iff (mem_nodes.mp inList).1,
      omits_of_not_isA (isA_eq_false isList (by decide)) (isA_eq_false isList (by decide))]
    simp [notHere isNode notHidden]

theorem not_isConcealed_operand (isUnit : root.IsUnit) {place : Place root}
    (seen : ¬ IsConcealed place) : ¬ IsConcealed place.operand := by
  refine operand_induction (motive := fun p => ¬ IsConcealed p) place seen ?_
  intro outer inner notConcealed held
  rcases (held?_eq_some isUnit).mp held with ⟨_, isParent, isHeld⟩
  rw [isConcealed_iff isParent, omits_of_held isHeld]
  simp [notConcealed]

theorem not_isConcealed_of_mem_shown (isUnit : root.IsUnit) {place child : Place root}
    (notWrapper : place.isWrapper = false) (seen : ¬ IsConcealed place)
    (member : child ∈ place.shown) : ¬ IsConcealed child := by
  rw [shown_eq_map_exposed] at member
  rcases List.mem_map.mp member with ⟨exposed, isExposed, rfl⟩
  exact not_isConcealed_operand isUnit
    (not_isConcealed_of_mem_exposed notWrapper seen isExposed)

/-!
# Up through wrappers
-/

theorem wrapped_induction {motive : Place root -> Prop} (place : Place root)
    (start : motive place)
    (handed : ∀ inner around, motive inner -> inner.parent? = some around ->
      inner.isHeldBy around = true -> motive around) : motive place.wrapped := by
  fun_induction wrapped place with
  | case1 inner around isParent held ih => exact ih (handed inner around start isParent held)
  | case2 => exact start
  | case3 => exact start

theorem isHeldBy_of_wrapped {place around : Place root}
    (isParent : place.wrapped.parent? = some around) :
    place.wrapped.isHeldBy around = false := by
  fun_induction wrapped place with
  | case1 inner outer isOuter held ih => exact ih isParent
  | case2 place other isOther notHeld =>
      rcases parent_unique isParent isOther with rfl
      exact Bool.eq_false_iff.mpr notHeld
  | case3 place isTop =>
      rw [isTop] at isParent
      cases isParent

theorem operand_of_held {place inner : Place root} (held : place.held? = some inner) :
    place.operand = inner.operand := by
  rw [operand]
  split
  · next other isOther =>
      rcases Option.some.inj (held.symm.trans isOther) with rfl
      rfl
  · next none =>
      rw [held] at none
      cases none

theorem operand_of_notWrapper (isUnit : root.IsUnit) {place : Place root}
    (notWrapper : place.isWrapper = false) : place.operand = place := by
  have holdsNone := (held?_eq_none isUnit).mpr notWrapper
  rw [operand]
  split
  · next inner held =>
      rw [holdsNone] at held
      cases held
  · rfl

theorem operand_wrapped (isUnit : root.IsUnit) {place : Place root}
    (isNode : place.focus.isNode = true) :
    place.wrapped.operand = place.operand ∧ place.wrapped.focus.isNode = true := by
  refine wrapped_induction (motive := fun p => p.operand = place.operand ∧
    p.focus.isNode = true) place ⟨rfl, isNode⟩ ?_
  rintro inner around ⟨same, innerIsNode⟩ isParent held
  refine ⟨?_, isNode_of_parent isParent⟩
  rw [operand_of_held ((held?_eq_some isUnit).mpr ⟨innerIsNode, isParent, held⟩)]
  exact same

theorem under_wrapped (place : Place root) : Under place.wrapped place := by
  refine wrapped_induction (motive := fun p => Under p place) place .here ?_
  intro inner around under isParent _
  exact (Under.of_parent isParent).trans under

theorem Under.not_isConcealed {upper lower : Place root} (under : Under upper lower)
    (seen : ¬ IsConcealed lower) : ¬ IsConcealed upper := by
  rintro ⟨top, around, isParent, omitted, above⟩
  exact seen ⟨top, around, isParent, omitted, above.trans under⟩

theorem Under.length_le {upper lower : Place root} (under : Under upper lower) :
    upper.above.length ≤ lower.above.length := by
  induction under with
  | here => exact Nat.le_refl _
  | down _ isParent ih => exact Nat.le_trans ih (Nat.le_of_lt (above_length_parent isParent))

/-!
# What is not left out is shown
-/

theorem exists_call_of_argumentList (isUnit : root.IsUnit) {list : Place root}
    (isList : list.isA .argumentList = true) :
    ∃ call : Place root, list.parent? = some call ∧ call.Shows := by
  cases isParent : list.parent? with
  | none =>
      rw [eq_top_of_parent_eq_none isParent, (shows_top isUnit).notArguments] at isList
      cases isList
  | some call =>
      refine ⟨call, rfl, ?_⟩
      have takesNone {construct : Construct} (none : construct.takesArguments = false) :
          call.isA construct = false := by
        rw [Bool.eq_false_iff]
        intro isA
        rw [takesArguments_of_parent isUnit isParent isA none] at isList
        cases isList
      refine ⟨isNode_of_parent isParent, ?_, takesNone rfl⟩
      rw [isWrapper, takesNone rfl, takesNone rfl]
      rfl

theorem notWrapper_of_omits {place around : Place root} (notHeld : place.isHeldBy around = false)
    (notOmitted : omits around place = false) : around.isWrapper = false := by
  rw [isHeldBy, Bool.or_eq_false_iff] at notHeld
  rw [omits, Bool.or_eq_false_iff] at notOmitted
  rw [isWrapper, notHeld.1, Bool.false_or, Bool.eq_false_iff]
  intro cast
  rw [cast, Bool.true_and] at notHeld notOmitted
  rw [notHeld.2] at notOmitted
  cases notOmitted.2

/-- The nearest place above that can be shown shows a place that is not left out. -/
theorem exists_shows_of_not_isConcealed (isUnit : root.IsUnit) {place : Place root}
    (shows : place.Shows) (seen : ¬ IsConcealed place) (notTop : place ≠ top root) :
    ∃ around : Place root, around.Shows ∧ ¬ IsConcealed around ∧ place ∈ around.shown ∧
      around.above.length < place.above.length := by
  rcases operand_wrapped isUnit shows.isNode with ⟨isOperand, wrappedIsNode⟩
  rw [operand_of_notWrapper isUnit shows.notWrapper] at isOperand
  have under := place.under_wrapped
  have wrappedSeen := under.not_isConcealed seen
  have shownBy {around : Place root} (member : place.wrapped ∈ around.exposed) :
      place ∈ around.shown := by
    rw [shown_eq_map_exposed]
    exact List.mem_map.mpr ⟨_, member, isOperand⟩
  cases isParent : place.wrapped.parent? with
  | none =>
      -- the top of a document is no wrapper, so `place` would be the top itself
      rw [eq_top_of_parent_eq_none isParent,
        operand_of_notWrapper isUnit (shows_top isUnit).notWrapper] at isOperand
      exact absurd isOperand.symm notTop
  | some around =>
      rw [isConcealed_iff isParent, not_or, Bool.not_eq_true] at wrappedSeen
      rcases wrappedSeen with ⟨notOmitted, aroundSeen⟩
      have notWrapper := notWrapper_of_omits (isHeldBy_of_wrapped isParent) notOmitted
      have shorter : around.above.length < place.above.length :=
        Nat.lt_of_lt_of_le (above_length_parent isParent) under.length_le
      have inAround : place.wrapped ∈ around.nodes := mem_nodes.mpr ⟨isParent, wrappedIsNode⟩
      cases isList : around.isA .argumentList with
      | true =>
          rcases exists_call_of_argumentList isUnit isList with ⟨call, isCall, callShows⟩
          rw [isConcealed_iff isCall, not_or, Bool.not_eq_true,
            omits_of_notWrapper callShows.notWrapper] at aroundSeen
          refine ⟨call, callShows, aroundSeen.2, shownBy (mem_exposed.mpr (Or.inr ?_)),
            Nat.lt_trans (above_length_parent isCall) shorter⟩
          exact ⟨around, isList, mem_nodes.mpr ⟨isCall, isNode_of_parent isParent⟩, aroundSeen.1,
            inAround⟩
      | false =>
          rw [omits_of_notWrapper notWrapper] at notOmitted
          refine ⟨around, ⟨isNode_of_parent isParent, notWrapper, isList⟩, aroundSeen,
            shownBy (mem_exposed.mpr (Or.inl ⟨?_, inAround, notOmitted⟩)), shorter⟩
          rw [Bool.eq_false_iff]
          intro isArguments
          -- a list of arguments is no wrapper, so `place` would be one
          rw [operand_of_notWrapper isUnit
            (notWrapper_of_isA isArguments (by decide) (by decide))] at isOperand
          rw [isOperand, shows.notArguments] at isArguments
          cases isArguments

end Place

/-!
# The nodes of the view
-/

namespace Document

open SyntaxNode

variable {document : Document}

theorem not_isConcealed_of_descends {steps : Nat} {node : document.Node}
    (reached : Descends document.rootNode steps node) : ¬ node.place.IsConcealed := by
  induction reached with
  | here => exact Place.not_isConcealed_top
  | down before member ih =>
      rcases List.mem_map.mp member with ⟨place, isShown, rfl⟩
      exact Place.not_isConcealed_of_mem_shown document.isUnit_root
        (shows_of_descends before).notWrapper ih isShown

theorem exists_descends (place : Place document.root) (shows : place.Shows)
    (seen : ¬ place.IsConcealed) : ∃ steps, Descends document.rootNode steps ⟨place⟩ := by
  by_cases isTop : place = .top document.root
  · subst isTop
    exact ⟨0, .here⟩
  · rcases Place.exists_shows_of_not_isConcealed document.isUnit_root shows seen isTop with
      ⟨around, aroundShows, aroundSeen, isShown, shorter⟩
    rcases exists_descends around aroundShows aroundSeen with ⟨steps, reached⟩
    exact ⟨steps + 1, reached.down (List.mem_map_of_mem isShown)⟩
termination_by place.above.length

/-- The nodes of the view are those of the document, apart from wrappers and lists of arguments, and
apart from what is left out. -/
theorem exists_descends_iff {node : document.Node} :
    (∃ steps, Descends document.rootNode steps node) ↔
      node.place.Shows ∧ ¬ node.place.IsConcealed := by
  constructor
  · intro given
    rcases given with ⟨steps, reached⟩
    exact ⟨shows_of_descends reached, not_isConcealed_of_descends reached⟩
  · intro given
    exact exists_descends node.place given.1 given.2

end Document
end Java
end CommandWiring
