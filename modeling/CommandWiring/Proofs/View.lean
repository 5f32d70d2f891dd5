import CommandWiring.Proofs.Descent
import CommandWiring.Proofs.Places

/-!
# Up and down in the view

The view leaves out wrappers, lists of arguments and the names of called methods on the way down.
Going up leaves out the same: each child that the view shows has the place that shows it for its
parent. So the view of a document is coherent, and it is ordered because the document is.
-/

namespace CommandWiring
namespace Java

namespace Place

variable {root : Tree}

/-!
# Slots
-/

theorem path_of_getElem?_children {place child : Place root} {index : Nat}
    (h : place.children[index]? = some child) : child.path = index :: place.path := by
  have onPaths := congrArg (Option.map path) h
  rw [← List.getElem?_map, map_path_children, List.getElem?_map, Option.map_some] at onPaths
  rcases Option.map_eq_some_iff.mp onPaths with ⟨number, isNumber, isPath⟩
  rcases List.getElem?_eq_some_iff.mp isNumber with ⟨_, rfl⟩
  simpa using isPath.symm

theorem fills_iff {place inner : Place root} {slot : Slot} (isParent : inner.parent? = some place) :
    inner.fills slot = true ↔
      ∃ index, place.children.findIdx? (fun child => child.focus.slot == slot) = some index ∧
        place.children[index]? = some inner := by
  have member := mem_children.mpr isParent
  rcases inner with ⟨focus, above, leads⟩
  cases leads with
  | here => cases isParent
  | @down around _ index above before isChild =>
      rcases Option.some.inj isParent with rfl
      have isFirst : (Place.mk focus (⟨around, index⟩ :: above) (.down before isChild)).fills slot =
          ((Place.mk around above before).children.findIdx?
            (fun child => child.focus.slot == slot) == some index) := by
        change (around.children.findIdx? (fun child => child.slot == slot) == some index) = _
        rw [← map_focus_children ⟨around, above, before⟩, List.findIdx?_map]
        rfl
      rcases List.getElem?_of_mem member with ⟨number, isListed⟩
      obtain rfl : index = number := (List.cons.inj (path_of_getElem?_children isListed)).1
      rw [isFirst, beq_iff_eq]
      constructor
      · intro found
        exact ⟨index, found, isListed⟩
      · intro given
        rcases given with ⟨number, found, sameListed⟩
        obtain rfl : index = number := (List.cons.inj (path_of_getElem?_children sameListed)).1
        exact found

theorem inSlot?_eq_some {place inner : Place root} {slot : Slot} :
    place.inSlot? slot = some inner ↔ inner.parent? = some place ∧ inner.fills slot = true := by
  constructor
  · intro found
    have isParent := mem_children.mp (List.mem_of_find?_eq_some found)
    rw [inSlot?, List.find?_eq_bind_findIdx?_getElem?] at found
    exact ⟨isParent, (fills_iff isParent).mpr (Option.bind_eq_some_iff.mp found)⟩
  · intro given
    rcases given with ⟨isParent, fills⟩
    rw [inSlot?, List.find?_eq_bind_findIdx?_getElem?]
    exact Option.bind_eq_some_iff.mpr ((fills_iff isParent).mp fills)

/-!
# Wrappers
-/

def isWrapper (place : Place root) : Bool :=
  place.isA .parenthesizedExpression || place.isA .castExpression

theorem construct_of_isA {place : Place root} {construct : Construct}
    (h : place.isA construct = true) : place.focus.construct? = some construct :=
  beq_iff_eq.mp h

theorem holds_of_isA (isUnit : root.IsUnit) {place : Place root} {construct : Construct}
    (h : place.isA construct = true) :
    Shape.holds construct (place.focus.children.filterMap Tree.seat?) = true := by
  have admits := (place.shaped_focus isUnit).admits (construct_of_isA h)
  exact (Shape.admits_iff.mp admits).2.2.2

theorem length_nodes (place : Place root) :
    place.nodes.length = (place.focus.children.filterMap Tree.seat?).length := by
  rw [nodes, ← List.countP_eq_length_filter, List.length_filterMap_eq_countP,
    ← map_focus_children, List.countP_map]
  apply List.countP_congr
  intro child _
  cases hfocus : child.focus <;> simp [hfocus, Tree.isNode, Tree.construct?, Tree.seat?]

theorem nodes_of_parenthesized (isUnit : root.IsUnit) {place : Place root}
    (h : place.isA .parenthesizedExpression = true) : ∃ inner, place.nodes = [inner] := by
  have single := holds_of_isA isUnit h
  rw [Shape.holds, beq_iff_eq, ← length_nodes] at single
  exact List.length_eq_one_iff.mp single

theorem isNode_of_slot {tree : Tree} {slot : Slot} (h : tree.slot = slot) (named : slot ≠ .plain) :
    tree.isNode = true := by
  cases tree with
  | token span => exact absurd h.symm named
  | extra span parts => exact absurd h.symm named
  | node slot construct span children => rfl

theorem exists_inSlot? {place : Place root} {slot : Slot}
    (single : (Shape.inSlot slot (place.focus.children.filterMap Tree.seat?)).length = 1) :
    ∃ inner, place.inSlot? slot = some inner := by
  rcases List.length_eq_one_iff.mp single with ⟨seat, isSingle⟩
  have member : seat ∈ Shape.inSlot slot (place.focus.children.filterMap Tree.seat?) := by
    rw [isSingle]
    exact List.mem_singleton_self seat
  rcases List.mem_filter.mp member with ⟨isSeat, inSlot⟩
  rcases List.mem_filterMap.mp isSeat with ⟨tree, isChild, ofTree⟩
  rw [← map_focus_children] at isChild
  rcases List.mem_map.mp isChild with ⟨child, isPlace, rfl⟩
  apply Option.isSome_iff_exists.mp
  rw [inSlot?, List.find?_isSome]
  refine ⟨child, isPlace, ?_⟩
  rw [(Tree.seat?_eq_some.mp ofTree).1]
  exact inSlot

theorem value_of_cast (isUnit : root.IsUnit) {place : Place root}
    (h : place.isA .castExpression = true) : ∃ inner, place.inSlot? .value = some inner := by
  have single := holds_of_isA isUnit h
  rw [Shape.holds, beq_iff_eq] at single
  exact exists_inSlot? single

theorem name_of_declaresType (isUnit : root.IsUnit) {place : Place root} {construct : Construct}
    (h : place.isA construct = true) (declares : construct.declaresType = true) :
    ∃ inner, place.inSlot? .name = some inner := by
  have single := holds_of_isA isUnit h
  rw [Shape.holds_of_declaresType declares, Bool.and_eq_true, beq_iff_eq] at single
  exact exists_inSlot? single.1

theorem held?_eq_some (isUnit : root.IsUnit) {place inner : Place root} :
    place.held? = some inner ↔
      inner.focus.isNode = true ∧ inner.parent? = some place ∧ inner.isHeldBy place = true := by
  unfold held? isHeldBy
  cases paren : place.isA .parenthesizedExpression with
  | true =>
      rcases nodes_of_parenthesized isUnit paren with ⟨single, isSingle⟩
      have single_iff :
          single = inner ↔ inner.parent? = some place ∧ inner.focus.isNode = true := by
        rw [← mem_nodes, isSingle, List.mem_singleton, eq_comm]
      simp [isSingle, single_iff, and_comm]
  | false =>
      cases cast : place.isA .castExpression with
      | true =>
          simp only [Bool.false_eq_true, if_false, if_true, Bool.false_or, Bool.true_and,
            inSlot?_eq_some]
          constructor
          · intro given
            rcases given with ⟨isParent, fills⟩
            rcases (fills_iff isParent).mp fills with ⟨index, found, listed⟩
            have isValue := List.find?_some (inSlot?_eq_some.mpr ⟨isParent, fills⟩)
            exact ⟨isNode_of_slot (beq_iff_eq.mp isValue) nofun, isParent, fills⟩
          · intro given
            rcases given with ⟨_, isParent, fills⟩
            exact ⟨isParent, fills⟩
      | false => simp

theorem held?_eq_none (isUnit : root.IsUnit) {place : Place root} :
    place.held? = none ↔ place.isWrapper = false := by
  unfold held? isWrapper
  cases paren : place.isA .parenthesizedExpression with
  | true =>
      rcases nodes_of_parenthesized isUnit paren with ⟨inner, isSingle⟩
      simp [isSingle]
  | false =>
      cases cast : place.isA .castExpression with
      | true =>
          rcases value_of_cast isUnit cast with ⟨inner, isValue⟩
          simp [isValue]
      | false => simp

theorem isHeldBy_eq_false {place around : Place root} (h : around.isWrapper = false) :
    place.isHeldBy around = false := by
  rw [isWrapper, Bool.or_eq_false_iff] at h
  rw [isHeldBy, h.1, h.2, Bool.false_and, Bool.or_self]

theorem wrapped_of_held {place around : Place root} (isParent : place.parent? = some around)
    (held : place.isHeldBy around = true) : place.wrapped = around.wrapped := by
  rw [wrapped]
  split
  · next other isOther =>
      rw [isParent] at isOther
      rcases Option.some.inj isOther with rfl
      rw [if_pos held]
  · next none =>
      rw [isParent] at none
      cases none

theorem wrapped_of_parent {place around : Place root} (isParent : place.parent? = some around)
    (notWrapper : around.isWrapper = false) : place.wrapped = place := by
  rw [wrapped]
  split
  · next other isOther =>
      rw [isParent] at isOther
      rcases Option.some.inj isOther with rfl
      rw [isHeldBy_eq_false notWrapper]
      rfl
  · rfl

theorem wrapped_of_top {place : Place root} (isTop : place.parent? = none) :
    place.wrapped = place := by
  rw [wrapped]
  split
  · next other isOther =>
      rw [isTop] at isOther
      cases isOther
  · rfl

/-!
# Operands
-/

/-- What the view can show: a node that is neither a wrapper nor a list of arguments. -/
structure Shows (place : Place root) : Prop where
  isNode : place.focus.isNode = true
  notWrapper : place.isWrapper = false
  notArguments : place.isA .argumentList = false

theorem takesArguments_of_parent (isUnit : root.IsUnit) {place around : Place root}
    {construct : Construct} (isParent : place.parent? = some around)
    (isA : around.isA construct = true) (takesNone : construct.takesArguments = false) :
    place.isA .argumentList = false := by
  rw [Bool.eq_false_iff]
  intro isArguments
  rcases seat_of_parent isUnit isParent (construct_of_isA isArguments) with
    ⟨outer, isOuter, arguments, _⟩
  rw [construct_of_isA isA] at isOuter
  rcases Option.some.inj isOuter with rfl
  simp [Shape.seatsArguments, takesNone] at arguments

theorem notArguments_of_held (isUnit : root.IsUnit) {place inner : Place root}
    (held : place.held? = some inner) : inner.isA .argumentList = false := by
  rcases (held?_eq_some isUnit).mp held with ⟨_, isParent, isHeld⟩
  rw [isHeldBy, Bool.or_eq_true, Bool.and_eq_true] at isHeld
  rcases isHeld with paren | ⟨cast, _⟩
  · exact takesArguments_of_parent isUnit isParent paren rfl
  · exact takesArguments_of_parent isUnit isParent cast rfl

theorem operand_induction {motive : Place root -> Prop} (place : Place root)
    (start : motive place)
    (handed : ∀ outer inner, motive outer -> outer.held? = some inner -> motive inner) :
    motive place.operand := by
  fun_induction operand place with
  | case1 outer inner held ih => exact ih (handed outer inner start held)
  | case2 place none => exact start

theorem held?_operand (place : Place root) : place.operand.held? = none := by
  fun_induction operand place with
  | case1 outer inner held ih => exact ih
  | case2 place none => exact none

theorem shows_operand (isUnit : root.IsUnit) {place : Place root}
    (isNode : place.focus.isNode = true) (notArguments : place.isA .argumentList = false) :
    place.operand.Shows := by
  have inside : place.operand.focus.isNode = true ∧ place.operand.isA .argumentList = false := by
    refine operand_induction (motive := fun p => p.focus.isNode = true ∧
      p.isA .argumentList = false) place ⟨isNode, notArguments⟩ ?_
    intro outer inner _ held
    exact ⟨((held?_eq_some isUnit).mp held).1, notArguments_of_held isUnit held⟩
  exact ⟨inside.1, (held?_eq_none isUnit).mp place.held?_operand, inside.2⟩

theorem under_operand (isUnit : root.IsUnit) (place : Place root) : Under place place.operand := by
  refine operand_induction (motive := Under place) place .here ?_
  intro outer inner under held
  exact .down under ((held?_eq_some isUnit).mp held).2.1

theorem wrapped_operand (isUnit : root.IsUnit) (place : Place root) :
    place.operand.wrapped = place.wrapped := by
  refine operand_induction (motive := fun p => p.wrapped = place.wrapped) place rfl ?_
  intro outer inner same held
  rcases (held?_eq_some isUnit).mp held with ⟨_, isParent, isHeld⟩
  rw [wrapped_of_held isParent isHeld]
  exact same

/-!
# Exposed places

An exposed place stands where the view shows a child, with the wrappers still around it.
-/

def exposed (place : Place root) : List (Place root) :=
  (place.nodes.filter fun child => !isHidden place child).flatMap fun child =>
    if child.isA .argumentList then child.nodes else [child]

theorem shown_eq_map_exposed (place : Place root) : place.shown = place.exposed.map operand := by
  rw [shown, exposed, List.map_flatMap]
  congr 1
  funext child
  cases child.isA .argumentList <;> rfl

/-- How an exposed place stands below the place that shows it: directly, or in its arguments. -/
inductive Exposes (place : Place root) : Place root -> Prop where
  | direct {child : Place root} : child.parent? = some place ->
      child.isA .argumentList = false -> Exposes place child
  | argument {list child : Place root} : list.parent? = some place ->
      list.isA .argumentList = true -> child.parent? = some list ->
      child.isA .argumentList = false -> Exposes place child

theorem exposes_of_mem_exposed (isUnit : root.IsUnit) {place child : Place root}
    (member : child ∈ place.exposed) : child.focus.isNode = true ∧ Exposes place child := by
  rcases List.mem_flatMap.mp member with ⟨visible, isVisible, below⟩
  rcases mem_nodes.mp (List.mem_filter.mp isVisible).1 with ⟨isParent, isNode⟩
  cases isList : visible.isA .argumentList with
  | true =>
      rw [isList] at below
      rcases mem_nodes.mp below with ⟨inList, childIsNode⟩
      have notArguments := takesArguments_of_parent isUnit inList isList rfl
      exact ⟨childIsNode, .argument isParent isList inList notArguments⟩
  | false =>
      rw [isList] at below
      rcases List.mem_singleton.mp below with rfl
      exact ⟨isNode, .direct isParent isList⟩

theorem notWrapper_of_isA {place : Place root} {construct : Construct}
    (isA : place.isA construct = true) (notParenthesized : construct ≠ .parenthesizedExpression)
    (notCast : construct ≠ .castExpression) : place.isWrapper = false := by
  simp [isWrapper, Place.isA, construct_of_isA isA, notParenthesized, notCast]

namespace Exposes

variable {place child : Place root}

theorem wrapped (exposes : Exposes place child) (notWrapper : place.isWrapper = false) :
    child.wrapped = child := by
  cases exposes with
  | direct isParent _ => exact wrapped_of_parent isParent notWrapper
  | argument _ isList inList _ =>
      exact wrapped_of_parent inList (notWrapper_of_isA isList (by decide) (by decide))

theorem notArguments (exposes : Exposes place child) : child.isA .argumentList = false := by
  cases exposes with
  | direct _ h => exact h
  | argument _ _ _ h => exact h

theorem under (exposes : Exposes place child) : Under place child := by
  cases exposes with
  | direct isParent _ => exact .of_parent isParent
  | argument isParent _ inList _ => exact .down (.of_parent isParent) inList

theorem shownParent? (isUnit : root.IsUnit) (shows : place.Shows) (exposes : Exposes place child) :
    child.operand.shownParent? = some place := by
  have wrapped := (wrapped_operand isUnit child).trans (exposes.wrapped shows.notWrapper)
  rw [Place.shownParent?, beyond?, wrapped]
  cases exposes with
  | direct isParent _ => simp [isParent, shows.notArguments]
  | argument isParent isList inList _ =>
      simp [inList, isList, beyond?, wrapped_of_parent isParent shows.notWrapper, isParent]

end Exposes

theorem parent_unique {place first second : Place root} (one : place.parent? = some first)
    (other : place.parent? = some second) : first = second :=
  Option.some.inj (one.symm.trans other)

theorem nodup_nodes (place : Place root) : place.nodes.Nodup :=
  place.nodup_children.filter _

theorem nodup_exposed {place : Place root} (shows : place.Shows) :
    place.exposed.Nodup := by
  refine List.pairwise_flatMap.mpr ⟨?_, ?_⟩
  · intro child _
    split
    · exact child.nodup_nodes
    · exact List.pairwise_singleton _ _
  · refine (place.nodup_nodes.filter _).imp_of_mem ?_
    rintro first second isFirst isSecond different other inFirst _ inSecond rfl
    have firstParent := (mem_nodes.mp (List.mem_filter.mp isFirst).1).1
    have secondParent := (mem_nodes.mp (List.mem_filter.mp isSecond).1).1
    -- a child of a list of arguments is no child of the place itself
    have noMix {list : Place root} (isList : list.isA .argumentList = true)
        (inList : other ∈ list.nodes) : other.parent? ≠ some place := by
      intro isParent
      rcases parent_unique isParent (mem_nodes.mp inList).1 with rfl
      rw [shows.notArguments] at isList
      cases isList
    cases firstList : first.isA .argumentList with
    | true =>
        rw [firstList] at inFirst
        cases secondList : second.isA .argumentList with
        | true =>
            rw [secondList] at inSecond
            exact different (parent_unique (mem_nodes.mp inFirst).1 (mem_nodes.mp inSecond).1)
        | false =>
            rw [secondList] at inSecond
            rcases List.mem_singleton.mp inSecond with rfl
            exact noMix firstList inFirst secondParent
    | false =>
        rw [firstList] at inFirst
        rcases List.mem_singleton.mp inFirst with rfl
        cases secondList : second.isA .argumentList with
        | true =>
            rw [secondList] at inSecond
            exact noMix secondList inSecond firstParent
        | false =>
            rw [secondList] at inSecond
            exact different (List.mem_singleton.mp inSecond)

theorem pairwise_exposed (isUnit : root.IsUnit) (place : Place root) :
    place.exposed.Pairwise fun first second =>
      first.focus.span.stop ≤ second.focus.span.start := by
  have apart (place : Place root) := (place.pairwise_children isUnit).filter
    fun child => child.focus.isNode
  refine List.pairwise_flatMap.mpr ⟨?_, ?_⟩
  · intro child _
    split
    · exact apart child
    · exact List.pairwise_singleton _ _
  · refine ((apart place).filter _).imp ?_
    intro first second before lower inFirst other inSecond
    have inside {visible exposed : Place root}
        (below : exposed ∈ if visible.isA .argumentList then visible.nodes else [visible]) :
        Under visible exposed := by
      split at below
      · exact .of_parent (mem_nodes.mp below).1
      · rcases List.mem_singleton.mp below with rfl
        exact .here
    have := (inside inFirst).span isUnit
    have := (inside inSecond).span isUnit
    omega

/-!
# Shown places
-/

theorem exists_exposed_of_mem_shown (isUnit : root.IsUnit) {place child : Place root}
    (member : child ∈ place.shown) :
    ∃ exposed, exposed.focus.isNode = true ∧ Exposes place exposed ∧ exposed.operand = child := by
  rw [shown_eq_map_exposed] at member
  rcases List.mem_map.mp member with ⟨exposed, isExposed, isOperand⟩
  rcases exposes_of_mem_exposed isUnit isExposed with ⟨isNode, exposes⟩
  exact ⟨exposed, isNode, exposes, isOperand⟩

theorem Shows.child (isUnit : root.IsUnit) {place child : Place root}
    (member : child ∈ place.shown) : child.Shows := by
  rcases exists_exposed_of_mem_shown isUnit member with ⟨exposed, isNode, exposes, rfl⟩
  exact shows_operand isUnit isNode exposes.notArguments

theorem shownParent?_of_mem_shown (isUnit : root.IsUnit) {place child : Place root}
    (shows : place.Shows) (member : child ∈ place.shown) : child.shownParent? = some place := by
  rcases exists_exposed_of_mem_shown isUnit member with ⟨exposed, _, exposes, rfl⟩
  exact exposes.shownParent? isUnit shows

theorem under_of_mem_shown (isUnit : root.IsUnit) {place child : Place root}
    (member : child ∈ place.shown) : Under place child := by
  rcases exists_exposed_of_mem_shown isUnit member with ⟨exposed, _, exposes, rfl⟩
  exact exposes.under.trans (under_operand isUnit exposed)

theorem nodup_shown (isUnit : root.IsUnit) {place : Place root} (shows : place.Shows) :
    place.shown.Nodup := by
  rw [shown_eq_map_exposed]
  refine List.Nodup.map_on ?_ (nodup_exposed shows)
  intro first isFirst second isSecond same
  have firstExposed := (exposes_of_mem_exposed isUnit isFirst).2
  have secondExposed := (exposes_of_mem_exposed isUnit isSecond).2
  rw [← firstExposed.wrapped shows.notWrapper, ← wrapped_operand isUnit first, same,
    wrapped_operand isUnit second, secondExposed.wrapped shows.notWrapper]

theorem pairwise_shown (isUnit : root.IsUnit) (place : Place root) :
    place.shown.Pairwise fun first second =>
      first.focus.span.stop ≤ second.focus.span.start := by
  rw [shown_eq_map_exposed]
  refine List.pairwise_map.mpr ((place.pairwise_exposed isUnit).imp ?_)
  intro first second before
  have := (first.under_operand isUnit).span isUnit
  have := (second.under_operand isUnit).span isUnit
  omega

theorem shows_top (isUnit : root.IsUnit) : (top root).Shows := by
  rcases isUnit.exists_construct with ⟨construct, isRoot, isWhole⟩
  have isTop : (top root).focus.construct? = some construct := isRoot
  constructor
  · rw [Tree.isNode, isTop]
    rfl
  · rw [isWrapper, isA, isA, isTop]
    cases construct <;> first | rfl | cases isWhole
  · rw [isA, isTop]
    cases construct <;> first | rfl | cases isWhole

theorem shownParent?_top : (top root).shownParent? = none := by
  rw [shownParent?, beyond?, wrapped_of_top rfl]
  rfl

end Place

/-!
# Documents
-/

namespace Document

open SyntaxNode

variable {document : Document}

theorem shows_of_descends {steps : Nat} {node : document.Node}
    (reached : Descends document.rootNode steps node) : node.place.Shows := by
  induction reached with
  | here => exact Place.shows_top document.isUnit_root
  | down _ member _ =>
      rcases List.mem_map.mp member with ⟨place, isShown, rfl⟩
      exact Place.Shows.child document.isUnit_root isShown

/-- Up and down agree in the view of every document. -/
theorem coherent (document : Document) : Coherent document.rootNode where
  top := by
    change (Place.top document.root).shownParent?.map Node.mk = none
    rw [Place.shownParent?_top]
    rfl
  back := by
    intro steps node child reached member
    rcases List.mem_map.mp member with ⟨place, isShown, rfl⟩
    change place.shownParent?.map Node.mk = some node
    rw [Place.shownParent?_of_mem_shown document.isUnit_root (shows_of_descends reached) isShown]
    rfl
  distinct := by
    intro steps node reached
    refine List.Nodup.map ?_
      (Place.nodup_shown document.isUnit_root (shows_of_descends reached))
    intro first second same
    exact Node.mk.inj same

theorem ordered (document : Document) :
    Ordered (fun node : document.Node => node.span.start) (fun node => node.span.stop)
      document.rootNode where
  forward := by
    intro _ node _
    exact (node.place.ordered_focus document.isUnit_root).between.le
  inside := by
    intro _ node _ _ member
    rcases List.mem_map.mp member with ⟨place, isShown, rfl⟩
    exact (Place.under_of_mem_shown document.isUnit_root isShown).span document.isUnit_root
  apart := by
    intro _ node _
    exact List.pairwise_map.mpr (node.place.pairwise_shown document.isUnit_root)

end Document

end Java
end CommandWiring
