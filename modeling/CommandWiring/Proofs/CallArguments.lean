import CommandWiring.Java.Reader
import CommandWiring.Proofs.Extents
import CommandWiring.Proofs.Outcomes
import CommandWiring.Proofs.Slots

/-!
# The arguments of a call

A call is made of a receiver, a qualifying `super`, type arguments, the name of the method and the
list of arguments, of which only the last two are always there. The view shows the receiver, the
qualifier and the arguments, each without wrappers, and tells them apart by their roles. So the end
of a chain has the arguments that its last call is written with.
-/

namespace CommandWiring
namespace Java

/-!
# Seats of a call
-/

namespace Shape

theorem exists_front (wanted : Seat -> Bool) (seats : List Seat) :
    ∃ front : Option Seat, seats = front.toList ++ behind wanted seats ∧
      ∀ seat ∈ front, wanted seat = true := by
  cases seats with
  | nil => exact ⟨none, rfl, nofun⟩
  | cons first rest =>
      rw [behind]
      cases isWanted : wanted first with
      | true => exact ⟨some first, rfl, by simpa using isWanted⟩
      | false => exact ⟨none, rfl, nofun⟩

theorem exists_seats_of_isCall {seats : List Seat} (shape : isCall seats = true) :
    ∃ receiver? qualifier? typeArguments? : Option Seat,
      seats = receiver?.toList ++ qualifier?.toList ++ typeArguments?.toList ++
        [⟨.name, .identifier⟩, ⟨.plain, .argumentList⟩] ∧
      (∀ seat ∈ receiver?, seatsReceiver seat = true) ∧
      (∀ seat ∈ qualifier?, seat = ⟨.plain, .super⟩) ∧
      (∀ seat ∈ typeArguments?, seat = ⟨.plain, .typeArguments⟩) := by
  rw [isCall, beq_iff_eq] at shape
  rcases exists_front seatsReceiver seats with ⟨receiver?, isWhole, isReceiver⟩
  rcases exists_front (fun seat => seat == ⟨.plain, .super⟩) (behind seatsReceiver seats) with
    ⟨qualifier?, isRest, isQualifier⟩
  rcases exists_front (fun seat => seat == ⟨.plain, .typeArguments⟩)
    (behind (fun seat => seat == ⟨.plain, .super⟩) (behind seatsReceiver seats)) with
    ⟨typeArguments?, isEnd, areTypes⟩
  refine ⟨receiver?, qualifier?, typeArguments?, ?_, isReceiver,
    fun seat member => beq_iff_eq.mp (isQualifier seat member),
    fun seat member => beq_iff_eq.mp (areTypes seat member)⟩
  rw [shape] at isEnd
  rw [isEnd] at isRest
  rw [isRest] at isWhole
  simpa only [List.append_assoc] using isWhole

end Shape

namespace Place

variable {root : Tree} {call place child : Place root}

/-!
# Parts of a call
-/

/-- Whether a place is seated in its parent as `seat` says. -/
def SitsAs (place : Place root) (seat : Seat) : Prop :=
  place.focus.seat? = some seat

theorem SitsAs.slot {seat : Seat} (sits : place.SitsAs seat) : place.focus.slot = seat.slot :=
  (Tree.seat?_eq_some.mp sits).1

theorem SitsAs.construct {seat : Seat} (sits : place.SitsAs seat) :
    place.focus.construct? = some seat.construct :=
  (Tree.seat?_eq_some.mp sits).2

theorem SitsAs.isA_eq {seat : Seat} (sits : place.SitsAs seat) (construct : Construct) :
    place.isA construct = (seat.construct == construct) := by
  rw [isA, sits.construct, Option.some_beq_some]

theorem SitsAs.fills_eq_false {seat : Seat} {slot : Slot} (sits : place.SitsAs seat)
    (different : seat.slot ≠ slot) : place.fills slot = false :=
  Place.fills_eq_false (sits.slot.symm ▸ different)

structure CallParts (call : Place root) where
  receiver? : Option (Place root)
  qualifier? : Option (Place root)
  typeArguments? : Option (Place root)
  name : Place root
  list : Place root
  nodes_eq : call.nodes =
    receiver?.toList ++ qualifier?.toList ++ typeArguments?.toList ++ [name, list]
  isReceiver : ∀ place ∈ receiver?, ∃ construct,
    place.SitsAs ⟨.object, construct⟩ ∧ construct ≠ .typeArguments
  isQualifier : ∀ place ∈ qualifier?, place.SitsAs ⟨.plain, .super⟩
  areTypeArguments : ∀ place ∈ typeArguments?, place.SitsAs ⟨.plain, .typeArguments⟩
  isName : name.SitsAs ⟨.name, .identifier⟩
  isList : list.SitsAs ⟨.plain, .argumentList⟩

theorem map_seat?_nodes (place : Place root) :
    place.nodes.map (fun child => child.focus.seat?) =
      (place.focus.children.filterMap Tree.seat?).map some := by
  have onTrees (trees : List Tree) :
      (trees.filter Tree.isNode).map Tree.seat? = (trees.filterMap Tree.seat?).map some := by
    induction trees with
    | nil => rfl
    | cons tree rest ih =>
        cases tree with
        | token span => exact ih
        | extra span parts => exact ih
        | node slot construct span children => exact congrArg (some ⟨slot, construct⟩ :: ·) ih
  have asTrees : place.nodes.map (fun child => child.focus.seat?) =
      (place.nodes.map focus).map Tree.seat? := by
    rw [List.map_map]
    rfl
  rw [asTrees, map_focus_nodes]
  exact onTrees place.focus.children

theorem exists_of_map_toList {places : List (Place root)} {seat? : Option Seat}
    (areSeats : places.map (fun place => place.focus.seat?) = seat?.toList.map some) :
    ∃ place? : Option (Place root), places = place?.toList ∧
      ∀ place ∈ place?, ∃ seat ∈ seat?, place.SitsAs seat := by
  cases seat? with
  | none => exact ⟨none, List.map_eq_nil_iff.mp areSeats, nofun⟩
  | some seat =>
      rcases List.map_eq_singleton_iff.mp areSeats with ⟨place, rfl, sits⟩
      refine ⟨some place, rfl, ?_⟩
      intro other isOther
      rcases Option.mem_some_iff.mp isOther with rfl
      exact ⟨seat, rfl, sits⟩

theorem nonempty_callParts (isUnit : root.IsUnit) (isCall : call.isA .methodInvocation = true) :
    Nonempty (CallParts call) := by
  have holds : Shape.isCall (call.focus.children.filterMap Tree.seat?) = true :=
    holds_of_isA isUnit isCall
  rcases Shape.exists_seats_of_isCall holds with
    ⟨receiver?, qualifier?, typeArguments?, areSeats, isReceiver, isQualifier, areTypes⟩
  -- the nodes come apart as their seats do
  have areNodes := map_seat?_nodes call
  rw [areSeats, List.map_append, List.map_append, List.map_append] at areNodes
  rcases List.map_eq_append_iff.mp areNodes with ⟨front, back, isWhole, areFront, areBack⟩
  rcases List.map_eq_append_iff.mp areFront with ⟨front, types, rfl, areFront, areTypeNodes⟩
  rcases List.map_eq_append_iff.mp areFront with
    ⟨receivers, qualifiers, rfl, areReceivers, areQualifiers⟩
  rcases exists_of_map_toList areReceivers with ⟨receiver, rfl, sitsReceiver⟩
  rcases exists_of_map_toList areQualifiers with ⟨qualifier, rfl, sitsQualifier⟩
  rcases exists_of_map_toList areTypeNodes with ⟨typeArguments, rfl, sitsTypes⟩
  rcases List.map_eq_cons_iff.mp areBack with ⟨name, lists, rfl, sitsName, areLists⟩
  rcases List.map_eq_singleton_iff.mp areLists with ⟨list, rfl, sitsList⟩
  refine ⟨⟨receiver, qualifier, typeArguments, name, list, isWhole, ?_, ?_, ?_, sitsName, sitsList⟩⟩
  · intro place member
    rcases sitsReceiver place member with ⟨seat, isSeat, sits⟩
    have seatsReceiver := isReceiver seat isSeat
    rw [Shape.seatsReceiver, Bool.and_eq_true, beq_iff_eq, bne_iff_ne] at seatsReceiver
    rcases seat with ⟨slot, construct⟩
    rcases seatsReceiver with ⟨rfl, notTypes⟩
    exact ⟨construct, sits, notTypes⟩
  · intro place member
    rcases sitsQualifier place member with ⟨seat, isSeat, sits⟩
    rwa [isQualifier seat isSeat] at sits
  · intro place member
    rcases sitsTypes place member with ⟨seat, isSeat, sits⟩
    rwa [areTypes seat isSeat] at sits

/-!
# What is visible of a call
-/

theorem fills_of_first {before after : List (Place root)} {slot : Slot} (named : slot ≠ .plain)
    (areNodes : place.nodes = before ++ child :: after) (isSlot : child.focus.slot = slot)
    (others : ∀ other ∈ before, other.focus.slot ≠ slot) : child.fills slot = true := by
  have found : place.inSlot? slot = some child := by
    rw [inSlot?_eq_find?_nodes place named, areNodes, List.find?_eq_some_iff_append]
    exact ⟨beq_iff_eq.mpr isSlot, before, after, rfl, by simpa using others⟩
  exact (inSlot?_eq_some.mp found).2

theorem notArguments_of_slot (isUnit : root.IsUnit) (isParent : child.parent? = some place)
    (inSlot : child.focus.slot ≠ .plain) : child.isA .argumentList = false := by
  rw [Bool.eq_false_iff]
  intro isArguments
  rcases seat_of_parent isUnit isParent (construct_of_isA isArguments) with ⟨outer, _, arguments, _⟩
  simp [Shape.seatsArguments, inSlot] at arguments

theorem isHidden_of_sits {seat : Seat} (isCall : call.isA .methodInvocation = true)
    (sits : child.SitsAs seat) (notName : seat.slot ≠ .name) :
    isHidden call child = (seat.construct == .typeArguments) := by
  rw [isHidden, isCall, sits.fills_eq_false notName, sits.isA_eq, Bool.true_and, Bool.false_or]

namespace CallParts

variable (parts : CallParts call)

theorem fills_object {receiver : Place root} (isReceiver : receiver ∈ parts.receiver?) :
    receiver.fills .object = true := by
  rcases parts.isReceiver receiver isReceiver with ⟨construct, sits, _⟩
  have areNodes : call.nodes = [] ++ receiver :: (parts.qualifier?.toList ++
      (parts.typeArguments?.toList ++ [parts.name, parts.list])) := by
    rw [parts.nodes_eq, Option.mem_def.mp isReceiver, Option.toList_some, List.append_assoc,
      List.append_assoc]
    rfl
  exact fills_of_first (by decide) areNodes sits.slot nofun

theorem fills_name : parts.name.fills .name = true := by
  have areNodes := parts.nodes_eq
  refine fills_of_first (by decide) areNodes parts.isName.slot ?_
  intro other member
  simp only [List.mem_append, Option.mem_toList] at member
  rcases member with (isReceiver | isQualifier) | isTypes
  · rcases parts.isReceiver other isReceiver with ⟨construct, sits, _⟩
    rw [sits.slot]
    nofun
  · rw [(parts.isQualifier other isQualifier).slot]
    decide
  · rw [(parts.areTypeArguments other isTypes).slot]
    decide

theorem mem_nodes_of_receiver {receiver : Place root} (isReceiver : receiver ∈ parts.receiver?) :
    receiver ∈ call.nodes := by
  rw [parts.nodes_eq]
  simp [Option.mem_def.mp isReceiver]

theorem mem_nodes_of_qualifier {qualifier : Place root}
    (isQualifier : qualifier ∈ parts.qualifier?) : qualifier ∈ call.nodes := by
  rw [parts.nodes_eq]
  simp [Option.mem_def.mp isQualifier]

/-- The name and the type arguments are hidden, and nothing else is. -/
theorem filter_visible (isCall : call.isA .methodInvocation = true) :
    (call.nodes.filter fun child => !isHidden call child) =
      parts.receiver?.toList ++ parts.qualifier?.toList ++ [parts.list] := by
  have receivers : ∀ receiver ∈ parts.receiver?.toList, (!isHidden call receiver) = true := by
    intro receiver member
    rcases parts.isReceiver receiver (Option.mem_toList.mp member) with ⟨_, sits, notTypes⟩
    simpa [isHidden_of_sits isCall sits nofun] using notTypes
  have qualifiers : ∀ qualifier ∈ parts.qualifier?.toList, (!isHidden call qualifier) = true := by
    intro qualifier member
    have sits := parts.isQualifier qualifier (Option.mem_toList.mp member)
    rw [isHidden_of_sits isCall sits nofun]
    rfl
  have types : ∀ list ∈ parts.typeArguments?.toList, ¬ (!isHidden call list) = true := by
    intro list member
    have sits := parts.areTypeArguments list (Option.mem_toList.mp member)
    rw [isHidden_of_sits isCall sits nofun]
    decide
  have nameHidden : isHidden call parts.name = true := by
    rw [isHidden, isCall, parts.fills_name]
    rfl
  have listShown : isHidden call parts.list = false :=
    isHidden_of_sits isCall parts.isList nofun
  rw [parts.nodes_eq, List.filter_append, List.filter_append, List.filter_append,
    List.filter_eq_self.mpr receivers, List.filter_eq_self.mpr qualifiers,
    List.filter_eq_nil_iff.mpr types, List.append_nil]
  simp [nameHidden, listShown]

theorem isA_list : parts.list.isA .argumentList = true := by
  rw [parts.isList.isA_eq]
  rfl

theorem receiver_notArguments (isUnit : root.IsUnit) {receiver : Place root}
    (isReceiver : receiver ∈ parts.receiver?) : receiver.isA .argumentList = false := by
  rcases parts.isReceiver receiver isReceiver with ⟨construct, sits, _⟩
  apply notArguments_of_slot isUnit (mem_nodes.mp (parts.mem_nodes_of_receiver isReceiver)).1
  rw [sits.slot]
  nofun

theorem qualifier_notArguments {qualifier : Place root}
    (isQualifier : qualifier ∈ parts.qualifier?) : qualifier.isA .argumentList = false := by
  rw [(parts.isQualifier qualifier isQualifier).isA_eq]
  rfl

theorem exposed_eq (isUnit : root.IsUnit) (isCall : call.isA .methodInvocation = true) :
    call.exposed = parts.receiver?.toList ++ parts.qualifier?.toList ++ parts.list.nodes := by
  have alone (place? : Option (Place root))
      (areNone : ∀ place ∈ place?, place.isA .argumentList = false) :
      (place?.toList.flatMap fun child =>
        if child.isA .argumentList then child.nodes else [child]) = place?.toList := by
    cases place? with
    | none => rfl
    | some place => simp [areNone place rfl]
  rw [exposed, parts.filter_visible isCall, List.flatMap_append, List.flatMap_append,
    alone _ fun _ isReceiver => parts.receiver_notArguments isUnit isReceiver,
    alone _ fun _ isQualifier => parts.qualifier_notArguments isQualifier,
    List.flatMap_singleton, if_pos parts.isA_list]

end CallParts

/-!
# Roles
-/

theorem wrapped_operand_of_parent (isUnit : root.IsUnit) (isParent : child.parent? = some place)
    (notWrapper : place.isWrapper = false) : child.operand.wrapped = child :=
  (wrapped_operand isUnit child).trans (wrapped_of_parent isParent notWrapper)

theorem role_in_call (isUnit : root.IsUnit) (isCall : call.isA .methodInvocation = true)
    (isParent : child.parent? = some call) :
    child.operand.role = if child.fills .object then .target else .other := by
  have notWrapper := notWrapper_of_isA isCall (by decide) (by decide)
  rw [role, beyond?, wrapped_operand_of_parent isUnit isParent notWrapper, isParent]
  dsimp only
  rw [construct_of_isA isCall]

theorem role_in_arguments (isUnit : root.IsUnit) (isList : place.isA .argumentList = true)
    (isParent : child.parent? = some place) : child.operand.role = .argument := by
  have notWrapper := notWrapper_of_isA isList (by decide) (by decide)
  rw [role, beyond?, wrapped_operand_of_parent isUnit isParent notWrapper, isParent]
  dsimp only
  rw [construct_of_isA isList]

namespace CallParts

variable (parts : CallParts call)

theorem role_receiver (isUnit : root.IsUnit) (isCall : call.isA .methodInvocation = true)
    {receiver : Place root} (isReceiver : receiver ∈ parts.receiver?) :
    receiver.operand.role = .target := by
  have isParent := (mem_nodes.mp (parts.mem_nodes_of_receiver isReceiver)).1
  rw [role_in_call isUnit isCall isParent, parts.fills_object isReceiver]
  rfl

theorem role_qualifier (isUnit : root.IsUnit) (isCall : call.isA .methodInvocation = true)
    {qualifier : Place root} (isQualifier : qualifier ∈ parts.qualifier?) :
    qualifier.operand.role = .other := by
  have isParent := (mem_nodes.mp (parts.mem_nodes_of_qualifier isQualifier)).1
  have notObject : qualifier.fills .object = false :=
    (parts.isQualifier qualifier isQualifier).fills_eq_false nofun
  rw [role_in_call isUnit isCall isParent, notObject]
  rfl

theorem role_argument (isUnit : root.IsUnit) {argument : Place root}
    (isArgument : argument ∈ parts.list.nodes) : argument.operand.role = .argument :=
  role_in_arguments isUnit parts.isA_list (mem_nodes.mp isArgument).1

end CallParts

end Place

end Java

/-!
# The end of a chain
-/

namespace Chain

open SyntaxNode

variable {N : Type} [SyntaxNode N]

theorem Follows.invocation {upper lower : N} {steps : Nat} (follows : Follows upper steps lower)
    (isCall : kind upper = .invocation) : kind lower = .invocation := by
  induction follows with
  | here => exact isCall
  | next _ alsoCall _ ih => exact ih alsoCall

theorem supplier?_eq {α : Type} (arguments : List α) :
    supplier? arguments = if arguments.length = 2 then arguments[1]? else arguments[0]? := by
  rcases arguments with _ | ⟨first, _ | ⟨second, _ | ⟨third, rest⟩⟩⟩
  all_goals simp [supplier?]

end Chain

namespace Java
namespace Document

open SyntaxNode
open Place (CallParts)

variable {document : Document} {call : document.Node}

/-- The node that the view shows at a place: what stands there inside all wrappers. -/
def unwrap (place : Place document.root) : document.Node :=
  ⟨place.operand⟩

theorem isWrapper_of_mem_children {child : document.Node} (isChild : child ∈ children call) :
    child.place.isWrapper = false := by
  change child ∈ call.place.shown.map Node.mk at isChild
  rw [Place.shown_eq_map_exposed, List.map_map] at isChild
  rcases List.mem_map.mp isChild with ⟨place, _, rfl⟩
  exact (Place.held?_eq_none document.isUnit_root).mp place.held?_operand

section

variable (parts : CallParts call.place) (isCall : kind call = .invocation)
include isCall

theorem children_of_call : children call =
    (parts.receiver?.toList ++ parts.qualifier?.toList ++ parts.list.nodes).map unwrap := by
  have isInvocation := call.place.isA_of_kind.1 isCall
  change call.place.shown.map Node.mk = _
  rw [Place.shown_eq_map_exposed, parts.exposed_eq document.isUnit_root isInvocation, List.map_map]
  rfl

theorem roles_of_call :
    (∀ receiver ∈ parts.receiver?, role (unwrap receiver) = .target) ∧
      (∀ qualifier ∈ parts.qualifier?, role (unwrap qualifier) = .other) ∧
      (∀ argument ∈ parts.list.nodes, role (unwrap argument) = .argument) := by
  have isUnit := document.isUnit_root
  have isInvocation := call.place.isA_of_kind.1 isCall
  exact ⟨fun _ isReceiver => parts.role_receiver isUnit isInvocation isReceiver,
    fun _ isQualifier => parts.role_qualifier isUnit isInvocation isQualifier,
    fun _ isArgument => parts.role_argument isUnit isArgument⟩

theorem mem_children_of_call {child : document.Node} (isChild : child ∈ children call) :
    (role child = .target ∧ ∃ receiver ∈ parts.receiver?, child = unwrap receiver) ∨
      (role child = .other ∧ ∃ qualifier ∈ parts.qualifier?, child = unwrap qualifier) ∨
      (role child = .argument ∧ ∃ argument ∈ parts.list.nodes, child = unwrap argument) := by
  rcases roles_of_call parts isCall with ⟨receivers, qualifiers, arguments⟩
  rw [children_of_call parts isCall] at isChild
  rcases List.mem_map.mp isChild with ⟨place, member, rfl⟩
  simp only [List.mem_append, Option.mem_toList] at member
  rcases member with (isReceiver | isQualifier) | isArgument
  · exact .inl ⟨receivers place isReceiver, place, isReceiver, rfl⟩
  · exact .inr (.inl ⟨qualifiers place isQualifier, place, isQualifier, rfl⟩)
  · exact .inr (.inr ⟨arguments place isArgument, place, isArgument, rfl⟩)

theorem role_eq_target_iff {child : document.Node} (isChild : child ∈ children call) :
    role child = .target ↔ ∃ receiver ∈ parts.receiver?, child = unwrap receiver := by
  constructor
  · intro isTarget
    rcases mem_children_of_call parts isCall isChild with
      ⟨_, isReceiver⟩ | ⟨isOther, _⟩ | ⟨isArgument, _⟩
    · exact isReceiver
    · cases isTarget.symm.trans isOther
    · cases isTarget.symm.trans isArgument
  · rintro ⟨receiver, isReceiver, rfl⟩
    exact (roles_of_call parts isCall).1 receiver isReceiver

theorem role_eq_argument_iff {child : document.Node} (isChild : child ∈ children call) :
    role child = .argument ↔ ∃ argument ∈ parts.list.nodes, child = unwrap argument := by
  constructor
  · intro isArgument
    rcases mem_children_of_call parts isCall isChild with
      ⟨isTarget, _⟩ | ⟨isOther, _⟩ | ⟨_, isListed⟩
    · cases isArgument.symm.trans isTarget
    · cases isArgument.symm.trans isOther
    · exact isListed
  · rintro ⟨argument, isListed, rfl⟩
    exact (roles_of_call parts isCall).2.2 argument isListed

/-- What has the role of an argument is what stands in the list of arguments, in the same order. -/
theorem argumentsOf_call : Chain.argumentsOf call = parts.list.nodes.map unwrap := by
  rcases roles_of_call parts isCall with ⟨receivers, qualifiers, arguments⟩
  have front : ∀ child ∈ (parts.receiver?.toList ++ parts.qualifier?.toList).map unwrap,
      ¬ (role child == .argument) = true := by
    intro child member
    rcases List.mem_map.mp member with ⟨place, isPlace, rfl⟩
    rw [List.mem_append, Option.mem_toList, Option.mem_toList] at isPlace
    rcases isPlace with isReceiver | isQualifier
    · simp [receivers place isReceiver]
    · simp [qualifiers place isQualifier]
  have listed : ∀ child ∈ parts.list.nodes.map unwrap, (role child == .argument) = true := by
    intro child member
    rcases List.mem_map.mp member with ⟨place, isPlace, rfl⟩
    simp [arguments place isPlace]
  rw [Chain.argumentsOf, children_of_call parts isCall, List.map_append, List.filter_append,
    List.filter_eq_nil_iff.mpr front, List.filter_eq_self.mpr listed, List.nil_append]

end

theorem pairwise_nodes (place : Place document.root) :
    place.nodes.Pairwise fun first second => first.focus.span.stop ≤ second.focus.span.start :=
  (place.pairwise_children document.isUnit_root).filter _

/-- A call shows what it is written with. -/
structure ShowsParts (call : document.Node) (parts : CallParts call.place) : Prop where
  children_eq : children call =
    (parts.receiver?.toList ++ parts.qualifier?.toList ++ parts.list.nodes).map unwrap
  inOrder : parts.list.nodes.Pairwise fun first second =>
    first.focus.span.stop ≤ second.focus.span.start
  unwrapped : ∀ child ∈ children call, child.place.isWrapper = false
  target_iff : ∀ child ∈ children call,
    role child = .target ↔ ∃ receiver ∈ parts.receiver?, child = unwrap receiver
  argument_iff : ∀ child ∈ children call,
    role child = .argument ↔ ∃ argument ∈ parts.list.nodes, child = unwrap argument

/-- A chain has the arguments that its last call is written with. -/
structure HasArguments (chain : Chain document.Node) (parts : CallParts chain.innermost.place) :
    Prop where
  arguments_eq : chain.arguments = parts.list.nodes.map unwrap
  length : chain.arguments.length = parts.list.nodes.length
  supplier : Chain.supplier? chain.arguments =
    (if parts.list.nodes.length = 2 then parts.list.nodes[1]?
      else parts.list.nodes[0]?).map unwrap

/-- Every call shows its receiver and its qualifier, if it has them, and then what its list of
arguments holds, in order and each without wrappers; the name and the type arguments are left out.
The receiver is the target of the call, and what has the role of an argument comes from the list. A
chain that starts with a call ends with one, and a chain that ends with a call has the arguments
that this call is written with. Which of them supplies the command is told by their true number. -/
theorem calls_show_own_arguments (document : Document) :
    (∀ call : document.Node, kind call = .invocation ->
      ∃ parts : CallParts call.place, ShowsParts call parts) ∧
    ∀ (start : document.Node) (chain : Chain document.Node), Chain.unwind? start = some chain ->
      (kind start = .invocation -> kind chain.innermost = .invocation) ∧
        (kind chain.innermost = .invocation ->
          ∃ parts : CallParts chain.innermost.place, HasArguments chain parts) := by
  have exists_parts {call : document.Node} (isCall : kind call = .invocation) :
      Nonempty (CallParts call.place) :=
    Place.nonempty_callParts document.isUnit_root (call.place.isA_of_kind.1 isCall)
  constructor
  · intro call isCall
    rcases exists_parts isCall with ⟨parts⟩
    exact ⟨parts, {
      children_eq := children_of_call parts isCall
      inOrder := pairwise_nodes parts.list
      unwrapped := fun _ isChild => isWrapper_of_mem_children isChild
      target_iff := fun _ isChild => role_eq_target_iff parts isCall isChild
      argument_iff := fun _ isChild => role_eq_argument_iff parts isCall isChild }⟩
  · intro start chain found
    rcases Chain.descend?_eq_some_iff.mp found with ⟨_, _, ends⟩
    refine ⟨ends.follows.invocation, ?_⟩
    intro isLastCall
    rcases exists_parts isLastCall with ⟨parts⟩
    have areArguments : chain.arguments = parts.list.nodes.map unwrap :=
      ends.arguments.trans (argumentsOf_call parts isLastCall)
    refine ⟨parts, areArguments, by rw [areArguments, List.length_map], ?_⟩
    rw [areArguments, Chain.supplier?_eq, List.length_map, List.getElem?_map, List.getElem?_map]
    split_ifs <;> rfl

/-- A call with a cast receiver, type arguments, a comment and two arguments in wrappers. -/
theorem calls_show_own_arguments_in_wrappers :
    let document := parse "class A{void f(){((B)x).<T>g((a)/*c*/,(K)(()->y));}}"
    ∃ call ∈ collectAll document.rootNode (ofKind .invocation),
      (children call).map SyntaxNode.text = ["x", "a", "()->y"] ∧
      (children call).map role = [.target, .argument, .argument] ∧
      ∃ parts : CallParts call.place, children call =
        (parts.receiver?.toList ++ parts.qualifier?.toList ++ parts.list.nodes).map unwrap := by
  intro document
  have tested : ∃ call ∈ collectAll document.rootNode (ofKind .invocation),
      kind call = .invocation ∧ (children call).map SyntaxNode.text = ["x", "a", "()->y"] ∧
        (children call).map role = [.target, .argument, .argument] := by
    decide +kernel
  rcases tested with ⟨call, member, isCall, texts, roles⟩
  rcases (calls_show_own_arguments document).1 call isCall with ⟨parts, shows⟩
  exact ⟨call, member, texts, roles, parts, shows.children_eq⟩

end Document
end Java
end CommandWiring
