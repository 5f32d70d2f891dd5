import CommandWiring.Java.Reader
import CommandWiring.Proofs.ConstructorScopes
import CommandWiring.Proofs.MentionedTypes
import CommandWiring.Proofs.Outcomes

/-!
# Lambdas with a command

A lambda is a candidate if it mentions a command type anywhere in its text, while its command is
looked for among the constructor calls that the view shows below it. A node mentions what is
mentioned below it, so no lambda with a command is passed over. Only a scoped type hides what stands
in it.
-/

namespace CommandWiring

open SyntaxNode

/-!
# Mentions on the way down
-/

namespace Java

namespace Place

variable {root : Tree} {textOf : Span -> String}

theorem typeNames_subset_of_parent {place around : Place root}
    (isParent : place.parent? = some around) (isNode : place.focus.isNode = true)
    (notScoped : around.isA .scopedTypeIdentifier = false) :
    typeNames textOf place.focus ⊆ typeNames textOf around.focus := by
  intro name named
  have isPart := Tree.mem_parts_of_mem_children
    (focus_mem_of_mem_children (mem_children.mpr isParent))
  have member : place.focus ∈ around.focus.contents :=
    List.mem_filter.mpr ⟨isPart, by rw [Tree.isContent, isNode, Bool.true_or]⟩
  rw [typeNames_eq, if_neg (beq_eq_false_iff_ne.mp notScoped)]
  exact List.mem_append_right _ (List.mem_flatMap.mpr ⟨_, member, named⟩)

theorem typeNames_operand_subset (isUnit : root.IsUnit) (place : Place root) :
    typeNames textOf place.operand.focus ⊆ typeNames textOf place.focus := by
  refine operand_induction (motive := fun inner =>
    typeNames textOf inner.focus ⊆ typeNames textOf place.focus) place (List.Subset.refl _) ?_
  intro outer inner subset held
  rcases (held?_eq_some isUnit).mp held with ⟨isNode, isParent, _⟩
  have notScoped : outer.isA .scopedTypeIdentifier = false := by
    rw [Bool.eq_false_iff]
    intro isScoped
    have holdsNone := (held?_eq_none isUnit).mpr
      (notWrapper_of_isA isScoped (by decide) (by decide))
    rw [holdsNone] at held
    cases held
  exact List.Subset.trans (typeNames_subset_of_parent isParent isNode notScoped) subset

theorem typeNames_subset_of_mem_shown (isUnit : root.IsUnit) {place child : Place root}
    (notScoped : place.isA .scopedTypeIdentifier = false) (member : child ∈ place.shown) :
    typeNames textOf child.focus ⊆ typeNames textOf place.focus := by
  rcases exists_exposed_of_mem_shown isUnit member with ⟨exposed, isNode, exposes, rfl⟩
  refine List.Subset.trans (typeNames_operand_subset isUnit exposed) ?_
  cases exposes with
  | direct isParent _ => exact typeNames_subset_of_parent isParent isNode notScoped
  | argument isParent isList inList _ =>
      exact List.Subset.trans
        (typeNames_subset_of_parent inList isNode (isA_eq_false isList (by decide)))
        (typeNames_subset_of_parent isParent (isNode_of_parent inList) notScoped)

end Place

namespace Document

variable {document : Document}

/-- No constructor call stands in a scoped type. -/
def HasPlainTypeNames (document : Document) : Prop :=
  ∀ depth (type : document.Node), Descends document.rootNode depth type ->
    type.place.isA .scopedTypeIdentifier = true ->
    ∀ steps call, Descends type steps call -> kind call ≠ .constructorCall

theorem mentions_of_descends (plain : document.HasPlainTypeNames) {types : TypeSet}
    {depth steps : Nat} {upper call : document.Node}
    (reached : Descends document.rootNode depth upper) (below : Descends upper steps call)
    (isCommand : Search.IsCommandCall types call) : Search.Mentions types upper := by
  -- the induction goes down from `upper`, to the call that stays the same
  induction steps generalizing depth upper with
  | zero =>
      cases below with
      | here => exact isCommand.2
  | succ steps ih =>
      rcases below.exists_child with ⟨child, member, rest⟩
      have mentioned := Search.mentionsAny_iff.mpr (ih (reached.down member) rest)
      have notScoped : upper.place.isA .scopedTypeIdentifier = false := by
        rw [Bool.eq_false_iff]
        intro isScoped
        exact plain _ _ reached isScoped _ _ below isCommand.1
      rcases List.mem_map.mp member with ⟨place, isShown, rfl⟩
      rw [mentionsAny_eq_any, List.any_eq_true] at mentioned
      rcases mentioned with ⟨name, named, isCounted⟩
      rw [← Search.mentionsAny_iff, mentionsAny_eq_any, List.any_eq_true]
      exact ⟨name, Place.typeNames_subset_of_mem_shown document.isUnit_root notScoped isShown named,
        isCounted⟩

end Document
end Java

/-!
# Candidates and lambdas with a command
-/

namespace Search

variable {N : Type} [SyntaxNode N] [DecidableEq N] {types : TypeSet} {owner lambda : N}

/-- A lambda in a constructor of `owner` below which a command is created. -/
structure SuppliesCommand (types : TypeSet) (owner lambda : N) : Prop where
  below : ∃ steps, Descends owner steps lambda
  isLambda : kind lambda = .lambda
  owned : inConstructorOf owner lambda = true
  command : ∃ steps call, Descends lambda steps call ∧ IsCommandCall types call

def commandLambdas (types : TypeSet) (owner : N) : List N :=
  (candidates types owner).filter fun lambda => (command? types lambda).isSome

theorem mem_candidates_iff (height : HeightAtMost maxTreeDepth owner) :
    lambda ∈ candidates types owner ↔
      (∃ steps, Descends owner steps lambda) ∧ kind lambda = .lambda ∧
        inConstructorOf owner lambda = true ∧ Mentions types lambda := by
  rw [candidates, mem_collectAll_iff height, Bool.and_eq_true, Bool.and_eq_true, ofKind_iff,
    mentionsAny_iff, and_assoc]

omit [DecidableEq N] in
theorem isSome_command?_iff (height : HeightAtMost maxTreeDepth lambda) :
    (command? types lambda).isSome = true ↔
      ∃ steps call, Descends lambda steps call ∧ IsCommandCall types call := by
  rw [command?, isSome_findFirst?_iff height]
  simp only [isCommandCall_iff]

theorem mem_commandLambdas_iff (height : HeightAtMost maxTreeDepth owner)
    (covers : ∀ lambda, SuppliesCommand types owner lambda -> Mentions types lambda) :
    lambda ∈ commandLambdas types owner ↔ SuppliesCommand types owner lambda := by
  rw [commandLambdas, List.mem_filter, mem_candidates_iff height]
  constructor
  · rintro ⟨⟨⟨steps, below⟩, isLambda, owned, _⟩, found⟩
    have lambdaHeight := (height.of_descends below).mono (Nat.sub_le _ _)
    exact ⟨⟨steps, below⟩, isLambda, owned, (isSome_command?_iff lambdaHeight).mp found⟩
  · intro supplies
    rcases supplies.below with ⟨steps, below⟩
    have lambdaHeight := (height.of_descends below).mono (Nat.sub_le _ _)
    exact ⟨⟨supplies.below, supplies.isLambda, supplies.owned, covers lambda supplies⟩,
      (isSome_command?_iff lambdaHeight).mpr supplies.command⟩

theorem nodup_commandLambdas {root : N} (coherent : Coherent root) {depth : Nat}
    (reached : Descends root depth owner) (types : TypeSet) :
    (commandLambdas types owner).Nodup := by
  rw [commandLambdas, candidates, collectAll_eq_filter]
  exact ((coherent.nodup_preorder reached).filter _).filter _

/-!
# Outcomes by the number of candidates
-/

theorem value_inClass_of_nil (isNone : candidates types owner = []) :
    (inClass types owner).value = .missed .noConstructorLambda := by
  rw [inClass, isNone]
  rfl

theorem value_inClass_of_singleton (isSingle : candidates types owner = [lambda]) :
    (inClass types owner).value =
      ((command? types lambda).map .constructorCall).getD (.missed .noCommandConstructor) := by
  rw [inClass, isSingle]
  exact value_inLambda types lambda

theorem value_inClass_of_many (many : 2 ≤ (candidates types owner).length) :
    (inClass types owner).value =
      .missed (.ambiguousConstructorLambda (candidates types owner).length) := by
  rw [inClass]
  generalize candidates types owner = lambdas at many ⊢
  rcases lambdas with _ | ⟨first, _ | ⟨second, rest⟩⟩
  · simp at many
  · simp at many
  · rfl

theorem commandLambdas_of_singleton (isSingle : candidates types owner = [lambda]) :
    commandLambdas types owner = if (command? types lambda).isSome then [lambda] else [] := by
  rw [commandLambdas, isSingle, List.filter_singleton, Bool.cond_eq_ite]

theorem missed_of_commandLambdas_eq_nil (isNone : commandLambdas types owner = []) :
    ∃ reason, (inClass types owner).value = .missed reason ∧
      (reason = .noConstructorLambda ∨ reason = .noCommandConstructor ∨
        ∃ count, reason = .ambiguousConstructorLambda count) := by
  rcases found : candidates types owner with _ | ⟨lambda, _ | ⟨second, rest⟩⟩
  · exact ⟨_, value_inClass_of_nil found, Or.inl rfl⟩
  · rw [commandLambdas_of_singleton found] at isNone
    rw [value_inClass_of_singleton found]
    cases isCommand : command? types lambda with
    | none => exact ⟨_, rfl, Or.inr (Or.inl rfl)⟩
    | some call => simp [isCommand] at isNone
  · have many : 2 ≤ (candidates types owner).length := by simp [found]
    exact ⟨_, value_inClass_of_many many, Or.inr (Or.inr ⟨_, rfl⟩)⟩

theorem commandLambdas_eq_nil_of_missed
    (isMissed : (inClass types owner).value = .missed .noConstructorLambda) :
    commandLambdas types owner = [] := by
  rcases found : candidates types owner with _ | ⟨lambda, _ | ⟨second, rest⟩⟩
  · rw [commandLambdas, found]
    rfl
  · rw [value_inClass_of_singleton found] at isMissed
    cases isCommand : command? types lambda <;> simp [isCommand] at isMissed
  · have many : 2 ≤ (candidates types owner).length := by simp [found]
    rw [value_inClass_of_many many] at isMissed
    cases isMissed

theorem commandLambdas_of_constructorCall {call : N}
    (isCall : (inClass types owner).value = .constructorCall call) :
    ∃ lambda, commandLambdas types owner = [lambda] ∧
      (inLambda types lambda).value = .constructorCall call := by
  rcases found : candidates types owner with _ | ⟨lambda, _ | ⟨second, rest⟩⟩
  · rw [value_inClass_of_nil found] at isCall
    cases isCall
  · rw [value_inClass_of_singleton found] at isCall
    refine ⟨lambda, ?_, (value_inLambda types lambda).trans isCall⟩
    cases isCommand : command? types lambda with
    | none => simp [isCommand] at isCall
    | some other =>
        rw [commandLambdas_of_singleton found, isCommand, Option.isSome_some, if_pos rfl]
  · have many : 2 ≤ (candidates types owner).length := by simp [found]
    rw [value_inClass_of_many many] at isCall
    cases isCall

theorem ambiguous_of_two_commandLambdas (two : 2 ≤ (commandLambdas types owner).length) :
    ∃ count, (commandLambdas types owner).length ≤ count ∧
      (inClass types owner).value = .missed (.ambiguousConstructorLambda count) := by
  have fewer : (commandLambdas types owner).length ≤ (candidates types owner).length :=
    List.length_filter_le _ _
  exact ⟨_, fewer, value_inClass_of_many (Nat.le_trans two fewer)⟩

end Search

/-!
# Classes of a document
-/

namespace Search

variable {document : Java.Document}

/-- The `lambdas` are those that supply a command in constructors of `owner`, and they decide what
is found in the class. -/
structure DecidedBy (types : TypeSet) (owner : document.Node) (lambdas : List document.Node) :
    Prop where
  once : lambdas.Nodup
  mem_iff : ∀ lambda, lambda ∈ lambdas ↔ SuppliesCommand types owner lambda
  ofNone : lambdas = [] -> ∃ reason, (inClass types owner).value = .missed reason ∧
    (reason = .noConstructorLambda ∨ reason = .noCommandConstructor ∨
      ∃ count, reason = .ambiguousConstructorLambda count)
  noLambda : (inClass types owner).value = .missed .noConstructorLambda -> lambdas = []
  found : ∀ call, (inClass types owner).value = .constructorCall call ->
    ∃ lambda, lambdas = [lambda] ∧ (inLambda types lambda).value = .constructorCall call
  ambiguous : 2 ≤ lambdas.length -> ∃ count, lambdas.length ≤ count ∧
    (inClass types owner).value = .missed (.ambiguousConstructorLambda count)

/-- The search in a class passes over no lambda with a command. Let no constructor call stand in a
scoped type. The lambdas in constructors of a class with a command below them decide its outcome: if
there is none, nothing is found; one is found only if it is the only one; and two or more of them
are ambiguous, together with the candidates that have no command. -/
theorem inClass_passes_over_no_command (types : TypeSet)
    (height : HeightAtMost maxTreeDepth document.rootNode) (plain : document.HasPlainTypeNames)
    {depth : Nat} {owner : document.Node} (reached : Descends document.rootNode depth owner) :
    ∃ lambdas, DecidedBy types owner lambdas := by
  have ownerHeight := (height.of_descends reached).mono (Nat.sub_le _ _)
  have covers : ∀ lambda, SuppliesCommand types owner lambda -> Mentions types lambda := by
    intro lambda supplies
    rcases supplies.below with ⟨steps, below⟩
    rcases supplies.command with ⟨further, call, inLambda, isCommand⟩
    exact Java.Document.mentions_of_descends plain (reached.trans below) inLambda isCommand
  refine ⟨commandLambdas types owner, nodup_commandLambdas document.coherent reached types,
    fun lambda => mem_commandLambdas_iff ownerHeight covers, missed_of_commandLambdas_eq_nil,
    commandLambdas_eq_nil_of_missed, ?_, ambiguous_of_two_commandLambdas⟩
  intro call isCall
  exact commandLambdas_of_constructorCall isCall

/-- One lambda supplies the command of the class, and another one has none. -/
theorem inClass_passes_over_no_command_one_of_two_lambdas :
    let types := TypeSet.ofList ["S"]
    let document := Java.Document.parse "class A{p.T t;A(){f(()->new S());f(()->1);}}"
    HeightAtMost maxTreeDepth document.rootNode ∧ document.HasPlainTypeNames ∧
      ∃ owner call lambda : document.Node, kind owner = .classDeclaration ∧
        (inClass types owner).value = .constructorCall call ∧
        (∀ other, SuppliesCommand types owner other ↔ other = lambda) ∧
        (inLambda types lambda).value = .constructorCall call := by
  intro types document
  have checked : (level document.rootNode 13).isEmpty = true ∧
      (∀ type ∈ preorder 12 document.rootNode, type.place.isA .scopedTypeIdentifier = true ->
        ∀ call ∈ preorder 12 type, kind call ≠ .constructorCall) ∧
      ∃ owner ∈ preorder 12 document.rootNode, kind owner = .classDeclaration ∧
        (inClass types owner).value.matchKind? = some .constructorCall := by
    decide +kernel
  rcases checked with ⟨noneDeeper, noCall, owner, isNode, isClass, isMatch⟩
  have low : HeightAtMost 12 document.rootNode :=
    heightAtMost_of_level_eq_nil (List.isEmpty_iff.mp noneDeeper)
  have height : HeightAtMost maxTreeDepth document.rootNode := low.mono (by decide)
  have plain : document.HasPlainTypeNames := by
    intro depth type reached isScoped steps call below
    have typeLow := (low.of_descends reached).mono (Nat.sub_le _ _)
    exact noCall type ((mem_preorder_of_heightAtMost low).mpr ⟨depth, reached⟩) isScoped call
      ((mem_preorder_of_heightAtMost typeLow).mpr ⟨steps, below⟩)
  rcases mem_preorder.mp isNode with ⟨depth, _, reached⟩
  obtain ⟨call, isCall⟩ : ∃ call, (inClass types owner).value = .constructorCall call := by
    cases isValue : (inClass types owner).value with
    | constructorCall call => exact ⟨call, rfl⟩
    | _ => simp [isValue, Outcome.matchKind?] at isMatch
  rcases inClass_passes_over_no_command types height plain reached with ⟨lambdas, decided⟩
  rcases decided.found call isCall with ⟨lambda, rfl, isCommand⟩
  refine ⟨height, plain, owner, call, lambda, isClass, isCall, ?_, isCommand⟩
  intro other
  rw [← decided.mem_iff, List.mem_singleton]

end Search
end CommandWiring
