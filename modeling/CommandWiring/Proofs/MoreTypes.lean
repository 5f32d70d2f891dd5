import CommandWiring.Node.Graph
import CommandWiring.Proofs.Outcomes

/-!
# More command types

Where a search looks does not depend on the command types. They only decide which constructor call
of a lambda is taken, and whether a method reference is one. So more types lose nothing that was
found, and a constructor call gives way only to one that is visited before it.
-/

namespace CommandWiring

open SyntaxNode

/-!
# Firsts with their positions
-/

section

variable {α : Type} {wanted larger : α -> Prop} {elements : List α} {element : α}

def IsFirstAt (wanted : α -> Prop) (elements : List α) (position : Nat) (element : α) : Prop :=
  wanted element ∧ ∃ before after, elements = before ++ element :: after ∧
    before.length = position ∧ ∀ other ∈ before, ¬ wanted other

theorem isFirst_iff_exists_isFirstAt :
    IsFirst wanted elements element ↔ ∃ position, IsFirstAt wanted elements position element := by
  constructor
  · rintro ⟨isWanted, before, after, split, none⟩
    exact ⟨before.length, isWanted, before, after, split, rfl, none⟩
  · rintro ⟨_, isWanted, before, after, split, _, none⟩
    exact ⟨isWanted, before, after, split, none⟩

theorem exists_isFirstAt_of_append (before : List α) {after : List α} (isWanted : wanted element) :
    ∃ position ≤ before.length, ∃ first,
      IsFirstAt wanted (before ++ element :: after) position first := by
  induction before with
  | nil => exact ⟨0, Nat.le_refl 0, element, isWanted, [], after, rfl, rfl, nofun⟩
  | cons head rest ih =>
      by_cases isFirst : wanted head
      · exact ⟨0, Nat.zero_le _, head, isFirst, [], rest ++ element :: after, rfl, rfl, nofun⟩
      · rcases ih with ⟨position, le, first, firstWanted, front, back, split, length, none⟩
        refine ⟨position + 1, Nat.succ_le_succ le, first, firstWanted, head :: front, back, ?_,
          congrArg Nat.succ length, List.forall_mem_cons.mpr ⟨isFirst, none⟩⟩
        rw [List.cons_append, List.cons_append, split]

theorem IsFirstAt.exists_le {position : Nat} (isFirst : IsFirstAt wanted elements position element)
    (implies : ∀ other, wanted other -> larger other) :
    ∃ earlier ≤ position, ∃ first, IsFirstAt larger elements earlier first := by
  rcases isFirst with ⟨isWanted, before, after, rfl, rfl, _⟩
  exact exists_isFirstAt_of_append before (implies element isWanted)

end

namespace Search

variable {N : Type} [SyntaxNode N]

/-!
# Where a search looks
-/

/-- `supplier` is the argument that supplies the command of `invocation`. -/
def Supplies (invocation supplier : N) : Prop :=
  ∃ last, EndsAt invocation last ∧ name? last ≠ some anonymousBinder ∧
    IsSupplier (Chain.argumentsOf last) supplier

/-- The lambda that is searched for a constructor call: the supplier of an invocation, or what a
variable in its place stands for. -/
inductive SuppliesLambda (invocation : N) : N -> Prop where
  | itself {lambda : N} :
      Supplies invocation lambda -> kind lambda = .lambda -> SuppliesLambda invocation lambda
  | byName {reference method lambda : N} :
      Supplies invocation reference -> kind reference = .variableReference ->
      Encloses .methodDeclaration method reference ->
      IsFirst (BelongsTo (text reference)) (preorder maxTreeDepth method) lambda ->
      SuppliesLambda invocation lambda

variable {types more : TypeSet} {invocation : N}

theorem Yields.ofSupplier {supplier : N} {outcome : Outcome N}
    (supplies : Supplies invocation supplier) (yields : SupplierYields types supplier outcome) :
    Yields types invocation outcome := by
  rcases supplies with ⟨last, ends, notAnonymous, isSupplier⟩
  exact .supplied ends notAnonymous isSupplier yields

theorem yields_constructorCall_iff {call : N} :
    Yields types invocation (.constructorCall call) ↔
      ∃ lambda, SuppliesLambda invocation lambda ∧
        IsFirst (IsCommandCall types) (preorder maxTreeDepth lambda) call := by
  constructor
  · intro yields
    cases yields with
    | anonymous _ _ yields => cases yields
    | supplied ends notAnonymous isSupplier yields =>
        have supplies : Supplies invocation _ := ⟨_, ends, notAnonymous, isSupplier⟩
        cases yields with
        | ofLambda isLambda yields =>
            cases yields with
            | command isFirst => exact ⟨_, .itself supplies isLambda, isFirst⟩
        | ofVariable isVariable yields =>
            cases yields with
            | resolved encloses belongs yields =>
                cases yields with
                | command isFirst =>
                    exact ⟨_, .byName supplies isVariable encloses belongs, isFirst⟩
  · rintro ⟨lambda, supplies, isFirst⟩
    cases supplies with
    | itself supplies isLambda => exact .ofSupplier supplies (.ofLambda isLambda (.command isFirst))
    | byName supplies isVariable encloses belongs =>
        exact .ofSupplier supplies
          (.ofVariable isVariable (.resolved encloses belongs (.command isFirst)))

/-!
# What does not depend on the types
-/

/-- Why a search can miss before it looks at any type. -/
def reasonsBeforeTypes : List MissReason :=
  [.malformedChain, .noSupplierArgument, .unrecognizedSupplierKind, .noEnclosingMethod,
    .variableNotResolved, .noBlockInAnonymousBinder]

theorem Yields.block_of_block {block : N} (yields : Yields types invocation (.block block)) :
    Yields more invocation (.block block) := by
  cases yields with
  | anonymous ends isAnonymous yields => exact .anonymous ends isAnonymous yields
  | supplied _ _ _ yields =>
      cases yields with
      | ofLambda _ yields => cases yields
      | ofVariable _ yields =>
          cases yields with
          | resolved _ _ yields => cases yields

theorem Yields.missed_of_missed {reason : MissReason} (early : reason ∈ reasonsBeforeTypes)
    (yields : Yields types invocation (.missed reason)) :
    Yields more invocation (.missed reason) := by
  cases yields with
  | tooDeep follows => exact .tooDeep follows
  | anonymous ends isAnonymous yields => exact .anonymous ends isAnonymous yields
  | noSupplier ends notAnonymous noArgument => exact .noSupplier ends notAnonymous noArgument
  | supplied ends notAnonymous isSupplier yields =>
      refine .supplied ends notAnonymous isSupplier ?_
      cases yields with
      | ofLambda _ yields =>
          cases yields with
          | noCommand _ => simp [reasonsBeforeTypes] at early
      | ofVariable isVariable yields =>
          cases yields with
          | outside isOutside => exact .ofVariable isVariable (.outside isOutside)
          | unresolved encloses isNone => exact .ofVariable isVariable (.unresolved encloses isNone)
          | resolved _ _ yields =>
              cases yields with
              | noCommand _ => simp [reasonsBeforeTypes] at early
      | noCommand _ _ => simp [reasonsBeforeTypes] at early
      | unsupported notLambda notVariable notReference =>
          exact .unsupported notLambda notVariable notReference

/-!
# Larger sets of types
-/

theorem Mentions.mono (subset : ∀ name ∈ types, name ∈ more) {node : N}
    (mentioned : Mentions types node) : Mentions more node := by
  rcases mentioned with ⟨name, isMentioned, isCommand⟩
  exact ⟨name, isMentioned, subset name isCommand⟩

theorem IsCommandCall.mono (subset : ∀ name ∈ types, name ∈ more) {node : N}
    (isCommand : IsCommandCall types node) : IsCommandCall more node :=
  ⟨isCommand.1, isCommand.2.mono subset⟩

theorem Yields.methodReference_mono (subset : ∀ name ∈ types, name ∈ more) {reference : N}
    (yields : Yields types invocation (.methodReference reference)) :
    Yields more invocation (.methodReference reference) := by
  cases yields with
  | anonymous _ _ yields => cases yields
  | supplied ends notAnonymous isSupplier yields =>
      refine .supplied ends notAnonymous isSupplier ?_
      cases yields with
      | ofLambda _ yields => cases yields
      | ofVariable _ yields =>
          cases yields with
          | resolved _ _ yields => cases yields
      | ofReference isReference mentioned =>
          exact .ofReference isReference (mentioned.mono subset)

theorem Yields.constructorCall_mono (subset : ∀ name ∈ types, name ∈ more) {call : N}
    (yields : Yields types invocation (.constructorCall call)) :
    ∃ lambda earlier, SuppliesLambda invocation lambda ∧
      Yields more invocation (.constructorCall earlier) ∧
      ∃ position late, position ≤ late ∧
        IsFirstAt (IsCommandCall more) (preorder maxTreeDepth lambda) position earlier ∧
        IsFirstAt (IsCommandCall types) (preorder maxTreeDepth lambda) late call := by
  rcases yields_constructorCall_iff.mp yields with ⟨lambda, supplies, isFirst⟩
  rcases isFirst_iff_exists_isFirstAt.mp isFirst with ⟨late, isLate⟩
  rcases isLate.exists_le fun _ isCommand => isCommand.mono subset with
    ⟨position, le, earlier, isEarlier⟩
  have alsoFirst := isFirst_iff_exists_isFirstAt.mpr ⟨position, isEarlier⟩
  exact ⟨lambda, earlier, supplies, yields_constructorCall_iff.mpr ⟨lambda, supplies, alsoFirst⟩,
    position, late, le, isEarlier, isLate⟩

/-- What a search with `types` finds, and what it finds with `more` of them. -/
structure FindsNoLess (types more : TypeSet) (invocation : N) : Prop where
  block : ∀ block, (inInvocation types invocation).value = .block block ->
    (inInvocation more invocation).value = .block block
  methodReference : ∀ reference,
    (inInvocation types invocation).value = .methodReference reference ->
      (inInvocation more invocation).value = .methodReference reference
  constructorCall : ∀ call, (inInvocation types invocation).value = .constructorCall call ->
    ∃ lambda earlier, SuppliesLambda invocation lambda ∧
      (inInvocation more invocation).value = .constructorCall earlier ∧
      ∃ position late, position ≤ late ∧
        IsFirstAt (IsCommandCall more) (preorder maxTreeDepth lambda) position earlier ∧
        IsFirstAt (IsCommandCall types) (preorder maxTreeDepth lambda) late call
  missed_iff : ∀ reason ∈ reasonsBeforeTypes,
    (inInvocation types invocation).value = .missed reason ↔
      (inInvocation more invocation).value = .missed reason

/-- With more types a search finds the same block and the same method reference, and a constructor
call of the same lambda that is visited no later. What it misses before it looks at types it misses
with any types. -/
theorem inInvocation_monotone (subset : ∀ name ∈ types, name ∈ more) (invocation : N) :
    FindsNoLess types more invocation := by
  constructor
  all_goals simp only [value_inInvocation_eq_iff]
  case block =>
    intro block yields
    exact yields.block_of_block
  case methodReference =>
    intro reference yields
    exact yields.methodReference_mono subset
  case constructorCall =>
    intro call yields
    exact yields.constructorCall_mono subset
  case missed_iff =>
    intro reason early
    exact ⟨Yields.missed_of_missed early, Yields.missed_of_missed early⟩

theorem inInvocation_monotone_second_call :
    let few := TypeSet.ofList ["B"]
    let many := TypeSet.ofList ["A", "B"]
    let graph := Graph.ofGroups
      [⟨.invocation, .other, some "aBinder", "aBinder(...)", [], [1], none, 1⟩,
        ⟨.lambda, .argument, none, "() -> ...", ["A", "B"], [2, 3], none, 1⟩,
        ⟨.constructorCall, .other, none, "new A()", ["A"], [], none, 1⟩,
        ⟨.constructorCall, .other, none, "new B()", ["B"], [], none, 1⟩]
    let invocation : graph.Node := ⟨⟨0, by decide +kernel⟩⟩
    let first : graph.Node := ⟨⟨2, by decide +kernel⟩⟩
    let second : graph.Node := ⟨⟨3, by decide +kernel⟩⟩
    (∀ name ∈ few, name ∈ many) ∧
      (inInvocation few invocation).value = .constructorCall second ∧
      ∃ lambda earlier, SuppliesLambda invocation lambda ∧
        (inInvocation many invocation).value = .constructorCall earlier ∧ earlier = first ∧
        ∃ position late, position ≤ late ∧
          IsFirstAt (IsCommandCall many) (preorder maxTreeDepth lambda) position earlier ∧
          IsFirstAt (IsCommandCall few) (preorder maxTreeDepth lambda) late second := by
  intro few many graph invocation first second
  have subset : ∀ name ∈ few, name ∈ many := by
    intro name member
    rw [TypeSet.mem_ofList] at member ⊢
    exact List.mem_cons_of_mem _ member
  have withFew : (inInvocation few invocation).value = .constructorCall second := by
    decide +kernel
  have withMany : (inInvocation many invocation).value = .constructorCall first := by
    decide +kernel
  rcases (inInvocation_monotone subset invocation).constructorCall second withFew with
    ⟨lambda, earlier, supplies, found, places⟩
  have same : earlier = first := by
    rw [withMany] at found
    exact (Outcome.constructorCall.inj found).symm
  exact ⟨subset, withFew, lambda, earlier, supplies, found, same, places⟩

end Search
end CommandWiring
