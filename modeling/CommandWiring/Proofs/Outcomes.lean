import CommandWiring.Extraction.Search
import CommandWiring.Proofs.Unwinding

/-!
# What a search for a command yields

Which outcome an invocation yields is said here without the search: by the first node of a listing
that is of some sort, by the nearest node above another, and by the end of a chain. The search has
exactly these outcomes, whatever the structure looks like.
-/

namespace CommandWiring

open SyntaxNode

/-!
# Firsts
-/

/-- `element` is the first of `elements` that is wanted. -/
def IsFirst {α : Type} (wanted : α -> Prop) (elements : List α) (element : α) : Prop :=
  wanted element ∧
    ∃ before after, elements = before ++ element :: after ∧ ∀ other ∈ before, ¬ wanted other

section

variable {α : Type} {accepts : α -> Bool} {wanted : α -> Prop}

theorem find?_eq_some_iff_isFirst (agrees : ∀ element, accepts element = true ↔ wanted element)
    (elements : List α) (element : α) :
    elements.find? accepts = some element ↔ IsFirst wanted elements element := by
  rw [List.find?_eq_some_iff_append, agrees, IsFirst]
  simp only [Bool.not_eq_true', ← agrees, Bool.not_eq_true]

theorem find?_eq_none_iff_forall (agrees : ∀ element, accepts element = true ↔ wanted element)
    (elements : List α) :
    elements.find? accepts = none ↔ ∀ element ∈ elements, ¬ wanted element := by
  simp only [List.find?_eq_none, agrees]

end

variable {N : Type} [SyntaxNode N]

theorem ofKind_iff {wanted : NodeKind} {node : N} :
    ofKind wanted node = true ↔ kind node = wanted := by
  rw [ofKind, beq_iff_eq]

/-!
# Above a node
-/

/-- `upper` is the nearest node of a kind above `node`, and it is not too far up. -/
def Encloses (wanted : NodeKind) (upper node : N) : Prop :=
  ∃ steps < maxTreeDepth, IsNearest (ofKind wanted) steps node upper

/-- None of the nodes above `node` that are not too far up is of the kind. -/
def IsOutside (wanted : NodeKind) (node : N) : Prop :=
  ∀ steps < maxTreeDepth, ∀ upper, above? (steps + 1) node = some upper -> kind upper ≠ wanted

theorem enclosing?_eq_some_iff {wanted : NodeKind} {node upper : N} :
    enclosing? node wanted = some upper ↔ Encloses wanted upper node :=
  ancestorWithin?_eq_some

theorem enclosing?_eq_none_iff {wanted : NodeKind} {node : N} :
    enclosing? node wanted = none ↔ IsOutside wanted node := by
  rw [enclosing?, findAncestor?, ancestorWithin?_eq_none, IsOutside]
  simp only [← ofKind_iff, ne_eq, Bool.not_eq_true]

namespace Search

/-!
# Nodes that are looked for
-/

def Mentions (types : TypeSet) (node : N) : Prop :=
  ∃ name ∈ mentions node, name ∈ types

def IsCommandCall (types : TypeSet) (node : N) : Prop :=
  kind node = .constructorCall ∧ Mentions types node

def BelongsTo (name : String) (lambda : N) : Prop :=
  kind lambda = .lambda ∧
    ∃ declared, Encloses .localVariable declared lambda ∧ name? declared = some name

theorem mentionsAny_iff {types : TypeSet} {node : N} :
    mentionsAny types node = true ↔ Mentions types node := by
  simp [mentionsAny, TypeSet.containsAny, TypeSet.contains, Mentions]

theorem isCommandCall_iff (types : TypeSet) (node : N) :
    (ofKind .constructorCall node && mentionsAny types node) = true ↔ IsCommandCall types node := by
  rw [Bool.and_eq_true, ofKind_iff, mentionsAny_iff, IsCommandCall]

theorem initializes_iff (name : String) (lambda : N) :
    initializes name lambda = true ↔ BelongsTo name lambda := by
  rw [initializes, Bool.and_eq_true, ofKind_iff, beq_iff_eq, Option.bind_eq_some_iff, BelongsTo]
  simp only [enclosing?_eq_some_iff]

/-!
# Lambdas
-/

/-- The first constructor call in a lambda that mentions a command type is the command. -/
inductive LambdaYields (types : TypeSet) (lambda : N) : Outcome N -> Prop where
  | command {call : N} :
      IsFirst (IsCommandCall types) (preorder maxTreeDepth lambda) call ->
      LambdaYields types lambda (.constructorCall call)
  | noCommand :
      (∀ node ∈ preorder maxTreeDepth lambda, ¬ IsCommandCall types node) ->
      LambdaYields types lambda (.missed .noCommandConstructor)

theorem value_inLambda_eq_iff {types : TypeSet} {lambda : N} {outcome : Outcome N} :
    (inLambda types lambda).value = outcome ↔ LambdaYields types lambda outcome := by
  have first_iff {call : N} :=
    find?_eq_some_iff_isFirst (isCommandCall_iff types) (preorder maxTreeDepth lambda) call
  have none_iff :=
    find?_eq_none_iff_forall (isCommandCall_iff types) (preorder maxTreeDepth lambda)
  rw [inLambda, findFirst?_eq_find?]
  cases found : (preorder maxTreeDepth lambda).find? fun node =>
      ofKind .constructorCall node && mentionsAny types node with
  | none =>
      constructor
      · rintro rfl
        exact .noCommand (none_iff.mp found)
      · intro yields
        cases yields with
        | command isFirst =>
            rw [first_iff.mpr isFirst] at found
            cases found
        | noCommand _ => rfl
  | some call =>
      constructor
      · rintro rfl
        exact .command (first_iff.mp found)
      · intro yields
        cases yields with
        | command isFirst =>
            rw [first_iff.mpr isFirst] at found
            rcases Option.some.inj found with rfl
            rfl
        | noCommand isNone =>
            rw [none_iff.mpr isNone] at found
            cases found

/-!
# Variables
-/

/-- A variable stands for the first lambda in its method that belongs to a local variable of the
same name. -/
inductive VariableYields (types : TypeSet) (reference : N) : Outcome N -> Prop where
  | outside :
      IsOutside .methodDeclaration reference ->
      VariableYields types reference (.missed .noEnclosingMethod)
  | unresolved {method : N} :
      Encloses .methodDeclaration method reference ->
      (∀ node ∈ preorder maxTreeDepth method, ¬ BelongsTo (text reference) node) ->
      VariableYields types reference (.missed .variableNotResolved)
  | resolved {method lambda : N} {outcome : Outcome N} :
      Encloses .methodDeclaration method reference ->
      IsFirst (BelongsTo (text reference)) (preorder maxTreeDepth method) lambda ->
      LambdaYields types lambda outcome -> VariableYields types reference outcome

theorem value_inVariable_eq_iff {types : TypeSet} {reference : N} {outcome : Outcome N} :
    (inVariable types reference).value = outcome ↔ VariableYields types reference outcome := by
  have first_iff {method lambda : N} :=
    find?_eq_some_iff_isFirst (initializes_iff (text reference)) (preorder maxTreeDepth method)
      lambda
  have none_iff {method : N} := find?_eq_none_iff_forall
    (initializes_iff (text reference)) (preorder maxTreeDepth method)
  rw [inVariable]
  cases around : enclosing? reference .methodDeclaration with
  | none =>
      constructor
      · rintro rfl
        exact .outside (enclosing?_eq_none_iff.mp around)
      · intro yields
        cases yields with
        | outside _ => rfl
        | unresolved encloses _ =>
            rw [enclosing?_eq_some_iff.mpr encloses] at around
            cases around
        | resolved encloses _ _ =>
            rw [enclosing?_eq_some_iff.mpr encloses] at around
            cases around
  | some method =>
      have isMethod := enclosing?_eq_some_iff.mp around
      have same {other : N} (encloses : Encloses .methodDeclaration other reference) :
          method = other := by
        rw [enclosing?_eq_some_iff.mpr encloses] at around
        exact (Option.some.inj around).symm
      dsimp only
      rw [findFirst?_eq_find?]
      cases found : (preorder maxTreeDepth method).find? (initializes (text reference)) with
      | none =>
          constructor
          · rintro rfl
            exact .unresolved isMethod (none_iff.mp found)
          · intro yields
            cases yields with
            | outside isOutside =>
                rw [enclosing?_eq_none_iff.mpr isOutside] at around
                cases around
            | unresolved _ _ => rfl
            | resolved encloses isFirst _ =>
                rcases same encloses with rfl
                rw [first_iff.mpr isFirst] at found
                cases found
      | some lambda =>
          constructor
          · intro isOutcome
            exact .resolved isMethod (first_iff.mp found) (value_inLambda_eq_iff.mp isOutcome)
          · intro yields
            cases yields with
            | outside isOutside =>
                rw [enclosing?_eq_none_iff.mpr isOutside] at around
                cases around
            | unresolved encloses isNone =>
                rcases same encloses with rfl
                rw [none_iff.mpr isNone] at found
                cases found
            | resolved encloses isFirst yields =>
                rcases same encloses with rfl
                rw [first_iff.mpr isFirst] at found
                rcases Option.some.inj found with rfl
                exact value_inLambda_eq_iff.mpr yields

/-!
# Suppliers
-/

/-- The second of exactly two arguments supplies the command, otherwise the first. -/
def IsSupplier {α : Type} (arguments : List α) (supplier : α) : Prop :=
  if arguments.length = 2 then arguments[1]? = some supplier else arguments[0]? = some supplier

theorem supplier?_eq_some_iff {α : Type} {arguments : List α} {supplier : α} :
    Chain.supplier? arguments = some supplier ↔ IsSupplier arguments supplier := by
  rcases arguments with _ | ⟨first, _ | ⟨second, _ | ⟨third, rest⟩⟩⟩
  all_goals simp [Chain.supplier?, IsSupplier]

theorem supplier?_eq_none_iff {α : Type} {arguments : List α} :
    Chain.supplier? arguments = none ↔ arguments = [] := by
  rcases arguments with _ | ⟨first, _ | ⟨second, _ | ⟨third, rest⟩⟩⟩
  all_goals simp [Chain.supplier?]

inductive SupplierYields (types : TypeSet) (supplier : N) : Outcome N -> Prop where
  | ofLambda {outcome : Outcome N} :
      kind supplier = .lambda -> LambdaYields types supplier outcome ->
      SupplierYields types supplier outcome
  | ofVariable {outcome : Outcome N} :
      kind supplier = .variableReference -> VariableYields types supplier outcome ->
      SupplierYields types supplier outcome
  | ofReference :
      kind supplier = .methodReference -> Mentions types supplier ->
      SupplierYields types supplier (.methodReference supplier)
  | noCommand :
      kind supplier = .methodReference -> ¬ Mentions types supplier ->
      SupplierYields types supplier (.missed .methodReferenceNotCommand)
  | unsupported :
      kind supplier ≠ .lambda -> kind supplier ≠ .variableReference ->
      kind supplier ≠ .methodReference ->
      SupplierYields types supplier (.missed .unrecognizedSupplierKind)

theorem value_inSupplier_eq_iff {types : TypeSet} {supplier : N} {outcome : Outcome N} :
    (inSupplier types supplier).value = outcome ↔ SupplierYields types supplier outcome := by
  rw [inSupplier]
  split
  · next isLambda =>
      rw [value_inLambda_eq_iff]
      constructor
      · exact .ofLambda isLambda
      · intro yields
        cases yields <;> simp_all
  · next isVariable =>
      rw [value_inVariable_eq_iff]
      constructor
      · exact .ofVariable isVariable
      · intro yields
        cases yields <;> simp_all
  · next isReference =>
      rw [inMethodReference]
      split
      · next mentioned =>
          constructor
          · rintro rfl
            exact .ofReference isReference (mentionsAny_iff.mp mentioned)
          · intro yields
            cases yields <;> simp_all [mentionsAny_iff, pure]
      · next notMentioned =>
          rw [mentionsAny_iff] at notMentioned
          constructor
          · rintro rfl
            exact .noCommand isReference notMentioned
          · intro yields
            cases yields <;> simp_all [missed, Logged.warned]
  · next notLambda notVariable notReference =>
      constructor
      · rintro rfl
        exact .unsupported notLambda notVariable notReference
      · intro yields
        cases yields <;> simp_all [missed, Logged.warned]

/-!
# Anonymous binders
-/

/-- The first block of the first lambda below an anonymous binder is the command. -/
inductive AnonymousYields (invocation : N) : Outcome N -> Prop where
  | block {lambda block : N} :
      IsFirst (fun node : N => kind node = .lambda) (preorder maxTreeDepth invocation) lambda ->
      IsFirst (fun node : N => kind node = .block) (children lambda) block ->
      AnonymousYields invocation (.block block)
  | noLambda :
      (∀ node ∈ preorder maxTreeDepth invocation, kind node ≠ .lambda) ->
      AnonymousYields invocation (.missed .noBlockInAnonymousBinder)
  | noBlock {lambda : N} :
      IsFirst (fun node : N => kind node = .lambda) (preorder maxTreeDepth invocation) lambda ->
      (∀ child ∈ children lambda, kind child ≠ .block) ->
      AnonymousYields invocation (.missed .noBlockInAnonymousBinder)

theorem value_inAnonymousBinder_eq_iff {invocation : N} {outcome : Outcome N} :
    (inAnonymousBinder invocation).value = outcome ↔ AnonymousYields invocation outcome := by
  have first_iff {wanted : NodeKind} {nodes : List N} {node : N} :=
    find?_eq_some_iff_isFirst (@ofKind_iff N _ wanted) nodes node
  have none_iff {wanted : NodeKind} {nodes : List N} :=
    find?_eq_none_iff_forall (@ofKind_iff N _ wanted) nodes
  rw [inAnonymousBinder, findFirst?_eq_find?]
  cases found : (preorder maxTreeDepth invocation).find? (ofKind .lambda) with
  | none =>
      constructor
      · rintro rfl
        exact .noLambda (none_iff.mp found)
      · intro yields
        cases yields with
        | block isFirst _ =>
            rw [first_iff.mpr isFirst] at found
            cases found
        | noLambda _ => rfl
        | noBlock _ _ => rfl
  | some lambda =>
      have same {other : N} (isFirst : IsFirst (fun node : N => kind node = .lambda)
          (preorder maxTreeDepth invocation) other) : lambda = other := by
        rw [first_iff.mpr isFirst] at found
        exact (Option.some.inj found).symm
      rw [Option.bind_some]
      cases inside : (children lambda).find? (ofKind .block) with
      | none =>
          constructor
          · rintro rfl
            exact .noBlock (first_iff.mp found) (none_iff.mp inside)
          · intro yields
            cases yields with
            | block isFirst isBlock =>
                rcases same isFirst with rfl
                rw [first_iff.mpr isBlock] at inside
                cases inside
            | noLambda _ => rfl
            | noBlock _ _ => rfl
      | some block =>
          constructor
          · rintro rfl
            exact .block (first_iff.mp found) (first_iff.mp inside)
          · intro yields
            cases yields with
            | block isFirst isBlock =>
                rcases same isFirst with rfl
                rw [first_iff.mpr isBlock] at inside
                rcases Option.some.inj inside with rfl
                rfl
            | noLambda isNone =>
                rw [none_iff.mpr isNone] at found
                cases found
            | noBlock isFirst isNone =>
                rcases same isFirst with rfl
                rw [none_iff.mpr isNone] at inside
                cases inside

/-!
# Invocations
-/

def EndsAt (invocation last : N) : Prop :=
  ∃ steps ≤ maxChainDepth, Chain.Follows invocation steps last ∧ Chain.IsLast last

/-- What a binder yields depends on the last call of its chain: on its name, and otherwise on its
supplier. -/
inductive Yields (types : TypeSet) (invocation : N) : Outcome N -> Prop where
  | tooDeep {lower : N} :
      Chain.Follows invocation (maxChainDepth + 1) lower ->
      Yields types invocation (.missed .malformedChain)
  | anonymous {last : N} {outcome : Outcome N} :
      EndsAt invocation last -> name? last = some anonymousBinder ->
      AnonymousYields invocation outcome -> Yields types invocation outcome
  | noSupplier {last : N} :
      EndsAt invocation last -> name? last ≠ some anonymousBinder ->
      (∀ child ∈ children last, role child ≠ .argument) ->
      Yields types invocation (.missed .noSupplierArgument)
  | supplied {last supplier : N} {outcome : Outcome N} :
      EndsAt invocation last -> name? last ≠ some anonymousBinder ->
      IsSupplier (Chain.argumentsOf last) supplier -> SupplierYields types supplier outcome ->
      Yields types invocation outcome

theorem endsAt_iff {invocation last : N} :
    EndsAt invocation last ↔
      ∃ chain, Chain.unwind? invocation = some chain ∧ chain.innermost = last := by
  constructor
  · intro given
    rcases given with ⟨steps, le, follows, isLast⟩
    exact ⟨⟨last, Chain.argumentsOf last, steps⟩,
      Chain.unwind?_eq_some_iff.mpr ⟨le, follows, isLast, rfl⟩, rfl⟩
  · intro given
    rcases given with ⟨chain, found, rfl⟩
    rcases Chain.unwind?_eq_some_iff.mp found with ⟨le, follows, isLast, _⟩
    exact ⟨chain.depth, le, follows, isLast⟩

theorem arguments_of_unwind? {invocation : N} {chain : Chain N}
    (found : Chain.unwind? invocation = some chain) :
    chain.arguments = Chain.argumentsOf chain.innermost := by
  rcases Chain.unwind?_eq_some_iff.mp found with ⟨_, _, _, areArguments⟩
  exact areArguments

theorem argumentsOf_eq_nil_iff {node : N} :
    Chain.argumentsOf node = [] ↔ ∀ child ∈ children node, role child ≠ .argument := by
  simp [Chain.argumentsOf, List.filter_eq_nil_iff]

theorem EndsAt.unique {invocation first second : N} (one : EndsAt invocation first)
    (other : EndsAt invocation second) : first = second := by
  rcases endsAt_iff.mp one with ⟨chain, found, rfl⟩
  rcases endsAt_iff.mp other with ⟨same, alsoFound, rfl⟩
  rw [found] at alsoFound
  rw [Option.some.inj alsoFound]

theorem EndsAt.not_tooDeep {invocation last lower : N} (ends : EndsAt invocation last) :
    ¬ Chain.Follows invocation (maxChainDepth + 1) lower := by
  intro follows
  rcases endsAt_iff.mp ends with ⟨chain, found, _⟩
  rw [Chain.unwind?_eq_none_iff.mpr ⟨lower, follows⟩] at found
  cases found

/-!
# One case at a time
-/

section

variable {types : TypeSet} {invocation last : N} {outcome : Outcome N}

theorem yields_iff_of_tooDeep {lower : N}
    (follows : Chain.Follows invocation (maxChainDepth + 1) lower) :
    Yields types invocation outcome ↔ .missed .malformedChain = outcome := by
  constructor
  · intro yields
    cases yields with
    | tooDeep _ => rfl
    | anonymous ends _ _ => exact absurd follows ends.not_tooDeep
    | noSupplier ends _ _ => exact absurd follows ends.not_tooDeep
    | supplied ends _ _ _ => exact absurd follows ends.not_tooDeep
  · rintro rfl
    exact .tooDeep follows

theorem yields_iff_of_anonymous (ends : EndsAt invocation last)
    (isAnonymous : name? last = some anonymousBinder) :
    Yields types invocation outcome ↔ AnonymousYields invocation outcome := by
  constructor
  · intro yields
    cases yields with
    | tooDeep follows => exact absurd follows ends.not_tooDeep
    | anonymous _ _ yields => exact yields
    | noSupplier alsoEnds notAnonymous _ =>
        rcases ends.unique alsoEnds with rfl
        exact absurd isAnonymous notAnonymous
    | supplied alsoEnds notAnonymous _ _ =>
        rcases ends.unique alsoEnds with rfl
        exact absurd isAnonymous notAnonymous
  · exact .anonymous ends isAnonymous

theorem yields_iff_of_noSupplier (ends : EndsAt invocation last)
    (notAnonymous : name? last ≠ some anonymousBinder)
    (noSupplier : Chain.supplier? (Chain.argumentsOf last) = none) :
    Yields types invocation outcome ↔ .missed .noSupplierArgument = outcome := by
  constructor
  · intro yields
    cases yields with
    | tooDeep follows => exact absurd follows ends.not_tooDeep
    | anonymous alsoEnds isAnonymous _ =>
        rcases ends.unique alsoEnds with rfl
        exact absurd isAnonymous notAnonymous
    | noSupplier _ _ _ => rfl
    | supplied alsoEnds _ isSupplier _ =>
        rcases ends.unique alsoEnds with rfl
        rw [supplier?_eq_some_iff.mpr isSupplier] at noSupplier
        cases noSupplier
  · rintro rfl
    have noArgument := supplier?_eq_none_iff.mp noSupplier
    exact .noSupplier ends notAnonymous (argumentsOf_eq_nil_iff.mp noArgument)

theorem yields_iff_of_supplier {supplier : N} (ends : EndsAt invocation last)
    (notAnonymous : name? last ≠ some anonymousBinder)
    (found : Chain.supplier? (Chain.argumentsOf last) = some supplier) :
    Yields types invocation outcome ↔ SupplierYields types supplier outcome := by
  constructor
  · intro yields
    cases yields with
    | tooDeep follows => exact absurd follows ends.not_tooDeep
    | anonymous alsoEnds isAnonymous _ =>
        rcases ends.unique alsoEnds with rfl
        exact absurd isAnonymous notAnonymous
    | noSupplier alsoEnds _ noArgument =>
        rcases ends.unique alsoEnds with rfl
        rw [supplier?_eq_none_iff.mpr (argumentsOf_eq_nil_iff.mpr noArgument)] at found
        cases found
    | supplied alsoEnds _ isSupplier yields =>
        rcases ends.unique alsoEnds with rfl
        rw [supplier?_eq_some_iff.mpr isSupplier] at found
        rcases Option.some.inj found with rfl
        exact yields
  · exact .supplied ends notAnonymous (supplier?_eq_some_iff.mp found)

end

/-- The search from an invocation has the outcome that the invocation yields, on every structure. -/
theorem value_inInvocation_eq_iff (types : TypeSet) (invocation : N) (outcome : Outcome N) :
    (inInvocation types invocation).value = outcome ↔ Yields types invocation outcome := by
  rw [inInvocation]
  cases found : Chain.unwind? invocation with
  | none =>
      rcases Chain.unwind?_eq_none_iff.mp found with ⟨lower, follows⟩
      rw [yields_iff_of_tooDeep follows]
      rfl
  | some chain =>
      have ends : EndsAt invocation chain.innermost := endsAt_iff.mpr ⟨chain, found, rfl⟩
      dsimp only
      rw [arguments_of_unwind? found]
      split
      · next isAnonymous =>
          rw [yields_iff_of_anonymous ends isAnonymous, value_inAnonymousBinder_eq_iff]
      · next notAnonymous =>
          cases isSupplied : Chain.supplier? (Chain.argumentsOf chain.innermost) with
          | none =>
              rw [yields_iff_of_noSupplier ends notAnonymous isSupplied]
              rfl
          | some supplier =>
              rw [yields_iff_of_supplier ends notAnonymous isSupplied, ← value_inSupplier_eq_iff]

end Search
end CommandWiring
