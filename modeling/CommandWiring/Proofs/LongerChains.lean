import CommandWiring.Node.Graph
import CommandWiring.Proofs.ChainLengths
import CommandWiring.Proofs.Outcomes

/-!
# Longer chains

A chain with more calls put behind it ends in the same call, so it has the same supplier. Only the
search below an anonymous binder starts from the outermost call, and it enters the receiver before
the arguments that came later.
-/

namespace CommandWiring

open SyntaxNode

variable {N : Type} [SyntaxNode N]

/-!
# Listings of a node and of its first child
-/

namespace SyntaxNode

theorem findFirst?_eq_of_firstChild? {upper child : N} {wanted : N -> Bool}
    (height : HeightAtMost maxTreeDepth upper) (first : firstChild? upper = some child)
    (passed : wanted upper = false)
    (below : ∃ steps lower, Descends child steps lower ∧ wanted lower = true) :
    findFirst? upper wanted = findFirst? child wanted := by
  rcases below with ⟨steps, lower, descends, isWanted⟩
  rcases List.head?_eq_some_iff.mp first with ⟨rest, isChildren⟩
  have member : child ∈ children upper := List.mem_of_mem_head? first
  have childHeight : HeightAtMost (maxTreeDepth - 1) child :=
    height.of_descends (.of_mem_children member)
  have same : preorder maxTreeDepth child = preorder (maxTreeDepth - 1) child :=
    preorder_eq_of_heightAtMost childHeight (Nat.sub_le _ _)
  have listing : preorder maxTreeDepth upper =
      upper :: (preorder maxTreeDepth child ++ rest.flatMap (preorder (maxTreeDepth - 1))) := by
    rw [same, ← List.flatMap_cons, ← isChildren]
    exact preorder.eq_2 upper (maxTreeDepth - 1)
  have isFound : ((preorder maxTreeDepth child).find? wanted).isSome = true := by
    have listed : lower ∈ preorder maxTreeDepth child := by
      rw [same]
      exact mem_preorder.mpr ⟨steps, childHeight _ _ descends, descends⟩
    exact List.find?_isSome.mpr ⟨lower, listed, isWanted⟩
  rw [findFirst?_eq_find?, findFirst?_eq_find?, listing,
    List.find?_cons_of_neg (Bool.eq_false_iff.mp passed), List.find?_append]
  exact Option.or_of_isSome isFound

end SyntaxNode

/-!
# Chains that differ by one call
-/

theorem Chain.unwind?_of_next {upper lower : N} {chain : Chain N}
    (isNext : next? upper = some lower) (found : unwind? upper = some chain) :
    ∃ rest, unwind? lower = some rest ∧ rest.innermost = chain.innermost ∧
      rest.arguments = chain.arguments := by
  have follows : Follows upper 1 lower := Follows.succ_iff.mpr ⟨lower, isNext, .here⟩
  exact ⟨_, (unwind?_of_follows follows found).2, rfl, rfl⟩

namespace Search

variable {types : TypeSet} {invocation call : N} {chain : Chain N}

theorem inInvocation_of_anonymous (unwound : Chain.unwind? invocation = some chain)
    (isAnonymous : name? chain.innermost = some anonymousBinder) :
    inInvocation types invocation = inAnonymousBinder invocation := by
  simp only [inInvocation, unwound, if_pos isAnonymous]

theorem inInvocation_eq_of_next (isNext : Chain.next? invocation = some call)
    (unwound : Chain.unwind? invocation = some chain)
    (notAnonymous : name? chain.innermost ≠ some anonymousBinder) :
    inInvocation types invocation = inInvocation types call := by
  rcases Chain.unwind?_of_next isNext unwound with ⟨rest, alsoUnwound, sameLast, sameArguments⟩
  simp only [inInvocation, unwound, alsoUnwound, sameLast, sameArguments, if_neg notAnonymous]

theorem value_inAnonymousBinder (invocation : N) :
    (inAnonymousBinder invocation).value =
      ((findFirst? invocation (ofKind .lambda)).bind fun lambda =>
          (children lambda).find? (ofKind .block)).elim
        (.missed .noBlockInAnonymousBinder) .block := by
  rw [inAnonymousBinder]
  split <;> next isBlock => rw [isBlock]; rfl

theorem exists_lambda_of_isFound
    (isFound : (inAnonymousBinder invocation).value.isFound = true) :
    ∃ steps lambda, Descends invocation steps lambda ∧ kind lambda = .lambda := by
  cases first : findFirst? invocation (ofKind .lambda) with
  | none =>
      rw [value_inAnonymousBinder, first] at isFound
      cases isFound
  | some lambda =>
      rcases of_findFirst?_eq_some first with ⟨⟨steps, below⟩, isLambda⟩
      exact ⟨steps, lambda, below, ofKind_iff.mp isLambda⟩

theorem value_inAnonymousBinder_eq (height : HeightAtMost maxTreeDepth invocation)
    (isCall : kind invocation = .invocation) (first : firstChild? invocation = some call)
    (below : ∃ steps lambda, Descends call steps lambda ∧ kind lambda = .lambda) :
    (inAnonymousBinder invocation).value = (inAnonymousBinder call).value := by
  have notLambda : ofKind .lambda invocation = false := by
    rw [ofKind, isCall]
    rfl
  simp only [← ofKind_iff] at below
  rw [value_inAnonymousBinder, value_inAnonymousBinder,
    findFirst?_eq_of_firstChild? height first notLambda below]

theorem value_inInvocation_eq_of_anonymous (height : HeightAtMost maxTreeDepth invocation)
    (isCall : kind invocation = .invocation) (isNext : Chain.next? invocation = some call)
    (unwound : Chain.unwind? invocation = some chain)
    (isAnonymous : name? chain.innermost = some anonymousBinder)
    (below : ∃ steps lambda, Descends call steps lambda ∧ kind lambda = .lambda) :
    (inInvocation types invocation).value = (inInvocation types call).value := by
  rcases Chain.unwind?_of_next isNext unwound with ⟨rest, alsoUnwound, sameLast, _⟩
  rw [inInvocation_of_anonymous unwound isAnonymous,
    inInvocation_of_anonymous alsoUnwound (sameLast ▸ isAnonymous)]
  exact value_inAnonymousBinder_eq height isCall (Chain.next?_eq_some.mp isNext).1 below

theorem value_inInvocation_of_next (height : HeightAtMost maxTreeDepth invocation)
    (isCall : kind invocation = .invocation) (isNext : Chain.next? invocation = some call)
    (unwound : Chain.unwind? invocation = some chain)
    (isFound : (inInvocation types call).value.isFound = true) :
    (inInvocation types invocation).value = (inInvocation types call).value := by
  by_cases isAnonymous : name? chain.innermost = some anonymousBinder
  · refine value_inInvocation_eq_of_anonymous height isCall isNext unwound isAnonymous ?_
    rcases Chain.unwind?_of_next isNext unwound with ⟨rest, alsoUnwound, sameLast, _⟩
    rw [inInvocation_of_anonymous alsoUnwound (sameLast ▸ isAnonymous)] at isFound
    exact exists_lambda_of_isFound isFound
  · rw [inInvocation_eq_of_next isNext unwound isAnonymous]

/-- However many calls are put behind a call that supplies a command, the command stays the same. -/
theorem value_inInvocation_of_follows {steps : Nat} (height : HeightAtMost maxTreeDepth invocation)
    (isCall : kind invocation = .invocation) (follows : Chain.Follows invocation steps call)
    (unwound : Chain.unwind? invocation = some chain)
    (isFound : (inInvocation types call).value.isFound = true) :
    (inInvocation types invocation).value = (inInvocation types call).value := by
  induction follows generalizing chain with
  | here => rfl
  | next first isMiddle _ ih =>
      have isNext := Chain.next?_eq_some.mpr ⟨first, isMiddle⟩
      have middleHeight := height.of_descends (.of_mem_children (List.mem_of_mem_head? first))
      rcases Chain.unwind?_of_next isNext unwound with ⟨rest, alsoUnwound, _, _⟩
      have further := ih (middleHeight.mono (Nat.sub_le _ _)) isMiddle alsoUnwound isFound
      rw [← further] at isFound
      exact (value_inInvocation_of_next height isCall isNext unwound isFound).trans further

/-- A call with one more call put behind it supplies the same command. -/
theorem inInvocation_of_longer_chain (types : TypeSet)
    (height : HeightAtMost maxTreeDepth invocation) (isCall : kind invocation = .invocation)
    (first : firstChild? invocation = some call) (alsoCall : kind call = .invocation)
    (unwound : Chain.unwind? invocation = some chain) :
    (name? chain.innermost ≠ some anonymousBinder ->
      inInvocation types invocation = inInvocation types call) ∧
    (name? chain.innermost = some anonymousBinder ->
      (∃ steps lambda, Descends call steps lambda ∧ kind lambda = .lambda) ->
      (inInvocation types invocation).value = (inInvocation types call).value) ∧
    ((inInvocation types call).value.isFound = true ->
      (inInvocation types invocation).value = (inInvocation types call).value) := by
  have isNext := Chain.next?_eq_some.mpr ⟨first, alsoCall⟩
  refine ⟨?_, ?_, ?_⟩
  · intro notAnonymous
    exact inInvocation_eq_of_next isNext unwound notAnonymous
  · intro isAnonymous below
    exact value_inInvocation_eq_of_anonymous height isCall isNext unwound isAnonymous below
  · intro isFound
    exact value_inInvocation_of_next height isCall isNext unwound isFound

/-- In `anonCmdBinder(() -> {...}).onTrue(() -> {...})` the block is that of the first lambda. -/
theorem inInvocation_of_longer_chain_anonymous :
    let types := TypeSet.ofList ["Command"]
    let graph := Graph.ofGroups
      [⟨.invocation, .other, some "onTrue", "...", [], [1, 4], none, 1⟩,
        ⟨.invocation, .other, some anonymousBinder, "...", [], [2], none, 1⟩,
        ⟨.lambda, .argument, none, "() -> {...}", [], [3], none, 1⟩,
        ⟨.block, .other, none, "{...}", [], [], none, 1⟩,
        ⟨.lambda, .argument, none, "() -> {...}", [], [5], none, 1⟩,
        ⟨.block, .other, none, "{...}", [], [], none, 1⟩]
    let invocation : graph.Node := ⟨⟨0, by decide +kernel⟩⟩
    let call : graph.Node := ⟨⟨1, by decide +kernel⟩⟩
    let block : graph.Node := ⟨⟨3, by decide +kernel⟩⟩
    HeightAtMost maxTreeDepth invocation ∧
      (inInvocation types call).value = .block block ∧
      (inInvocation types invocation).value = .block block := by
  intro types graph invocation call block
  have low : HeightAtMost 3 invocation :=
    heightAtMost_of_level_eq_nil (List.isEmpty_iff.mp (by decide +kernel))
  have height : HeightAtMost maxTreeDepth invocation := low.mono (by decide)
  have unwound : Chain.unwind? invocation = some ⟨call, Chain.argumentsOf call, 1⟩ := by
    decide +kernel
  have found : (inInvocation types call).value = .block block := by decide +kernel
  have first : firstChild? invocation = some call := by decide +kernel
  have same := inInvocation_of_longer_chain types height (by decide +kernel) first
    (by decide +kernel) unwound
  exact ⟨height, found, (same.2.2 (by rw [found]; rfl)).trans found⟩

end Search
end CommandWiring
