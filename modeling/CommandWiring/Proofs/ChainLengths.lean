import CommandWiring.Node.Graph
import CommandWiring.Proofs.Unwinding
import Mathlib.Data.ENat.Lattice
import Mathlib.Order.CompletePartialOrder

/-!
# How long a chain is

A chain has a length, which is infinite if it runs in a circle. Following it down gives up exactly
if it is longer than the bound, and otherwise counts its steps. From every node on a chain the same
end is found, after as many steps fewer as the node lies below the start.
-/

namespace CommandWiring

open SyntaxNode

variable {N : Type} [SyntaxNode N]

namespace Chain

/-!
# Parts of a chain
-/

theorem Follows.trans {upper middle lower : N} {first second : Nat}
    (before : Follows upper first middle) (after : Follows middle second lower) :
    Follows upper (first + second) lower := by
  induction before with
  | here =>
      rw [Nat.zero_add]
      exact after
  | next isFirst invocation _ ih =>
      rw [Nat.succ_add]
      exact .next isFirst invocation (ih after)

theorem Follows.split {upper lower : N} {first second : Nat}
    (follows : Follows upper (first + second) lower) :
    ∃ middle, Follows upper first middle ∧ Follows middle second lower := by
  induction first generalizing upper with
  | zero =>
      rw [Nat.zero_add] at follows
      exact ⟨upper, .here, follows⟩
  | succ first ih =>
      rw [Nat.succ_add] at follows
      cases follows with
      | next isFirst invocation rest =>
          rcases ih rest with ⟨middle, before, after⟩
          exact ⟨middle, .next isFirst invocation before, after⟩

theorem Follows.unique {upper lower other : N} {steps : Nat} (one : Follows upper steps lower)
    (another : Follows upper steps other) : lower = other := by
  induction one with
  | here =>
      cases another with
      | here => rfl
  | next isFirst _ _ ih =>
      cases another with
      | next alsoFirst _ rest =>
          rcases Option.some.inj (isFirst.symm.trans alsoFirst) with rfl
          exact ih rest

/-!
# Lengths
-/

/-- How many steps lead on from `start`, each to a first child that is an invocation. If there is no
end to them, there are infinitely many. -/
noncomputable def stepsFrom (start : N) : ℕ∞ :=
  ⨆ steps : {steps : Nat // ∃ lower, Follows start steps lower}, (steps : ℕ∞)

theorem le_stepsFrom_iff {start : N} {steps : Nat} :
    (steps : ℕ∞) ≤ stepsFrom start ↔ ∃ lower, Follows start steps lower := by
  constructor
  · intro le
    cases steps with
    | zero => exact ⟨start, .here⟩
    | succ fewer =>
        rw [Nat.cast_succ, ENat.add_one_le_iff (ENat.natCast_ne_top fewer)] at le
        rcases lt_iSup_iff.mp le with ⟨⟨more, lower, follows⟩, less⟩
        -- a longer way passes through the node that is looked for
        rcases Nat.exists_eq_add_of_le (Nat.succ_le_of_lt (Nat.cast_lt.mp less)) with ⟨rest, rfl⟩
        rcases follows.split with ⟨middle, before, _⟩
        exact ⟨middle, before⟩
  · intro given
    exact le_iSup (fun taken : {steps : Nat // ∃ lower, Follows start steps lower} =>
      (taken : ℕ∞)) ⟨steps, given⟩

/-- The length of a chain is that of its two parts together. -/
theorem stepsFrom_eq_add {start node : N} {steps : Nat} (follows : Follows start steps node) :
    stepsFrom start = steps + stepsFrom node := by
  apply le_antisymm
  · apply iSup_le
    intro taken
    rcases taken with ⟨taken, lower, goesOn⟩
    show (taken : ℕ∞) ≤ steps + stepsFrom node
    rcases Nat.le_total taken steps with le | le
    · exact le_add_right (Nat.cast_le.mpr le)
    · rcases Nat.exists_eq_add_of_le le with ⟨rest, rfl⟩
      rcases goesOn.split with ⟨middle, before, after⟩
      rcases follows.unique before with rfl
      rw [Nat.cast_add]
      exact add_le_add_right (le_stepsFrom_iff.mpr ⟨lower, after⟩) _
  · have isNonempty : Nonempty {rest : Nat // ∃ lower, Follows node rest lower} :=
      ⟨0, node, .here⟩
    rw [stepsFrom, stepsFrom, ENat.add_iSup]
    apply iSup_le
    intro rest
    rcases rest with ⟨rest, lower, after⟩
    rw [← Nat.cast_add]
    exact le_stepsFrom_iff.mpr ⟨lower, follows.trans after⟩

theorem stepsFrom_eq_zero_iff {node : N} : stepsFrom node = 0 ↔ IsLast node := by
  rw [← not_iff_not, ← ne_eq, ← Order.one_le_iff_ne_zero, ← Nat.cast_one, le_stepsFrom_iff]
  constructor
  · intro goesOn isLast
    rcases goesOn with ⟨_, follows⟩
    cases follows with
    | next isFirst invocation _ => exact isLast _ isFirst invocation
  · intro notLast
    apply by_contradiction
    intro stops
    apply notLast
    intro child isFirst invocation
    exact stops ⟨child, .next isFirst invocation .here⟩

theorem stepsFrom_eq_coe_iff {start : N} {steps : Nat} :
    stepsFrom start = steps ↔ ∃ last, Follows start steps last ∧ IsLast last := by
  constructor
  · intro isLength
    rcases le_stepsFrom_iff.mp isLength.ge with ⟨last, follows⟩
    refine ⟨last, follows, ?_⟩
    intro child isFirst invocation
    have oneMore := le_stepsFrom_iff.mpr ⟨child, follows.trans (.next isFirst invocation .here)⟩
    rw [isLength, Nat.cast_le] at oneMore
    exact Nat.not_succ_le_self steps oneMore
  · intro given
    rcases given with ⟨last, follows, isLast⟩
    rw [stepsFrom_eq_add follows, stepsFrom_eq_zero_iff.mpr isLast, add_zero]

theorem stepsFrom_of_circle {start : N} {steps : Nat}
    (circle : Follows start (steps + 1) start) : stepsFrom start = ⊤ := by
  apply by_contradiction
  intro ends
  rcases ENat.ne_top_iff_exists.mp ends with ⟨length, isLength⟩
  have around := stepsFrom_eq_add circle
  rw [← isLength, ← Nat.cast_add, Nat.cast_inj] at around
  omega

/-!
# Unwinding and lengths
-/

theorem unwind?_eq_none_iff_lt {start : N} :
    unwind? start = none ↔ maxChainDepth < stepsFrom start := by
  rw [unwind?_eq_none_iff, ← le_stepsFrom_iff, Nat.cast_succ,
    ENat.add_one_le_iff (ENat.natCast_ne_top maxChainDepth)]

theorem unwind?_of_follows {start node : N} {steps : Nat} {chain : Chain N}
    (follows : Follows start steps node) (found : unwind? start = some chain) :
    steps ≤ chain.depth ∧
      unwind? node = some { chain with depth := chain.depth - steps } := by
  rcases unwind?_eq_some_iff.mp found with ⟨short, toEnd, isLast, areArguments⟩
  have isLength := stepsFrom_eq_coe_iff.mpr ⟨chain.innermost, toEnd, isLast⟩
  have inside : steps ≤ chain.depth := by
    have le := le_stepsFrom_iff.mpr ⟨node, follows⟩
    rw [isLength, Nat.cast_le] at le
    exact le
  rcases Nat.exists_eq_add_of_le inside with ⟨rest, isDepth⟩
  rw [isDepth] at toEnd
  rcases toEnd.split with ⟨middle, before, after⟩
  rcases follows.unique before with rfl
  refine ⟨inside, unwind?_eq_some_iff.mpr ⟨?_, ?_, isLast, areArguments⟩⟩
  · exact Nat.le_trans (Nat.sub_le _ _) short
  · rw [isDepth, Nat.add_sub_cancel_left]
    exact after

/-- Unwinding the chain from `start` counts its steps. -/
structure CountsSteps (start : N) : Prop where
  gives_up_iff : unwind? start = none ↔ maxChainDepth < stepsFrom start
  gives_iff : ∀ chain, unwind? start = some chain ↔
    stepsFrom start ≤ maxChainDepth ∧ chain.depth = stepsFrom start ∧
      Follows start chain.depth chain.innermost ∧
      (∀ child, firstChild? chain.innermost = some child -> kind child ≠ .invocation) ∧
      chain.arguments = (children chain.innermost).filter fun child => role child == .argument
  circle : ∀ before steps node, Follows start before node -> Follows node (steps + 1) node ->
    unwind? start = none
  length : ∀ steps node, Follows start steps node -> stepsFrom start = steps + stepsFrom node
  sameEnd : ∀ steps node, Follows start steps node -> ∀ chain, unwind? start = some chain ->
    steps ≤ chain.depth ∧ unwind? node = some { chain with depth := chain.depth - steps }

/-- Unwinding gives up exactly if the chain is longer than the bound, so it does if the chain runs
into a circle. Otherwise it gives the node at the end of the chain, on which no step leads further,
the arguments of that node in order, and the number of steps. The length of a chain is counted alike
from all of its nodes, and the same end is found from each of them. -/
theorem unwind?_counts_steps (start : N) : CountsSteps start := by
  refine ⟨unwind?_eq_none_iff_lt, ?_, ?_, ?_, ?_⟩
  · intro chain
    rw [unwind?_eq_some_iff]
    constructor
    · intro given
      rcases given with ⟨short, follows, isLast, areArguments⟩
      have isLength := stepsFrom_eq_coe_iff.mpr ⟨chain.innermost, follows, isLast⟩
      refine ⟨?_, isLength.symm, follows, isLast, areArguments⟩
      rw [isLength]
      exact Nat.cast_le.mpr short
    · intro given
      rcases given with ⟨short, isLength, follows, isLast, areArguments⟩
      rw [← isLength] at short
      exact ⟨Nat.cast_le.mp short, follows, isLast, areArguments⟩
  · intro before steps node follows circle
    rw [unwind?_eq_none_iff_lt, stepsFrom_eq_add follows, stepsFrom_of_circle circle, add_top]
    exact ENat.natCast_lt_top maxChainDepth
  · intro steps node follows
    exact stepsFrom_eq_add follows
  · intro steps node follows chain found
    exact unwind?_of_follows follows found

/-- In `aBinder(() -> {...}).onTrue(x).debounce(y)` the chain is as long as from its second call and
one step more. -/
theorem unwind?_counts_steps_of_three_calls :
    let graph := Graph.ofGroups
      [⟨.invocation, .other, some "debounce", "...", [], [1, 5], none, 1⟩,
        ⟨.invocation, .other, some "onTrue", "...", [], [2, 4], none, 1⟩,
        ⟨.invocation, .other, some "aBinder", "...", [], [3], none, 1⟩,
        ⟨.lambda, .argument, none, "() -> {...}", [], [], none, 1⟩,
        ⟨.variableReference, .argument, some "x", "x", [], [], none, 1⟩,
        ⟨.variableReference, .argument, some "y", "y", [], [], none, 1⟩]
    let start : graph.Node := ⟨⟨0, by decide +kernel⟩⟩
    let second : graph.Node := ⟨⟨1, by decide +kernel⟩⟩
    let last : graph.Node := ⟨⟨2, by decide +kernel⟩⟩
    let supplier : graph.Node := ⟨⟨3, by decide +kernel⟩⟩
    Follows start 1 second ∧ unwind? start = some ⟨last, [supplier], 2⟩ ∧
      stepsFrom start = 1 + stepsFrom second ∧
      unwind? second = some ⟨last, [supplier], 1⟩ := by
  intro graph start second last supplier
  have follows : Follows start 1 second :=
    .next (by decide +kernel) (by decide +kernel) .here
  have found : unwind? start = some ⟨last, [supplier], 2⟩ := by decide +kernel
  have counts := unwind?_counts_steps start
  exact ⟨follows, found, counts.length 1 second follows,
    (counts.sameEnd 1 second follows _ found).2⟩

/-- A call whose first child is the call itself. -/
example : unwind? (⟨⟨0, by decide +kernel⟩⟩ : (Graph.ofGroups
    [⟨.invocation, .other, some "aBinder", "...", [], [0], none, 1⟩]).Node) = none := by
  decide +kernel

end Chain
end CommandWiring
