import CommandWiring.Proofs.Chains

/-!
# Following a chain down

Nothing is assumed of the structure here: a chain may run in a circle. Following it gives its last
call within the bound, and gives up exactly if more steps than that can be taken.
-/

namespace CommandWiring

open SyntaxNode

variable {N : Type} [SyntaxNode N]

namespace Chain

/-- So many steps lead from `upper` to `lower`, each to a first child that is an invocation. -/
inductive Follows : N -> Nat -> N -> Prop where
  | here {upper : N} : Follows upper 0 upper
  | next {steps : Nat} {upper middle lower : N} :
      firstChild? upper = some middle -> kind middle = .invocation ->
      Follows middle steps lower -> Follows upper (steps + 1) lower

/-- No step leads on from `node`. -/
def IsLast (node : N) : Prop :=
  ∀ child, firstChild? node = some child -> kind child ≠ .invocation

theorem isLast_iff {node : N} : IsLast node ↔ next? node = none := by
  rw [Option.eq_none_iff_forall_ne_some]
  constructor
  · intro isLast child isNext
    rcases next?_eq_some.mp isNext with ⟨first, invocation⟩
    exact isLast child first invocation
  · intro noNext child first invocation
    exact noNext child (next?_eq_some.mpr ⟨first, invocation⟩)

theorem Follows.succ_iff {steps : Nat} {upper lower : N} :
    Follows upper (steps + 1) lower ↔
      ∃ middle, next? upper = some middle ∧ Follows middle steps lower := by
  constructor
  · intro follows
    cases follows with
    | next first invocation rest => exact ⟨_, next?_eq_some.mpr ⟨first, invocation⟩, rest⟩
  · intro given
    rcases given with ⟨middle, isNext, rest⟩
    rcases next?_eq_some.mp isNext with ⟨first, invocation⟩
    exact .next first invocation rest

/-!
# The end of a chain
-/

/-- What is found at the end of the chain that begins at `upper`, `depth` steps below the place from
which the steps are counted. -/
structure Ends (upper : N) (depth steps : Nat) (chain : Chain N) : Prop where
  follows : Follows upper steps chain.innermost
  isLast : IsLast chain.innermost
  arguments : chain.arguments = argumentsOf chain.innermost
  depth : chain.depth = depth + steps

theorem Ends.here {node : N} (isLast : IsLast node) (depth : Nat) :
    Ends node depth 0 { innermost := node, arguments := argumentsOf node, depth := depth } where
  follows := .here
  isLast := isLast
  arguments := rfl
  depth := rfl

theorem Ends.eq_here {node : N} {depth steps : Nat} {chain : Chain N} (isLast : IsLast node)
    (ends : Ends node depth steps chain) :
    chain = { innermost := node, arguments := argumentsOf node, depth := depth } := by
  rcases chain with ⟨innermost, arguments, chainDepth⟩
  rcases ends with ⟨follows, _, isArguments, isDepth⟩
  cases follows with
  | here =>
      dsimp only at isArguments isDepth
      rw [isArguments, isDepth, Nat.add_zero]
  | next first invocation _ => exact absurd invocation (isLast _ first)

theorem Ends.succ_iff {upper middle : N} {depth steps : Nat} {chain : Chain N}
    (isNext : next? upper = some middle) :
    Ends upper depth (steps + 1) chain ↔ Ends middle (depth + 1) steps chain := by
  constructor
  · intro ends
    rcases ends with ⟨follows, isLast, isArguments, isDepth⟩
    rcases Follows.succ_iff.mp follows with ⟨other, isOther, rest⟩
    rcases Option.some.inj (isNext.symm.trans isOther) with rfl
    exact ⟨rest, isLast, isArguments, by rw [isDepth, Nat.add_assoc, Nat.add_comm 1]⟩
  · intro ends
    rcases ends with ⟨rest, isLast, isArguments, isDepth⟩
    exact ⟨Follows.succ_iff.mpr ⟨middle, isNext, rest⟩, isLast, isArguments,
      by rw [isDepth, Nat.add_assoc, Nat.add_comm 1]⟩

theorem Ends.not_zero {upper middle : N} {depth : Nat} {chain : Chain N}
    (isNext : next? upper = some middle) : ¬ Ends upper depth 0 chain := by
  intro ends
  have isLast := ends.isLast
  cases ends.follows with
  | here =>
      rw [isLast_iff, isNext] at isLast
      cases isLast

theorem descend?_eq_some_iff_of_isLast {bound depth : Nat} {node : N} {chain : Chain N}
    (isLast : IsLast node) :
    descend? bound node depth = some chain ↔ ∃ steps ≤ bound, Ends node depth steps chain := by
  have found : descend? bound node depth =
      some { innermost := node, arguments := argumentsOf node, depth := depth } := by
    unfold descend?
    rw [isLast_iff.mp isLast]
  rw [found]
  constructor
  · intro same
    rcases Option.some.inj same with rfl
    exact ⟨0, Nat.zero_le _, .here isLast depth⟩
  · intro given
    rcases given with ⟨steps, _, ends⟩
    exact congrArg some (ends.eq_here isLast).symm

theorem descend?_eq_some_iff {bound depth : Nat} {node : N} {chain : Chain N} :
    descend? bound node depth = some chain ↔ ∃ steps ≤ bound, Ends node depth steps chain := by
  induction bound generalizing node depth with
  | zero =>
      cases hnext : next? node with
      | none => exact descend?_eq_some_iff_of_isLast (isLast_iff.mpr hnext)
      | some child =>
          rw [descend?, hnext]
          constructor
          · intro found
            cases found
          · intro given
            rcases given with ⟨steps, le, ends⟩
            rcases Nat.le_zero.mp le with rfl
            exact absurd ends (Ends.not_zero hnext)
  | succ bound ih =>
      cases hnext : next? node with
      | none => exact descend?_eq_some_iff_of_isLast (isLast_iff.mpr hnext)
      | some child =>
          rw [descend?, hnext]
          dsimp only
          rw [ih]
          constructor
          · intro given
            rcases given with ⟨steps, le, ends⟩
            exact ⟨steps + 1, Nat.succ_le_succ le, (Ends.succ_iff hnext).mpr ends⟩
          · intro given
            rcases given with ⟨steps, le, ends⟩
            cases steps with
            | zero => exact absurd ends (Ends.not_zero hnext)
            | succ steps =>
                exact ⟨steps, Nat.le_of_succ_le_succ le, (Ends.succ_iff hnext).mp ends⟩

theorem descend?_eq_none_iff {bound depth : Nat} {node : N} :
    descend? bound node depth = none ↔ ∃ lower, Follows node (bound + 1) lower := by
  induction bound generalizing node depth with
  | zero =>
      rw [descend?]
      cases hnext : next? node with
      | none => simp [Follows.succ_iff, hnext]
      | some child => simpa [Follows.succ_iff, hnext] using ⟨child, .here⟩
  | succ bound ih =>
      rw [descend?]
      cases hnext : next? node with
      | none => simp [Follows.succ_iff, hnext]
      | some child =>
          dsimp only
          rw [ih]
          constructor
          · intro given
            rcases given with ⟨lower, rest⟩
            exact ⟨lower, Follows.succ_iff.mpr ⟨child, hnext, rest⟩⟩
          · intro given
            rcases given with ⟨lower, follows⟩
            rcases Follows.succ_iff.mp follows with ⟨other, isOther, rest⟩
            rcases Option.some.inj (hnext.symm.trans isOther) with rfl
            exact ⟨lower, rest⟩

/-!
# Unwinding
-/

theorem unwind?_eq_none_iff {start : N} :
    unwind? start = none ↔ ∃ lower, Follows start (maxChainDepth + 1) lower :=
  descend?_eq_none_iff

theorem unwind?_eq_some_iff {start : N} {chain : Chain N} :
    unwind? start = some chain ↔
      chain.depth ≤ maxChainDepth ∧ Follows start chain.depth chain.innermost ∧
        IsLast chain.innermost ∧ chain.arguments = argumentsOf chain.innermost := by
  rw [unwind?, descend?_eq_some_iff]
  constructor
  · intro given
    rcases given with ⟨steps, le, follows, isLast, areArguments, isDepth⟩
    rw [Nat.zero_add] at isDepth
    rw [isDepth]
    exact ⟨le, follows, isLast, areArguments⟩
  · intro given
    rcases given with ⟨le, follows, isLast, areArguments⟩
    exact ⟨chain.depth, le, follows, isLast, areArguments, (Nat.zero_add _).symm⟩

end Chain
end CommandWiring
