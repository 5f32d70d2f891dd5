import CommandWiring.Proofs.Descent
import CommandWiring.Site.Binder

/-!
# Chains from both ends

A chain is followed down from its first call through first children, and whether a call is part of
a longer chain is asked upwards, through parents. In a coherent view both go the same way, so every
chain has one first call and one last call.
-/

namespace CommandWiring

open SyntaxNode

variable {N : Type} [SyntaxNode N]

/-!
# Links
-/

/-- A link of a chain: `upper` is an invocation around `lower` and has it for its first child. -/
structure IsLink (lower upper : N) : Prop where
  parent : parent? lower = some upper
  invocation : kind upper = .invocation
  first : firstChild? upper = some lower

/-- The number of links that lead from one call up to another. -/
inductive Climbs (lower : N) : Nat -> N -> Prop where
  | here : Climbs lower 0 lower
  | up {steps : Nat} {middle upper : N} :
      Climbs lower steps middle -> IsLink middle upper -> Climbs lower (steps + 1) upper

theorem IsLink.parent_unique {lower first second : N} (one : IsLink lower first)
    (other : IsLink lower second) : first = second :=
  Option.some.inj (one.parent.symm.trans other.parent)

theorem IsLink.child_unique {first second upper : N} (one : IsLink first upper)
    (other : IsLink second upper) : first = second :=
  Option.some.inj (one.first.symm.trans other.first)

theorem isChained_iff [DecidableEq N] {node : N} :
    isChained node = true ↔ ∃ upper, IsLink node upper := by
  rw [isChained]
  cases hparent : parent? node with
  | none =>
      constructor
      · intro h
        cases h
      · intro given
        rcases given with ⟨upper, link⟩
        rw [link.parent] at hparent
        cases hparent
  | some above =>
      simp only [ofKind, Bool.and_eq_true, beq_iff_eq]
      constructor
      · intro given
        rcases given with ⟨invocation, first⟩
        exact ⟨above, hparent, invocation, first⟩
      · intro given
        rcases given with ⟨upper, link⟩
        rcases Option.some.inj (hparent.symm.trans link.parent) with rfl
        exact ⟨link.invocation, link.first⟩

theorem Chain.next?_eq_some {upper lower : N} :
    Chain.next? upper = some lower ↔ firstChild? upper = some lower ∧ kind lower = .invocation := by
  rw [Chain.next?]
  cases hfirst : firstChild? upper with
  | none => simp
  | some child =>
      simp only [Option.ite_none_right_eq_some, Option.some.injEq]
      constructor
      · intro given
        rcases given with ⟨invocation, rfl⟩
        exact ⟨rfl, invocation⟩
      · intro given
        rcases given with ⟨rfl, invocation⟩
        exact ⟨invocation, rfl⟩

namespace Climbs

theorem exists_first {lower upper : N} {steps : Nat} (h : Climbs lower (steps + 1) upper) :
    ∃ middle, IsLink lower middle ∧ Climbs middle steps upper := by
  induction steps generalizing upper with
  | zero =>
      cases h with
      | up before link =>
          cases before with
          | here => exact ⟨upper, link, .here⟩
  | succ steps ih =>
      cases h with
      | up before link =>
          rcases ih before with ⟨middle, first, rest⟩
          exact ⟨middle, first, .up rest link⟩

theorem invocation {lower upper : N} {steps : Nat} (h : Climbs lower steps upper)
    (start : kind lower = .invocation) : kind upper = .invocation := by
  cases h with
  | here => exact start
  | up _ link => exact link.invocation

theorem rest_above {lower first second : N} {steps more : Nat} (one : Climbs lower steps first)
    (other : Climbs lower (steps + more) second) : Climbs first more second := by
  induction steps generalizing lower with
  | zero =>
      cases one with
      | here =>
          rw [Nat.zero_add] at other
          exact other
  | succ steps ih =>
      rcases one.exists_first with ⟨middle, link, rest⟩
      rw [Nat.succ_add] at other
      rcases other.exists_first with ⟨sameMiddle, sameLink, otherRest⟩
      rcases link.parent_unique sameLink with rfl
      exact ih rest otherRest

theorem rest_below {first second upper : N} {steps more : Nat} (one : Climbs first steps upper)
    (other : Climbs second (steps + more) upper) : Climbs second more first := by
  induction steps generalizing upper with
  | zero =>
      cases one with
      | here =>
          rw [Nat.zero_add] at other
          exact other
  | succ steps ih =>
      rw [Nat.succ_add] at other
      cases one with
      | up before link =>
          cases other with
          | up otherBefore otherLink =>
              rcases link.child_unique otherLink with rfl
              exact ih before otherBefore

end Climbs

/-!
# Both ends of a chain
-/

/-- From `node` no link leads up. -/
def IsOutermost (node : N) : Prop :=
  ∀ upper, ¬ IsLink node upper

/-- `node` is an invocation, and its first child, if it has one, is none. -/
def IsInnermost (node : N) : Prop :=
  kind node = .invocation ∧ ∀ child, firstChild? node = some child -> kind child ≠ .invocation

theorem isInnermost_iff {node : N} (invocation : kind node = .invocation) :
    IsInnermost node ↔ Chain.next? node = none := by
  rw [Option.eq_none_iff_forall_ne_some]
  constructor
  · rintro ⟨_, noCall⟩ child isNext
    rcases Chain.next?_eq_some.mp isNext with ⟨first, isCall⟩
    exact noCall child first isCall
  · intro noNext
    refine ⟨invocation, ?_⟩
    intro child first isCall
    exact noNext child (Chain.next?_eq_some.mpr ⟨first, isCall⟩)

theorem Climbs.outermost_unique {lower first second : N} {steps more : Nat}
    (one : Climbs lower steps first) (other : Climbs lower more second)
    (stops : IsOutermost first) (otherStops : IsOutermost second) :
    first = second ∧ steps = more := by
  have stuck {low high : N} {rest : Nat} (h : Climbs low rest high) (stops : IsOutermost low) :
      low = high ∧ rest = 0 := by
    cases rest with
    | zero =>
        cases h with
        | here => exact ⟨rfl, rfl⟩
    | succ rest =>
        rcases h.exists_first with ⟨middle, link, _⟩
        exact absurd link (stops middle)
  rcases Nat.le_total steps more with le | le
  · rcases Nat.exists_eq_add_of_le le with ⟨rest, rfl⟩
    rcases stuck (one.rest_above other) stops with ⟨same, rfl⟩
    exact ⟨same, rfl⟩
  · rcases Nat.exists_eq_add_of_le le with ⟨rest, rfl⟩
    rcases stuck (other.rest_above one) otherStops with ⟨same, rfl⟩
    exact ⟨same.symm, rfl⟩

theorem Climbs.le_of_isInnermost {last lower upper : N} {steps more : Nat}
    (one : Climbs last steps upper) (isLast : IsInnermost last) (other : Climbs lower more upper)
    (invocation : kind lower = .invocation) : more ≤ steps := by
  apply Nat.le_of_not_lt
  intro longer
  obtain ⟨rest, rfl⟩ : ∃ rest, more = steps + (rest + 1) := ⟨more - steps - 1, by omega⟩
  cases one.rest_below other with
  | up before link => exact isLast.2 _ link.first (before.invocation invocation)

theorem Climbs.innermost_unique {first second upper : N} {steps more : Nat}
    (one : Climbs first steps upper) (other : Climbs second more upper)
    (isLast : IsInnermost first) (otherLast : IsInnermost second) : first = second := by
  obtain rfl : steps = more := Nat.le_antisymm
    (other.le_of_isInnermost otherLast one isLast.1)
    (one.le_of_isInnermost isLast other otherLast.1)
  have rest : Climbs second 0 first := one.rest_below other
  cases rest with
  | here => rfl

/-!
# Chains in a coherent view
-/

variable {root : N}

theorem SyntaxNode.Coherent.isLink (coherent : Coherent root) {depth : Nat} {upper lower : N}
    (reached : Descends root depth upper) (invocation : kind upper = .invocation)
    (next : Chain.next? upper = some lower) : IsLink lower upper := by
  rcases Chain.next?_eq_some.mp next with ⟨first, _⟩
  exact ⟨coherent.back reached (List.mem_of_mem_head? first), invocation, first⟩

theorem IsLink.mem_children {lower upper : N} (link : IsLink lower upper) :
    lower ∈ children upper :=
  List.mem_of_mem_head? link.first

theorem Climbs.descends {lower upper : N} {steps : Nat} (h : Climbs lower steps upper) :
    Descends upper steps lower := by
  induction h with
  | here => exact .here
  | up before link ih =>
      rw [Nat.add_comm]
      exact (Descends.of_mem_children link.mem_children).trans ih

theorem Climbs.reached (coherent : Coherent root) {lower upper : N} {steps : Nat}
    (h : Climbs lower steps upper) (start : ∃ depth, Descends root depth lower) :
    ∃ depth, Descends root depth upper := by
  induction h with
  | here => exact start
  | up _ link ih =>
      rcases ih with ⟨_, reached⟩
      exact (coherent.of_parent reached link.parent).2

theorem SyntaxNode.Coherent.of_descend?_eq_some (coherent : Coherent root) {steps depth base : Nat}
    {upper : N} {chain : Chain N} (reached : Descends root depth upper)
    (invocation : kind upper = .invocation)
    (found : Chain.descend? steps upper base = some chain) :
    ∃ taken ≤ steps, Climbs chain.innermost taken upper ∧ IsInnermost chain.innermost := by
  induction steps generalizing upper depth base with
  | zero =>
      cases hnext : Chain.next? upper with
      | none =>
          rw [Chain.descend?, hnext] at found
          rcases Option.some.inj found with rfl
          exact ⟨0, Nat.le_refl 0, .here, (isInnermost_iff invocation).mpr hnext⟩
      | some child =>
          rw [Chain.descend?, hnext] at found
          cases found
  | succ steps ih =>
      cases hnext : Chain.next? upper with
      | none =>
          rw [Chain.descend?, hnext] at found
          rcases Option.some.inj found with rfl
          exact ⟨0, Nat.zero_le _, .here, (isInnermost_iff invocation).mpr hnext⟩
      | some child =>
          rw [Chain.descend?, hnext] at found
          have link := coherent.isLink reached invocation hnext
          rcases ih (reached.down link.mem_children) (Chain.next?_eq_some.mp hnext).2 found with
            ⟨taken, bound, climbs, isLast⟩
          exact ⟨taken + 1, Nat.succ_le_succ bound, .up climbs link, isLast⟩

theorem SyntaxNode.Coherent.of_descend?_eq_none (coherent : Coherent root) {steps depth base : Nat}
    {upper : N} (reached : Descends root depth upper) (invocation : kind upper = .invocation)
    (found : Chain.descend? steps upper base = none) :
    ∃ lower, Climbs lower (steps + 1) upper ∧ kind lower = .invocation := by
  induction steps generalizing upper depth base with
  | zero =>
      cases hnext : Chain.next? upper with
      | none =>
          rw [Chain.descend?, hnext] at found
          cases found
      | some child =>
          have link := coherent.isLink reached invocation hnext
          exact ⟨child, .up .here link, (Chain.next?_eq_some.mp hnext).2⟩
  | succ steps ih =>
      cases hnext : Chain.next? upper with
      | none =>
          rw [Chain.descend?, hnext] at found
          cases found
      | some child =>
          rw [Chain.descend?, hnext] at found
          have link := coherent.isLink reached invocation hnext
          rcases ih (reached.down link.mem_children) (Chain.next?_eq_some.mp hnext).2 found with
            ⟨lower, climbs, isCall⟩
          exact ⟨lower, .up climbs link, isCall⟩

end CommandWiring
