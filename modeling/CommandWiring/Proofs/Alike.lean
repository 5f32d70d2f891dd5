import Mathlib.Data.List.Forall2
import CommandWiring.Extraction.Search
import CommandWiring.Site.Binder
import CommandWiring.Proofs.Chains

/-!
# Searches in structures that are alike

A relation between the nodes of two structures is handed on to children and to parents, and related
nodes answer alike. Then whatever is found from a node in one structure is related to what is found
from a related node in the other.
-/

namespace CommandWiring

section

variable {α β : Type} {related : α -> β -> Prop} {accepts : α -> Bool} {others : β -> Bool}

theorem rel_find? (agree : ∀ first second, related first second -> accepts first = others second)
    {elements : List α} {twins : List β} (rel : List.Forall₂ related elements twins) :
    Option.Rel related (elements.find? accepts) (twins.find? others) := by
  induction rel with
  | nil => exact .none
  | cons head _ ih =>
      rw [List.find?_cons, List.find?_cons, agree _ _ head]
      split
      · exact .some head
      · exact ih

theorem rel_filter (agree : ∀ first second, related first second -> accepts first = others second)
    {elements : List α} {twins : List β} (rel : List.Forall₂ related elements twins) :
    List.Forall₂ related (elements.filter accepts) (twins.filter others) := by
  refine List.rel_filter ?_ rel
  intro first second head
  show accepts first = true ↔ others second = true
  rw [agree first second head]

theorem rel_head? {elements : List α} {twins : List β}
    (rel : List.Forall₂ related elements twins) :
    Option.Rel related elements.head? twins.head? := by
  cases rel with
  | nil => exact .none
  | cons head _ => exact .some head

theorem eq_map_of_forall₂ {f : α -> β} (isImage : ∀ element twin, related element twin ->
    twin = f element) {elements : List α} {twins : List β}
    (rel : List.Forall₂ related elements twins) : twins = elements.map f := by
  induction rel with
  | nil => rfl
  | cons head _ ih => rw [List.map_cons, ← ih, isImage _ _ head]

theorem eq_map_of_rel {f : α -> β} (isImage : ∀ element twin, related element twin ->
    twin = f element) {element? : Option α} {twin? : Option β}
    (rel : Option.Rel related element? twin?) : twin? = element?.map f := by
  cases rel with
  | none => rfl
  | some head => rw [Option.map_some, isImage _ _ head]

theorem rel_supplier? {arguments : List α} {twins : List β}
    (rel : List.Forall₂ related arguments twins) :
    Option.Rel related (Chain.supplier? arguments) (Chain.supplier? twins) := by
  cases rel with
  | nil => exact .none
  | cons first rest =>
      cases rest with
      | nil => exact .some first
      | cons second rest =>
          cases rest with
          | nil => exact .some second
          | cons _ _ => exact .some first

theorem rel_some_beq [DecidableEq α] [DecidableEq β] (unique : Relator.BiUnique related)
    {first : α} {second : β} (rel : related first second) {element? : Option α} {twin? : Option β}
    (rels : Option.Rel related element? twin?) :
    (element? == some first) = (twin? == some second) := by
  rw [Bool.eq_iff_iff, beq_iff_eq, beq_iff_eq]
  cases rels with
  | none => simp
  | some other =>
      rw [Option.some.injEq, Option.some.injEq]
      constructor
      · rintro rfl
        exact unique.2 other rel
      · rintro rfl
        exact unique.1 other rel

end

open SyntaxNode

variable {N M : Type}

inductive Outcome.Rel (related : N -> M -> Prop) : Outcome N -> Outcome M -> Prop where
  | constructorCall {node : N} {twin : M} : related node twin ->
      Outcome.Rel related (.constructorCall node) (.constructorCall twin)
  | methodReference {node : N} {twin : M} : related node twin ->
      Outcome.Rel related (.methodReference node) (.methodReference twin)
  | block {node : N} {twin : M} : related node twin ->
      Outcome.Rel related (.block node) (.block twin)
  | missed {reason : MissReason} : Outcome.Rel related (.missed reason) (.missed reason)

theorem Outcome.Rel.eq_map {related : N -> M -> Prop} {twin : N -> M}
    (isTwin : ∀ node other, related node other -> other = twin node) {outcome : Outcome N}
    {other : Outcome M} (rel : Outcome.Rel related outcome other) : other = outcome.map twin := by
  cases rel with
  | constructorCall rel => exact congrArg Outcome.constructorCall (isTwin _ _ rel)
  | methodReference rel => exact congrArg Outcome.methodReference (isTwin _ _ rel)
  | block rel => exact congrArg Outcome.block (isTwin _ _ rel)
  | missed => rfl

theorem Outcome.Rel.same {related : N -> M -> Prop} {outcome : Outcome N} {other : Outcome M}
    (rel : Outcome.Rel related outcome other) :
    outcome.matchKind? = other.matchKind? ∧ outcome.reason? = other.reason? := by
  cases rel with
  | constructorCall _ => exact ⟨rfl, rfl⟩
  | methodReference _ => exact ⟨rfl, rfl⟩
  | block _ => exact ⟨rfl, rfl⟩
  | missed => exact ⟨rfl, rfl⟩

variable [SyntaxNode N] [SyntaxNode M]

structure Alike (related : N -> M -> Prop) : Prop where
  children {node : N} {twin : M} : related node twin ->
    List.Forall₂ related (children node) (children twin)
  parent? {node : N} {twin : M} : related node twin ->
    Option.Rel related (parent? node) (parent? twin)
  kind {node : N} {twin : M} : related node twin -> kind node = kind twin
  role {node : N} {twin : M} : related node twin -> role node = role twin
  name? {node : N} {twin : M} : related node twin -> SyntaxNode.kind node ≠ .other ->
    name? node = name? twin
  text {node : N} {twin : M} : related node twin -> SyntaxNode.kind node = .variableReference ->
    text node = text twin

structure Chain.Rel (related : N -> M -> Prop) (chain : Chain N) (other : Chain M) : Prop where
  innermost : related chain.innermost other.innermost
  name : name? chain.innermost = name? other.innermost
  arguments : List.Forall₂ related chain.arguments other.arguments
  depth : chain.depth = other.depth

namespace Alike

variable {related : N -> M -> Prop} (alike : Alike related) {node : N} {twin : M}

include alike

/-!
# Searches below and above
-/

theorem ofKind (rel : related node twin) (wanted : NodeKind) :
    ofKind wanted node = ofKind wanted twin := by
  rw [SyntaxNode.ofKind, SyntaxNode.ofKind, alike.kind rel]

theorem preorder (depth : Nat) (rel : related node twin) :
    List.Forall₂ related (preorder depth node) (preorder depth twin) := by
  induction depth generalizing node twin with
  | zero => exact .cons rel .nil
  | succ depth ih =>
      exact .cons rel (List.rel_flatMap (alike.children rel) fun _ _ child => ih child)

section

variable {accepts : N -> Bool} {others : M -> Bool}
  (agree : ∀ node twin, related node twin -> accepts node = others twin)

include agree

theorem findFirst? (rel : related node twin) :
    Option.Rel related (findFirst? node accepts) (findFirst? twin others) := by
  rw [findFirst?_eq_find?, findFirst?_eq_find?]
  exact rel_find? agree (alike.preorder maxTreeDepth rel)

theorem collectAll (rel : related node twin) :
    List.Forall₂ related (collectAll node accepts) (collectAll twin others) := by
  rw [collectAll_eq_filter, collectAll_eq_filter]
  exact rel_filter agree (alike.preorder maxTreeDepth rel)

theorem ancestorWithin? (bound : Nat) (rel : related node twin) :
    Option.Rel related (ancestorWithin? bound node accepts)
      (ancestorWithin? bound twin others) := by
  induction bound generalizing node twin with
  | zero => exact .none
  | succ bound ih =>
      have parents := alike.parent? rel
      unfold SyntaxNode.ancestorWithin?
      generalize SyntaxNode.parent? node = above?, SyntaxNode.parent? twin = aboveTwin? at parents ⊢
      cases parents with
      | none => exact .none
      | some above =>
          dsimp only
          rw [agree _ _ above]
          split
          · exact .some above
          · exact ih above

end

theorem enclosing? (rel : related node twin) (wanted : NodeKind) :
    Option.Rel related (enclosing? node wanted) (enclosing? twin wanted) :=
  alike.ancestorWithin? (fun _ _ above => alike.ofKind above wanted) maxTreeDepth rel

/-!
# Chains
-/

theorem next? (rel : related node twin) :
    Option.Rel related (Chain.next? node) (Chain.next? twin) := by
  have first := rel_head? (alike.children rel)
  unfold Chain.next? firstChild?
  generalize (SyntaxNode.children node).head? = child?,
    (SyntaxNode.children twin).head? = childTwin? at first ⊢
  cases first with
  | none => exact .none
  | some child =>
      dsimp only
      rw [alike.kind child]
      split
      · exact .some child
      · exact .none

theorem argumentsOf (rel : related node twin) :
    List.Forall₂ related (Chain.argumentsOf node) (Chain.argumentsOf twin) := by
  refine rel_filter ?_ (alike.children rel)
  intro child childTwin isChild
  rw [alike.role isChild]

theorem name?_of_kind (rel : related node twin) {wanted : NodeKind}
    (isKind : SyntaxNode.kind node = wanted) (notOther : wanted ≠ .other) :
    SyntaxNode.name? node = SyntaxNode.name? twin := by
  apply alike.name? rel
  rw [isKind]
  exact notOther

theorem descend? (steps depth : Nat) (rel : related node twin)
    (isCall : SyntaxNode.kind node = .invocation) :
    Option.Rel (Chain.Rel related) (Chain.descend? steps node depth)
      (Chain.descend? steps twin depth) := by
  have ends : Chain.Rel related ⟨node, Chain.argumentsOf node, depth⟩
      ⟨twin, Chain.argumentsOf twin, depth⟩ :=
    ⟨rel, alike.name?_of_kind rel isCall (by decide), alike.argumentsOf rel, rfl⟩
  have nexts := alike.next? rel
  induction steps generalizing node twin depth with
  | zero =>
      unfold Chain.descend?
      generalize Chain.next? node = child?, Chain.next? twin = childTwin? at nexts ⊢
      cases nexts with
      | none => exact .some ends
      | some _ => exact .none
  | succ steps ih =>
      unfold Chain.descend?
      generalize found : Chain.next? node = child?, Chain.next? twin = childTwin? at nexts ⊢
      cases nexts with
      | none => exact .some ends
      | some child =>
          have childIsCall := (Chain.next?_eq_some.mp found).2
          exact ih (depth + 1) child childIsCall
            ⟨child, alike.name?_of_kind child childIsCall (by decide), alike.argumentsOf child, rfl⟩
            (alike.next? child)

theorem unwind? (rel : related node twin) (isCall : SyntaxNode.kind node = .invocation) :
    Option.Rel (Chain.Rel related) (Chain.unwind? node) (Chain.unwind? twin) :=
  alike.descend? maxChainDepth 0 rel isCall

/-!
# Commands
-/

section

variable {types : TypeSet}
  (mentions : ∀ node twin, related node twin ->
    Search.mentionsAny types node = Search.mentionsAny types twin)

include mentions

theorem inLambda (rel : related node twin) :
    Outcome.Rel related (Search.inLambda types node).value (Search.inLambda types twin).value := by
  have agree : ∀ node twin, related node twin ->
      (SyntaxNode.ofKind .constructorCall node && Search.mentionsAny types node) =
        (SyntaxNode.ofKind .constructorCall twin && Search.mentionsAny types twin) := by
    intro call callTwin below
    rw [alike.ofKind below, mentions _ _ below]
  have calls := alike.findFirst? agree rel
  unfold Search.inLambda
  revert calls
  generalize SyntaxNode.findFirst? node _ = call?, SyntaxNode.findFirst? twin _ = callTwin?
  intro calls
  cases calls with
  | none => exact .missed
  | some call => exact .constructorCall call

omit mentions in
theorem initializes (rel : related node twin) (name : String) :
    Search.initializes name node = Search.initializes name twin := by
  have declarations := alike.enclosing? rel .localVariable
  rw [Search.initializes, Search.initializes, alike.ofKind rel]
  congr 2
  cases found : SyntaxNode.enclosing? node .localVariable with
  | none =>
      rw [found] at declarations
      generalize SyntaxNode.enclosing? twin .localVariable = twin? at declarations ⊢
      cases declarations with
      | none => rfl
  | some declaration =>
      have isLocal := kind_of_enclosing?_eq_some found
      rw [found] at declarations
      generalize SyntaxNode.enclosing? twin .localVariable = twin? at declarations ⊢
      cases declarations with
      | some declared => exact alike.name?_of_kind declared isLocal (by decide)

theorem inVariable (rel : related node twin)
    (isVariable : SyntaxNode.kind node = .variableReference) :
    Outcome.Rel related (Search.inVariable types node).value
      (Search.inVariable types twin).value := by
  have methods := alike.enclosing? rel .methodDeclaration
  unfold Search.inVariable
  rw [alike.text rel isVariable]
  generalize SyntaxNode.enclosing? node .methodDeclaration = method?,
    SyntaxNode.enclosing? twin .methodDeclaration = methodTwin? at methods ⊢
  cases methods with
  | none => exact .missed
  | @some method methodTwin around =>
      have lambdas := alike.findFirst?
        (fun _ _ below => alike.initializes below (SyntaxNode.text twin)) around
      dsimp only
      generalize SyntaxNode.findFirst? method _ = lambda?,
        SyntaxNode.findFirst? methodTwin _ = lambdaTwin? at lambdas ⊢
      cases lambdas with
      | none => exact .missed
      | some lambda => exact alike.inLambda mentions lambda

omit alike in
theorem inMethodReference (rel : related node twin) :
    Outcome.Rel related (Search.inMethodReference types node).value
      (Search.inMethodReference types twin).value := by
  unfold Search.inMethodReference
  rw [mentions _ _ rel]
  split
  · exact .methodReference rel
  · exact .missed

theorem inSupplier (rel : related node twin) :
    Outcome.Rel related (Search.inSupplier types node).value
      (Search.inSupplier types twin).value := by
  unfold Search.inSupplier
  rw [← alike.kind rel]
  split
  · exact alike.inLambda mentions rel
  · next isVariable => exact alike.inVariable mentions rel isVariable
  · exact inMethodReference mentions rel
  · exact .missed

omit mentions in
theorem inAnonymousBinder (rel : related node twin) :
    Outcome.Rel related (Search.inAnonymousBinder node).value
      (Search.inAnonymousBinder twin).value := by
  have lambdas := alike.findFirst? (fun _ _ below => alike.ofKind below .lambda) rel
  unfold Search.inAnonymousBinder
  generalize SyntaxNode.findFirst? node _ = lambda?, SyntaxNode.findFirst? twin _ = lambdaTwin?
    at lambdas ⊢
  cases lambdas with
  | none => exact .missed
  | @some lambda lambdaTwin found =>
      have agree : ∀ child childTwin, related child childTwin ->
          SyntaxNode.ofKind .block child = SyntaxNode.ofKind .block childTwin :=
        fun _ _ child => alike.ofKind child .block
      have blocks := rel_find? agree (alike.children found)
      dsimp only [Option.bind_some]
      generalize (SyntaxNode.children lambda).find? _ = block?,
        (SyntaxNode.children lambdaTwin).find? _ = blockTwin? at blocks ⊢
      cases blocks with
      | none => exact .missed
      | some block => exact .block block

theorem inInvocation (rel : related node twin) (isCall : SyntaxNode.kind node = .invocation) :
    Outcome.Rel related (Search.inInvocation types node).value
      (Search.inInvocation types twin).value := by
  have chains := alike.unwind? rel isCall
  unfold Search.inInvocation
  generalize Chain.unwind? node = chain?, Chain.unwind? twin = chainTwin? at chains ⊢
  cases chains with
  | none => exact .missed
  | @some chain chainTwin ends =>
      have suppliers := rel_supplier? ends.arguments
      dsimp only
      rw [← ends.name]
      split
      · exact alike.inAnonymousBinder rel
      · generalize Chain.supplier? chain.arguments = supplier?,
          Chain.supplier? chainTwin.arguments = supplierTwin? at suppliers ⊢
        cases suppliers with
        | none => exact .missed
        | some supplier => exact alike.inSupplier mentions supplier

end

/-!
# Constructors
-/

section

variable [DecidableEq N] [DecidableEq M] (unique : Relator.BiUnique related)

include unique

theorem inConstructorOf {owner : N} {ownerTwin : M} (owners : related owner ownerTwin)
    (rel : related node twin) : inConstructorOf owner node = inConstructorOf ownerTwin twin := by
  have declarations := alike.enclosing? rel .constructorDeclaration
  unfold SyntaxNode.inConstructorOf
  generalize SyntaxNode.enclosing? node .constructorDeclaration = declaration?,
    SyntaxNode.enclosing? twin .constructorDeclaration = declarationTwin? at declarations ⊢
  cases declarations with
  | none => rfl
  | some around => exact rel_some_beq unique owners (alike.enclosing? around .classDeclaration)

theorem inClass {types : TypeSet}
    (mentions : ∀ node twin, related node twin ->
      Search.mentionsAny types node = Search.mentionsAny types twin)
    (rel : related node twin) :
    Outcome.Rel related (Search.inClass types node).value (Search.inClass types twin).value := by
  have agree : ∀ lambda lambdaTwin, related lambda lambdaTwin ->
      (SyntaxNode.ofKind .lambda lambda && SyntaxNode.inConstructorOf node lambda &&
          Search.mentionsAny types lambda) =
        (SyntaxNode.ofKind .lambda lambdaTwin && SyntaxNode.inConstructorOf twin lambdaTwin &&
          Search.mentionsAny types lambdaTwin) := by
    intro lambda lambdaTwin below
    rw [alike.ofKind below, alike.inConstructorOf unique rel below, mentions _ _ below]
  have candidates : List.Forall₂ related (Search.candidates types node)
      (Search.candidates types twin) := alike.collectAll agree rel
  unfold Search.inClass
  generalize Search.candidates types node = lambdas, Search.candidates types twin = lambdaTwins
    at candidates ⊢
  cases candidates with
  | nil => exact .missed
  | cons first rest =>
      cases rest with
      | nil => exact alike.inLambda mentions first
      | cons _ rest =>
          dsimp only
          rw [List.length_cons, List.length_cons, rest.length_eq]
          exact .missed

/-!
# Binder sites
-/

theorem isChained (rel : related node twin) : isChained node = isChained twin := by
  have parents := alike.parent? rel
  unfold CommandWiring.isChained
  generalize SyntaxNode.parent? node = above?, SyntaxNode.parent? twin = aboveTwin? at parents ⊢
  cases parents with
  | none => rfl
  | some above =>
      dsimp only
      rw [alike.ofKind above, firstChild?, firstChild?,
        rel_some_beq unique rel (rel_head? (alike.children above))]

theorem chainStarts (rel : related node twin) :
    List.Forall₂ related (chainStarts node) (chainStarts twin) := by
  refine alike.collectAll ?_ rel
  intro call callTwin below
  rw [alike.ofKind below, alike.isChained unique below]

end

end Alike
end CommandWiring
