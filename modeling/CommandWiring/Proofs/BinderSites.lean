import CommandWiring.Java.Reader
import CommandWiring.Proofs.Chains
import CommandWiring.Proofs.View
import Mathlib.Data.Set.Function

/-!
# The binder sites of a document

Every chain of calls has a first and a last call, and a site is a chain that is not too long and
ends in a binder. The sites of a document are all of these, each once and in the order of the text.
Each longer chain gives a warning.
-/

namespace CommandWiring

open SyntaxNode

variable {N : Type} [SyntaxNode N]

namespace BinderSite

/-- A chain of the tree from its last call, the binder, up to its first call, with `length` links in
between. No link leads on at either end. -/
structure Spans (root : N) (length : Nat) (site : BinderSite N) : Prop where
  reached : ∃ depth, Descends root depth site.binder
  innermost : IsInnermost site.binder
  climbs : Climbs site.binder length site.invocation
  outermost : IsOutermost site.invocation

namespace Spans

variable {root : N}

theorem eq_of_binder_eq {length other : Nat} {first second : BinderSite N}
    (one : Spans root length first) (more : Spans root other second)
    (same : first.binder = second.binder) : first = second ∧ length = other := by
  rcases first with ⟨invocation, binder⟩
  rcases second with ⟨otherInvocation, otherBinder⟩
  obtain rfl : binder = otherBinder := same
  rcases one.climbs.outermost_unique more.climbs one.outermost more.outermost with
    ⟨sameInvocation, sameLength⟩
  exact ⟨congrArg (BinderSite.mk · binder) sameInvocation, sameLength⟩

theorem eq_of_invocation_eq {length other : Nat} {first second : BinderSite N}
    (one : Spans root length first) (more : Spans root other second)
    (same : first.invocation = second.invocation) : first = second ∧ length = other := by
  apply one.eq_of_binder_eq more
  have climbs := more.climbs
  rw [← same] at climbs
  exact one.climbs.innermost_unique climbs one.innermost more.innermost

/-- A chain is followed down to its last call, unless it is too long. -/
theorem unwind? (coherent : Coherent root) {length : Nat} {site : BinderSite N}
    (spans : Spans root length site) :
    (Chain.unwind? site.invocation).map Chain.innermost =
      if length ≤ maxChainDepth then some site.binder else none := by
  rcases spans.climbs.reached coherent spans.reached with ⟨depth, reached⟩
  have invocation := spans.climbs.invocation spans.innermost.1
  cases found : Chain.unwind? site.invocation with
  | none =>
      rcases coherent.of_descend?_eq_none reached invocation found with ⟨lower, climbs, isCall⟩
      have longer := spans.climbs.le_of_isInnermost spans.innermost climbs isCall
      rw [if_neg (Nat.not_le.mpr longer)]
      rfl
  | some chain =>
      rcases coherent.of_descend?_eq_some reached invocation found with
        ⟨taken, bound, climbs, isLast⟩
      have le := climbs.le_of_isInnermost isLast spans.climbs spans.innermost.1
      rw [if_pos (Nat.le_trans le bound)]
      exact congrArg some (climbs.innermost_unique spans.climbs isLast spans.innermost)

end Spans

/-!
# First calls
-/

variable [DecidableEq N] {root : N}

theorem mem_chainStarts_iff {node : N} :
    node ∈ chainStarts root ↔
      (∃ depth ≤ maxTreeDepth, Descends root depth node) ∧ kind node = .invocation ∧
        IsOutermost node := by
  rw [chainStarts, collectAll_eq_filter, List.mem_filter, mem_preorder]
  simp only [ofKind, Bool.and_eq_true, beq_iff_eq, Bool.not_eq_true', Bool.eq_false_iff, ne_eq,
    isChained_iff, not_exists, IsOutermost]

theorem mem_chainStarts (height : HeightAtMost maxTreeDepth root) {node : N} :
    node ∈ chainStarts root ↔
      (∃ depth, Descends root depth node) ∧ kind node = .invocation ∧ IsOutermost node := by
  rw [mem_chainStarts_iff, ← mem_preorder, mem_preorder_of_heightAtMost height]

theorem Spans.mem_chainStarts (coherent : Coherent root) (height : HeightAtMost maxTreeDepth root)
    {length : Nat} {site : BinderSite N} (spans : Spans root length site) :
    site.invocation ∈ chainStarts root := by
  rw [BinderSite.mem_chainStarts height]
  refine ⟨spans.climbs.reached coherent spans.reached, ?_, spans.outermost⟩
  exact spans.climbs.invocation spans.innermost.1

/-- The last call of the chain from `node`, however long the chain is. -/
def bottomOf (node : N) : N :=
  ((Chain.descend? maxTreeDepth node 0).map Chain.innermost).getD node

theorem spans_bottomOf (coherent : Coherent root) (height : HeightAtMost maxTreeDepth root)
    {node : N} (member : node ∈ chainStarts root) :
    ∃ length, Spans root length ⟨node, bottomOf node⟩ := by
  rcases (mem_chainStarts height).mp member with ⟨⟨depth, reached⟩, invocation, isOutermost⟩
  rw [bottomOf]
  cases found : Chain.descend? maxTreeDepth node 0 with
  | none =>
      rcases coherent.of_descend?_eq_none reached invocation found with ⟨lower, climbs, _⟩
      have := height _ _ (reached.trans climbs.descends)
      omega
  | some chain =>
      rcases coherent.of_descend?_eq_some reached invocation found with ⟨taken, _, climbs, isLast⟩
      exact ⟨taken, ⟨_, reached.trans climbs.descends⟩, isLast, climbs, isOutermost⟩

/-!
# Sites and warnings
-/

variable {document : Java.Document}

theorem atInvocation?_of_long {accepts : String -> Bool} {invocation : document.Node}
    (tooLong : Chain.unwind? invocation = none) :
    atInvocation? accepts invocation = .warned (.chainSkipped (lineOf invocation)) none := by
  rw [atInvocation?, tooLong]

theorem atInvocation?_of_chain {accepts : String -> Bool} {invocation : document.Node}
    {chain : Chain document.Node} (unwinds : Chain.unwind? invocation = some chain) :
    atInvocation? accepts invocation =
      pure (if (name? chain.innermost).any accepts then some ⟨invocation, chain.innermost⟩
        else none) := by
  rw [atInvocation?, unwinds]
  dsimp only
  cases name? chain.innermost with
  | none => rfl
  | some name =>
      rw [Option.any_some]
      dsimp only
      split <;> rfl

theorem value_atInvocation? {accepts : String -> Bool} {invocation : document.Node}
    {site : BinderSite document.Node} :
    (atInvocation? accepts invocation).value = some site ↔
      site.invocation = invocation ∧
        (Chain.unwind? invocation).map Chain.innermost = some site.binder ∧
        ∃ name, name? site.binder = some name ∧ accepts name = true := by
  rcases site with ⟨top, binder⟩
  cases unwinds : Chain.unwind? invocation with
  | none =>
      rw [atInvocation?_of_long unwinds]
      simp [Logged.warned]
  | some chain =>
      rw [atInvocation?_of_chain unwinds, ← Option.any_eq_true]
      change (if (name? chain.innermost).any accepts then some (BinderSite.mk _ _) else none) =
        some _ ↔ top = invocation ∧ some chain.innermost = some binder ∧ _
      rw [Option.ite_none_right_eq_some, Option.some.injEq, Option.some.injEq, BinderSite.mk.injEq]
      constructor
      · intro given
        rcases given with ⟨named, rfl, rfl⟩
        exact ⟨rfl, rfl, named⟩
      · intro given
        rcases given with ⟨rfl, rfl, named⟩
        exact ⟨named, rfl, rfl⟩

theorem warnings_atInvocation? (accepts : String -> Bool) (invocation : document.Node) :
    (atInvocation? accepts invocation).warnings =
      if (Chain.unwind? invocation).isNone then [.chainSkipped (lineOf invocation)] else [] := by
  cases unwinds : Chain.unwind? invocation with
  | none =>
      rw [atInvocation?_of_long unwinds]
      rfl
  | some chain =>
      rw [atInvocation?_of_chain unwinds]
      rfl

theorem value_inDocument (accepts : String -> Bool) (document : Java.Document) :
    (inDocument accepts document).value =
      (chainStarts document.rootNode).filterMap fun start =>
        (atInvocation? accepts start).value := by
  change (((chainStarts document.rootNode).map (atInvocation? accepts)).map
    Logged.value).filterMap id = _
  rw [List.map_map, List.filterMap_map]
  rfl

theorem warnings_inDocument (accepts : String -> Bool) (document : Java.Document) :
    (inDocument accepts document).warnings =
      ((chainStarts document.rootNode).filter fun start => (Chain.unwind? start).isNone).map
        fun start => .chainSkipped (lineOf start) := by
  change ((chainStarts document.rootNode).map (atInvocation? accepts)).flatMap
    Logged.warnings ++ [] = _
  rw [List.append_nil, List.flatMap_map]
  induction chainStarts document.rootNode with
  | nil => rfl
  | cons start rest ih =>
      rw [List.flatMap_cons, ih, warnings_atInvocation?]
      cases h : (Chain.unwind? start).isNone with
      | true => simp [h]
      | false => simp [h]

/-!
# All chains of a document
-/

theorem nodup_chainStarts (document : Java.Document) :
    (chainStarts document.rootNode).Nodup := by
  rw [chainStarts, collectAll_eq_filter]
  exact (document.coherent.nodup_preorder .here).filter _

theorem ascending_chainStarts (document : Java.Document) :
    (chainStarts document.rootNode).Pairwise fun first second =>
      first.span.start ≤ second.span.start := by
  rw [chainStarts, collectAll_eq_filter]
  exact (document.ordered.preorder_ascending maxTreeDepth).filter _

theorem mem_inDocument {accepts : String -> Bool} {document : Java.Document}
    (height : HeightAtMost maxTreeDepth document.rootNode) {site : BinderSite document.Node} :
    site ∈ (inDocument accepts document).value ↔
      (∃ length ≤ maxChainDepth, Spans document.rootNode length site) ∧
        ∃ name, name? site.binder = some name ∧ accepts name = true := by
  rw [value_inDocument, List.mem_filterMap]
  constructor
  · intro given
    rcases given with ⟨start, isStart, isSite⟩
    rcases value_atInvocation?.mp isSite with ⟨rfl, unwinds, named⟩
    rcases spans_bottomOf document.coherent height isStart with ⟨length, spans⟩
    rw [spans.unwind? document.coherent] at unwinds
    rcases Option.ite_none_right_eq_some.mp unwinds with ⟨short, isBinder⟩
    have isBinder : bottomOf site.invocation = site.binder := Option.some.inj isBinder
    rw [isBinder] at spans
    exact ⟨⟨length, short, spans⟩, named⟩
  · intro given
    rcases given with ⟨⟨length, short, spans⟩, named⟩
    refine ⟨site.invocation, spans.mem_chainStarts document.coherent height, ?_⟩
    refine value_atInvocation?.mpr ⟨rfl, ?_, named⟩
    rw [spans.unwind? document.coherent, if_pos short]

theorem nodup_inDocument (accepts : String -> Bool) (document : Java.Document) :
    (inDocument accepts document).value.Nodup := by
  rw [value_inDocument]
  refine List.Nodup.filterMap ?_ (nodup_chainStarts document)
  intro first second site ofFirst ofSecond
  rw [← (value_atInvocation?.mp ofFirst).1, (value_atInvocation?.mp ofSecond).1]

theorem ascending_inDocument (accepts : String -> Bool) (document : Java.Document) :
    (inDocument accepts document).value.Pairwise fun first second =>
      first.invocation.span.start ≤ second.invocation.span.start := by
  rw [value_inDocument]
  refine List.pairwise_filterMap.mpr ((ascending_chainStarts document).imp ?_)
  intro first second before site ofFirst other ofSecond
  rw [(value_atInvocation?.mp ofFirst).1, (value_atInvocation?.mp ofSecond).1]
  exact before

/-- The chains that are too long, one for each warning. -/
def tooLong (document : Java.Document) : List (BinderSite document.Node) :=
  ((chainStarts document.rootNode).filter fun start => (Chain.unwind? start).isNone).map
    fun start => ⟨start, bottomOf start⟩

theorem nodup_tooLong (document : Java.Document) : (tooLong document).Nodup := by
  refine List.Nodup.map ?_ ((nodup_chainStarts document).filter _)
  intro first second same
  exact congrArg BinderSite.invocation same

theorem mem_tooLong {document : Java.Document}
    (height : HeightAtMost maxTreeDepth document.rootNode) {chain : BinderSite document.Node} :
    chain ∈ tooLong document ↔
      ∃ length, maxChainDepth < length ∧ Spans document.rootNode length chain := by
  have isNone_iff {length : Nat} {chain : BinderSite document.Node}
      (spans : Spans document.rootNode length chain) :
      (Chain.unwind? chain.invocation).isNone = true ↔ maxChainDepth < length := by
    rw [← Option.isNone_map (f := Chain.innermost), spans.unwind? document.coherent]
    by_cases short : length ≤ maxChainDepth
    · simp [short]
    · simp [short, Nat.lt_of_not_le short]
  rw [tooLong, List.mem_map]
  constructor
  · intro given
    rcases given with ⟨start, member, rfl⟩
    rcases List.mem_filter.mp member with ⟨isStart, isNone⟩
    rcases spans_bottomOf document.coherent height isStart with ⟨length, spans⟩
    exact ⟨length, (isNone_iff spans).mp isNone, spans⟩
  · intro given
    rcases given with ⟨length, long, spans⟩
    have isStart := spans.mem_chainStarts document.coherent height
    rcases spans_bottomOf document.coherent height isStart with ⟨other, sameStart⟩
    rcases sameStart.eq_of_invocation_eq spans rfl with ⟨same, _⟩
    exact ⟨_, List.mem_filter.mpr ⟨isStart, (isNone_iff spans).mpr long⟩, same⟩

/-!
# The sites of a document
-/

/-- Of the `chains`, all of which are too long, each gives one warning and no site. -/
structure SkipsChains {document : Java.Document} (found : Logged (List (BinderSite document.Node)))
    (chains : List (BinderSite document.Node)) : Prop where
  once : chains.Nodup
  tooLong : ∀ chain, chain ∈ chains ↔
    ∃ length, maxChainDepth < length ∧ Spans document.rootNode length chain
  noSite : ∀ chain ∈ chains, ∀ site ∈ found.value,
    site.binder ≠ chain.binder ∧ site.invocation ≠ chain.invocation
  warned : found.warnings = chains.map fun chain => .chainSkipped (lineOf chain.invocation)

/-- What is found are the sites of a document. -/
structure Enumerates (accepts : String -> Bool) (document : Java.Document)
    (found : Logged (List (BinderSite document.Node))) : Prop where
  binders : Set.BijOn BinderSite.binder {site | site ∈ found.value}
    {binder | (∃ depth, Descends document.rootNode depth binder) ∧ IsInnermost binder ∧
      (∃ name, name? binder = some name ∧ accepts name = true) ∧
      ∃ length ≤ maxChainDepth, ∃ top, Climbs binder length top ∧ IsOutermost top}
  once : found.value.Nodup
  climbs : ∀ site ∈ found.value, ∃ length ≤ maxChainDepth,
    Climbs site.binder length site.invocation ∧ IsOutermost site.invocation
  skips : ∃ chains, SkipsChains found chains
  inOrder : found.value.Pairwise fun first second =>
    first.invocation.span.start ≤ second.invocation.span.start

/-- The sites of a document are its chains with at most `maxChainDepth` links and an accepted last
call, each once and in the order of the text. Each chain with more links gives one warning and no
site. -/
theorem inDocument_enumerates (accepts : String -> Bool) (document : Java.Document)
    (height : HeightAtMost maxTreeDepth document.rootNode) :
    Enumerates accepts document (inDocument accepts document) := by
  have isSite {site : BinderSite document.Node} : site ∈ (inDocument accepts document).value ↔
      (∃ length ≤ maxChainDepth, Spans document.rootNode length site) ∧
        ∃ name, name? site.binder = some name ∧ accepts name = true := mem_inDocument height
  refine ⟨⟨?_, ?_, ?_⟩, ?_, ?_, ⟨tooLong document, nodup_tooLong document, ?_, ?_, ?_⟩, ?_⟩
  · intro site member
    rcases isSite.mp member with ⟨⟨length, short, spans⟩, named⟩
    exact ⟨spans.reached, spans.innermost, named, length, short, site.invocation, spans.climbs,
      spans.outermost⟩
  · intro first isFirst second isSecond same
    rcases isSite.mp isFirst with ⟨⟨_, _, one⟩, _⟩
    rcases isSite.mp isSecond with ⟨⟨_, _, other⟩, _⟩
    exact (one.eq_of_binder_eq other same).1
  · rintro binder ⟨reached, innermost, named, length, short, top, climbs, outermost⟩
    exact ⟨⟨top, binder⟩,
      isSite.mpr ⟨⟨length, short, reached, innermost, climbs, outermost⟩, named⟩, rfl⟩
  · exact nodup_inDocument accepts document
  · intro site member
    rcases isSite.mp member with ⟨⟨length, short, spans⟩, _⟩
    exact ⟨length, short, spans.climbs, spans.outermost⟩
  · intro chain
    exact mem_tooLong height
  · intro chain isLong site member
    rcases (mem_tooLong height).mp isLong with ⟨length, long, whole⟩
    rcases isSite.mp member with ⟨⟨other, short, spans⟩, _⟩
    constructor
    · intro same
      rcases spans.eq_of_binder_eq whole same with ⟨_, rfl⟩
      omega
    · intro same
      rcases spans.eq_of_invocation_eq whole same with ⟨_, rfl⟩
      omega
  · rw [warnings_inDocument, tooLong, List.map_map]
    rfl
  · exact ascending_inDocument accepts document

theorem inDocument_enumerates_fluent_call :
    let document := Java.Document.parse "class A { void f() { aBinder(x).on(y); } }"
    let sites := (inDocument (fun name => name == "aBinder") document).value
    HeightAtMost maxTreeDepth document.rootNode ∧ sites.map binderName = ["aBinder"] ∧
      Set.BijOn BinderSite.binder {site | site ∈ sites}
        {binder | (∃ depth, Descends document.rootNode depth binder) ∧ IsInnermost binder ∧
          (∃ name, name? binder = some name ∧ (name == "aBinder") = true) ∧
          ∃ length ≤ maxChainDepth, ∃ top, Climbs binder length top ∧ IsOutermost top} := by
  intro document sites
  have low : HeightAtMost 12 document.rootNode :=
    heightAtMost_of_level_eq_nil (List.isEmpty_iff.mp (by decide +kernel))
  have height : HeightAtMost maxTreeDepth document.rootNode := low.mono (by decide)
  refine ⟨height, by decide +kernel, ?_⟩
  exact (inDocument_enumerates (fun name => name == "aBinder") document height).binders

end BinderSite
end CommandWiring
