import CommandWiring.Proofs.Alike
import CommandWiring.Proofs.Reports
import CommandWiring.Proofs.Twins

/-!
# Documents that are alike

If the nodes of two documents are alike, the binder sites are found at related calls, the same
classes are scanned, and the reports say the same about each of them.
-/

namespace CommandWiring

open SyntaxNode

namespace Java
namespace Document

variable {document : Document} {depth steps : Nat}

/-- A call stands in a class exactly if its bytes do. -/
theorem contains_iff_descends {owner call : document.Node} {other : Nat}
    (reached : Descends document.rootNode depth owner)
    (callReached : Descends document.rootNode other call) (isClass : kind owner = .classDeclaration)
    (isCall : kind call = .invocation) :
    owner.contains call = true ↔ ∃ steps, Descends owner steps call := by
  have ordered := document.ordered
  have callFilled := call.isFilled_of_kind (Or.inl isCall)
  rw [Node.contains, Bool.and_eq_true, decide_eq_true_eq, decide_eq_true_eq]
  constructor
  · intro contained
    rcases ordered.comparable reached callReached with below | ⟨steps, above⟩ | before | behind
    · exact below
    · -- a class in a call begins behind the beginning of the call
      cases steps with
      | zero =>
          cases above with
          | here => exact ⟨0, .here⟩
      | succ steps =>
          have notTop : call ≠ document.rootNode := by
            rintro rfl
            rw [kind_rootNode] at isCall
            cases isCall
          have less := start_lt_of_descends callReached above isClass notTop
          omega
    · omega
    · omega
  · intro given
    rcases given with ⟨steps, below⟩
    exact ordered.inside_of_descends reached below

end Document
end Java

/-!
# Related nodes below related nodes
-/

section

variable {α β : Type} {related : α -> β -> Prop} {elements : List α} {twins : List β}

theorem exists_right_of_mem (rel : List.Forall₂ related elements twins) {element : α}
    (member : element ∈ elements) : ∃ twin ∈ twins, related element twin := by
  induction rel with
  | nil => cases member
  | cons head _ ih =>
      rcases List.mem_cons.mp member with rfl | inRest
      · exact ⟨_, List.mem_cons_self, head⟩
      · rcases ih inRest with ⟨twin, isTwin, rel⟩
        exact ⟨twin, List.mem_cons_of_mem _ isTwin, rel⟩

theorem exists_left_of_mem (rel : List.Forall₂ related elements twins) {twin : β}
    (member : twin ∈ twins) : ∃ element ∈ elements, related element twin :=
  exists_right_of_mem rel.flip member

theorem any_eq_of_forall₂ {accepts : α -> Bool} {others : β -> Bool}
    (agree : ∀ first second, related first second -> accepts first = others second)
    (rel : List.Forall₂ related elements twins) : elements.any accepts = twins.any others := by
  induction rel with
  | nil => rfl
  | cons head _ ih => rw [List.any_cons, List.any_cons, agree _ _ head, ih]

end

namespace Alike

section

variable {N M : Type} [SyntaxNode N] [SyntaxNode M] {related : N -> M -> Prop}
  (alike : Alike related) {upper : N} {upperTwin : M}

include alike

theorem exists_below (rel : related upper upperTwin) {steps : Nat} {lower : N}
    (below : Descends upper steps lower) :
    ∃ lowerTwin, related lower lowerTwin ∧ Descends upperTwin steps lowerTwin := by
  induction below with
  | here => exact ⟨upperTwin, rel, .here⟩
  | down _ member ih =>
      rcases ih with ⟨middle, middleRel, twinBelow⟩
      rcases exists_right_of_mem (alike.children middleRel) member with ⟨child, isChild, childRel⟩
      exact ⟨child, childRel, twinBelow.down isChild⟩

theorem exists_above (rel : related upper upperTwin) {steps : Nat} {lowerTwin : M}
    (below : Descends upperTwin steps lowerTwin) :
    ∃ lower, related lower lowerTwin ∧ Descends upper steps lower := by
  induction below with
  | here => exact ⟨upper, rel, .here⟩
  | down _ member ih =>
      rcases ih with ⟨middle, middleRel, twinBelow⟩
      rcases exists_left_of_mem (alike.children middleRel) member with ⟨child, isChild, childRel⟩
      exact ⟨child, childRel, twinBelow.down isChild⟩

theorem descends_iff (unique : Relator.BiUnique related) (rel : related upper upperTwin)
    {steps : Nat} {lower : N} {lowerTwin : M} (lowerRel : related lower lowerTwin) :
    Descends upper steps lower ↔ Descends upperTwin steps lowerTwin := by
  constructor
  · intro below
    rcases alike.exists_below rel below with ⟨other, otherRel, twinBelow⟩
    rwa [unique.2 lowerRel otherRel]
  · intro below
    rcases alike.exists_above rel below with ⟨other, otherRel, twinBelow⟩
    rwa [unique.1 lowerRel otherRel]

end

end Alike

/-!
# Sites
-/

variable {document image : Java.Document} {related : document.Node -> image.Node -> Prop}

structure BinderSite.Rel (related : document.Node -> image.Node -> Prop)
    (site : BinderSite document.Node) (twin : BinderSite image.Node) : Prop where
  isCall : kind site.invocation = .invocation
  invocation : related site.invocation twin.invocation
  binder : related site.binder twin.binder
  name : site.binderName = twin.binderName

inductive Origin.Rel (related : document.Node -> image.Node -> Prop) :
    Origin document -> Origin image -> Prop where
  | atSite {site : BinderSite document.Node} {twin : BinderSite image.Node} :
      BinderSite.Rel related site twin -> Origin.Rel related (.atSite site) (.atSite twin)
  | inScope {owner : document.Node} {twin : image.Node} :
      related owner twin -> name? owner = name? twin ->
      Origin.Rel related (.inScope owner) (.inScope twin)

namespace Alike

theorem atInvocation? (alike : Alike related) (accepts : String -> Bool) {call : document.Node}
    {twin : image.Node} (rel : related call twin) (isCall : SyntaxNode.kind call = .invocation) :
    Option.Rel (BinderSite.Rel related) (BinderSite.atInvocation? accepts call).value
      (BinderSite.atInvocation? accepts twin).value := by
  have chains := alike.unwind? rel isCall
  generalize unwinds : Chain.unwind? call = chain?, twinUnwinds : Chain.unwind? twin = chainTwin?
    at chains
  cases chains with
  | none =>
      rw [BinderSite.atInvocation?_of_long unwinds, BinderSite.atInvocation?_of_long twinUnwinds]
      exact .none
  | some ends =>
      rw [BinderSite.atInvocation?_of_chain unwinds, BinderSite.atInvocation?_of_chain twinUnwinds,
        ← ends.name]
      show Option.Rel _ (if _ then _ else _) (if _ then _ else _)
      split
      · refine .some ⟨isCall, rel, ends.innermost, ?_⟩
        rw [BinderSite.binderName, BinderSite.binderName, ends.name]
      · exact .none

/-!
# Twins of two documents
-/

variable (alike : Alike (Twins document.rootNode image.rootNode))

include alike

theorem sites (accepts : String -> Bool) :
    List.Forall₂ (BinderSite.Rel (Twins document.rootNode image.rootNode))
      (BinderSite.inDocument accepts document).value
      (BinderSite.inDocument accepts image).value := by
  have unique := Twins.biUnique document.coherent image.coherent
  have areCalls : ∀ start ∈ CommandWiring.chainStarts document.rootNode,
      SyntaxNode.kind start = .invocation := by
    intro start isStart
    have wanted := (of_mem_collectAll isStart).2
    rw [Bool.and_eq_true] at wanted
    exact beq_iff_eq.mp wanted.1
  rw [BinderSite.value_inDocument, BinderSite.value_inDocument]
  refine List.rel_filterMap ?_
    ((List.forall₂_and_left _ _).mpr ⟨areCalls, alike.chainStarts unique .here⟩)
  rintro start twin ⟨isCall, rel⟩
  exact alike.atInvocation? accepts rel isCall

theorem hasSite {owner : document.Node} {ownerTwin : image.Node}
    (rel : Twins document.rootNode image.rootNode owner ownerTwin)
    (isClass : SyntaxNode.kind owner = .classDeclaration)
    {sites : List (BinderSite document.Node)} {twins : List (BinderSite image.Node)}
    (sitesRel : List.Forall₂ (BinderSite.Rel (Twins document.rootNode image.rootNode)) sites
      twins) :
    Scan.hasSite sites owner = Scan.hasSite twins ownerTwin := by
  have unique := Twins.biUnique document.coherent image.coherent
  rcases rel.reached with ⟨depth, reached, twinReached⟩
  refine any_eq_of_forall₂ ?_ sitesRel
  intro site twin siteRel
  rcases siteRel.invocation.reached with ⟨other, callReached, callTwinReached⟩
  have isTwinClass := (alike.kind rel).symm.trans isClass
  have isTwinCall := (alike.kind siteRel.invocation).symm.trans siteRel.isCall
  rw [Bool.eq_iff_iff,
    Java.Document.contains_iff_descends reached callReached isClass siteRel.isCall,
    Java.Document.contains_iff_descends twinReached callTwinReached isTwinClass isTwinCall]
  exact exists_congr fun steps => alike.descends_iff unique rel siteRel.invocation

theorem hasConstructorLambda {owner : document.Node} {ownerTwin : image.Node}
    (rel : Twins document.rootNode image.rootNode owner ownerTwin) :
    Scan.hasConstructorLambda owner = Scan.hasConstructorLambda ownerTwin := by
  have unique := Twins.biUnique document.coherent image.coherent
  have agree : ∀ lambda lambdaTwin, Twins document.rootNode image.rootNode lambda lambdaTwin ->
      (SyntaxNode.ofKind .lambda lambda && SyntaxNode.inConstructorOf owner lambda) =
        (SyntaxNode.ofKind .lambda lambdaTwin &&
          SyntaxNode.inConstructorOf ownerTwin lambdaTwin) := by
    intro lambda lambdaTwin below
    rw [alike.ofKind below, alike.inConstructorOf unique rel below]
  have lambdas := alike.findFirst? agree rel
  unfold Scan.hasConstructorLambda
  generalize SyntaxNode.findFirst? owner _ = lambda?, SyntaxNode.findFirst? ownerTwin _ = twin?
    at lambdas ⊢
  cases lambdas with
  | none => rfl
  | some _ => rfl

theorem scopes (options : ScanOptions) :
    List.Forall₂ (fun owner twin => SyntaxNode.kind owner = .classDeclaration ∧
        Twins document.rootNode image.rootNode owner twin)
      (Scan.scopes options document) (Scan.scopes options image) := by
  unfold Scan.scopes
  split
  · have classes := alike.collectAll (fun _ _ below => alike.ofKind below .classDeclaration)
      (.here : Twins document.rootNode image.rootNode _ _)
    have areClasses : ∀ owner ∈ SyntaxNode.collectAll document.rootNode
        (SyntaxNode.ofKind .classDeclaration), SyntaxNode.kind owner = .classDeclaration := by
      intro owner member
      exact beq_iff_eq.mp (of_mem_collectAll member).2
    refine rel_filter ?_ (rel_filter ?_ ((List.forall₂_and_left _ _).mpr ⟨areClasses, classes⟩))
    · rintro owner twin ⟨_, rel⟩
      exact alike.hasConstructorLambda rel
    · rintro owner twin ⟨isClass, rel⟩
      rw [Scan.sites, Scan.sites, alike.hasSite rel isClass (alike.sites options.acceptsBinder)]
  · exact .nil

theorem origins (options : ScanOptions) :
    List.Forall₂ (Origin.Rel (Twins document.rootNode image.rootNode))
      (Scan.origins options document) (Scan.origins options image) := by
  refine List.rel_append (List.rel_map ?_ (alike.sites options.acceptsBinder))
    (List.rel_map ?_ (alike.scopes options))
  · intro site twin rel
    exact .atSite rel
  · rintro owner twin ⟨isClass, rel⟩
    exact .inScope rel (alike.name?_of_kind rel isClass (by decide))

end Alike

/-!
# What reports say
-/

namespace SiteReport

/-- What a report says, apart from where it says it of. -/
structure Finding where
  siteKind : SiteKind
  siteName : String
  matchKind? : Option MatchKind
  reason? : Option String
deriving DecidableEq

def finding (report : SiteReport) : Finding where
  siteKind := report.siteKind
  siteName := report.siteName
  matchKind? := report.command?.map FoundCommand.kind
  reason? := report.reason?

end SiteReport

theorem Origin.finding_report (types : TypeSet) (builder : ReportBuilder)
    (origin : Origin document) :
    (origin.report types builder).finding =
      { siteKind := origin.kind, siteName := origin.name
        matchKind? := (origin.outcome types).matchKind?
        reason? := (origin.outcome types).reason?.map MissReason.message } := by
  rw [Origin.report, SiteReport.finding]
  cases origin.outcome types with
  | constructorCall node => rfl
  | methodReference node => rfl
  | block node => rfl
  | missed reason => rfl

namespace Alike

variable (alike : Alike (Twins document.rootNode image.rootNode)) {types : TypeSet}
  (mentions : ∀ node twin, Twins document.rootNode image.rootNode node twin ->
    Search.mentionsAny types node = Search.mentionsAny types twin)

include alike mentions

theorem finding_eq (builder otherBuilder : ReportBuilder) {origin : Origin document}
    {twin : Origin image} (rel : Origin.Rel (Twins document.rootNode image.rootNode) origin twin) :
    (origin.report types builder).finding = (twin.report types otherBuilder).finding := by
  rw [Origin.finding_report, Origin.finding_report]
  cases rel with
  | atSite siteRel =>
      rcases (alike.inInvocation mentions siteRel.invocation siteRel.isCall).same with
        ⟨sameKind, sameReason⟩
      simp only [Origin.kind, Origin.name, Origin.outcome, siteRel.name, sameKind, sameReason]
  | inScope owners names =>
      have unique := Twins.biUnique document.coherent image.coherent
      rcases (alike.inClass unique mentions owners).same with ⟨sameKind, sameReason⟩
      simp only [Origin.kind, Origin.name, Origin.outcome, names, sameKind, sameReason]

theorem findings_eq (options : ScanOptions) (builder otherBuilder : ReportBuilder) :
    ((Scan.origins options document).map (Origin.report types builder)).map SiteReport.finding =
      ((Scan.origins options image).map (Origin.report types otherBuilder)).map
        SiteReport.finding := by
  rw [List.map_map, List.map_map, ← List.forall₂_eq_eq_eq]
  exact List.rel_map (fun _ _ rel => alike.finding_eq mentions builder otherBuilder rel)
    (alike.origins options)

end Alike

end CommandWiring
