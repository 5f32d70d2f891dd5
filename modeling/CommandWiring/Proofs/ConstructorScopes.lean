import CommandWiring.Java.Reader
import CommandWiring.Proofs.Reports
import Mathlib.Data.List.Pairwise

/-!
# Commands of constructors

A lambda is a candidate of one class only. The search in a candidate goes through all that is below
it, though, and so through candidates of classes declared there. Two classes report the same
command exactly if the first command in the candidate of the one is also the first in a candidate
nested in it.
-/

namespace CommandWiring

open SyntaxNode

variable {N : Type} [SyntaxNode N]

namespace Search

/-!
# The first command of a lambda
-/

def command? (types : TypeSet) (lambda : N) : Option N :=
  findFirst? lambda fun node => ofKind .constructorCall node && mentionsAny types node

theorem value_inLambda (types : TypeSet) (lambda : N) :
    (inLambda types lambda).value =
      ((command? types lambda).map .constructorCall).getD (.missed .noCommandConstructor) := by
  rw [inLambda, command?]
  cases findFirst? lambda fun node => ofKind .constructorCall node && mentionsAny types node with
  | none => rfl
  | some call => rfl

theorem of_command?_eq_some {types : TypeSet} {lambda call : N}
    (found : command? types lambda = some call) :
    (∃ steps, Descends lambda steps call) ∧ kind call = .constructorCall := by
  rcases of_findFirst?_eq_some found with ⟨below, wanted⟩
  rw [Bool.and_eq_true] at wanted
  exact ⟨below, beq_iff_eq.mp wanted.1⟩

/-!
# Owners
-/

variable [DecidableEq N]

theorem inConstructorOf_iff {owner node : N} :
    inConstructorOf owner node = true ↔
      ∃ declaration, enclosing? node .constructorDeclaration = some declaration ∧
        enclosing? declaration .classDeclaration = some owner := by
  rw [inConstructorOf]
  cases enclosing? node .constructorDeclaration with
  | none => simp
  | some declaration => simp

theorem owner_unique {first second node : N} (one : inConstructorOf first node = true)
    (other : inConstructorOf second node = true) : first = second := by
  rcases inConstructorOf_iff.mp one with ⟨declaration, isDeclaration, isOwner⟩
  rcases inConstructorOf_iff.mp other with ⟨same, isSame, isOther⟩
  rw [isDeclaration] at isSame
  rcases Option.some.inj isSame with rfl
  rw [isOwner] at isOther
  exact Option.some.inj isOther

theorem of_mem_candidates {types : TypeSet} {owner lambda : N}
    (member : lambda ∈ candidates types owner) :
    (∃ steps, Descends owner steps lambda) ∧ kind lambda = .lambda ∧
      inConstructorOf owner lambda = true := by
  rcases of_mem_collectAll member with ⟨below, wanted⟩
  rw [Bool.and_eq_true, Bool.and_eq_true] at wanted
  exact ⟨below, beq_iff_eq.mp wanted.1.1, wanted.1.2⟩

theorem declaration_below {root owner other outer inner : N} (coherent : Coherent root)
    {depth steps : Nat} (reached : Descends root depth outer)
    (below : Descends outer (steps + 1) inner) (isLambda : kind outer = .lambda)
    (outerOwned : inConstructorOf owner outer = true)
    (innerOwned : inConstructorOf other inner = true) (different : owner ≠ other) :
    ∃ declaration further, enclosing? inner .constructorDeclaration = some declaration ∧
      Descends outer (further + 1) declaration := by
  rcases inConstructorOf_iff.mp innerOwned with ⟨declaration, isDeclaration, isOther⟩
  refine ⟨declaration, ?_⟩
  rcases ancestorWithin?_eq_some.mp isDeclaration with
    ⟨distance, near, ⟨isAbove, isConstructor, nearest⟩⟩
  have outerAbove := coherent.above?_of_descends reached below
  rcases Nat.lt_trichotomy distance steps with inside | same | outside
  · obtain ⟨rest, rfl⟩ : ∃ rest, steps = rest + (distance + 1) :=
      ⟨steps - (distance + 1), by omega⟩
    have parted : Descends outer (rest + 1 + (distance + 1)) inner := by
      rw [Nat.add_right_comm]
      exact below
    rcases parted.split with ⟨middle, top, bottom⟩
    have isMiddle := coherent.above?_of_descends (reached.trans top) bottom
    rw [isAbove] at isMiddle
    rcases Option.some.inj isMiddle with rfl
    exact ⟨rest, isDeclaration, top⟩
  · rw [same, outerAbove] at isAbove
    rcases Option.some.inj isAbove with rfl
    rw [ofKind, isLambda] at isConstructor
    cases isConstructor
  · -- otherwise the nearest constructor around both lambdas is the same, and so is its class
    obtain ⟨rest, rfl⟩ : ∃ rest, distance = steps + 1 + rest := ⟨distance - (steps + 1), by omega⟩
    have beyond (more : Nat) : above? (steps + 1 + more) inner = above? more outer :=
      above?_add outerAbove
    have sameDeclaration : enclosing? outer .constructorDeclaration = some declaration := by
      refine ancestorWithin?_eq_some.mpr ⟨rest, by omega, ?_, isConstructor, ?_⟩
      · rw [← beyond]
        exact isAbove
      · intro fewer less node isNode
        refine nearest (steps + 1 + fewer) (by omega) node ?_
        rw [← isNode, ← beyond]
        rfl
    have sameOwner : inConstructorOf other outer = true :=
      inConstructorOf_iff.mpr ⟨declaration, sameDeclaration, isOther⟩
    exact absurd (owner_unique outerOwned sameOwner) different

/-!
# Commands found from a class
-/

/-- The command of a class: that of its candidate, if there is one candidate. -/
def classCommand? (types : TypeSet) (owner : N) : Option N :=
  match candidates types owner with
  | [lambda] => command? types lambda
  | _ => none

theorem classCommand?_eq_some {types : TypeSet} {owner call : N} :
    classCommand? types owner = some call ↔
      ∃ lambda, candidates types owner = [lambda] ∧ command? types lambda = some call := by
  rw [classCommand?]
  cases candidates types owner with
  | nil => simp
  | cons lambda rest =>
      cases rest with
      | nil => simp
      | cons second more => simp

theorem value_inClass (types : TypeSet) (owner : N) :
    ∃ reason, (inClass types owner).value =
      ((classCommand? types owner).map .constructorCall).getD (.missed reason) := by
  rw [inClass, classCommand?]
  cases candidates types owner with
  | nil => exact ⟨_, rfl⟩
  | cons lambda rest =>
      cases rest with
      | nil => exact ⟨_, value_inLambda types lambda⟩
      | cons second more => exact ⟨_, rfl⟩

/-- The only candidate of `owner` contains a constructor with the only candidate of `other`, and the
search in either finds the same command. -/
def Overreaches (types : TypeSet) (owner other : N) : Prop :=
  ∃ outer inner declaration call further,
    candidates types owner = [outer] ∧ candidates types other = [inner] ∧
      enclosing? inner .constructorDeclaration = some declaration ∧
      Descends outer (further + 1) declaration ∧
      command? types outer = some call ∧ command? types inner = some call

theorem Overreaches.command_eq {types : TypeSet} {owner other : N}
    (overreaches : Overreaches types owner other) :
    ∃ call, classCommand? types owner = some call ∧ classCommand? types other = some call := by
  rcases overreaches with ⟨outer, inner, _, call, _, isOuter, isInner, _, _, one, other⟩
  exact ⟨call, classCommand?_eq_some.mpr ⟨outer, isOuter, one⟩,
    classCommand?_eq_some.mpr ⟨inner, isInner, other⟩⟩

theorem not_overreaches_self {root owner : N} (coherent : Coherent root) {depth : Nat}
    (reached : Descends root depth owner) (types : TypeSet) : ¬ Overreaches types owner owner := by
  intro given
  rcases given with
    ⟨outer, inner, declaration, _, further, isOuter, isInner, isDeclaration, below, _⟩
  rw [isOuter] at isInner
  rcases List.singleton_inj.mp isInner with rfl
  rcases of_mem_candidates (isOuter ▸ List.mem_singleton_self outer) with ⟨⟨steps, under⟩, _⟩
  rcases ancestorWithin?_eq_some.mp isDeclaration with ⟨distance, _, isAbove, _⟩
  rcases coherent.descends_of_above? (reached.trans under) isAbove with
    ⟨above, less, declarationReached⟩
  have := coherent.depth_unique (reached.trans under)
    ((reached.trans under).trans (below.trans above))
  omega

theorem overreaches_of_command_eq {root owner other outer inner call : N}
    (coherent : Coherent root) {depth otherDepth steps more : Nat}
    (reached : Descends root depth owner) (otherReached : Descends root otherDepth other)
    (different : owner ≠ other) {types : TypeSet} (isOuter : candidates types owner = [outer])
    (isInner : candidates types other = [inner]) (outerCommand : command? types outer = some call)
    (innerCommand : command? types inner = some call) (far : Descends outer (steps + more) call)
    (near : Descends inner more call) : Overreaches types owner other := by
  rcases of_mem_candidates (isOuter ▸ List.mem_singleton_self outer) with
    ⟨⟨_, outerBelow⟩, isLambda, outerOwned⟩
  rcases of_mem_candidates (isInner ▸ List.mem_singleton_self inner) with
    ⟨⟨_, innerBelow⟩, _, innerOwned⟩
  have nested := coherent.descends_of_descends (reached.trans outerBelow)
    (otherReached.trans innerBelow) far near
  cases steps with
  | zero =>
      cases nested with
      | here => exact absurd (owner_unique outerOwned innerOwned) different
  | succ steps =>
      rcases declaration_below coherent (reached.trans outerBelow) nested isLambda outerOwned
          innerOwned different with
        ⟨declaration, further, isDeclaration, below⟩
      exact ⟨outer, inner, declaration, call, further, isOuter, isInner, isDeclaration, below,
        outerCommand, innerCommand⟩

/-- Two classes give the same command exactly if one overreaches into the other. -/
theorem command_eq_iff_overreaches {root owner other : N} (coherent : Coherent root)
    {depth otherDepth : Nat} (reached : Descends root depth owner)
    (otherReached : Descends root otherDepth other) (different : owner ≠ other)
    (types : TypeSet) :
    (∃ call, classCommand? types owner = some call ∧ classCommand? types other = some call) ↔
      Overreaches types owner other ∨ Overreaches types other owner := by
  constructor
  · intro given
    rcases given with ⟨call, one, two⟩
    rcases classCommand?_eq_some.mp one with ⟨outer, isOuter, outerCommand⟩
    rcases classCommand?_eq_some.mp two with ⟨inner, isInner, innerCommand⟩
    rcases of_command?_eq_some outerCommand with ⟨⟨far, outerCall⟩, _⟩
    rcases of_command?_eq_some innerCommand with ⟨⟨near, innerCall⟩, _⟩
    rcases Nat.le_total near far with le | le
    · rcases Nat.exists_eq_add_of_le' le with ⟨rest, rfl⟩
      exact Or.inl (overreaches_of_command_eq coherent reached otherReached different isOuter
        isInner outerCommand innerCommand outerCall innerCall)
    · rcases Nat.exists_eq_add_of_le' le with ⟨rest, rfl⟩
      exact Or.inr (overreaches_of_command_eq coherent otherReached reached different.symm isInner
        isOuter innerCommand outerCommand innerCall outerCall)
  · intro given
    rcases given with overreaches | overreaches
    · exact overreaches.command_eq
    · rcases overreaches.command_eq with ⟨call, one, two⟩
      exact ⟨call, two, one⟩

end Search

/-!
# Reports on classes
-/

namespace SiteReport

def commandBytes? (report : SiteReport) : Option (UInt32 × UInt32) :=
  report.command?.map fun command => (command.startByte, command.endByte)

/-- Both reports are on classes and have a command that covers the same bytes. -/
def SharesCommand (first second : SiteReport) : Prop :=
  first.siteKind = .constructorScope ∧ second.siteKind = .constructorScope ∧
    first.commandBytes?.isSome = true ∧ first.commandBytes? = second.commandBytes?

instance (first second : SiteReport) : Decidable (first.SharesCommand second) :=
  inferInstanceAs (Decidable (_ ∧ _))

theorem SharesCommand.symm {first second : SiteReport}
    (shares : first.SharesCommand second) : second.SharesCommand first := by
  rcases shares with ⟨isScope, alsoScope, isSome, same⟩
  exact ⟨alsoScope, isScope, same ▸ isSome, same.symm⟩

end SiteReport

variable {document : Java.Document}

theorem Origin.commandBytes?_report (types : TypeSet) (builder : ReportBuilder)
    (owner : document.Node) :
    ((Origin.inScope owner).report types builder).commandBytes? =
      (Search.classCommand? types owner).map fun call =>
        (UInt32.ofNat call.span.start, UInt32.ofNat call.span.stop) := by
  rcases Search.value_inClass types owner with ⟨reason, isValue⟩
  rw [report, outcome, isValue]
  cases Search.classCommand? types owner with
  | none => rfl
  | some call => rfl

theorem Search.of_classCommand?_eq_some {types : TypeSet} {owner call : document.Node} {depth : Nat}
    (reached : Descends document.rootNode depth owner)
    (found : classCommand? types owner = some call) :
    (∃ further, Descends document.rootNode further call) ∧ kind call = .constructorCall := by
  rcases classCommand?_eq_some.mp found with ⟨lambda, isOnly, isCommand⟩
  rcases of_mem_candidates (isOnly ▸ List.mem_singleton_self lambda) with ⟨⟨_, below⟩, _⟩
  rcases of_command?_eq_some isCommand with ⟨⟨_, further⟩, isCall⟩
  exact ⟨⟨_, (reached.trans below).trans further⟩, isCall⟩

theorem Origin.sharesCommand_iff (small : document.text.utf8ByteSize < UInt32.size)
    {owner other : document.Node} {depth otherDepth : Nat}
    (reached : Descends document.rootNode depth owner)
    (otherReached : Descends document.rootNode otherDepth other) (types : TypeSet)
    (builder : ReportBuilder) :
    ((inScope owner).report types builder).SharesCommand ((inScope other).report types builder) ↔
      ∃ call, Search.classCommand? types owner = some call ∧
        Search.classCommand? types other = some call := by
  rw [SiteReport.SharesCommand, commandBytes?_report, commandBytes?_report]
  constructor
  · intro given
    rcases given with ⟨_, _, isSome, same⟩
    rcases Option.isSome_iff_exists.mp (Option.isSome_map.symm.trans isSome) with ⟨first, isFirst⟩
    rw [isFirst, Option.map_some] at same
    rcases Option.map_eq_some_iff.mp same.symm with ⟨second, isSecond, sameBytes⟩
    rcases Search.of_classCommand?_eq_some reached isFirst with ⟨⟨_, firstReached⟩, isCall⟩
    rcases Search.of_classCommand?_eq_some otherReached isSecond with
      ⟨⟨_, secondReached⟩, otherIsCall⟩
    have firstStop := first.stop_le firstReached
    have secondStop := second.stop_le secondReached
    have firstForward := document.ordered.forward firstReached
    have secondForward := document.ordered.forward secondReached
    have sameStart := ofNat_inj_of_le small (Nat.le_trans secondForward secondStop)
      (Nat.le_trans firstForward firstStop) (congrArg Prod.fst sameBytes)
    have sameStop := ofNat_inj_of_le small secondStop firstStop (congrArg Prod.snd sameBytes)
    have sameSpan : first.span = second.span :=
      congrArg₂ Java.Span.mk sameStart.symm sameStop.symm
    rcases Java.Document.eq_of_span_eq firstReached secondReached isCall otherIsCall sameSpan with
      rfl
    exact ⟨first, isFirst, isSecond⟩
  · intro given
    rcases given with ⟨call, isOne, isTwo⟩
    rw [isOne, isTwo]
    exact ⟨rfl, rfl, rfl, rfl⟩

namespace Scan

theorem shares_iff_overreaches {options : ScanOptions}
    (small : document.text.utf8ByteSize < UInt32.size) {owner other : document.Node}
    (isScope : owner ∈ scopes options document) (alsoScope : other ∈ scopes options document)
    (different : owner ≠ other) (types : TypeSet) (builder : ReportBuilder) :
    ((Origin.inScope owner).report types builder).SharesCommand
        ((Origin.inScope other).report types builder) ↔
      Search.Overreaches types owner other ∨ Search.Overreaches types other owner := by
  rcases of_mem_scopes isScope with ⟨⟨_, reached⟩, _⟩
  rcases of_mem_scopes alsoScope with ⟨⟨_, otherReached⟩, _⟩
  rw [Origin.sharesCommand_iff small reached otherReached]
  exact Search.command_eq_iff_overreaches document.coherent reached otherReached different types

/-- A file has a report exactly if the contexts of all that is found fit. No two of its reports on
classes share a command exactly if no class overreaches into another. -/
theorem reports_apart_iff (options : ScanOptions) (types : TypeSet) {parser : Java.Parser}
    {source : SourceFile} (isRead : IsRead parser source document)
    (small : source.text.utf8ByteSize < UInt32.size) :
    ((∃ report, file parser options types source = .ok (.ok report)) ↔
        FileFits options types source document) ∧
      ∀ report, file parser options types source = .ok (.ok report) ->
        (report.value.reports.Pairwise (fun first second => ¬ first.SharesCommand second) ↔
          ∀ owner ∈ scopes options document, ∀ other ∈ scopes options document,
            ¬ Search.Overreaches types owner other) := by
  refine ⟨exists_file_iff isRead, ?_⟩
  intro report isReport
  have areReports := perm_reports_of_isRead isRead isReport
  rw [← parser.faithful isRead.parsed] at small
  let builder := ReportBuilder.forFile source.path source.text options.context
  let Apart (first second : Origin document) : Prop :=
    ¬ (first.report types builder).SharesCommand (second.report types builder)
  have isSymm : Std.Symm Apart := ⟨fun _ _ apart shares => apart shares.symm⟩
  have onOrigins : report.value.reports.Pairwise
      (fun first second => ¬ first.SharesCommand second) ↔
        (origins options document).Pairwise Apart := by
    rw [areReports.pairwise_iff fun apart shares => apart shares.symm, List.pairwise_map]
  rw [onOrigins]
  constructor
  · intro apart owner isScope other alsoScope overreaches
    have different : owner ≠ other := by
      intro same
      subst same
      rcases of_mem_scopes isScope with ⟨⟨_, reached⟩, _⟩
      exact Search.not_overreaches_self document.coherent reached types overreaches
    have reportsApart := apart.forall (mem_origins_inScope.mpr isScope)
      (mem_origins_inScope.mpr alsoScope) fun same => different (Origin.inScope.inj same)
    apply reportsApart
    exact (shares_iff_overreaches small isScope alsoScope different types builder).mpr
      (Or.inl overreaches)
  · intro noneOverreaches
    refine (nodup_origins options document).pairwise_of_forall_ne ?_
    intro first isFirst second isSecond different shares
    cases first with
    | atSite site => cases shares.1
    | inScope owner =>
        cases second with
        | atSite site => cases shares.2.1
        | inScope other =>
            have isScope := mem_origins_inScope.mp isFirst
            have alsoScope := mem_origins_inScope.mp isSecond
            have notSame : owner ≠ other := fun same => different (congrArg Origin.inScope same)
            rcases (shares_iff_overreaches small isScope alsoScope notSame types builder).mp
                shares with overreaches | overreaches
            · exact noneOverreaches owner isScope other alsoScope overreaches
            · exact noneOverreaches other alsoScope owner isScope overreaches

theorem reports_apart_iff_at_nested_class :
    let source : SourceFile :=
      { path := "A.java"
        text := "class A{A(){r(()->new S());}class B{B(){r(()->new S());}}}" }
    let document := Java.Document.parse source.text
    IsRead Java.reader source document ∧ source.text.utf8ByteSize < UInt32.size ∧
      ∃ report, file Java.reader .default (TypeSet.ofList ["S"]) source = .ok (.ok report) ∧
        (report.value.reports.Pairwise (fun first second => ¬ first.SharesCommand second) ↔
          ∀ owner ∈ scopes .default document, ∀ other ∈ scopes .default document,
            ¬ Search.Overreaches (TypeSet.ofList ["S"]) owner other) := by
  intro source document
  have isRead : IsRead Java.reader source document := ⟨by decide +kernel, rfl⟩
  have small : source.text.utf8ByteSize < UInt32.size := by decide +kernel
  rcases reports_apart_iff .default (TypeSet.ofList ["S"]) isRead small with ⟨returns, apart⟩
  rcases returns.mpr (by decide +kernel) with ⟨report, isReport⟩
  exact ⟨isRead, small, report, isReport, apart report isReport⟩

/-- A class in a lambda of a constructor shares its command with the class around it. -/
theorem reports_not_apart_at_local_class :
    let source : SourceFile :=
      { path := "A.java"
        text := "class A{A(){r(()->{class B{B(){r(()->new S());}}});}}" }
    ∃ report, file Java.reader .default (TypeSet.ofList ["S"]) source = .ok (.ok report) ∧
      ¬ report.value.reports.Pairwise (fun first second => ¬ first.SharesCommand second) := by
  intro source
  have isRead : IsRead Java.reader source (Java.Document.parse source.text) :=
    ⟨by decide +kernel, rfl⟩
  have fits : FileFits .default (TypeSet.ofList ["S"]) source
      (Java.Document.parse source.text) := by
    decide +kernel
  have isReport := file_of_fits isRead fits
  refine ⟨_, isReport, ?_⟩
  rw [(perm_reports_of_isRead isRead isReport).pairwise_iff fun apart shares => apart shares.symm,
    List.pairwise_map]
  decide +kernel

end Scan
end CommandWiring
