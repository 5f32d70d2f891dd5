import CommandWiring.Java.Reader
import CommandWiring.Proofs.Outcomes
import CommandWiring.Proofs.Reports

/-!
# Well-formed reports

A report has a command or a reason why there is none, and the kind and the name of its site tell
which of them it can have. The chain of a binder site was followed when the site was found, so the
search from a site ends at the same last call, and it never fails on the chain.
-/

namespace CommandWiring

open SyntaxNode

/-!
# Reasons
-/

namespace MissReason

def plain : List MissReason :=
  [malformedChain, noSupplierArgument, unrecognizedSupplierKind, noCommandConstructor,
    noEnclosingMethod, variableNotResolved, methodReferenceNotCommand, noBlockInAnonymousBinder,
    noConstructorLambda]

theorem mem_plain_or_ambiguous (reason : MissReason) :
    reason ∈ plain ∨ ∃ count, reason = ambiguousConstructorLambda count := by
  cases reason with
  | ambiguousConstructorLambda count => exact Or.inr ⟨count, rfl⟩
  | _ => exact Or.inl (by decide)

theorem message_ne_of_mem_plain {reason : MissReason} (isPlain : reason ∈ plain) (count : Nat) :
    reason.message ≠ (ambiguousConstructorLambda count).message := by
  intro same
  have others : ∀ other ∈ plain, other.message.toList.head? ≠ some 'a' := by
    decide +kernel
  have begins : "ambiguous command in constructors (".toList.head? = some 'a' := by
    decide +kernel
  apply others reason isPlain
  rw [same]
  change (_ ++ toString count ++ _ : String).toList.head? = _
  rw [String.toList_append, String.toList_append, List.append_assoc, List.head?_append, begins,
    Option.some_or]

theorem message_injective {first second : MissReason} (same : first.message = second.message) :
    first = second := by
  have onPlain : ∀ one ∈ plain, ∀ other ∈ plain, one.message = other.message -> one = other := by
    decide +kernel
  rcases first.mem_plain_or_ambiguous with isPlain | ⟨count, rfl⟩
  · rcases second.mem_plain_or_ambiguous with otherPlain | ⟨other, rfl⟩
    · exact onPlain first isPlain second otherPlain same
    · exact absurd same (message_ne_of_mem_plain isPlain other)
  · rcases second.mem_plain_or_ambiguous with otherPlain | ⟨other, rfl⟩
    · exact absurd same.symm (message_ne_of_mem_plain otherPlain count)
    · have numerals : toString count = toString other :=
        (String.append_right_inj _).mp ((String.append_left_inj _).mp same)
      exact congrArg ambiguousConstructorLambda (eq_of_toString_eq numerals)

def ofSuppliers : List MissReason :=
  [noSupplierArgument, unrecognizedSupplierKind, noCommandConstructor, noEnclosingMethod,
    variableNotResolved, methodReferenceNotCommand]

def OfConstructors (reason : MissReason) : Prop :=
  reason = noConstructorLambda ∨ reason = noCommandConstructor ∨
    ∃ count ≥ 2, reason = ambiguousConstructorLambda count

end MissReason

/-!
# Limits of an outcome
-/

namespace Outcome

variable {N : Type}

/-- The outcome is a command of one of `kinds`, or a miss for one of `reasons`. -/
def Within (kinds : List MatchKind) (reasons : MissReason -> Prop) (outcome : Outcome N) : Prop :=
  (∃ kind ∈ kinds, outcome.matchKind? = some kind) ∨
    ∃ reason, reasons reason ∧ outcome = .missed reason

theorem Within.mono {kinds more : List MatchKind} {reasons others : MissReason -> Prop}
    {outcome : Outcome N} (within : outcome.Within kinds reasons) (subset : kinds ⊆ more)
    (implies : ∀ reason, reasons reason -> others reason) : outcome.Within more others := by
  rcases within with ⟨kind, isKind, found⟩ | ⟨reason, isReason, missed⟩
  · exact Or.inl ⟨kind, subset isKind, found⟩
  · exact Or.inr ⟨reason, implies reason isReason, missed⟩

theorem within_found {kinds : List MatchKind} {reasons : MissReason -> Prop} {outcome : Outcome N}
    {kind : MatchKind} (found : outcome.matchKind? = some kind) (isKind : kind ∈ kinds) :
    outcome.Within kinds reasons :=
  Or.inl ⟨kind, isKind, found⟩

theorem within_missed {kinds : List MatchKind} {reasons : MissReason -> Prop} {reason : MissReason}
    (isReason : reasons reason) : (missed reason : Outcome N).Within kinds reasons :=
  Or.inr ⟨reason, isReason, rfl⟩

end Outcome

namespace Search

section

variable {N : Type} [SyntaxNode N] {types : TypeSet} {outcome : Outcome N}

theorem LambdaYields.within {lambda : N} (yields : LambdaYields types lambda outcome) :
    outcome.Within [.constructorCall] (· = .noCommandConstructor) := by
  cases yields with
  | command _ => exact Outcome.within_found rfl (by decide)
  | noCommand _ => exact Outcome.within_missed rfl

theorem VariableYields.within {reference : N} (yields : VariableYields types reference outcome) :
    outcome.Within [.constructorCall] (· ∈ MissReason.ofSuppliers) := by
  cases yields with
  | outside _ => exact Outcome.within_missed (by decide)
  | unresolved _ _ => exact Outcome.within_missed (by decide)
  | resolved _ _ yields =>
      apply yields.within.mono (List.Subset.refl _)
      rintro _ rfl
      decide

theorem SupplierYields.within {supplier : N} (yields : SupplierYields types supplier outcome) :
    outcome.Within [.constructorCall, .methodReference] (· ∈ MissReason.ofSuppliers) := by
  cases yields with
  | ofLambda _ yields =>
      apply yields.within.mono (by decide)
      rintro _ rfl
      decide
  | ofVariable _ yields => exact yields.within.mono (by decide) fun _ isReason => isReason
  | ofReference _ _ => exact Outcome.within_found rfl (by decide)
  | noCommand _ _ => exact Outcome.within_missed (by decide)
  | unsupported _ _ _ => exact Outcome.within_missed (by decide)

theorem AnonymousYields.within {invocation : N} (yields : AnonymousYields invocation outcome) :
    outcome.Within [.block] (· = .noBlockInAnonymousBinder) := by
  cases yields with
  | block _ _ => exact Outcome.within_found rfl (by decide)
  | noLambda _ => exact Outcome.within_missed rfl
  | noBlock _ _ => exact Outcome.within_missed rfl

theorem within_inClass [DecidableEq N] (types : TypeSet) (owner : N) :
    (inClass types owner).value.Within [.constructorCall] MissReason.OfConstructors := by
  rw [inClass]
  cases candidates types owner with
  | nil => exact Outcome.within_missed (Or.inl rfl)
  | cons lambda rest =>
      cases rest with
      | nil =>
          have yields := value_inLambda_eq_iff.mp (rfl : (inLambda types lambda).value = _)
          exact yields.within.mono (List.Subset.refl _) fun _ same => Or.inr (Or.inl same)
      | cons second more =>
          exact Outcome.within_missed (Or.inr (Or.inr ⟨_, Nat.le_add_left 2 more.length, rfl⟩))

end

end Search

/-!
# Sites
-/

namespace Scan

open Search

variable {document : Java.Document} {options : ScanOptions} {site : BinderSite document.Node}

theorem endsAt_of_mem_sites (member : site ∈ sites options document) :
    EndsAt site.invocation site.binder ∧ name? site.binder = some site.binderName := by
  rw [sites, BinderSite.value_inDocument] at member
  rcases List.mem_filterMap.mp member with ⟨start, _, isSite⟩
  rcases BinderSite.value_atInvocation?.mp isSite with ⟨rfl, unwinds, name, named, _⟩
  refine ⟨endsAt_iff.mpr (Option.map_eq_some_iff.mp unwinds), ?_⟩
  rw [BinderSite.binderName, named]
  rfl

theorem within_of_anonymous (types : TypeSet) (member : site ∈ sites options document)
    (isAnonymous : site.binderName = anonymousBinder) :
    (inInvocation types site.invocation).value.Within [.block] (· = .noBlockInAnonymousBinder) := by
  rcases endsAt_of_mem_sites member with ⟨ends, named⟩
  rw [isAnonymous] at named
  have yields := (value_inInvocation_eq_iff types site.invocation _).mp rfl
  exact ((yields_iff_of_anonymous ends named).mp yields).within

theorem within_of_not_anonymous (types : TypeSet) (member : site ∈ sites options document)
    (notAnonymous : site.binderName ≠ anonymousBinder) :
    (inInvocation types site.invocation).value.Within [.constructorCall, .methodReference]
      (· ∈ MissReason.ofSuppliers) := by
  rcases endsAt_of_mem_sites member with ⟨ends, named⟩
  have yields := (value_inInvocation_eq_iff types site.invocation _).mp rfl
  generalize (inInvocation types site.invocation).value = outcome at yields ⊢
  cases yields with
  | tooDeep follows => exact absurd follows ends.not_tooDeep
  | anonymous alsoEnds isAnonymous _ =>
      rcases ends.unique alsoEnds with rfl
      rw [named] at isAnonymous
      exact absurd (Option.some.inj isAnonymous) notAnonymous
  | noSupplier _ _ _ => exact Outcome.within_missed (by decide)
  | supplied _ _ _ yields => exact yields.within

end Scan

/-!
# Reports
-/

namespace SiteReport

/-- The report has a command of one of `kinds`, or the message of one of `reasons`. -/
def Within (kinds : List MatchKind) (reasons : MissReason -> Prop) (report : SiteReport) : Prop :=
  (∃ command, report.command? = some command ∧ command.kind ∈ kinds) ∨
    ∃ reason, reasons reason ∧ report.reason? = some reason.message

structure WellFormed (filePath : String) (report : SiteReport) : Prop where
  inFile : report.filePath = filePath
  /-- A report has a reason exactly if it has no command. -/
  exclusive : report.command?.isSome = report.reason?.isNone
  followed : report.reason? ≠ some MissReason.malformedChain.message
  atAnonymous : report.siteKind = .binder -> report.siteName = Search.anonymousBinder ->
    report.Within [.block] (· = .noBlockInAnonymousBinder)
  atBinder : report.siteKind = .binder -> report.siteName ≠ Search.anonymousBinder ->
    report.Within [.constructorCall, .methodReference] (· ∈ MissReason.ofSuppliers)
  inScope : report.siteKind = .constructorScope ->
    report.Within [.constructorCall] MissReason.OfConstructors

end SiteReport

namespace Origin

variable {document : Java.Document} {types : TypeSet} {builder : ReportBuilder}
  {origin : Origin document} {kinds : List MatchKind} {reasons : MissReason -> Prop}

theorem map_kind_command?_report (origin : Origin document) (types : TypeSet)
    (builder : ReportBuilder) :
    (origin.report types builder).command?.map FoundCommand.kind =
      (origin.outcome types).matchKind? := by
  change (builder.unboundedCommand? (origin.outcome types)).map FoundCommand.kind = _
  cases origin.outcome types with
  | missed reason => rfl
  | _ => rfl

theorem exclusive_report :
    (origin.report types builder).command?.isSome =
      (origin.report types builder).reason?.isNone := by
  change (builder.unboundedCommand? (origin.outcome types)).isSome =
    ((origin.outcome types).reason?.map MissReason.message).isNone
  cases origin.outcome types with
  | missed reason => rfl
  | _ => rfl

theorem within_report (within : (origin.outcome types).Within kinds reasons) :
    (origin.report types builder).Within kinds reasons := by
  rcases within with ⟨kind, isKind, found⟩ | ⟨reason, isReason, missed⟩
  · rw [← map_kind_command?_report origin types builder] at found
    rcases Option.map_eq_some_iff.mp found with ⟨command, isCommand, rfl⟩
    exact Or.inl ⟨command, isCommand, isKind⟩
  · refine Or.inr ⟨reason, isReason, ?_⟩
    change (origin.outcome types).reason?.map MissReason.message = _
    rw [missed]
    rfl

theorem reason?_report_ne (within : (origin.outcome types).Within kinds reasons)
    {reason : MissReason} (excluded : ¬ reasons reason) :
    (origin.report types builder).reason? ≠ some reason.message := by
  intro given
  rcases Option.map_eq_some_iff.mp given with ⟨other, isOther, same⟩
  rcases MissReason.message_injective same with rfl
  rcases within with ⟨kind, _, found⟩ | ⟨reason, isReason, missed⟩
  · cases isOutcome : origin.outcome types with
    | missed reason =>
        rw [isOutcome] at found
        cases found
    | _ =>
        rw [isOutcome] at isOther
        cases isOther
  · rw [missed] at isOther
    rcases Option.some.inj isOther with rfl
    exact excluded isReason

end Origin

namespace Scan

variable {document : Java.Document} {options : ScanOptions}

theorem wellFormed_report (types : TypeSet) (builder : ReportBuilder) {origin : Origin document}
    (member : origin ∈ origins options document) :
    (origin.report types builder).WellFormed builder.filePath := by
  cases origin with
  | inScope owner =>
      have within : ((Origin.inScope owner).outcome types).Within _ _ :=
        Search.within_inClass types owner
      exact {
        inFile := rfl
        exclusive := Origin.exclusive_report
        followed := Origin.reason?_report_ne within (by simp [MissReason.OfConstructors])
        atAnonymous := nofun
        atBinder := nofun
        inScope := fun _ => Origin.within_report within }
  | atSite site =>
      have isSite := mem_origins_atSite.mp member
      by_cases isAnonymous : site.binderName = Search.anonymousBinder
      · have within : ((Origin.atSite site).outcome types).Within _ _ :=
          within_of_anonymous types isSite isAnonymous
        exact {
          inFile := rfl
          exclusive := Origin.exclusive_report
          followed := Origin.reason?_report_ne within (by decide)
          atAnonymous := fun _ _ => Origin.within_report within
          atBinder := fun _ notAnonymous => absurd isAnonymous notAnonymous
          inScope := nofun }
      · have within : ((Origin.atSite site).outcome types).Within _ _ :=
          within_of_not_anonymous types isSite isAnonymous
        exact {
          inFile := rfl
          exclusive := Origin.exclusive_report
          followed := Origin.reason?_report_ne within (by decide)
          atAnonymous := fun _ anonymous => absurd anonymous isAnonymous
          atBinder := fun _ _ => Origin.within_report within
          inScope := nofun }

/-- There is a report on a file exactly if the file is read and the contexts of all that is found
fit. Every report in it is well-formed: it is in the file, it has either a command or a reason, and
the command is of a kind, or the reason is one, that its site can have. -/
theorem reports_wellFormed (parser : Java.Parser) (options : ScanOptions) (types : TypeSet)
    (source : SourceFile) :
    ((∃ report, file parser options types source = .ok (.ok report)) ↔
        ∃ document, IsRead parser source document ∧ FileFits options types source document) ∧
      ∀ report, file parser options types source = .ok (.ok report) ->
        ∀ site ∈ report.value.reports, site.WellFormed report.value.filePath := by
  constructor
  · constructor
    · rintro ⟨report, isReport⟩
      rcases file_eq_ok_iff.mp isReport with ⟨document, isRead, fits, _⟩
      exact ⟨document, isRead, fits⟩
    · rintro ⟨document, isRead, fits⟩
      exact (exists_file_iff isRead).mpr fits
  · intro report isReport site member
    rcases file_eq_ok_iff.mp isReport with ⟨document, isRead, _, rfl⟩
    have areReports := perm_reports_of_isRead isRead isReport
    rcases List.mem_map.mp (areReports.mem_iff.mp member) with ⟨origin, isOrigin, rfl⟩
    let builder := ReportBuilder.forFile source.path source.text options.context
    exact wellFormed_report types builder isOrigin

theorem reports_wellFormed_block_and_two_lambdas :
    let types := TypeSet.ofList ["S"]
    let source : SourceFile :=
      { path := "p\\A.java"
        text := "class A{{anonCmdBinder(()->{});}}class B{B(){f(()->new S(),()->new S());}}" }
    let document := Java.Document.parse source.text
    IsRead Java.reader source document ∧
      ∃ report, file Java.reader .default types source = .ok (.ok report) ∧
        report.value.reports.length = 2 ∧
        ∀ site ∈ report.value.reports, site.WellFormed report.value.filePath := by
  intro types source document
  have isRead : IsRead Java.reader source document := ⟨by decide +kernel, rfl⟩
  rcases reports_wellFormed Java.reader .default types source with ⟨returns, wellFormed⟩
  rcases returns.mpr ⟨document, isRead, by decide +kernel⟩ with ⟨report, isReport⟩
  refine ⟨isRead, report, isReport, ?_, wellFormed report isReport⟩
  rw [(perm_reports_of_isRead isRead isReport).length_eq, List.length_map]
  decide +kernel

end Scan
end CommandWiring
