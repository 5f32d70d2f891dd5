import CommandWiring.Proofs.Warnings
import CommandWiring.Proofs.WorkspaceScans

/-!
# What a scan accounts for

A scan reports on each source and on nothing else. A file without a text costs one warning.
-/

namespace CommandWiring
namespace Workspace

variable {parser : Java.Parser} {options : ScanOptions} {system : FileSystem} {root : String}
  {text? : Option String} {all : List SourceFile} {types : TypeSet} {source : SourceFile}

/-!
# The reports on sources
-/

/-- `report` is the report on `source`, which is of a supported language. -/
structure IsReportOn (parser : Java.Parser) (options : ScanOptions) (types : TypeSet)
    (source : SourceFile) (report : FileReport) : Prop where
  made : Scan.plainReport parser options types source = .ok report
  supported : Language.ofPath? source.path = some "java"
  language_iff : report.language = "java" ↔ Scan.IsAnalysed parser source

theorem isReportOn {report : FileReport}
    (made : Scan.plainReport parser options types source = .ok report)
    (supported : Language.ofPath? source.path = some "java") :
    IsReportOn parser options types source report := by
  refine ⟨made, supported, ?_⟩
  rcases Scan.plainReport_cases made with ⟨document, isRead, rfl⟩ | ⟨unread, rfl⟩
  · exact iff_of_true rfl ⟨document, isRead⟩
  · have noLanguage : ¬ "" = "java" := by decide
    exact iff_of_false noLanguage unread

theorem forall₂_isReportOn {scanned : Logged (List FileReport)}
    (areSupported : ∀ source ∈ all, Language.ofPath? source.path = some "java")
    (isFiles : Scan.files parser options types all = .ok scanned) :
    List.Forall₂ (IsReportOn parser options types) all scanned.value := by
  have areReports : all.mapM (Scan.plainReport parser options types) = .ok scanned.value := by
    rw [← Scan.map_value_files, isFiles]
    rfl
  have areMade := (List.forall₂_and_left _ _).mpr ⟨areSupported, mapM_eq_ok_iff.mp areReports⟩
  exact areMade.imp fun _ _ given => isReportOn given.2 given.1

/-!
# The warnings of a scan
-/

/-- If the warning is about a file as a whole, this is one of the sources, and it is not analysed.
-/
def IsAboutUnread (parser : Java.Parser) (sources : List SourceFile) (warning : Warning) : Prop :=
  ∀ path, warning.path? = some path ->
    ∃ source ∈ sources, source.path = path ∧ ¬ Scan.IsAnalysed parser source

theorem isAboutUnread_commandTypes {warning : Warning}
    (member : warning ∈ (Scan.commandTypes parser options all).warnings) :
    IsAboutUnread parser all warning := by
  change warning ∈ (all.map (Scan.declaredTypes parser)).flatMap Logged.warnings ++ [] at member
  rw [List.append_nil, List.flatMap_map] at member
  rcases List.mem_flatMap.mp member with ⟨source, isSource, given⟩
  rw [Scan.declaredTypes, Scan.parseFile] at given
  cases parsed : parser.parse source.text with
  | ok document =>
      rw [parsed] at given
      cases given
  | error failure =>
      rw [parsed] at given
      rcases List.mem_singleton.mp given with rfl
      rintro path ⟨⟩
      refine ⟨source, isSource, rfl, ?_⟩
      rintro ⟨document, isRead⟩
      cases parsed.symm.trans isRead.parsed

theorem isAboutUnread_files {scanned : Logged (List FileReport)} {warning : Warning}
    (isFiles : Scan.files parser options types all = .ok scanned)
    (member : warning ∈ scanned.warnings) : IsAboutUnread parser all warning := by
  rcases Logged.tryEach_eq_ok_iff.mp isFiles with ⟨results, areResults, rfl⟩
  rcases List.mem_flatMap.mp member with ⟨result, isResult, given⟩
  rcases exists_step_of_mem areResults isResult with ⟨source, isSource, made⟩
  rcases Scan.fileOrEmpty_cases made with ⟨document, isRead, _, rfl⟩ | ⟨unread, cause, rfl⟩
  · have ofDocument : warning ∈ (Scan.unboundedReports options types
        (ReportBuilder.forFile source.path source.text options.context) document).warnings :=
      given
    intro path isPath
    rw [Scan.path?_of_mem_warnings ofDocument] at isPath
    cases isPath
  · rcases List.mem_singleton.mp given with rfl
    rintro path ⟨⟩
    exact ⟨source, isSource, rfl, unread⟩

section

variable {warnings : List Warning}
  (areUnread : ∀ warning ∈ warnings, IsAboutUnread parser all warning)
include areUnread

theorem filter_path_eq_nil {path : String} (elsewhere : ∀ source ∈ all, source.path ≠ path) :
    (warnings.filter fun warning => warning.path? = some path) = [] := by
  rw [List.filter_eq_nil_iff]
  intro warning member isAbout
  rcases areUnread warning member path (of_decide_eq_true isAbout) with ⟨source, isSource, same, _⟩
  exact elsewhere source isSource same

theorem filter_isSome_eq_nil (areAnalysed : ∀ source ∈ all, Scan.IsAnalysed parser source) :
    (warnings.filter fun warning => warning.path?.isSome) = [] := by
  rw [List.filter_eq_nil_iff]
  intro warning member isSome
  rcases Option.isSome_iff_exists.mp isSome with ⟨path, isPath⟩
  rcases areUnread warning member path isPath with ⟨source, isSource, _, unread⟩
  exact unread (areAnalysed source isSource)

end

/-!
# What a scan accounts for
-/

/-- The result covers the files below `root`: each of the `sources` has its report, and there is one
warning for each of the `passed`, which hold no text. -/
structure Accounts (parser : Java.Parser) (options : ScanOptions) (system : FileSystem)
    (root : String) (patterns : List String) (result : Logged Result) (sources : List SourceFile)
    (passed : List Listed) : Prop where
  areSources : AreSources system root patterns sources
  reported : List.Forall₂ (IsReportOn parser options result.value.types) sources
    result.value.reports
  areTextless : ∀ listed, listed ∈ passed ↔ IsTextless system root patterns listed
  passedOnce : (passed.map Listed.path).Nodup
  apart : ∀ source ∈ sources, ∀ listed ∈ passed, source.path ≠ listed.path
  warnedOnce : ∀ listed ∈ passed,
    (result.warnings.filter fun warning => warning.path? = some listed.path) = [passedOver listed]
  /-- These are all the warnings about files as a whole. -/
  warned : (∀ source ∈ sources, Scan.IsAnalysed parser source) ->
    (result.warnings.filter fun warning => warning.path?.isSome) = passed.map passedOver
  files : result.value.summary.files = result.value.reports.length
  sites : result.value.summary.sites =
    result.value.summary.commands + result.value.summary.unresolved

theorem sites_ofReports (reports : List FileReport) :
    (Summary.ofReports reports).sites =
      (Summary.ofReports reports).commands + (Summary.ofReports reports).unresolved := by
  change (reports.flatMap FileReport.reports).length =
    (reports.flatMap FileReport.found).length + (reports.flatMap FileReport.notFound).length
  induction reports with
  | nil => rfl
  | cons report rest ih =>
      have split : report.reports.length = report.found.length + report.notFound.length := by
        rw [List.length_eq_length_filter_add fun site : SiteReport => site.command?.isSome,
          FileReport.notFound]
        simp only [Option.not_isSome]
        rfl
      simp only [List.flatMap_cons, List.length_append, ih, split]
      omega

theorem filter_passedOver {passed : List Listed} {listed : Listed}
    (once : (passed.map Listed.path).Nodup) (member : listed ∈ passed) :
    ((passed.map passedOver).filter fun warning => warning.path? = some listed.path) =
      [passedOver listed] := by
  have only : (passed.filter fun other => (passedOver other).path? = some listed.path).Perm
      [listed] := by
    rw [List.perm_ext_iff_of_nodup (once.of_map.filter _) (List.nodup_singleton _)]
    intro other
    rw [List.mem_filter, List.mem_singleton, decide_eq_true_iff]
    constructor
    · rintro ⟨isPassed, same⟩
      exact List.inj_on_of_nodup_map once isPassed member (Option.some.inj same)
    · rintro rfl
      exact ⟨member, rfl⟩
  rw [List.filter_map]
  exact congrArg (List.map passedOver) (List.perm_singleton.mp only)

theorem filter_isSome_passedOver (passed : List Listed) :
    ((passed.map passedOver).filter fun warning => warning.path?.isSome) =
      passed.map passedOver := by
  rw [List.filter_eq_self]
  intro warning member
  rcases List.mem_map.mp member with ⟨listed, _, rfl⟩
  rfl

theorem accounts_of_scan (hasText : HasIgnoreText system root text?) {result : Logged Result}
    (isScan : scan parser options system (.ofText root) = .ok (.ok result)) :
    ∃ sources passed,
      Accounts parser options system root (patternsOf text?) result sources passed := by
  let all := ordered (sources (patternsOf text?) (listing system root))
  let passed := textless (patternsOf text?) (listing system root)
  have areSources : AreSources system root (patternsOf text?) all := areSources_ordered _ _ _
  have passedOnce : (passed.map Listed.path).Nodup := nodup_textless _ _ _
  have apart : ∀ source ∈ all, ∀ listed ∈ passed, source.path ≠ listed.path :=
    fun source isSource listed isPassed =>
      path_ne_of_isTextless ((areSources.mem_iff source).mp isSource) (mem_textless.mp isPassed)
  rcases value_of_scan hasText areSources isScan with ⟨scanned, isFiles, rfl⟩
  let others := (Scan.commandTypes parser options all).warnings ++ scanned.warnings
  have areUnread : ∀ warning ∈ others, IsAboutUnread parser all warning := by
    intro warning member
    rcases List.mem_append.mp member with ofTypes | ofFiles
    · exact isAboutUnread_commandTypes ofTypes
    · exact isAboutUnread_files isFiles ofFiles
  refine ⟨all, passed, ?_⟩
  exact {
    areSources := areSources
    reported := forall₂_isReportOn
      (fun source member => ((areSources.mem_iff source).mp member).ofPath?) isFiles
    areTextless := fun _ => mem_textless
    passedOnce := passedOnce
    apart := apart
    warnedOnce := by
      intro listed member
      change ((passed.map passedOver ++ others).filter _) = _
      rw [List.filter_append, filter_passedOver passedOnce member,
        filter_path_eq_nil areUnread fun source isSource => apart source isSource listed member,
        List.append_nil]
    warned := by
      intro areAnalysed
      change ((passed.map passedOver ++ others).filter _) = _
      rw [List.filter_append, filter_isSome_passedOver,
        filter_isSome_eq_nil areUnread areAnalysed, List.append_nil]
    files := rfl
    sites := sites_ofReports scanned.value }

/-- A scan stops at one of the sources below `root`. -/
def StopsBelow (parser : Java.Parser) (options : ScanOptions) (system : FileSystem)
    (root : String) : Prop :=
  ∃ text? sources, HasIgnoreText system root text? ∧
    AreSources system root (patternsOf text?) sources ∧ Stops parser options sources

theorem stopsBelow_iff (hasText : HasIgnoreText system root text?)
    (areSources : AreSources system root (patternsOf text?) all) :
    StopsBelow parser options system root ↔ Stops parser options all := by
  constructor
  · rintro ⟨other?, others, otherText, areOthers, stops⟩
    rw [patternsOf_unique otherText hasText] at areOthers
    rwa [areSources.unique areOthers]
  · intro stops
    exact ⟨text?, all, hasText, areSources, stops⟩

/-- When a scan fails, stops and returns, and what it returns. -/
structure SurvivesTextless (parser : Java.Parser) (options : ScanOptions) (system : FileSystem)
    (root : String) : Prop where
  fails : ∀ error, scan parser options system (.ofText root) = .ok (.error error) ↔
    (IgnoreFileIsUnreadable system root ∧
        error = .unreadable { path := ignorePath root }) ∨
      (¬ IgnoreFileIsUnreadable system root ∧ HidesJava system root ∧
        error = .relative .invalidName)
  /-- No file is hidden where all names are texts. -/
  visible : (∀ entry ∈ system.entries, ∀ name ∈ entry.1, name.text?.isSome = true) ->
    ¬ HidesJava system root
  stops : scan parser options system (.ofText root) = .error .overflow ↔
    ¬ IgnoreFileIsUnreadable system root ∧ ¬ HidesJava system root ∧
      StopsBelow parser options system root
  returns : (∃ result, scan parser options system (.ofText root) = .ok (.ok result)) ↔
    ¬ IgnoreFileIsUnreadable system root ∧ ¬ HidesJava system root ∧
      ¬ StopsBelow parser options system root
  accounts : ∀ result, scan parser options system (.ofText root) = .ok (.ok result) ->
    ∃ text? sources passed, HasIgnoreText system root text? ∧
      Accounts parser options system root (patternsOf text?) result sources passed

/-- A file without a text costs one warning, and every source has its report all the same, unless
the scan fails on an ignore file that cannot be read or on a hidden file, or stops at a source. -/
theorem scan_survives_textless_files (parser : Java.Parser) (options : ScanOptions)
    (system : FileSystem) (root : String) : SurvivesTextless parser options system root := by
  by_cases unreadable : IgnoreFileIsUnreadable system root
  · have isScan := scan_of_unreadable parser options unreadable
    constructor
    case visible => exact not_hidesJava_of_texts
    all_goals simp [isScan, unreadable, eq_comm]
  · rcases exists_hasIgnoreText unreadable with ⟨text?, hasText⟩
    have areSources := areSources_ordered (patternsOf text?) system root
    have concluded := concludes parser options hasText areSources
    have stopsAll : StopsBelow parser options system root ↔ _ := stopsBelow_iff hasText areSources
    exact {
      fails := by
        intro error
        rw [concluded.fails]
        simp [unreadable]
      visible := not_hidesJava_of_texts
      stops := by
        rw [concluded.stops, stopsAll]
        simp [unreadable]
      returns := by
        rw [concluded.returns, stopsAll]
        simp [unreadable]
      accounts := by
        intro result isScan
        rcases accounts_of_scan hasText isScan with ⟨sources, passed, accounts⟩
        exact ⟨text?, sources, passed, hasText, accounts⟩ }

theorem scan_survives_textless_files_crowded :
    ∃ result, scan Java.reader .default crowded (.ofText "/w[1]") = .ok (.ok result) ∧
      result.value.reports.length = 1 ∧
      (result.warnings.filter fun warning => warning.path?.isSome) =
        [passedOver { path := "C.java", shown := "/w[1]/C.java", text? := none }] := by
  let textlessFile : Listed := { path := "C.java", shown := "/w[1]/C.java", text? := none }
  have hasText : HasIgnoreText crowded "/w[1]" (some "gen/") := by decide +kernel
  have survives := scan_survives_textless_files Java.reader .default crowded "/w[1]"
  have runs : ¬ StopsBelow Java.reader .default crowded "/w[1]" :=
    (stopsBelow_iff hasText areSources_crowded).not.mpr not_stops_classA
  rcases survives.returns.mpr ⟨not_unreadable_of_hasIgnoreText hasText,
    survives.visible (by decide), runs⟩ with ⟨result, isScan⟩
  rcases survives.accounts result isScan with ⟨text?, all, passed, alsoHasText, accounts⟩
  rw [patternsOf_unique alsoHasText hasText] at accounts
  rcases accounts.areSources.unique areSources_crowded with rfl
  have isPassed : textless (patternsOf (some "gen/"))
      (listedBelow crowded "/w[1]" [.plain "w[1]" (by decide)]) = [textlessFile] := by
    decide +kernel
  have arePassed : passed.Perm [textlessFile] := by
    rw [List.perm_ext_iff_of_nodup accounts.passedOnce.of_map (List.nodup_singleton _), ← isPassed]
    exact fun listed =>
      (accounts.areTextless listed).trans (isTextless_iff_of_resolve? crowded_base)
  have analysed : ∀ source ∈ [classA], Scan.IsAnalysed Java.reader source :=
    List.forall_mem_singleton.mpr ⟨.parse "class A{}", by decide +kernel, rfl⟩
  refine ⟨result, isScan, accounts.reported.length_eq.symm, ?_⟩
  rw [accounts.warned analysed, List.perm_singleton.mp arePassed]
  rfl

/-- A workspace with a command that is not on the first line. -/
def brimming : FileSystem where
  entries :=
    [([.plain "w" (by decide), .plain "S.java" (by decide)],
      .file "class S extends Command\x7b\nvoid f()\x7baBinder(()->new S());\x7d\x7d".toUTF8)]
  once := by decide
  solid := by decide

theorem scan_stops_at_largest_window :
    ¬ ∀ (options : ScanOptions) (system : FileSystem) (root : String),
      (∀ entry ∈ system.entries, ∀ name ∈ entry.1, name.text?.isSome = true) ->
        ¬ IgnoreFileIsUnreadable system root ->
          ∃ result, scan Java.reader options system (.ofText root) = .ok (.ok result) := by
  intro survive
  let options : ScanOptions :=
    { ScanOptions.default with context := { linesAfter := wordSize - 1 } }
  let source : SourceFile :=
    { path := "S.java"
      text := "class S extends Command\x7b\nvoid f()\x7baBinder(()->new S());\x7d\x7d" }
  have hasText : HasIgnoreText brimming "/w" none := by decide +kernel
  have isBase : brimming.resolve? (.ofText ("/w" ++ "/")) = some [.plain "w" (by decide)] := by
    decide +kernel
  have areSources : AreSources brimming "/w" (patternsOf none) [source] := {
    mem_iff := by
      intro other
      have only : sources (patternsOf none)
          (listedBelow brimming "/w" [.plain "w" (by decide)]) = [source] := by
        decide +kernel
      rw [isSource_iff_of_resolve? isBase, only]
    ascending := List.pairwise_singleton _ _ }
  have stops : Stops Java.reader options [source] := by decide +kernel
  have visible : ¬ HidesJava brimming "/w" := not_hidesJava_of_texts (by decide)
  rcases survive options brimming "/w" (by decide)
    (not_unreadable_of_hasIgnoreText hasText) with ⟨result, isScan⟩
  rw [scan_eq_overflow hasText visible areSources stops] at isScan
  cases isScan

end Workspace
end CommandWiring
