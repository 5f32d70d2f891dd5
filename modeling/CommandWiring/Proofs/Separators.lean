import CommandWiring.Java.Reader
import CommandWiring.Proofs.FileReports
import CommandWiring.Proofs.Paths

/-!
# Separators of paths

A report on a file that is analysed has the path of the file with slashes for backslashes, and
nothing else in it depends on the path. But the language of the file is told by the path as it was
given, and the empty report on any other file has this path as well.
-/

namespace CommandWiring

open Scan (IsAnalysed IsRead FileFits StopsAt unboundedFile)

namespace SourceFile

/-- The same text at the path with slashes for backslashes. -/
def slashed (source : SourceFile) : SourceFile :=
  { source with path := Path.slashed source.path }

/-- The path has no backslash, or the file is analysed before and after its backslashes become
slashes. -/
def IsSeparatorBlind (parser : Java.Parser) (source : SourceFile) : Prop :=
  '\\' ∉ source.path.toList ∨ (IsAnalysed parser source ∧ IsAnalysed parser source.slashed)

theorem slashed_eq_self_iff {source : SourceFile} :
    source.slashed = source ↔ '\\' ∉ source.path.toList := by
  rw [← Path.slashed_eq_self_iff]
  constructor
  · exact congrArg SourceFile.path
  · intro same
    rw [slashed, same]

end SourceFile

namespace Scan

variable {parser : Java.Parser} {options : ScanOptions} {types : TypeSet} {source : SourceFile}
  {document : Java.Document}

/-!
# The report on a file
-/

theorem forFile_slashed (path content : String) (context : ContextOptions) :
    ReportBuilder.forFile (Path.slashed path) content context =
      ReportBuilder.forFile path content context := by
  rw [ReportBuilder.forFile, Path.slashed_slashed]
  rfl

theorem unboundedFile_slashed (options : ScanOptions) (types : TypeSet) (source : SourceFile)
    (document : Java.Document) :
    unboundedFile options types source.slashed document =
      unboundedFile options types source document := by
  simp only [unboundedFile, SourceFile.slashed, forFile_slashed, Path.slashed_slashed]

theorem fileFits_slashed_iff :
    FileFits options types source.slashed document ↔ FileFits options types source document := by
  simp only [FileFits, SourceFile.slashed, forFile_slashed]

theorem plainReport_slashed (options : ScanOptions) (types : TypeSet)
    (analysed : IsAnalysed parser source) (alsoAnalysed : IsAnalysed parser source.slashed) :
    plainReport parser options types source = plainReport parser options types source.slashed := by
  rcases analysed with ⟨document, isRead⟩
  rcases alsoAnalysed with ⟨other, alsoRead⟩
  have same : document = other := Except.ok.inj (isRead.parsed.symm.trans alsoRead.parsed)
  rw [← same] at alsoRead
  by_cases fits : FileFits options types source document
  · rw [plainReport_of_fits isRead fits,
      plainReport_of_fits alsoRead (fileFits_slashed_iff.mpr fits), unboundedFile_slashed]
  · rw [plainReport_of_not_fits isRead fits,
      plainReport_of_not_fits alsoRead (fits ∘ fileFits_slashed_iff.mp)]

theorem plainReport_ne_empty (analysed : IsAnalysed parser source) (path : String) :
    plainReport parser options types source ≠ .ok (.empty path) := by
  intro isEmpty
  rcases plainReport_cases isEmpty with ⟨document, _, same⟩ | ⟨unread, _⟩
  · have sameLanguage : "" = "java" := congrArg FileReport.language same
    exact absurd sameLanguage (by decide)
  · exact unread analysed

theorem plainReport_slashed_iff (parser : Java.Parser) (options : ScanOptions) (types : TypeSet)
    (source : SourceFile) :
    plainReport parser options types source = plainReport parser options types source.slashed ↔
      source.IsSeparatorBlind parser := by
  by_cases analysed : IsAnalysed parser source
  · by_cases alsoAnalysed : IsAnalysed parser source.slashed
    · exact iff_of_true (plainReport_slashed options types analysed alsoAnalysed)
        (.inr ⟨analysed, alsoAnalysed⟩)
    · rw [plainReport_of_not_analysed options types alsoAnalysed]
      refine iff_of_false (plainReport_ne_empty analysed _) ?_
      rintro (noBackslash | ⟨_, isAnalysed⟩)
      · rw [SourceFile.slashed_eq_self_iff.mpr noBackslash] at alsoAnalysed
        exact alsoAnalysed analysed
      · exact alsoAnalysed isAnalysed
  · rw [plainReport_of_not_analysed options types analysed]
    by_cases alsoAnalysed : IsAnalysed parser source.slashed
    · refine iff_of_false (plainReport_ne_empty alsoAnalysed _).symm ?_
      rintro (noBackslash | ⟨isAnalysed, _⟩)
      · rw [SourceFile.slashed_eq_self_iff.mpr noBackslash] at alsoAnalysed
        exact analysed alsoAnalysed
      · exact analysed isAnalysed
    · rw [plainReport_of_not_analysed options types alsoAnalysed]
      constructor
      · intro same
        have samePath : source.path = Path.slashed source.path :=
          congrArg FileReport.filePath (Except.ok.inj same)
        exact .inl (Path.slashed_eq_self_iff.mp samePath.symm)
      · rintro (noBackslash | ⟨isAnalysed, _⟩)
        · rw [SourceFile.slashed_eq_self_iff.mpr noBackslash]
        · exact absurd isAnalysed analysed

theorem backslash_notMem_filePath_iff {report : FileReport}
    (isReport : plainReport parser options types source = .ok report) :
    '\\' ∉ report.filePath.toList ↔
      '\\' ∉ source.path.toList ∨ IsAnalysed parser source := by
  rcases plainReport_cases isReport with ⟨document, isRead, rfl⟩ | ⟨unread, rfl⟩
  · exact iff_of_true (Path.backslash_notMem_slashed source.path) (.inr ⟨document, isRead⟩)
  · exact (or_iff_left unread).symm

/-!
# The reports on a list of files
-/

variable {sources : List SourceFile} {reports slashedReports : List FileReport}

theorem forall₂_reports
    (areReports : (files parser options types sources).map Logged.value = .ok reports) :
    List.Forall₂ (fun source report => plainReport parser options types source = .ok report)
      sources reports := by
  rw [map_value_files] at areReports
  exact mapM_eq_ok_iff.mp areReports

theorem forall₂_slashedReports (areReports :
      (files parser options types (sources.map SourceFile.slashed)).map Logged.value =
        .ok reports) :
    List.Forall₂ (fun source report => plainReport parser options types source.slashed = .ok report)
      sources reports :=
  List.forall₂_map_left_iff.mp (forall₂_reports areReports)

/-- The reports on `sources` beside those on the same files with slashes for backslashes. -/
structure SlashesShow (parser : Java.Parser) (sources : List SourceFile)
    (reports slashedReports : List FileReport) : Prop where
  length : reports.length = sources.length
  slashedLength : slashedReports.length = sources.length
  atPlace : ∀ (place : Nat) (source : SourceFile), sources[place]? = some source ->
    (reports[place]? = slashedReports[place]? ↔ source.IsSeparatorBlind parser)
  throughout : reports = slashedReports ↔ ∀ source ∈ sources, source.IsSeparatorBlind parser
  inPaths : (∀ report ∈ reports, '\\' ∉ report.filePath.toList) ↔
    ∀ source ∈ sources, '\\' ∉ source.path.toList ∨ IsAnalysed parser source

theorem SlashesShow.cons {first : SourceFile} {report slashedReport : FileReport}
    (isReport : plainReport parser options types first = .ok report)
    (isSlashed : plainReport parser options types first.slashed = .ok slashedReport)
    (shows : SlashesShow parser sources reports slashedReports) :
    SlashesShow parser (first :: sources) (report :: reports)
      (slashedReport :: slashedReports) := by
  have atFirst : report = slashedReport ↔ first.IsSeparatorBlind parser := by
    rw [← plainReport_slashed_iff parser options types, isReport, isSlashed,
      Except.ok.injEq]
  exact {
    length := congrArg Nat.succ shows.length
    slashedLength := congrArg Nat.succ shows.slashedLength
    atPlace := by
      intro place source isSource
      cases place with
      | zero =>
          rcases Option.some.inj isSource with rfl
          exact Option.some_inj.trans atFirst
      | succ place => exact shows.atPlace place source isSource
    throughout := by
      rw [List.cons.injEq, atFirst, shows.throughout, List.forall_mem_cons]
    inPaths := by
      rw [List.forall_mem_cons, List.forall_mem_cons, shows.inPaths,
        backslash_notMem_filePath_iff isReport] }

theorem slashesShow
    (areReports : List.Forall₂ (fun source report =>
      plainReport parser options types source = .ok report) sources reports)
    (areSlashed : List.Forall₂ (fun source report =>
      plainReport parser options types source.slashed = .ok report) sources slashedReports) :
    SlashesShow parser sources reports slashedReports := by
  induction areReports generalizing slashedReports with
  | nil =>
      cases areSlashed
      exact ⟨rfl, rfl, nofun, iff_of_true rfl nofun, iff_of_true nofun nofun⟩
  | cons isReport _ ih =>
      cases areSlashed with
      | cons isSlashed rest => exact (ih rest).cons isReport isSlashed

/-- Slashes for backslashes leave the report on a file as it is exactly if the path has no backslash
or the file is analysed either way. A report has a path with a backslash exactly if the file has one
and is not analysed. The run stops exactly at a file that is analysed and has a context that does
not fit. -/
theorem files_slashed_iff (parser : Java.Parser) (options : ScanOptions) (types : TypeSet)
    (sources : List SourceFile) :
    let outcome := (files parser options types sources).map Logged.value
    let slashedOutcome :=
      (files parser options types (sources.map SourceFile.slashed)).map Logged.value
    (outcome = .error .overflow ↔ ∃ source ∈ sources, StopsAt parser options types source) ∧
      ((∀ source ∈ sources, source.IsSeparatorBlind parser) -> outcome = slashedOutcome) ∧
      ∀ reports slashedReports, outcome = .ok reports -> slashedOutcome = .ok slashedReports ->
        SlashesShow parser sources reports slashedReports := by
  refine ⟨?_, ?_, ?_⟩
  · rw [← files_eq_overflow_iff]
    cases files parser options types sources with
    | error panic => exact iff_of_true (congrArg _ panic.eq_overflow) (congrArg _ panic.eq_overflow)
    | ok reports => exact iff_of_false nofun nofun
  · intro areBlind
    rw [map_value_files, map_value_files, List.mapM_map]
    apply mapM_congr_left
    intro source member
    exact (plainReport_slashed_iff parser options types _).mpr (areBlind source member)
  · intro reports slashedReports areReports areSlashed
    exact slashesShow (forall₂_reports areReports) (forall₂_slashedReports areSlashed)

/-- One of the files is analysed either way, and the path of the other has no backslash. -/
theorem files_slashed_iff_java_and_text :
    let sources : List SourceFile :=
      [{ path := "a\\B.java", text := "class B{}" }, { path := "c/d.txt", text := "d" }]
    (∀ source ∈ sources, source.IsSeparatorBlind Java.reader) ∧
      sources ≠ sources.map SourceFile.slashed ∧
      (files Java.reader .default .empty sources).map Logged.value =
        (files Java.reader .default .empty (sources.map SourceFile.slashed)).map Logged.value := by
  intro sources
  let parsed := Java.Document.parse "class B{}"
  have areBlind : ∀ source ∈ sources, source.IsSeparatorBlind Java.reader := by
    refine List.forall_mem_cons.mpr ⟨.inr ⟨⟨parsed, ?_⟩, ⟨parsed, ?_⟩⟩,
      List.forall_mem_singleton.mpr (.inl (by decide))⟩
    · exact ⟨by decide +kernel, rfl⟩
    · exact ⟨by decide +kernel, rfl⟩
  rcases files_slashed_iff Java.reader .default .empty sources with ⟨_, same, _⟩
  exact ⟨areBlind, by decide +kernel, same areBlind⟩

theorem slashes_show_at_unsupported_file :
    ¬ ∀ (parser : Java.Parser) (options : ScanOptions) (types : TypeSet)
      (sources : List SourceFile),
      (files parser options types sources).map Logged.value =
        (files parser options types (sources.map SourceFile.slashed)).map Logged.value := by
  intro blind
  let source : SourceFile := { path := "a\\b.txt", text := "x" }
  have unread {other : SourceFile} (unsupported : Language.ofPath? other.path ≠ some "java") :
      ¬ IsAnalysed Java.reader other :=
    fun ⟨_, isRead⟩ => unsupported isRead.supported
  have same := blind Java.reader .default .empty [source]
  rw [map_value_files, map_value_files] at same
  have sameReport : plainReport Java.reader .default .empty source =
      plainReport Java.reader .default .empty source.slashed := by
    simpa using same
  rw [plainReport_of_not_analysed _ _ (unread (by decide)),
    plainReport_of_not_analysed _ _ (unread (by decide))] at sameReport
  have different : ¬ source.path = source.slashed.path := by decide +kernel
  exact different (congrArg FileReport.filePath (Except.ok.inj sameReport))

end Scan
end CommandWiring
