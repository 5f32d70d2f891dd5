import Mathlib.Data.List.Pairwise
import CommandWiring.Proofs.ByteOrder
import CommandWiring.Proofs.ScanAccounts

/-!
# The order of the reports of a scan

Sources are scanned in the order of their paths, byte by byte, and each has one report. A report
writes the path of its file with slashes only, which can bring paths out of order and make two paths
the same.
-/

namespace CommandWiring
namespace Workspace

open Text (bytes)

variable {parser : Java.Parser} {options : ScanOptions} {system : FileSystem} {root : String}
  {patterns : List String} {text? : Option String} {all : List SourceFile}

/-!
# Paths of reports
-/

/-- The path that the report on a file carries. -/
def reportPath (parser : Java.Parser) (source : SourceFile) : String :=
  if Scan.IsAnalysed parser source then Path.slashed source.path else source.path

theorem reportPath_of_analysed {source : SourceFile} (analysed : Scan.IsAnalysed parser source) :
    reportPath parser source = Path.slashed source.path :=
  if_pos analysed

theorem reportPath_of_free {source : SourceFile} (free : '\\' ∉ source.path.toList) :
    reportPath parser source = source.path := by
  rw [reportPath, Path.slashed_eq_self_iff.mpr free, ite_self]

theorem filePath_of_plainReport {types : TypeSet} {source : SourceFile} {report : FileReport}
    (made : Scan.plainReport parser options types source = .ok report) :
    report.filePath = reportPath parser source := by
  rcases Scan.plainReport_cases made with ⟨document, isRead, rfl⟩ | ⟨unread, rfl⟩
  · rw [reportPath_of_analysed ⟨document, isRead⟩]
    rfl
  · rw [reportPath, if_neg unread]
    rfl

theorem map_filePath_of_reported {types : TypeSet} {reports : List FileReport}
    (reported : List.Forall₂ (IsReportOn parser options types) all reports) :
    reports.map FileReport.filePath = all.map (reportPath parser) := by
  induction reported with
  | nil => rfl
  | cons isReport _ ih =>
      rw [List.map_cons, List.map_cons, ih, filePath_of_plainReport isReport.made]

/-!
# Order
-/

/-- A list in the order of `before` stays in order under a map exactly if the map keeps this order.
-/
theorem pairwise_map_iff {α β : Type} {before : α -> α -> Prop} {after : β -> β -> Prop}
    {f : α -> β} {elements : List α} (asymm : ∀ a b, before a b -> ¬ before b a)
    (inOrder : elements.Pairwise before) :
    (elements.map f).Pairwise after ↔
      ∀ a ∈ elements, ∀ b ∈ elements, before a b -> after (f a) (f b) := by
  rw [List.pairwise_map]
  constructor
  · intro kept a isFirst b isSecond
    let agrees (a b : α) : Prop :=
      (before a b -> after (f a) (f b)) ∧ (before b a -> after (f b) (f a))
    have symmetric : Std.Symm agrees := ⟨fun _ _ both => ⟨both.2, both.1⟩⟩
    have reflexive : ∀ a ∈ elements, agrees a a := fun a _ =>
      ⟨fun less => absurd less (asymm a a less), fun less => absurd less (asymm a a less)⟩
    have pairwise : elements.Pairwise agrees := by
      apply (inOrder.and kept).imp
      intro a b both
      exact ⟨fun _ => both.2, fun less => absurd less (asymm a b both.1)⟩
    exact (List.Pairwise.forall_of_forall reflexive pairwise isFirst isSecond).1
  · intro keeps
    apply inOrder.imp_of_mem
    intro a b isFirst isSecond less
    exact keeps a isFirst b isSecond less

/-- The paths of the reports of a scan beside those of the `sources`, one for each in their order.
-/
structure KeepsOrder (parser : Java.Parser) (sources : List SourceFile) (filePaths : List String) :
    Prop where
  ascending : sources.Pairwise fun first second => bytes first.path < bytes second.path
  filePaths_eq : filePaths = sources.map (reportPath parser)
  /-- The paths of the reports are in order exactly if those of the sources are kept in order. -/
  inOrder_iff : (filePaths.Pairwise fun first second => bytes first < bytes second) ↔
    ∀ first ∈ sources, ∀ second ∈ sources, bytes first.path < bytes second.path ->
      bytes (reportPath parser first) < bytes (reportPath parser second)
  /-- They are different exactly if those of the sources are kept apart. -/
  nodup_iff : filePaths.Nodup ↔ ∀ first ∈ sources, ∀ second ∈ sources,
    reportPath parser first = reportPath parser second -> first = second
  inOrder_of_free : (∀ source ∈ sources, '\\' ∉ source.path.toList) ->
    filePaths.Pairwise fun first second => bytes first < bytes second

theorem keepsOrder (parser : Java.Parser) {sources : List SourceFile} {filePaths : List String}
    (areSources : AreSources system root patterns sources)
    (arePaths : filePaths = sources.map (reportPath parser)) :
    KeepsOrder parser sources filePaths := by
  have ascending : sources.Pairwise fun first second => bytes first.path < bytes second.path :=
    areSources.ascending.imp Text.bytes_lt_iff.mpr
  have inOrder_iff : (filePaths.Pairwise fun first second => bytes first < bytes second) ↔
      ∀ first ∈ sources, ∀ second ∈ sources, bytes first.path < bytes second.path ->
        bytes (reportPath parser first) < bytes (reportPath parser second) := by
    rw [arePaths]
    exact pairwise_map_iff (fun first second => List.lt_asymm) ascending
  refine ⟨ascending, arePaths, inOrder_iff, ?_, ?_⟩
  · rw [arePaths]
    exact List.nodup_map_iff_inj_on areSources.nodup.of_map
  · intro areFree
    rw [inOrder_iff]
    intro first isFirst second isSecond less
    rwa [reportPath_of_free (areFree first isFirst), reportPath_of_free (areFree second isSecond)]

theorem keepsOrder_of_scan (hasText : HasIgnoreText system root text?) {result : Logged Result}
    (isScan : scan parser options system (.ofText root) = .ok (.ok result))
    (areSources : AreSources system root (patternsOf text?) all) :
    KeepsOrder parser all (result.value.reports.map FileReport.filePath) := by
  rcases accounts_of_scan hasText isScan with ⟨others, _, accounts⟩
  rcases areSources.unique accounts.areSources with rfl
  exact keepsOrder parser areSources (map_filePath_of_reported accounts.reported)

/-- Whether the paths of the reports are in the order of bytes depends on what writing slashes for
backslashes does to the paths of the sources. -/
theorem filePaths_ascend_iff (parser : Java.Parser) (options : ScanOptions) {result : Logged Result}
    (isScan : scan parser options system (.ofText root) = .ok (.ok result)) :
    ∃ text? sources, HasIgnoreText system root text? ∧
      AreSources system root (patternsOf text?) sources ∧
      KeepsOrder parser sources (result.value.reports.map FileReport.filePath) := by
  have survives := scan_survives_textless_files parser options system root
  rcases survives.accounts result isScan with ⟨text?, sources, _, hasText, accounts⟩
  exact ⟨text?, sources, hasText, accounts.areSources,
    keepsOrder_of_scan hasText isScan accounts.areSources⟩

theorem filePaths_ascend_iff_crowded :
    ∃ result, scan Java.reader .default crowded (.ofText "/w[1]") = .ok (.ok result) ∧
      (result.value.reports.map FileReport.filePath).Pairwise fun first second =>
        bytes first < bytes second := by
  have hasText : HasIgnoreText crowded "/w[1]" (some "gen/") := by decide +kernel
  have visible : ¬ HidesJava crowded "/w[1]" := not_hidesJava_of_texts (by decide)
  rcases (concludes Java.reader .default hasText areSources_crowded).returns.mpr
    ⟨visible, not_stops_classA⟩ with ⟨result, isScan⟩
  rcases filePaths_ascend_iff Java.reader .default isScan with
    ⟨text?, scanned, alsoHasText, areSources, keepsOrder⟩
  rw [patternsOf_unique alsoHasText hasText] at areSources
  rcases areSources.unique areSources_crowded with rfl
  exact ⟨result, isScan, keepsOrder.inOrder_of_free (by decide)⟩

/-- A workspace with a file whose name has a backslash. -/
def backslashed : FileSystem where
  entries :=
    [([.plain "u" (by decide), .plain "aA.java" (by decide)], .file "class A{}".toUTF8),
      ([.plain "u" (by decide), .plain "a\\b.java" (by decide)], .file "class B{}".toUTF8)]
  once := by decide
  solid := by decide

theorem filePaths_descend_at_backslash :
    ¬ ∀ (options : ScanOptions) (system : FileSystem) (root : String) (result : Logged Result),
      scan Java.reader options system (.ofText root) = .ok (.ok result) ->
        (result.value.reports.map FileReport.filePath).Pairwise fun first second =>
          bytes first < bytes second := by
  intro ascend
  let all : List SourceFile :=
    [{ path := "aA.java", text := "class A{}" }, { path := "a\\b.java", text := "class B{}" }]
  have hasText : HasIgnoreText backslashed "/u" none := by decide +kernel
  have isBase : backslashed.resolve? (.ofText ("/u" ++ "/")) = some [.plain "u" (by decide)] := by
    decide +kernel
  have areSources : AreSources backslashed "/u" (patternsOf none) all := {
    mem_iff := by
      intro source
      have areAll : sources (patternsOf none)
          (listedBelow backslashed "/u" [.plain "u" (by decide)]) = all := by
        decide +kernel
      rw [isSource_iff_of_resolve? isBase, areAll]
    ascending := by decide }
  have visible : ¬ HidesJava backslashed "/u" := not_hidesJava_of_texts (by decide)
  have runs : ¬ Stops Java.reader .default all := by decide +kernel
  rcases (concludes Java.reader .default hasText areSources).returns.mpr ⟨visible, runs⟩ with
    ⟨result, isScan⟩
  have ascends := ascend .default backslashed "/u" result isScan
  rw [(keepsOrder_of_scan hasText isScan areSources).filePaths_eq] at ascends
  have descends : ¬ (all.map (reportPath Java.reader)).Pairwise fun first second =>
      bytes first < bytes second := by
    decide +kernel
  exact descends ascends

end Workspace
end CommandWiring
