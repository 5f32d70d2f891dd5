import CommandWiring.Java.Reader
import CommandWiring.Proofs.WorkspaceSources

/-!
# What a scan depends on

What a scan returns depends on the sources alone. It stops at a source with a context that does not
fit, and it fails on a Java file in a directory whose name is no text.
-/

namespace CommandWiring
namespace Workspace

variable {parser : Java.Parser} {options : ScanOptions} {system : FileSystem} {root : String}
  {text? : Option String} {all : List SourceFile}

/-!
# Scanning sources
-/

def typesOf (parser : Java.Parser) (options : ScanOptions) (sources : List SourceFile) : TypeSet :=
  (Scan.commandTypes parser options sources).value

def resultOn (parser : Java.Parser) (options : ScanOptions) (all : List SourceFile)
    (reports : List FileReport) : Result where
  types := typesOf parser options all
  reports := reports
  summary := Summary.ofReports reports

theorem scanSources_eq (parser : Java.Parser) (options : ScanOptions) (sources : List SourceFile) :
    scanSources parser options sources =
      (Scan.files parser options (typesOf parser options (ordered sources)) (ordered sources)).map
        fun scanned => {
          value := resultOn parser options (ordered sources) scanned.value
          warnings := (Scan.commandTypes parser options (ordered sources)).warnings ++
            scanned.warnings } := by
  change Except.bind
    (Scan.files parser options (typesOf parser options (ordered sources)) (ordered sources)) _ = _
  cases Scan.files parser options (typesOf parser options (ordered sources)) (ordered sources) with
  | error panic => rfl
  | ok scanned => rfl

theorem scan_of_visible (parser : Java.Parser) (options : ScanOptions)
    (hasText : HasIgnoreText system root text?) (visible : ¬ HidesJava system root)
    (areSources : AreSources system root (patternsOf text?) all) :
    scan parser options system (.ofText root) =
      (Scan.files parser options (typesOf parser options all) all).map fun scanned => .ok {
        value := resultOn parser options all scanned.value
        warnings := (textless (patternsOf text?) (listing system root)).map passedOver ++
          ((Scan.commandTypes parser options all).warnings ++ scanned.warnings) } := by
  rw [scan_eq parser options hasText visible, scanSources_eq,
    ← areSources.unique (areSources_ordered _ _ _)]
  cases Scan.files parser options (typesOf parser options all) all with
  | error panic => rfl
  | ok scanned => rfl

/-- A scan of `sources` stops at one of them. -/
def Stops (parser : Java.Parser) (options : ScanOptions) (sources : List SourceFile) : Prop :=
  ∃ source ∈ sources, Scan.StopsAt parser options (typesOf parser options sources) source

instance (parser : Java.Parser) (options : ScanOptions) (sources : List SourceFile) :
    Decidable (Stops parser options sources) :=
  inferInstanceAs (Decidable (∃ source ∈ sources, _))

theorem scan_eq_overflow (hasText : HasIgnoreText system root text?)
    (visible : ¬ HidesJava system root)
    (areSources : AreSources system root (patternsOf text?) all)
    (stops : Stops parser options all) :
    scan parser options system (.ofText root) = .error .overflow := by
  rw [scan_of_visible parser options hasText visible areSources,
    Scan.files_eq_overflow_iff.mpr stops]
  rfl

theorem exists_files (runs : ¬ Stops parser options all) :
    ∃ scanned, Scan.files parser options (typesOf parser options all) all = .ok scanned := by
  cases isFiles : Scan.files parser options (typesOf parser options all) all with
  | error panic =>
      rw [panic.eq_overflow] at isFiles
      exact absurd (Scan.files_eq_overflow_iff.mp isFiles) runs
  | ok scanned => exact ⟨scanned, rfl⟩

/-- Whether a scan fails, stops or returns depends on hidden files and on the sources. -/
structure Concludes (parser : Java.Parser) (options : ScanOptions) (system : FileSystem)
    (root : String) (sources : List SourceFile) : Prop where
  fails : ∀ error, scan parser options system (.ofText root) = .ok (.error error) ↔
    HidesJava system root ∧ error = .relative .invalidName
  stops : scan parser options system (.ofText root) = .error .overflow ↔
    ¬ HidesJava system root ∧ Stops parser options sources
  returns : (∃ result, scan parser options system (.ofText root) = .ok (.ok result)) ↔
    ¬ HidesJava system root ∧ ¬ Stops parser options sources

theorem concludes (parser : Java.Parser) (options : ScanOptions)
    (hasText : HasIgnoreText system root text?)
    (areSources : AreSources system root (patternsOf text?) all) :
    Concludes parser options system root all := by
  by_cases hides : HidesJava system root
  · have isScan := scan_of_hidesJava parser options (not_unreadable_of_hasIgnoreText hasText) hides
    constructor <;> simp [isScan, hides, eq_comm]
  · by_cases stops : Stops parser options all
    · have isScan := scan_eq_overflow hasText hides areSources stops
      constructor <;> simp [isScan, hides, stops]
    · rcases exists_files stops with ⟨scanned, isFiles⟩
      have isScan := scan_of_visible parser options hasText hides areSources
      rw [isFiles] at isScan
      constructor <;> simp [isScan, hides, stops, Except.map]

/-- What is returned is the same for the same sources. -/
theorem value_of_scan (hasText : HasIgnoreText system root text?)
    (areSources : AreSources system root (patternsOf text?) all) {result : Logged Result}
    (isScan : scan parser options system (.ofText root) = .ok (.ok result)) :
    ∃ scanned, Scan.files parser options (typesOf parser options all) all = .ok scanned ∧
      result = {
        value := resultOn parser options all scanned.value
        warnings := (textless (patternsOf text?) (listing system root)).map passedOver ++
          ((Scan.commandTypes parser options all).warnings ++ scanned.warnings) } := by
  rcases (concludes parser options hasText areSources).returns.mp ⟨result, isScan⟩ with
    ⟨visible, runs⟩
  rcases exists_files runs with ⟨scanned, isFiles⟩
  rw [scan_of_visible parser options hasText visible areSources, isFiles] at isScan
  exact ⟨scanned, isFiles, (Except.ok.inj (Except.ok.inj isScan)).symm⟩

/-- Two scans of the same sources. Each fails exactly on a hidden file. -/
structure ScansAlike (parser : Java.Parser) (options : ScanOptions) (patterns : List String)
    (first : FileSystem) (firstRoot : String) (second : FileSystem) (secondRoot : String)
    (sources : List SourceFile) : Prop where
  areFirst : AreSources first firstRoot patterns sources
  areSecond : AreSources second secondRoot patterns sources
  firstConcludes : Concludes parser options first firstRoot sources
  secondConcludes : Concludes parser options second secondRoot sources
  alike : ∀ one other, scan parser options first (.ofText firstRoot) = .ok (.ok one) ->
    scan parser options second (.ofText secondRoot) = .ok (.ok other) -> one.value = other.value

theorem scan_determined_by_sources (parser : Java.Parser) (options : ScanOptions)
    {first second : FileSystem} {firstRoot secondRoot : String} {text? : Option String}
    (firstText : HasIgnoreText first firstRoot text?)
    (secondText : HasIgnoreText second secondRoot text?)
    (sameSources : ∀ source, IsSource first firstRoot (patternsOf text?) source ↔
      IsSource second secondRoot (patternsOf text?) source) :
    ∃ sources, ScansAlike parser options (patternsOf text?) first firstRoot second secondRoot
      sources := by
  have areFirst := areSources_ordered (patternsOf text?) first firstRoot
  have areSecond := areSources_ordered (patternsOf text?) second secondRoot
  rw [← areFirst.eq_of_mem_iff areSecond sameSources] at areSecond
  refine ⟨_, areFirst, areSecond, concludes parser options firstText areFirst,
    concludes parser options secondText areSecond, ?_⟩
  intro one other isOne isOther
  rcases value_of_scan firstText areFirst isOne with ⟨scanned, isFiles, rfl⟩
  rcases value_of_scan secondText areSecond isOther with ⟨_, alsoFiles, rfl⟩
  rcases Except.ok.inj (isFiles.symm.trans alsoFiles) with rfl
  rfl

/-- A workspace with one source, an ignored file and a file without a text. -/
def crowded : FileSystem where
  entries :=
    [([.plain "w[1]" (by decide), .plain "C.java" (by decide)], .file (ByteArray.mk #[0xff])),
      ([.plain "w[1]" (by decide), .plain "gen" (by decide), .plain "B.java" (by decide)],
        .file "class B extends Command{}".toUTF8),
      ([.plain "w[1]" (by decide), .plain "notes.txt" (by decide)], .file "notes".toUTF8),
      ([.plain "w[1]" (by decide), ignoreFile], .file "gen/".toUTF8),
      ([.plain "w[1]" (by decide), .plain "A.java" (by decide)], .file "class A{}".toUTF8)]
  once := by decide
  solid := by decide

/-- A workspace with the same source and no other Java file. -/
def sparse : FileSystem where
  entries :=
    [([.plain "v" (by decide), .plain "A.java" (by decide)], .file "class A{}".toUTF8),
      ([.plain "v" (by decide), ignoreFile], .file "gen/".toUTF8)]
  once := by decide
  solid := by decide

def classA : SourceFile where
  path := "A.java"
  text := "class A{}"

theorem crowded_base :
    crowded.resolve? (.ofText ("/w[1]" ++ "/")) = some [.plain "w[1]" (by decide)] := by
  decide +kernel

theorem areSources_crowded : AreSources crowded "/w[1]" (patternsOf (some "gen/")) [classA] where
  mem_iff source := by
    have only : sources (patternsOf (some "gen/"))
        (listedBelow crowded "/w[1]" [.plain "w[1]" (by decide)]) = [classA] := by
      decide +kernel
    rw [isSource_iff_of_resolve? crowded_base, only]
  ascending := List.pairwise_singleton _ _

theorem areSources_sparse : AreSources sparse "/v" (patternsOf (some "gen/")) [classA] where
  mem_iff source := by
    have isBase : sparse.resolve? (.ofText ("/v" ++ "/")) = some [.plain "v" (by decide)] := by
      decide +kernel
    have only : sources (patternsOf (some "gen/"))
        (listedBelow sparse "/v" [.plain "v" (by decide)]) = [classA] := by
      decide +kernel
    rw [isSource_iff_of_resolve? isBase, only]
  ascending := List.pairwise_singleton _ _

theorem not_stops_classA : ¬ Stops Java.reader .default [classA] := by
  decide +kernel

theorem scan_determined_by_sources_crowded_and_sparse :
    HasIgnoreText crowded "/w[1]" (some "gen/") ∧ HasIgnoreText sparse "/v" (some "gen/") ∧
      (∀ source, IsSource crowded "/w[1]" (patternsOf (some "gen/")) source ↔
        IsSource sparse "/v" (patternsOf (some "gen/")) source) ∧
      ∃ one other, scan Java.reader .default crowded (.ofText "/w[1]") = .ok (.ok one) ∧
        scan Java.reader .default sparse (.ofText "/v") = .ok (.ok other) ∧
        one.value = other.value := by
  have crowdedText : HasIgnoreText crowded "/w[1]" (some "gen/") := by decide +kernel
  have sparseText : HasIgnoreText sparse "/v" (some "gen/") := by decide +kernel
  have sameSources : ∀ source, IsSource crowded "/w[1]" (patternsOf (some "gen/")) source ↔
      IsSource sparse "/v" (patternsOf (some "gen/")) source := fun source =>
    (areSources_crowded.mem_iff source).symm.trans (areSources_sparse.mem_iff source)
  rcases scan_determined_by_sources Java.reader .default crowdedText sparseText sameSources with
    ⟨all, alike⟩
  rcases alike.areFirst.unique areSources_crowded with rfl
  have crowdedVisible : ¬ HidesJava crowded "/w[1]" := not_hidesJava_of_texts (by decide)
  have sparseVisible : ¬ HidesJava sparse "/v" := not_hidesJava_of_texts (by decide)
  rcases alike.firstConcludes.returns.mpr ⟨crowdedVisible, not_stops_classA⟩ with ⟨one, isOne⟩
  rcases alike.secondConcludes.returns.mpr ⟨sparseVisible, not_stops_classA⟩ with ⟨other, isOther⟩
  exact ⟨crowdedText, sparseText, sameSources, one, other, isOne, isOther,
    alike.alike one other isOne isOther⟩

/-- A workspace with the same source, and with a Java file that holds no text in a directory whose
name is no text. -/
def hidden : FileSystem where
  entries :=
    [([.plain "v" (by decide), .plain "A.java" (by decide)], .file "class A{}".toUTF8),
      ([.plain "v" (by decide), ignoreFile], .file "gen/".toUTF8),
      ([.plain "v" (by decide), .broken [0xff] (by decide +kernel), .plain "B.java" (by decide)],
        .file (ByteArray.mk #[0xff]))]
  once := by decide
  solid := by decide

theorem scan_fails_at_nameless_directory :
    ¬ ∀ (first : FileSystem) (firstRoot : String) (second : FileSystem) (secondRoot : String)
      (text? : Option String), HasIgnoreText first firstRoot text? ->
        HasIgnoreText second secondRoot text? ->
        (∀ source, IsSource first firstRoot (patternsOf text?) source ↔
          IsSource second secondRoot (patternsOf text?) source) ->
        ∃ one other, scan Java.reader .default first (.ofText firstRoot) = .ok (.ok one) ∧
          scan Java.reader .default second (.ofText secondRoot) = .ok (.ok other) ∧
          one.value = other.value := by
  intro determined
  have isBase : hidden.resolve? (.ofText ("/v" ++ "/")) = some [.plain "v" (by decide)] := by
    decide +kernel
  have only : sources (patternsOf (some "gen/"))
      (listedBelow hidden "/v" [.plain "v" (by decide)]) = [classA] := by
    decide +kernel
  have sparseText : HasIgnoreText sparse "/v" (some "gen/") := by decide +kernel
  have hiddenText : HasIgnoreText hidden "/v" (some "gen/") := by decide +kernel
  have sameSources : ∀ source, IsSource sparse "/v" (patternsOf (some "gen/")) source ↔
      IsSource hidden "/v" (patternsOf (some "gen/")) source := by
    intro source
    rw [isSource_iff_of_resolve? isBase, only, areSources_sparse.mem_iff]
  have hides : HidesJava hidden "/v" := by
    rw [hidesJava_iff_of_resolve? isBase]
    decide +kernel
  rcases determined sparse "/v" hidden "/v" (some "gen/") sparseText hiddenText sameSources with
    ⟨_, other, _, isOther, _⟩
  rw [scan_of_hidesJava _ _ (not_unreadable_of_hasIgnoreText hiddenText) hides] at isOther
  cases isOther

end Workspace
end CommandWiring
