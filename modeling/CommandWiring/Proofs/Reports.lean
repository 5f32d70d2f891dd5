import CommandWiring.Proofs.BinderSites
import CommandWiring.Proofs.Extents
import CommandWiring.Scan.File

/-!
# What reports are on

Every report of a file is on a binder site or on a class. The reports are those on the sites and
classes of the document, each once, put in the order of their lines.
-/

namespace CommandWiring

open SyntaxNode

/-!
# Numbers
-/

theorem eq_of_toString_eq {first second : Nat} (same : toString first = toString second) :
    first = second := by
  have digits : Nat.toDigits 10 first = Nat.toDigits 10 second := by
    rw [← Nat.toList_repr, ← Nat.toList_repr]
    exact congrArg String.toList same
  rw [← Nat.ofDigitChars_ten_toDigits (n := first), digits, Nat.ofDigitChars_ten_toDigits]

theorem ofNat_inj_of_le {first second length : Nat} (small : length < UInt32.size)
    (le : first ≤ length) (otherLe : second ≤ length)
    (same : UInt32.ofNat first = UInt32.ofNat second) : first = second := by
  have sameNat := congrArg UInt32.toNat same
  rwa [UInt32.toNat_ofNat_of_lt' (Nat.lt_of_le_of_lt le small),
    UInt32.toNat_ofNat_of_lt' (Nat.lt_of_le_of_lt otherLe small)] at sameNat

/-!
# Results of steps that can fail
-/

theorem mapM_eq_ok {α β ε : Type} {step : α -> Except ε β} {result : α -> β} {elements : List α}
    (each : ∀ element ∈ elements, step element = .ok (result element)) :
    elements.mapM step = .ok (elements.map result) := by
  induction elements with
  | nil => rfl
  | cons first rest ih =>
      rw [List.mapM_cons, each first List.mem_cons_self,
        ih fun element member => each element (List.mem_cons_of_mem first member)]
      rfl

theorem mapM_eq_error {α β ε : Type} {step : α -> Except ε β} {elements : List α} {element : α}
    {error : ε} (only : ∀ other ∈ elements, ∀ cause, step other = .error cause -> cause = error)
    (member : element ∈ elements) (stops : step element = .error error) :
    elements.mapM step = .error error := by
  induction elements with
  | nil => cases member
  | cons first rest ih =>
      rcases List.forall_mem_cons.mp only with ⟨ofFirst, ofRest⟩
      rw [List.mapM_cons]
      cases isFirst : step first with
      | error cause =>
          rw [ofFirst cause isFirst]
          rfl
      | ok result =>
          rcases List.mem_cons.mp member with rfl | behind
          · rw [isFirst] at stops
            cases stops
          · rw [ih ofRest behind]
            rfl

theorem mapM_eq_overflow {α β : Type} {step : α -> Checked β} {elements : List α} {element : α}
    (member : element ∈ elements) (stops : step element = .error .overflow) :
    elements.mapM step = .error .overflow :=
  mapM_eq_error (fun _ _ panic _ => panic.eq_overflow) member stops

namespace Logged

theorem tryEach_eq_ok {α β ε : Type} {step : α -> Except ε (Logged β)} {result : α -> Logged β}
    {elements : List α} (each : ∀ element ∈ elements, step element = .ok (result element)) :
    tryEach step elements = .ok (forEach result elements) := by
  rw [tryEach, mapM_eq_ok each]
  rfl

theorem tryEach_eq_overflow {α β : Type} {step : α -> Checked (Logged β)} {elements : List α}
    {element : α} (member : element ∈ elements) (stops : step element = .error .overflow) :
    tryEach step elements = .error .overflow := by
  rw [tryEach, mapM_eq_overflow member stops]
  rfl

end Logged

/-!
# Origins
-/

/-- What a report is on. -/
inductive Origin (document : Java.Document) where
  | atSite (site : BinderSite document.Node)
  | inScope (owner : document.Node)
deriving DecidableEq

namespace Origin

variable {document : Java.Document}

def node : Origin document -> document.Node
  | atSite site => site.invocation
  | inScope owner => owner

def name : Origin document -> String
  | atSite site => site.binderName
  | inScope owner => (name? owner).getD ""

def kind : Origin document -> SiteKind
  | atSite _ => .binder
  | inScope _ => .constructorScope

def outcome (types : TypeSet) : Origin document -> Outcome document.Node
  | atSite site => (Search.inInvocation types site.invocation).value
  | inScope owner => (Search.inClass types owner).value

def search (types : TypeSet) : Origin document -> Logged (Outcome document.Node)
  | atSite site => Search.inInvocation types site.invocation
  | inScope owner => Search.inClass types owner

theorem value_search (types : TypeSet) (origin : Origin document) :
    (origin.search types).value = origin.outcome types := by
  cases origin with
  | atSite site => rfl
  | inScope owner => rfl

end Origin

/-!
# The report on an origin
-/

namespace ReportBuilder

variable {document : Java.Document}

/-- The context of what is found fits. -/
def Fits (builder : ReportBuilder) (node : document.Node) : Prop :=
  CodeContext.Fits builder.context builder.content (position document node.span.start).row
    (position document node.span.stop).row

instance (builder : ReportBuilder) (node : document.Node) : Decidable (builder.Fits node) :=
  inferInstanceAs (Decidable (CodeContext.Fits _ _ _ _))

def unboundedCommand (builder : ReportBuilder) (node : document.Node) (kind : MatchKind) :
    FoundCommand :=
  builder.found node kind (CodeContext.unbounded? builder.context builder.content
    (position document node.span.start).row (position document node.span.stop).row)

def unboundedCommand? (builder : ReportBuilder) (outcome : Outcome document.Node) :
    Option FoundCommand :=
  match outcome.node?, outcome.matchKind? with
  | some node, some kind => some (builder.unboundedCommand node kind)
  | _, _ => none

theorem command?_of_fits {builder : ReportBuilder} {outcome : Outcome document.Node}
    (fits : ∀ node ∈ outcome.node?, builder.Fits node) :
    builder.command? outcome = .ok (builder.unboundedCommand? outcome) := by
  rw [command?, unboundedCommand?]
  cases hnode : outcome.node? with
  | none => rfl
  | some node =>
      cases outcome.matchKind? with
      | none => rfl
      | some kind =>
          dsimp only
          rw [command, CodeContext.around?_of_fits (fits node hnode)]
          rfl

theorem command?_of_not_fits {builder : ReportBuilder} {outcome : Outcome document.Node}
    {node : document.Node} (isFound : outcome.node? = some node) (exceeds : ¬ builder.Fits node) :
    builder.command? outcome = .error .overflow := by
  have stops (kind : MatchKind) : builder.command node kind = .error .overflow := by
    rw [command, CodeContext.around?_of_not_fits exceeds]
    rfl
  cases outcome with
  | missed reason => cases isFound
  | constructorCall found =>
      rcases Option.some.inj isFound with rfl
      exact congrArg (Except.map some) (stops .constructorCall)
  | methodReference found =>
      rcases Option.some.inj isFound with rfl
      exact congrArg (Except.map some) (stops .methodReference)
  | block found =>
      rcases Option.some.inj isFound with rfl
      exact congrArg (Except.map some) (stops .block)

end ReportBuilder

namespace Origin

variable {document : Java.Document}

/-- The search from an origin, and the report that it gives. -/
def scan (types : TypeSet) (builder : ReportBuilder) (origin : Origin document) :
    Checked (Logged SiteReport) :=
  (origin.search types).attempt fun outcome =>
    builder.report origin.node origin.kind origin.name outcome

/-- The context of what the search finds fits, so that there is a report. -/
def Fits (types : TypeSet) (builder : ReportBuilder) (origin : Origin document) : Prop :=
  ∀ node ∈ (origin.outcome types).node?, builder.Fits node

instance (types : TypeSet) (builder : ReportBuilder) (origin : Origin document) :
    Decidable (origin.Fits types builder) :=
  inferInstanceAs (Decidable (∀ node ∈ (origin.outcome types).node?, builder.Fits node))

def report (types : TypeSet) (builder : ReportBuilder) (origin : Origin document) : SiteReport :=
  let outcome := origin.outcome types
  builder.reportOn origin.node origin.kind origin.name outcome (builder.unboundedCommand? outcome)

def logged (types : TypeSet) (builder : ReportBuilder) (origin : Origin document) :
    Logged SiteReport where
  value := origin.report types builder
  warnings := (origin.search types).warnings

variable {types : TypeSet} {builder : ReportBuilder} {origin : Origin document}

theorem scan_of_fits (fits : origin.Fits types builder) :
    origin.scan types builder = .ok (origin.logged types builder) := by
  rw [scan, Logged.attempt, value_search, ReportBuilder.report,
    ReportBuilder.command?_of_fits fits]
  rfl

theorem scan_of_not_fits (exceeds : ¬ origin.Fits types builder) :
    origin.scan types builder = .error .overflow := by
  simp only [Fits, Option.mem_def, not_forall, exists_prop] at exceeds
  rcases exceeds with ⟨node, isFound, tooLarge⟩
  rw [scan, Logged.attempt, value_search, ReportBuilder.report,
    ReportBuilder.command?_of_not_fits isFound tooLarge]
  rfl

end Origin

namespace Scan

variable {document : Java.Document}

def sites (options : ScanOptions) (document : Java.Document) : List (BinderSite document.Node) :=
  (BinderSite.inDocument options.acceptsBinder document).value

def scopes (options : ScanOptions) (document : Java.Document) : List document.Node :=
  if options.scanConstructors then constructorScopes (sites options document) else []

def origins (options : ScanOptions) (document : Java.Document) : List (Origin document) :=
  (sites options document).map .atSite ++ (scopes options document).map .inScope

/-!
# The reports of a document
-/

/-- The contexts of all that is found in a document fit, so that there are reports. -/
def Fits (options : ScanOptions) (types : TypeSet) (builder : ReportBuilder)
    (document : Java.Document) : Prop :=
  ∀ origin ∈ origins options document, origin.Fits types builder

instance (options : ScanOptions) (types : TypeSet) (builder : ReportBuilder)
    (document : Java.Document) : Decidable (Fits options types builder document) :=
  inferInstanceAs (Decidable (∀ origin ∈ origins options document, origin.Fits types builder))

/-- The reports of a document with their warnings, if sums could be of any size. The warnings on
chains that are too long come before those of the searches. -/
def unboundedReports (options : ScanOptions) (types : TypeSet) (builder : ReportBuilder)
    (document : Java.Document) : Logged (List SiteReport) :=
  let reports := (origins options document).map (Origin.report types builder)
  { value := if options.scanConstructors then byLine reports else reports
    warnings := (BinderSite.inDocument options.acceptsBinder document).warnings ++
      (origins options document).flatMap fun origin => (origin.search types).warnings }

variable {options : ScanOptions} {types : TypeSet} {builder : ReportBuilder}

theorem tryEach_scan {elements : List (Origin document)}
    (fit : ∀ origin ∈ elements, origin.Fits types builder) :
    Logged.tryEach (Origin.scan types builder) elements =
      .ok (Logged.forEach (Origin.logged types builder) elements) :=
  Logged.tryEach_eq_ok fun origin member => Origin.scan_of_fits (fit origin member)

theorem tryEach_siteReport (types : TypeSet) (builder : ReportBuilder)
    (sites : List (BinderSite document.Node)) :
    Logged.tryEach (siteReport types builder) sites =
      Logged.tryEach (Origin.scan types builder) (sites.map .atSite) := by
  rw [Logged.tryEach, Logged.tryEach, List.mapM_map]
  rfl

theorem tryEach_scopeReport (types : TypeSet) (builder : ReportBuilder)
    (owners : List document.Node) :
    Logged.tryEach (scopeReport types builder) owners =
      Logged.tryEach (Origin.scan types builder) (owners.map .inScope) := by
  rw [Logged.tryEach, Logged.tryEach, List.mapM_map]
  rfl

theorem reportsOf_eq (options : ScanOptions) (types : TypeSet) (builder : ReportBuilder)
    (document : Java.Document) :
    reportsOf options types builder document = (do
      let atSites <- Logged.tryEach (Origin.scan types builder)
        ((sites options document).map .atSite)
      let inScopes <- Logged.tryEach (Origin.scan types builder)
        ((scopes options document).map .inScope)
      let reports := atSites.value ++ inScopes.value
      return {
        value := if options.scanConstructors then byLine reports else reports
        warnings := (BinderSite.inDocument options.acceptsBinder document).warnings ++
          atSites.warnings ++ inScopes.warnings }) := by
  rw [← tryEach_siteReport, ← tryEach_scopeReport]
  rfl

/-- The reports of a document are those on its origins, ordered by line if classes are searched. -/
theorem reportsOf_of_fits (fits : Fits options types builder document) :
    reportsOf options types builder document =
      .ok (unboundedReports options types builder document) := by
  have atSites : Logged.tryEach (Origin.scan types builder)
      ((sites options document).map .atSite) = .ok (Logged.forEach (Origin.logged types builder)
        ((sites options document).map .atSite)) :=
    tryEach_scan fun origin member => fits origin (List.mem_append_left _ member)
  have inScopes : Logged.tryEach (Origin.scan types builder)
      ((scopes options document).map .inScope) = .ok (Logged.forEach (Origin.logged types builder)
        ((scopes options document).map .inScope)) :=
    tryEach_scan fun origin member => fits origin (List.mem_append_right _ member)
  have joined : unboundedReports options types builder document =
      let atSites := Logged.forEach (Origin.logged types builder)
        ((sites options document).map .atSite)
      let inScopes := Logged.forEach (Origin.logged types builder)
        ((scopes options document).map .inScope)
      let reports := atSites.value ++ inScopes.value
      { value := if options.scanConstructors then byLine reports else reports
        warnings := (BinderSite.inDocument options.acceptsBinder document).warnings ++
          atSites.warnings ++ inScopes.warnings } := by
    simp only [unboundedReports, origins, Logged.forEach, List.map_append, List.flatMap_append,
      List.map_map, List.flatMap_map, List.append_assoc]
    rfl
  rw [reportsOf_eq, atSites, inScopes, joined]
  rfl

theorem reportsOf_of_not_fits (exceeds : ¬ Fits options types builder document) :
    reportsOf options types builder document = .error .overflow := by
  simp only [Fits, not_forall, exists_prop] at exceeds
  rcases exceeds with ⟨origin, member, tooLarge⟩
  have stops := Origin.scan_of_not_fits tooLarge
  rw [reportsOf_eq]
  rcases List.mem_append.mp member with isSite | isScope
  · rw [Logged.tryEach_eq_overflow isSite stops]
    rfl
  · cases Logged.tryEach (Origin.scan types builder) ((sites options document).map .atSite) with
    | error panic =>
        rw [panic.eq_overflow]
        rfl
    | ok atSites =>
        rw [Logged.tryEach_eq_overflow isScope stops]
        rfl

theorem unboundedReports_perm (options : ScanOptions) (types : TypeSet) (builder : ReportBuilder)
    (document : Java.Document) :
    (unboundedReports options types builder document).value.Perm
      ((origins options document).map (Origin.report types builder)) := by
  rw [unboundedReports]
  dsimp only
  split
  · exact List.mergeSort_perm _ _
  · exact .refl _

/-!
# The report on a file
-/

/-- The report on a file that was parsed, if sums could be of any size. -/
def unboundedFile (options : ScanOptions) (types : TypeSet) (source : SourceFile)
    (document : Java.Document) : Logged FileReport :=
  let builder := ReportBuilder.forFile source.path source.text options.context
  (unboundedReports options types builder document).map fun reports => {
    filePath := Path.slashed source.path
    language := "java"
    contentHash := Digest.BLAKE3.hex source.text
    reports := reports }

/-- The contexts of all that is found in a file fit, so that it has a report. -/
def FileFits (options : ScanOptions) (types : TypeSet) (source : SourceFile)
    (document : Java.Document) : Prop :=
  Fits options types (ReportBuilder.forFile source.path source.text options.context) document

instance (options : ScanOptions) (types : TypeSet) (source : SourceFile)
    (document : Java.Document) : Decidable (FileFits options types source document) :=
  inferInstanceAs (Decidable (Fits _ _ _ _))

/-- A file of a supported language that the parser reads as `document`. -/
structure IsRead (parser : Java.Parser) (source : SourceFile) (document : Java.Document) :
    Prop where
  supported : Language.ofPath? source.path = some "java"
  parsed : parser.parse source.text = .ok document

section

variable {parser : Java.Parser} {source : SourceFile}

theorem ofPath?_eq_some {path language : String}
    (supported : Language.ofPath? path = some language) : language = "java" := by
  rcases Option.bind_eq_some_iff.mp supported with ⟨ending, _, isLanguage⟩
  rw [Language.ofExtension?] at isLanguage
  split at isLanguage
  · exact (Option.some.inj isLanguage).symm
  · cases isLanguage

theorem file_of_isRead (options : ScanOptions) (types : TypeSet)
    (isRead : IsRead parser source document) :
    file parser options types source =
      (documentReport options types source "java" document).map .ok := by
  rw [file, isRead.supported]
  dsimp only
  rw [parseFile, isRead.parsed]
  rfl

theorem file_of_fits (isRead : IsRead parser source document)
    (fits : FileFits options types source document) :
    file parser options types source =
      .ok (.ok (unboundedFile options types source document)) := by
  rw [file_of_isRead options types isRead, documentReport,
    reportsOf_of_fits fits]
  rfl

theorem file_of_not_fits (isRead : IsRead parser source document)
    (exceeds : ¬ FileFits options types source document) :
    file parser options types source = .error .overflow := by
  rw [file_of_isRead options types isRead, documentReport,
    reportsOf_of_not_fits exceeds]
  rfl

theorem file_eq_ok_iff {report : Logged FileReport} :
    file parser options types source = .ok (.ok report) ↔
      ∃ document, IsRead parser source document ∧ FileFits options types source document ∧
        report = unboundedFile options types source document := by
  constructor
  · intro isReport
    cases supported : Language.ofPath? source.path with
    | none =>
        rw [file, supported] at isReport
        cases isReport
    | some language =>
        rcases ofPath?_eq_some supported with rfl
        cases parsed : parser.parse source.text with
        | error failure =>
            rw [file, supported] at isReport
            dsimp only at isReport
            rw [parseFile, parsed] at isReport
            cases isReport
        | ok document =>
            have isRead : IsRead parser source document := ⟨supported, parsed⟩
            by_cases fits : FileFits options types source document
            · rw [file_of_fits isRead fits] at isReport
              exact ⟨document, isRead, fits, (Except.ok.inj (Except.ok.inj isReport)).symm⟩
            · rw [file_of_not_fits isRead fits] at isReport
              cases isReport
  · rintro ⟨document, isRead, fits, rfl⟩
    exact file_of_fits isRead fits

theorem IsRead.unique {other : Java.Document} (isRead : IsRead parser source document)
    (alsoRead : IsRead parser source other) : document = other :=
  Except.ok.inj (isRead.parsed.symm.trans alsoRead.parsed)

theorem eq_unboundedFile (isRead : IsRead parser source document) {report : Logged FileReport}
    (isReport : file parser options types source = .ok (.ok report)) :
    FileFits options types source document ∧
      report = unboundedFile options types source document := by
  rcases file_eq_ok_iff.mp isReport with ⟨other, alsoRead, fits, isFile⟩
  rcases isRead.unique alsoRead with rfl
  exact ⟨fits, isFile⟩

theorem exists_file_iff (isRead : IsRead parser source document) :
    (∃ report, file parser options types source = .ok (.ok report)) ↔
      FileFits options types source document := by
  constructor
  · rintro ⟨report, isReport⟩
    exact (eq_unboundedFile isRead isReport).1
  · intro fits
    exact ⟨_, file_of_fits isRead fits⟩

theorem perm_reports_of_isRead (isRead : IsRead parser source document)
    {report : Logged FileReport}
    (isReport : file parser options types source = .ok (.ok report)) :
    report.value.reports.Perm
      ((origins options document).map (Origin.report types
        (ReportBuilder.forFile source.path source.text options.context))) := by
  rcases eq_unboundedFile isRead isReport with ⟨_, rfl⟩
  exact unboundedReports_perm options types _ document

end

/-!
# The origins of a document
-/

theorem of_mem_sites {options : ScanOptions} {site : BinderSite document.Node}
    (member : site ∈ sites options document) :
    (∃ depth, Descends document.rootNode depth site.invocation) ∧
      SyntaxNode.kind site.invocation = .invocation := by
  rw [sites, BinderSite.value_inDocument] at member
  rcases List.mem_filterMap.mp member with ⟨start, isStart, isSite⟩
  rw [(BinderSite.value_atInvocation?.mp isSite).1]
  rcases of_mem_collectAll isStart with ⟨reached, wanted⟩
  rw [Bool.and_eq_true] at wanted
  exact ⟨reached, beq_iff_eq.mp wanted.1⟩

theorem of_mem_scopes {options : ScanOptions} {owner : document.Node}
    (member : owner ∈ scopes options document) :
    (∃ depth, Descends document.rootNode depth owner) ∧
      SyntaxNode.kind owner = .classDeclaration ∧
      hasSite (sites options document) owner = false := by
  rw [scopes] at member
  cases scans : options.scanConstructors with
  | true =>
      rw [scans, if_pos rfl, constructorScopes, List.mem_filter, List.mem_filter] at member
      rcases of_mem_collectAll member.1.1 with ⟨reached, isClass⟩
      refine ⟨reached, beq_iff_eq.mp isClass, ?_⟩
      simpa using member.1.2
  | false =>
      rw [scans] at member
      cases member

theorem nodup_scopes (options : ScanOptions) (document : Java.Document) :
    (scopes options document).Nodup := by
  rw [scopes]
  split
  · rw [constructorScopes, collectAll_eq_filter]
    exact (((document.coherent.nodup_preorder .here).filter _).filter _).filter _
  · exact List.nodup_nil

theorem mem_origins_atSite {options : ScanOptions} {site : BinderSite document.Node} :
    Origin.atSite site ∈ origins options document ↔ site ∈ sites options document := by
  simp [origins]

theorem mem_origins_inScope {options : ScanOptions} {owner : document.Node} :
    Origin.inScope owner ∈ origins options document ↔ owner ∈ scopes options document := by
  simp [origins]

theorem nodup_origins (options : ScanOptions) (document : Java.Document) :
    (origins options document).Nodup := by
  refine List.nodup_append.mpr ⟨?_, ?_, ?_⟩
  · refine (BinderSite.nodup_inDocument options.acceptsBinder document).map ?_
    intro first second same
    exact Origin.atSite.inj same
  · refine (nodup_scopes options document).map ?_
    intro first second same
    exact Origin.inScope.inj same
  · intro first isSite second isScope
    rcases List.mem_map.mp isSite with ⟨site, _, rfl⟩
    rcases List.mem_map.mp isScope with ⟨owner, _, rfl⟩
    exact nofun

theorem of_mem_origins {options : ScanOptions} {origin : Origin document}
    (member : origin ∈ origins options document) :
    (∃ depth, Descends document.rootNode depth origin.node) ∧
      origin.node.span.start < origin.node.span.stop ∧
      origin.node.span.stop ≤ document.text.utf8ByteSize := by
  rcases List.mem_append.mp member with isSite | isScope
  · rcases List.mem_map.mp isSite with ⟨site, listed, rfl⟩
    rcases of_mem_sites listed with ⟨⟨depth, reached⟩, isCall⟩
    exact ⟨⟨depth, reached⟩, Java.Document.Node.isFilled_of_kind _ (Or.inl isCall),
      Java.Document.Node.stop_le _ reached⟩
  · rcases List.mem_map.mp isScope with ⟨owner, listed, rfl⟩
    rcases of_mem_scopes listed with ⟨⟨depth, reached⟩, isClass, _⟩
    exact ⟨⟨depth, reached⟩, Java.Document.Node.isFilled_of_kind _ (Or.inr (Or.inr isClass)),
      Java.Document.Node.stop_le _ reached⟩

end Scan
end CommandWiring
