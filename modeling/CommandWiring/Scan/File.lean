import CommandWiring.Digest.BLAKE3
import CommandWiring.Extraction.Search
import CommandWiring.Java.Declarations
import CommandWiring.Path.Language
import CommandWiring.Report.Builder
import CommandWiring.Scan.Options
import CommandWiring.Site.Binder

/-!
# Scanning files

A file is searched for commands at its binder sites, and in the constructors of those of its classes
that have no binder site.
-/

namespace CommandWiring

open SyntaxNode

structure SourceFile where
  path : String
  text : String
deriving DecidableEq

inductive FileError where
  /-- A file of no supported language. -/
  | unsupported (path : String)
  | unparsed (path : String) (failure : Java.ParseFailure)
deriving DecidableEq

def FileError.message : FileError -> String
  | unsupported path => "No extractor available for file: " ++ path
  | unparsed _ (.language cause) => "Failed to set parser language: " ++ cause
  | unparsed path .noTree => "Failed to parse file: " ++ path

namespace Scan

/-!
# Constructors without binders
-/

def hasSite {document : Java.Document} (sites : List (BinderSite document.Node))
    (owner : document.Node) : Bool :=
  sites.any fun site => owner.contains site.invocation

def hasConstructorLambda {document : Java.Document} (owner : document.Node) : Bool :=
  (findFirst? owner fun node => ofKind .lambda node && inConstructorOf owner node).isSome

/-- The classes without a binder site that have a lambda in a constructor of their own. -/
def constructorScopes {document : Java.Document} (sites : List (BinderSite document.Node)) :
    List document.Node :=
  ((collectAll document.rootNode (ofKind .classDeclaration)).filter fun owner =>
    !hasSite sites owner).filter hasConstructorLambda

/-!
# Reports of a document
-/

def siteReport {document : Java.Document} (types : TypeSet) (builder : ReportBuilder)
    (site : BinderSite document.Node) : Checked (Logged SiteReport) :=
  (Search.inInvocation types site.invocation).attempt fun outcome =>
    builder.report site.invocation .binder site.binderName outcome

def scopeReport {document : Java.Document} (types : TypeSet) (builder : ReportBuilder)
    (owner : document.Node) : Checked (Logged SiteReport) :=
  (Search.inClass types owner).attempt fun outcome =>
    builder.report owner .constructorScope ((name? owner).getD "") outcome

def byLine (reports : List SiteReport) : List SiteReport :=
  reports.mergeSort fun first second => first.siteLine ≤ second.siteLine

/-- The reports at the binder sites of a document. If constructors are searched, those on classes
come between them, in the order of the lines. -/
def reportsOf (options : ScanOptions) (types : TypeSet) (builder : ReportBuilder)
    (document : Java.Document) : Checked (Logged (List SiteReport)) := do
  let sites := BinderSite.inDocument options.acceptsBinder document
  let owners := if options.scanConstructors then constructorScopes sites.value else []
  let atSites <- Logged.tryEach (siteReport types builder) sites.value
  let inScopes <- Logged.tryEach (scopeReport types builder) owners
  let reports := atSites.value ++ inScopes.value
  return {
    value := if options.scanConstructors then byLine reports else reports
    warnings := sites.warnings ++ atSites.warnings ++ inScopes.warnings }

/-!
# Files
-/

def parseFile (parser : Java.Parser) (source : SourceFile) : Except FileError Java.Document :=
  (parser.parse source.text).mapError (.unparsed source.path)

/-- The report on a file in `language` that was parsed. -/
def documentReport (options : ScanOptions) (types : TypeSet) (source : SourceFile)
    (language : String) (document : Java.Document) : Checked (Logged FileReport) := do
  let builder := ReportBuilder.forFile source.path source.text options.context
  let reports <- reportsOf options types builder document
  return reports.map fun reports => {
    filePath := builder.filePath
    language := language
    contentHash := Digest.BLAKE3.hex source.text
    reports := reports }

/-- The report on a file, or why it has none. -/
def file (parser : Java.Parser) (options : ScanOptions) (types : TypeSet) (source : SourceFile) :
    Checked (Except FileError (Logged FileReport)) :=
  match Language.ofPath? source.path with
  | none => .ok (.error (.unsupported source.path))
  | some language =>
      match parseFile parser source with
      | .error error => .ok (.error error)
      | .ok document => (documentReport options types source language document).map .ok

/-- The report on a file; that of a file that cannot be scanned is empty. -/
def fileOrEmpty (parser : Java.Parser) (options : ScanOptions) (types : TypeSet)
    (source : SourceFile) : Checked (Logged FileReport) := do
  match <- file parser options types source with
  | .ok report => return report
  | .error error =>
      return .warned (.extractionFailed source.path error.message) (.empty source.path)

def files (parser : Java.Parser) (options : ScanOptions) (types : TypeSet)
    (sources : List SourceFile) : Checked (Logged (List FileReport)) :=
  Logged.tryEach (fileOrEmpty parser options types) sources

def declaredTypes (parser : Java.Parser) (source : SourceFile) : Logged (List TypeDeclaration) :=
  match parseFile parser source with
  | .ok document => pure (Java.Declarations.inDocument document)
  | .error error => .warned (.typesSkipped source.path error.message) []

def commandTypes (parser : Java.Parser) (options : ScanOptions) (sources : List SourceFile) :
    Logged TypeSet := do
  let declarations <- Logged.forEach (declaredTypes parser) sources
  return TypeSet.resolve declarations.flatten options.commandMarkers

end Scan
end CommandWiring
