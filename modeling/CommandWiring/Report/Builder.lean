import CommandWiring.Report.Basic
import CommandWiring.Report.Context
import CommandWiring.Text.Slice
import CommandWiring.Java.View

/-!
# Building reports

A builder holds what the reports of one file have in common. The spans it is asked about are spans
of the text that the builder has, which may differ from the text that was parsed.
-/

namespace CommandWiring

structure ReportBuilder where
  filePath : String
  content : String
  context : ContextOptions

namespace ReportBuilder

/-- A builder for the file at `path`, which is kept with slashes. -/
def forFile (path content : String) (context : ContextOptions) : ReportBuilder where
  filePath := Path.slashed path
  content := content
  context := context

variable {document : Java.Document}

def textOf (builder : ReportBuilder) (span : Java.Span) : String :=
  Text.sliceLossy builder.content span.start span.stop

def position (document : Java.Document) (byte : Nat) : Text.Position :=
  Text.positionOf document.text.toUTF8.toList byte

def found (builder : ReportBuilder) (node : document.Node) (kind : MatchKind)
    (context? : Option String) : FoundCommand :=
  let start := position document node.span.start
  let stop := position document node.span.stop
  { kind := kind
    text := builder.textOf node.span
    startLine := UInt32.ofNat (start.row + 1)
    startColumn := UInt32.ofNat start.column
    endLine := UInt32.ofNat (stop.row + 1)
    endColumn := UInt32.ofNat stop.column
    startByte := UInt32.ofNat node.span.start
    endByte := UInt32.ofNat node.span.stop
    context? := context? }

def command (builder : ReportBuilder) (node : document.Node) (kind : MatchKind) :
    Checked FoundCommand :=
  (CodeContext.around? builder.context builder.content (position document node.span.start).row
    (position document node.span.stop).row).map (builder.found node kind)

/-- What is reported of the command that `outcome` holds, if it holds one. -/
def command? (builder : ReportBuilder) (outcome : Outcome document.Node) :
    Checked (Option FoundCommand) :=
  match outcome.node?, outcome.matchKind? with
  | some node, some kind => (builder.command node kind).map some
  | _, _ => .ok none

/-- The report on the search that began at `site` and ended with `outcome`, once what is reported of
the command is there. -/
def reportOn (builder : ReportBuilder) (site : document.Node) (siteKind : SiteKind)
    (siteName : String) (outcome : Outcome document.Node) (command? : Option FoundCommand) :
    SiteReport :=
  let start := position document site.span.start
  let line := UInt32.ofNat (start.row + 1)
  { id := SiteReport.idOf builder.filePath siteName line (UInt32.ofNat start.column)
    filePath := builder.filePath
    siteKind := siteKind
    siteName := siteName
    siteLine := line
    command? := command?
    reason? := outcome.reason?.map MissReason.message }

def report (builder : ReportBuilder) (site : document.Node) (siteKind : SiteKind)
    (siteName : String) (outcome : Outcome document.Node) : Checked SiteReport :=
  (builder.command? outcome).map (builder.reportOn site siteKind siteName outcome)

end ReportBuilder
end CommandWiring
