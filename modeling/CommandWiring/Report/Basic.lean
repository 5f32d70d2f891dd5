import CommandWiring.Extraction.Outcome
import CommandWiring.Digest.MD5
import CommandWiring.Path.Basic

/-!
# Reports

A report records one search for a command: where it began, and the command found or the reason why
there is none. Lines count from one, columns and bytes from zero.
-/

namespace CommandWiring

structure FoundCommand where
  kind : MatchKind
  text : String
  startLine : UInt32
  startColumn : UInt32
  endLine : UInt32
  endColumn : UInt32
  startByte : UInt32
  endByte : UInt32
  context? : Option String
deriving DecidableEq

structure SiteReport where
  id : String
  filePath : String
  siteKind : SiteKind
  siteName : String
  siteLine : UInt32
  command? : Option FoundCommand
  reason? : Option String
deriving DecidableEq

/-- The reports of one file. A file that was not looked at has no language and no digest. -/
structure FileReport where
  filePath : String
  language : String
  contentHash : String
  reports : List SiteReport
deriving DecidableEq

namespace FileReport

def empty (path : String) : FileReport where
  filePath := path
  language := ""
  contentHash := ""
  reports := []

def found (report : FileReport) : List SiteReport :=
  report.reports.filter fun site => site.command?.isSome

def notFound (report : FileReport) : List SiteReport :=
  report.reports.filter fun site => site.command?.isNone

end FileReport

/-!
# Summaries
-/

structure Summary where
  files : Nat
  sites : Nat
  commands : Nat
  unresolved : Nat
deriving DecidableEq, Repr

def Summary.ofReports (reports : List FileReport) : Summary where
  files := reports.length
  sites := (reports.flatMap FileReport.reports).length
  commands := (reports.flatMap FileReport.found).length
  unresolved := (reports.flatMap FileReport.notFound).length

/-!
# Identifiers

A report is identified by the digest of its file, the name of its site and the place of the site.
-/

namespace SiteReport

def idSource (path name : String) (line column : UInt32) : String :=
  path ++ ":" ++ name ++ ":" ++ toString line.toNat ++ ":" ++ toString column.toNat

def idOf (path name : String) (line column : UInt32) : String :=
  Digest.MD5.hex (idSource path name line column)

end SiteReport
end CommandWiring
