import CommandWiring.Report.Basic

/-!
# Descriptions

A short text about a report, for a reader at a prompt. Texts stand between quotes as they are.
-/

namespace CommandWiring

def SiteReport.describe (report : SiteReport) : String :=
  let site :=
    "CommandReport(site='" ++ report.siteName ++ "', line=" ++ toString report.siteLine.toNat
  match report.command? with
  | some command => site ++ ", " ++ command.kind.label ++ "='" ++ command.text ++ "')"
  | none => site ++ ", reason='" ++ report.reason?.getD "" ++ "')"

def FileReport.describe (report : FileReport) : String :=
  "FileReport(file_path='" ++ report.filePath ++ "', reports=" ++
    toString report.reports.length ++ ", found=" ++ toString report.found.length ++ ")"

end CommandWiring
