import CommandWiring.Path.Basic
import CommandWiring.Scan.File

/-!
# What is offered to scripts

Scripts reach the scanner through a few operations and two kinds of record, under the names listed
here. An operation that fails says so in one line.
-/

namespace CommandWiring
namespace Catalogue

def version : String :=
  "0.1.0"

def names : List String :=
  ["CommandReport", "FileReport", "collect_command_types", "extract_commands",
    "extract_files_batch", "hash_content"]

def extractCommands (parser : Java.Parser) (types : List String) (source : SourceFile) :
    Checked (Except String FileReport) := do
  match <- Scan.file parser .default (.ofList types) source with
  | .ok report => return .ok report.value
  | .error error => return .error ("Extraction failed: " ++ error.message)

def extractFiles (parser : Java.Parser) (types : List String) (sources : List SourceFile) :
    Checked (List FileReport) :=
  (Scan.files parser .default (.ofList types) sources).map Logged.value

/-- The command types that `sources` declare. Without `markers?` the default ones count. -/
def collectCommandTypes (parser : Java.Parser) (markers? : Option (List String))
    (sources : List SourceFile) : List String :=
  let options := match markers? with
    | some markers => { ScanOptions.default with commandMarkers := markers }
    | none => .default
  (Scan.commandTypes parser options sources).value.names

def hashContent (content : String) : String :=
  Digest.BLAKE3.hex content

end Catalogue
end CommandWiring
