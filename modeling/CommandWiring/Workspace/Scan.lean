import CommandWiring.Path.Ignore
import CommandWiring.Scan.File
import CommandWiring.Workspace.Basic

/-!
# Scanning workspaces

The files of supported languages below a root are read and scanned together, so that a binder may
use a command that another file declares. Files that match an ignore pattern are left out.
-/

namespace CommandWiring
namespace Workspace

def ignoreFile : Path.Name :=
  .plain Path.ignoreFileName (by decide)

def ignorePatterns (system : FileSystem) (root : OsPath) :
    Except FileSystem.Unreadable (List String) :=
  let path := root.push ignoreFile
  match system.resolve? path with
  | none => .ok []
  | some _ => (system.readText path).map Path.ignorePatterns

/-!
# Finding files

Files are found by a pattern that begins with the root as it is shown and goes on with a slash. So
below the empty root the files of the whole file system are found, and below a root that is no text
those of the directory that is shown like it.
-/

/-- The root as the paths of what is found below it begin with it: without repeated slashes, and
without dots in front. -/
def spelledRoot (root : String) : String :=
  let segments := (Text.splitAt '/' (root ++ "/").toList).filter fun segment => !segment.isEmpty
  if (root ++ "/").toList.head? = some '/' then
    "/" ++ Path.joinSegments (segments.map String.ofList)
  else
    Path.joinSegments ((segments.dropWhile fun segment => segment == ['.']).map String.ofList)

def filesBelow (system : FileSystem) (base : Location) : List Location :=
  (system.entries.filter fun entry =>
    base.isPrefixOf entry.1 && entry.1 != base && entry.2.isFile).map Prod.fst

/-- Whether a place has the name of a file of a supported language. -/
def hasSupportedName (location : Location) : Bool :=
  (location.getLast?.bind Path.Name.text?).any Language.isSupported

/-- The files of supported languages below `root`. They are ordered name by name. -/
def discover (system : FileSystem) (root : OsPath) : List OsPath :=
  match system.resolve? (.ofText (root.shown ++ "/")) with
  | none => []
  | some base =>
      let found := (filesBelow system base).filter hasSupportedName
      (found.mergeSort Location.before).map fun location =>
        (location.drop base.length).foldl OsPath.push (.ofText (spelledRoot root.shown))

/-!
# Scanning
-/

inductive ScanError where
  | unreadable (error : FileSystem.Unreadable)
  | relative (error : Path.RelativeError)
deriving DecidableEq

def ScanError.message : ScanError -> String
  | unreadable error => error.message
  | relative error => error.message

structure Result where
  types : TypeSet
  reports : List FileReport
  summary : Summary

/-- Reads the file at `path`, called `relative`, unless it is ignored or cannot be read. -/
def readSource (system : FileSystem) (patterns : List String) (path : OsPath) (relative : String) :
    Logged (Option SourceFile) :=
  if Path.isIgnored patterns relative then pure none
  else
    match system.readText path with
    | .ok text => pure (some { path := relative, text := text })
    | .error error => .warned (.unreadableFile relative error.message) none

def relativePaths (system : FileSystem) (root : OsPath) (paths : List OsPath) :
    Except Path.RelativeError (List (OsPath × String)) :=
  paths.mapM fun path => (system.relative path root).map fun relative => (path, relative)

def readSources (system : FileSystem) (patterns : List String) (paths : List (OsPath × String)) :
    Logged (List SourceFile) :=
  (Logged.forEach (fun (path, relative) => readSource system patterns path relative) paths).map
    fun read => read.filterMap id

def scanSources (parser : Java.Parser) (options : ScanOptions) (sources : List SourceFile) :
    Checked (Logged Result) := do
  let ordered := sources.mergeSort fun first second => first.path ≤ second.path
  let types := Scan.commandTypes parser options ordered
  let scanned <- Scan.files parser options types.value ordered
  return types.andThen fun types => scanned.map fun reports =>
    { types := types, reports := reports, summary := Summary.ofReports reports }

def scan (parser : Java.Parser) (options : ScanOptions) (system : FileSystem) (root : OsPath) :
    Checked (Except ScanError (Logged Result)) :=
  match ignorePatterns system root with
  | .error error => .ok (.error (.unreadable error))
  | .ok patterns =>
      match relativePaths system root (discover system root) with
      | .error error => .ok (.error (.relative error))
      | .ok paths => do
          let read := readSources system patterns paths
          let scanned <- scanSources parser options read.value
          return .ok (read.andThen fun _ => scanned)

end Workspace
end CommandWiring
