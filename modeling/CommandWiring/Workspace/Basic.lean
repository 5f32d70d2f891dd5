import CommandWiring.Path.Name

/-!
# Workspaces

A workspace is a directory with files and directories below it, seen as a value. Places in it are
lists of names from the top of the file system down. There are no symbolic links, so each place has
one such list, and a path that does not begin at the top leads from there as well: the top is the
directory in which paths are looked up.
-/

namespace CommandWiring

inductive Entry where
  | directory
  | file (bytes : ByteArray)

def Entry.isFile : Entry -> Bool
  | directory => false
  | file _ => true

/-- Everything there is in a file system, each place once. Directories above a listed place exist as
well, and there is nothing below a file. -/
structure FileSystem where
  entries : List (Location × Entry)
  once : (entries.map Prod.fst).Nodup
  solid : ∀ entry ∈ entries, entry.2.isFile = true ->
    ∀ other ∈ entries, entry.1.isPrefixOf other.1 = true -> other.1 = entry.1

namespace FileSystem

/-!
# Building a file system
-/

/-- `entries` without those that a later one for the same place replaces. -/
def latest (entries : List (Location × Entry)) : List (Location × Entry) :=
  entries.foldl (fun kept entry => kept.filter (fun other => other.1 != entry.1) ++ [entry]) []

/-- The file system that results if `entries` are written one after the other, if that is possible.
-/
def ofEntries? (entries : List (Location × Entry)) : Option FileSystem :=
  let kept := latest entries
  if h : (kept.map Prod.fst).Nodup ∧
      (∀ entry ∈ kept, entry.2.isFile = true ->
        ∀ other ∈ kept, entry.1.isPrefixOf other.1 = true -> other.1 = entry.1) then
    some { entries := kept, once := h.1, solid := h.2 }
  else
    none

def empty : FileSystem where
  entries := []
  once := by simp
  solid := by simp

/-!
# Looking up places
-/

def entry? (system : FileSystem) (location : Location) : Option Entry :=
  match system.entries.find? fun entry => entry.1 == location with
  | some (_, entry) => some entry
  | none =>
      if location = [] ∨ system.entries.any (fun entry => location.isPrefixOf entry.1) then
        some .directory
      else none

def isDirectory (system : FileSystem) (location : Location) : Bool :=
  match system.entry? location with
  | some .directory => true
  | _ => false

/-!
# Resolving paths

A path leads from the top through its components. Every component but the last must lead to a
directory, and so must the last one where a slash or a dot stands behind it.
-/

def follow? (system : FileSystem) (location : Location) :
    List (Path.Component Path.Name) -> Option Location
  | [] => some location
  | component :: rest =>
      if system.isDirectory location then
        match component with
        | .root => follow? system [] rest
        | .current => follow? system location rest
        | .parent => follow? system location.dropLast rest
        | .name name =>
            let next := location ++ [name]
            if (system.entry? next).isSome then follow? system next rest else none
      else none

/-- Whether a path ends in a way that only the path of a directory can have. -/
def asksForDirectory (path : OsPath) : Bool :=
  match (Text.splitAt Path.slash path.bytes).getLast? with
  | some [] => true
  | some [last] => last == Path.dot
  | _ => false

/-- The place that a path leads to, if there is something. The empty path leads nowhere. -/
def resolve? (system : FileSystem) (path : OsPath) : Option Location :=
  if path.bytes = [] then none
  else
    match follow? system [] path.components with
    | none => none
    | some location =>
        if asksForDirectory path && !system.isDirectory location then none else some location

/-!
# Reading files
-/

/-- A file that is not there, is a directory, or holds no text. -/
structure Unreadable where
  path : String
deriving DecidableEq

def Unreadable.message (error : Unreadable) : String :=
  "Failed to read " ++ error.path

def readText (system : FileSystem) (path : OsPath) : Except Unreadable String :=
  let text? := (system.resolve? path).bind fun location =>
    match system.entry? location with
    | some (.file bytes) => String.fromUTF8? bytes
    | _ => none
  match text? with
  | some text => .ok text
  | none => .error { path := path.shown }

/-- `path` seen from `root`. Where both exist they are resolved first. -/
def relative (system : FileSystem) (path root : OsPath) : Except Path.RelativeError String :=
  Path.relativeFrom system.resolve? path root

end FileSystem

/-- Names compare byte by byte, and places name by name. -/
def Location.before (first second : Location) : Bool :=
  !(second.map Path.Name.bytes < first.map Path.Name.bytes)

end CommandWiring
