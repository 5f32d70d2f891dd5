import CommandWiring.Text.Lines

/-!
# Paths

A path is a text of segments between slashes. Empty segments do not count, and neither does a single
dot, unless it begins a path that does not start at the root.
-/

namespace CommandWiring
namespace Path

/-- A component of a path in which the names are of the type `N`. -/
inductive Component (N : Type) where
  | root
  | current
  | parent
  | name (name : N)
deriving DecidableEq, Repr

def Component.text : Component String -> String
  | root => "/"
  | current => "."
  | parent => ".."
  | name text => text

/-!
# Components
-/

/-- In what paths are written, and which segments are names. -/
structure Script (α N : Type) where
  slash : α
  dot : α
  name? : List α -> Option N

namespace Script

variable {α N : Type} [DecidableEq α] (script : Script α N)

def ofSegment? (segment : List α) : Option (Component N) :=
  if segment = [] ∨ segment = [script.dot] then none
  else if segment = [script.dot, script.dot] then some .parent
  else (script.name? segment).map .name

/-- The component that stands in front only. -/
def lead? (path : List α) : Option (Component N) :=
  if path.head? = some script.slash then some .root
  else if (Text.splitAt script.slash path).head? = some [script.dot] then some .current
  else none

def innerComponents (path : List α) : List (Component N) :=
  (Text.splitAt script.slash path).filterMap script.ofSegment?

def components (path : List α) : List (Component N) :=
  (script.lead? path).toList ++ script.innerComponents path

end Script

def written : Script Char String where
  slash := '/'
  dot := '.'
  name? segment := some (String.ofList segment)

def components (path : String) : List (Component String) :=
  written.components path.toList

/-- Whether `name` can be the name of a file or a directory. -/
def isEntryName (name : String) : Bool :=
  !name.toList.contains '/' && written.ofSegment? name.toList == some (.name name)

def fileName? (path : String) : Option String :=
  match (components path).getLast? with
  | some (.name text) => some text
  | _ => none

/-- What stands behind the last dot of a file name. A dot in the first place does not count. -/
def extension? (path : String) : Option String :=
  match fileName? path with
  | none => none
  | some file =>
      let reversed := file.toList.reverse
      let ending := reversed.takeWhile (· != '.')
      match reversed.dropWhile (· != '.') with
      | [] => none
      | [_] => none
      | _ => some (String.ofList ending.reverse)

/-- Where `path` leads from the directory `base`. A path from the top leads there from anywhere. -/
def join (base path : String) : String :=
  if path.toList.head? = some '/' then path
  else if base = "" ∨ base.toList.getLast? = some '/' then base ++ path
  else base ++ "/" ++ path

/-!
# Relative paths
-/

/-- What is left of `path` behind the components of `root`. -/
def below? {N : Type} [DecidableEq N] :
    List (Component N) -> List (Component N) -> Option (List (Component N))
  | [], path => some path
  | _ :: _, [] => none
  | first :: root, component :: path => if first = component then below? root path else none

def joinSegments (segments : List String) : String :=
  "/".intercalate segments

structure OutsideRoot where
  path : String
  root : String
deriving DecidableEq

def OutsideRoot.message (error : OutsideRoot) : String :=
  "File path '" ++ error.path ++ "' is not within workspace root '" ++ error.root ++ "'"

/-- `path` seen from `root`. Both are taken as written, component by component. -/
def relative (path root : String) : Except OutsideRoot String :=
  match below? (components root) (components path) with
  | some rest => .ok (joinSegments (rest.map Component.text))
  | none => .error { path := path, root := root }

/-!
# Separators
-/

def slashed (path : String) : String :=
  String.ofList (path.toList.map fun c => if c = '\\' then '/' else c)

end Path
end CommandWiring
