import CommandWiring.Path.Basic

/-!
# Names that are no texts

To a file system a name is a sequence of bytes, which need not be a text in UTF-8. A path with such
a name is no text either, and can only be shown as one.
-/

namespace CommandWiring
namespace Path

/-!
# Bytes that are no text
-/

def ofBytes? (bytes : List UInt8) : Option String :=
  String.fromUTF8? (ByteArray.mk bytes.toArray)

/-- The character that `bytes` spell, if they spell one. -/
def spelled? (bytes : List UInt8) : Option Char :=
  match (ofBytes? bytes).map String.toList with
  | some [c] => some c
  | _ => none

/-- Whether `bytes` spell a character as soon as more bytes follow. -/
def beginsChar (bytes : List UInt8) : Bool :=
  [1, 2, 3].any fun missing => (spelled? (bytes ++ List.replicate missing 0x80)).isSome

/-- How many of the bytes, which spell no character, are shown as one. -/
def brokenLength (bytes : List UInt8) : Nat :=
  if beginsChar (bytes.take 3) then 3 else if beginsChar (bytes.take 2) then 2 else 1

/-- The bytes as a text, in which replacement characters stand for what spells no character. -/
def shownBytes (bytes : List UInt8) : List Char :=
  go bytes.length bytes
where
  go : Nat -> List UInt8 -> List Char
  | 0, _ => []
  | _, [] => []
  | fuel + 1, bytes =>
      match [1, 2, 3, 4].findSome? fun length =>
          (spelled? (bytes.take length)).map fun c => (c, length) with
      | some (c, length) => c :: go fuel (bytes.drop length)
      | none => '\uFFFD' :: go fuel (bytes.drop (brokenLength bytes))

def slash : UInt8 := 0x2f

def dot : UInt8 := 0x2e

/-- Whether `bytes` are a name that is no text. -/
def isBrokenName (bytes : List UInt8) : Bool :=
  (ofBytes? bytes).isNone && !bytes.contains slash

/-!
# Names
-/

/-- The name of a file or a directory. -/
inductive Name where
  | plain (text : String) (isEntry : isEntryName text = true)
  | broken (bytes : List UInt8) (isBroken : isBrokenName bytes = true)
deriving DecidableEq

namespace Name

def ofText? (text : String) : Option Name :=
  if isEntry : isEntryName text = true then some (.plain text isEntry) else none

def ofBytes? (bytes : List UInt8) : Option Name :=
  match Path.ofBytes? bytes with
  | some text => ofText? text
  | none => if isBroken : isBrokenName bytes = true then some (.broken bytes isBroken) else none

def text? : Name -> Option String
  | plain text _ => some text
  | broken _ _ => none

def bytes : Name -> List UInt8
  | plain text _ => Text.bytes text
  | broken bytes _ => bytes

end Name

def Component.text? : Component Name -> Option String
  | root => some "/"
  | current => some "."
  | parent => some ".."
  | name entry => entry.text?

def inBytes : Script UInt8 Name where
  slash := slash
  dot := dot
  name? := Name.ofBytes?

end Path

/-- A place in the file system: the names from the top down. -/
abbrev Location := List Path.Name

/-!
# Paths
-/

/-- A path to the file system, for which any bytes will do. -/
structure OsPath where
  bytes : List UInt8
deriving DecidableEq

namespace OsPath

def ofText (path : String) : OsPath where
  bytes := Text.bytes path

/-- The path of the place called `name` in the directory `path`. -/
def push (path : OsPath) (name : Path.Name) : OsPath where
  bytes :=
    if path.bytes = [] ∨ path.bytes.getLast? = some Path.slash then path.bytes ++ name.bytes
    else path.bytes ++ Path.slash :: name.bytes

def components (path : OsPath) : List (Path.Component Path.Name) :=
  Path.inBytes.components path.bytes

def shown (path : OsPath) : String :=
  match Path.ofBytes? path.bytes with
  | some text => text
  | none => String.ofList (Path.shownBytes path.bytes)

end OsPath

def Location.path (location : Location) : OsPath :=
  location.foldl OsPath.push (.ofText "/")

namespace Path

/-!
# Relative paths
-/

inductive RelativeError where
  | outside (error : OutsideRoot)
  | invalidName
deriving DecidableEq

def RelativeError.message : RelativeError -> String
  | outside error => error.message
  | invalidName => "Path contains invalid UTF-8"

/-- What is left of `path` behind the components of `root`, as a text. -/
def stripped (path root : OsPath) : Except RelativeError String :=
  match below? root.components path.components with
  | none => .error (.outside { path := path.shown, root := root.shown })
  | some rest =>
      match rest.mapM Component.text? with
      | some texts => .ok (joinSegments texts)
      | none => .error .invalidName

/-- `path` seen from `root`. Where both lead somewhere, according to `canonical?`, the places that
they lead to are taken for them. Otherwise both are taken as given. -/
def relativeFrom (canonical? : OsPath -> Option Location) (path root : OsPath) :
    Except RelativeError String :=
  match canonical? path, canonical? root with
  | some place, some base => stripped (Location.path place) (Location.path base)
  | _, _ => stripped path root

end Path
end CommandWiring
