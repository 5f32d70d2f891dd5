import CommandWiring.Path.Basic

/-!
# Languages

The language of a file is told by the extension of its path. Java is the only one.
-/

namespace CommandWiring
namespace Language

def supported : List String :=
  ["java"]

def ofExtension? (ending : String) : Option String :=
  if ending = "java" then some "java" else none

def ofPath? (path : String) : Option String :=
  (Path.extension? path).bind ofExtension?

def isSupported (path : String) : Bool :=
  (ofPath? path).isSome

end Language
end CommandWiring
