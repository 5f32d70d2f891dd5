import CommandWiring.Report.Context
import CommandWiring.Text.Pattern

/-!
# Options of a scan
-/

namespace CommandWiring

structure ScanOptions where
  /-- Whether a call of this name is a binder. -/
  acceptsBinder : String -> Bool
  scanConstructors : Bool
  commandMarkers : List String
  context : ContextOptions

namespace ScanOptions

open Text (Pattern CharClass)

def defaultPatternText : String :=
  "^[a-z][A-Za-z0-9_]*Binder$"

def lowerCase : CharClass :=
  .range 'a' 'z'

def nameTail : CharClass :=
  .union (.union (.union lowerCase (.range 'A' 'Z')) (.range '0' '9')) (.single '_')

/-- Binders begin with a small letter and end in `Binder`. -/
def defaultPattern : Pattern :=
  let letters := "Binder".toList.map fun c => Pattern.char (.single c)
  .sequence .atStart
    (.sequence (.char lowerCase)
      (.sequence (.repeated (.char nameTail)) (letters.foldr .sequence .atEnd)))

def defaultMarkers : List String :=
  ["Command", "CommandImpl", "AnonCmd"]

def default : ScanOptions where
  acceptsBinder := defaultPattern.isMatch
  scanConstructors := true
  commandMarkers := defaultMarkers
  context := {}

end ScanOptions
end CommandWiring
