import HeaderBinding.Text.Order
import HeaderBinding.Text.Quoted

/-!
# What an import reports

Every event has a level and one line of text.
-/

namespace HeaderBinding

inductive Level where
  | debug
  | info
  | warn
  deriving DecidableEq, Repr

def Level.label : Level → String
  | debug => "DEBUG"
  | info => "INFO"
  | warn => "WARN"

inductive Event where
  | unknownKey (key : String)
  | running (command : List String)
  | parsed (header : String) (children : Nat)
  | extracting (header : String)
  | passingThrough (name : String)
  | skippingRecord (name : Option String)
  | skippingEnumeration (name : Option String)
  | extracted (summary : String)
  | writingDiagnostics (summary path : String)
  | persisting (temporary path : String)
  | wrote (path module : String)
  deriving DecidableEq, Repr

namespace Event

open Text

def level : Event → Level
  | unknownKey _ => .warn
  | parsed _ _ => .info
  | extracted _ => .info
  | wrote _ _ => .info
  | _ => .debug

def message : Event → String
  | unknownKey key => "unknown config key " ++ key
  | running command => "Running " ++ " ".intercalate (command.map quotedWord)
  | parsed header children =>
      "Parsed " ++ header ++ " (" ++ toString children ++ " top-level nodes)"
  | extracting header => "Extracting declarations from the C AST for " ++ header
  | passingThrough name => "Passing through unrecognized type " ++ quoted name
  | skippingRecord name =>
      "Skipping anonymous or forward-declared record " ++ quotedOption name
  | skippingEnumeration name => "Skipping anonymous enum " ++ quotedOption name
  | extracted summary => "Extracted " ++ summary
  | writingDiagnostics summary path => "Writing " ++ summary ++ " to " ++ path
  | persisting temporary path => "Persisting " ++ temporary ++ " to " ++ path
  | wrote path module => "Wrote " ++ path ++ " (module " ++ module ++ ")"

def line (e : Event) : String :=
  e.level.label ++ " " ++ e.message

/-- Whether a report does not depend on names that are made up. -/
def isReproducible : Event → Bool
  | persisting _ _ => false
  | _ => true

/-- The reports on unknown keys below a place, in the order of the keys. -/
def unknownKeys (place : String) (keys : List String) : List Event :=
  (sortByName id keys).map fun key =>
    .unknownKey (if place = "" then key else place ++ "." ++ key)

end Event
end HeaderBinding
