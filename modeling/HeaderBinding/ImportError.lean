import HeaderBinding.Extraction
import HeaderBinding.Files.OsError
import HeaderBinding.Json.Token
import HeaderBinding.Settings.Conversion

/-!
# What can stop an import
-/

namespace HeaderBinding

inductive ImportError where
  | settings (error : SettingsError)
  | missingHeader
  | notStarted (program : String) (error : Files.OsError)
  | frontEndFailed (program header : String) (status : Nat) (report : String)
  | badDump (header : String) (fault : Json.Fault)
  | refused (error : ExtractionError)
  | notWritten (path : String) (error : Files.OsError)
  deriving DecidableEq, Repr

namespace ImportError

def faultText : Json.Fault → String
  | .malformed => "not JSON"
  | .cutOff => "the text ends early"
  | .misshapen => "not a declaration tree"

def message : ImportError → String
  | settings error => error.message
  | missingHeader => "no header given"
  | notStarted program error => "failed to run " ++ program ++ ": " ++ error.message
  | frontEndFailed program header status report =>
      program ++ " exited with exit status: " ++ toString status ++ " while parsing " ++
        header ++ ":\n" ++ report
  | badDump header fault =>
      "could not parse the AST dump of " ++ header ++ ": " ++ faultText fault
  | refused error => error.message
  | notWritten path error => "failed to write " ++ path ++ ": " ++ error.message

end ImportError
end HeaderBinding
