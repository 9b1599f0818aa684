/-!
# Command lines

A command line is read word by word. A long option starts with two dashes, short
ones may stand together behind one dash, and two dashes alone end the options. The
value of an option is looked at when the next option or operand has been found,
not before.
-/

namespace HeaderBinding

structure CommandLine where
  settings : List String
  includes : List String
  defines : List String
  links : List String
  header : Option String
  moduleName : Option String
  output : Option String
  target : Option String
  printsConfigPath : Bool
  verbose : Bool
  deriving DecidableEq, Repr

inductive UsageError where
  | unknownArgument
  | invalidValue
  | conflict
  | tooManyValues
  | helpWanted
  deriving DecidableEq, Repr

/-- What a value on the command line is for. -/
inductive Parameter where
  | setting
  | includePath
  | define
  | link
  | header
  | moduleName
  | output
  | target
  deriving DecidableEq, Repr

inductive Flag where
  | printConfigPath
  | verbose
  | help
  deriving DecidableEq, Repr

/-- What an option stands for. -/
inductive Meaning where
  | parameter (p : Parameter)
  | flag (f : Flag)
  deriving DecidableEq, Repr

namespace CommandLine

def empty : CommandLine :=
  ⟨[], [], [], [], none, none, none, none, false, false⟩

def long? : String → Option Meaning
  | "config" => some (.parameter .setting)
  | "include" => some (.parameter .includePath)
  | "define" => some (.parameter .define)
  | "link" => some (.parameter .link)
  | "module" => some (.parameter .moduleName)
  | "output" => some (.parameter .output)
  | "target" => some (.parameter .target)
  | "print-config-path" => some (.flag .printConfigPath)
  | "verbose" => some (.flag .verbose)
  | "help" => some (.flag .help)
  | _ => none

def short? : Char → Option Meaning
  | 'c' => some (.parameter .setting)
  | 'I' => some (.parameter .includePath)
  | 'D' => some (.parameter .define)
  | 'l' => some (.parameter .link)
  | 'o' => some (.parameter .output)
  | 'v' => some (.flag .verbose)
  | 'h' => some (.flag .help)
  | _ => none

/-!
# Values and flags
-/

def once (old : Option String) (value : String) : Except UsageError (Option String) :=
  match old with
  | some _ => .error .conflict
  | none => .ok (some value)

/-- A path is never empty. -/
def checkPath (value : String) : Except UsageError Unit :=
  if value = "" then .error .invalidValue else .ok ()

def set (c : CommandLine) (value : String) : Parameter → Except UsageError CommandLine
  | .setting => .ok { c with settings := c.settings ++ [value] }
  | .define => .ok { c with defines := c.defines ++ [value] }
  | .link => .ok { c with links := c.links ++ [value] }
  | .includePath => do
      checkPath value
      return { c with includes := c.includes ++ [value] }
  | .header => do
      let header ← once c.header value
      checkPath value
      return { c with header }
  | .output => do
      let output ← once c.output value
      checkPath value
      return { c with output }
  | .moduleName => do
      let moduleName ← once c.moduleName value
      return { c with moduleName }
  | .target => do
      let target ← once c.target value
      return { c with target }

def raise (c : CommandLine) : Flag → Except UsageError CommandLine
  | .printConfigPath =>
      if c.printsConfigPath then .error .conflict else .ok { c with printsConfigPath := true }
  | .verbose => if c.verbose then .error .conflict else .ok { c with verbose := true }
  | .help => .error .helpWanted

/-!
# Words
-/

/-- The part of a command line that has been read, and the option or operand found
last, which may still wait for its value. -/
structure Reading where
  line : CommandLine
  pending : Option (Parameter × Option String)
  hasOperand : Bool

namespace Reading

def start : Reading :=
  ⟨.empty, none, false⟩

/-- Looks at the value that was put off. An option without one is refused. -/
def settle (r : Reading) : Except UsageError Reading :=
  match r.pending with
  | none => .ok r
  | some (_, none) => .error .invalidValue
  | some (p, some value) => do
      let line ← r.line.set value p
      return { r with line, pending := none }

def waitFor (r : Reading) (p : Parameter) : Except UsageError Reading := do
  let r ← r.settle
  return { r with pending := some (p, none) }

/-- Takes an option with the value that is written in the same word. -/
def give (r : Reading) (p : Parameter) (value : String) : Except UsageError Reading := do
  let r ← r.settle
  let line ← r.line.set value p
  return { r with line }

def raise (r : Reading) (f : Flag) : Except UsageError Reading := do
  let r ← r.settle
  let line ← r.line.raise f
  return { r with line }

/-- There is a single operand, the header. -/
def takeOperand (r : Reading) (word : String) : Except UsageError Reading :=
  if r.hasOperand then .error .unknownArgument
  else do
    let r ← r.settle
    return { r with pending := some (.header, some word), hasOperand := true }

/-- Takes a long option without its dashes. -/
def takeLong (r : Reading) (word : List Char) : Except UsageError Reading :=
  match long? (String.ofList (word.takeWhile (· ≠ '='))), word.dropWhile (· ≠ '=') with
  | none, _ => .error .unknownArgument
  | some (.parameter p), _ :: value => r.give p (String.ofList value)
  | some (.parameter p), [] => r.waitFor p
  | some (.flag _), _ :: _ => .error .tooManyValues
  | some (.flag f), [] => r.raise f

/-- Takes short options without their dash. An option with a value takes what
remains of the word, less an equals sign in front. -/
def takeShort (r : Reading) : List Char → Except UsageError Reading
  | [] => .ok r
  | c :: rest =>
      match short? c with
      | none => .error .unknownArgument
      | some (.flag f) => do takeShort (← r.raise f) rest
      | some (.parameter p) =>
          match rest with
          | [] => r.waitFor p
          | '=' :: value => r.give p (String.ofList value)
          | value => r.give p (String.ofList value)

/-- Takes a word that is no option. -/
def takePlain (r : Reading) (word : String) : Except UsageError Reading :=
  match r.pending with
  | some (p, none) => .ok { r with pending := some (p, some word) }
  | _ => r.takeOperand word

def take (r : Reading) (word : String) : Except UsageError Reading :=
  match word.toList with
  | '-' :: '-' :: option => r.takeLong option
  | '-' :: c :: options => r.takeShort (c :: options)
  | _ => r.takePlain word

def takeAll (r : Reading) : List String → Except UsageError Reading
  | [] => .ok r
  | word :: words =>
      if word = "--" then words.foldlM takeOperand r
      else do (← r.take word).takeAll words

end Reading

/-- Reads the words of a command line. -/
def ofWords (words : List String) : Except UsageError CommandLine := do
  return (← (← Reading.start.takeAll words).settle).line

end CommandLine

namespace UsageError

def message : UsageError → String
  | unknownArgument => "unexpected argument"
  | invalidValue => "a value is missing or not valid"
  | conflict => "an option is given more than once"
  | tooManyValues => "a flag takes no value"
  | helpWanted =>
      "Generates a foreign-binding module from a C header\n\n" ++
        "Usage: c-import [OPTIONS] [HEADER]\n\n" ++
        "  -c, --config <NAME=VALUE>  Set a configuration value\n" ++
        "  -I, --include <DIRECTORY>  Additional include directory\n" ++
        "  -D, --define <NAME=VALUE>  Macro definition\n" ++
        "  -l, --link <LIBRARY>       Native library the module links against\n" ++
        "      --module <NAME>        Name of the generated module\n" ++
        "  -o, --output <PATH>        Path of the binding module to write\n" ++
        "      --target <TARGET>      Target triple\n" ++
        "      --print-config-path    Prints out the location of the config file\n" ++
        "  -v, --verbose              Log debug messages\n" ++
        "  -h, --help                 Print help"

end UsageError
end HeaderBinding
