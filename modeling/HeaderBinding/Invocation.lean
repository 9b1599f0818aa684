import HeaderBinding.Import

/-!
# Invocations

What a command line leads to: it is refused, it asks for a piece of information, or
it starts a run.
-/

namespace HeaderBinding

inductive Invocation where
  | refused (error : UsageError)
  | printed (text : String)
  | ran (run : Run)

namespace Invocation

/-- What is printed about the place of the user's configuration file. -/
def configPathText (directory : Option String) : String :=
  match directory with
  | some directory =>
      "Config file location: " ++ Text.quoted (Files.join directory Configuration.fileName) ++ "\n"
  | none => "No config file location: home directory not found\n"

/-- Runs what the settings and the options ask for, after the reports on settings
that mean nothing. -/
def start (s : Files.Store) (programs : Files.Place → Option FrontEnd.Outcome)
    (directory : Option String) (line : CommandLine) (order : Arrangement := .asSet) : Run :=
  match Configuration.load s line directory order with
  | .error e => ⟨s, [], .error (.settings e)⟩
  | .ok c =>
      let run := c.run s programs
      { run with log := c.unknownKeyEvents ++ run.log }

/-- Follows a command line, given the directory for the user's configuration. -/
def ofWords (s : Files.Store) (programs : Files.Place → Option FrontEnd.Outcome)
    (directory : Option String) (words : List String) (order : Arrangement := .asSet) :
    Invocation :=
  match CommandLine.ofWords words with
  | .error e => .refused e
  | .ok line =>
      if line.printsConfigPath then .printed (configPathText directory)
      else .ran (start s programs directory line order)

end Invocation
end HeaderBinding
