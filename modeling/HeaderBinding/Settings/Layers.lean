import HeaderBinding.Settings.Conversion
import HeaderBinding.Settings.KeyPath

/-!
# Layers of settings

Settings come in layers, and a higher layer is put over the lower ones.
-/

namespace HeaderBinding

/-- What one source sets, and where. -/
abbrev Layer :=
  List (KeyPath × Setting)

namespace Layer

/-- The layer of a file. A key at the top of a file is read as a path if it is one. -/
def ofTable (t : SettingTable) : Layer :=
  t.map fun member => ((KeyPath.ofText? member.1).getD (.ofName member.1), member.2)

def apply (t : SettingTable) (layer : Layer) : SettingTable :=
  layer.foldl (fun t entry => entry.1.set entry.2 t) t

/-- The settings of all layers, the lowest one first. -/
def stack (layers : List Layer) : SettingTable :=
  layers.foldl apply []

/-- A setting from a text of the form `NAME=VALUE`. The value is always a text. -/
def override (argument : String) : Except SettingsError (KeyPath × Setting) :=
  match argument.toList.dropWhile (· ≠ '=') with
  | [] => .error (.noEquals argument)
  | _ :: value =>
      let name := String.ofList (argument.toList.takeWhile (· ≠ '='))
      match KeyPath.ofText? name with
      | some path => .ok (path, .text (String.ofList value))
      | none => .error (.badPath name)

/-- The layer of overrides. The first one at fault is reported. -/
def ofOverrides (arguments : List String) : Except SettingsError Layer :=
  arguments.mapM override

end Layer
end HeaderBinding
