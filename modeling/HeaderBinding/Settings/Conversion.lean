import HeaderBinding.Settings.Setting
import HeaderBinding.Text.Quoted

/-!
# Settings as values

A text may be written as any scalar, and so may a flag. What cannot be converted is
reported by its place.
-/

namespace HeaderBinding

/-- Why settings make no configuration. -/
inductive SettingsError where
  | noEquals (argument : String)
  | badPath (name : String)
  | badFile (path : String)
  | missing (key : String)
  | notConvertible (key : String)
  | notAList (key : String)
  deriving DecidableEq, Repr

namespace SettingsError

def message : SettingsError → String
  | noEquals argument =>
      "failed to parse config value " ++ Text.quoted argument ++ "; no '=' found"
  | badPath name => "invalid configuration: " ++ Text.quoted name ++ " is no path"
  | badFile path => "invalid configuration: cannot read " ++ path
  | missing key => "invalid configuration: missing field " ++ Text.quoted key
  | notConvertible key => "invalid configuration: invalid type for key `" ++ key ++ "`"
  | notAList key => "invalid configuration: expected a sequence for key `" ++ key ++ "`"

end SettingsError

namespace Setting

def flagText (b : Bool) : String :=
  if b then "true" else "false"

def text? : Setting → Option String
  | flag b => some (flagText b)
  | integer n => some (toString n)
  | float f => some f.text
  | text s => some s
  | _ => none

def yesWords : List String :=
  ["1", "true", "on", "yes"]

def noWords : List String :=
  ["0", "false", "off", "no"]

/-- A word for yes or no, in any case. -/
def flagWord? (s : String) : Option Bool :=
  let word := String.ofList (s.toList.map Char.toLower)
  if yesWords.contains word then some true
  else if noWords.contains word then some false
  else none

def flag? : Setting → Option Bool
  | flag b => some b
  | integer n => some (n ≠ 0)
  | float f => some (!f.isZero)
  | text s => flagWord? s
  | _ => none

def toText (key : String) (v : Setting) : Except SettingsError String :=
  match v.text? with
  | some s => .ok s
  | none => .error (.notConvertible key)

def toFlag (key : String) (v : Setting) : Except SettingsError Bool :=
  match v.flag? with
  | some b => .ok b
  | none => .error (.notConvertible key)

def toOptionalText (key : String) : Setting → Except SettingsError (Option String)
  | null => .ok none
  | v => (v.toText key).map some

def itemKey (key : String) (index : Nat) : String :=
  key ++ "[" ++ toString index ++ "]"

def toTexts (key : String) : Setting → Except SettingsError (List String)
  | array items => items.zipIdx.mapM fun item => item.1.toText (itemKey key item.2)
  | _ => .error (.notAList key)

end Setting

/-- The kinds of values that settings are converted to. -/
inductive ValueKind where
  | text
  | optionalText
  | texts
  | flag
  deriving DecidableEq, Repr

namespace ValueKind

def Value : ValueKind → Type
  | text => String
  | optionalText => Option String
  | texts => List String
  | flag => Bool

def convert : (kind : ValueKind) → String → Setting → Except SettingsError kind.Value
  | text => Setting.toText
  | optionalText => Setting.toOptionalText
  | texts => Setting.toTexts
  | flag => Setting.toFlag

end ValueKind
end HeaderBinding
