/-!
# Foreign types

The types of the binding language. A C type without a counterpart passes through
under its own name.
-/

namespace HeaderBinding

inductive ForeignType where
  | void
  | bool
  | i8
  | u8
  | i16
  | u16
  | i32
  | u32
  | i64
  | u64
  | f32
  | f64
  | usize
  | isize
  | cstring
  | constCString
  | ptr (target : ForeignType)
  | named (name : String)
  deriving DecidableEq, Repr

namespace ForeignType

/-- The text of a type in a binding module. -/
def token : ForeignType → String
  | void => "c.void"
  | bool => "c.bool"
  | i8 => "c.i8"
  | u8 => "c.u8"
  | i16 => "c.i16"
  | u16 => "c.u16"
  | i32 => "c.i32"
  | u32 => "c.u32"
  | i64 => "c.i64"
  | u64 => "c.u64"
  | f32 => "c.f32"
  | f64 => "c.f64"
  | usize => "c.usize"
  | isize => "c.isize"
  | cstring => "c.cstring"
  | constCString => "c.const_cstring"
  | ptr target => "c.ptr<" ++ target.token ++ ">"
  | named name => name

/-- The name that passes through at the bottom of a type, if one does. -/
def opaqueName? : ForeignType → Option String
  | named name => some name
  | ptr target => target.opaqueName?
  | _ => none

end ForeignType
end HeaderBinding
