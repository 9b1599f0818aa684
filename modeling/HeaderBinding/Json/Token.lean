/-!
# JSON tokens

A text is read as far as it goes: what cannot be read is itself a token, and the
first one that matters decides how the text is refused. Which one matters depends
on whether a value is read for its content or only passed over, so every scalar
carries both outcomes.
-/

namespace HeaderBinding
namespace Json

/-- How a text is refused: it is no JSON, it ends too early, or it is JSON of the
wrong shape. -/
inductive Fault where
  | malformed
  | cutOff
  | misshapen
  deriving DecidableEq, Repr

/-- A scalar as it is read for its content and as it is passed over. -/
structure Scan (α : Type) where
  content : Except Fault α
  passing : Option Fault

namespace Scan

def map (f : α → β) (scan : Scan α) : Scan β :=
  ⟨scan.content.map f, scan.passing⟩

def whole (a : α) : Scan α :=
  ⟨.ok a, none⟩

def broken (fault : Fault) : Scan α :=
  ⟨.error fault, some fault⟩

end Scan

/-- Scalars. A number is kept only if it is a natural number of 64 bits; of any
other it is enough to know that it is a number. -/
inductive Atom where
  | null
  | flag (value : Bool)
  | number (value : Option UInt64)
  | text (value : String)

inductive Token where
  | openObject
  | closeObject
  | openArray
  | closeArray
  | colon
  | comma
  | text (scan : Scan String)
  | atom (scan : Scan Atom)
  | stray

end Json
end HeaderBinding
