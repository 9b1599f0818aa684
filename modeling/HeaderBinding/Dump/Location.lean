/-!
# Where a node was written

A location has up to two positions: where the text was spelled and where it was
expanded. They differ only inside macros.
-/

namespace HeaderBinding
namespace Dump

structure Position where
  offset : UInt64
  file : String
  line : UInt64
  presumedFile : Option String
  presumedLine : Option UInt64
  column : UInt64
  tokenLength : UInt64
  includedFrom : Option String
  inMacroArgument : Bool
  deriving DecidableEq

structure Location where
  spelling : Option Position
  expansion : Option Position
  deriving DecidableEq

structure Range where
  start : Location
  stop : Location
  deriving DecidableEq

namespace Location

def none : Location :=
  ⟨.none, .none⟩

def plain (p : Position) : Location :=
  ⟨some p, some p⟩

/-- The position that decides which file a node belongs to. -/
def deciding (l : Location) : Option Position :=
  l.expansion.or l.spelling

end Location
end Dump
end HeaderBinding
