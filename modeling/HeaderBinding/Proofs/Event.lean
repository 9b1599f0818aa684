import HeaderBinding.Event

/-!
# Kinds of log lines

A line of a log starts with its level and the words of its kind. No kind starts like another
one, so a line tells its kind.
-/

namespace HeaderBinding

/-- Whether a line of a log starts with the given text. -/
def StartsWith (start line : String) : Prop :=
  start.toList <+: line.toList

instance (start line : String) : Decidable (StartsWith start line) :=
  inferInstanceAs (Decidable (_ <+: _))

namespace Event

inductive Kind where
  | unknownKey
  | running
  | parsed
  | extracting
  | passingThrough
  | skippingRecord
  | skippingEnumeration
  | extracted
  | writingDiagnostics
  | persisting
  | wrote
  deriving DecidableEq

def kind : Event → Kind
  | unknownKey _ => .unknownKey
  | running _ => .running
  | parsed _ _ => .parsed
  | extracting _ => .extracting
  | passingThrough _ => .passingThrough
  | skippingRecord _ => .skippingRecord
  | skippingEnumeration _ => .skippingEnumeration
  | extracted _ => .extracted
  | writingDiagnostics _ _ => .writingDiagnostics
  | persisting _ _ => .persisting
  | wrote _ _ => .wrote

namespace Kind

def level : Kind → Level
  | unknownKey => .warn
  | parsed | extracted | wrote => .info
  | _ => .debug

/-- How the messages of a kind start. -/
def text : Kind → String
  | unknownKey => "unknown config key "
  | running => "Running "
  | parsed => "Parsed "
  | extracting => "Extracting declarations from the C AST for "
  | passingThrough => "Passing through unrecognized type "
  | skippingRecord => "Skipping anonymous or forward-declared record "
  | skippingEnumeration => "Skipping anonymous enum "
  | extracted => "Extracted "
  | writingDiagnostics => "Writing "
  | persisting => "Persisting "
  | wrote => "Wrote "

/-- How the lines of a kind start. -/
def head (k : Kind) : String :=
  k.level.label ++ " " ++ k.text

/-- Whether something was left out of a binding. -/
def isSkipping : Kind → Bool
  | skippingRecord | skippingEnumeration => true
  | _ => false

end Kind

theorem line_of_message {e : Event} {rest : String} (h : e.message = e.kind.text ++ rest) :
    e.line = e.kind.head ++ rest := by
  have hlevel : e.level = e.kind.level := by
    cases e <;> rfl
  unfold line Kind.head
  rw [hlevel, h, ← String.append_assoc]

theorem exists_message (e : Event) : ∃ rest, e.message = e.kind.text ++ rest := by
  cases e <;>
    · unfold message
      simp only [String.append_assoc]
      exact ⟨_, rfl⟩

theorem startsWith_head (e : Event) : StartsWith e.kind.head e.line := by
  rcases e.exists_message with ⟨rest, hmessage⟩
  unfold StartsWith
  rw [line_of_message hmessage, String.toList_append]
  exact List.prefix_append _ _

/-- A start that no head of a kind is a part of tells kinds as it does by their heads. -/
theorem startsWith_line_iff {start : String} {p : Kind → Prop}
    (hlong : ∀ k : Kind, StartsWith k.head start → StartsWith start k.head)
    (hp : ∀ k : Kind, StartsWith start k.head ↔ p k) (e : Event) :
    StartsWith start e.line ↔ p e.kind := by
  rw [← hp]
  constructor
  · intro hline
    rcases List.prefix_or_prefix_of_prefix hline e.startsWith_head with hstart | hhead
    · exact hstart
    · exact hlong e.kind hhead
  · intro hstart
    exact hstart.trans e.startsWith_head

@[simp]
theorem startsWith_debug_iff (e : Event) :
    StartsWith "DEBUG " e.line ↔ e.kind.level = .debug := by
  apply startsWith_line_iff (p := fun k => k.level = .debug) <;>
    · intro k
      cases k <;> decide

@[simp]
theorem startsWith_skipping_iff (e : Event) :
    StartsWith "DEBUG Skipping " e.line ↔ e.kind.isSkipping = true := by
  apply startsWith_line_iff (p := fun k => k.isSkipping = true) <;>
    · intro k
      cases k <;> decide

@[simp]
theorem startsWith_unknownKey_iff (e : Event) :
    StartsWith "WARN unknown config key " e.line ↔ e.kind = .unknownKey := by
  apply startsWith_line_iff (p := fun k => k = .unknownKey) <;>
    · intro k
      cases k <;> decide

end Event
end HeaderBinding
