import HeaderBinding.Proofs.BindingModule.Lines
import HeaderBinding.Proofs.Extraction.Entries

/-!
# Kinds of lines

Each line that declares something starts with the keyword of its kind, and no keyword is
the start of another one. So a line tells its kind, and a module is its lines together
with the empty lines behind its blocks.
-/

namespace HeaderBinding

namespace BindingModule

open Text

/-!
# Single lines
-/

inductive LineKind where
  | record
  | field
  | enumeration
  | enumerator
  | typedef
  | global
  | function
  deriving DecidableEq

def LineKind.keyword : LineKind → String
  | record => "  foreign type "
  | field => "    field "
  | enumeration => "  foreign enum "
  | enumerator => "    const "
  | typedef => "  foreign alias "
  | global => "  foreign global "
  | function => "  foreign define "

/-- A line that declares something. -/
inductive Line where
  | record (name : String) (isUnion : Bool)
  | field (f : TypedName)
  | enumeration (name : String) (underlying : ForeignType)
  | enumerator (v : Enumerator)
  | typedef (t : TypedName)
  | global (g : TypedName)
  | function (f : Function)

namespace Line

def kind : Line → LineKind
  | record _ _ => .record
  | field _ => .field
  | enumeration _ _ => .enumeration
  | enumerator _ => .enumerator
  | typedef _ => .typedef
  | global _ => .global
  | function _ => .function

/-- What is declared. -/
def name : Line → String
  | record name _ => name
  | field f => f.name
  | enumeration name _ => name
  | enumerator v => v.name
  | typedef t => t.name
  | global g => g.name
  | function f => f.name

/-- A line behind the name of what it declares. -/
def tail : Line → String
  | record _ isUnion => " layout " ++ (if isUnion then "c union" else "c") ++ ":"
  | field f => ": " ++ f.type.token
  | enumeration _ underlying => " layout " ++ underlying.token ++ ":"
  | enumerator v => " = " ++ toString v.value
  | typedef t => " = " ++ t.type.token
  | global g => ": " ++ g.type.token
  | function f =>
      "(" ++ ", ".intercalate (f.parameters.map parameter) ++ ") -> " ++ f.returns.token

def text (l : Line) : String :=
  l.kind.keyword ++ (l.name ++ l.tail)

/-- The name of a line and those of its parameters. -/
def names (l : Line) : List String :=
  l.name ::
    match l with
    | function f => f.parameters.map TypedName.name
    | _ => []

def types : Line → List ForeignType
  | record _ _ => []
  | field f => [f.type]
  | enumeration _ underlying => [underlying]
  | enumerator _ => []
  | typedef t => [t.type]
  | global g => [g.type]
  | function f => f.parameters.map TypedName.type ++ [f.returns]

theorem isEmptyLine_text (l : Line) : isEmptyLine l.text = false := by
  have hkeyword : ∀ k : LineKind, k.keyword.toList.any (fun c => !isBlank c) = true := by
    intro k
    cases k <;> decide
  rcases List.any_eq_true.mp (hkeyword l.kind) with ⟨c, hc, hblank⟩
  apply isEmptyLine_of_mem (c := c)
  · unfold text
    rw [String.toList_append]
    exact List.mem_append_left _ hc
  · simpa using hblank

end Line

/-!
# The lines of a declaration
-/

end BindingModule

namespace Declaration

open BindingModule

def lines : Declaration → List Line
  | function f => [.function f]
  | record r => .record r.name r.isUnion :: r.fields.map .field
  | enumeration e => .enumeration e.name e.underlying :: e.values.map .enumerator
  | typedef t => [.typedef t]
  | global g => [.global g]

/-- Whether an empty line follows a declaration. -/
def isBlock : Declaration → Bool
  | record _ | enumeration _ => true
  | function _ | typedef _ | global _ => false

def shownLines (d : Declaration) : List String :=
  d.lines.map Line.text ++ if d.isBlock then [""] else []

theorem exists_lines (d : Declaration) : ∃ front l, d.lines = front ++ [l] := by
  have hne : d.lines ≠ [] := by
    cases d <;> exact List.cons_ne_nil _ _
  exact ⟨_, _, (List.dropLast_append_getLast hne).symm⟩

theorem mem_names_of_mem_lines {d : Declaration} {l : Line} (hl : l ∈ d.lines) {name : String}
    (h : name ∈ l.names) : name ∈ d.names := by
  cases d with
  | function _ | typedef _ | global _ =>
      cases List.mem_singleton.mp hl
      exact h
  | record r =>
      rcases List.mem_cons.mp hl with rfl | hl
      · cases List.mem_singleton.mp h
        exact List.mem_cons_self
      · rcases List.mem_map.mp hl with ⟨f, hf, rfl⟩
        cases List.mem_singleton.mp h
        exact List.mem_cons_of_mem _ (List.mem_map_of_mem hf)
  | enumeration e =>
      rcases List.mem_cons.mp hl with rfl | hl
      · cases List.mem_singleton.mp h
        exact List.mem_cons_self
      · rcases List.mem_map.mp hl with ⟨v, hv, rfl⟩
        cases List.mem_singleton.mp h
        exact List.mem_cons_of_mem _ (List.mem_map_of_mem hv)

theorem mem_types_of_mem_lines {d : Declaration} {l : Line} (hl : l ∈ d.lines)
    {t : ForeignType} (h : t ∈ l.types) : t ∈ d.types := by
  cases d with
  | function _ | typedef _ | global _ =>
      cases List.mem_singleton.mp hl
      exact h
  | record r =>
      rcases List.mem_cons.mp hl with rfl | hl
      · cases h
      · rcases List.mem_map.mp hl with ⟨f, hf, rfl⟩
        cases List.mem_singleton.mp h
        exact List.mem_map_of_mem hf
  | enumeration e =>
      rcases List.mem_cons.mp hl with rfl | hl
      · exact h
      · rcases List.mem_map.mp hl with ⟨v, hv, rfl⟩
        cases h

end Declaration

namespace Declarations

open BindingModule

/-- The lines of a module that declare something. -/
def lines (d : Declarations) : List Line :=
  d.entries.flatMap Declaration.lines

theorem mem_names_of_mem_lines {d : Declarations} {l : Line} (hl : l ∈ d.lines)
    {name : String} (h : name ∈ l.names) : name ∈ d.names := by
  rcases List.mem_flatMap.mp hl with ⟨x, hx, hlx⟩
  exact List.mem_flatMap.mpr ⟨x, hx, Declaration.mem_names_of_mem_lines hlx h⟩

theorem mem_types_of_mem_lines {d : Declarations} {l : Line} (hl : l ∈ d.lines)
    {t : ForeignType} (h : t ∈ l.types) : t ∈ d.types := by
  rcases List.mem_flatMap.mp hl with ⟨x, hx, hlx⟩
  exact List.mem_flatMap.mpr ⟨x, hx, Declaration.mem_types_of_mem_lines hlx h⟩

end Declarations

namespace BindingModule

theorem shownLines_record (r : Record) :
    (Declaration.record r).shownLines = recordLines r := by
  have hfield : ∀ f, (Line.field f).text = "    field " ++ f.name ++ ": " ++ f.type.token := by
    intro f
    simp only [Line.text, Line.kind, LineKind.keyword, Line.name, Line.tail, String.append_assoc]
  have hhead : (Line.record r.name r.isUnion).text =
      "  foreign type " ++ r.name ++ " layout " ++ layout r ++ ":" := by
    simp only [Line.text, Line.kind, LineKind.keyword, Line.name, Line.tail, layout,
      String.append_assoc]
  unfold Declaration.shownLines Declaration.lines recordLines
  rw [List.map_cons, List.map_map, hhead]
  simp only [Function.comp_def, hfield]
  rfl

theorem shownLines_enumeration (e : Enumeration) :
    (Declaration.enumeration e).shownLines = enumerationLines e := by
  have hvalue : ∀ v, (Line.enumerator v).text =
      "    const " ++ v.name ++ " = " ++ toString v.value := by
    intro v
    simp only [Line.text, Line.kind, LineKind.keyword, Line.name, Line.tail, String.append_assoc]
  have hhead : (Line.enumeration e.name e.underlying).text =
      "  foreign enum " ++ e.name ++ " layout " ++ e.underlying.token ++ ":" := by
    simp only [Line.text, Line.kind, LineKind.keyword, Line.name, Line.tail, String.append_assoc]
  unfold Declaration.shownLines Declaration.lines enumerationLines
  rw [List.map_cons, List.map_map, hhead]
  simp only [Function.comp_def, hvalue]
  rfl

theorem shownLines_typedef (t : TypedName) :
    (Declaration.typedef t).shownLines = [typedefLine t] := by
  have htext : (Line.typedef t).text = typedefLine t := by
    unfold typedefLine
    simp only [Line.text, Line.kind, LineKind.keyword, Line.name, Line.tail, String.append_assoc]
  exact congrArg (fun l => [l]) htext

theorem shownLines_global (g : TypedName) :
    (Declaration.global g).shownLines = [globalLine g] := by
  have htext : (Line.global g).text = globalLine g := by
    unfold globalLine
    simp only [Line.text, Line.kind, LineKind.keyword, Line.name, Line.tail, String.append_assoc]
  exact congrArg (fun l => [l]) htext

theorem shownLines_function (f : Function) :
    (Declaration.function f).shownLines = [functionLine f] := by
  have htext : (Line.function f).text = functionLine f := by
    unfold functionLine
    simp only [Line.text, Line.kind, LineKind.keyword, Line.name, Line.tail, String.append_assoc]
  exact congrArg (fun l => [l]) htext

theorem declarationLines_eq_flatMap (d : Declarations) :
    declarationLines d = d.entries.flatMap Declaration.shownLines := by
  unfold declarationLines Declarations.entries
  simp only [List.flatMap_append, List.flatMap_map, shownLines_record, shownLines_enumeration,
    shownLines_typedef, shownLines_global, shownLines_function, List.map_append]
  simp only [← List.map_eq_flatMap]

end BindingModule
end HeaderBinding
