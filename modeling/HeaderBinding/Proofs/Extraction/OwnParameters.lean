import HeaderBinding.Proofs.Extraction.Reading
import HeaderBinding.Outcome
import HeaderBinding.Proofs.Spelling.Nesting

/-!
# Own parameter lists

A function is variadic if its own parameter list ends in an ellipsis, whatever the lists
around it end in. The own list has to be the last group of its declarator: array bounds or
an attribute behind it hide it, so that it stays part of the return type.
-/

namespace HeaderBinding

open Dump Text Spelling

/-- Whether a text spells a type, as the type is written or, for an alias of a function
type, as it is resolved. -/
def Dump.TypeSpelling.Spells (type : TypeSpelling) (s : List Char) : Prop :=
  type.written.toList = s ∨
    '(' ∉ type.written.toList ∧ type.resolved = some (String.ofList s)

namespace Extraction

/-!
# From the spelling to the function
-/

theorem functionSpelling_of_spells {type : TypeSpelling} {s : List Char} (h : type.Spells s)
    (hopen : '(' ∈ s) : functionSpelling type = String.ofList s := by
  unfold functionSpelling
  rcases h with hwritten | ⟨hplain, hresolved⟩
  · rw [hwritten, if_pos (List.elem_eq_true_of_mem hopen), ← hwritten, String.ofList_toList]
  · have hother : ¬type.written.toList.contains '(' = true := by
      simpa using hplain
    rw [if_neg hother, TypeSpelling.resolvedOrWritten, hresolved]
    rfl

theorem isVariadic_iff (own : List Char) : isVariadic own = true ↔ "...)".toList <:+ own := by
  unfold isVariadic
  rw [List.isSuffixOf_iff_suffix]
  rfl

/-- A function whose type is split has the types and the mark of the parts. -/
theorem function_of_split {type : TypeSpelling} {s returned own : List Char}
    (htype : type.Spells s) (hopen : '(' ∈ s)
    (hsplit : splitFunction? s = some (returned, own)) (name : String) (children : List Node) :
    (function name type none children).returns = .ofSpelling (String.ofList returned) ∧
      ((function name type none children).variadic = true ↔ "...)".toList <:+ own) := by
  have hparts : splitFunction (functionSpelling type) = (String.ofList returned, own) := by
    rw [functionSpelling_of_spells htype hopen, splitFunction, String.toList_ofList, hsplit]
  rw [function_eq, hparts]
  exact ⟨rfl, isVariadic_iff own⟩

/-- A function whose type is not split returns the whole of it. -/
theorem function_of_unsplit {type : TypeSpelling} {s : List Char} (htype : type.Spells s)
    (hopen : '(' ∈ s) (hsplit : splitFunction? s = none) (name : String)
    (children : List Node) :
    (function name type none children).returns = .ofSpelling (String.ofList s) ∧
      (function name type none children).variadic = false := by
  have hparts : splitFunction (functionSpelling type) = (String.ofList s, []) := by
    rw [functionSpelling_of_spells htype hopen, splitFunction, String.toList_ofList, hsplit]
  rw [function_eq, hparts]
  exact ⟨rfl, rfl⟩

/-!
# Lists inside declarators
-/

/-- The own parameter list of a function is found inside the declarators of the pointers
that it returns, and is the only list that can make it variadic. -/
theorem function_of_wrapped (base : List Char) (own : Group) (pointers : List ReturnedPointer)
    (hbase : (trimEnd base).getLast? ≠ some ')') :
    let spelling := base ++ ' ' :: wrapped own pointers
    let before := base ++ ' ' :: opening pointers
    let returned := trimEnd before ++ closing pointers
    spelling = before ++ own.text ++ closing pointers ∧
      splitFunction? spelling = some (returned, own.text) ∧
      ∀ (name : String) (type : TypeSpelling) (children : List Node), type.Spells spelling →
        (function name type none children).returns = .ofSpelling (String.ofList returned) ∧
          ((function name type none children).variadic = true ↔
            "...)".toList <:+ own.text) := by
  intro spelling before returned
  have hparts : spelling = before ++ own.text ++ closing pointers := by
    simp [spelling, before, wrapped_eq, List.append_assoc]
  have hsplit : splitFunction? spelling = some (returned, own.text) := by
    have hblank : trimEnd (base ++ [' ']) = trimEnd base :=
      trimEnd_append_of_blank (List.forall_mem_singleton.mpr rfl)
    have h := splitFunction?_append_wrapped (base ++ [' ']) own pointers (by rwa [hblank])
    simpa [spelling, returned, before, List.append_assoc] using h
  have hopen : '(' ∈ spelling := by
    rw [hparts]
    simp [Group.text]
  refine ⟨hparts, hsplit, ?_⟩
  intro name type children htype
  exact function_of_split htype hopen hsplit name children

/-- A function without an ellipsis that returns a pointer to a function, which returns a
pointer to another one, both of them with an ellipsis. -/
theorem function_of_wrapped_pointers :
    let own : Group := ⟨"void".toList, Unparenthesised.balanced (by decide)⟩
    let inner : Group := ⟨"int, ...".toList, Unparenthesised.balanced (by decide)⟩
    let outer : Group := ⟨"char *, ...".toList, Unparenthesised.balanced (by decide)⟩
    let pointers : List ReturnedPointer :=
      [⟨"*".toList, rfl, by decide, outer⟩, ⟨"*const".toList, rfl, by decide, inner⟩]
    let type : TypeSpelling := ⟨"int (*(*const(void))(int, ...))(char *, ...)", none⟩
    (trimEnd "int".toList).getLast? ≠ some ')' ∧
      type.Spells ("int".toList ++ ' ' :: wrapped own pointers) ∧
      splitFunction? type.written.toList =
        some ("int (*(*const)(int, ...))(char *, ...)".toList, own.text) ∧
      (function "f" type none []).variadic = false := by
  intro own inner outer pointers type
  have hbase : (trimEnd "int".toList).getLast? ≠ some ')' := by
    decide
  have hspelling : type.written.toList = "int".toList ++ ' ' :: wrapped own pointers := by
    decide
  have htype : type.Spells ("int".toList ++ ' ' :: wrapped own pointers) :=
    Or.inl hspelling
  have hreturned : trimEnd ("int".toList ++ ' ' :: opening pointers) ++ closing pointers =
      "int (*(*const)(int, ...))(char *, ...)".toList := by
    decide
  have hplain : ¬"...)".toList <:+ own.text := by
    decide
  have h := function_of_wrapped "int".toList own pointers hbase
  have hsplit : splitFunction? type.written.toList =
      some ("int (*(*const)(int, ...))(char *, ...)".toList, own.text) := by
    rw [hspelling, ← hreturned]
    exact h.2.1
  have hvariadic := (h.2.2 "f" type [] htype).2
  exact ⟨hbase, htype, hsplit, Bool.eq_false_iff.mpr (mt hvariadic.mp hplain)⟩

/-!
# Lists with something behind them
-/

/-- What may be printed behind the own parameter list: the end of the declarator of a
returned pointer to an array, with its bounds, or an attribute. -/
inductive Trailer where
  | array (bounds : List (List Char)) (last : List Char)
  | attributes (arguments : Group)

namespace Trailer

def attributeWord : List Char :=
  " __attribute__".toList

def bracketed (bound : List Char) : List Char :=
  '[' :: (bound ++ [']'])

def text : Trailer → List Char
  | array bounds last => ')' :: (bounds.flatMap bracketed ++ bracketed last)
  | attributes arguments => attributeWord ++ '(' :: (arguments.text ++ [')'])

/-- What of it stays in the return type. -/
def kept : Trailer → List Char
  | array bounds last => (array bounds last).text
  | attributes _ => attributeWord

end Trailer

/-- A spelling that ends in a bound does not end in a group. -/
theorem splitFunction?_append_array (front : List Char) (bounds : List (List Char))
    (last : List Char) : splitFunction? (front ++ (Trailer.array bounds last).text) = none := by
  have htext : front ++ (Trailer.array bounds last).text =
      front ++ ')' :: (bounds.flatMap Trailer.bracketed ++ '[' :: last) ++ [']'] := by
    simp [Trailer.text, Trailer.bracketed, List.append_assoc]
  have hbracket : isBlank ']' = false := by
    decide
  have hlast : (trimEnd (front ++ (Trailer.array bounds last).text)).getLast? ≠
      some ')' := by
    rw [htext, trimEnd_concat _ hbracket, List.getLast?_concat]
    decide
  exact splitFunction?_of_none (lastGroup?_eq_none hlast)

/-- The last group of a spelling with an attribute is that of the attribute. -/
theorem splitFunction?_append_attributes (front : List Char) (arguments : Group) :
    splitFunction? (front ++ (Trailer.attributes arguments).text) =
      some (front ++ Trailer.attributeWord, '(' :: (arguments.text ++ [')'])) := by
  let before := front ++ Trailer.attributeWord
  let group : Group := ⟨arguments.text, arguments.balanced_text⟩
  have hword : before = front ++ " __attribute_".toList ++ ['_'] := by
    have hlast : Trailer.attributeWord = " __attribute_".toList ++ ['_'] := by
      decide
    rw [List.append_assoc, ← hlast]
  have hplain : isBlank '_' = false := by
    decide
  have htrim : trimEnd before = before := by
    rw [hword]
    exact trimEnd_concat _ hplain
  have hbefore : (trimEnd before).getLast? ≠ some ')' := by
    rw [htrim, hword, List.getLast?_concat]
    decide
  have hsplit := splitFunction?_append_wrapped before group [] hbefore
  simp only [wrapped, opening, closing, List.append_nil, htrim] at hsplit
  have htext : front ++ (Trailer.attributes arguments).text = before ++ group.text := by
    simp only [before, Trailer.text, List.append_assoc]
    rfl
  rw [htext, hsplit]
  rfl

theorem not_ellipsis_suffix (s : List Char) : ¬"...)".toList <:+ s ++ [')', ')'] := by
  intro h
  have hreverse := List.reverse_prefix.mpr h
  rw [List.reverse_append] at hreverse
  rcases hreverse with ⟨t, ht⟩
  exact absurd (List.cons.inj (List.cons.inj ht).2).1 (by decide)

/-- The own parameter list of a function stays in the return type if anything is printed
behind it, and an ellipsis in it goes unseen. -/
theorem function_of_trailer (front : List Char) (own : Group) (trailer : Trailer)
    (type : TypeSpelling) (htype : type.Spells (front ++ own.text ++ trailer.text))
    (name : String) (children : List Node) :
    (function name type none children).returns =
        .ofSpelling (String.ofList (front ++ own.text ++ trailer.kept)) ∧
      (function name type none children).variadic = false := by
  have hopen : '(' ∈ front ++ own.text ++ trailer.text := by
    simp [Group.text]
  cases trailer with
  | array bounds last =>
      have hsplit := splitFunction?_append_array (front ++ own.text) bounds last
      exact function_of_unsplit htype hopen hsplit name children
  | attributes arguments =>
      have hsplit := splitFunction?_append_attributes (front ++ own.text) arguments
      have hparts := function_of_split htype hopen hsplit name children
      have hend : ¬"...)".toList <:+ '(' :: (arguments.text ++ [')']) := by
        have h := not_ellipsis_suffix ('(' :: '(' :: arguments.content)
        simpa [Group.text] using h
      exact ⟨hparts.1, Bool.eq_false_iff.mpr (mt hparts.2.mp hend)⟩

/-- A function with an ellipsis that returns a pointer to an array of arrays. -/
theorem function_of_trailer_array :
    let own : Group := ⟨"int, ...".toList, Unparenthesised.balanced (by decide)⟩
    let trailer : Trailer := .array ["3".toList] "4".toList
    let type : TypeSpelling := ⟨"int (*(int, ...))[3][4]", none⟩
    type.Spells ("int (*".toList ++ own.text ++ trailer.text) ∧
      (function "f" type none []).returns = .ptr (.ptr (.named "int (*(int, ...))")) ∧
      (function "f" type none []).variadic = false := by
  intro own trailer type
  have htype : type.Spells ("int (*".toList ++ own.text ++ trailer.text) := by
    apply Or.inl
    decide
  have h := function_of_trailer "int (*".toList own trailer type htype "f" []
  have hreturns : ForeignType.ofSpelling
      (String.ofList ("int (*".toList ++ own.text ++ trailer.kept)) =
        .ptr (.ptr (.named "int (*(int, ...))")) := by
    decide +kernel
  exact ⟨htype, h.1.trans hreturns, h.2⟩

end Extraction

namespace HeaderScope

/-- A header with an ellipsis in front of an array bound, and one in front of an attribute,
is not rejected, and both lists are part of the return types. -/
theorem extract_of_trailers :
    let root := Sample.unit
      [ Sample.function "f" "int (*(int, ...))[3]" [],
        Sample.function "g" "void (int, ...) __attribute__((noreturn))" [] ]
    Sample.scope.extract root = .ok
      { functions :=
          [ ⟨"f", .ptr (.named "int (*(int, ...))"), [], false⟩,
            ⟨"g", .named "void (int, ...) __attribute__", [], false⟩ ]
        structs := []
        unions := []
        enums := []
        typedefs := []
        globals := [] } := by
  intro root
  apply eq_ok_of_toOption
  decide +kernel

end HeaderScope
end HeaderBinding
