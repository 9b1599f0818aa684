import HeaderBinding.Proofs.Extraction.Content
import HeaderBinding.Proofs.Extraction.OwnParameters

/-!
# When a header is rejected

A header is rejected if the last declaration of some function is variadic. The error names
the least such function, wherever it is declared.
-/

namespace HeaderBinding

open Dump Text

namespace Extraction

/-!
# Declarations of functions
-/

def DeclaresFunction (n : Node) (name : String) : Prop :=
  ∃ extent type variadic implicit,
    n.entity = .function extent name type variadic implicit

/-- Whether a node declares a function that is variadic, by its mark or, if it has none, by
its own parameter list. -/
def DeclaresVariadic (n : Node) (name : String) : Prop :=
  ∃ extent type variadic implicit,
    n.entity = .function extent name type variadic implicit ∧
      (variadic = some true ∨
        variadic = none ∧ "...)".toList <:+ (splitFunction (functionSpelling type)).2)

/-- Whether a function is variadic in the last one of its declarations. -/
def LastVariadic (nodes : List Node) (name : String) : Prop :=
  ∃ front n back, nodes = front ++ n :: back ∧ DeclaresVariadic n name ∧
    ∀ m ∈ back, ¬DeclaresFunction m name

theorem functionOf?_eq_some_iff {n : Node} {f : Function} :
    functionOf? n = some f ↔
      ∃ extent name type variadic implicit,
        n.entity = .function extent name type variadic implicit ∧
          f = function name type variadic n.children := by
  constructor
  · intro h
    unfold functionOf? at h
    split at h
    next extent name type variadic implicit he =>
      exact ⟨extent, name, type, variadic, implicit, he, (Option.some.inj h).symm⟩
    next =>
      cases h
  · intro h
    rcases h with ⟨extent, name, type, variadic, implicit, he, hf⟩
    unfold functionOf?
    rw [he, hf]

theorem name?_of_functionOf? (n : Node) (f : Function) (h : functionOf? n = some f) :
    n.entity.name? = some f.name := by
  rcases functionOf?_eq_some_iff.mp h with ⟨extent, name, type, variadic, implicit, he, rfl⟩
  rw [he]
  rfl

theorem declaresFunction_iff {n : Node} {name : String} :
    DeclaresFunction n name ↔ (functionOf? n).isSome ∧ n.entity.name? = some name := by
  constructor
  · intro h
    rcases h with ⟨extent, type, variadic, implicit, he⟩
    have hof := functionOf?_eq_some_iff.mpr ⟨extent, name, type, variadic, implicit, he, rfl⟩
    exact ⟨by simp [hof], by rw [he]; rfl⟩
  · intro h
    rcases h with ⟨hsome, hname⟩
    rcases Option.isSome_iff_exists.mp hsome with ⟨f, hf⟩
    rcases functionOf?_eq_some_iff.mp hf with ⟨extent, other, type, variadic, implicit, he, _⟩
    rw [he] at hname
    rw [Option.some.inj hname] at he
    exact ⟨extent, type, variadic, implicit, he⟩

theorem variadic_function_iff (name : String) (type : TypeSpelling) (variadic : Option Bool)
    (children : List Node) :
    (function name type variadic children).variadic = true ↔
      variadic = some true ∨
        variadic = none ∧ "...)".toList <:+ (splitFunction (functionSpelling type)).2 := by
  cases variadic with
  | none =>
      simpa [function_eq] using isVariadic_iff (splitFunction (functionSpelling type)).2
  | some mark =>
      simp [function_eq]

theorem declaresVariadic_iff {n : Node} {name : String} :
    DeclaresVariadic n name ↔ ∃ f, functionOf? n = some f ∧ f.name = name ∧ f.variadic = true := by
  constructor
  · intro h
    rcases h with ⟨extent, type, variadic, implicit, he, hvariadic⟩
    have hof := functionOf?_eq_some_iff.mpr ⟨extent, name, type, variadic, implicit, he, rfl⟩
    exact ⟨_, hof, rfl, (variadic_function_iff name type variadic n.children).mpr hvariadic⟩
  · intro h
    rcases h with ⟨f, hf, rfl, hvariadic⟩
    rcases functionOf?_eq_some_iff.mp hf with ⟨extent, name, type, variadic, implicit, he, rfl⟩
    have hmark := (variadic_function_iff name type variadic n.children).mp hvariadic
    exact ⟨extent, type, variadic, implicit, he, hmark⟩

/-- The functions that are variadic in their last declarations are the variadic ones of the
category. -/
theorem lastVariadic_iff {nodes : List Node} {name : String} :
    LastVariadic nodes name ↔
      ∃ f ∈ sortNamed Function.name (nodes.filterMap functionOf?),
        f.name = name ∧ f.variadic = true := by
  constructor
  · intro h
    rcases h with ⟨front, n, back, hnodes, hn, hback⟩
    rcases declaresVariadic_iff.mp hn with ⟨f, hf, rfl, hvariadic⟩
    refine ⟨f, (mem_sortNamed_filterMap name?_of_functionOf?).mpr ?_, rfl, hvariadic⟩
    refine ⟨front, n, back, hnodes, hf, ?_⟩
    intro m hm hsome hname
    exact hback m hm (declaresFunction_iff.mpr ⟨hsome, hname⟩)
  · intro h
    rcases h with ⟨f, hf, rfl, hvariadic⟩
    rcases (mem_sortNamed_filterMap name?_of_functionOf?).mp hf with
      ⟨front, n, back, hnodes, hof, hback⟩
    refine ⟨front, n, back, hnodes, declaresVariadic_iff.mpr ⟨f, hof, rfl, hvariadic⟩, ?_⟩
    intro m hm hdeclares
    rcases declaresFunction_iff.mp hdeclares with ⟨hsome, hname⟩
    exact hback m hm hsome hname

end Extraction

namespace Declarations

open Extraction

theorem functions_ofList (nodes : List Node) :
    (ofList (nodes.filterMap declaration?)).functions =
      sortNamed Function.name (nodes.filterMap functionOf?) := by
  have hof : ∀ n, (declaration? n).bind Declaration.function? = functionOf? n :=
    fun n => (bind_category? n).1
  change sortNamed Function.name ((nodes.filterMap declaration?).filterMap _) = _
  rw [List.filterMap_filterMap, funext hof]

theorem check_eq_error_iff {d : Declarations} {e : ExtractionError} :
    d.check = .error e ↔
      ∃ f, d.functions.find? Function.variadic = some f ∧ f.name = e.name := by
  unfold check
  cases e with
  | variadicFunction name =>
      cases d.functions.find? Function.variadic with
      | none =>
          simp
      | some f =>
          simp [ExtractionError.name]

/-- The first variadic function of the category is the least one that is variadic in its
last declaration. -/
theorem exists_find?_variadic_iff (nodes : List Node) (name : String) :
    (∃ f, (ofList (nodes.filterMap declaration?)).functions.find? Function.variadic = some f ∧
        f.name = name) ↔
      LastVariadic nodes name ∧
        ∀ other, LastVariadic nodes other → other = name ∨ utf8 name < utf8 other := by
  have hascending := ascending_sortNamed Function.name (nodes.filterMap functionOf?)
  rw [functions_ofList]
  constructor
  · intro h
    rcases h with ⟨f, hfind, hname⟩
    subst hname
    rcases (find?_eq_some_iff_of_ascending hascending).mp hfind with ⟨hf, hvariadic, hleast⟩
    refine ⟨lastVariadic_iff.mpr ⟨f, hf, rfl, hvariadic⟩, ?_⟩
    intro other hother
    rcases lastVariadic_iff.mp hother with ⟨g, hg, hname, hgvariadic⟩
    rw [← hname]
    exact hleast g hg hgvariadic
  · intro h
    rcases h with ⟨hlast, hleast⟩
    rcases lastVariadic_iff.mp hlast with ⟨f, hf, hname, hvariadic⟩
    subst hname
    refine ⟨f, (find?_eq_some_iff_of_ascending hascending).mpr ⟨hf, hvariadic, ?_⟩, rfl⟩
    intro g hg hgvariadic
    exact hleast g.name (lastVariadic_iff.mpr ⟨g, hg, rfl, hgvariadic⟩)

theorem exists_check_eq_error_iff (nodes : List Node) :
    (∃ e, (ofList (nodes.filterMap declaration?)).check = .error e) ↔
      ∃ name, LastVariadic nodes name := by
  constructor
  · intro h
    rcases h with ⟨e, he⟩
    have hfirst := check_eq_error_iff.mp he
    exact ⟨e.name, ((exists_find?_variadic_iff nodes e.name).mp hfirst).1⟩
  · intro h
    rcases h with ⟨name, hlast⟩
    rcases lastVariadic_iff.mp hlast with ⟨f, hf, _, hvariadic⟩
    rw [← functions_ofList] at hf
    rcases Option.isSome_iff_exists.mp (List.find?_isSome.mpr ⟨f, hf, hvariadic⟩) with
      ⟨g, hfind⟩
    exact ⟨.variadicFunction g.name, check_eq_error_iff.mpr ⟨g, hfind, rfl⟩⟩

end Declarations

namespace HeaderScope

open Extraction

/-- A header is rejected exactly if some function is variadic in the last of its
declarations, and the error names the least such function. -/
theorem extract_eq_error_iff (scope : HeaderScope) (root : Node) :
    let nodes := root.walk.filter fun n => !n.entity.isImplicit && scope.isLocal n
    ((∃ e, scope.extract root = .error e) ↔ ∃ name, LastVariadic nodes name) ∧
      ∀ e, scope.extract root = .error e ↔
        e.construct = "variadic function" ∧ LastVariadic nodes e.name ∧
          ∀ name, LastVariadic nodes name → name = e.name ∨ utf8 e.name < utf8 name := by
  intro nodes
  have hextract : scope.extract root =
      (Declarations.ofList (nodes.filterMap declaration?)).check := extract_eq scope root
  rw [hextract]
  constructor
  · exact Declarations.exists_check_eq_error_iff nodes
  · intro e
    have hconstruct : e.construct = "variadic function" := by
      cases e with
      | variadicFunction name =>
          rfl
    rw [Declarations.check_eq_error_iff, Declarations.exists_find?_variadic_iff]
    exact (and_iff_right hconstruct).symm

end HeaderScope
end HeaderBinding
