import HeaderBinding.Json.Value

/-!
# Values from their tokens

A phrase is the list of the tokens of a value through which nothing stops. The scalars in it
need not be readable. A reader takes it for the value, whatever frames are open.
-/

namespace HeaderBinding
namespace Json

mutual

inductive Phrase : Value → List Token → Prop where
  | scalar {scan : Scan Atom} (hscan : scan.passing = none) : Phrase (.atom scan) [.atom scan]
  | text {scan : Scan String} (hscan : scan.passing = none) :
      Phrase (.atom (scan.map .text)) [.text scan]
  | emptyArray : Phrase (.array [] none) [.openArray, .closeArray]
  | array {v : Value} {vs : List Value} {ts us : List Token} (hv : Phrase v ts)
      (hvs : ItemPhrases vs us) : Phrase (.array (v :: vs) none) (.openArray :: (ts ++ us))
  | emptyObject : Phrase (.object [] none) [.openObject, .closeObject]
  | object {key : Scan String} {v : Value} {ms : List Member} {ts us : List Token}
      (hkey : key.passing = none) (hv : Phrase v ts) (hms : MemberPhrases ms us) :
      Phrase (.object ((key, v) :: ms) none)
        (.openObject :: .text key :: .colon :: (ts ++ us))

/-- The tokens of items behind a first one, up to the bracket that ends them. -/
inductive ItemPhrases : List Value → List Token → Prop where
  | close : ItemPhrases [] [.closeArray]
  | next {v : Value} {vs : List Value} {ts us : List Token} (hv : Phrase v ts)
      (hvs : ItemPhrases vs us) : ItemPhrases (v :: vs) (.comma :: (ts ++ us))

/-- The tokens of members behind a first one, up to the brace that ends them. -/
inductive MemberPhrases : List Member → List Token → Prop where
  | close : MemberPhrases [] [.closeObject]
  | next {key : Scan String} {v : Value} {ms : List Member} {ts us : List Token}
      (hkey : key.passing = none) (hv : Phrase v ts) (hms : MemberPhrases ms us) :
      MemberPhrases ((key, v) :: ms) (.comma :: .text key :: .colon :: (ts ++ us))

end

/-!
# Steps of a reader
-/

namespace Pending

variable {scan : Scan Atom} {key : Scan String} (frames : List Frame) (rest : List Token)

theorem run_scalar (hscan : scan.passing = none) :
    run ⟨frames, .value⟩ (.atom scan :: rest) = run ⟨frames, .separator (.atom scan)⟩ rest := by
  simp only [run, take, takeValue, takeScalar, hscan]

theorem run_text (hkey : key.passing = none) :
    run ⟨frames, .value⟩ (.text key :: rest) =
      run ⟨frames, .separator (.atom (key.map .text))⟩ rest := by
  have hscan : (key.map Atom.text).passing = none := hkey
  simp only [run, take, takeValue, takeScalar, hscan]

theorem run_firstKey (hkey : key.passing = none) :
    run ⟨frames, .firstKey⟩ (.text key :: .colon :: rest) =
      run ⟨.object [] key :: frames, .value⟩ rest := by
  simp only [run, take, takeKey, hkey]

theorem run_key (members : List Member) (hkey : key.passing = none) :
    run ⟨frames, .key members⟩ (.text key :: .colon :: rest) =
      run ⟨.object members key :: frames, .value⟩ rest := by
  simp only [run, take, takeKey, hkey]

/-- The first item of an array is read as any other value. -/
theorem run_firstItem {v : Value} {ts : List Token} (h : Phrase v ts) :
    run ⟨frames, .firstItem⟩ (ts ++ rest) = run ⟨.array [] :: frames, .value⟩ (ts ++ rest) := by
  cases h <;>
    rfl

end Pending

/-!
# Reading a phrase

The induction is on the phrase. What has been read of an array or an object already is kept in
its frame, in reverse.
-/

open Pending

mutual

theorem run_phrase {v : Value} {ts : List Token} (h : Phrase v ts) (frames : List Frame)
    (rest : List Token) :
    run ⟨frames, .value⟩ (ts ++ rest) = run ⟨frames, .separator v⟩ rest := by
  cases h with
  | scalar hscan =>
      exact run_scalar frames rest hscan
  | text hscan =>
      exact run_text frames rest hscan
  | emptyArray =>
      rfl
  | @array v vs ts us hv hvs =>
      calc
        run ⟨frames, .value⟩ (.openArray :: (ts ++ us) ++ rest)
            = run ⟨frames, .firstItem⟩ (ts ++ (us ++ rest)) := by
              rw [← List.append_assoc]
              rfl
        _ = run ⟨.array [] :: frames, .separator v⟩ (us ++ rest) := by
              rw [run_firstItem frames _ hv, run_phrase hv]
        _ = run ⟨frames, .separator (.array (v :: vs) none)⟩ rest :=
              run_itemPhrases hvs [] frames v rest
  | emptyObject =>
      rfl
  | @object key v ms ts us hkey hv hms =>
      calc
        run ⟨frames, .value⟩ (.openObject :: .text key :: .colon :: (ts ++ us) ++ rest)
            = run ⟨frames, .firstKey⟩ (.text key :: .colon :: (ts ++ (us ++ rest))) := by
              rw [← List.append_assoc]
              rfl
        _ = run ⟨.object [] key :: frames, .separator v⟩ (us ++ rest) := by
              rw [run_firstKey frames _ hkey, run_phrase hv]
        _ = run ⟨frames, .separator (.object ((key, v) :: ms) none)⟩ rest :=
              run_memberPhrases hms [] key frames v rest
termination_by ts.length
decreasing_by
  all_goals
    simp only [List.length_cons, List.length_append]
    omega

theorem run_itemPhrases {vs : List Value} {us : List Token} (h : ItemPhrases vs us)
    (items : List Value) (frames : List Frame) (v : Value) (rest : List Token) :
    run ⟨.array items :: frames, .separator v⟩ (us ++ rest) =
      run ⟨frames, .separator (.array ((v :: items).reverse ++ vs) none)⟩ rest := by
  cases h with
  | close =>
      rw [List.append_nil]
      rfl
  | @next w vs ts us hw hvs =>
      calc
        run ⟨.array items :: frames, .separator v⟩ (.comma :: (ts ++ us) ++ rest)
            = run ⟨.array (v :: items) :: frames, .value⟩ (ts ++ (us ++ rest)) := by
              rw [← List.append_assoc]
              rfl
        _ = run ⟨.array (v :: items) :: frames, .separator w⟩ (us ++ rest) := run_phrase hw _ _
        _ = run ⟨frames, .separator (.array ((w :: v :: items).reverse ++ vs) none)⟩ rest :=
              run_itemPhrases hvs _ _ _ _
        _ = run ⟨frames, .separator (.array ((v :: items).reverse ++ w :: vs) none)⟩ rest := by
              rw [List.reverse_cons, List.append_assoc]
              rfl
termination_by us.length
decreasing_by
  all_goals
    simp only [List.length_cons, List.length_append]
    omega

theorem run_memberPhrases {ms : List Member} {us : List Token} (h : MemberPhrases ms us)
    (members : List Member) (key : Scan String) (frames : List Frame) (v : Value)
    (rest : List Token) :
    run ⟨.object members key :: frames, .separator v⟩ (us ++ rest) =
      run ⟨frames, .separator (.object (((key, v) :: members).reverse ++ ms) none)⟩ rest := by
  cases h with
  | close =>
      rw [List.append_nil]
      rfl
  | @next name w ms ts us hname hw hms =>
      calc
        run ⟨.object members key :: frames, .separator v⟩
            (.comma :: .text name :: .colon :: (ts ++ us) ++ rest)
            = run ⟨frames, .key ((key, v) :: members)⟩
                (.text name :: .colon :: (ts ++ (us ++ rest))) := by
              rw [← List.append_assoc]
              rfl
        _ = run ⟨.object ((key, v) :: members) name :: frames, .separator w⟩ (us ++ rest) := by
              rw [run_key frames _ _ hname, run_phrase hw]
        _ = run ⟨frames, .separator (.object (((name, w) :: (key, v) :: members).reverse ++ ms)
              none)⟩ rest := run_memberPhrases hms _ _ _ _ _
        _ = run ⟨frames, .separator (.object (((key, v) :: members).reverse ++ (name, w) :: ms)
              none)⟩ rest := by
              rw [List.reverse_cons, List.append_assoc]
              rfl
termination_by us.length
decreasing_by
  all_goals
    simp only [List.length_cons, List.length_append]
    omega

end

/-- A phrase makes up a document with nothing wrong behind its value. -/
theorem run_document {v : Value} {ts : List Token} (h : Phrase v ts) :
    run ⟨[], .value⟩ ts = ⟨v, none⟩ := by
  have hrun := run_phrase h [] []
  rw [List.append_nil] at hrun
  exact hrun

end Json
end HeaderBinding
