import HeaderBinding.Proofs.Decimal.Integer
import HeaderBinding.Proofs.Extraction.Content
import HeaderBinding.Proofs.Extraction.Interference

/-!
# Values of enumerators

The value of an enumerator is that of the last initializer up to it, and one more for each
enumerator in between. An initializer is the first readable value below its enumerator. Where
there is none yet, the enumerators count from zero. The count is over all integers, and a counter
of 128 bits agrees with it as long as it stays in its range.
-/

namespace HeaderBinding

open Text Decimal

/-- Whether an integer is one of 128 bits. -/
def Fits (v : Int) : Prop :=
  -(2 : Int) ^ 127 ≤ v ∧ v < (2 : Int) ^ 127

namespace Dump

def Entity.isEnumerator : Entity → Bool
  | enumerator _ _ => true
  | _ => false

/-- Whether an expression carries a value: up to the blanks around it, its text is a signed
decimal numeral in the range of 128 bits. -/
def Entity.Carries (e : Entity) (v : Int) : Prop :=
  ∃ range text,
    (e = constantExpression range (some text) ∨ e = integerLiteral range (some text)) ∧
      SignedNumeral (trim text.toList) v ∧ Fits v

theorem Entity.value?_eq_some_iff {e : Entity} {v : Int} : e.value? = some v ↔ e.Carries v := by
  constructor
  · intro h
    unfold value? at h
    split at h
    next range text =>
      rcases Option.bind_eq_some_iff.mp h with ⟨written, htext, hv⟩
      rw [htext]
      exact ⟨range, written, Or.inl rfl, boundedInteger?_eq_some_iff.mp hv⟩
    next range text =>
      rcases Option.bind_eq_some_iff.mp h with ⟨written, htext, hv⟩
      rw [htext]
      exact ⟨range, written, Or.inr rfl, boundedInteger?_eq_some_iff.mp hv⟩
    next =>
      cases h
  · intro h
    rcases h with ⟨range, text, he, hv⟩
    have hread : valueOf text = some v := boundedInteger?_eq_some_iff.mpr hv
    rcases he with hconstant | hliteral
    · rw [hconstant]
      exact hread
    · rw [hliteral]
      exact hread

end Dump

namespace Extraction

open Dump

/-!
# Initializers
-/

/-- Whether the first value below an enumerator, in pre-order and outside of compound
statements, is the given one. -/
def Initializes (n : Node) (v : Int) : Prop :=
  ∃ front m back, Node.preOrderAll n.children = front ++ m :: back ∧ m.entity.Carries v ∧
    ∀ k ∈ front, ∀ w, ¬k.entity.Carries w

theorem value?_eq_none_iff {n : Node} : n.entity.value? = none ↔ ∀ w, ¬n.entity.Carries w := by
  rw [Option.eq_none_iff_forall_ne_some]
  constructor
  · intro h w hw
    exact h w (Entity.value?_eq_some_iff.mpr hw)
  · intro h w hw
    exact h w (Entity.value?_eq_some_iff.mp hw)

theorem initializer?_eq_some_iff {n : Node} {v : Int} :
    initializer? n = some v ↔ Initializes n v := by
  unfold initializer? Initializes
  rw [Node.flatMap_walk_eq_preOrderAll, List.findSome?_eq_some_iff]
  constructor
  · intro h
    rcases h with ⟨front, m, back, hsplit, hm, hfront⟩
    refine ⟨front, m, back, hsplit, Entity.value?_eq_some_iff.mp hm, ?_⟩
    intro k hk
    exact value?_eq_none_iff.mp (hfront k hk)
  · intro h
    rcases h with ⟨front, m, back, hsplit, hm, hfront⟩
    refine ⟨front, m, back, hsplit, Entity.value?_eq_some_iff.mpr hm, ?_⟩
    intro k hk
    exact value?_eq_none_iff.mpr (hfront k hk)

theorem initializer?_eq_none {n : Node} (h : ∀ w, ¬Initializes n w) : initializer? n = none := by
  rw [Option.eq_none_iff_forall_ne_some]
  intro w hw
  exact h w (initializer?_eq_some_iff.mp hw)

theorem fits_of_initializes {n : Node} {v : Int} (h : Initializes n v) : Fits v := by
  rcases h with ⟨_, m, _, _, ⟨_, _, _, _, hfits⟩, _⟩
  exact hfits

/-!
# Counting
-/

theorem nextValue_of_fits {v : Int} (h : Fits (v + 1)) : nextValue v = v + 1 := by
  have size : ((Nat.pow 2 128 : Nat) : Int) = 2 ^ 128 := rfl
  rcases h with ⟨hlow, hhigh⟩
  unfold nextValue
  apply Int.bmod_eq_of_le <;> omega

theorem fits_nextValue (v : Int) : Fits (nextValue v) := by
  have size : ((Nat.pow 2 128 : Nat) : Int) = 2 ^ 128 := rfl
  have hlow := Int.le_bmod (x := v + 1) (m := Nat.pow 2 128) (by decide)
  have hhigh := Int.bmod_lt (x := v + 1) (m := Nat.pow 2 128) (by decide)
  unfold Fits nextValue
  omega

theorem names_numbered (previous : Int) (cs : List (String × Option Int)) :
    (numbered previous cs).map Enumerator.name = cs.map Prod.fst := by
  induction cs generalizing previous with
  | nil =>
      rfl
  | cons c cs ih =>
      exact congrArg (c.1 :: ·) (ih _)

theorem getElem?_numbered_zero {previous : Int} {c : String × Option Int}
    {cs : List (String × Option Int)} {x : Enumerator}
    (hx : (numbered previous (c :: cs))[0]? = some x) :
    x.value = c.2.getD (nextValue previous) := by
  cases hx
  rfl

/-- The counter does not leave its range, whether the count does or not. -/
theorem fits_numbered {previous : Int} {cs : List (String × Option Int)}
    (hcs : ∀ c ∈ cs, ∀ v ∈ c.2, Fits v) : ∀ x ∈ numbered previous cs, Fits x.value := by
  induction cs generalizing previous with
  | nil =>
      intro x hx
      cases hx
  | cons c cs ih =>
      rcases List.forall_mem_cons.mp hcs with ⟨hc, hrest⟩
      intro x hx
      rcases List.mem_cons.mp hx with rfl | hx
      · change Fits (c.2.getD (nextValue previous))
        cases hv : c.2 with
        | none =>
            exact fits_nextValue previous
        | some v =>
            exact hc v hv
      · exact ih hrest x hx

/-- Without initializers, the count goes on from the value before. -/
theorem value_numbered_of_none {previous : Int} {cs : List (String × Option Int)} {i : Nat}
    {x : Enumerator} (hx : (numbered previous cs)[i]? = some x)
    (hlow : -(2 : Int) ^ 127 ≤ previous + 1) (hfits : Fits (previous + 1 + i))
    (hnone : ∀ k ≤ i, ∀ c, cs[k]? = some c → c.2 = none) : x.value = previous + 1 + i := by
  have hhigh := hfits.2
  induction cs generalizing previous i with
  | nil =>
      cases hx
  | cons c cs ih =>
      have hc : c.2 = none := hnone 0 (Nat.zero_le i) c rfl
      have hvalue : c.2.getD (nextValue previous) = previous + 1 := by
        rw [hc]
        exact nextValue_of_fits ⟨hlow, by omega⟩
      cases i with
      | zero =>
          rw [getElem?_numbered_zero hx, hvalue]
          omega
      | succ i =>
          have htail : (numbered (c.2.getD (nextValue previous)) cs)[i]? = some x := hx
          rw [hvalue] at htail
          have hcount := ih htail (by omega) ⟨by omega, by omega⟩
            (fun k hk d hd => hnone (k + 1) (Nat.succ_le_succ hk) d hd) (by omega)
          omega

/-- The count goes on from the last initializer. -/
theorem value_numbered_of_last {previous v : Int} {cs : List (String × Option Int)} {i j : Nat}
    {x : Enumerator} (hx : (numbered previous cs)[i]? = some x) (hj : j ≤ i)
    (hlast : ∃ name, cs[j]? = some (name, some v)) (hv : Fits v) (hfits : Fits (v + (i - j)))
    (hnone : ∀ k, j < k → k ≤ i → ∀ c, cs[k]? = some c → c.2 = none) :
    x.value = v + (i - j) := by
  induction cs generalizing previous i j with
  | nil =>
      cases hx
  | cons c cs ih =>
      cases j with
      | zero =>
          rcases hlast with ⟨name, hname⟩
          have hc : c = (name, some v) := Option.some.inj hname
          cases i with
          | zero =>
              rw [getElem?_numbered_zero hx, hc, Option.getD_some]
              omega
          | succ i =>
              have htail : (numbered v cs)[i]? = some x := by
                rw [hc] at hx
                exact hx
              have hlow := hv.1
              have hhigh := hfits.2
              have hcount := value_numbered_of_none htail (by omega) ⟨by omega, by omega⟩
                fun k hk d hd => hnone (k + 1) (Nat.succ_pos k) (Nat.succ_le_succ hk) d hd
              omega
      | succ j =>
          cases i with
          | zero =>
              omega
          | succ i =>
              have htail : (numbered (c.2.getD (nextValue previous)) cs)[i]? = some x := hx
              have hsame : v + (((i + 1 : Nat) : Int) - ((j + 1 : Nat) : Int)) = v + (i - j) := by
                omega
              rw [hsame] at hfits ⊢
              exact ih htail (Nat.le_of_succ_le_succ hj) hlast hfits fun k hjk hki d hd =>
                hnone (k + 1) (Nat.succ_lt_succ hjk) (Nat.succ_le_succ hki) d hd

/-!
# Enumerators of a node
-/

/-- The name of an enumerator, with its initializer. -/
def constantOf (n : Node) : String × Option Int :=
  (n.entity.name?.getD "", initializer? n)

theorem constant?_eq (n : Node) :
    constant? n = if n.entity.isEnumerator then some (constantOf n) else none := by
  unfold constant? constantOf
  cases n.entity with
  | enumerator extent name =>
      rfl
  | _ =>
      rfl

theorem filterMap_constant? (ns : List Node) :
    ns.filterMap constant? = (ns.filter (·.entity.isEnumerator)).map constantOf := by
  rw [← List.filterMap_eq_map, List.filterMap_filter, funext constant?_eq]
  rfl

theorem name?_of_isEnumerator {n : Node} (h : n.entity.isEnumerator = true) :
    n.entity.name? = some (constantOf n).1 := by
  unfold constantOf
  cases he : n.entity with
  | enumerator extent name =>
      rfl
  | _ =>
      rw [he] at h
      cases h

/-- Whether an enumerator is the last one with an initializer up to a place. -/
def LastInitialized (constants : List Node) (i j : Nat) (v : Int) : Prop :=
  j ≤ i ∧ (∃ n, constants[j]? = some n ∧ Initializes n v) ∧
    ∀ k, j < k → k ≤ i → ∀ n, constants[k]? = some n → ∀ w, ¬Initializes n w

/-- The names and the values of enumerators, in their order. A value is as counted wherever
the count is an integer of 128 bits. -/
structure Numbered (constants : List Node) (values : List Enumerator) : Prop where
  names : values.map (fun x => some x.name) = constants.map (·.entity.name?)
  fits : ∀ x ∈ values, Fits x.value
  counted : ∀ (i j : Nat) (v : Int) (x : Enumerator), values[i]? = some x →
    LastInitialized constants i j v → Fits (v + (i - j)) → x.value = v + (i - j)
  fromZero : ∀ (i : Nat) (x : Enumerator), values[i]? = some x →
    (∀ k ≤ i, ∀ n, constants[k]? = some n → ∀ w, ¬Initializes n w) → Fits i → x.value = i

theorem snd_of_not_initializes {constants : List Node} {k : Nat} {c : String × Option Int}
    (hc : (constants.map constantOf)[k]? = some c)
    (h : ∀ n, constants[k]? = some n → ∀ w, ¬Initializes n w) : c.2 = none := by
  rw [List.getElem?_map] at hc
  rcases Option.map_eq_some_iff.mp hc with ⟨n, hn, hof⟩
  rw [← hof]
  exact initializer?_eq_none (h n hn)

theorem numbered_enumerators (ns : List Node) :
    Numbered (ns.filter (·.entity.isEnumerator)) (enumerators (-1) ns) := by
  rw [enumerators_eq_numbered, filterMap_constant?]
  constructor
  · have hnames := names_numbered (-1) ((ns.filter (·.entity.isEnumerator)).map constantOf)
    have hsome := congrArg (List.map some) hnames
    rw [List.map_map, List.map_map, List.map_map] at hsome
    refine hsome.trans (List.map_congr_left ?_)
    intro n hn
    exact (name?_of_isEnumerator (List.mem_filter.mp hn).2).symm
  · refine fits_numbered fun c hc v hv => ?_
    rcases List.mem_map.mp hc with ⟨n, _, rfl⟩
    exact fits_of_initializes (initializer?_eq_some_iff.mp hv)
  · intro i j v x hx hlast hfits
    rcases hlast with ⟨hji, ⟨n, hn, hv⟩, hnone⟩
    refine value_numbered_of_last hx hji ⟨n.entity.name?.getD "", ?_⟩ (fits_of_initializes hv)
      hfits ?_
    · rw [List.getElem?_map, hn]
      exact congrArg (fun value => some (_, value)) (initializer?_eq_some_iff.mpr hv)
    · intro k hjk hki c hc
      exact snd_of_not_initializes hc (hnone k hjk hki)
  · intro i x hx hnone hfits
    have hhigh := hfits.2
    have hcount := value_numbered_of_none hx (by decide) ⟨by omega, by omega⟩
      fun k hk c hc => snd_of_not_initializes hc (hnone k hk)
    omega

theorem values_of_declaration? {n : Node} {e : Enumeration}
    (h : declaration? n = some (.enumeration e)) : e.values = enumerators (-1) n.children := by
  have hof : enumerationOf? n = some e := by
    rw [← (bind_category? n).2.2.2.1, h]
    rfl
  unfold enumerationOf? at hof
  split at hof
  next extent name fixed implicit he =>
    split at hof
    · rw [← Option.some.inj hof]
      rfl
    · cases hof
  next =>
    cases hof

/-- The enumeration that a node declares has the enumerators below the node, each with the
value that the last initializer up to it gives, as long as the counter does not run over. -/
theorem numbered_of_enumeration {n : Node} {e : Enumeration}
    (h : declaration? n = some (.enumeration e)) :
    Numbered (n.children.filter (·.entity.isEnumerator)) e.values := by
  rw [values_of_declaration? h]
  exact numbered_enumerators n.children

/-- An enumeration with an initializer behind a function body and an unreadable literal, one
that is out of range, and the greatest one. -/
theorem numbered_of_enumeration_reset :
    let constant := Sample.enumerator
    let literal (text : String) : Node := .mk 0 (.integerLiteral none (some text)) []
    let folded (text : String) : Node := .mk 0 (.constantExpression none (some text)) []
    let other (children : List Node) : Node :=
      .mk 0 (.other (some "ImplicitCastExpr") Sample.extent) children
    let body (children : List Node) : Node := .mk 0 (.compoundStatement none) children
    let n := Sample.enumeration "e"
      [ constant "a" [], other [],
        constant "b" [other [body [literal "9"], literal "0x7", other [folded " +5 "]],
          literal "8"],
        constant "c" [], constant "d" [literal "170141183460469231731687303715884105728"],
        constant "f" [literal "-3"], constant "g" [],
        constant "h" [literal "170141183460469231731687303715884105727"] ]
    let values : List Enumerator :=
      [⟨"a", 0⟩, ⟨"b", 5⟩, ⟨"c", 6⟩, ⟨"d", 7⟩, ⟨"f", -3⟩, ⟨"g", -2⟩, ⟨"h", 2 ^ 127 - 1⟩]
    declaration? n = some (.enumeration ⟨"e", .i32, values⟩) ∧
      Numbered (n.children.filter (·.entity.isEnumerator)) values := by
  intro constant literal folded other body n values
  have h : declaration? n = some (.enumeration ⟨"e", .i32, values⟩) := by
    decide +kernel
  exact ⟨h, numbered_of_enumeration h⟩

end Extraction
end HeaderBinding
