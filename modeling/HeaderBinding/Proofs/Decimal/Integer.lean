import Mathlib.Algebra.Ring.Int.Defs
import Mathlib.Data.List.Induction
import HeaderBinding.Decimal.Integer

/-!
# Decimal numerals

The texts that are read as integers are the decimal numerals with an optional sign. A
reader for integers of so many bits takes those that are in range.
-/

namespace HeaderBinding
namespace Decimal

/-- Decimal digits, with the number that they stand for. -/
inductive Numeral : List Char → Nat → Prop where
  | single {c : Char} (h : c.isDigit = true) : Numeral [c] (c.toNat - '0'.toNat)
  | append {ds : List Char} {n : Nat} {c : Char} (hds : Numeral ds n) (h : c.isDigit = true) :
      Numeral (ds ++ [c]) (n * 10 + (c.toNat - '0'.toNat))

/-- A numeral with an optional sign in front. -/
inductive SignedNumeral : List Char → Int → Prop where
  | unsigned {ds : List Char} {n : Nat} (h : Numeral ds n) : SignedNumeral ds n
  | positive {ds : List Char} {n : Nat} (h : Numeral ds n) : SignedNumeral ('+' :: ds) n
  | negative {ds : List Char} {n : Nat} (h : Numeral ds n) : SignedNumeral ('-' :: ds) (-n)

/-!
# Digits
-/

theorem digitsValue_append (ds : List Char) (c : Char) :
    digitsValue (ds ++ [c]) = digitsValue ds * 10 + (c.toNat - '0'.toNat) := by
  unfold digitsValue
  rw [List.foldl_append]
  rfl

theorem Numeral.digits {ds : List Char} {n : Nat} (h : Numeral ds n) :
    ds ≠ [] ∧ ds.all Char.isDigit = true ∧ digitsValue ds = n := by
  induction h with
  | single hc =>
      exact ⟨by simp, by simpa using hc, by simp [digitsValue]⟩
  | append hds hc ih =>
      rcases ih with ⟨_, hall, hvalue⟩
      exact ⟨by simp, by simp [hall, hc], by rw [digitsValue_append, hvalue]⟩

theorem numeral_digitsValue {ds : List Char} (hne : ds ≠ []) (h : ds.all Char.isDigit = true) :
    Numeral ds (digitsValue ds) := by
  induction ds using List.reverseRecOn with
  | nil =>
      exact absurd rfl hne
  | append_singleton ds c ih =>
      rw [List.all_append, Bool.and_eq_true] at h
      have hc : c.isDigit = true := by
        simpa using h.2
      by_cases hds : ds = []
      · subst hds
        have hvalue : digitsValue [c] = c.toNat - '0'.toNat := by
          simp [digitsValue]
        rw [List.nil_append, hvalue]
        exact Numeral.single hc
      · rw [digitsValue_append]
        exact Numeral.append (ih hds h.1) hc

theorem natural?_eq_some_iff {ds : List Char} {n : Nat} :
    natural? ds = some n ↔ Numeral ds n := by
  unfold natural?
  constructor
  · intro h
    split at h
    next hds =>
      rw [← Option.some.inj h]
      exact numeral_digitsValue hds.1 hds.2
    next =>
      cases h
  · intro h
    rcases h.digits with ⟨hne, hall, hvalue⟩
    rw [if_pos ⟨hne, hall⟩, hvalue]

/-- A numeral does not start with a sign. -/
theorem Numeral.head {ds : List Char} {n : Nat} (h : Numeral ds n) :
    ∀ c ∈ ds.head?, c ≠ '-' ∧ c ≠ '+' := by
  intro c hc
  have hdigit : c.isDigit = true :=
    List.all_eq_true.mp h.digits.2.1 c (List.mem_of_mem_head? hc)
  constructor
  · intro hminus
    rw [hminus] at hdigit
    exact absurd hdigit (by decide)
  · intro hplus
    rw [hplus] at hdigit
    exact absurd hdigit (by decide)

/-!
# Signs
-/

theorem integer?_negative (ds : List Char) :
    integer? ('-' :: ds) = (natural? ds).map fun n : Nat => -(n : Int) := by
  rw [integer?]
  cases natural? ds with
  | none =>
      rfl
  | some n =>
      rfl

theorem integer?_positive (ds : List Char) :
    integer? ('+' :: ds) = (natural? ds).map Int.ofNat := by
  rfl

theorem integer?_unsigned {ds : List Char} (h : ∀ c ∈ ds.head?, c ≠ '-' ∧ c ≠ '+') :
    integer? ds = (natural? ds).map Int.ofNat := by
  unfold integer?
  split
  next =>
    exact absurd rfl (h '-' rfl).1
  next =>
    exact absurd rfl (h '+' rfl).2
  next =>
    rfl

theorem integer?_eq_some_iff {s : List Char} {v : Int} :
    integer? s = some v ↔ SignedNumeral s v := by
  constructor
  · intro h
    unfold integer? at h
    split at h
    next ds =>
      change integer? ('-' :: ds) = some v at h
      rw [integer?_negative] at h
      rcases Option.map_eq_some_iff.mp h with ⟨n, hn, hv⟩
      rw [← hv]
      exact SignedNumeral.negative (natural?_eq_some_iff.mp hn)
    next ds =>
      rcases Option.map_eq_some_iff.mp h with ⟨n, hn, hv⟩
      rw [← hv]
      exact SignedNumeral.positive (natural?_eq_some_iff.mp hn)
    next =>
      rcases Option.map_eq_some_iff.mp h with ⟨n, hn, hv⟩
      rw [← hv]
      exact SignedNumeral.unsigned (natural?_eq_some_iff.mp hn)
  · intro h
    cases h with
    | positive hds =>
        rw [integer?_positive, natural?_eq_some_iff.mpr hds]
        rfl
    | negative hds =>
        rw [integer?_negative, natural?_eq_some_iff.mpr hds]
        rfl
    | unsigned hds =>
        rw [integer?_unsigned hds.head, natural?_eq_some_iff.mpr hds]
        rfl

/-- An integer of so many bits is read from a signed numeral in their range. -/
theorem boundedInteger?_eq_some_iff {bits : Nat} {s : List Char} {v : Int} :
    boundedInteger? bits s = some v ↔
      SignedNumeral s v ∧ -(2 : Int) ^ (bits - 1) ≤ v ∧ v < (2 : Int) ^ (bits - 1) := by
  have hlimit : signedLimit bits = (2 : Int) ^ (bits - 1) := by
    unfold signedLimit
    exact Int.natCast_pow 2 (bits - 1)
  unfold boundedInteger?
  rw [Option.filter_eq_some_iff, integer?_eq_some_iff, hlimit, decide_eq_true_iff]

end Decimal
end HeaderBinding
