import HeaderBinding.Json.Lexer
import HeaderBinding.Outcome
import HeaderBinding.Proofs.Json.Literal

/-!
# Literals that are scanned fit the grammar

Whatever a scanner goes over without a fault is a literal of the grammar, and what it leaves is
the text behind the literal.
-/

namespace HeaderBinding
namespace Json

open Except (ok error)

/-!
# Strings
-/

theorem eq_of_ofUInt8 {b : UInt8} {c : Char} (h : Char.ofUInt8 b = c) :
    b = UInt8.ofNat c.toNat := by
  rw [← h, toNat_ofUInt8, UInt8.ofNat_toNat]

theorem exists_hexUnit {s rest : List UInt8} {n : Nat} (h : hexUnit s = ok (n, rest)) :
    ∃ ds, HexUnit n ds ∧ s = encode ds ++ rest := by
  have hbyte : ∀ {b : UInt8} {k : Nat}, hexValue? b = some k →
      encode [Char.ofUInt8 b] = [b] := by
    intro b k hk
    rw [encode_cons_of_ascii [] (ascii_of_hexDigit? hk), ← eq_of_ofUInt8 rfl]
    rfl
  unfold hexUnit at h
  split at h
  next a b c d rest =>
    split at h
    next i j k l ha hb hc hd =>
      cases h
      refine ⟨[Char.ofUInt8 a] ++ ([Char.ofUInt8 b] ++ ([Char.ofUInt8 c] ++
        [Char.ofUInt8 d])), .digits ha hb hc hd, ?_⟩
      rw [encode_append, encode_append, encode_append, hbyte ha, hbyte hb, hbyte hc, hbyte hd]
      rfl
    next =>
      cases h
  next =>
    cases h

theorem exists_shortEscape {b : UInt8} (h : (shortEscape? b).isSome) :
    ∃ c, (Char.ofUInt8 b, c) ∈ shortEscapes := by
  unfold shortEscape? at h
  split at h
  case h_9 =>
    cases h
  all_goals
    next hb =>
      rw [hb]
      simp [shortEscapes]

theorem exists_escape {s rest : List UInt8} (h : passEscape s = ok rest) :
    (∃ letter c, (letter, c) ∈ shortEscapes ∧ s = UInt8.ofNat letter.toNat :: rest) ∨
      ∃ n ds, HexUnit n ds ∧ s = letterU :: (encode ds ++ rest) := by
  unfold passEscape at h
  split at h
  next =>
    cases h
  next letter tail =>
    split at h
    next hshort =>
      cases h
      rcases exists_shortEscape hshort with ⟨c, hc⟩
      left
      exact ⟨_, c, hc, by rw [← eq_of_ofUInt8 rfl]⟩
    next =>
      split at h
      next hunit =>
        rcases map_eq_ok h with ⟨part, hpart, hrest⟩
        rcases exists_hexUnit hpart with ⟨ds, hds, htail⟩
        right
        refine ⟨_, ds, hds, ?_⟩
        rw [eq_of_ofUInt8 hunit, htail, hrest]
        rfl
      next =>
        cases h

theorem exists_stringBody {s rest : List UInt8} (h : passText s = ok rest) :
    ∃ body, StringBody body ∧ s = body ++ quoteByte :: rest := by
  fun_induction passText s with
  | case1 =>
      cases h
  | case2 b tail hquote =>
      cases h
      exact ⟨[], .nil, by rw [eq_of_ofUInt8 hquote]; rfl⟩
  | case3 =>
      cases h
  | case4 b tail _ hback left hescape ih =>
      rcases ih h with ⟨body, hbody, hleft⟩
      rcases exists_escape hescape with ⟨letter, c, hletter, htail⟩ | ⟨n, ds, hds, htail⟩
      · refine ⟨_, .short hletter hbody, ?_⟩
        rw [eq_of_ofUInt8 hback, htail, hleft, (escape_short [] hletter).2.2]
        rfl
      · refine ⟨_, .unit hds hbody, ?_⟩
        rw [eq_of_ofUInt8 hback, htail, hleft, encode_cons_backslash, encode_cons_letterU,
          List.append_assoc]
        rfl
  | case5 =>
      cases h
  | case6 b tail hquote hback hcontrol ih =>
      rcases ih h with ⟨body, hbody, htail⟩
      exact ⟨b :: body, .plain ⟨hquote, hback, hcontrol⟩ hbody, by rw [htail]; rfl⟩

/-!
# Numbers
-/

namespace Numeral

theorem exists_digits {s ds rest : List UInt8} (h : digits s = ok (ds, rest)) :
    DigitRun ds ∧ s = ds ++ rest ∧ ∀ b ∈ rest.head?, isDigit b = false := by
  unfold digits at h
  split at h
  next =>
    cases h
  next hne =>
    cases h
    refine ⟨⟨hne, List.all_eq_true.mp List.all_takeWhile⟩,
      (List.takeWhile_append_dropWhile).symm, ?_⟩
    intro b hb
    have hdrop := List.head?_dropWhile_not isDigit s
    rw [Option.mem_def.mp hb] at hdrop
    exact hdrop

theorem exists_integer {s ds rest : List UInt8} (h : integerPart s = ok (ds, rest)) :
    IntegerText ds ∧ s = ds ++ rest ∧ ∀ b ∈ rest.head?, isDigit b = false := by
  unfold integerPart at h
  split at h
  next b c ds' rest' hdigits =>
    split at h
    next =>
      cases h
    next hzero =>
      cases h
      rcases exists_digits hdigits with ⟨hds, hs, hrest⟩
      refine ⟨⟨hds, ?_⟩, hs, hrest⟩
      intro b' c' rest' heq
      cases heq
      exact hzero
  next hother =>
    rcases exists_digits h with ⟨hds, hs, hrest⟩
    refine ⟨⟨hds, ?_⟩, hs, hrest⟩
    intro b c rest' heq
    rw [heq] at h
    exact absurd h (hother b c rest' rest)

theorem exists_fraction {s rest : List UInt8} {part : Option (List UInt8)}
    (hs : ∀ b ∈ s.head?, isDigit b = false) (h : fractionPart s = ok (part, rest)) :
    ∃ text, FractionText text ∧ s = text ++ rest ∧ ∀ b ∈ rest.head?, isDigit b = false := by
  unfold fractionPart at h
  split at h
  next b tail =>
    split at h
    next hpoint =>
      rcases map_eq_ok h with ⟨found, hfound, heq⟩
      cases heq
      rcases exists_digits hfound with ⟨hds, htail, hrest⟩
      exact ⟨_, .digits hpoint hds, by rw [htail]; rfl, hrest⟩
    next =>
      cases h
      exact ⟨[], .none, rfl, hs⟩
  next =>
    cases h
    exact ⟨[], .none, rfl, hs⟩

theorem exists_exponentSign (s : List UInt8) :
    ∃ sign, ExponentSign sign ∧ s = sign ++ (exponentSign s).2 := by
  unfold exponentSign
  split
  next b tail =>
    split
    next hplus =>
      exact ⟨[b], .plus hplus, rfl⟩
    next =>
      by_cases hminus : Char.ofUInt8 b = '-'
      · exact ⟨[b], .minus hminus, by simp [sign, hminus]⟩
      · exact ⟨[], .none, by simp [sign, hminus]⟩
  next =>
    exact ⟨[], .none, rfl⟩

theorem exists_exponent {s rest : List UInt8} {part : Option (Bool × List UInt8)}
    (hs : ∀ b ∈ s.head?, isDigit b = false) (h : exponentPart s = ok (part, rest)) :
    ∃ text, ExponentText text ∧ s = text ++ rest ∧ ∀ b ∈ rest.head?, isDigit b = false := by
  unfold exponentPart at h
  split at h
  next b tail =>
    split at h
    next hletter =>
      rcases exists_exponentSign tail with ⟨sign, hsign, htail⟩
      rcases map_eq_ok h with ⟨found, hfound, heq⟩
      cases heq
      rcases exists_digits hfound with ⟨hds, hdigits, hrest⟩
      have hbehind : (exponentSign tail).2 = found.1 ++ found.2 := hdigits
      refine ⟨_, .digits hletter hsign hds, ?_, hrest⟩
      rw [htail, hbehind, List.cons_append, List.append_assoc]
    next =>
      cases h
      exact ⟨[], .none, rfl, hs⟩
  next =>
    cases h
    exact ⟨[], .none, rfl, hs⟩

theorem exists_numberText {s rest : List UInt8} {m : Numeral} (h : scan s = ok (m, rest)) :
    ∃ text, NumberText text ∧ s = text ++ rest ∧ ∀ b ∈ rest.head?, isDigit b = false := by
  unfold scan at h
  rcases bind_eq_ok h with ⟨⟨integer, s₁⟩, hinteger, h⟩
  rcases bind_eq_ok h with ⟨⟨fraction, s₂⟩, hfraction, h⟩
  rcases bind_eq_ok h with ⟨⟨exponent, s₃⟩, hexponent, h⟩
  cases h
  rcases exists_integer hinteger with ⟨hi, hs₁, hhead₁⟩
  rcases exists_fraction hhead₁ hfraction with ⟨f, hf, hs₂, hhead₂⟩
  rcases exists_exponent hhead₂ hexponent with ⟨e, he, hs₃, hhead₃⟩
  have hall : (sign s).2 = integer ++ (f ++ e) ++ rest := by
    have hbehind : (sign s).2 = integer ++ s₁ := hs₁
    rw [hbehind, hs₂, hs₃, List.append_assoc, List.append_assoc]
  cases s with
  | nil =>
      exact ⟨_, .positive hi hf he, hall, hhead₃⟩
  | cons b tail =>
      by_cases hminus : Char.ofUInt8 b = '-'
      · rw [sign, if_pos hminus] at hall
        exact ⟨_, .negative hminus hi hf he, congrArg (b :: ·) hall, hhead₃⟩
      · rw [sign, if_neg hminus] at hall
        exact ⟨_, .positive hi hf he, hall, hhead₃⟩

end Numeral

/-!
# Names
-/

theorem eq_of_restOfName {name : List Char} {s rest : List UInt8}
    (h : restOfName name s = ok rest) (hascii : ∀ c ∈ name, c.toNat < 0x80) :
    s = encode name ++ rest := by
  induction name generalizing s with
  | nil =>
      cases h
      rfl
  | cons c name ih =>
      rcases List.forall_mem_cons.mp hascii with ⟨hc, hname⟩
      cases s with
      | nil =>
          cases h
      | cons b s =>
          unfold restOfName at h
          split at h
          next hb =>
            rw [encode_cons_of_ascii name hc, ih h hname, eq_of_ofUInt8 hb]
            rfl
          next =>
            cases h

end Json
end HeaderBinding
