import HeaderBinding.Proofs.Json.Number

/-!
# Literals as far as the grammar goes

A string or a number may fit the grammar and still not be readable: escaped surrogates may
stand alone, bytes need not be UTF-8, and a number may be beyond the doubles. Whatever a
scanner makes of a literal, it does not depend on what stands behind the literal.
-/

namespace HeaderBinding
namespace Json

open Except (ok error)

/-!
# Strings
-/

/-- What may stand between the quotes of a string. -/
inductive StringBody : List UInt8 → Prop where
  | nil : StringBody []
  | plain {b : UInt8} {body : List UInt8} (hb : PlainByte b) (h : StringBody body) :
      StringBody (b :: body)
  | short {letter c : Char} {body : List UInt8} (hletter : (letter, c) ∈ shortEscapes)
      (h : StringBody body) : StringBody (encode ['\\', letter] ++ body)
  | unit {n : Nat} {ds : List Char} {body : List UInt8} (hds : HexUnit n ds)
      (h : StringBody body) : StringBody (encode ('\\' :: 'u' :: ds) ++ body)

theorem StringBody.append {body tail : List UInt8} (h : StringBody body)
    (htail : StringBody tail) : StringBody (body ++ tail) := by
  induction h with
  | nil =>
      exact htail
  | plain hb h ih =>
      exact .plain hb ih
  | short hletter h ih =>
      rw [List.append_assoc]
      exact .short hletter ih
  | unit hds h ih =>
      rw [List.append_assoc]
      exact .unit hds ih

theorem StringBody.of_plain {bytes : List UInt8} (h : ∀ b ∈ bytes, PlainByte b) :
    StringBody bytes := by
  induction bytes with
  | nil =>
      exact .nil
  | cons b bytes ih =>
      exact .plain (h b List.mem_cons_self) (ih fun d hd => h d (List.mem_cons_of_mem b hd))

/-- A literal that stands for some text fits the grammar. -/
theorem StringBody.of_body {s body : List Char} (h : Body s body) :
    StringBody (encode body) := by
  induction h with
  | nil =>
      exact .nil
  | @cons c piece s body hc hs ih =>
      rw [encode_append]
      cases hc with
      | plain hcontrol hquote hback =>
          apply StringBody.append _ ih
          apply StringBody.of_plain
          intro b hb
          rw [encode_cons] at hb
          exact plainByte_of_mem hcontrol hquote hback (by simpa [encode] using hb)
      | short hletter =>
          exact .short hletter ih
      | unit hds =>
          exact .unit hds ih
      | pair _ hhigh hlow =>
          rw [encode_append, List.append_assoc]
          exact .unit hhigh (.unit hlow ih)

theorem passText_stringBody {body : List UInt8} (rest : List UInt8) (h : StringBody body) :
    passText (body ++ quoteByte :: rest) = ok rest := by
  induction h with
  | nil =>
      rw [List.nil_append, passText]
      rw [ofUInt8_quoteByte, if_pos rfl]
  | @plain b body hb h ih =>
      have hplain : ∀ d ∈ [b], PlainByte d := by
        intro d hd
        rw [List.mem_singleton.mp hd]
        exact hb
      exact (passText_append_plain (body ++ quoteByte :: rest) hplain).trans ih
  | @short letter c body hletter h ih =>
      rcases escape_short (body ++ quoteByte :: rest) hletter with ⟨_, hpass, hencode⟩
      rw [hencode, List.append_assoc, List.cons_append, List.singleton_append,
        passText_escape hpass, ih]
  | unit hds h ih =>
      rw [encode_cons_backslash, encode_cons_letterU, List.append_assoc, List.cons_append,
        List.cons_append, passText_escape (passEscape_unit _ hds), ih]

/-!
# Reading a string

A high surrogate takes along what stands behind it, but no further than to the closing quote.
-/

/-- What is found at the front of a string body is the same whatever stands behind the
closing quote, and it leaves the end of the body over. -/
inductive Found (find : List UInt8 → Except Fault (α × List UInt8)) (body : List UInt8) :
    Prop where
  | fault (fault : Fault) (h : ∀ rest, find (body ++ quoteByte :: rest) = error fault)
  | part (a : α) (tail : List UInt8) (htail : StringBody tail)
      (hle : tail.length ≤ body.length)
      (h : ∀ rest, find (body ++ quoteByte :: rest) = ok (a, tail ++ quoteByte :: rest))

theorem lowSurrogate_cons {b : UInt8} (s : List UInt8) (hb : Char.ofUInt8 b ≠ '\\') :
    lowSurrogate (b :: s) = error .malformed :=
  if_pos hb

theorem found_lowSurrogate {body : List UInt8} (h : StringBody body) :
    Found lowSurrogate body := by
  cases h with
  | nil =>
      exact .fault .malformed fun rest => lowSurrogate_cons rest (by decide)
  | plain hb h =>
      exact .fault .malformed fun rest => lowSurrogate_cons _ hb.2.1
  | @short letter c body hletter h =>
      have hletters : ∀ e ∈ shortEscapes, Char.ofUInt8 (UInt8.ofNat e.1.toNat) ≠ 'u' := by
        decide
      refine .fault .malformed fun rest => ?_
      rw [(escape_short [] hletter).2.2]
      simp [lowSurrogate, ofUInt8_backslash, hletters (letter, c) hletter]
  | @unit n ds body hds h =>
      have hscan : ∀ rest, lowSurrogate (encode ('\\' :: 'u' :: ds) ++ body ++ quoteByte :: rest) =
          if isLowSurrogate n then ok (n, body ++ quoteByte :: rest) else error .malformed := by
        intro rest
        rw [encode_cons_backslash, encode_cons_letterU, List.append_assoc]
        simp [lowSurrogate, ofUInt8_backslash, ofUInt8_letterU, hexUnit_encode _ hds]
      by_cases hlow : isLowSurrogate n
      · refine .part n body h ?_ fun rest => by rw [hscan, if_pos hlow]
        rw [List.length_append]
        exact Nat.le_add_left _ _
      · exact .fault .malformed fun rest => by rw [hscan, if_neg hlow]

theorem escape_hexUnit {n : Nat} {ds : List Char} (s : List UInt8) (hds : HexUnit n ds) :
    escape (letterU :: (encode ds ++ s)) =
      if isLowSurrogate n then error .malformed
      else if isHighSurrogate n then
        (lowSurrogate s).map fun part =>
          (String.utf8EncodeChar (surrogatePair n part.1), part.2)
      else ok (String.utf8EncodeChar (Char.ofNat n), s) := by
  simp only [escape, shortEscape?_letterU, ofUInt8_letterU, hexUnit_encode s hds]
  cases lowSurrogate s <;>
    rfl

theorem found_escape {n : Nat} {ds : List Char} {body : List UInt8} (hds : HexUnit n ds)
    (h : StringBody body) : Found (fun s => escape (letterU :: (encode ds ++ s))) body := by
  by_cases hlow : isLowSurrogate n
  · exact .fault .malformed fun rest => by rw [escape_hexUnit _ hds, if_pos hlow]
  · by_cases hhigh : isHighSurrogate n
    · cases found_lowSurrogate h with
      | fault fault hfault =>
          refine .fault fault fun rest => ?_
          rw [escape_hexUnit _ hds, if_neg hlow, if_pos hhigh, hfault]
          rfl
      | part m tail htail hle hpart =>
          refine .part (String.utf8EncodeChar (surrogatePair n m)) tail htail hle fun rest => ?_
          rw [escape_hexUnit _ hds, if_neg hlow, if_pos hhigh, hpart]
          rfl
    · refine .part (String.utf8EncodeChar (Char.ofNat n)) body h (Nat.le_refl _) fun rest => ?_
      rw [escape_hexUnit _ hds, if_neg hlow, if_neg hhigh]

theorem textBytes_escape_fault {s : List UInt8} {fault : Fault} (h : escape s = error fault) :
    textBytes (backslash :: s) = error fault := by
  rw [textBytes]
  rw [ofUInt8_backslash, if_neg (by decide), if_pos rfl]
  split
  next fault' hfault =>
    rw [h] at hfault
    cases hfault
    rfl
  next hok =>
    rw [h] at hok
    cases hok

/-- The induction is on the length, as an escape may take more than one part of the body. -/
theorem textBytes_stringBody {body : List UInt8} (rest : List UInt8) (h : StringBody body) :
    textBytes (body ++ quoteByte :: rest) = textBytes (body ++ [quoteByte]) := by
  cases h with
  | nil =>
      rw [List.nil_append, List.nil_append, textBytes, textBytes]
      rw [ofUInt8_quoteByte, if_pos rfl, if_pos rfl]
  | @plain b body hb h =>
      have hplain : ∀ d ∈ [b], PlainByte d := by
        intro d hd
        rw [List.mem_singleton.mp hd]
        exact hb
      have hstep := fun s => textBytes_append_plain s hplain
      simp only [List.singleton_append] at hstep
      rw [List.cons_append, List.cons_append, hstep, hstep, textBytes_stringBody rest h]
  | @short letter c body hletter h =>
      have hstep : ∀ s, textBytes (encode ['\\', letter] ++ body ++ s) =
          (textBytes (body ++ s)).map (String.utf8EncodeChar c ++ ·) := by
        intro s
        rcases escape_short (body ++ s) hletter with ⟨hescape, _, hencode⟩
        rw [hencode, List.append_assoc]
        exact textBytes_escape hescape
      rw [hstep, hstep, textBytes_stringBody rest h]
  | @unit n ds body hds h =>
      have hunit : ∀ s, encode ('\\' :: 'u' :: ds) ++ body ++ s =
          backslash :: letterU :: (encode ds ++ (body ++ s)) := by
        intro s
        rw [encode_cons_backslash, encode_cons_letterU, List.append_assoc]
        rfl
      rw [hunit, hunit]
      cases found_escape hds h with
      | fault fault hfault =>
          rw [textBytes_escape_fault (hfault rest), textBytes_escape_fault (hfault [])]
      | part bytes tail htail hle hpart =>
          rw [textBytes_escape (hpart rest), textBytes_escape (hpart []),
            textBytes_stringBody rest htail]
termination_by body.length
decreasing_by
  · exact Nat.lt_succ_self _
  · rw [List.length_append, (escape_short [] hletter).2.2]
    exact Nat.lt_add_of_pos_left (Nat.succ_pos _)
  · rw [List.length_append, encode_cons_backslash]
    exact Nat.lt_of_le_of_lt hle (Nat.lt_add_of_pos_left (Nat.succ_pos _))

/-- Half of a surrogate pair at the end of a string stands for no text. -/
theorem readText_of_high {n : Nat} {ds : List Char} (hds : HexUnit n ds)
    (hlow : isLowSurrogate n = false) (hhigh : isHighSurrogate n = true) :
    readText (encode ('\\' :: 'u' :: ds) ++ [quoteByte]) = error .malformed := by
  have hescape : escape (letterU :: (encode ds ++ [quoteByte])) = error .malformed := by
    rw [escape_hexUnit _ hds, if_neg (Bool.eq_false_iff.mp hlow), if_pos hhigh,
      lowSurrogate_cons [] (by decide)]
    rfl
  unfold readText
  rw [encode_cons_backslash, encode_cons_letterU, List.cons_append, List.cons_append,
    textBytes_escape_fault hescape]

theorem readText_stringBody {body : List UInt8} (rest : List UInt8) (h : StringBody body) :
    readText (body ++ quoteByte :: rest) = readText (body ++ [quoteByte]) := by
  unfold readText
  rw [textBytes_stringBody rest h]

/-!
# Numbers
-/

structure DigitRun (ds : List UInt8) : Prop where
  nonempty : ds ≠ []
  digits : ∀ b ∈ ds, isDigit b = true

/-- Only a single digit may be zero in front. -/
structure IntegerText (ds : List UInt8) : Prop extends DigitRun ds where
  canonical : ∀ b c rest, ds = b :: c :: rest → digitValue b ≠ 0

inductive FractionText : List UInt8 → Prop where
  | none : FractionText []
  | digits {b : UInt8} {ds : List UInt8} (hb : Char.ofUInt8 b = '.') (hds : DigitRun ds) :
      FractionText (b :: ds)

inductive ExponentSign : List UInt8 → Prop where
  | none : ExponentSign []
  | plus {b : UInt8} (hb : Char.ofUInt8 b = '+') : ExponentSign [b]
  | minus {b : UInt8} (hb : Char.ofUInt8 b = '-') : ExponentSign [b]

inductive ExponentText : List UInt8 → Prop where
  | none : ExponentText []
  | digits {b : UInt8} {sign ds : List UInt8} (hb : Char.ofUInt8 b = 'e' ∨ Char.ofUInt8 b = 'E')
      (hsign : ExponentSign sign) (hds : DigitRun ds) : ExponentText (b :: (sign ++ ds))

inductive NumberText : List UInt8 → Prop where
  | positive {integer fraction exponent : List UInt8} (hinteger : IntegerText integer)
      (hfraction : FractionText fraction) (hexponent : ExponentText exponent) :
      NumberText (integer ++ (fraction ++ exponent))
  | negative {b : UInt8} {integer fraction exponent : List UInt8}
      (hb : Char.ofUInt8 b = '-') (hinteger : IntegerText integer)
      (hfraction : FractionText fraction) (hexponent : ExponentText exponent) :
      NumberText (b :: (integer ++ (fraction ++ exponent)))

/-- The digits of a natural number fit the grammar of numbers. -/
theorem NumberText.of_digits {n : Nat} {ds : List Char} (h : Digits n ds) :
    NumberText (encode ds) := by
  rcases head_of_digits h with ⟨b, bytes, hbytes, hhead, hlong⟩
  have hinteger : IntegerText (encode ds) := by
    refine ⟨⟨?_, isDigit_of_digits h⟩, ?_⟩
    · rw [hbytes]
      exact List.cons_ne_nil b bytes
    · intro b' c rest heq
      rw [hbytes] at heq
      cases heq
      exact hhead (hlong (List.cons_ne_nil c rest))
  have hnumber := NumberText.positive hinteger .none .none
  rw [List.append_nil, List.append_nil] at hnumber
  exact hnumber

theorem NumberText.cons {text : List UInt8} (h : NumberText text) :
    ∃ b s, text = b :: s ∧ (Char.ofUInt8 b = '-' ∨ isDigit b = true) := by
  cases h with
  | @positive integer _ _ hinteger =>
      cases integer with
      | nil =>
          exact absurd rfl hinteger.nonempty
      | cons b integer =>
          exact ⟨b, _, rfl, .inr (hinteger.digits b List.mem_cons_self)⟩
  | negative hb =>
      exact ⟨_, _, rfl, .inl hb⟩

namespace Numeral

theorem not_digit_of_char {b : UInt8} {c : Char} (hb : Char.ofUInt8 b = c)
    (hc : c.toNat < 48 ∨ 57 < c.toNat) : isDigit b = false := by
  have htoNat : b.toNat = c.toNat := by
    rw [← toNat_ofUInt8, hb]
  simp only [isDigit, Bool.and_eq_false_iff, decide_eq_false_iff_not, UInt8.le_iff_toNat_le,
    htoNat, Nat.not_le]
  exact hc

theorem char_ne_of_digit {b : UInt8} {c : Char} (hb : isDigit b = true)
    (hc : c.toNat < 48 ∨ 57 < c.toNat) : Char.ofUInt8 b ≠ c := by
  intro heq
  rw [not_digit_of_char heq hc] at hb
  cases hb

theorem integerPart_append {ds rest : List UInt8} (h : IntegerText ds)
    (hrest : ∀ b ∈ rest.head?, isDigit b = false) : integerPart (ds ++ rest) = ok (ds, rest) := by
  unfold integerPart
  rw [digits_append h.nonempty h.digits hrest]
  split
  next b c ds rest' heq =>
    cases heq
    exact if_neg (h.canonical b c ds rfl)
  next =>
    rfl

theorem fractionPart_append {part : List UInt8} (h : FractionText part) :
    ∃ x, ∀ rest, (∀ b ∈ rest.head?, isDigit b = false ∧ Char.ofUInt8 b ≠ '.') →
      fractionPart (part ++ rest) = ok (x, rest) := by
  cases h with
  | none =>
      refine ⟨Option.none, fun rest hrest => ?_⟩
      cases rest with
      | nil =>
          rfl
      | cons b rest =>
          exact if_neg (hrest b rfl).2
  | @digits b ds hb hds =>
      refine ⟨some ds, fun rest hrest => ?_⟩
      have hdigits := digits_append hds.nonempty hds.digits fun b hb => (hrest b hb).1
      simp [fractionPart, hb, hdigits, Except.map]

theorem exponentSign_append {sign : List UInt8} (h : ExponentSign sign) :
    ∃ negative, ∀ ds rest, DigitRun ds →
      exponentSign (sign ++ (ds ++ rest)) = (negative, ds ++ rest) := by
  cases h with
  | none =>
      refine ⟨false, fun ds rest hds => ?_⟩
      cases ds with
      | nil =>
          exact absurd rfl hds.nonempty
      | cons b ds =>
          have hdigit := hds.digits b List.mem_cons_self
          have hplus : Char.ofUInt8 b ≠ '+' := char_ne_of_digit hdigit (by decide)
          have hminus : Char.ofUInt8 b ≠ '-' := char_ne_of_digit hdigit (by decide)
          simp [exponentSign, sign, hplus, hminus]
  | plus hb =>
      exact ⟨false, fun ds rest hds => if_pos hb⟩
  | minus hb =>
      exact ⟨true, fun ds rest hds => by simp [exponentSign, sign, hb]⟩

theorem exponentPart_append {part : List UInt8} (h : ExponentText part) :
    ∃ x, ∀ rest, EndsNumber rest → exponentPart (part ++ rest) = ok (x, rest) := by
  cases h with
  | none =>
      refine ⟨Option.none, fun rest hrest => ?_⟩
      cases rest with
      | nil =>
          rfl
      | cons b rest =>
          rcases (hrest b rfl).2.2 with ⟨hlower, hupper⟩
          exact if_neg (not_or.mpr ⟨hlower, hupper⟩)
  | @digits b sign ds hb hsign hds =>
      rcases exponentSign_append hsign with ⟨negative, hnegative⟩
      refine ⟨some (negative, ds), fun rest hrest => ?_⟩
      have hdigits := digits_append hds.nonempty hds.digits fun b hb => (hrest b hb).1
      rw [List.cons_append, List.append_assoc]
      simp [exponentPart, hb, hnegative ds rest hds, hdigits, Except.map]

theorem head_exponent {part rest : List UInt8} (h : ExponentText part) (hrest : EndsNumber rest) :
    ∀ b ∈ (part ++ rest).head?, isDigit b = false ∧ Char.ofUInt8 b ≠ '.' := by
  intro b hb
  cases h with
  | none =>
      exact ⟨(hrest b hb).1, (hrest b hb).2.1⟩
  | digits he =>
      cases hb
      rcases he with he | he
      · exact ⟨not_digit_of_char he (by decide), by rw [he]; decide⟩
      · exact ⟨not_digit_of_char he (by decide), by rw [he]; decide⟩

theorem head_fraction {part rest : List UInt8} (h : FractionText part)
    (hrest : ∀ b ∈ rest.head?, isDigit b = false) :
    ∀ b ∈ (part ++ rest).head?, isDigit b = false := by
  intro b hb
  cases h with
  | none =>
      exact hrest b hb
  | digits hpoint =>
      cases hb
      exact not_digit_of_char hpoint (by decide)

theorem sign_integer {ds : List UInt8} (rest : List UInt8) (h : DigitRun ds) :
    sign (ds ++ rest) = (false, ds ++ rest) := by
  cases ds with
  | nil =>
      exact absurd rfl h.nonempty
  | cons b ds =>
      exact if_neg (char_ne_of_digit (h.digits b List.mem_cons_self) (by decide))

theorem scan_append {text : List UInt8} (h : NumberText text) :
    ∃ m, ∀ rest, EndsNumber rest → scan (text ++ rest) = ok (m, rest) := by
  have hparts : ∀ {integer fraction exponent : List UInt8}, IntegerText integer →
      FractionText fraction → ExponentText exponent → ∃ x y, ∀ rest, EndsNumber rest →
        integerPart (integer ++ (fraction ++ (exponent ++ rest))) =
          ok (integer, fraction ++ (exponent ++ rest)) ∧
        fractionPart (fraction ++ (exponent ++ rest)) = ok (x, exponent ++ rest) ∧
        exponentPart (exponent ++ rest) = ok (y, rest) := by
    intro integer fraction exponent hinteger hfraction hexponent
    rcases fractionPart_append hfraction with ⟨x, hx⟩
    rcases exponentPart_append hexponent with ⟨y, hy⟩
    refine ⟨x, y, fun rest hrest => ⟨?_, ?_, hy rest hrest⟩⟩
    · apply integerPart_append hinteger
      exact head_fraction hfraction fun b hb => (head_exponent hexponent hrest b hb).1
    · exact hx _ (head_exponent hexponent hrest)
  cases h with
  | @positive integer fraction exponent hinteger hfraction hexponent =>
      rcases hparts hinteger hfraction hexponent with ⟨x, y, h⟩
      refine ⟨⟨false, integer, x, y⟩, fun rest hrest => ?_⟩
      rcases h rest hrest with ⟨hi, hf, he⟩
      rw [List.append_assoc, List.append_assoc]
      simp only [scan, bind, Except.bind, pure, Except.pure, sign_integer _ hinteger.toDigitRun,
        hi, hf, he]
  | @negative b integer fraction exponent hb hinteger hfraction hexponent =>
      rcases hparts hinteger hfraction hexponent with ⟨x, y, h⟩
      refine ⟨⟨true, integer, x, y⟩, fun rest hrest => ?_⟩
      rcases h rest hrest with ⟨hi, hf, he⟩
      rw [List.cons_append, List.append_assoc, List.append_assoc]
      simp only [scan, bind, Except.bind, pure, Except.pure, sign, hb, if_true, hi, hf, he]

end Numeral

theorem scanNumber_numberText {text : List UInt8} (h : NumberText text) :
    (scanNumber text).1.passing = none ∧
      ∀ rest, EndsNumber rest → scanNumber (text ++ rest) = ((scanNumber text).1, rest) := by
  rcases Numeral.scan_append h with ⟨m, hm⟩
  have hscan : ∀ rest, EndsNumber rest →
      scanNumber (text ++ rest) = (⟨m.content, none⟩, rest) := by
    intro rest hrest
    unfold scanNumber
    rw [hm rest hrest]
  have halone := hscan [] endsNumber_nil
  rw [List.append_nil] at halone
  constructor
  · rw [halone]
  · intro rest hrest
    rw [hscan rest hrest, halone]

end Json
end HeaderBinding
