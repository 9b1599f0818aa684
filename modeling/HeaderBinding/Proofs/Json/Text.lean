import HeaderBinding.Json.Text

/-!
# String literals

A character may stand for itself in a string literal or be escaped, and the literal is
written in UTF-8. Reading a literal gives back its characters whichever way they are
written, and passing over it ends behind its closing quote.
-/

namespace HeaderBinding
namespace Json

open Except (ok error)

/-- Characters in UTF-8. -/
def encode (s : List Char) : List UInt8 :=
  s.flatMap String.utf8EncodeChar

theorem encode_append (s t : List Char) : encode (s ++ t) = encode s ++ encode t :=
  List.flatMap_append

theorem encode_cons (c : Char) (s : List Char) :
    encode (c :: s) = String.utf8EncodeChar c ++ encode s :=
  List.flatMap_cons

/-!
# Bytes of characters
-/

theorem utf8EncodeChar_of_ascii {c : Char} (h : c.toNat < 0x80) :
    String.utf8EncodeChar c = [UInt8.ofNat c.toNat] := by
  have hle : c.val.toNat ≤ 0x7f := Nat.le_of_lt_succ h
  unfold String.utf8EncodeChar
  simp only [hle, if_true]
  rfl

theorem encode_cons_of_ascii {c : Char} (s : List Char) (h : c.toNat < 0x80) :
    encode (c :: s) = UInt8.ofNat c.toNat :: encode s := by
  rw [encode_cons, utf8EncodeChar_of_ascii h]
  rfl

theorem toNat_ofUInt8 (b : UInt8) : (Char.ofUInt8 b).toNat = b.toNat :=
  UInt8.toNat_toUInt32 b

theorem ofUInt8_of_ascii {c : Char} (h : c.toNat < 0x80) :
    Char.ofUInt8 (UInt8.ofNat c.toNat) = c := by
  apply Char.toNat_inj.mp
  rw [toNat_ofUInt8]
  exact UInt8.toNat_ofNat_of_lt' (Nat.lt_trans h (by decide))

/-- The bytes of a character beyond ASCII are themselves beyond ASCII. -/
theorem le_of_mem_utf8EncodeChar {c : Char} {b : UInt8} (h : 0x80 ≤ c.toNat)
    (hb : b ∈ String.utf8EncodeChar c) : 0x80 ≤ b.toNat := by
  have hge : ¬c.val.toNat ≤ 0x7f := Nat.not_le.mpr h
  have hbyte : ∀ n, 0x80 ≤ n → n < 0x100 → 0x80 ≤ (UInt8.ofNat n).toNat := by
    intro n hlow hhigh
    rw [UInt8.toNat_ofNat_of_lt' hhigh]
    exact hlow
  unfold String.utf8EncodeChar at hb
  simp only [hge, if_false] at hb
  split at hb
  · simp only [List.mem_cons, List.not_mem_nil, or_false] at hb
    rcases hb with rfl | rfl <;>
      apply hbyte <;> omega
  · split at hb
    · simp only [List.mem_cons, List.not_mem_nil, or_false] at hb
      rcases hb with rfl | rfl | rfl <;>
        apply hbyte <;> omega
    · simp only [List.mem_cons, List.not_mem_nil, or_false] at hb
      rcases hb with rfl | rfl | rfl | rfl <;>
        apply hbyte <;> omega

/-!
# Writing a literal
-/

def shortEscapes : List (Char × Char) :=
  [ ('"', '"'), ('\\', '\\'), ('/', '/'), ('b', '\x08'), ('f', '\x0c'), ('n', '\n'),
    ('r', '\r'), ('t', '\t') ]

/-- Four hexadecimal digits of either case. -/
inductive HexUnit : Nat → List Char → Prop where
  | digits {a b c d : Char} {i j k l : Nat} (ha : Text.hexDigit? a = some i)
      (hb : Text.hexDigit? b = some j) (hc : Text.hexDigit? c = some k)
      (hd : Text.hexDigit? d = some l) :
      HexUnit (((i * 16 + j) * 16 + k) * 16 + l) [a, b, c, d]

/-- What may stand for a character in a literal. -/
inductive Spelled : Char → List Char → Prop where
  | plain {c : Char} (hcontrol : 0x20 ≤ c.toNat) (hquote : c ≠ '"') (hback : c ≠ '\\') :
      Spelled c [c]
  | short {letter c : Char} (h : (letter, c) ∈ shortEscapes) : Spelled c ['\\', letter]
  | unit {c : Char} {ds : List Char} (h : HexUnit c.toNat ds) :
      Spelled c ('\\' :: 'u' :: ds)
  | pair {c : Char} {high low : List Char} (hc : 0x10000 ≤ c.toNat)
      (hhigh : HexUnit (0xd800 + (c.toNat - 0x10000) / 0x400) high)
      (hlow : HexUnit (0xdc00 + (c.toNat - 0x10000) % 0x400) low) :
      Spelled c ('\\' :: 'u' :: high ++ '\\' :: 'u' :: low)

/-- What may stand for a text between the quotes of a literal. -/
inductive Body : List Char → List Char → Prop where
  | nil : Body [] []
  | cons {c : Char} {piece s body : List Char} (hc : Spelled c piece) (hs : Body s body) :
      Body (c :: s) (piece ++ body)

/-!
# Plain characters
-/

def PlainByte (b : UInt8) : Prop :=
  Char.ofUInt8 b ≠ '"' ∧ Char.ofUInt8 b ≠ '\\' ∧ ¬b < 0x20

theorem plainByte_of_mem {c : Char} {b : UInt8} (hcontrol : 0x20 ≤ c.toNat)
    (hquote : c ≠ '"') (hback : c ≠ '\\') (hb : b ∈ String.utf8EncodeChar c) :
    PlainByte b := by
  by_cases hascii : c.toNat < 0x80
  · rw [utf8EncodeChar_of_ascii hascii, List.mem_singleton] at hb
    subst hb
    unfold PlainByte
    rw [ofUInt8_of_ascii hascii]
    refine ⟨hquote, hback, ?_⟩
    rw [UInt8.lt_iff_toNat_lt, UInt8.toNat_ofNat_of_lt' (Nat.lt_trans hascii (by decide))]
    exact Nat.not_lt.mpr hcontrol
  · have hbyte := le_of_mem_utf8EncodeChar (Nat.not_lt.mp hascii) hb
    have hne : ∀ c : Char, c.toNat < 0x80 → Char.ofUInt8 b ≠ c := by
      rintro c hc rfl
      rw [toNat_ofUInt8] at hc
      exact absurd hbyte (Nat.not_le.mpr hc)
    refine ⟨hne '"' (by decide), hne '\\' (by decide), ?_⟩
    rw [UInt8.lt_iff_toNat_lt]
    exact Nat.not_lt.mpr (Nat.le_trans (by decide) hbyte)

theorem textBytes_append_plain {bytes : List UInt8} (rest : List UInt8)
    (h : ∀ b ∈ bytes, PlainByte b) :
    textBytes (bytes ++ rest) = (textBytes rest).map (bytes ++ ·) := by
  induction bytes with
  | nil =>
      rw [List.nil_append]
      cases textBytes rest <;> rfl
  | cons b bytes ih =>
      rcases h b List.mem_cons_self with ⟨hquote, hback, hcontrol⟩
      rw [List.cons_append, textBytes]
      rw [if_neg hquote, if_neg hback, if_neg hcontrol,
        ih fun d hd => h d (List.mem_cons_of_mem b hd)]
      cases textBytes rest <;> rfl

theorem passText_append_plain {bytes : List UInt8} (rest : List UInt8)
    (h : ∀ b ∈ bytes, PlainByte b) : passText (bytes ++ rest) = passText rest := by
  induction bytes with
  | nil =>
      rfl
  | cons b bytes ih =>
      rcases h b List.mem_cons_self with ⟨hquote, hback, hcontrol⟩
      rw [List.cons_append, passText]
      rw [if_neg hquote, if_neg hback, if_neg hcontrol,
        ih fun d hd => h d (List.mem_cons_of_mem b hd)]

/-!
# Escapes
-/

def backslash : UInt8 :=
  UInt8.ofNat '\\'.toNat

def letterU : UInt8 :=
  UInt8.ofNat 'u'.toNat

theorem encode_cons_backslash (s : List Char) : encode ('\\' :: s) = backslash :: encode s :=
  encode_cons_of_ascii s (by decide)

theorem encode_cons_letterU (s : List Char) : encode ('u' :: s) = letterU :: encode s :=
  encode_cons_of_ascii s (by decide)

theorem ofUInt8_backslash : Char.ofUInt8 backslash = '\\' := by
  decide

theorem ofUInt8_letterU : Char.ofUInt8 letterU = 'u' := by
  decide

theorem shortEscape?_letterU : shortEscape? letterU = none := by
  decide

theorem textBytes_escape {s rest bytes : List UInt8} (h : escape s = ok (bytes, rest)) :
    textBytes (backslash :: s) = (textBytes rest).map (bytes ++ ·) := by
  rw [textBytes]
  rw [ofUInt8_backslash, if_neg (by decide), if_pos rfl]
  split
  next fault hfault =>
    rw [h] at hfault
    cases hfault
  next bytes' rest' hok =>
    rw [h] at hok
    cases hok
    rfl

theorem passText_escape {s rest : List UInt8} (h : passEscape s = ok rest) :
    passText (backslash :: s) = passText rest := by
  rw [passText]
  rw [ofUInt8_backslash, if_neg (by decide), if_pos rfl]
  split
  next fault hfault =>
    rw [h] at hfault
    cases hfault
  next rest' hok =>
    rw [h] at hok
    cases hok
    rfl

theorem ascii_of_hexDigit? {c : Char} {k : Nat} (h : Text.hexDigit? c = some k) :
    c.toNat < 0x80 := by
  have hbound : ∀ d : Char, d.toNat < 0x80 → c ≤ d → c.toNat < 0x80 := by
    intro d hd hcd
    exact Nat.lt_of_le_of_lt (UInt32.le_iff_toNat_le.mp hcd) hd
  unfold Text.hexDigit? at h
  split at h
  next hdigit =>
    exact hbound '9' (by decide) hdigit.2
  next =>
    split at h
    next hlower =>
      exact hbound 'f' (by decide) hlower.2
    next =>
      split at h
      next hupper =>
        exact hbound 'F' (by decide) hupper.2
      next =>
        cases h

theorem hexUnit_encode {n : Nat} {ds : List Char} (rest : List UInt8) (h : HexUnit n ds) :
    hexUnit (encode ds ++ rest) = ok (n, rest) := by
  cases h with
  | digits ha hb hc hd =>
      have hvalue : ∀ {c : Char} {k : Nat}, Text.hexDigit? c = some k →
          hexValue? (UInt8.ofNat c.toNat) = some k := by
        intro c k hk
        unfold hexValue?
        rw [ofUInt8_of_ascii (ascii_of_hexDigit? hk), hk]
      rw [encode_cons_of_ascii _ (ascii_of_hexDigit? ha),
        encode_cons_of_ascii _ (ascii_of_hexDigit? hb),
        encode_cons_of_ascii _ (ascii_of_hexDigit? hc),
        encode_cons_of_ascii _ (ascii_of_hexDigit? hd)]
      simp only [List.cons_append, hexUnit, hvalue ha, hvalue hb, hvalue hc, hvalue hd]
      rfl

/-- No character is half of a surrogate pair. -/
theorem not_surrogate (c : Char) :
    isLowSurrogate c.toNat = false ∧ isHighSurrogate c.toNat = false := by
  have hvalid : c.toNat < 0xd800 ∨ 0xdfff < c.toNat ∧ c.toNat < 0x110000 := c.valid
  constructor
  · simp only [isLowSurrogate, Bool.and_eq_false_iff, decide_eq_false_iff_not]
    omega
  · simp only [isHighSurrogate, Bool.and_eq_false_iff, decide_eq_false_iff_not]
    omega

theorem escape_short {letter c : Char} (rest : List UInt8)
    (h : (letter, c) ∈ shortEscapes) :
    escape (UInt8.ofNat letter.toNat :: rest) = ok (String.utf8EncodeChar c, rest) ∧
      passEscape (UInt8.ofNat letter.toNat :: rest) = ok rest ∧
      encode ['\\', letter] = [backslash, UInt8.ofNat letter.toNat] := by
  have hall : ∀ e ∈ shortEscapes, e.1.toNat < 0x80 ∧
      ∃ b, shortEscape? (UInt8.ofNat e.1.toNat) = some b ∧ String.utf8EncodeChar e.2 = [b] := by
    decide
  rcases hall (letter, c) h with ⟨hascii, b, hshort, hbyte⟩
  refine ⟨?_, ?_, ?_⟩
  · simp only [escape, hshort, hbyte]
  · simp only [passEscape, hshort, Option.isSome_some, if_true]
  · rw [encode_cons_backslash, encode_cons_of_ascii _ hascii]
    rfl

theorem escape_unit {c : Char} {ds : List Char} (rest : List UInt8)
    (h : HexUnit c.toNat ds) :
    escape (letterU :: (encode ds ++ rest)) = ok (String.utf8EncodeChar c, rest) := by
  simp [escape, ofUInt8_letterU, shortEscape?_letterU, hexUnit_encode rest h,
    (not_surrogate c).1, (not_surrogate c).2, Char.ofNat_toNat]

theorem passEscape_unit {n : Nat} {ds : List Char} (rest : List UInt8) (h : HexUnit n ds) :
    passEscape (letterU :: (encode ds ++ rest)) = ok rest := by
  simp [passEscape, ofUInt8_letterU, shortEscape?_letterU, hexUnit_encode rest h, Except.map]

/-- Two surrogates make the character that they were taken from. -/
theorem surrogatePair_of_char {c : Char} (h : 0x10000 ≤ c.toNat) :
    isHighSurrogate (0xd800 + (c.toNat - 0x10000) / 0x400) = true ∧
      isLowSurrogate (0xdc00 + (c.toNat - 0x10000) % 0x400) = true ∧
      surrogatePair (0xd800 + (c.toNat - 0x10000) / 0x400)
        (0xdc00 + (c.toNat - 0x10000) % 0x400) = c := by
  have hvalid : c.toNat < 0xd800 ∨ 0xdfff < c.toNat ∧ c.toNat < 0x110000 := c.valid
  refine ⟨?_, ?_, ?_⟩
  · simp only [isHighSurrogate, Bool.and_eq_true, decide_eq_true_eq]
    omega
  · simp only [isLowSurrogate, Bool.and_eq_true, decide_eq_true_eq]
    omega
  · unfold surrogatePair
    have hsum : (0xd800 + (c.toNat - 0x10000) / 0x400 - 0xd800) * 0x400 +
        (0xdc00 + (c.toNat - 0x10000) % 0x400 - 0xdc00) + 0x10000 = c.toNat := by
      omega
    rw [hsum, Char.ofNat_toNat]

theorem escape_pair {c : Char} {high low : List Char} (rest : List UInt8)
    (hc : 0x10000 ≤ c.toNat) (hhigh : HexUnit (0xd800 + (c.toNat - 0x10000) / 0x400) high)
    (hlow : HexUnit (0xdc00 + (c.toNat - 0x10000) % 0x400) low) :
    escape (letterU :: (encode high ++ (backslash :: letterU :: (encode low ++ rest)))) =
      ok (String.utf8EncodeChar c, rest) := by
  rcases surrogatePair_of_char hc with ⟨hishigh, hislow, hpair⟩
  have hnotlow : isLowSurrogate (0xd800 + (c.toNat - 0x10000) / 0x400) = false := by
    have hvalid : c.toNat < 0xd800 ∨ 0xdfff < c.toNat ∧ c.toNat < 0x110000 := c.valid
    simp only [isLowSurrogate, Bool.and_eq_false_iff, decide_eq_false_iff_not]
    omega
  have hsecond : lowSurrogate (backslash :: letterU :: (encode low ++ rest)) =
      ok (0xdc00 + (c.toNat - 0x10000) % 0x400, rest) := by
    simp [lowSurrogate, ofUInt8_backslash, ofUInt8_letterU, hexUnit_encode rest hlow, hislow]
  simp [escape, ofUInt8_letterU, shortEscape?_letterU, hexUnit_encode _ hhigh, hnotlow,
    hishigh, hsecond, hpair]

/-!
# Reading and passing over a literal
-/

theorem encode_pair (high low : List Char) (rest : List UInt8) :
    encode ('\\' :: 'u' :: high ++ '\\' :: 'u' :: low) ++ rest =
      backslash :: letterU :: (encode high ++ (backslash :: letterU :: (encode low ++ rest))) := by
  simp only [List.cons_append, encode_cons_backslash, encode_cons_letterU, encode_append,
    List.append_assoc]

theorem textBytes_append_spelled {c : Char} {piece : List Char} (rest : List UInt8)
    (h : Spelled c piece) :
    textBytes (encode piece ++ rest) =
      (textBytes rest).map (String.utf8EncodeChar c ++ ·) := by
  cases h with
  | plain hcontrol hquote hback =>
      have hplain : ∀ b ∈ String.utf8EncodeChar c, PlainByte b := fun b hb =>
        plainByte_of_mem hcontrol hquote hback hb
      have hsingle : encode [c] = String.utf8EncodeChar c := List.append_nil _
      rw [hsingle, textBytes_append_plain rest hplain]
  | short h =>
      rcases escape_short rest h with ⟨hescape, _, hencode⟩
      rw [hencode, List.cons_append, List.singleton_append, textBytes_escape hescape]
  | unit h =>
      rw [encode_cons_backslash, encode_cons_letterU, List.cons_append, List.cons_append,
        textBytes_escape (escape_unit rest h)]
  | pair hc hhigh hlow =>
      rw [encode_pair, textBytes_escape (escape_pair rest hc hhigh hlow)]

theorem passText_append_spelled {c : Char} {piece : List Char} (rest : List UInt8)
    (h : Spelled c piece) : passText (encode piece ++ rest) = passText rest := by
  cases h with
  | plain hcontrol hquote hback =>
      have hplain : ∀ b ∈ String.utf8EncodeChar c, PlainByte b := fun b hb =>
        plainByte_of_mem hcontrol hquote hback hb
      have hsingle : encode [c] = String.utf8EncodeChar c := List.append_nil _
      rw [hsingle, passText_append_plain rest hplain]
  | short h =>
      rcases escape_short rest h with ⟨_, hpass, hencode⟩
      rw [hencode, List.cons_append, List.singleton_append, passText_escape hpass]
  | unit h =>
      rw [encode_cons_backslash, encode_cons_letterU, List.cons_append, List.cons_append,
        passText_escape (passEscape_unit rest h)]
  | pair hc hhigh hlow =>
      rw [encode_pair, passText_escape (passEscape_unit _ hhigh),
        passText_escape (passEscape_unit rest hlow)]

def quoteByte : UInt8 :=
  UInt8.ofNat '"'.toNat

theorem ofUInt8_quoteByte : Char.ofUInt8 quoteByte = '"' := by
  decide

theorem textBytes_body {s body : List Char} (rest : List UInt8) (h : Body s body) :
    textBytes (encode body ++ quoteByte :: rest) = ok (encode s) := by
  induction h with
  | nil =>
      rw [encode, List.flatMap_nil, List.nil_append, textBytes]
      rw [ofUInt8_quoteByte, if_pos rfl]
  | cons hc hs ih =>
      rw [encode_append, List.append_assoc, textBytes_append_spelled _ hc, ih, encode_cons]
      rfl

theorem passText_body {s body : List Char} (rest : List UInt8) (h : Body s body) :
    passText (encode body ++ quoteByte :: rest) = ok rest := by
  induction h with
  | nil =>
      rw [encode, List.flatMap_nil, List.nil_append, passText]
      rw [ofUInt8_quoteByte, if_pos rfl]
  | cons hc hs ih =>
      rw [encode_append, List.append_assoc, passText_append_spelled _ hc, ih]

theorem utf8_ofList (s : List Char) : (String.ofList s).toByteArray.data.toList = encode s := by
  rw [String.toByteArray_ofList, List.utf8Encode, List.data_toByteArray]
  rfl

theorem decodeUtf8_encode (s : List Char) : decodeUtf8 (encode s) = ok (String.ofList s) := by
  have hbytes : (⟨(encode s).toArray⟩ : ByteArray) = (String.ofList s).toByteArray := by
    apply ByteArray.ext
    rw [← utf8_ofList, Array.toArray_toList]
  have hdecode : String.fromUTF8? ⟨(encode s).toArray⟩ = some (String.ofList s) := by
    unfold String.fromUTF8?
    rw [hbytes, dif_pos (String.isValidUTF8 _)]
    rfl
  unfold decodeUtf8
  rw [hdecode]

theorem readText_body {s body : List Char} (rest : List UInt8) (h : Body s body) :
    readText (encode body ++ quoteByte :: rest) = ok (String.ofList s) := by
  unfold readText
  rw [textBytes_body rest h]
  exact decodeUtf8_encode s

end Json
end HeaderBinding
