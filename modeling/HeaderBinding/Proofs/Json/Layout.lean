import HeaderBinding.Proofs.Json.Datum
import HeaderBinding.Proofs.Json.Number

/-!
# The texts of a datum

Between the tokens of a text there may be any padding. Characters of a string may be
escaped, and a number ends where its digits do.
-/

namespace HeaderBinding
namespace Json

open Except (ok error)

/-- What may stand for a token. -/
inductive Lexeme : Token → List Char → Prop where
  | openObject : Lexeme .openObject ['{']
  | closeObject : Lexeme .closeObject ['}']
  | openArray : Lexeme .openArray ['[']
  | closeArray : Lexeme .closeArray [']']
  | colon : Lexeme .colon [':']
  | comma : Lexeme .comma [',']
  | text {s : String} {body : List Char} (h : Body s.toList body) :
      Lexeme (.text (.whole s)) ('"' :: body ++ ['"'])
  | null : Lexeme (.atom (.whole .null)) ['n', 'u', 'l', 'l']
  | true : Lexeme (.atom (.whole (.flag true))) ['t', 'r', 'u', 'e']
  | false : Lexeme (.atom (.whole (.flag false))) ['f', 'a', 'l', 's', 'e']

def paddings : List Char :=
  [' ', '\n', '\t', '\r']

/-- What may stand behind a number. -/
def enders : List Char :=
  paddings ++ [',', ']', '}']

/-- A text that lays out a list of tokens. -/
inductive Layout : List Token → List Char → Prop where
  | nil : Layout [] []
  | pad {c : Char} {tokens : List Token} {text : List Char} (hc : c ∈ paddings)
      (h : Layout tokens text) : Layout tokens (c :: text)
  | cons {token : Token} {piece : List Char} {tokens : List Token} {text : List Char}
      (hpiece : Lexeme token piece) (h : Layout tokens text) :
      Layout (token :: tokens) (piece ++ text)
  | number {n : UInt64} {ds : List Char} {tokens : List Token} {text : List Char}
      (hds : Digits n.toNat ds) (hend : ∀ c ∈ text.head?, c ∈ enders)
      (h : Layout tokens text) : Layout (.atom (.whole (.number (some n))) :: tokens) (ds ++ text)

theorem ascii_of_mem_enders {c : Char} (hc : c ∈ enders) : c.toNat < 0x80 := by
  have henders : enders.all (fun c => c.toNat < 0x80) = true := by
    decide
  exact of_decide_eq_true (List.all_eq_true.mp henders c hc)

/-!
# One token at the front

The bytes behind a token may be any.
-/

theorem lex_cons_pad {c : Char} (rest : List UInt8) (hc : c ∈ paddings) :
    lex (UInt8.ofNat c.toNat :: rest) = lex rest := by
  have hpaddings : paddings.all isPadding = true := by
    decide
  have hpadding : isPadding c = true := List.all_eq_true.mp hpaddings c hc
  have hascii : c.toNat < 0x80 := ascii_of_mem_enders (List.mem_append_left _ hc)
  rw [lex]
  simp only [ofUInt8_of_ascii hascii, hpadding, if_true]

theorem lex_cons_punctuation {c : Char} {token : Token} (rest : List UInt8)
    (hascii : c.toNat < 0x80) (hpadding : isPadding c = false)
    (htoken : punctuation? c = some token) :
    lex (UInt8.ofNat c.toNat :: rest) = token :: lex rest := by
  rw [lex]
  simp [ofUInt8_of_ascii hascii, hpadding, htoken]

theorem lex_cons_quote {s rest : List UInt8} (h : passText s = ok rest) :
    lex (quoteByte :: s) = .text ⟨readText s, none⟩ :: lex rest := by
  rw [lex]
  simp only [ofUInt8_quoteByte]
  rw [if_neg (by decide)]
  show (if True then _ else _) = _
  rw [if_pos trivial]
  split
  next fault hfault =>
    rw [h] at hfault
    cases hfault
  next rest' hrest =>
    rw [h] at hrest
    cases hrest
    rfl

theorem restOfName_encode (name : List Char) (rest : List UInt8)
    (hascii : ∀ c ∈ name, c.toNat < 0x80) : restOfName name (encode name ++ rest) = ok rest := by
  induction name with
  | nil =>
      rfl
  | cons c name ih =>
      have hc : c.toNat < 0x80 := hascii c List.mem_cons_self
      rw [encode_cons_of_ascii name hc, List.cons_append, restOfName, ofUInt8_of_ascii hc,
        if_pos rfl]
      exact ih (fun d hd => hascii d (List.mem_cons_of_mem c hd))

theorem lex_append_name {c : Char} {name : List Char} {atom : Atom} (rest : List UInt8)
    (hc : c ∈ ['n', 't', 'f']) (hname : name? c = some (name, atom))
    (hascii : name.all (fun c => c.toNat < 0x80) = true) :
    lex (encode (c :: name) ++ rest) = .atom (.whole atom) :: lex rest := by
  have hletters : ['n', 't', 'f'].all (fun c => c.toNat < 0x80 ∧ isPadding c = false ∧
      (punctuation? c).isNone ∧ c ≠ '"' ∧ c ≠ '-' ∧
      isDigit (UInt8.ofNat c.toNat) = false) = true := by
    decide
  have hletter := of_decide_eq_true (List.all_eq_true.mp hletters c hc)
  rcases hletter with ⟨hlt, hpadding, hnone, hquote, hminus, hdigit⟩
  have htoken : punctuation? c = none := Option.isNone_iff_eq_none.mp hnone
  rw [encode_cons_of_ascii _ hlt, List.cons_append, lex]
  simp only [ofUInt8_of_ascii hlt, hpadding, htoken, hquote, hminus, hdigit, hname,
    Bool.false_eq_true, or_self, if_false]
  have hrest := restOfName_encode name rest
    (fun c hc => of_decide_eq_true (List.all_eq_true.mp hascii c hc))
  split
  next fault hfault =>
    rw [hrest] at hfault
    cases hfault
  next rest' hfound =>
    rw [hrest] at hfound
    cases hfound
    rfl

theorem plain_of_isDigit {c : Char} (h : c.isDigit = true) :
    isPadding c = false ∧ punctuation? c = none ∧ c ≠ '"' := by
  refine ⟨?_, ?_, ?_⟩
  · rw [Bool.eq_false_iff]
    intro hc
    simp only [isPadding, Bool.or_eq_true, beq_iff_eq] at hc
    rcases hc with ((rfl | rfl) | rfl) | rfl <;>
      exact absurd h (by decide)
  · unfold punctuation?
    split
    case h_7 =>
      rfl
    all_goals exact absurd h (by decide)
  · rintro rfl
    exact absurd h (by decide)

theorem isDigit_ofUInt8 {b : UInt8} (h : isDigit b = true) :
    (Char.ofUInt8 b).isDigit = true := by
  simp only [isDigit, Bool.and_eq_true, decide_eq_true_eq, UInt8.le_iff_toNat_le] at h
  simp only [Char.isDigit, Bool.and_eq_true, decide_eq_true_eq]
  constructor
  · apply UInt32.le_iff_toNat_le.mpr
    show 48 ≤ (Char.ofUInt8 b).toNat
    rw [toNat_ofUInt8]
    exact h.1
  · apply UInt32.le_iff_toNat_le.mpr
    show (Char.ofUInt8 b).toNat ≤ 57
    rw [toNat_ofUInt8]
    exact h.2

theorem lex_of_scanNumber {b : UInt8} {s rest : List UInt8} {scan : Scan Atom}
    (hb : Char.ofUInt8 b = '-' ∨ isDigit b = true) (hscan : scanNumber (b :: s) = (scan, rest))
    (hpassing : scan.passing = none) : lex (b :: s) = .atom scan :: lex rest := by
  have hplain : isPadding (Char.ofUInt8 b) = false ∧ punctuation? (Char.ofUInt8 b) = none ∧
      Char.ofUInt8 b ≠ '"' := by
    rcases hb with hminus | hdigit
    · rw [hminus]
      exact ⟨rfl, rfl, by decide⟩
    · exact plain_of_isDigit (isDigit_ofUInt8 hdigit)
  rcases hplain with ⟨hpadding, htoken, hquote⟩
  rw [lex]
  simp only [hpadding, htoken, hquote, hb, hscan, hpassing, Bool.false_eq_true, if_true,
    if_false]

/-- What may stand behind a number. -/
theorem endsNumber_cons {c : Char} (rest : List UInt8) (hc : c ∈ enders) :
    EndsNumber (UInt8.ofNat c.toNat :: rest) := by
  have henders : enders.all (fun c => isDigit (UInt8.ofNat c.toNat) = false ∧ c ≠ '.' ∧
      c ≠ 'e' ∧ c ≠ 'E') = true := by
    decide
  intro b hb
  cases hb
  rw [ofUInt8_of_ascii (ascii_of_mem_enders hc)]
  exact of_decide_eq_true (List.all_eq_true.mp henders c hc)

/-!
# Reading the tokens of a text
-/

theorem lex_pad {c : Char} (text : List Char) (hc : c ∈ paddings) :
    lex (encode (c :: text)) = lex (encode text) := by
  have hascii : c.toNat < 0x80 := ascii_of_mem_enders (List.mem_append_left _ hc)
  rw [encode_cons_of_ascii text hascii, lex_cons_pad _ hc]

theorem lex_punctuation {c : Char} {token : Token} (text : List Char)
    (hascii : c.toNat < 0x80) (hpadding : isPadding c = false)
    (htoken : punctuation? c = some token) :
    lex (encode (c :: text)) = token :: lex (encode text) := by
  rw [encode_cons_of_ascii text hascii, lex_cons_punctuation _ hascii hpadding htoken]

theorem lex_text {s body : List Char} (text : List Char) (h : Body s body) :
    lex (encode ('"' :: body ++ ['"'] ++ text)) =
      .text (.whole (String.ofList s)) :: lex (encode text) := by
  have hbytes : encode ('"' :: body ++ ['"'] ++ text) =
      quoteByte :: (encode body ++ quoteByte :: encode text) := by
    rw [List.append_assoc, encode_append, encode_append]
    rfl
  rw [hbytes, lex_cons_quote (passText_body _ h), readText_body _ h]
  rfl

theorem lex_name {c : Char} {name : List Char} {atom : Atom} (text : List Char)
    (hc : c ∈ ['n', 't', 'f']) (hname : name? c = some (name, atom))
    (hascii : name.all (fun c => c.toNat < 0x80) = true) :
    lex (encode (c :: name ++ text)) = .atom (.whole atom) :: lex (encode text) := by
  rw [encode_append, lex_append_name _ hc hname hascii]

theorem endsNumber_of_head {text : List Char} (h : ∀ c ∈ text.head?, c ∈ enders) :
    EndsNumber (encode text) := by
  cases text with
  | nil =>
      intro b hb
      cases hb
  | cons c text =>
      have hc : c ∈ enders := h c rfl
      rw [encode_cons_of_ascii text (ascii_of_mem_enders hc)]
      exact endsNumber_cons _ hc

theorem lex_number {n : UInt64} {ds text : List Char} (hds : Digits n.toNat ds)
    (hend : ∀ c ∈ text.head?, c ∈ enders) :
    lex (encode (ds ++ text)) = .atom (.whole (.number (some n))) :: lex (encode text) := by
  rcases cons_of_digits hds with ⟨c, cs, rfl, hc⟩
  have hascii : c.toNat < 0x80 := Nat.lt_of_le_of_lt (toNat_of_isDigit hc).2 (by decide)
  have hscan := scanNumber_digits hds (endsNumber_of_head hend)
  rw [encode_append]
  rw [encode_cons_of_ascii _ hascii] at hscan ⊢
  exact lex_of_scanNumber (.inr (digitByte hc).2.1) hscan rfl

/-- The tokens of a text are those that it lays out. -/
theorem lex_layout {tokens : List Token} {text : List Char} (h : Layout tokens text) :
    lex (encode text) = tokens := by
  induction h with
  | nil =>
      rw [encode, List.flatMap_nil, lex]
  | pad hc h ih =>
      rw [lex_pad _ hc, ih]
  | @cons token piece tokens text hpiece h ih =>
      rw [← ih]
      cases hpiece with
      | openObject =>
          exact lex_punctuation text (by decide) rfl rfl
      | closeObject =>
          exact lex_punctuation text (by decide) rfl rfl
      | openArray =>
          exact lex_punctuation text (by decide) rfl rfl
      | closeArray =>
          exact lex_punctuation text (by decide) rfl rfl
      | colon =>
          exact lex_punctuation text (by decide) rfl rfl
      | comma =>
          exact lex_punctuation text (by decide) rfl rfl
      | @text s body h =>
          rw [lex_text text h, String.ofList_toList]
      | null =>
          exact lex_name text (by decide) rfl (by decide)
      | true =>
          exact lex_name text (by decide) rfl (by decide)
      | false =>
          exact lex_name text (by decide) rfl (by decide)
  | number hds hend h ih =>
      rw [lex_number hds hend, ih]

/-- A text that lays out the tokens of a datum is read as its value. -/
theorem ofText_layout {d : Datum} {text : List Char} (h : Layout d.tokens text) :
    Document.ofText (encode text) = ⟨d.value, none⟩ := by
  unfold Document.ofText
  rw [lex_layout h]
  exact run_document d.phrase_tokens

end Json
end HeaderBinding
