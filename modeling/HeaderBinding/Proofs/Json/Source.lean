import HeaderBinding.Proofs.Json.Literal
import HeaderBinding.Proofs.Json.Print

/-!
# Texts that fit the grammar

A source is a JSON text as a tree. It keeps the literals as they are written, whether or not
they can be read, and leaves out the padding between them. Every text that spreads out the
pieces of a source is read as the value of the source.
-/

namespace HeaderBinding
namespace Json

open Except (ok error)

structure StringLiteral where
  body : List UInt8
  grammatical : StringBody body

namespace StringLiteral

def text (s : StringLiteral) : List UInt8 :=
  quoteByte :: (s.body ++ [quoteByte])

def scan (s : StringLiteral) : Scan String :=
  ⟨readText (s.body ++ [quoteByte]), none⟩

/-- Whether a literal stands for a text, whichever way it is written. -/
def Denotes (s : StringLiteral) (t : String) : Prop :=
  ∃ body, Body t.toList body ∧ s.body = encode body

theorem scan_of_denotes {s : StringLiteral} {t : String} (h : s.Denotes t) :
    s.scan = .whole t := by
  rcases h with ⟨body, hbody, hs⟩
  unfold scan
  rw [hs, readText_body [] hbody, String.ofList_toList]
  rfl

end StringLiteral

structure NumberLiteral where
  text : List UInt8
  grammatical : NumberText text

namespace NumberLiteral

def scan (n : NumberLiteral) : Scan Atom :=
  (scanNumber n.text).1

theorem passing_scan (n : NumberLiteral) : n.scan.passing = none :=
  (scanNumber_numberText n.grammatical).1

end NumberLiteral

inductive Source where
  | null
  | flag (b : Bool)
  | number (n : NumberLiteral)
  | text (s : StringLiteral)
  | array (items : List Source)
  | object (members : List (StringLiteral × Source))

namespace Source

mutual

def value : Source → Value
  | null => .atom (.whole .null)
  | flag b => .atom (.whole (.flag b))
  | number n => .atom n.scan
  | text s => .atom (s.scan.map .text)
  | array items => .array (itemValues items) none
  | object members => .object (memberValues members) none

def itemValues : List Source → List Value
  | [] => []
  | d :: items => d.value :: itemValues items

def memberValues : List (StringLiteral × Source) → List Member
  | [] => []
  | (key, d) :: members => (key.scan, d.value) :: memberValues members

end

/-- Nothing is wrong with passing over a source, whether or not it can be read. -/
theorem passing_value (d : Source) : d.value.passing = none := by
  cases d with
  | number n =>
      exact n.passing_scan
  | _ =>
      rfl

/-!
# Pieces

The pieces of items and of members are those behind a first one, up to the bracket that ends
them.
-/

def mark (c : Char) : List UInt8 :=
  [UInt8.ofNat c.toNat]

mutual

def pieces : Source → List (List UInt8)
  | null => [encode ['n', 'u', 'l', 'l']]
  | flag true => [encode ['t', 'r', 'u', 'e']]
  | flag false => [encode ['f', 'a', 'l', 's', 'e']]
  | number n => [n.text]
  | text s => [s.text]
  | array [] => [mark '[', mark ']']
  | array (d :: items) => mark '[' :: (d.pieces ++ itemPieces items)
  | object [] => [mark '\x7b', mark '\x7d']
  | object ((key, d) :: members) =>
      mark '\x7b' :: key.text :: mark ':' :: (d.pieces ++ memberPieces members)

def itemPieces : List Source → List (List UInt8)
  | [] => [mark ']']
  | d :: items => mark ',' :: (d.pieces ++ itemPieces items)

def memberPieces : List (StringLiteral × Source) → List (List UInt8)
  | [] => [mark '\x7d']
  | (key, d) :: members =>
      mark ',' :: key.text :: mark ':' :: (d.pieces ++ memberPieces members)

end

/-- A text of these pieces, with any padding around them. -/
inductive Spread : List (List UInt8) → List UInt8 → Prop where
  | nil : Spread [] []
  | pad {c : Char} {ps : List (List UInt8)} {t : List UInt8} (hc : c ∈ paddings)
      (h : Spread ps t) : Spread ps (mark c ++ t)
  | cons {p : List UInt8} {ps : List (List UInt8)} {t : List UInt8} (h : Spread ps t) :
      Spread (p :: ps) (p ++ t)

theorem Spread.flatten (ps : List (List UInt8)) : Spread ps ps.flatten := by
  induction ps with
  | nil =>
      exact .nil
  | cons p ps ih =>
      exact .cons ih

/-!
# The token of a piece
-/

variable {p : List UInt8} {ps : List (List UInt8)} {t : List UInt8}

theorem Spread.lex_piece (h : Spread (p :: ps) t) :
    ∃ t', Spread ps t' ∧ lex t = lex (p ++ t') := by
  generalize hq : p :: ps = qs at h
  induction h with
  | nil =>
      cases hq
  | @pad c qs t hc h ih =>
      rcases ih hq with ⟨t', ht', hlex⟩
      exact ⟨t', ht', (lex_cons_pad t hc).trans hlex⟩
  | cons h ih =>
      cases hq
      exact ⟨_, h, rfl⟩

theorem Spread.lex_nil (h : Spread [] t) : lex t = [] := by
  generalize hq : [] = qs at h
  induction h with
  | nil =>
      rw [lex]
  | @pad c qs t hc h ih =>
      exact (lex_cons_pad t hc).trans (ih hq)
  | cons h ih =>
      cases hq

theorem Spread.lex_mark {c : Char} {token : Token} (h : Spread (mark c :: ps) t)
    (htoken : punctuation? c = some token) : ∃ t', Spread ps t' ∧ lex t = token :: lex t' := by
  have hplain : c.toNat < 0x80 ∧ isPadding c = false := by
    unfold punctuation? at htoken
    split at htoken
    case h_7 =>
      cases htoken
    all_goals decide
  rcases h.lex_piece with ⟨t', ht', hlex⟩
  exact ⟨t', ht', hlex.trans (lex_cons_punctuation t' hplain.1 hplain.2 htoken)⟩

theorem Spread.lex_string {s : StringLiteral} (h : Spread (s.text :: ps) t) :
    ∃ t', Spread ps t' ∧ lex t = .text s.scan :: lex t' := by
  rcases h.lex_piece with ⟨t', ht', hlex⟩
  refine ⟨t', ht', ?_⟩
  rw [hlex, StringLiteral.text, List.cons_append, List.append_assoc, List.singleton_append,
    lex_cons_quote (passText_stringBody t' s.grammatical),
    readText_stringBody t' s.grammatical]
  rfl

theorem Spread.lex_name {c : Char} {name : List Char} {atom : Atom}
    (h : Spread (encode (c :: name) :: ps) t) (hc : c ∈ ['n', 't', 'f'])
    (hname : name? c = some (name, atom)) (hascii : name.all (fun c => c.toNat < 0x80) = true) :
    ∃ t', Spread ps t' ∧ lex t = .atom (.whole atom) :: lex t' := by
  rcases h.lex_piece with ⟨t', ht', hlex⟩
  exact ⟨t', ht', hlex.trans (lex_append_name t' hc hname hascii)⟩

/-- What may come behind a value: nothing, or a mark that ends a number. -/
def Closed (ps : List (List UInt8)) : Prop :=
  ∀ p ∈ ps.head?, ∃ c ∈ [',', ']', '}'], p = mark c

theorem closed_nil : Closed [] :=
  fun _ hp => nomatch hp

theorem closed_itemPieces (items : List Source) (ps : List (List UInt8)) :
    Closed (itemPieces items ++ ps) := by
  intro p hp
  cases items <;>
    cases hp <;>
    exact ⟨_, by decide, rfl⟩

theorem closed_memberPieces (members : List (StringLiteral × Source))
    (ps : List (List UInt8)) : Closed (memberPieces members ++ ps) := by
  intro p hp
  cases members <;>
    cases hp <;>
    exact ⟨_, by decide, rfl⟩

theorem Spread.endsNumber (h : Spread ps t) (hps : Closed ps) : EndsNumber t := by
  cases h with
  | nil =>
      intro b hb
      cases hb
  | pad hc h =>
      exact endsNumber_cons _ (List.mem_append_left _ hc)
  | cons h =>
      rcases hps _ rfl with ⟨c, hc, rfl⟩
      exact endsNumber_cons _ (List.mem_append_right _ hc)

theorem Spread.lex_number {n : NumberLiteral} (h : Spread (n.text :: ps) t) (hps : Closed ps) :
    ∃ t', Spread ps t' ∧ lex t = .atom n.scan :: lex t' := by
  rcases h.lex_piece with ⟨t', ht', hlex⟩
  refine ⟨t', ht', ?_⟩
  rw [hlex]
  rcases n.grammatical.cons with ⟨b, s, htext, hb⟩
  have hscan := (scanNumber_numberText n.grammatical).2 t' (ht'.endsNumber hps)
  rw [htext, List.cons_append] at hscan ⊢
  rw [lex_of_scanNumber hb hscan]
  · rw [← htext]
    rfl
  · rw [← htext]
    exact n.passing_scan

/-!
# Reading the pieces

The tokens of the pieces of a source make up its value, and the text behind them is left over.
-/

mutual

theorem lex_pieces (d : Source) {ps : List (List UInt8)} {t : List UInt8}
    (h : Spread (d.pieces ++ ps) t) (hps : Closed ps) :
    ∃ ts t', Phrase d.value ts ∧ Spread ps t' ∧ lex t = ts ++ lex t' := by
  cases d with
  | null =>
      rcases h.lex_name (by decide) rfl (by decide) with ⟨t', ht', hlex⟩
      exact ⟨_, t', .scalar rfl, ht', hlex⟩
  | flag b =>
      cases b with
      | true =>
          rcases h.lex_name (by decide) rfl (by decide) with ⟨t', ht', hlex⟩
          exact ⟨_, t', .scalar rfl, ht', hlex⟩
      | false =>
          rcases h.lex_name (by decide) rfl (by decide) with ⟨t', ht', hlex⟩
          exact ⟨_, t', .scalar rfl, ht', hlex⟩
  | number n =>
      rcases h.lex_number hps with ⟨t', ht', hlex⟩
      exact ⟨_, t', .scalar n.passing_scan, ht', hlex⟩
  | text s =>
      rcases h.lex_string with ⟨t', ht', hlex⟩
      exact ⟨_, t', @Phrase.text s.scan rfl, ht', hlex⟩
  | array items =>
      cases items with
      | nil =>
          rcases h.lex_mark rfl with ⟨t₁, h₁, hopen⟩
          rcases h₁.lex_mark rfl with ⟨t₂, h₂, hclose⟩
          refine ⟨_, t₂, .emptyArray, h₂, ?_⟩
          rw [hopen, hclose]
          rfl
      | cons d items =>
          rw [pieces, List.cons_append, List.append_assoc] at h
          rcases h.lex_mark rfl with ⟨t₁, h₁, hopen⟩
          rcases lex_pieces d h₁ (closed_itemPieces items ps) with ⟨ts, t₂, hd, h₂, hfirst⟩
          rcases lex_itemPieces items h₂ with ⟨us, t₃, hds, h₃, hrest⟩
          refine ⟨_, t₃, .array hd hds, h₃, ?_⟩
          rw [hopen, hfirst, hrest, ← List.append_assoc, List.cons_append]
  | object members =>
      cases members with
      | nil =>
          rcases h.lex_mark rfl with ⟨t₁, h₁, hopen⟩
          rcases h₁.lex_mark rfl with ⟨t₂, h₂, hclose⟩
          refine ⟨_, t₂, .emptyObject, h₂, ?_⟩
          rw [hopen, hclose]
          rfl
      | cons member members =>
          rcases member with ⟨key, d⟩
          rw [pieces, List.cons_append, List.cons_append, List.cons_append,
            List.append_assoc] at h
          rcases h.lex_mark rfl with ⟨t₁, h₁, hopen⟩
          rcases h₁.lex_string with ⟨t₂, h₂, hkey⟩
          rcases h₂.lex_mark rfl with ⟨t₃, h₃, hcolon⟩
          rcases lex_pieces d h₃ (closed_memberPieces members ps) with ⟨ts, t₄, hd, h₄, hfirst⟩
          rcases lex_memberPieces members h₄ with ⟨us, t₅, hms, h₅, hrest⟩
          refine ⟨_, t₅, @Phrase.object key.scan _ _ _ _ rfl hd hms, h₅, ?_⟩
          rw [hopen, hkey, hcolon, hfirst, hrest, ← List.append_assoc]
          rfl

theorem lex_itemPieces (ds : List Source) {ps : List (List UInt8)} {t : List UInt8}
    (h : Spread (itemPieces ds ++ ps) t) :
    ∃ us t', ItemPhrases (itemValues ds) us ∧ Spread ps t' ∧ lex t = us ++ lex t' := by
  cases ds with
  | nil =>
      rcases h.lex_mark rfl with ⟨t', ht', hlex⟩
      exact ⟨_, t', .close, ht', hlex⟩
  | cons d ds =>
      rw [itemPieces, List.cons_append, List.append_assoc] at h
      rcases h.lex_mark rfl with ⟨t₁, h₁, hcomma⟩
      rcases lex_pieces d h₁ (closed_itemPieces ds ps) with ⟨ts, t₂, hd, h₂, hitem⟩
      rcases lex_itemPieces ds h₂ with ⟨us, t₃, hds, h₃, hrest⟩
      refine ⟨_, t₃, .next hd hds, h₃, ?_⟩
      rw [hcomma, hitem, hrest, ← List.append_assoc, List.cons_append]

theorem lex_memberPieces (ms : List (StringLiteral × Source)) {ps : List (List UInt8)}
    {t : List UInt8} (h : Spread (memberPieces ms ++ ps) t) :
    ∃ us t', MemberPhrases (memberValues ms) us ∧ Spread ps t' ∧ lex t = us ++ lex t' := by
  cases ms with
  | nil =>
      rcases h.lex_mark rfl with ⟨t', ht', hlex⟩
      exact ⟨_, t', .close, ht', hlex⟩
  | cons m ms =>
      rcases m with ⟨key, d⟩
      rw [memberPieces, List.cons_append, List.cons_append, List.cons_append,
        List.append_assoc] at h
      rcases h.lex_mark rfl with ⟨t₁, h₁, hcomma⟩
      rcases h₁.lex_string with ⟨t₂, h₂, hkey⟩
      rcases h₂.lex_mark rfl with ⟨t₃, h₃, hcolon⟩
      rcases lex_pieces d h₃ (closed_memberPieces ms ps) with ⟨ts, t₄, hd, h₄, hmember⟩
      rcases lex_memberPieces ms h₄ with ⟨us, t₅, hms, h₅, hrest⟩
      refine ⟨_, t₅, @MemberPhrases.next key.scan _ _ _ _ rfl hd hms, h₅, ?_⟩
      rw [hcomma, hkey, hcolon, hmember, hrest, ← List.append_assoc]
      rfl

end

theorem ofText_pieces {d : Source} {t : List UInt8} (h : Spread d.pieces t) :
    Document.ofText t = ⟨d.value, none⟩ := by
  rw [← List.append_nil d.pieces] at h
  rcases lex_pieces d h closed_nil with ⟨ts, t', hphrase, ht', hlex⟩
  unfold Document.ofText
  rw [hlex, ht'.lex_nil, List.append_nil]
  exact run_document hphrase

/-!
# Data as sources

A datum as it is printed is the text of a source.
-/

def quoted (s : String) : StringLiteral :=
  ⟨encode (s.toList.flatMap escapedChar), .of_body (body_escaped s.toList)⟩

theorem denotes_quoted (s : String) : (quoted s).Denotes s :=
  ⟨_, body_escaped s.toList, rfl⟩

def natural (n : UInt64) : NumberLiteral :=
  ⟨encode (Nat.toDigits 10 n.toNat), .of_digits (digits_toDigits n.toNat)⟩

mutual

def ofDatum : Datum → Source
  | .null => null
  | .flag b => flag b
  | .natural n => number (natural n)
  | .text s => text (quoted s)
  | .array items => array (ofItems items)
  | .object members => object (ofMembers members)

def ofItems : List Datum → List Source
  | [] => []
  | d :: items => ofDatum d :: ofItems items

def ofMembers : List (String × Datum) → List (StringLiteral × Source)
  | [] => []
  | (key, d) :: members => (quoted key, ofDatum d) :: ofMembers members

end

theorem text_quoted (s : String) : (quoted s).text = encode (quote s) := by
  rw [quote, encode_append]
  rfl

mutual

theorem flatten_pieces_ofDatum (d : Datum) : (ofDatum d).pieces.flatten = encode d.print := by
  cases d with
  | null =>
      rfl
  | flag b =>
      cases b <;>
        rfl
  | natural n =>
      exact List.append_nil _
  | text s =>
      rw [ofDatum, pieces, List.flatten_singleton, text_quoted, Datum.print]
  | array items =>
      cases items with
      | nil =>
          rfl
      | cons d items =>
          rw [ofDatum, ofItems, pieces, List.flatten_cons, List.flatten_append,
            flatten_pieces_ofDatum, flatten_itemPieces_ofItems, ← encode_append]
          rfl
  | object members =>
      cases members with
      | nil =>
          rfl
      | cons member members =>
          rcases member with ⟨key, d⟩
          rw [ofDatum, ofMembers, pieces, List.flatten_cons, List.flatten_cons,
            List.flatten_cons, List.flatten_append, flatten_pieces_ofDatum,
            flatten_memberPieces_ofMembers, text_quoted, Datum.print, encode_cons, encode_append,
            encode_cons, encode_append]
          rfl

theorem flatten_itemPieces_ofItems (items : List Datum) :
    (itemPieces (ofItems items)).flatten = encode (Datum.printItems items) := by
  cases items with
  | nil =>
      rfl
  | cons d items =>
      rw [ofItems, itemPieces, List.flatten_cons, List.flatten_append, flatten_pieces_ofDatum,
        flatten_itemPieces_ofItems, ← encode_append]
      rfl

theorem flatten_memberPieces_ofMembers (members : List (String × Datum)) :
    (memberPieces (ofMembers members)).flatten = encode (Datum.printMembers members) := by
  cases members with
  | nil =>
      rfl
  | cons member members =>
      rcases member with ⟨key, d⟩
      rw [ofMembers, memberPieces, List.flatten_cons, List.flatten_cons, List.flatten_cons,
        List.flatten_append, flatten_pieces_ofDatum, flatten_memberPieces_ofMembers,
        text_quoted, Datum.printMembers, encode_cons, encode_append, encode_cons, encode_append]
      rfl

end

/-- What is printed of a datum is a text of its source. -/
theorem spread_print (d : Datum) : Spread (ofDatum d).pieces (encode d.print) := by
  rw [← flatten_pieces_ofDatum]
  exact Spread.flatten _

end Source
end Json
end HeaderBinding
