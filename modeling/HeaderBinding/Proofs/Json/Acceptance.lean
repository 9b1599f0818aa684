import HeaderBinding.Proofs.Json.Faultless
import HeaderBinding.Proofs.Json.Grammatical
import HeaderBinding.Proofs.Json.Source
import Mathlib.Data.List.Forall2

/-!
# Texts that are passed over

The texts that a reader can pass over are exactly those of sources. A text is split into the
pieces of its tokens first. The tokens make up a phrase, and along the phrase the pieces are put
together again.
-/

namespace HeaderBinding
namespace Json

open Source

/-!
# Pieces of tokens
-/

/-- Whether a text may go on behind a token. -/
def Token.Whole : Token → Prop
  | .text scan => scan.passing = none
  | .atom scan => scan.passing = none
  | .stray => False
  | _ => True

/-- The texts that are read as a token. -/
inductive Piece : Token → List UInt8 → Prop where
  | mark {c : Char} {token : Token} (h : punctuation? c = some token) :
      Piece token (Source.mark c)
  | string (s : StringLiteral) : Piece (.text s.scan) s.text
  | number (n : NumberLiteral) : Piece (.atom n.scan) n.text
  | name {c : Char} {name : List Char} {atom : Atom} (h : name? c = some (name, atom)) :
      Piece (.atom (.whole atom)) (encode (c :: name))

theorem mem_paddings {c : Char} (h : isPadding c = true) : c ∈ paddings := by
  simp only [isPadding, Bool.or_eq_true, beq_iff_eq] at h
  simp only [paddings, List.mem_cons, List.not_mem_nil, or_false]
  rcases h with ((h | h) | h) | h
  · exact .inl h
  · exact .inr (.inl h)
  · exact .inr (.inr (.inl h))
  · exact .inr (.inr (.inr h))

theorem ascii_of_name? {c : Char} {name : List Char} {atom : Atom}
    (h : name? c = some (name, atom)) : ∀ d ∈ c :: name, d.toNat < 0x80 := by
  have hall : (c :: name).all (fun d => d.toNat < 0x80) = true := by
    unfold name? at h
    split at h
    case h_4 =>
      cases h
    all_goals
      cases h
      decide
  intro d hd
  exact of_decide_eq_true (List.all_eq_true.mp hall d hd)

theorem lex_stray {b : UInt8} {c : Char} (s : List UInt8) (hc : c ∈ ['.', 'e', 'E'])
    (hb : Char.ofUInt8 b = c) : lex (b :: s) = [.stray] := by
  simp only [List.mem_cons, List.not_mem_nil, or_false] at hc
  rw [lex]
  rcases hc with rfl | rfl | rfl
  all_goals
    have hdigit := Numeral.not_digit_of_char hb (by decide)
    simp [hb, hdigit, isPadding, punctuation?, name?]

/-- What could have gone on with a number is no token of its own. -/
theorem endsNumber_of_whole {s : List UInt8} (hs : ∀ b ∈ s.head?, isDigit b = false)
    (h : ∀ token ∈ lex s, token.Whole) : EndsNumber s := by
  intro b hb
  cases s with
  | nil =>
      cases hb
  | cons _ s =>
      cases hb
      have hne : ∀ c ∈ ['.', 'e', 'E'], Char.ofUInt8 b ≠ c := by
        intro c hc heq
        rw [lex_stray s hc heq] at h
        exact h .stray List.mem_cons_self
      exact ⟨hs b rfl, hne '.' (by decide), hne 'e' (by decide), hne 'E' (by decide)⟩

theorem exists_numberLiteral {s : List UInt8} (hpassing : (scanNumber s).1.passing = none)
    (hrest : ∀ token ∈ lex (scanNumber s).2, token.Whole) :
    ∃ n : NumberLiteral, s = n.text ++ (scanNumber s).2 ∧ (scanNumber s).1 = n.scan := by
  cases hscan : Numeral.scan s with
  | error atEnd =>
      simp only [scanNumber, hscan] at hpassing
      cases hpassing
  | ok found =>
      rcases found with ⟨m, rest⟩
      have hnumber : scanNumber s = (⟨m.content, none⟩, rest) := by
        unfold scanNumber
        rw [hscan]
      rcases Numeral.exists_numberText hscan with ⟨text, htext, hs, hhead⟩
      rw [hnumber] at hrest
      have hends : EndsNumber rest := endsNumber_of_whole hhead hrest
      refine ⟨⟨text, htext⟩, ?_, ?_⟩
      · rw [hnumber]
        exact hs
      · rw [hs, (scanNumber_numberText htext).2 rest hends]
        rfl

/-- A text that is read to its end is spread out of the pieces of its tokens. -/
theorem exists_spread (t : List UInt8) (h : ∀ token ∈ lex t, token.Whole) :
    ∃ ps, List.Forall₂ Piece (lex t) ps ∧ Spread ps t := by
  fun_induction lex t with
  | case1 =>
      exact ⟨[], .nil, .nil⟩
  | case2 b rest c hpadding ih =>
      rcases ih h with ⟨ps, hps, hspread⟩
      refine ⟨ps, hps, ?_⟩
      rw [eq_of_ofUInt8 (b := b) rfl]
      exact .pad (mem_paddings hpadding) hspread
  | case3 b rest c hpadding token htoken ih =>
      rcases ih (List.forall_mem_cons.mp h).2 with ⟨ps, hps, hspread⟩
      refine ⟨mark c :: ps, .cons (.mark htoken) hps, ?_⟩
      rw [eq_of_ofUInt8 (b := b) rfl]
      exact .cons hspread
  | case4 b rest c hpadding htoken hquote fault hfault =>
      exact absurd (h _ List.mem_cons_self) (Option.some_ne_none fault)
  | case5 b rest c hpadding htoken hquote rest' hrest ih =>
      rcases ih (List.forall_mem_cons.mp h).2 with ⟨ps, hps, hspread⟩
      rcases exists_stringBody hrest with ⟨body, hbody, hs⟩
      let s : StringLiteral := ⟨body, hbody⟩
      have hscan : (⟨readText rest, none⟩ : Scan String) = s.scan := by
        rw [hs, readText_stringBody rest' hbody]
        rfl
      have htext : b :: rest = s.text ++ rest' := by
        rw [eq_of_ofUInt8 hquote, hs, StringLiteral.text, List.cons_append, List.append_assoc]
        rfl
      rw [hscan, htext]
      exact ⟨s.text :: ps, .cons (.string s) hps, .cons hspread⟩
  | case6 b rest c hpadding htoken hquote hfirst number fault hfault =>
      have hpassing : number.1.passing = none := h _ List.mem_cons_self
      rw [hfault] at hpassing
      cases hpassing
  | case7 b rest c hpadding htoken hquote hfirst number hpassing ih =>
      have hrest := (List.forall_mem_cons.mp h).2
      rcases ih hrest with ⟨ps, hps, hspread⟩
      rcases exists_numberLiteral hpassing hrest with ⟨n, hs, hscan⟩
      have hpiece : Piece (.atom number.1) n.text := by
        rw [show number.1 = n.scan from hscan]
        exact .number n
      rw [hs]
      exact ⟨n.text :: ps, .cons hpiece hps, .cons hspread⟩
  | case8 b rest c =>
      exact absurd (h _ List.mem_cons_self) id
  | case9 b rest c hpadding htoken hquote hfirst name atom hname fault hfault =>
      exact absurd (h _ List.mem_cons_self) (Option.some_ne_none fault)
  | case10 b rest c hpadding htoken hquote hfirst name atom hname rest' hrest ih =>
      rcases ih (List.forall_mem_cons.mp h).2 with ⟨ps, hps, hspread⟩
      rcases List.forall_mem_cons.mp (ascii_of_name? hname) with ⟨hc, hascii⟩
      have htext : b :: rest = encode (c :: name) ++ rest' := by
        rw [encode_cons_of_ascii name hc, List.cons_append, ← eq_of_restOfName hrest hascii,
          ← eq_of_ofUInt8 (b := b) rfl]
      rw [htext]
      exact ⟨encode (c :: name) :: ps, .cons (.name hname) hps, .cons hspread⟩

/-!
# The text of a piece
-/

theorem punctuation?_injective {c c' : Char} {token : Token} (h : punctuation? c = some token)
    (h' : punctuation? c' = some token) : c = c' := by
  unfold punctuation? at h
  split at h <;>
    cases h
  all_goals
    unfold punctuation? at h'
    split at h' <;>
      cases h'
    rfl

theorem punctuation?_ne_text (c : Char) (scan : Scan String) :
    punctuation? c ≠ some (.text scan) := by
  intro h
  unfold punctuation? at h
  split at h <;>
    cases h

theorem punctuation?_ne_atom (c : Char) (scan : Scan Atom) :
    punctuation? c ≠ some (.atom scan) := by
  intro h
  unfold punctuation? at h
  split at h <;>
    cases h

theorem Piece.eq_mark {c : Char} {token : Token} {p : List UInt8} (h : Piece token p)
    (hc : punctuation? c = some token) : p = Source.mark c := by
  cases h with
  | mark hc' =>
      rw [punctuation?_injective hc hc']
  | string s =>
      exact absurd hc (punctuation?_ne_text c s.scan)
  | number n =>
      exact absurd hc (punctuation?_ne_atom c n.scan)
  | @name _ _ atom hname =>
      exact absurd hc (punctuation?_ne_atom c (.whole atom))

theorem Piece.exists_string {scan : Scan String} {p : List UInt8} (h : Piece (.text scan) p) :
    ∃ s : StringLiteral, s.scan = scan ∧ s.text = p := by
  generalize htoken : Token.text scan = token at h
  cases h with
  | mark hc =>
      rw [← htoken] at hc
      exact absurd hc (punctuation?_ne_text _ scan)
  | string s =>
      exact ⟨s, (Token.text.inj htoken).symm, rfl⟩
  | _ =>
      cases htoken

theorem Piece.exists_scalar {scan : Scan Atom} {p : List UInt8} (h : Piece (.atom scan) p) :
    ∃ d : Source, d.value = .atom scan ∧ d.pieces = [p] := by
  generalize htoken : Token.atom scan = token at h
  cases h with
  | mark hc =>
      rw [← htoken] at hc
      exact absurd hc (punctuation?_ne_atom _ scan)
  | string s =>
      cases htoken
  | number n =>
      exact ⟨.number n, congrArg Value.atom (Token.atom.inj htoken).symm, rfl⟩
  | name hname =>
      cases htoken
      unfold name? at hname
      split at hname
      · cases hname
        exact ⟨.null, rfl, rfl⟩
      · cases hname
        exact ⟨.flag true, rfl, rfl⟩
      · cases hname
        exact ⟨.flag false, rfl, rfl⟩
      · cases hname

/-!
# The source of a phrase

The pieces of the tokens of a phrase are those of a source, and the pieces of the tokens behind
it are left over.
-/

section Pieces

variable {rest : List Token} {ps : List (List UInt8)}

theorem forall₂_mark (c : Char) {token : Token} (hc : punctuation? c = some token)
    (h : List.Forall₂ Piece (token :: rest) ps) :
    ∃ ps', List.Forall₂ Piece rest ps' ∧ ps = mark c :: ps' := by
  rcases List.forall₂_cons_left_iff.mp h with ⟨p, ps', hp, hps', rfl⟩
  exact ⟨ps', hps', by rw [hp.eq_mark hc]⟩

theorem forall₂_text {scan : Scan String} (h : List.Forall₂ Piece (.text scan :: rest) ps) :
    ∃ (s : StringLiteral) (ps' : List (List UInt8)), List.Forall₂ Piece rest ps' ∧
      s.scan = scan ∧ ps = s.text :: ps' := by
  rcases List.forall₂_cons_left_iff.mp h with ⟨p, ps', hp, hps', rfl⟩
  rcases hp.exists_string with ⟨s, hs, rfl⟩
  exact ⟨s, ps', hps', hs, rfl⟩

end Pieces

mutual

theorem exists_source {v : Value} {ts rest : List Token} {ps : List (List UInt8)}
    (hv : Phrase v ts) (h : List.Forall₂ Piece (ts ++ rest) ps) :
    ∃ (d : Source) (ps' : List (List UInt8)), List.Forall₂ Piece rest ps' ∧ d.value = v ∧
      ps = d.pieces ++ ps' := by
  cases hv with
  | scalar =>
      rcases List.forall₂_cons_left_iff.mp h with ⟨p, ps', hp, hps', rfl⟩
      rcases hp.exists_scalar with ⟨d, hd, hpieces⟩
      exact ⟨d, ps', hps', hd, by rw [hpieces]; rfl⟩
  | text =>
      rcases forall₂_text h with ⟨s, ps', hps', rfl, rfl⟩
      exact ⟨.text s, ps', hps', rfl, rfl⟩
  | emptyArray =>
      rcases forall₂_mark '[' rfl h with ⟨ps₁, h₁, rfl⟩
      rcases forall₂_mark ']' rfl h₁ with ⟨ps₂, h₂, rfl⟩
      exact ⟨.array [], ps₂, h₂, rfl, rfl⟩
  | array hv hvs =>
      rw [List.cons_append, List.append_assoc] at h
      rcases forall₂_mark '[' rfl h with ⟨ps₁, h₁, rfl⟩
      rcases exists_source hv h₁ with ⟨d, ps₂, h₂, rfl, rfl⟩
      rcases exists_items hvs h₂ with ⟨ds, ps₃, h₃, rfl, rfl⟩
      refine ⟨.array (d :: ds), ps₃, h₃, rfl, ?_⟩
      rw [pieces, List.cons_append, List.append_assoc]
  | emptyObject =>
      rcases forall₂_mark '\x7b' rfl h with ⟨ps₁, h₁, rfl⟩
      rcases forall₂_mark '\x7d' rfl h₁ with ⟨ps₂, h₂, rfl⟩
      exact ⟨.object [], ps₂, h₂, rfl, rfl⟩
  | object hkey hv hms =>
      simp only [List.cons_append, List.append_assoc] at h
      rcases forall₂_mark '\x7b' rfl h with ⟨ps₁, h₁, rfl⟩
      rcases forall₂_text h₁ with ⟨key, ps₂, h₂, rfl, rfl⟩
      rcases forall₂_mark ':' rfl h₂ with ⟨ps₃, h₃, rfl⟩
      rcases exists_source hv h₃ with ⟨d, ps₄, h₄, rfl, rfl⟩
      rcases exists_members hms h₄ with ⟨ms, ps₅, h₅, rfl, rfl⟩
      refine ⟨.object ((key, d) :: ms), ps₅, h₅, rfl, ?_⟩
      simp only [pieces, List.cons_append, List.append_assoc]

theorem exists_items {vs : List Value} {us rest : List Token} {ps : List (List UInt8)}
    (hvs : ItemPhrases vs us) (h : List.Forall₂ Piece (us ++ rest) ps) :
    ∃ (ds : List Source) (ps' : List (List UInt8)), List.Forall₂ Piece rest ps' ∧
      itemValues ds = vs ∧ ps = itemPieces ds ++ ps' := by
  cases hvs with
  | close =>
      rcases forall₂_mark ']' rfl h with ⟨ps', h', rfl⟩
      exact ⟨[], ps', h', rfl, rfl⟩
  | next hv hvs =>
      rw [List.cons_append, List.append_assoc] at h
      rcases forall₂_mark ',' rfl h with ⟨ps₁, h₁, rfl⟩
      rcases exists_source hv h₁ with ⟨d, ps₂, h₂, rfl, rfl⟩
      rcases exists_items hvs h₂ with ⟨ds, ps₃, h₃, rfl, rfl⟩
      refine ⟨d :: ds, ps₃, h₃, rfl, ?_⟩
      rw [itemPieces, List.cons_append, List.append_assoc]

theorem exists_members {vs : List Member} {us rest : List Token} {ps : List (List UInt8)}
    (hvs : MemberPhrases vs us) (h : List.Forall₂ Piece (us ++ rest) ps) :
    ∃ (ms : List (StringLiteral × Source)) (ps' : List (List UInt8)),
      List.Forall₂ Piece rest ps' ∧ memberValues ms = vs ∧ ps = memberPieces ms ++ ps' := by
  cases hvs with
  | close =>
      rcases forall₂_mark '\x7d' rfl h with ⟨ps', h', rfl⟩
      exact ⟨[], ps', h', rfl, rfl⟩
  | next hkey hv hms =>
      simp only [List.cons_append, List.append_assoc] at h
      rcases forall₂_mark ',' rfl h with ⟨ps₁, h₁, rfl⟩
      rcases forall₂_text h₁ with ⟨key, ps₂, h₂, rfl, rfl⟩
      rcases forall₂_mark ':' rfl h₂ with ⟨ps₃, h₃, rfl⟩
      rcases exists_source hv h₃ with ⟨d, ps₄, h₄, rfl, rfl⟩
      rcases exists_members hms h₄ with ⟨ms, ps₅, h₅, rfl, rfl⟩
      refine ⟨(key, d) :: ms, ps₅, h₅, rfl, ?_⟩
      simp only [memberPieces, List.cons_append, List.append_assoc]

end

/-!
# Tokens of a phrase
-/

mutual

theorem Phrase.whole {v : Value} {ts : List Token} (h : Phrase v ts) :
    ∀ token ∈ ts, token.Whole := by
  cases h with
  | scalar hscan =>
      exact List.forall_mem_singleton.mpr hscan
  | text hscan =>
      exact List.forall_mem_singleton.mpr hscan
  | emptyArray =>
      simp only [List.forall_mem_cons]
      exact ⟨trivial, trivial, List.forall_mem_nil _⟩
  | array hv hvs =>
      simp only [List.forall_mem_cons, List.forall_mem_append]
      exact ⟨trivial, hv.whole, hvs.whole⟩
  | emptyObject =>
      simp only [List.forall_mem_cons]
      exact ⟨trivial, trivial, List.forall_mem_nil _⟩
  | object hkey hv hms =>
      simp only [List.forall_mem_cons, List.forall_mem_append]
      exact ⟨trivial, hkey, trivial, hv.whole, hms.whole⟩

theorem ItemPhrases.whole {vs : List Value} {us : List Token} (h : ItemPhrases vs us) :
    ∀ token ∈ us, token.Whole := by
  cases h with
  | close =>
      exact List.forall_mem_singleton.mpr trivial
  | next hv hvs =>
      simp only [List.forall_mem_cons, List.forall_mem_append]
      exact ⟨trivial, hv.whole, hvs.whole⟩

theorem MemberPhrases.whole {ms : List Member} {us : List Token} (h : MemberPhrases ms us) :
    ∀ token ∈ us, token.Whole := by
  cases h with
  | close =>
      exact List.forall_mem_singleton.mpr trivial
  | next hkey hv hms =>
      simp only [List.forall_mem_cons, List.forall_mem_append]
      exact ⟨trivial, hkey, trivial, hv.whole, hms.whole⟩

end

/-!
# Whole texts
-/

/-- Nothing is wrong with passing over a text exactly if it is the text of a source. -/
theorem Document.ofText_eq_iff {t : List UInt8} {v : Value} :
    Document.ofText t = ⟨v, none⟩ ∧ v.passing = none ↔
      ∃ d : Source, d.value = v ∧ Spread d.pieces t := by
  constructor
  · rintro ⟨h, hv⟩
    have hphrase : Phrase v (lex t) := phrase_of_run h hv
    rcases exists_spread t hphrase.whole with ⟨ps, hps, hspread⟩
    rw [← List.append_nil (lex t)] at hps
    rcases exists_source hphrase hps with ⟨d, ps', hnil, hd, rfl⟩
    rw [List.forall₂_nil_left_iff.mp hnil, List.append_nil] at hspread
    exact ⟨d, hd, hspread⟩
  · rintro ⟨d, rfl, h⟩
    exact ⟨ofText_pieces h, d.passing_value⟩

end Json
end HeaderBinding
