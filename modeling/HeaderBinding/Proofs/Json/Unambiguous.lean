import HeaderBinding.Proofs.Json.Source

/-!
# A text has one source

The first byte behind the padding tells what kind of value comes next, and where a literal ends
does not depend on how it is read. So a text that spreads out the pieces of two sources spreads
out those of one.
-/

namespace HeaderBinding
namespace Json

open Except (ok error)

/-!
# Kinds of values
-/

inductive Kind where
  | null
  | flag (value : Bool)
  | number
  | text
  | array
  | object
  deriving DecidableEq

/-- The kind of the value that starts with a byte. -/
def Kind.ofByte? (b : UInt8) : Option Kind :=
  match Char.ofUInt8 b with
  | 'n' => some null
  | 't' => some (flag true)
  | 'f' => some (flag false)
  | '"' => some text
  | '[' => some array
  | '\x7b' => some object
  | '-' => some number
  | _ => if isDigit b then some number else none

theorem Kind.not_padding {b : UInt8} {k : Kind} (h : ofByte? b = some k) :
    isPadding (Char.ofUInt8 b) = false := by
  unfold ofByte? at h
  split at h
  case h_8 =>
    split at h
    next hdigit =>
      exact (plain_of_isDigit (isDigit_ofUInt8 hdigit)).1
    next =>
      cases h
  all_goals
    next hb =>
      rw [hb]
      decide

theorem Kind.ofByte?_number {b : UInt8} (h : Char.ofUInt8 b = '-' ∨ isDigit b = true) :
    ofByte? b = some number := by
  unfold ofByte?
  rcases h with hminus | hdigit
  · rw [hminus]
    rfl
  · have hne : ∀ c ∈ ['n', 't', 'f', '"', '[', '\x7b', '-'], Char.ofUInt8 b ≠ c := by
      intro c hc
      have hfar : ['n', 't', 'f', '"', '[', '\x7b', '-'].all
          (fun c => c.toNat < 48 ∨ 57 < c.toNat) = true := by
        decide
      have hchar := of_decide_eq_true (List.all_eq_true.mp hfar c hc)
      exact Numeral.char_ne_of_digit hdigit hchar
    split
    case h_8 =>
      exact if_pos hdigit
    all_goals
      next hb =>
        exact absurd hb (hne _ (by decide))

namespace Source

def kind : Source → Kind
  | null => .null
  | flag b => .flag b
  | number _ => .number
  | text _ => .text
  | array _ => .array
  | object _ => .object

/-- The first piece of a source tells its kind. -/
theorem exists_first (d : Source) :
    ∃ b p ps, d.pieces = (b :: p) :: ps ∧ Kind.ofByte? b = some d.kind := by
  cases d with
  | null =>
      exact ⟨_, _, [], rfl, by decide⟩
  | flag b =>
      cases b with
      | true =>
          exact ⟨_, _, [], rfl, rfl⟩
      | false =>
          exact ⟨_, _, [], rfl, rfl⟩
  | number n =>
      rcases n.grammatical.cons with ⟨b, s, htext, hb⟩
      exact ⟨b, s, [], congrArg (fun text => [text]) htext, Kind.ofByte?_number hb⟩
  | text s =>
      exact ⟨_, _, [], rfl, rfl⟩
  | array items =>
      cases items with
      | nil =>
          exact ⟨_, [], _, rfl, rfl⟩
      | cons d items =>
          exact ⟨_, [], _, rfl, rfl⟩
  | object members =>
      cases members with
      | nil =>
          exact ⟨_, [], _, rfl, rfl⟩
      | cons member members =>
          exact ⟨_, [], _, rfl, rfl⟩

/-!
# First pieces
-/

variable {b c : UInt8} {p q : List UInt8} {ps qs : List (List UInt8)} {t : List UInt8}

def dropPadding (t : List UInt8) : List UInt8 :=
  t.dropWhile fun b => isPadding (Char.ofUInt8 b)

theorem Spread.exists_rest (h : Spread ((b :: p) :: ps) t)
    (hb : isPadding (Char.ofUInt8 b) = false) :
    ∃ t', Spread ps t' ∧ dropPadding t = b :: p ++ t' := by
  generalize hq : (b :: p) :: ps = qs at h
  induction h with
  | nil =>
      cases hq
  | @pad c qs t hc h ih =>
      rcases ih hq with ⟨t', ht', hdrop⟩
      have hascii : c.toNat < 0x80 := ascii_of_mem_enders (List.mem_append_left _ hc)
      have hpaddings : paddings.all isPadding = true := by
        decide
      have hpadding : isPadding (Char.ofUInt8 (UInt8.ofNat c.toNat)) = true := by
        rw [ofUInt8_of_ascii hascii, List.all_eq_true.mp hpaddings c hc]
      refine ⟨t', ht', Eq.trans ?_ hdrop⟩
      exact List.dropWhile_cons_of_pos (by exact hpadding)
  | cons h ih =>
      cases hq
      refine ⟨_, h, List.dropWhile_cons_of_neg ?_⟩
      rw [hb]
      exact Bool.false_ne_true

theorem Spread.first_eq (h : Spread ((b :: p) :: ps) t) (h' : Spread ((c :: q) :: qs) t)
    (hb : isPadding (Char.ofUInt8 b) = false) (hc : isPadding (Char.ofUInt8 c) = false) :
    b = c := by
  rcases h.exists_rest hb with ⟨rest, _, hdrop⟩
  rcases h'.exists_rest hc with ⟨rest', _, hdrop'⟩
  exact (List.cons.inj (hdrop.symm.trans hdrop')).1

theorem Spread.same_piece (h : Spread ((b :: p) :: ps) t) (h' : Spread ((b :: p) :: qs) t)
    (hb : isPadding (Char.ofUInt8 b) = false) : ∃ t', Spread ps t' ∧ Spread qs t' := by
  rcases h.exists_rest hb with ⟨rest, hrest, hdrop⟩
  rcases h'.exists_rest hb with ⟨rest', hrest', hdrop'⟩
  have hsame : rest = rest' := List.append_cancel_left (hdrop.symm.trans hdrop')
  rw [← hsame] at hrest'
  exact ⟨rest, hrest, hrest'⟩

theorem Spread.same_string {s s' : StringLiteral} (h : Spread (s.text :: ps) t)
    (h' : Spread (s'.text :: qs) t) : s = s' ∧ ∃ t', Spread ps t' ∧ Spread qs t' := by
  rcases s with ⟨body, hbody⟩
  rcases s' with ⟨body', hbody'⟩
  rcases h.exists_rest (by decide) with ⟨rest, hrest, hdrop⟩
  rcases h'.exists_rest (by decide) with ⟨rest', hrest', hdrop'⟩
  have htext : body ++ quoteByte :: rest = body' ++ quoteByte :: rest' := by
    have hquoted : (body ++ [quoteByte]) ++ rest = (body' ++ [quoteByte]) ++ rest' :=
      (List.cons.inj (hdrop.symm.trans hdrop')).2
    rwa [List.append_assoc, List.append_assoc] at hquoted
  have hend : rest = rest' := by
    have hpass := passText_stringBody rest hbody
    rw [htext, passText_stringBody rest' hbody'] at hpass
    exact (Except.ok.inj hpass).symm
  subst hend
  have hsame : body = body' := List.append_cancel_right htext
  subst hsame
  exact ⟨rfl, rest, hrest, hrest'⟩

theorem Spread.same_number {n n' : NumberLiteral} (h : Spread (n.text :: ps) t)
    (h' : Spread (n'.text :: qs) t) (hps : Closed ps) (hqs : Closed qs) :
    n = n' ∧ ∃ t', Spread ps t' ∧ Spread qs t' := by
  rcases n with ⟨text, htext⟩
  rcases n' with ⟨text', htext'⟩
  rcases htext.cons with ⟨b, s, rfl, hb⟩
  rcases htext'.cons with ⟨b', s', rfl, hb'⟩
  rcases h.exists_rest (Kind.not_padding (Kind.ofByte?_number hb)) with ⟨rest, hrest, hdrop⟩
  rcases h'.exists_rest (Kind.not_padding (Kind.ofByte?_number hb')) with
    ⟨rest', hrest', hdrop'⟩
  have htexts := hdrop.symm.trans hdrop'
  have hend : rest = rest' := by
    have hscan := (scanNumber_numberText htext).2 rest (hrest.endsNumber hps)
    rw [htexts, (scanNumber_numberText htext').2 rest' (hrest'.endsNumber hqs)] at hscan
    exact (congrArg Prod.snd hscan).symm
  subst hend
  have hsame := List.append_cancel_right htexts
  refine ⟨?_, rest, hrest, hrest'⟩
  simp only [hsame]

theorem kind_eq {d e : Source} (hd : Spread (d.pieces ++ ps) t)
    (he : Spread (e.pieces ++ qs) t) : d.kind = e.kind := by
  rcases d.exists_first with ⟨b, p, ps', hpieces, hb⟩
  rcases e.exists_first with ⟨c, q, qs', hpieces', hc⟩
  rw [hpieces, List.cons_append] at hd
  rw [hpieces', List.cons_append] at he
  have hfirst := hd.first_eq he (Kind.not_padding hb) (Kind.not_padding hc)
  rw [hfirst, hc] at hb
  exact (Option.some.inj hb).symm

/-- The entries of two arrays of one text, with a comma in the place of the bracket. -/
theorem Spread.same_items {ds es : List Source} (hd : Spread ((array ds).pieces ++ ps) t)
    (he : Spread ((array es).pieces ++ qs) t) :
    ∃ t', Spread (itemPieces ds ++ ps) t' ∧ Spread (itemPieces es ++ qs) t' := by
  have hnot : ∀ (d : Source) (ds : List Source) {ps qs : List (List UInt8)} {t : List UInt8},
      Spread (d.pieces ++ itemPieces ds ++ ps) t → ¬Spread (mark ']' :: qs) t := by
    intro d ds ps qs t hd h
    rcases d.exists_first with ⟨b, p, ps', hpieces, hb⟩
    rw [hpieces, List.cons_append, List.cons_append] at hd
    have hfirst := hd.first_eq h (Kind.not_padding hb) (by decide)
    have hnone : Kind.ofByte? (UInt8.ofNat ']'.toNat) = none := by
      decide
    rw [hfirst, hnone] at hb
    cases hb
  cases ds with
  | nil =>
      cases es with
      | nil =>
          exact hd.same_piece he (by decide)
      | cons e es =>
          rcases hd.same_piece he (by decide) with ⟨t', hd', he'⟩
          exact absurd hd' (hnot e es he')
  | cons d ds =>
      cases es with
      | nil =>
          rcases hd.same_piece he (by decide) with ⟨t', hd', he'⟩
          exact absurd he' (hnot d ds hd')
      | cons e es =>
          rcases hd.same_piece he (by decide) with ⟨t', hd', he'⟩
          exact ⟨mark ',' ++ t', .cons hd', .cons he'⟩

theorem Spread.same_members {ms ns : List (StringLiteral × Source)}
    (hm : Spread ((object ms).pieces ++ ps) t) (hn : Spread ((object ns).pieces ++ qs) t) :
    ∃ t', Spread (memberPieces ms ++ ps) t' ∧ Spread (memberPieces ns ++ qs) t' := by
  cases ms with
  | nil =>
      cases ns with
      | nil =>
          exact hm.same_piece hn (by decide)
      | cons n ns =>
          rcases hm.same_piece hn (by decide) with ⟨t', hm', hn'⟩
          exact absurd (hm'.first_eq hn' (by decide) (by decide)) (by decide)
  | cons m ms =>
      cases ns with
      | nil =>
          rcases hm.same_piece hn (by decide) with ⟨t', hm', hn'⟩
          exact absurd (hm'.first_eq hn' (by decide) (by decide)) (by decide)
      | cons n ns =>
          rcases hm.same_piece hn (by decide) with ⟨t', hm', hn'⟩
          exact ⟨mark ',' ++ t', .cons hm', .cons hn'⟩

/-!
# Sources of a text
-/

mutual

theorem eq_of_pieces (d e : Source) {ps qs : List (List UInt8)} {t : List UInt8}
    (hd : Spread (d.pieces ++ ps) t) (he : Spread (e.pieces ++ qs) t) (hps : Closed ps)
    (hqs : Closed qs) : d = e ∧ ∃ t', Spread ps t' ∧ Spread qs t' := by
  have hkind := kind_eq hd he
  cases d with
  | null =>
      cases e with
      | null =>
          exact ⟨rfl, hd.same_piece he (by decide)⟩
      | _ =>
          cases hkind
  | flag b =>
      cases e with
      | flag b' =>
          cases hkind
          cases b <;>
            exact ⟨rfl, hd.same_piece he (by decide)⟩
      | _ =>
          cases hkind
  | number n =>
      cases e with
      | number n' =>
          rcases hd.same_number he hps hqs with ⟨rfl, hrest⟩
          exact ⟨rfl, hrest⟩
      | _ =>
          cases hkind
  | text s =>
      cases e with
      | text s' =>
          rcases hd.same_string he with ⟨rfl, hrest⟩
          exact ⟨rfl, hrest⟩
      | _ =>
          cases hkind
  | array ds =>
      cases e with
      | array es =>
          rcases hd.same_items he with ⟨t', hd', he'⟩
          rcases eq_of_itemPieces ds es hd' he' with ⟨rfl, hrest⟩
          exact ⟨rfl, hrest⟩
      | _ =>
          cases hkind
  | object ms =>
      cases e with
      | object ns =>
          rcases hd.same_members he with ⟨t', hm, hn⟩
          rcases eq_of_memberPieces ms ns hm hn with ⟨rfl, hrest⟩
          exact ⟨rfl, hrest⟩
      | _ =>
          cases hkind

theorem eq_of_itemPieces (ds es : List Source) {ps qs : List (List UInt8)} {t : List UInt8}
    (hd : Spread (itemPieces ds ++ ps) t) (he : Spread (itemPieces es ++ qs) t) :
    ds = es ∧ ∃ t', Spread ps t' ∧ Spread qs t' := by
  cases ds with
  | nil =>
      cases es with
      | nil =>
          exact ⟨rfl, hd.same_piece he (by decide)⟩
      | cons e es =>
          exact absurd (hd.first_eq he (by decide) (by decide)) (by decide)
  | cons d ds =>
      cases es with
      | nil =>
          exact absurd (hd.first_eq he (by decide) (by decide)) (by decide)
      | cons e es =>
          rw [itemPieces, List.cons_append, List.append_assoc] at hd he
          rcases hd.same_piece he (by decide) with ⟨t₁, hd₁, he₁⟩
          rcases eq_of_pieces d e hd₁ he₁ (closed_itemPieces ds ps) (closed_itemPieces es qs) with
            ⟨rfl, t₂, hd₂, he₂⟩
          rcases eq_of_itemPieces ds es hd₂ he₂ with ⟨rfl, hrest⟩
          exact ⟨rfl, hrest⟩

theorem eq_of_memberPieces (ms ns : List (StringLiteral × Source)) {ps qs : List (List UInt8)}
    {t : List UInt8} (hm : Spread (memberPieces ms ++ ps) t)
    (hn : Spread (memberPieces ns ++ qs) t) :
    ms = ns ∧ ∃ t', Spread ps t' ∧ Spread qs t' := by
  cases ms with
  | nil =>
      cases ns with
      | nil =>
          exact ⟨rfl, hm.same_piece hn (by decide)⟩
      | cons n ns =>
          exact absurd (hm.first_eq hn (by decide) (by decide)) (by decide)
  | cons m ms =>
      cases ns with
      | nil =>
          exact absurd (hm.first_eq hn (by decide) (by decide)) (by decide)
      | cons n ns =>
          rcases m with ⟨key, d⟩
          rcases n with ⟨key', e⟩
          rw [memberPieces, List.cons_append, List.cons_append, List.cons_append,
            List.append_assoc] at hm hn
          rcases hm.same_piece hn (by decide) with ⟨t₁, hm₁, hn₁⟩
          rcases hm₁.same_string hn₁ with ⟨rfl, t₂, hm₂, hn₂⟩
          rcases hm₂.same_piece hn₂ (by decide) with ⟨t₃, hm₃, hn₃⟩
          rcases eq_of_pieces d e hm₃ hn₃ (closed_memberPieces ms ps)
            (closed_memberPieces ns qs) with ⟨rfl, t₄, hm₄, hn₄⟩
          rcases eq_of_memberPieces ms ns hm₄ hn₄ with ⟨rfl, hrest⟩
          exact ⟨rfl, hrest⟩

end

/-- A text is the text of one source only. -/
theorem eq_of_spread {d e : Source} {t : List UInt8} (hd : Spread d.pieces t)
    (he : Spread e.pieces t) : d = e := by
  rw [← List.append_nil d.pieces] at hd
  rw [← List.append_nil e.pieces] at he
  exact (eq_of_pieces d e hd he closed_nil closed_nil).1

end Source
end Json
end HeaderBinding
