import HeaderBinding.Proofs.Json.Grammatical
import HeaderBinding.Proofs.Json.Unambiguous

/-!
# Trees as they are rendered

What is rendered of a tree is the text of a source, and the tree is read back from the source:
its strings by what they stand for, its numbers as integers of any size.
-/

namespace HeaderBinding
namespace Json

open Except (ok error)

/-!
# Integers
-/

/-- The integer that a numeral without a fraction or an exponent stands for. -/
def Numeral.integer? (m : Numeral) : Option Int :=
  let magnitude : Int := decimalValue m.integer
  if m.isInteger then some (if m.negative then -magnitude else magnitude) else none

def NumberLiteral.integer? (n : NumberLiteral) : Option Int :=
  (Numeral.scan n.text).toOption.bind fun found => found.1.integer?

namespace Numeral

theorem scan_minus_digits {n : Nat} {ds : List Char} (h : Digits n ds) :
    scan (encode ('-' :: ds)) = ok (⟨true, encode ds, none, none⟩, []) := by
  have hinteger := integerPart_digits h endsNumber_nil
  have hminus : Char.ofUInt8 (UInt8.ofNat '-'.toNat) = '-' := by
    decide
  have hsign : sign (encode ('-' :: ds)) = (true, encode ds ++ []) := by
    rw [encode_cons_of_ascii ds (by decide), List.append_nil, sign, if_pos hminus]
  simp only [scan, bind, Except.bind, pure, Except.pure, hsign, hinteger, fractionPart,
    exponentPart]

end Numeral

theorem numberText_minus_digits {n : Nat} {ds : List Char} (h : Digits n ds) :
    NumberText (encode ('-' :: ds)) := by
  rcases Numeral.exists_numberText (Numeral.scan_minus_digits h) with ⟨text, htext, hencode, _⟩
  rw [hencode, List.append_nil]
  exact htext

/-- The literal that is written for an integer. -/
def integerLiteral : Int → NumberLiteral
  | .ofNat n => ⟨encode (Nat.toDigits 10 n), .of_digits (digits_toDigits n)⟩
  | .negSucc n =>
      ⟨encode ('-' :: Nat.toDigits 10 (n + 1)), numberText_minus_digits (digits_toDigits (n + 1))⟩

theorem text_integerLiteral (v : Int) :
    (integerLiteral v).text = encode (toString v).toList := by
  cases v with
  | ofNat n =>
      have h : (toString (Int.ofNat n)).toList = Nat.toDigits 10 n := Nat.toList_repr
      rw [h]
      rfl
  | negSucc n =>
      have h : (toString (Int.negSucc n)).toList = '-' :: Nat.toDigits 10 (n + 1) := by
        change ("-" ++ (n + 1).repr).toList = _
        rw [String.toList_append, Nat.toList_repr]
        rfl
      rw [h]
      rfl

theorem integer?_integerLiteral (v : Int) : (integerLiteral v).integer? = some v := by
  cases v with
  | ofNat n =>
      have hdigits := digits_toDigits n
      have hscan := Numeral.scan_digits hdigits endsNumber_nil
      rw [List.append_nil] at hscan
      unfold NumberLiteral.integer? integerLiteral
      simp only [hscan]
      change some (decimalValue (encode (Nat.toDigits 10 n)) : Int) = _
      rw [decimalValue_of_digits hdigits]
      rfl
  | negSucc n =>
      have hdigits := digits_toDigits (n + 1)
      unfold NumberLiteral.integer? integerLiteral
      simp only [Numeral.scan_minus_digits hdigits]
      change some (-(decimalValue (encode (Nat.toDigits 10 (n + 1))) : Int)) = _
      rw [decimalValue_of_digits hdigits]
      rfl

/-!
# Sources of trees
-/

namespace Tree

mutual

def source : Tree → Source
  | flag b => .flag b
  | integer v => .number (integerLiteral v)
  | text s => .text (Source.quoted s)
  | array items => .array (itemSources items)
  | object members => .object (memberSources members)

def itemSources : List Tree → List Source
  | [] => []
  | item :: items => item.source :: itemSources items

def memberSources : List (String × Tree) → List (StringLiteral × Source)
  | [] => []
  | (key, value) :: members => (Source.quoted key, value.source) :: memberSources members

end

end Tree

namespace Source

mutual

/-- What a source stands for. Nothing stands for a null or a broken literal. -/
def tree? : Source → Option Tree
  | null => none
  | flag b => some (.flag b)
  | number n => n.integer?.map .integer
  | text s => s.scan.content.toOption.map .text
  | array items => (itemTrees? items).map .array
  | object members => (memberTrees? members).map .object

def itemTrees? : List Source → Option (List Tree)
  | [] => some []
  | d :: items => do
      let item ← d.tree?
      let items ← itemTrees? items
      return item :: items

def memberTrees? : List (StringLiteral × Source) → Option (List (String × Tree))
  | [] => some []
  | (key, d) :: members => do
      let key ← key.scan.content.toOption
      let value ← d.tree?
      let members ← memberTrees? members
      return (key, value) :: members

end

end Source

namespace Tree

open Source

theorem content_quoted (s : String) : (quoted s).scan.content.toOption = some s := by
  rw [StringLiteral.scan_of_denotes (denotes_quoted s)]
  rfl

mutual

theorem tree?_source (t : Tree) : t.source.tree? = some t := by
  cases t with
  | flag b =>
      rfl
  | integer v =>
      rw [source, tree?, integer?_integerLiteral]
      rfl
  | text s =>
      rw [source, tree?, content_quoted]
      rfl
  | array items =>
      rw [source, tree?, itemTrees?_itemSources]
      rfl
  | object members =>
      rw [source, tree?, memberTrees?_memberSources]
      rfl

theorem itemTrees?_itemSources (items : List Tree) :
    itemTrees? (itemSources items) = some items := by
  cases items with
  | nil =>
      rfl
  | cons item items =>
      rw [itemSources, itemTrees?, tree?_source, itemTrees?_itemSources]
      rfl

theorem memberTrees?_memberSources (members : List (String × Tree)) :
    memberTrees? (memberSources members) = some members := by
  cases members with
  | nil =>
      rfl
  | cons member members =>
      rcases member with ⟨key, value⟩
      rw [memberSources, memberTrees?, content_quoted, tree?_source,
        memberTrees?_memberSources]
      rfl

end

/-!
# Lines of a tree
-/

variable {ps : List (List UInt8)} {u : List UInt8}

theorem spread_mark {c : Char} (s : List Char) (hc : c.toNat < 0x80)
    (h : Spread ps (encode s ++ u)) : Spread (mark c :: ps) (encode (c :: s) ++ u) := by
  rw [encode_cons_of_ascii s hc]
  exact .cons h

theorem spread_pad {c : Char} (s : List Char) (hc : c ∈ paddings)
    (h : Spread ps (encode s ++ u)) : Spread ps (encode (c :: s) ++ u) := by
  rw [encode_cons_of_ascii s (ascii_of_mem_enders (List.mem_append_left _ hc))]
  exact .pad hc h

theorem spread_newline (depth : Nat) (s : List Char) (h : Spread ps (encode s ++ u)) :
    Spread ps (encode (newline depth ++ s) ++ u) := by
  have hspaces : ∀ n, Spread ps (encode (List.replicate n ' ' ++ s) ++ u) := by
    intro n
    induction n with
    | zero =>
        exact h
    | succ n ih =>
        exact spread_pad _ (by decide) ih
  exact spread_pad _ (by decide) (hspaces (2 * depth))

/-- The text behind the first entry of an array or an object. -/
def behind (closing : Char) (depth : Nat) (entries : List (List Char)) : List Char :=
  match entries with
  | [] => newline depth ++ [closing]
  | entry :: entries => ',' :: newline (depth + 1) ++ (entry ++ behind closing depth entries)

theorem enclose_cons (opening closing : Char) (depth : Nat) (entry : List Char)
    (entries : List (List Char)) :
    enclose opening closing depth (entry :: entries) =
      opening :: newline (depth + 1) ++ (entry ++ behind closing depth entries) := by
  have hjoined : ∀ (entry : List Char) (entries : List (List Char)),
      (',' :: newline (depth + 1)).intercalate (entry :: entries) ++
          (newline depth ++ [closing]) = entry ++ behind closing depth entries := by
    intro entry entries
    induction entries generalizing entry with
    | nil =>
        rw [List.intercalate_singleton, behind]
    | cons next entries ih =>
        rw [List.intercalate_cons_cons, List.append_assoc, ih, behind, List.append_assoc]
  rw [enclose, ← hjoined]
  · simp only [List.append_assoc]
  · exact List.cons_ne_nil _ _

theorem spread_line {c : Char} (hc : c.toNat < 0x80) (depth : Nat) (s : List Char)
    (h : Spread ps (encode s ++ u)) :
    Spread (mark c :: ps) (encode (c :: newline depth ++ s) ++ u) :=
  spread_mark _ hc (spread_newline depth s h)

theorem spread_key (key : String) (s : List Char) (h : Spread ps (encode s ++ u)) :
    Spread ((quoted key).text :: mark ':' :: ps)
      (encode (quote key ++ ':' :: ' ' :: s) ++ u) := by
  rw [encode_append, List.append_assoc, ← text_quoted]
  exact .cons (spread_mark _ (by decide) (spread_pad s (by decide) h))

mutual

theorem spread_layout (t : Tree) (depth : Nat) {ps : List (List UInt8)} {u : List UInt8}
    (h : Spread ps u) : Spread (t.source.pieces ++ ps) (encode (t.layout depth) ++ u) := by
  cases t with
  | flag b =>
      cases b <;>
        exact .cons h
  | integer v =>
      rw [source, pieces, text_integerLiteral]
      exact .cons h
  | text s =>
      rw [source, pieces, text_quoted]
      exact .cons h
  | array items =>
      cases items with
      | nil =>
          exact spread_mark _ (by decide) (spread_mark [] (by decide) h)
      | cons item items =>
          rw [source, itemSources, pieces, layout, layoutItems, enclose_cons, List.cons_append,
            List.append_assoc]
          apply spread_line (by decide)
          rw [encode_append, List.append_assoc]
          exact spread_layout item (depth + 1) (spread_layoutItems items depth h)
  | object members =>
      cases members with
      | nil =>
          exact spread_mark _ (by decide) (spread_mark [] (by decide) h)
      | cons member members =>
          rcases member with ⟨key, value⟩
          rw [source, memberSources, pieces, layout, layoutMembers, enclose_cons,
            List.cons_append, List.cons_append, List.cons_append, List.append_assoc]
          apply spread_line (by decide)
          rw [List.append_assoc, List.cons_append, List.cons_append]
          apply spread_key
          rw [encode_append, List.append_assoc]
          exact spread_layout value (depth + 1) (spread_layoutMembers members depth h)

theorem spread_layoutItems (items : List Tree) (depth : Nat) {ps : List (List UInt8)}
    {u : List UInt8} (h : Spread ps u) :
    Spread (itemPieces (itemSources items) ++ ps)
      (encode (behind ']' depth (layoutItems (depth + 1) items)) ++ u) := by
  cases items with
  | nil =>
      exact spread_newline depth _ (spread_mark [] (by decide) h)
  | cons item items =>
      rw [itemSources, itemPieces, layoutItems, behind, List.cons_append, List.append_assoc]
      apply spread_line (by decide)
      rw [encode_append, List.append_assoc]
      exact spread_layout item (depth + 1) (spread_layoutItems items depth h)

theorem spread_layoutMembers (members : List (String × Tree)) (depth : Nat)
    {ps : List (List UInt8)} {u : List UInt8} (h : Spread ps u) :
    Spread (memberPieces (memberSources members) ++ ps)
      (encode (behind '\x7d' depth (layoutMembers (depth + 1) members)) ++ u) := by
  cases members with
  | nil =>
      exact spread_newline depth _ (spread_mark [] (by decide) h)
  | cons member members =>
      rcases member with ⟨key, value⟩
      rw [memberSources, memberPieces, layoutMembers, behind, List.cons_append,
        List.cons_append, List.cons_append, List.append_assoc]
      apply spread_line (by decide)
      rw [List.append_assoc, List.cons_append, List.cons_append]
      apply spread_key
      rw [encode_append, List.append_assoc]
      exact spread_layout value (depth + 1) (spread_layoutMembers members depth h)

end

theorem spread_render (t : Tree) : Spread t.source.pieces (encode t.render.toList) := by
  have h := spread_layout t 0 Spread.nil
  rw [List.append_nil, List.append_nil] at h
  rw [render, String.toList_ofList]
  exact h

/-- What is rendered of a tree is the text of its source, and of no other. -/
theorem spread_render_iff {t : Tree} {d : Source} :
    Spread d.pieces (encode t.render.toList) ↔ d = t.source := by
  constructor
  · intro h
    exact eq_of_spread h (spread_render t)
  · rintro rfl
    exact spread_render t

theorem render_injective {t u : Tree} (h : t.render = u.render) : t = u := by
  have hspread := spread_render t
  rw [h, spread_render_iff] at hspread
  have htree := tree?_source t
  rw [hspread, tree?_source] at htree
  exact (Option.some.inj htree).symm

end Tree
end Json
end HeaderBinding
