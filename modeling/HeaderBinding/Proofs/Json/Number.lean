import HeaderBinding.Json.Number
import HeaderBinding.Proofs.Json.Text

/-!
# Natural numbers in decimal digits

A natural number of 64 bits is read back from its digits. It ends where the digits do,
unless a fraction or an exponent follows.
-/

namespace HeaderBinding
namespace Json

open Except (ok error)

def digitOf (c : Char) : Nat :=
  c.toNat - '0'.toNat

/-- The decimal digits of a number, without leading zeros. -/
inductive Digits : Nat → List Char → Prop where
  | single {c : Char} (h : c.isDigit = true) : Digits (digitOf c) [c]
  | append {n : Nat} {ds : List Char} {c : Char} (hds : Digits n ds) (hn : 0 < n)
      (h : c.isDigit = true) : Digits (n * 10 + digitOf c) (ds ++ [c])

/-- What may follow a number without going on with it. -/
def EndsNumber (rest : List UInt8) : Prop :=
  ∀ b ∈ rest.head?, isDigit b = false ∧ Char.ofUInt8 b ≠ '.' ∧ Char.ofUInt8 b ≠ 'e' ∧
    Char.ofUInt8 b ≠ 'E'

theorem endsNumber_nil : EndsNumber [] :=
  fun _ hb => absurd hb (Option.not_mem_none _)

/-!
# Digits as bytes
-/

theorem toNat_of_isDigit {c : Char} (h : c.isDigit = true) : 48 ≤ c.toNat ∧ c.toNat ≤ 57 := by
  simp only [Char.isDigit, Bool.and_eq_true, decide_eq_true_eq] at h
  exact ⟨UInt32.le_iff_toNat_le.mp h.1, UInt32.le_iff_toNat_le.mp h.2⟩

theorem digitByte {c : Char} (h : c.isDigit = true) :
    encode [c] = [UInt8.ofNat c.toNat] ∧ isDigit (UInt8.ofNat c.toNat) = true ∧
      digitValue (UInt8.ofNat c.toNat) = digitOf c := by
  have hc := toNat_of_isDigit h
  have hbyte : (UInt8.ofNat c.toNat).toNat = c.toNat :=
    UInt8.toNat_ofNat_of_lt' (Nat.lt_of_le_of_lt hc.2 (by decide))
  refine ⟨encode_cons_of_ascii [] (Nat.lt_of_le_of_lt hc.2 (by decide)), ?_, ?_⟩
  · simp only [isDigit, Bool.and_eq_true, decide_eq_true_eq, UInt8.le_iff_toNat_le, hbyte]
    exact hc
  · unfold digitValue
    rw [hbyte]
    rfl

theorem isDigit_of_digits {n : Nat} {ds : List Char} (h : Digits n ds) :
    ∀ b ∈ encode ds, isDigit b = true := by
  induction h with
  | single hc =>
      rw [(digitByte hc).1]
      simpa using (digitByte hc).2.1
  | append hds hn hc ih =>
      rw [encode_append, (digitByte hc).1]
      intro b hb
      rcases List.mem_append.mp hb with hb | hb
      · exact ih b hb
      · rw [List.mem_singleton.mp hb]
        exact (digitByte hc).2.1

theorem decimalValue_of_digits {n : Nat} {ds : List Char} (h : Digits n ds) :
    decimalValue (encode ds) = n := by
  induction h with
  | single hc =>
      rw [(digitByte hc).1]
      simp [decimalValue, (digitByte hc).2.2]
  | append hds hn hc ih =>
      unfold decimalValue at ih ⊢
      rw [encode_append, (digitByte hc).1, List.foldl_append, ih]
      simp [(digitByte hc).2.2]

theorem cons_of_digits {n : Nat} {ds : List Char} (h : Digits n ds) :
    ∃ c cs, ds = c :: cs ∧ c.isDigit = true := by
  induction h with
  | @single c hc =>
      exact ⟨c, [], rfl, hc⟩
  | @append n ds d hds hn hd ih =>
      rcases ih with ⟨c, cs, rfl, hc⟩
      exact ⟨c, cs ++ [d], rfl, hc⟩

/-- Only a single digit may be zero in front. -/
theorem head_of_digits {n : Nat} {ds : List Char} (h : Digits n ds) :
    ∃ b bytes, encode ds = b :: bytes ∧ (0 < n → digitValue b ≠ 0) ∧ (bytes ≠ [] → 0 < n) := by
  induction h with
  | single hc =>
      refine ⟨_, [], (digitByte hc).1, ?_, ?_⟩
      · rw [(digitByte hc).2.2]
        exact Nat.ne_of_gt
      · intro hne
        exact absurd rfl hne
  | @append n ds c hds hn hc ih =>
      rcases ih with ⟨b, bytes, hbytes, hhead, _⟩
      refine ⟨b, bytes ++ [UInt8.ofNat c.toNat], ?_, fun _ => hhead hn, fun _ => ?_⟩
      · rw [encode_append, (digitByte hc).1, hbytes, List.cons_append]
      · omega

/-!
# Scanning
-/

namespace Numeral

theorem digits_append {bytes rest : List UInt8} (hne : bytes ≠ [])
    (hbytes : ∀ b ∈ bytes, isDigit b = true) (hrest : ∀ b ∈ rest.head?, isDigit b = false) :
    digits (bytes ++ rest) = ok (bytes, rest) := by
  have hstop : rest.takeWhile isDigit = [] ∧ rest.dropWhile isDigit = rest := by
    cases rest with
    | nil =>
        exact ⟨rfl, rfl⟩
    | cons b rest =>
        have hb : isDigit b = false := hrest b rfl
        simp [hb]
  unfold digits
  rw [List.takeWhile_append_of_pos hbytes, List.dropWhile_append_of_pos hbytes, hstop.1,
    hstop.2, List.append_nil]
  cases bytes with
  | nil =>
      exact absurd rfl hne
  | cons b bytes =>
      rfl

theorem integerPart_digits {n : Nat} {ds : List Char} {rest : List UInt8} (h : Digits n ds)
    (hrest : EndsNumber rest) :
    integerPart (encode ds ++ rest) = ok (encode ds, rest) := by
  rcases head_of_digits h with ⟨b, bytes, hbytes, hhead, hlong⟩
  have hdigits : digits (encode ds ++ rest) = ok (encode ds, rest) := by
    apply digits_append
    · simp [hbytes]
    · exact isDigit_of_digits h
    · exact fun b hb => (hrest b hb).1
  unfold integerPart
  rw [hdigits, hbytes]
  cases bytes with
  | nil =>
      rfl
  | cons c bytes =>
      have hb : digitValue b ≠ 0 := hhead (hlong (by simp))
      simp [hb]

theorem sign_digits {n : Nat} {ds : List Char} (rest : List UInt8) (h : Digits n ds) :
    sign (encode ds ++ rest) = (false, encode ds ++ rest) := by
  rcases head_of_digits h with ⟨b, bytes, hbytes, _, _⟩
  have hdigit : isDigit b = true := by
    apply isDigit_of_digits h
    simp [hbytes]
  have hminus : Char.ofUInt8 b ≠ '-' := by
    intro hminus
    have hb : b.toNat = 45 := by
      rw [← toNat_ofUInt8, hminus]
      rfl
    simp only [isDigit, Bool.and_eq_true, decide_eq_true_eq, UInt8.le_iff_toNat_le,
      hb] at hdigit
    exact absurd hdigit.1 (by decide)
  rw [hbytes, List.cons_append]
  exact if_neg hminus

theorem scan_digits {n : Nat} {ds : List Char} {rest : List UInt8} (h : Digits n ds)
    (hrest : EndsNumber rest) :
    scan (encode ds ++ rest) = ok (⟨false, encode ds, none, none⟩, rest) := by
  have hfraction : fractionPart rest = ok (none, rest) := by
    cases rest with
    | nil =>
        rfl
    | cons b rest =>
        exact if_neg (hrest b rfl).2.1
  have hexponent : exponentPart rest = ok (none, rest) := by
    cases rest with
    | nil =>
        rfl
    | cons b rest =>
        rcases (hrest b rfl).2.2 with ⟨hlower, hupper⟩
        exact if_neg (not_or.mpr ⟨hlower, hupper⟩)
  simp only [scan, bind, Except.bind, pure, Except.pure, sign_digits rest h,
    integerPart_digits h hrest, hfraction, hexponent]

/-!
# Range
-/

theorem le_foldl_digits (ds : List UInt8) (n : Nat) :
    n ≤ ds.foldl (fun n b => n * 10 + digitValue b) n := by
  induction ds generalizing n with
  | nil =>
      exact Nat.le_refl n
  | cons b ds ih =>
      refine Nat.le_trans ?_ (ih (n * 10 + digitValue b))
      omega

/-- All digits of a number of 64 bits are gathered. -/
theorem gather_eq_foldl (ds : List UInt8) (n : Nat)
    (h : ds.foldl (fun n b => n * 10 + digitValue b) n < UInt64.size) :
    gather n ds = (ds.foldl (fun n b => n * 10 + digitValue b) n, 0) := by
  induction ds generalizing n with
  | nil =>
      rfl
  | cons b ds ih =>
      have hle := le_foldl_digits ds (n * 10 + digitValue b)
      have hlt : n * 10 + digitValue b < UInt64.size := Nat.lt_of_le_of_lt hle h
      unfold gather
      rw [if_pos hlt]
      exact ih _ h

theorem leadingBits_le (bits n : Nat) (hbits : 0 < bits) :
    Decimal.leadingBits bits n ≤ 2 * n + 1 := by
  show Decimal.nearest n (Nat.pow 2 (Nat.log2 n + 1 - bits)) *
    Nat.pow 2 (Nat.log2 n + 1 - bits) ≤ _
  generalize hd : Nat.pow 2 (Nat.log2 n + 1 - bits) = d
  have hpos : 0 < d := by
    rw [← hd]
    exact Nat.two_pow_pos _
  have hsmall : d ≤ n + 1 := by
    rw [← hd]
    by_cases hn : n = 0
    · subst hn
      have hzero : Nat.log2 0 + 1 - bits = 0 := by
        rw [Nat.log2_zero]
        omega
      exact Nat.le_of_eq (congrArg (Nat.pow 2) hzero)
    · have hself : Nat.pow 2 (Nat.log2 n) ≤ n := Nat.log2_self_le hn
      have hpow : Nat.pow 2 (Nat.log2 n + 1 - bits) ≤ Nat.pow 2 (Nat.log2 n) :=
        Nat.pow_le_pow_right (by decide) (by omega)
      omega
  have hnearest : Decimal.nearest n d ≤ n / d + 1 := by
    unfold Decimal.nearest
    simp only
    split
    · omega
    · split
      · exact Nat.le_refl _
      · have hmod := Nat.mod_lt (n / d) (by decide : 0 < 2)
        omega
  calc
    Decimal.nearest n d * d ≤ (n / d + 1) * d := Nat.mul_le_mul_right d hnearest
    _ = n / d * d + d := by rw [Nat.add_mul, Nat.one_mul]
    _ ≤ n + d := Nat.add_le_add_right (Nat.div_mul_le_self n d) d
    _ ≤ 2 * n + 1 := by omega

theorem isInfinite_of_lt {n : Nat} (h : n < UInt64.size) : isInfinite n 0 = false := by
  have hbits := leadingBits_le 53 n (by decide)
  have hone : Decimal.leadingBits 53 1 = 1 := by decide
  have hlimit : 2 * UInt64.size + 1 < firstInfinite := by decide +kernel
  have hfinite : Decimal.leadingBits 53 n < firstInfinite := by omega
  simp [isInfinite, hone, hfinite]

theorem content_digits {n : UInt64} {ds : List Char} (h : Digits n.toNat ds) :
    content ⟨false, encode ds, none, none⟩ = ok (.number (some n)) := by
  have hvalue := decimalValue_of_digits h
  have hlt : n.toNat < UInt64.size := n.toNat_lt
  have hgather : gather 0 (encode ds) = (n.toNat, 0) := by
    unfold decimalValue at hvalue
    rw [gather_eq_foldl _ _ (by rw [hvalue]; exact hlt), hvalue]
  have hscaled : scaled ⟨false, encode ds, none, none⟩ = (n.toNat, 0) := by
    simp [scaled, hgather, gather]
  have hnatural : natural? ⟨false, encode ds, none, none⟩ = some n := by
    show (if _ ∧ _ ∧ decimalValue (encode ds) < UInt64.size then
      some (UInt64.ofNat (decimalValue (encode ds))) else none) = some n
    rw [hvalue, if_pos ⟨rfl, Bool.false_ne_true, hlt⟩, UInt64.ofNat_toNat]
  unfold content
  rw [hscaled]
  simp only [isInfinite_of_lt hlt, hnatural]
  rfl

end Numeral

theorem scanNumber_digits {n : UInt64} {ds : List Char} {rest : List UInt8}
    (h : Digits n.toNat ds) (hrest : EndsNumber rest) :
    scanNumber (encode ds ++ rest) = (.whole (.number (some n)), rest) := by
  unfold scanNumber
  rw [Numeral.scan_digits h hrest]
  simp only [Numeral.content_digits h]
  rfl

end Json
end HeaderBinding
