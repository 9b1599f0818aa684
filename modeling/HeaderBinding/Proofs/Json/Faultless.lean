import HeaderBinding.Proofs.Json.Phrase

/-!
# Runs in which nothing is wrong

A reader that comes to the end of the tokens without a fault went over a phrase. The induction
is on the tokens, from the last one back: what completes the tokens for the next state, with the
token in front of it completes them for the state before.
-/

namespace HeaderBinding
namespace Json

/-!
# Faults

Where a reader stops, the fault is in the ending of the outermost value, or behind it.
-/

/-- A document in which something is wrong, in the value or behind it. -/
def Document.Faulty (document : Document) : Prop :=
  document.value.passing ≠ none ∨ document.trailing ≠ none

theorem passing_close (frame : Frame) (v : Value) (ending : Option Fault) :
    (frame.close v ending).passing = ending := by
  cases frame <;>
    rfl

theorem faulty_abandon (frames : List Frame) {v : Value} (fault : Fault)
    (hv : v.passing ≠ none) : (abandon frames v fault).Faulty := by
  unfold abandon
  induction frames generalizing v with
  | nil =>
      exact .inl hv
  | cons frame frames ih =>
      apply ih
      rw [passing_close]
      exact Option.some_ne_none fault

theorem faulty_stop (p : Pending) (fault : Fault) : (p.stop fault).Faulty := by
  unfold Pending.stop
  split
  · exact faulty_abandon _ _ (Option.some_ne_none fault)
  · exact faulty_abandon _ _ (Option.some_ne_none fault)
  · exact faulty_abandon _ _ (Option.some_ne_none fault)
  · exact faulty_abandon _ _ (Option.some_ne_none fault)
  · exact faulty_abandon _ _ (Option.some_ne_none fault)
  · split
    · exact .inr (Option.some_ne_none fault)
    · next frame frames _ =>
        apply faulty_abandon
        rw [passing_close]
        exact Option.some_ne_none fault

/-!
# What completes the tokens
-/

/-- The tokens behind a value inside of open frames, up to the end of the outermost one. -/
inductive Closes : List Frame → Value → List Token → Value → Prop where
  | done {v : Value} : Closes [] v [] v
  | array {items vs : List Value} {frames : List Frame} {w v : Value} {us rest : List Token}
      (hvs : ItemPhrases vs us)
      (h : Closes frames (.array ((w :: items).reverse ++ vs) none) rest v) :
      Closes (.array items :: frames) w (us ++ rest) v
  | object {members ms : List Member} {key : Scan String} {frames : List Frame} {w v : Value}
      {us rest : List Token} (hms : MemberPhrases ms us)
      (h : Closes frames (.object (((key, w) :: members).reverse ++ ms) none) rest v) :
      Closes (.object members key :: frames) w (us ++ rest) v

/-- The tokens of a value inside of open frames, and those behind it. -/
def Fills (frames : List Frame) (tokens : List Token) (v : Value) : Prop :=
  ∃ w ts rest, tokens = ts ++ rest ∧ Phrase w ts ∧ Closes frames w rest v

/-- What the tokens are when a reader is done with them and nothing was wrong. -/
inductive Completes : Pending → List Token → Value → Prop where
  | value {frames : List Frame} {tokens : List Token} {v : Value} (h : Fills frames tokens v) :
      Completes ⟨frames, .value⟩ tokens v
  | noItem {frames : List Frame} {tokens : List Token} {v : Value}
      (h : Closes frames (.array [] none) tokens v) :
      Completes ⟨frames, .firstItem⟩ (.closeArray :: tokens) v
  | firstItem {frames : List Frame} {tokens : List Token} {v : Value}
      (h : Fills (.array [] :: frames) tokens v) : Completes ⟨frames, .firstItem⟩ tokens v
  | noKey {frames : List Frame} {tokens : List Token} {v : Value}
      (h : Closes frames (.object [] none) tokens v) :
      Completes ⟨frames, .firstKey⟩ (.closeObject :: tokens) v
  | firstKey {frames : List Frame} {key : Scan String} {tokens : List Token} {v : Value}
      (hkey : key.passing = none) (h : Fills (.object [] key :: frames) tokens v) :
      Completes ⟨frames, .firstKey⟩ (.text key :: .colon :: tokens) v
  | key {frames : List Frame} {members : List Member} {key : Scan String} {tokens : List Token}
      {v : Value} (hkey : key.passing = none)
      (h : Fills (.object members key :: frames) tokens v) :
      Completes ⟨frames, .key members⟩ (.text key :: .colon :: tokens) v
  | colon {frames : List Frame} {members : List Member} {key : Scan String}
      {tokens : List Token} {v : Value} (h : Fills (.object members key :: frames) tokens v) :
      Completes ⟨frames, .colon members key⟩ (.colon :: tokens) v
  | separator {frames : List Frame} {w : Value} {tokens : List Token} {v : Value}
      (h : Closes frames w tokens v) : Completes ⟨frames, .separator w⟩ tokens v

/-!
# One step
-/

namespace Pending

variable {p p' : Pending} {frames : List Frame} {token : Token} {tokens : List Token} {v : Value}
variable {document : Document}

theorem faulty_takeScalar {scan : Scan Atom} (h : takeScalar frames scan = .inl document) :
    document.Faulty := by
  unfold takeScalar at h
  split at h
  next fault hfault =>
    cases h
    apply faulty_abandon
    show scan.passing ≠ none
    rw [hfault]
    exact Option.some_ne_none fault
  next =>
    cases h

theorem faulty_takeKey {members : List Member} {key : Scan String}
    (h : takeKey frames members key = .inl document) : document.Faulty := by
  unfold takeKey at h
  split at h
  next fault hfault =>
    cases h
    exact faulty_abandon _ _ (Option.some_ne_none fault)
  next =>
    cases h

theorem faulty_takeValue (h : p.takeValue frames token = .inl document) : document.Faulty := by
  cases token with
  | atom scan =>
      exact faulty_takeScalar h
  | text scan =>
      exact faulty_takeScalar h
  | openArray =>
      cases h
  | openObject =>
      cases h
  | _ =>
      cases h
      exact faulty_stop p _

theorem faulty_takeSeparator (h : p.takeSeparator v token = .inl document) :
    document.Faulty := by
  unfold takeSeparator at h
  split at h
  · split at h
    · cases h
    · cases h
      exact faulty_stop p _
  · split at h
    · cases h
    · cases h
      exact faulty_stop p _
  · split at h
    · cases h
    · cases h
    · cases h
      exact faulty_stop p _
  · cases h
    exact faulty_stop p _

/-- A reader stops only where something is wrong. -/
theorem faulty_take (h : p.take token = .inl document) : document.Faulty := by
  unfold take at h
  split at h
  · exact faulty_takeValue h
  · cases h
  · exact faulty_takeValue h
  · cases h
  · exact faulty_takeKey h
  · cases h
    exact faulty_stop p _
  · exact faulty_takeKey h
  · cases h
    exact faulty_stop p _
  · cases h
  · cases h
    exact faulty_stop p _
  · exact faulty_takeSeparator h

theorem takeScalar_eq {scan : Scan Atom} (h : takeScalar frames scan = .inr p') :
    scan.passing = none ∧ p' = ⟨frames, .separator (.atom scan)⟩ := by
  unfold takeScalar at h
  split at h
  next =>
    cases h
  next hscan =>
    cases h
    exact ⟨hscan, rfl⟩

theorem takeKey_eq {members : List Member} {key : Scan String}
    (h : takeKey frames members key = .inr p') :
    key.passing = none ∧ p' = ⟨frames, .colon members key⟩ := by
  unfold takeKey at h
  split at h
  next =>
    cases h
  next hkey =>
    cases h
    exact ⟨hkey, rfl⟩

theorem fills_takeValue (hstep : p.takeValue frames token = .inr p')
    (h : Completes p' tokens v) : Fills frames (token :: tokens) v := by
  cases token with
  | atom scan =>
      rcases takeScalar_eq hstep with ⟨hscan, hp⟩
      rw [hp] at h
      cases h with
      | separator h =>
          exact ⟨_, [_], _, rfl, .scalar hscan, h⟩
  | text scan =>
      rcases takeScalar_eq hstep with ⟨hscan, hp⟩
      rw [hp] at h
      cases h with
      | separator h =>
          exact ⟨_, [_], _, rfl, .text hscan, h⟩
  | openArray =>
      cases hstep
      cases h with
      | noItem h =>
          exact ⟨_, [_, _], _, rfl, .emptyArray, h⟩
      | firstItem h =>
          rcases h with ⟨w, ts, rest, htokens, hw, hrest⟩
          cases hrest with
          | @array _ vs _ _ _ us rest hvs h =>
              refine ⟨_, .openArray :: (ts ++ us), rest, ?_, .array hw hvs, h⟩
              rw [htokens, List.cons_append, List.append_assoc]
  | openObject =>
      cases hstep
      cases h with
      | noKey h =>
          exact ⟨_, [_, _], _, rfl, .emptyObject, h⟩
      | @firstKey _ key _ _ hkey h =>
          rcases h with ⟨w, ts, rest, htokens, hw, hrest⟩
          cases hrest with
          | @object _ ms _ _ _ _ us rest hms h =>
              refine ⟨_, .openObject :: .text key :: .colon :: (ts ++ us), rest, ?_,
                .object hkey hw hms, h⟩
              rw [htokens, List.cons_append, List.cons_append, List.cons_append,
                List.append_assoc]
  | _ =>
      cases hstep

theorem closes_takeSeparator {w : Value} (hstep : p.takeSeparator w token = .inr p')
    (h : Completes p' tokens v) : Closes p.frames w (token :: tokens) v := by
  unfold takeSeparator at hstep
  split at hstep
  · split at hstep
    next items frames hframes =>
      cases hstep
      cases h with
      | separator h =>
          rw [hframes]
          refine .array .close ?_
          rw [List.append_nil]
          exact h
    next =>
      cases hstep
  · split at hstep
    next members key frames hframes =>
      cases hstep
      cases h with
      | separator h =>
          rw [hframes]
          refine .object .close ?_
          rw [List.append_nil]
          exact h
    next =>
      cases hstep
  · split at hstep
    next items frames hframes =>
      cases hstep
      cases h with
      | value h =>
          rcases h with ⟨x, ts, rest, htokens, hx, hrest⟩
          cases hrest with
          | @array _ vs _ _ _ us rest hvs h =>
              have hus : Token.comma :: tokens = .comma :: (ts ++ us) ++ rest := by
                rw [htokens, List.cons_append, List.append_assoc]
              rw [hframes, hus]
              refine .array (.next hx hvs) ?_
              rw [List.reverse_cons, List.append_assoc] at h
              exact h
    next members key frames hframes =>
      cases hstep
      cases h with
      | @key _ _ name tokens _ hname h =>
          rcases h with ⟨x, ts, rest, htokens, hx, hrest⟩
          cases hrest with
          | @object _ ms _ _ _ _ us rest hms h =>
              have hus : Token.comma :: .text name :: .colon :: tokens =
                  .comma :: .text name :: .colon :: (ts ++ us) ++ rest := by
                rw [htokens, List.cons_append, List.cons_append, List.cons_append,
                  List.append_assoc]
              rw [hframes, hus]
              refine .object (.next hname hx hms) ?_
              rw [List.reverse_cons, List.append_assoc] at h
              exact h
    next =>
      cases hstep
  · cases hstep

/-- A step keeps what completes the tokens. -/
theorem completes_take (hstep : p.take token = .inr p') (h : Completes p' tokens v) :
    Completes p (token :: tokens) v := by
  rcases p with ⟨frames, expecting⟩
  cases expecting with
  | value =>
      exact .value (fills_takeValue hstep h)
  | firstItem =>
      cases token with
      | closeArray =>
          cases hstep
          cases h with
          | separator h =>
              exact .noItem h
      | _ =>
          exact .firstItem (@fills_takeValue ⟨frames, .firstItem⟩ p' _ _ tokens v hstep h)
  | firstKey =>
      cases token with
      | closeObject =>
          cases hstep
          cases h with
          | separator h =>
              exact .noKey h
      | text key =>
          rcases takeKey_eq hstep with ⟨hkey, hp⟩
          rw [hp] at h
          cases h with
          | colon h =>
              exact .firstKey hkey h
      | _ =>
          cases hstep
  | key members =>
      cases token with
      | text key =>
          rcases takeKey_eq hstep with ⟨hkey, hp⟩
          rw [hp] at h
          cases h with
          | colon h =>
              exact .key hkey h
      | _ =>
          cases hstep
  | colon members key =>
      cases token with
      | colon =>
          cases hstep
          cases h with
          | value h =>
              exact .colon h
      | _ =>
          cases hstep
  | separator w =>
      exact .separator (closes_takeSeparator hstep h)

end Pending

/-!
# A whole run
-/

theorem completes_of_run {p : Pending} {tokens : List Token} {v : Value}
    (h : p.run tokens = ⟨v, none⟩) (hv : v.passing = none) : Completes p tokens v := by
  have hsound : ¬(⟨v, none⟩ : Document).Faulty := by
    intro hfaulty
    rcases hfaulty with hvalue | htrailing
    · exact hvalue hv
    · exact htrailing rfl
  induction tokens generalizing p with
  | nil =>
      unfold Pending.run Pending.finish at h
      split at h
      · cases h
        exact .separator .done
      · rw [← h] at hsound
        exact absurd (faulty_stop _ _) hsound
  | cons token tokens ih =>
      unfold Pending.run at h
      split at h
      next document hstep =>
        rw [← h] at hsound
        exact absurd (Pending.faulty_take hstep) hsound
      next p' hstep =>
        exact Pending.completes_take hstep (ih h)

/-- A run without faults goes over a phrase. -/
theorem phrase_of_run {tokens : List Token} {v : Value}
    (h : Pending.run ⟨[], .value⟩ tokens = ⟨v, none⟩) (hv : v.passing = none) :
    Phrase v tokens := by
  cases completes_of_run h hv with
  | value h =>
      rcases h with ⟨w, ts, rest, htokens, hw, hrest⟩
      cases hrest
      rw [htokens, List.append_nil]
      exact hw

end Json
end HeaderBinding
