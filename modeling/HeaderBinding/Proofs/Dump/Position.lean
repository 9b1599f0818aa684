import HeaderBinding.Proofs.Dump.Writing

/-!
# Reading positions

Positions, locations and ranges are read back from what is written of them, and what a
position leaves out is taken from the one before it.
-/

namespace HeaderBinding
namespace Dump

open Json
open Except (ok)

/-!
# Steps of a reading
-/

theorem bind_of_ok {x : Reading α} {f : α → Reading β} {recent after : Recent} {a : α}
    (h : x recent = ok (a, after)) : (x >>= f) recent = f a after := by
  show (x recent >>= fun p => f p.1 p.2) = f a after
  rw [h]
  rfl

theorem lift_bind_of_ok {x : Except Fault α} {f : α → Reading β} {a : α} (recent : Recent)
    (h : x = ok a) : ((liftM x : Reading α) >>= f) recent = f a recent := by
  subst h
  rfl

section Slots

variable {σ ι γ : Type} {slot : σ → ι → γ} {put : σ → ι → σ} {target : σ}
variable {name : ι → String} {add : σ → String → Value → Except Fault σ}

/-- Members that each fill one slot of a draft from a target. What no member names stays
as it was. -/
theorem readMembers_slots (hname : ∀ i j, name i = name j → i = j)
    (hput : ∀ s i, slot (put s i) i = slot target i)
    (hkept : ∀ s i j, j ≠ i → slot (put s i) j = slot s j) (members : Members)
    (hadd : ∀ key d, (key, d) ∈ members →
      ∃ i, name i = key ∧ ∀ s, add s key d.value = ok (put s i)) (s : σ) :
    ∃ s', readMembers add s none (Datum.memberValues members) = ok s' ∧
      (∀ i, name i ∈ members.keys → slot s' i = slot target i) ∧
      (∀ i, name i ∉ members.keys → slot s' i = slot s i) := by
  induction members generalizing s with
  | nil =>
      exact ⟨s, rfl, fun i hi => absurd hi List.not_mem_nil, fun i _ => rfl⟩
  | cons member members ih =>
      rcases member with ⟨key, d⟩
      rcases hadd key d List.mem_cons_self with ⟨i, hi, hstep⟩
      have hrest := ih (fun key d h => hadd key d (List.mem_cons_of_mem _ h)) (put s i)
      rcases hrest with ⟨s', hs', hsaid, hleft⟩
      refine ⟨s', ?_, ?_, ?_⟩
      · show (add s key d.value >>= fun known => _) = ok s'
        rw [hstep s]
        exact hs'
      · intro j hj
        by_cases hlater : name j ∈ Members.keys members
        · exact hsaid j hlater
        · have hji : j = i := by
            rcases List.mem_cons.mp hj with hj | hj
            · exact hname j i (hj.trans hi.symm)
            · exact absurd hj hlater
          rw [hleft j hlater, hji, hput]
      · intro j hj
        have hnot := not_or.mp (fun h => hj (List.mem_cons.mpr h))
        rw [hleft j hnot.2]
        apply hkept
        rintro rfl
        exact hnot.1 hi

end Slots

/-!
# Members of a position
-/

theorem pass_value (d : Datum) : pass d.value = ok () := by
  unfold pass
  rw [d.passing_value]

theorem readMembers_passed (d : Datum) (known : Option String) (members : List Member) :
    readMembers addIncluder known none ((.whole "includedFrom", d.value) :: members) =
      readMembers addIncluder known none members := by
  show (addIncluder known "includedFrom" d.value >>= fun known => _) = _
  show ((pass d.value >>= fun _ => ok known) >>= fun known => _) = _
  rw [pass_value]
  rfl

theorem readIncluder_of_written {file : String} {d : Datum} {room : Nat}
    (h : IncluderWrittenAs file d) (hroom : d.depth ≤ room) :
    readIncluder room d.value = ok file := by
  cases room with
  | zero =>
      cases h <;>
        exact absurd hroom (Nat.not_succ_le_zero _)
  | succ room =>
      cases h with
      | plain =>
          rfl
      | @before d =>
          show (readMembers addIncluder none none
            [(.whole "includedFrom", d.value), (.whole "file", .atom (.whole (.text file)))] >>=
              fun file => _) = ok file
          rw [readMembers_passed d]
          rfl
      | @behind d =>
          show (readMembers addIncluder (some file) none
            [(.whole "includedFrom", d.value)] >>= fun file => _) = ok file
          rw [readMembers_passed d]
          rfl

/-- What a member of a position may hold. -/
inductive PositionSlot where
  | text (s : Option String)
  | number (n : Option UInt64)
  | mark (b : Bool)

namespace PositionDraft

def slot (p : PositionDraft) : PositionKey → PositionSlot
  | .file => .text p.file
  | .line => .number p.line
  | .presumedFile => .text p.presumedFile
  | .presumedLine => .number p.presumedLine
  | .column => .number p.column
  | .tokenLength => .number p.tokenLength
  | .includedFrom => .text p.includedFrom
  | .inMacroArgument => .mark p.inMacroArgument

/-- The draft with one member as in another draft. -/
def put (p target : PositionDraft) : PositionKey → PositionDraft
  | .file => { p with file := target.file }
  | .line => { p with line := target.line }
  | .presumedFile => { p with presumedFile := target.presumedFile }
  | .presumedLine => { p with presumedLine := target.presumedLine }
  | .column => { p with column := target.column }
  | .tokenLength => { p with tokenLength := target.tokenLength }
  | .includedFrom => { p with includedFrom := target.includedFrom }
  | .inMacroArgument => { p with inMacroArgument := target.inMacroArgument }

@[simp]
theorem slot_put (p target : PositionDraft) (i : PositionKey) :
    (p.put target i).slot i = target.slot i := by
  cases i <;>
    rfl

@[simp]
theorem slot_put_of_ne (p target : PositionDraft) {i j : PositionKey} (h : j ≠ i) :
    (p.put target i).slot j = p.slot j := by
  cases i <;> cases j <;>
    first
    | rfl
    | exact absurd rfl h

end PositionDraft

theorem PositionKey.name_injective (i j : PositionKey) (h : i.name = j.name) : i = j := by
  cases i <;> cases j <;>
    first
    | rfl
    | exact absurd h (by decide)

namespace Position

/-- The draft of a position of which everything is said. -/
def draft (p : Position) : PositionDraft :=
  ⟨some p.file, some p.line, p.presumedFile, p.presumedLine, some p.column,
    some p.tokenLength, p.includedFrom, p.inMacroArgument⟩

theorem addToPosition_of_member {p : Position} {key : String} {d : Datum} {room : Nat}
    (h : p.Member key d) (hroom : d.depth ≤ room) :
    ∃ i : PositionKey, i.name = key ∧
      ∀ s, addToPosition room s key d.value = ok (s.put p.draft i) := by
  cases h with
  | file =>
      exact ⟨.file, rfl, fun s => rfl⟩
  | line =>
      exact ⟨.line, rfl, fun s => rfl⟩
  | presumedFile h =>
      refine ⟨.presumedFile, rfl, fun s => ?_⟩
      show _ = ok { s with presumedFile := p.presumedFile }
      rw [h]
      rfl
  | presumedLine h =>
      refine ⟨.presumedLine, rfl, fun s => ?_⟩
      show _ = ok { s with presumedLine := p.presumedLine }
      rw [h]
      rfl
  | column =>
      exact ⟨.column, rfl, fun s => rfl⟩
  | tokenLength =>
      exact ⟨.tokenLength, rfl, fun s => rfl⟩
  | includedFrom h hd =>
      refine ⟨.includedFrom, rfl, fun s => ?_⟩
      show (readIncluder room d.value >>= fun file => _) =
        ok { s with includedFrom := p.includedFrom }
      rw [readIncluder_of_written hd hroom, h]
      rfl
  | inMacroArgument =>
      exact ⟨.inMacroArgument, rfl, fun s => rfl⟩

/-- Behind an offset, a position is read from its members and the position before. -/
theorem completePosition_of_slots {p : Position} {recent : Recent} {members : Members}
    {s : PositionDraft} (h : p.HasMembers recent members)
    (hsaid : ∀ i : PositionKey, i.name ∈ members.keys → s.slot i = p.draft.slot i)
    (hleft : ∀ i : PositionKey, i.name ∉ members.keys → s.slot i = PositionDraft.empty.slot i) :
    completePosition p.offset s recent = ok (p, p.recent) := by
  have hslot : ∀ i : PositionKey,
      (i.name ∈ members.keys ∨ p.draft.slot i = PositionDraft.empty.slot i) →
        s.slot i = p.draft.slot i := by
    intro i hi
    by_cases hkey : i.name ∈ members.keys
    · exact hsaid i hkey
    · rw [hleft i hkey, hi.resolve_left hkey]
  have hfile : s.file.getD recent.file = p.file := by
    by_cases hkey : "file" ∈ members.keys
    · have hs : s.file = some p.file := PositionSlot.text.inj (hsaid .file hkey)
      rw [hs]
      rfl
    · have hs : s.file = none := PositionSlot.text.inj (hleft .file hkey)
      rw [hs]
      exact (h.file.resolve_left hkey).symm
  have hline : s.line.getD recent.line = p.line := by
    by_cases hkey : "line" ∈ members.keys
    · have hs : s.line = some p.line := PositionSlot.number.inj (hsaid .line hkey)
      rw [hs]
      rfl
    · have hs : s.line = none := PositionSlot.number.inj (hleft .line hkey)
      rw [hs]
      exact (h.line.resolve_left hkey).symm
  have hpresumedFile : s.presumedFile = p.presumedFile :=
    PositionSlot.text.inj
      (hslot .presumedFile (h.presumedFile.imp_right (congrArg PositionSlot.text)))
  have hpresumedLine : s.presumedLine = p.presumedLine :=
    PositionSlot.number.inj
      (hslot .presumedLine (h.presumedLine.imp_right (congrArg PositionSlot.number)))
  have hcolumn : s.column = some p.column :=
    PositionSlot.number.inj (hsaid .column h.column)
  have htokenLength : s.tokenLength = some p.tokenLength :=
    PositionSlot.number.inj (hsaid .tokenLength h.tokenLength)
  have hincludedFrom : s.includedFrom = p.includedFrom :=
    PositionSlot.text.inj
      (hslot .includedFrom (h.includedFrom.imp_right (congrArg PositionSlot.text)))
  have hinMacroArgument : s.inMacroArgument = p.inMacroArgument :=
    PositionSlot.mark.inj
      (hslot .inMacroArgument (h.inMacroArgument.imp_right (congrArg PositionSlot.mark)))
  unfold completePosition
  rw [hcolumn, htokenLength, hpresumedFile, hpresumedLine, hincludedFrom, hinMacroArgument]
  show ok (Position.mk p.offset (s.file.getD recent.file) (s.line.getD recent.line) _ _ _ _ _ _,
    Recent.mk (s.file.getD recent.file) (s.line.getD recent.line)) = _
  rw [hfile, hline]
  rfl

theorem readPositionMembers_of_members {p : Position} {recent : Recent} {members : Members}
    {room : Nat} (h : p.HasMembers recent members)
    (hroom : Datum.memberDepth members ≤ room) :
    readPositionMembers room none
        (Datum.memberValues (("offset", .natural p.offset) :: members)) recent =
      ok (p, p.recent) := by
  have hread := readMembers_slots PositionKey.name_injective
    (fun s => PositionDraft.slot_put s p.draft)
    (fun s i j => PositionDraft.slot_put_of_ne s p.draft) members
    (fun key d hd => addToPosition_of_member (h.each key d hd)
      (Nat.le_trans (Datum.depth_le_of_mem hd) hroom))
    PositionDraft.empty
  rcases hread with ⟨s, hs, hsaid, hleft⟩
  show ((liftM (readMembers (addToPosition room) PositionDraft.empty none
    (Datum.memberValues members)) : Reading PositionDraft) >>= completePosition p.offset)
      recent = _
  rw [lift_bind_of_ok recent hs]
  exact completePosition_of_slots h hsaid hleft

end Position

/-- What is inside an array or an object has one level less to nest in. -/
theorem exists_deeper {depth room : Nat} (h : depth + 1 ≤ room) :
    ∃ inner, deeper room = ok inner ∧ depth ≤ inner := by
  cases room with
  | zero =>
      exact absurd h (Nat.not_succ_le_zero _)
  | succ room =>
      exact ⟨room, rfl, Nat.le_of_succ_le_succ h⟩

theorem depths_le_of_pair {key key' : String} {d e : Datum} {room : Nat}
    (h : (Datum.object [(key, d), (key', e)]).depth ≤ room) :
    ∃ inner, deeper room = ok inner ∧ d.depth ≤ inner ∧ e.depth ≤ inner := by
  rcases exists_deeper h with ⟨inner, hdeeper, hinner⟩
  refine ⟨inner, hdeeper, Nat.le_trans (Nat.le_max_left _ _) hinner, ?_⟩
  exact Nat.le_trans (Nat.le_trans (Nat.le_max_left _ _) (Nat.le_max_right _ _)) hinner

theorem readPosition_of_written {p : Position} {recent : Recent} {d : Datum} {room : Nat}
    (h : p.WrittenAs recent d) (hroom : d.depth ≤ room) :
    readPosition room d.value recent = ok (p, p.recent) := by
  cases h with
  | @members members h =>
      rcases exists_deeper hroom with ⟨inner, hdeeper, hinner⟩
      show ((liftM (deeper room) : Reading Nat) >>= fun room => readPositionMembers room none _)
        recent = _
      rw [lift_bind_of_ok recent hdeeper]
      apply Position.readPositionMembers_of_members h
      exact Nat.le_trans (Nat.le_max_right _ _) hinner

/-!
# Locations and ranges
-/

theorem readLocation_of_written {l : Location} {recent after : Recent} {d : Datum} {room : Nat}
    (h : l.WrittenAs recent d after) (hroom : d.depth ≤ room) :
    readLocation room d.value recent = ok (l, after) := by
  cases h with
  | none =>
      rcases exists_deeper hroom with ⟨inner, hdeeper, hinner⟩
      show ((liftM (deeper room) : Reading Nat) >>= fun room => readLocationMembers room none [])
        recent = _
      rw [lift_bind_of_ok recent hdeeper]
      rfl
  | plain h =>
      rename_i p
      cases h with
      | @members members h =>
          rcases exists_deeper hroom with ⟨inner, hdeeper, hinner⟩
          have hread := Position.readPositionMembers_of_members h
            (Nat.le_trans (Nat.le_max_right _ _) hinner)
          show ((liftM (deeper room) : Reading Nat) >>= fun room =>
            readLocationMembers room none _) recent = _
          rw [lift_bind_of_ok recent hdeeper]
          show (readPositionMembers inner none _ >>= fun p => pure (Location.plain p)) recent = _
          rw [bind_of_ok hread]
          rfl
  | @both p q d e hp hq =>
      rcases depths_le_of_pair hroom with ⟨inner, hdeeper, hd, he⟩
      show ((liftM (deeper room) : Reading Nat) >>= fun room =>
        readLocationMembers room none _) recent = _
      rw [lift_bind_of_ok recent hdeeper]
      simp only [readLocationMembers, Datum.memberValues, Scan.whole]
      rw [lift_bind_of_ok recent rfl]
      show (readPosition inner d.value >>= _) recent = _
      rw [bind_of_ok (readPosition_of_written hp hd), lift_bind_of_ok p.recent rfl,
        if_neg (not_not_intro rfl), bind_of_ok (readPosition_of_written hq he)]
      rfl

theorem readRangeMembers_begin (room : Nat) (start stop : Option Location) (v : Value)
    (members : List Member) (recent : Recent) :
    readRangeMembers room none start stop ((.whole "begin", v) :: members) recent =
      (readLocation room v >>= fun l =>
        readRangeMembers room none (some l) stop members) recent := by
  simp only [readRangeMembers, Scan.whole]
  rfl

theorem readRangeMembers_end (room : Nat) (start stop : Option Location) (v : Value)
    (members : List Member) (recent : Recent) :
    readRangeMembers room none start stop ((.whole "end", v) :: members) recent =
      (readLocation room v >>= fun l =>
        readRangeMembers room none start (some l) members) recent := by
  simp only [readRangeMembers, Scan.whole]
  rfl

theorem readRange_of_written {r : Range} {recent after : Recent} {d : Datum} {room : Nat}
    (h : r.WrittenAs recent d after) (hroom : d.depth ≤ room) :
    readRange room d.value recent = ok (r, after) := by
  cases h with
  | @startFirst d e between _ hstart hstop =>
      rcases depths_le_of_pair hroom with ⟨inner, hdeeper, hd, he⟩
      show ((liftM (deeper room) : Reading Nat) >>= fun room =>
        readRangeMembers room none none none _) recent = _
      rw [lift_bind_of_ok recent hdeeper]
      simp only [Datum.memberValues]
      rw [readRangeMembers_begin, bind_of_ok (readLocation_of_written hstart hd),
        readRangeMembers_end, bind_of_ok (readLocation_of_written hstop he)]
      rfl
  | @stopFirst d e between _ hstop hstart =>
      rcases depths_le_of_pair hroom with ⟨inner, hdeeper, hd, he⟩
      show ((liftM (deeper room) : Reading Nat) >>= fun room =>
        readRangeMembers room none none none _) recent = _
      rw [lift_bind_of_ok recent hdeeper]
      simp only [Datum.memberValues]
      rw [readRangeMembers_end, bind_of_ok (readLocation_of_written hstop hd),
        readRangeMembers_begin, bind_of_ok (readLocation_of_written hstart he)]
      rfl

end Dump
end HeaderBinding
