import HeaderBinding.Dump.Node

/-!
# Walking a tree

A walk yields a node before its children and children in source order. It keeps
only the nodes that are still to come. Function bodies are not entered.
-/

namespace HeaderBinding
namespace Dump

namespace Node

/-- The children that a walk goes on to. -/
def entered (n : Node) : List Node :=
  match n.entity with
  | .compoundStatement _ => []
  | _ => n.children

mutual

def count : Node → Nat
  | mk _ _ children => countAll children + 1

def countAll : List Node → Nat
  | [] => 0
  | n :: ns => n.count + countAll ns

end

theorem countAll_append (ms ns : List Node) :
    countAll (ms ++ ns) = countAll ms + countAll ns := by
  induction ms with
  | nil =>
      simp [countAll]
  | cons m ms ih =>
      simp [countAll, ih, Nat.add_assoc]

theorem countAll_entered_lt (n : Node) : countAll n.entered < n.count := by
  cases n with
  | mk id entity children =>
      unfold entered
      split
      · simp [countAll, count]
      · simp [count, Node.children]

end Node

/-- The nodes still to come, the next one first. -/
structure Walk where
  pending : List Node

namespace Walk

def start (root : Node) : Walk :=
  ⟨[root]⟩

def next? (w : Walk) : Option (Node × Walk) :=
  match w.pending with
  | [] => none
  | n :: rest => some (n, ⟨n.entered ++ rest⟩)

theorem count_of_next? {w w' : Walk} {n : Node} (h : w.next? = some (n, w')) :
    Node.countAll w'.pending < Node.countAll w.pending := by
  unfold next? at h
  split at h
  · cases h
  next m rest hw =>
    cases h
    have := Node.countAll_entered_lt n
    simp only [hw, Node.countAll_append, Node.countAll]
    omega

def toList (w : Walk) : List Node :=
  match _h : w.next? with
  | none => []
  | some (n, w) => n :: w.toList
termination_by Node.countAll w.pending
decreasing_by exact count_of_next? _h

end Walk

def Node.walk (root : Node) : List Node :=
  (Walk.start root).toList

end Dump
end HeaderBinding
