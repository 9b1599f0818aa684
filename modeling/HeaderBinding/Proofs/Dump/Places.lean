import HeaderBinding.Proofs.Dump.PreOrder

/-!
# Places in a tree

A place tells which child to go to at each step from the root. A place comes before those below
it, and what is below a child before what is below a later one: this is the lexicographic order.
A walk goes through the places that are not below a compound statement in this order, and at each
point the nodes still to come stand for the rest of the way.
-/

namespace HeaderBinding
namespace Dump

/-!
# Walks that are not over
-/

namespace Walk

/-- The first nodes that a walk yields, and the walk that is left. -/
def take (w : Walk) : Nat → List Node × Walk
  | 0 => ([], w)
  | count + 1 =>
      match w.next? with
      | none => ([], w)
      | some (n, rest) => (n :: (rest.take count).1, (rest.take count).2)

/-- What the nodes still to come stand for. -/
def ahead (w : Walk) : List Node :=
  w.pending.flatMap Node.preOrder

theorem ahead_start (root : Node) : (start root).ahead = root.preOrder :=
  List.flatMap_singleton _ _

theorem toList_eq_ahead (w : Walk) : w.toList = w.ahead := by
  have hsame : Node.walk = Node.preOrder := funext Node.walk_eq_preOrder
  rw [ahead, ← hsame]
  exact toList_eq_flatMap w.pending

theorem ahead_of_next? {w w' : Walk} {n : Node} (h : w.next? = some (n, w')) :
    w.ahead = n :: w'.ahead := by
  rcases w with ⟨pending⟩
  cases pending with
  | nil =>
      cases h
  | cons m rest =>
      cases h
      rw [← toList_eq_ahead, ← toList_eq_ahead, toList_cons]

theorem pending_of_next?_eq_none {w : Walk} (h : w.next? = none) : w.pending = [] := by
  rcases w with ⟨pending⟩
  cases pending with
  | nil =>
      rfl
  | cons m rest =>
      cases h

theorem ahead_of_next?_eq_none {w : Walk} (h : w.next? = none) : w.ahead = [] := by
  rw [ahead, pending_of_next?_eq_none h, List.flatMap_nil]

/-- Steps of a walk take nodes from the front of what is ahead. -/
theorem take_append_ahead (w : Walk) (count : Nat) :
    (w.take count).1 = w.ahead.take count ∧ (w.take count).2.ahead = w.ahead.drop count := by
  induction count generalizing w with
  | zero =>
      exact ⟨rfl, rfl⟩
  | succ count ih =>
      rw [take]
      split
      next hnone =>
        rw [ahead_of_next?_eq_none hnone]
        exact ⟨rfl, rfl⟩
      next n rest hnext =>
        rw [ahead_of_next? hnext]
        exact ⟨congrArg (n :: ·) (ih rest).1, (ih rest).2⟩

theorem next?_of_ahead_eq_nil {w : Walk} (h : w.ahead = []) : w.next? = none := by
  cases hnext : w.next? with
  | none =>
      rfl
  | some found =>
      rw [ahead_of_next? hnext] at h
      cases h

end Walk

/-!
# Places
-/

namespace Node

abbrev Place :=
  List Nat

/-- The node at a place. -/
def at? (n : Node) : Place → Option Node
  | [] => some n
  | i :: place => n.children[i]?.bind fun child => child.at? place

/-- Whether a node on the way to a place is a compound statement. -/
def IsInStatement (root : Node) (place : Place) : Prop :=
  ∃ above i rest n range, place = above ++ i :: rest ∧ root.at? above = some n ∧
    n.entity = .compoundStatement range

mutual

/-- The places that a walk goes to. -/
def places : Node → List Place
  | mk _ entity children =>
      [] ::
        match entity with
        | .compoundStatement _ => []
        | _ => placesFrom 0 children

/-- The places in children, the first of which has the given position. -/
def placesFrom (i : Nat) : List Node → List Place
  | [] => []
  | n :: ns => n.places.map (i :: ·) ++ placesFrom (i + 1) ns

end

theorem mem_placesFrom {ns : List Node} {k : Nat} {place : Place} :
    place ∈ placesFrom k ns ↔
      ∃ i n rest, ns[i]? = some n ∧ rest ∈ n.places ∧ place = (k + i) :: rest := by
  induction ns generalizing k with
  | nil =>
      simp [placesFrom]
  | cons n ns ih =>
      rw [placesFrom, List.mem_append, List.mem_map, ih]
      constructor
      · rintro (⟨rest, hrest, rfl⟩ | ⟨i, m, rest, hm, hrest, rfl⟩)
        · exact ⟨0, n, rest, rfl, hrest, rfl⟩
        · refine ⟨i + 1, m, rest, hm, hrest, ?_⟩
          rw [Nat.add_assoc, Nat.add_comm 1 i]
      · rintro ⟨i, m, rest, hm, hrest, rfl⟩
        cases i with
        | zero =>
            cases hm
            exact Or.inl ⟨rest, hrest, rfl⟩
        | succ i =>
            refine Or.inr ⟨i, m, rest, hm, hrest, ?_⟩
            rw [Nat.add_assoc, Nat.add_comm 1 i]

/-!
# Which places
-/

theorem at?_cons {n child : Node} {i : Nat} (place : Place) (h : n.children[i]? = some child) :
    n.at? (i :: place) = child.at? place := by
  rw [at?, h, Option.bind_some]

/-- A place in a child is in a statement if the parent is one or if it is so in the child. -/
theorem isInStatement_cons {n child : Node} {i : Nat} {place : Place}
    (h : n.children[i]? = some child) :
    n.IsInStatement (i :: place) ↔
      (∃ range, n.entity = .compoundStatement range) ∨ child.IsInStatement place := by
  constructor
  · rintro ⟨above, j, rest, m, range, hplace, hm, hrange⟩
    cases above with
    | nil =>
        cases hm
        exact Or.inl ⟨range, hrange⟩
    | cons k above =>
        cases hplace
        rw [at?_cons above h] at hm
        exact Or.inr ⟨above, j, rest, m, range, rfl, hm, hrange⟩
  · rintro (⟨range, hrange⟩ | ⟨above, j, rest, m, range, rfl, hm, hrange⟩)
    · exact ⟨[], i, place, n, range, rfl, rfl, hrange⟩
    · exact ⟨i :: above, j, rest, m, range, rfl, (at?_cons above h).trans hm, hrange⟩

theorem not_isInStatement_nil (n : Node) : ¬n.IsInStatement [] := by
  rintro ⟨above, i, rest, m, range, hplace, hm, hrange⟩
  exact List.append_ne_nil_of_right_ne_nil above (List.cons_ne_nil i rest) hplace.symm

theorem cons_mem_places {n : Node} {i : Nat} {place : Place} :
    i :: place ∈ n.places ↔ ¬(∃ range, n.entity = .compoundStatement range) ∧
      ∃ child, n.children[i]? = some child ∧ place ∈ child.places := by
  rcases n with ⟨id, entity, children⟩
  have hchildren : i :: place ∈ placesFrom 0 children ↔
      ∃ child, children[i]? = some child ∧ place ∈ child.places := by
    rw [mem_placesFrom]
    constructor
    · rintro ⟨j, child, rest, hchild, hrest, heq⟩
      rw [Nat.zero_add] at heq
      cases heq
      exact ⟨child, hchild, hrest⟩
    · rintro ⟨child, hchild, hplace⟩
      exact ⟨i, child, place, hchild, hplace, by rw [Nat.zero_add]⟩
  rw [places.eq_def, List.mem_cons]
  cases entity with
  | compoundStatement range =>
      simp [Node.entity]
  | _ =>
      simpa [Node.entity, Node.children] using hchildren

theorem mem_places_iff {root : Node} {place : Place} :
    place ∈ root.places ↔ (root.at? place).isSome ∧ ¬root.IsInStatement place := by
  induction place generalizing root with
  | nil =>
      have hroot : [] ∈ root.places := by
        rcases root with ⟨id, entity, children⟩
        rw [places.eq_def]
        exact List.mem_cons_self
      exact ⟨fun _ => ⟨rfl, not_isInStatement_nil root⟩, fun _ => hroot⟩
  | cons i place ih =>
      rw [cons_mem_places]
      constructor
      · rintro ⟨hplain, child, hchild, hplace⟩
        rcases ih.mp hplace with ⟨hsome, hout⟩
        rw [at?_cons place hchild, isInStatement_cons hchild]
        exact ⟨hsome, not_or.mpr ⟨hplain, hout⟩⟩
      · rintro ⟨hsome, hout⟩
        cases hchild : root.children[i]? with
        | none =>
            rw [at?, hchild] at hsome
            cases hsome
        | some child =>
            rw [at?_cons place hchild] at hsome
            rw [isInStatement_cons hchild] at hout
            rcases not_or.mp hout with ⟨hplain, hout⟩
            exact ⟨hplain, child, rfl, ih.mpr ⟨hsome, hout⟩⟩

/-!
# The order of the places
-/

mutual

theorem ascending_places : (n : Node) → n.places.Pairwise (· < ·)
  | mk id entity children => by
      have hchildren := ascending_placesFrom 0 children
      have hfirst : ∀ place ∈ placesFrom 0 children, [] < place := by
        intro place hplace
        rcases mem_placesFrom.mp hplace with ⟨i, n, rest, _, _, rfl⟩
        exact List.nil_lt_cons _ _
      rw [places.eq_def]
      cases entity with
      | compoundStatement range =>
          exact List.pairwise_singleton _ _
      | _ =>
          exact List.pairwise_cons.mpr ⟨hfirst, hchildren⟩

theorem ascending_placesFrom (k : Nat) : (ns : List Node) → (placesFrom k ns).Pairwise (· < ·)
  | [] => by
      rw [placesFrom]
      exact List.Pairwise.nil
  | n :: ns => by
      rw [placesFrom, List.pairwise_append]
      refine ⟨?_, ascending_placesFrom (k + 1) ns, ?_⟩
      · apply (ascending_places n).map
        intro p q hpq
        exact List.cons_lt_cons_iff.mpr (Or.inr ⟨rfl, hpq⟩)
      · intro p hp q hq
        rcases List.mem_map.mp hp with ⟨rest, _, rfl⟩
        rcases mem_placesFrom.mp hq with ⟨i, m, rest', _, _, rfl⟩
        exact List.cons_lt_cons_iff.mpr (Or.inl (by omega))

end

/-!
# The nodes at the places
-/

mutual

theorem map_at?_places : (n : Node) → n.places.map n.at? = n.preOrder.map some
  | mk id entity children => by
      have hchildren := map_at?_placesFrom id entity [] children
      rw [places.eq_def, preOrder.eq_def]
      cases entity with
      | compoundStatement range =>
          rfl
      | _ =>
          exact congrArg (some _ :: ·) hchildren

/-- The children before those that are looked at only shift the positions. -/
theorem map_at?_placesFrom (id : UInt64) (entity : Entity) (before : List Node) :
    (ns : List Node) → (placesFrom before.length ns).map (mk id entity (before ++ ns)).at? =
      (preOrderAll ns).map some
  | [] => by
      rw [placesFrom, preOrderAll]
      rfl
  | n :: ns => by
      have hrest := map_at?_placesFrom id entity (before ++ [n]) ns
      rw [List.append_assoc, List.singleton_append, List.length_append] at hrest
      have hchild : (mk id entity (before ++ n :: ns)).children[before.length]? = some n := by
        simp [children]
      have hfirst : (mk id entity (before ++ n :: ns)).at? ∘ (before.length :: ·) = n.at? := by
        funext place
        exact at?_cons place hchild
      rw [placesFrom, preOrderAll, List.map_append, List.map_append, List.map_map, hfirst,
        map_at?_places n]
      exact congrArg _ hrest

end

end Node

/-!
# Walks and places
-/

/-- After any number of steps, the nodes yielded and what the pending ones stand for make up the
pre-order of the root. So the walk comes to its end, and the nodes that it yields are those at
the places that are in no statement, each once and in the order of the places. -/
theorem Walk.take_start (root : Node) :
    (∀ count, ((start root).take count).1 = root.walk.take count ∧
      ((start root).take count).1 ++ ((start root).take count).2.pending.flatMap Node.preOrder =
        root.preOrder) ∧
      (∃ count, ((start root).take count).1 = root.walk ∧
        ((start root).take count).2.next? = none) ∧
      ∃ places : List Node.Place, root.walk.map some = places.map root.at? ∧
        places.Pairwise (· < ·) ∧
        ∀ place, place ∈ places ↔ (root.at? place).isSome ∧ ¬root.IsInStatement place := by
  have htake := take_append_ahead (start root)
  rw [ahead_start] at htake
  rw [Node.walk_eq_preOrder]
  refine ⟨fun count => ⟨(htake count).1, ?_⟩, ⟨root.preOrder.length, ?_, ?_⟩, root.places,
    (Node.map_at?_places root).symm, Node.ascending_places root, fun _ => Node.mem_places_iff⟩
  · rw [← ahead, (htake count).1, (htake count).2, List.take_append_drop]
  · rw [(htake _).1, List.take_length]
  · apply next?_of_ahead_eq_nil
    rw [(htake _).2, List.drop_length]

end Dump
end HeaderBinding
