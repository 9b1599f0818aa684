import HeaderBinding.Dump.Walk

/-!
# Pre-order of a walk

A walk over several nodes is the walks over each of them, one after the other. So a walk
yields its root and then the walks over the children that it goes on to.
-/

namespace HeaderBinding
namespace Dump

theorem Walk.toList_nil : (Walk.mk []).toList = [] := by
  rw [Walk.toList.eq_def]
  rfl

theorem Walk.toList_cons (n : Node) (rest : List Node) :
    (Walk.mk (n :: rest)).toList = n :: (Walk.mk (n.entered ++ rest)).toList := by
  rw [Walk.toList.eq_def]
  rfl

/-- What is pending last does not change what comes before it. -/
theorem Walk.toList_append (ms ns : List Node) :
    (Walk.mk (ms ++ ns)).toList = (Walk.mk ms).toList ++ (Walk.mk ns).toList := by
  -- The induction is on the nodes still to come, since a node is replaced by its children.
  generalize hsize : Node.countAll ms = size
  induction size using Nat.strongRecOn generalizing ms with
  | ind size ih =>
      cases ms with
      | nil =>
          rw [Walk.toList_nil, List.nil_append, List.nil_append]
      | cons m ms =>
          have hless : Node.countAll (m.entered ++ ms) < size := by
            have hentered := Node.countAll_entered_lt m
            rw [← hsize, Node.countAll_append, Node.countAll]
            omega
          rw [List.cons_append, Walk.toList_cons, Walk.toList_cons, ← List.append_assoc,
            ih _ hless _ rfl, List.cons_append]

theorem Walk.toList_eq_flatMap (ns : List Node) :
    (Walk.mk ns).toList = ns.flatMap Node.walk := by
  induction ns with
  | nil =>
      rw [Walk.toList_nil, List.flatMap_nil]
  | cons n ns ih =>
      rw [← List.singleton_append, Walk.toList_append, ih, List.flatMap_append,
        List.flatMap_singleton]
      rfl

theorem Node.walk_eq (n : Node) : n.walk = n :: n.entered.flatMap Node.walk := by
  rw [Node.walk, Walk.start, Walk.toList_cons, List.append_nil, Walk.toList_eq_flatMap]

/-!
# Pre-order by recursion
-/

namespace Node

mutual

/-- A node before its children, and children in source order. A compound statement stands
for itself only. -/
def preOrder : Node → List Node
  | mk id entity children =>
      mk id entity children ::
        match entity with
        | .compoundStatement _ => []
        | _ => preOrderAll children

def preOrderAll : List Node → List Node
  | [] => []
  | n :: ns => n.preOrder ++ preOrderAll ns

end

mutual

theorem walk_eq_preOrder : (n : Node) → n.walk = n.preOrder
  | mk id entity children => by
      have hchildren := flatMap_walk_eq_preOrderAll children
      rw [walk_eq, preOrder.eq_def]
      unfold entered
      cases entity with
      | compoundStatement range =>
          rfl
      | _ =>
          exact congrArg (_ :: ·) hchildren

theorem flatMap_walk_eq_preOrderAll : (ns : List Node) → ns.flatMap walk = preOrderAll ns
  | [] => rfl
  | n :: ns => by
      rw [List.flatMap_cons, preOrderAll, walk_eq_preOrder n, flatMap_walk_eq_preOrderAll ns]

end

end Node

end Dump
end HeaderBinding
