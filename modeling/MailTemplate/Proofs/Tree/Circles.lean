import MailTemplate.Proofs.Tree.Ancestry
import Mathlib.Data.List.Rotate

/-!
# Circles of Parents

What the bounded walk up the parents answers on any tree, also on one where parents are missing or
run in a circle.

* `Tree.Circle` is the list of the nodes on a circle of parents, each once.
* `mem_circle_iff` says that the ids on a circle are the ones that are reached from themselves.
* `isAncestor_exact` says that the walk answers for reachability, that more steps would not tell
  it more, and that it finds an id above itself just if the id is on a circle.
-/

namespace MailTemplate.Tree

variable {tree : Tree}

/-- The ids are those of a circle of parents, in the order in which they come. -/
structure Circle (tree : Tree) (ids : List NodeId) : Prop where
  nodup : ids.Nodup
  /-- Each names the next as its parent, and the last the first. -/
  parents : ids.map tree.parentOf = (ids.rotate 1).map some

/-- The parent of an id on a circle is the next one on it. -/
theorem Circle.parentOf_eq {ids : List NodeId} (h : tree.Circle ids) {i : Nat} {id : NodeId}
    (hid : ids[i]? = some id) : tree.parentOf id = ids[(i + 1) % ids.length]? := by
  have hi : i < ids.length := (List.getElem?_eq_some_iff.1 hid).1
  have hnext := congrArg (·[i]?) h.parents
  simp only [List.getElem?_map, List.getElem?_rotate hi, hid, Option.map_some] at hnext
  rw [eq_comm, Option.map_eq_some_iff] at hnext
  obtain ⟨next, hget, hparent⟩ := hnext
  rw [hget, hparent]

/-- Any number of steps up from an id on a circle are as many steps around it. -/
theorem Circle.climb_eq {ids : List NodeId} (h : tree.Circle ids) {i steps : Nat} {id : NodeId}
    (hid : ids[i]? = some id) : tree.climb steps id = ids[(i + steps) % ids.length]? := by
  have hi : i < ids.length := (List.getElem?_eq_some_iff.1 hid).1
  induction steps generalizing i id with
  | zero => rw [Nat.add_zero, Nat.mod_eq_of_lt hi, hid, climb]
  | succ steps ih =>
    have hlt : (i + 1) % ids.length < ids.length := Nat.mod_lt _ (Nat.zero_lt_of_lt hi)
    have hnext := List.getElem?_eq_getElem hlt
    rw [climb, h.parentOf_eq hid, hnext, Option.bind_some, ih hnext hlt, Nat.mod_add_mod,
      show i + 1 + steps = i + (steps + 1) by omega]

/-- The chain from an id to its first visit of itself is a circle. -/
theorem circle_chain {id : NodeId} {steps : Nat}
    (hclimb : tree.climb (steps + 1) id = some id)
    (hfirst : ∀ i < steps, tree.climb (i + 1) id ≠ some id) :
    tree.Circle (tree.chain (steps + 1) id) where
  nodup := nodup_chain hclimb hfirst
  parents := by
    have hparents := map_parentOf_chain hclimb
    rw [chain] at hparents ⊢
    rw [List.rotate_cons_succ, List.rotate_zero]
    exact List.tail_eq_of_cons_eq hparents

/-- The ids on a circle are the ones that are reached from themselves. -/
theorem mem_circle_iff {id : NodeId} :
    (∃ ids, tree.Circle ids ∧ id ∈ ids) ↔ Relation.TransGen (IsParent tree.nodes) id id := by
  rw [transGen_isParent_iff]
  constructor
  · rintro ⟨ids, hcircle, hmem⟩
    obtain ⟨i, hi⟩ := List.mem_iff_getElem?.1 hmem
    have hlt : i < ids.length := (List.getElem?_eq_some_iff.1 hi).1
    -- As many steps as the circle has ids lead once around it.
    refine ⟨ids.length - 1, ?_⟩
    rw [hcircle.climb_eq hi, Nat.sub_add_cancel (Nat.one_le_of_lt hlt), Nat.add_mod_right,
      Nat.mod_eq_of_lt hlt, hi]
  · intro hreach
    classical
    exact ⟨_, circle_chain (Nat.find_spec hreach) fun i hi => Nat.find_min hreach hi,
      List.mem_cons_self⟩

/-- On any tree the walk up the parents finds an id just if it is reached over parents of nodes
that are there, no matter whether it is there itself. The bound on the walk hides nothing that a
longer walk would find, and the ids above themselves are those on a circle of parents. -/
theorem isAncestor_exact (tree : Tree) :
    (∀ ancestor id, tree.isAncestor ancestor id = true ↔
      Relation.TransGen (IsParent tree.nodes) ancestor id) ∧
    (∀ ancestor id steps, tree.inChain ancestor steps (tree.parentOf id) = true →
      tree.isAncestor ancestor id = true) ∧
    (∀ id, tree.isAncestor id id = true ↔ ∃ ids, tree.Circle ids ∧ id ∈ ids) := by
  refine ⟨fun ancestor id => isAncestor_iff, ?_, ?_⟩
  · intro ancestor id steps h
    obtain ⟨i, -, hclimb⟩ := inChain_iff.1 h
    exact isAncestor_iff.2 (transGen_isParent_iff.2 ⟨i, hclimb⟩)
  · intro id
    rw [isAncestor_iff, mem_circle_iff]

end MailTemplate.Tree
