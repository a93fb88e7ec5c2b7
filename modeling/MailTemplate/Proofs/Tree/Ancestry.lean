import MailTemplate.Proofs.Tree.Lookup
import Mathlib.Data.Finset.Card
import Mathlib.Data.Nat.Find
import Mathlib.Logic.Relation
import Mathlib.Order.WellFounded

/-!
# Chains of Parents

The relation between a node and the parent that it names, and what it takes for the relation to be
without circles.

* `isAncestor_iff` says that the bounded walk up the parents finds exactly the ids on the chain,
  in any tree: a walk as long as the tree meets every id of the chain.
* `wellFounded_of_reparent` says when a change that gives one node a new parent makes no circle.
-/

namespace MailTemplate

/-- The node of an id names another id as its parent. -/
def IsParent (nodes : Nodes) (parent id : NodeId) : Prop :=
  ∃ node, nodes[id]? = some node ∧ node.parent = some parent

/-- A node has a parent just if it names one. -/
theorem isParent_iff {nodes : Nodes} {parent id : NodeId} {node : Node}
    (h : nodes[id]? = some node) : IsParent nodes parent id ↔ node.parent = some parent := by
  constructor
  · rintro ⟨other, hother, hparent⟩
    rw [h] at hother
    cases hother
    exact hparent
  · exact fun hparent => ⟨node, h, hparent⟩

namespace Tree

theorem parentOf_eq_some_iff {tree : Tree} {parent id : NodeId} :
    tree.parentOf id = some parent ↔ IsParent tree.nodes parent id := by
  rw [parentOf, Option.bind_eq_some_iff]
  rfl

/-! ## The walk up the parents -/

/-- The id that is some steps up the parents from an id, if the chain is that long. -/
def climb (tree : Tree) : (steps : Nat) → NodeId → Option NodeId
  | 0, id => some id
  | steps + 1, id => (tree.parentOf id).bind (tree.climb steps)

theorem climb_add (tree : Tree) (i j : Nat) (id : NodeId) :
    tree.climb (i + j) id = (tree.climb i id).bind (tree.climb j) := by
  induction i generalizing id with
  | zero => rw [Nat.zero_add, climb, Option.bind_some]
  | succ i ih =>
    rw [Nat.succ_add, climb, climb]
    cases tree.parentOf id with
    | none => rfl
    | some parent => exact ih parent

/-- An id is above another just if some number of steps leads there. -/
theorem transGen_isParent_iff {tree : Tree} {ancestor id : NodeId} :
    Relation.TransGen (IsParent tree.nodes) ancestor id ↔
      ∃ steps, tree.climb (steps + 1) id = some ancestor := by
  constructor
  · -- A step at the lower end of the chain is the first step of the climb.
    intro h
    induction h with
    | single hparent =>
      refine ⟨0, ?_⟩
      rw [climb, parentOf_eq_some_iff.2 hparent]
      rfl
    | tail _ hparent ih =>
      obtain ⟨steps, hsteps⟩ := ih
      refine ⟨steps + 1, ?_⟩
      rw [climb, parentOf_eq_some_iff.2 hparent]
      exact hsteps
  · rintro ⟨steps, hsteps⟩
    induction steps generalizing id with
    | zero =>
      rw [climb, Option.bind_eq_some_iff] at hsteps
      obtain ⟨parent, hparent, heq⟩ := hsteps
      cases heq
      exact .single (parentOf_eq_some_iff.1 hparent)
    | succ steps ih =>
      rw [climb, Option.bind_eq_some_iff] at hsteps
      obtain ⟨parent, hparent, hrest⟩ := hsteps
      exact (ih hrest).tail (parentOf_eq_some_iff.1 hparent)

theorem inChain_iff {tree : Tree} {ancestor : NodeId} {steps : Nat} {start : Option NodeId} :
    tree.inChain ancestor steps start = true ↔
      ∃ i < steps, start.bind (tree.climb i) = some ancestor := by
  induction steps generalizing start with
  | zero => simp [inChain]
  | succ steps ih =>
    cases start with
    | none => simp [inChain]
    | some id =>
      rw [inChain, Bool.or_eq_true, beq_iff_eq, ih]
      constructor
      · rintro (rfl | ⟨i, hi, hclimb⟩)
        · exact ⟨0, Nat.succ_pos _, rfl⟩
        · exact ⟨i + 1, Nat.succ_lt_succ hi, hclimb⟩
      · rintro ⟨i, hi, hclimb⟩
        cases i with
        | zero => exact .inl (Option.some.inj hclimb)
        | succ i => exact .inr ⟨i, Nat.lt_of_succ_lt_succ hi, hclimb⟩

/-- The ids up the parents from an id, itself first, as far as the chain goes and at most so
many. -/
def chain (tree : Tree) : (count : Nat) → NodeId → List NodeId
  | 0, _ => []
  | count + 1, id => id :: ((tree.parentOf id).map (tree.chain count)).getD []

theorem getElem?_chain (tree : Tree) {i count : Nat} (hi : i < count) (id : NodeId) :
    (tree.chain count id)[i]? = tree.climb i id := by
  induction count generalizing i id with
  | zero => exact absurd hi (Nat.not_lt_zero i)
  | succ count ih =>
    cases i with
    | zero => rfl
    | succ i =>
      rw [chain, List.getElem?_cons_succ, climb]
      cases tree.parentOf id with
      | none => rfl
      | some parent => exact ih (Nat.lt_of_succ_lt_succ hi) parent

/-- Each id of a chain names the next as its parent, and the last the one that comes after the
chain. -/
theorem map_parentOf_chain {tree : Tree} {count : Nat} {id top : NodeId}
    (h : tree.climb count id = some top) :
    some id :: (tree.chain count id).map tree.parentOf =
      (tree.chain count id ++ [top]).map some := by
  induction count generalizing id with
  | zero =>
    rw [climb] at h
    rw [h]
    rfl
  | succ count ih =>
    rw [climb, Option.bind_eq_some_iff] at h
    obtain ⟨parent, hparent, hrest⟩ := h
    have hchain : tree.chain (count + 1) id = id :: tree.chain count parent := by
      rw [chain, hparent]
      rfl
    rw [hchain, List.map_cons, hparent, ih hrest]
    rfl

theorem length_chain {tree : Tree} {count : Nat} {id top : NodeId}
    (h : tree.climb count id = some top) : (tree.chain count id).length = count := by
  induction count generalizing id with
  | zero => rfl
  | succ count ih =>
    rw [climb, Option.bind_eq_some_iff] at h
    obtain ⟨parent, hparent, hrest⟩ := h
    rw [chain, hparent]
    exact congrArg (· + 1) (ih hrest)

/-- A chain up to the first visit of an id meets no id twice, for that would make a shortcut to an
earlier visit. -/
theorem nodup_chain {tree : Tree} {ancestor id : NodeId} {steps : Nat}
    (hclimb : tree.climb (steps + 1) id = some ancestor)
    (hfirst : ∀ i < steps, tree.climb (i + 1) id ≠ some ancestor) :
    (tree.chain (steps + 1) id).Nodup := by
  rw [List.nodup_iff_getElem?_ne_getElem?]
  intro i j hij hj heq
  rw [length_chain hclimb] at hj
  rw [getElem?_chain tree (hij.trans hj), getElem?_chain tree hj] at heq
  apply hfirst (i + (steps - j)) (by omega)
  rw [show i + (steps - j) + 1 = i + (steps + 1 - j) by omega, climb_add, heq, ← climb_add,
    show j + (steps + 1 - j) = steps + 1 by omega, hclimb]

/-- The first visit of an id on a chain comes after at most as many steps as there are nodes, for
the ids before it are different nodes. -/
theorem climb_le_size {tree : Tree} {ancestor id : NodeId} {steps : Nat}
    (hclimb : tree.climb (steps + 1) id = some ancestor)
    (hfirst : ∀ i < steps, tree.climb (i + 1) id ≠ some ancestor) : steps < tree.size := by
  have hkeys : tree.chain (steps + 1) id ⊆ tree.nodes.keys := by
    intro other hother
    -- Whatever is on the chain is a node, since it has a parent.
    have hmem : tree.parentOf other ∈ (tree.chain (steps + 1) id ++ [ancestor]).map some := by
      rw [← map_parentOf_chain hclimb]
      exact List.mem_cons_of_mem _ (List.mem_map_of_mem hother)
    obtain ⟨parent, -, hparent⟩ := List.mem_map.1 hmem
    obtain ⟨node, hget, -⟩ := parentOf_eq_some_iff.1 hparent.symm
    exact mem_keys_of_eq_some hget
  calc steps < (tree.chain (steps + 1) id).length := by
        rw [length_chain hclimb]
        exact Nat.lt_succ_self steps
    _ ≤ tree.nodes.keys.length := ((nodup_chain hclimb hfirst).subperm hkeys).length_le
    _ = tree.size := Std.ExtTreeMap.length_keys

/-- The bounded walk finds exactly the ids on the chain of parents. -/
theorem isAncestor_iff {tree : Tree} {ancestor id : NodeId} :
    tree.isAncestor ancestor id = true ↔
      Relation.TransGen (IsParent tree.nodes) ancestor id := by
  rw [isAncestor, inChain_iff, transGen_isParent_iff]
  constructor
  · rintro ⟨i, -, hclimb⟩
    exact ⟨i, hclimb⟩
  · intro hreach
    classical
    refine ⟨Nat.find hreach, ?_, Nat.find_spec hreach⟩
    exact climb_le_size (Nat.find_spec hreach) fun i hi => Nat.find_min hreach hi

end Tree

/-! ## Chains without circles -/

variable {nodes nodes' : Nodes}

/-- Taking parents away makes no circle. -/
theorem wellFounded_of_subset (hwf : WellFounded (IsParent nodes))
    (h : ∀ parent id, IsParent nodes' parent id → IsParent nodes parent id) :
    WellFounded (IsParent nodes') :=
  Subrelation.wf (h _ _) hwf

/-- No id is above itself. -/
theorem not_transGen_self (hwf : WellFounded (IsParent nodes)) (id : NodeId) :
    ¬ Relation.TransGen (IsParent nodes) id id :=
  fun h => hwf.transGen.asymmetric id id h h

open Classical in
/-- How many nodes are above an id. -/
noncomputable def depth (nodes : Nodes) (id : NodeId) : Nat :=
  {above ∈ nodes.keys.toFinset | Relation.TransGen (IsParent nodes) above id}.card

/-- A node that is not above itself has fewer nodes above it than those that name it. -/
theorem depth_lt {parent id : NodeId} {node : Node} (hget : nodes[parent]? = some node)
    (hself : ¬ Relation.TransGen (IsParent nodes) parent parent)
    (hparent : IsParent nodes parent id) : depth nodes parent < depth nodes id := by
  classical
  refine Finset.card_lt_card (Finset.ssubset_iff_of_subset ?_ |>.2 ⟨parent, ?_, ?_⟩)
  · intro above habove
    rw [Finset.mem_filter] at habove ⊢
    exact ⟨habove.1, habove.2.tail hparent⟩
  · -- The parent itself makes the difference.
    rw [Finset.mem_filter]
    exact ⟨List.mem_toFinset.2 (mem_keys_of_eq_some hget), .single hparent⟩
  · rw [Finset.mem_filter]
    exact fun hmem => hself hmem.2

/-- Chains of parents end if no id is above itself, for there are only so many nodes. -/
theorem wellFounded_of_irreflexive (h : ∀ id, ¬ Relation.TransGen (IsParent nodes) id id) :
    WellFounded (IsParent nodes) := by
  refine ⟨fun id => ?_⟩
  induction hdepth : depth nodes id using Nat.strong_induction_on generalizing id with
  | _ n ih =>
    refine ⟨_, fun parent hparent => ?_⟩
    cases hget : nodes[parent]? with
    | some node =>
      exact ih _ (hdepth ▸ depth_lt hget (h parent) hparent) parent rfl
    | none =>
      -- The chain ends at an id that is not there.
      refine ⟨_, fun above habove => ?_⟩
      obtain ⟨node, hnode, -⟩ := habove
      rw [hget] at hnode
      cases hnode

/-- One node may get new parents if these are not the node itself or below it. -/
theorem wellFounded_of_reparent (id : NodeId) (hwf : WellFounded (IsParent nodes))
    (hother : ∀ parent other, other ≠ id → IsParent nodes' parent other →
      IsParent nodes parent other)
    (hnew : ∀ parent, IsParent nodes' parent id →
      ¬ Relation.ReflTransGen (IsParent nodes) id parent) :
    WellFounded (IsParent nodes') := by
  -- The chain of an id that is not below the node has not changed.
  have hapart : ∀ other, ¬ Relation.ReflTransGen (IsParent nodes) id other →
      Acc (IsParent nodes') other := by
    intro other
    induction other using hwf.induction with
    | _ other ih =>
      intro hnot
      have hne : other ≠ id := fun heq => hnot (heq ▸ .refl)
      refine ⟨_, fun parent hparent => ?_⟩
      have hold := hother parent other hne hparent
      exact ih parent hold fun hbelow => hnot (hbelow.tail hold)
  have hself : Acc (IsParent nodes') id :=
    ⟨_, fun parent hparent => hapart parent (hnew parent hparent)⟩
  refine ⟨fun other => ?_⟩
  -- Any other chain is as it was until it comes to the node.
  induction other using hwf.induction with
  | _ other ih =>
    by_cases heq : other = id
    · exact heq ▸ hself
    · exact ⟨_, fun parent hparent => ih parent (hother parent other heq hparent)⟩

end MailTemplate
