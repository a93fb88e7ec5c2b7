import MailTemplate.Tree.Edit

/-!
# Looking Up Nodes

What is found at an id after each change of a map of nodes. Later proofs use these lemmas and never
open the map.

* `getElem?_insert_eq`, `getElem?_erase_eq` and `getElem?_modify_eq` say it for a map by ids.
* `nodes_modifyChildren` and `nodes_writeColumnCount` reduce the changes of a tree to those.
-/

namespace MailTemplate

section Map

variable {α : Type} (map : Std.ExtTreeMap NodeId α) (key id : NodeId)

theorem getElem?_insert_eq (a : α) :
    (map.insert key a)[id]? = if id = key then some a else map[id]? := by
  rw [Std.ExtTreeMap.getElem?_insert]
  by_cases h : id = key
  · rw [if_pos h, if_pos (Std.LawfulEqCmp.compare_eq_iff_eq.2 h.symm)]
  · rw [if_neg h, if_neg fun hc => h (Std.LawfulEqCmp.compare_eq_iff_eq.1 hc).symm]

theorem getElem?_erase_eq :
    (map.erase key)[id]? = if id = key then none else map[id]? := by
  rw [Std.ExtTreeMap.getElem?_erase]
  by_cases h : id = key
  · rw [if_pos h, if_pos (Std.LawfulEqCmp.compare_eq_iff_eq.2 h.symm)]
  · rw [if_neg h, if_neg fun hc => h (Std.LawfulEqCmp.compare_eq_iff_eq.1 hc).symm]

theorem getElem?_modify_eq (change : α → α) :
    (map.modify key change)[id]? = if id = key then map[id]?.map change else map[id]? := by
  rw [Std.ExtTreeMap.getElem?_modify]
  by_cases h : id = key
  · subst h
    rw [if_pos rfl, if_pos (Std.LawfulEqCmp.compare_eq_iff_eq.2 rfl)]
  · rw [if_neg h, if_neg fun hc => h (Std.LawfulEqCmp.compare_eq_iff_eq.1 hc).symm]

/-- A change at an id is one of all values that leaves the others as they are. -/
theorem getElem?_modify_eq_map (change : α → α) :
    (map.modify key change)[id]? =
      map[id]?.map fun a => if id = key then change a else a := by
  rw [getElem?_modify_eq]
  split
  · rfl
  · exact Option.map_id'.symm

/-- A value that has just been put in may as well be changed before. -/
theorem modify_insert_self (a : α) (change : α → α) :
    (map.insert key a).modify key change = map.insert key (change a) := by
  refine Std.ExtTreeMap.ext_getElem? fun k => ?_
  rw [getElem?_modify_eq, getElem?_insert_eq, getElem?_insert_eq]
  split <;> rfl

variable {map key id}

theorem getElem?_empty_ne_some {a : α} : (∅ : Std.ExtTreeMap NodeId α)[id]? ≠ some a := by
  rw [Std.ExtTreeMap.getElem?_empty]
  exact fun h => nomatch h

/-- A free id is not one at which something is found. -/
theorem ne_of_free {a : α} (hget : map[id]? = some a) (hfree : map[key]? = none) : id ≠ key := by
  rintro rfl
  rw [hget] at hfree
  cases hfree

theorem getElem?_insert_of_ne (a : α) (hne : id ≠ key) : (map.insert key a)[id]? = map[id]? := by
  rw [getElem?_insert_eq, if_neg hne]

theorem getElem?_erase_of_ne (hne : id ≠ key) : (map.erase key)[id]? = map[id]? := by
  rw [getElem?_erase_eq, if_neg hne]

/-- What is found after an erasure was there before, at another id. -/
theorem getElem?_erase_eq_some_iff {a : α} :
    (map.erase key)[id]? = some a ↔ id ≠ key ∧ map[id]? = some a := by
  rw [getElem?_erase_eq]
  by_cases h : id = key <;> simp [h]

/-- Putting a value back where it was erased restores the map. -/
theorem insert_erase_self {a : α} (h : map[key]? = some a) :
    (map.erase key).insert key a = map := by
  refine Std.ExtTreeMap.ext_getElem? fun k => ?_
  rw [getElem?_insert_eq]
  by_cases hk : k = key
  · rw [if_pos hk, hk, h]
  · rw [if_neg hk, getElem?_erase_of_ne hk]

/-- Changes at different ids may be swapped. -/
theorem modify_modify_comm {key' : NodeId} (hne : key ≠ key') (f g : α → α) :
    (map.modify key f).modify key' g = (map.modify key' g).modify key f := by
  refine Std.ExtTreeMap.ext_getElem? fun k => ?_
  simp only [getElem?_modify_eq]
  by_cases hk : k = key
  · have hk' : k ≠ key' := fun heq => hne (hk.symm.trans heq)
    simp only [if_pos hk, if_neg hk']
  · simp only [if_neg hk]

/-- The entries of a map are its ids with what is found there. -/
theorem mem_toList_iff {a : α} : (id, a) ∈ map.toList ↔ map[id]? = some a :=
  Std.ExtTreeMap.mem_toList_iff_getElem?_eq_some

/-- No id has two entries. -/
theorem nodup_ids : (map.toList.map Prod.fst).Nodup := by
  rw [Std.ExtTreeMap.map_fst_toList_eq_keys]
  exact Std.ExtTreeMap.nodup_keys

/-- A map is that of its entries. -/
theorem ofList_toList : Std.ExtTreeMap.ofList map.toList compare = map := by
  refine Std.ExtTreeMap.ext_getElem? fun k => ?_
  cases hget : map[k]? with
  | none =>
    refine Std.ExtTreeMap.getElem?_ofList_of_contains_eq_false ?_
    rw [List.contains_eq_mem, decide_eq_false_iff_not]
    intro hmem
    obtain ⟨⟨_, a⟩, hentry, rfl⟩ := List.mem_map.1 hmem
    rw [mem_toList_iff.1 hentry] at hget
    cases hget
  | some a =>
    exact Std.ExtTreeMap.getElem?_ofList_of_mem Std.ReflCmp.compare_self
      map.distinct_keys_toList (mem_toList_iff.2 hget)

theorem values_eq_map_toList : map.values = map.toList.map Prod.snd := by
  have hfold : map.values = map.foldr (fun _ a values => a :: values) [] := by
    obtain ⟨⟨inner⟩⟩ := map
    induction inner using Quotient.inductionOn
    rfl
  rw [hfold, Std.ExtTreeMap.foldr_eq_foldr_toList, List.map_eq_foldr]

theorem mem_keys_of_eq_some {a : α} (h : map[id]? = some a) : id ∈ map.keys := by
  rw [Std.ExtTreeMap.mem_keys, Std.ExtTreeMap.mem_iff_isSome_getElem?, h]
  rfl

end Map

namespace Tree

variable (tree : Tree) (id : NodeId)

theorem contains_eq_isSome : tree.contains id = (tree.nodes[id]?).isSome :=
  Std.ExtTreeMap.contains_eq_isSome_getElem?

@[simp]
theorem nodes_insert (node : Node) : (tree.insert id node).nodes = tree.nodes.insert id node := rfl

@[simp]
theorem nodes_modify (change : Node → Node) :
    (tree.modify id change).nodes = tree.nodes.modify id change := rfl

@[simp]
theorem nodes_modifyChildren (change : List NodeId → List NodeId) :
    (tree.modifyChildren id change).nodes =
      tree.nodes.modify id fun node => { node with children := node.children.map change } := rfl

@[simp]
theorem nodes_writeColumnCount (count : Nat) :
    (tree.writeColumnCount id count).nodes = tree.nodes.modify id (recordCount count) := rfl

@[simp]
theorem nextNumber_insert (node : Node) : (tree.insert id node).nextNumber = tree.nextNumber := rfl

@[simp]
theorem nextNumber_modify (change : Node → Node) :
    (tree.modify id change).nextNumber = tree.nextNumber := rfl

@[simp]
theorem nextNumber_modifyChildren (change : List NodeId → List NodeId) :
    (tree.modifyChildren id change).nextNumber = tree.nextNumber := rfl

@[simp]
theorem nextNumber_writeColumnCount (count : Nat) :
    (tree.writeColumnCount id count).nextNumber = tree.nextNumber := rfl

variable {tree id}

theorem childrenOf_eq {node : Node} (h : tree.nodes[id]? = some node) :
    tree.childrenOf id = node.childList := by
  have hget : tree.get? id = some node := h
  rw [childrenOf, hget]

/-- A tree has a node of an id just if one is found there. -/
theorem contains_iff_exists : tree.contains id = true ↔ ∃ node, tree.nodes[id]? = some node := by
  rw [contains_eq_isSome, Option.isSome_iff_exists]

theorem contains_eq_false_iff : tree.contains id = false ↔ tree.nodes[id]? = none := by
  rw [contains_eq_isSome, Option.isSome_eq_false_iff, Option.isNone_iff_eq_none]

@[ext]
theorem ext_getElem? {a b : Tree} (hnodes : ∀ id : NodeId, a.nodes[id]? = b.nodes[id]?)
    (hnumber : a.nextNumber = b.nextNumber) : a = b := by
  obtain ⟨nodes, number⟩ := a
  obtain ⟨nodes', number'⟩ := b
  obtain rfl : nodes = nodes' := Std.ExtTreeMap.ext_getElem? hnodes
  obtain rfl : number = number' := hnumber
  rfl

/-! ## Taking nodes out one by one -/

theorem eraseAll_of_none {nodes : Nodes} {id : NodeId} (h : nodes[id]? = none)
    (stack : List NodeId) : eraseAll nodes (id :: stack) = eraseAll nodes stack := by
  rw [eraseAll]
  split
  · rfl
  · rename_i node hget
    rw [h] at hget
    cases hget

theorem eraseAll_of_some {nodes : Nodes} {id : NodeId} {node : Node} (h : nodes[id]? = some node)
    (stack : List NodeId) :
    eraseAll nodes (id :: stack) = eraseAll (nodes.erase id) (node.childList ++ stack) := by
  rw [eraseAll]
  split
  · rename_i hget
    rw [h] at hget
    cases hget
  · rename_i node' hget
    rw [h] at hget
    cases hget
    rfl

end Tree

end MailTemplate
