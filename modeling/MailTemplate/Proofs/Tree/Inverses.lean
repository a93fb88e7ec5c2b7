import MailTemplate.Proofs.Tree.Moving

/-!
# Undoing Moves

In a sound tree a component that has been moved can be moved back, and a child that has been given
another place can be given its old one. Both restore the tree. Within one list of children the two
ways to move a component are the same.

* `Tree.relocate_relocate` says that of two moves of a component only the last counts.
* `Tree.relocate_within` says what a move within one list is.
* `Tree.rearrangements_undone` puts it together.
-/

namespace MailTemplate

namespace Tree

/-! ## Entries taken out and put in -/

section Entries

variable {α : Type} {list : List α} {source place : Nat} {a : α}

/-- Putting an entry back where it was taken out restores the list. -/
theorem insertAt_eraseIdx (h : list[place]? = some a) :
    insertAt (list.eraseIdx place) place a = list := by
  obtain ⟨hlt, rfl⟩ := List.getElem?_eq_some_iff.1 h
  rw [insertAt_eq_insertIdx, List.length_eraseIdx_of_lt hlt,
    Nat.min_eq_left (Nat.le_sub_one_of_lt hlt), List.insertIdx_eraseIdx_getElem hlt]

/-- Taking an entry out where it was put in restores the list. -/
theorem eraseIdx_insertAt (hle : place ≤ list.length) :
    (insertAt list place a).eraseIdx place = list := by
  rw [insertAt_eq_insertIdx, Nat.min_eq_left hle, List.eraseIdx_insertIdx_self]

theorem getElem?_insertAt_self (hle : place ≤ list.length) :
    (insertAt list place a)[place]? = some a := by
  rw [insertAt_eq_insertIdx, Nat.min_eq_left hle, List.getElem?_insertIdx_self, if_pos hle]

theorem moveEntry_of_getElem? (h : list[source]? = some a) (target : Nat) :
    moveEntry list source target = insertAt (list.eraseIdx source) target a := by
  rw [moveEntry, h]

theorem moveEntry_self (list : List α) (place : Nat) : moveEntry list place place = list := by
  rw [moveEntry]
  split
  case h_1 a ha => exact insertAt_eraseIdx ha
  case h_2 => rfl

/-- An entry that is moved back takes its old place. -/
theorem moveEntry_moveEntry (hsource : source < list.length) (hplace : place < list.length) :
    moveEntry (moveEntry list source place) place source = list := by
  have ha : list[source]? = some list[source] := List.getElem?_eq_getElem hsource
  -- The list is one entry shorter in between, and the place is at its end at the latest.
  have hle : place ≤ (list.eraseIdx source).length := by
    rw [List.length_eraseIdx_of_lt hsource]
    exact Nat.le_sub_one_of_lt hplace
  rw [moveEntry_of_getElem? ha, moveEntry_of_getElem? (getElem?_insertAt_self hle),
    eraseIdx_insertAt hle, insertAt_eraseIdx ha]

end Entries

section Ids

variable {list : List NodeId} {id old mid target other : NodeId} {index index' : Option Nat}
  {source : Nat}

theorem without_eq_eraseIdx (hnodup : list.Nodup) (h : list[source]? = some id) :
    without id list = list.eraseIdx source := by
  obtain ⟨hlt, rfl⟩ := List.getElem?_eq_some_iff.1 h
  rw [without_eq_erase _ hnodup, hnodup.erase_getElem]

theorem not_mem_without (id : NodeId) (list : List NodeId) : id ∉ without id list := by
  simp [without]

theorem without_insertAt (h : id ∉ list) (position : Nat) :
    without id (insertAt list position id) = list := by
  rw [without, insertAt, List.filter_append, List.filter_cons_of_neg (by simp),
    ← List.filter_append, List.take_append_drop]
  exact without_of_not_mem h

/-- What is put on a list in between is taken off again. -/
theorem relisted_relisted (h : other = mid → old ≠ mid → id ∉ list) :
    relisted id mid target index' other (relisted id old mid index other list) =
      relisted id old target index' other list := by
  have hkept : delisted id mid other (relisted id old mid index other list) =
      delisted id old other list := by
    -- Only the list in between has got the id, and it is taken off that one.
    by_cases hmid : other = mid
    · subst hmid
      rw [relisted_target (h rfl), delisted, if_pos rfl, without_insertAt (not_mem_without _ _),
        delisted_eq_without (h rfl)]
    · rw [relisted_eq_delisted hmid]
      exact if_neg hmid
  rw [relisted, hkept]
  rfl

/-- Within one list an entry is taken out and put in again. -/
theorem relisted_within (hnodup : list.Nodup) (hsource : list[source]? = some id) (place : Nat) :
    relisted id old old (some place) old list = moveEntry list source place := by
  rw [relisted_target fun hne => absurd rfl hne, without_eq_eraseIdx hnodup hsource,
    moveEntry_of_getElem? hsource, Option.getD_some]

end Ids

/-! ## Trees moved about -/

variable {tree next : Tree} {id old mid target parent : NodeId} {node lister : Node}
  {index : Option Nat} {source place : Nat}

/-- Of two moves of a component only the last counts. -/
theorem relocate_relocate (hmid : ∀ {n}, tree.nodes[mid]? = some n → old ≠ mid → id ∉ n.childList)
    (index index' : Option Nat) :
    (tree.relocate id old mid index).relocate id mid target index' =
      tree.relocate id old target index' := by
  refine ext_getElem? (fun other => ?_) rfl
  rw [getElem?_relocate, getElem?_relocate, getElem?_relocate, Option.map_map]
  cases hget : tree.nodes[other]? with
  | none => rfl
  | some n =>
    have hchildren : (n.children.map (relisted id old mid index other)).map
        (relisted id mid target index' other) =
          n.children.map (relisted id old target index' other) := by
      rw [Option.map_map]
      refine Option.map_congr fun list hlist => relisted_relisted fun heq hne => ?_
      rw [← Node.childList_eq hlist]
      exact hmid (heq ▸ hget) hne
    simp only [Option.map_some, Function.comp_apply, hchildren]
    split <;> rfl

/-- A move within one list of children gives the component another place there. -/
theorem relocate_within (hget : tree.nodes[id]? = some node) (hparent : node.parent = some old)
    (hlister : tree.nodes[old]? = some lister) (hnodup : lister.childList.Nodup)
    (hsource : lister.childList[source]? = some id) (place : Nat) :
    tree.relocate id old old (some place) = tree.modifyChildren old (moveEntry · source place) := by
  refine ext_getElem? (fun other => ?_) rfl
  rw [getElem?_relocate, nodes_modifyChildren, getElem?_modify_eq_map]
  cases hsome : tree.nodes[other]? with
  | none => rfl
  | some n =>
    -- The component names the parent already, so only the list is another one.
    have hnames : (if other = id then some old else n.parent) = n.parent := by
      split
      case isTrue heq =>
        rw [heq, hget] at hsome
        cases hsome
        exact hparent.symm
      case isFalse => rfl
    rw [Option.map_some, Option.map_some, hnames]
    by_cases hold : other = old
    · subst hold
      cases hlister.symm.trans hsome
      have hmove : lister.children.map (relisted id other other (some place) other) =
          lister.children.map (moveEntry · source place) := by
        refine Option.map_congr fun list hlist => ?_
        rw [Node.childList_eq hlist] at hnodup hsource
        exact relisted_within hnodup hsource place
      rw [hmove, if_pos rfl]
    · rw [funext (relisted_of_ne hold hold), Option.map_id', if_neg hold]

/-- A change of a list of children that leaves it as it is changes nothing. -/
theorem modifyChildren_eq_self {change : List NodeId → List NodeId}
    (h : ∀ list, change list = list) : tree.modifyChildren id change = tree := by
  refine ext_getElem? (fun other => ?_) rfl
  rw [nodes_modifyChildren, getElem?_modify_eq_map, funext h]
  simp

/-- A move gives only the component another parent, so what hangs from it then has hung from it
before. -/
theorem reflTransGen_of_relocate {below : NodeId}
    (h : Relation.ReflTransGen (IsParent (tree.relocate id old target index).nodes) id below) :
    Relation.ReflTransGen (IsParent tree.nodes) id below := by
  induction h with
  | refl => exact .refl
  | @tail above below _ hparent ih =>
    by_cases heq : below = id
    · exact heq ▸ .refl
    · refine ih.tail ?_
      obtain ⟨n, hn, hnames⟩ := hparent
      rw [getElem?_relocate, Option.map_eq_some_iff] at hn
      obtain ⟨before, hbefore, rfl⟩ := hn
      exact ⟨before, hbefore, (if_neg heq).symm.trans hnames⟩

/-! ## Undoing -/

/-- The listed children of an id are those of a node that is there. -/
theorem exists_lister (h : (tree.childrenOf parent)[place]? = some id) :
    ∃ lister, tree.nodes[parent]? = some lister ∧ lister.childList[place]? = some id := by
  cases hlister : tree.nodes[parent]? with
  | some lister =>
    rw [childrenOf_eq hlister] at h
    exact ⟨lister, rfl, h⟩
  | none =>
    rw [childrenOf, get?, hlister] at h
    cases h

namespace Sound

/-- A component that has been moved can be moved back, to where it was. -/
theorem moveComponent_back (h : tree.Sound) (hplace : (tree.childrenOf parent)[place]? = some id)
    (hok : tree.moveComponent id target index = .ok next) :
    next.moveComponent id parent (some place) = .ok tree := by
  have hforest := SoundBut.forest h
  have hnext := h.moveComponent hok
  obtain ⟨lister, hlister, hplace⟩ := exists_lister hplace
  have hmem := List.mem_of_getElem? hplace
  obtain ⟨node, hget, hparent, haccepts⟩ := hforest.child hlister hmem
  obtain ⟨hcolumn, ⟨holder, hholder, -⟩, hcycle, rfl⟩ := (h.moveComponent_iff hget hparent).1 hok
  have htarget : id ≠ target := by
    rintro rfl
    exact hcycle .refl
  have hmoved : (tree.relocate id parent target index).nodes[id]? =
      some { node with parent := some target } :=
    getElem?_relocate_self hget (hforest.ne_parent hget hparent) htarget
  obtain ⟨lister', hlister', hkind⟩ := getElem?_relocate_of_some hlister
  rw [hnext.moveComponent_iff hmoved rfl]
  refine ⟨hcolumn, ⟨lister', hlister', hkind ▸ haccepts⟩, fun hbelow => ?_, ?_⟩
  · -- The old parent does not hang from its child, and the move has put nothing else below that.
    exact SoundBut.not_reflTransGen_child h hlister hmem (reflTransGen_of_relocate hbelow)
  · -- The second move undoes the first, and puts the component where it was to begin with.
    have hfree : ∀ {n}, tree.nodes[target]? = some n → parent ≠ target → id ∉ n.childList :=
      fun hn hapart hlisted => hapart (hforest.lister_unique hlister hn hmem hlisted)
    rw [relocate_relocate hfree, relocate_within hget hparent hlister
      (hforest.nodup_childList hlister) hplace, modifyChildren_eq_self (moveEntry_self · place)]

/-- A child other than a column may be given any place among the children, and that is a move to its
own parent. -/
theorem moveComponent_within (h : tree.Sound)
    (hsource : (tree.childrenOf parent)[source]? = some id) (hget : tree.nodes[id]? = some node)
    (hcolumn : node.kind ≠ .column) (hplace : place < (tree.childrenOf parent).length) :
    ∃ next, tree.moveComponent id parent (some place) = .ok next ∧
      tree.reorderComponents parent source place = .ok next := by
  have hforest := SoundBut.forest h
  obtain ⟨lister, hlister, hsource⟩ := exists_lister hsource
  have hmem := List.mem_of_getElem? hsource
  obtain ⟨child, hchild, hparent, haccepts⟩ := hforest.child hlister hmem
  cases hget.symm.trans hchild
  rw [childrenOf_eq hlister] at hplace
  refine ⟨tree.modifyChildren parent (moveEntry · source place),
    (h.moveComponent_iff hget hparent).2 ⟨hcolumn, ⟨lister, hlister, haccepts⟩, ?_, ?_⟩,
    reorderComponents_eq_ok_iff.2 ⟨lister, hlister, ?_, hplace, rfl⟩⟩
  · exact SoundBut.not_reflTransGen_child h hlister hmem
  · exact relocate_within hget hparent hlister (hforest.nodup_childList hlister) hsource place
  · exact (List.getElem?_eq_some_iff.1 hsource).1

end Sound

/-- A child that has been given another place can be given its old one, in any tree. -/
theorem reorderComponents_back (hsource : source < (tree.childrenOf parent).length)
    (hplace : place < (tree.childrenOf parent).length) :
    ∃ next, tree.reorderComponents parent source place = .ok next ∧
      next.reorderComponents parent place source = .ok tree := by
  obtain ⟨lister, hlister, -⟩ := exists_lister (List.getElem?_eq_getElem hsource)
  rw [childrenOf_eq hlister] at hsource hplace
  have hcontainer := Node.isSome_children_of_mem (List.getElem_mem hsource)
  have hlength : (moveEntry lister.childList source place).length = lister.childList.length :=
    (moveEntry_perm _ _ _).length_eq
  have hnodes := nodes_modifyChildren_of_some hlister hcontainer (moveEntry · source place)
  have hafter : (tree.modifyChildren parent (moveEntry · source place)).nodes[parent]? =
      some { lister with children := some (moveEntry lister.childList source place) } := by
    rw [hnodes, Std.ExtTreeMap.getElem?_insert_self]
  refine ⟨_, reorderComponents_eq_ok_iff.2 ⟨lister, hlister, hsource, hplace, rfl⟩,
    reorderComponents_eq_ok_iff.2 ⟨_, hafter, hlength ▸ hplace, hlength ▸ hsource, ?_⟩⟩
  have hrestored : some (moveEntry (moveEntry lister.childList source place) place source) =
      lister.children := by
    rw [moveEntry_moveEntry hsource hplace, Node.children_eq_some hcontainer]
  refine ext_getElem? (fun other => ?_) rfl
  rw [nodes_modifyChildren, hnodes, modify_insert_self, Option.map_some, hrestored,
    insert_eq_self hlister]

/-! ## All of it -/

/-- In a tree without violations, a component that was moved can be moved back and a child that was
given another place can be given its old one, and both restore the tree. To give a child another
place is to move it within its parent. -/
theorem rearrangements_undone (h : tree.violations = []) :
    (∀ {parent id target : NodeId} {place : Nat} {index : Option Nat} {next : Tree},
      (tree.childrenOf parent)[place]? = some id → tree.moveComponent id target index = .ok next →
        next.moveComponent id parent (some place) = .ok tree) ∧
    (∀ {parent : NodeId} {source place : Nat}, source < (tree.childrenOf parent).length →
      place < (tree.childrenOf parent).length →
        ∃ next, tree.reorderComponents parent source place = .ok next ∧
          next.reorderComponents parent place source = .ok tree) ∧
    ∀ {parent id : NodeId} {node : Node} {source place : Nat},
      (tree.childrenOf parent)[source]? = some id → tree.get? id = some node →
        node.kind ≠ .column → place < (tree.childrenOf parent).length →
          ∃ next, tree.moveComponent id parent (some place) = .ok next ∧
            tree.reorderComponents parent source place = .ok next := by
  have hsound := violations_eq_nil_iff_sound.1 h
  exact ⟨hsound.moveComponent_back, reorderComponents_back, hsound.moveComponent_within⟩

/-- A text is moved from the last column of a row into the first one and back, and a row behind the
text that follows it. -/
theorem rearrangements_undone_nestedRows :
    nestedRows.violations = [] ∧
      (∃ next, nestedRows.moveComponent "note" "left" (some 0) = .ok next ∧
        next.moveComponent "note" "inner-left" (some 0) = .ok nestedRows) ∧
      (∃ next, nestedRows.reorderComponents "row" 0 2 = .ok next ∧
        next.reorderComponents "row" 2 0 = .ok nestedRows) ∧
      ∃ next, nestedRows.moveComponent "row" rootId (some 1) = .ok next ∧
        nestedRows.reorderComponents rootId 0 1 = .ok next := by
  obtain ⟨hback, hreordered, hwithin⟩ := rearrangements_undone violations_nestedRows
  obtain ⟨next, hok⟩ : ∃ next, nestedRows.moveComponent "note" "left" (some 0) = .ok next :=
    isOk_iff_exists.1 (by decide +kernel)
  have hrow : nestedRows.get? "row" =
      some ⟨some rootId, .columns { columns := 3 }, some ["left", "middle", "right"]⟩ := by
    decide +kernel
  exact ⟨violations_nestedRows, ⟨next, hok, hback (by decide +kernel) hok⟩,
    hreordered (by decide +kernel) (by decide +kernel),
    hwithin (by decide +kernel) hrow (by decide) (by decide +kernel)⟩

end Tree

end MailTemplate
