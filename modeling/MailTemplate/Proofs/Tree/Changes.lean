import MailTemplate.Proofs.Tree.Editing
import MailTemplate.Proofs.Tree.Making

/-!
# What an Edit Is Made Of

An edit puts new nodes at new ids, changes nodes where they are, and takes nodes out; no edit makes
an id and takes nodes out as well.

* `Changes` says that a tree comes from another by such small changes, with the ids that are made on
  the way. What holds of every edit is proved by induction on it.
-/

namespace MailTemplate

namespace Tree

/-! ## Small changes -/

/-- A tree comes from another by small changes, with the ids that are made in order. -/
inductive Changes (tree : Tree) : List Making → Tree → Prop
  /-- Nothing is changed. -/
  | refl : Changes tree [] tree
  /-- A node with the defaults of its kind is put at a new id. -/
  | make {made : List Making} {next minted : Tree} {kind : Kind} {id : NodeId}
      (parent : Option NodeId) (hmint : next.mint kind = some (id, minted))
      (h : Changes tree made next) :
      Changes tree (made ++ [⟨next, kind⟩]) (minted.insert id (.fresh parent kind.defaults))
  /-- A node keeps its kind, and a record in range stays in range. -/
  | modify {made : List Making} {next : Tree} (id : NodeId) {change : Node → Node}
      (hchange : ∀ node, next.nodes[id]? = some node → (change node).kind = node.kind ∧
        (node.properties.InRange → (change node).properties.InRange))
      (h : Changes tree made next) : Changes tree made (next.modify id change)
  /-- A node is taken out with all that hangs from it. -/
  | erase {next : Tree} (id : NodeId) (h : Changes tree [] next) :
      Changes tree [] (next.eraseSubtree id)

variable {start tree next : Tree} {made : List Making} {id parent row : NodeId} {kind : Kind}

namespace Changes

theorem modifyChildren (id : NodeId) (change : List NodeId → List NodeId)
    (h : Changes start made tree) : Changes start made (tree.modifyChildren id change) :=
  h.modify id fun _ _ => ⟨rfl, fun hrange => hrange⟩

theorem writeColumnCount (id : NodeId) (count : Nat) (h : Changes start made tree) :
    Changes start made (tree.writeColumnCount id count) := by
  refine h.modify id fun node _ => ⟨kind_recordCount count node, fun hrange => ?_⟩
  unfold recordCount
  split
  · rfl
  · exact hrange

theorem appendColumns {count : Nat} (h : Changes start made tree)
    (hok : tree.appendColumns row count = some next) :
    Changes start (made ++ tree.growth row count) next := by
  induction count generalizing made tree with
  | zero =>
    cases hok
    rw [growth, List.append_nil]
    exact h
  | succ count ih =>
    obtain ⟨first, hfirst, hlater⟩ := appendColumns_succ_eq_some_iff.1 hok
    have hone : Changes start (made ++ [⟨tree, .column⟩]) first := by
      obtain ⟨id, minted, hmint, rfl⟩ := appendColumn_eq_some_iff.1 hfirst
      exact (h.make (some row) hmint).modifyChildren row _
    rw [growth_succ hfirst, List.append_cons]
    exact ih hone hlater

theorem foldl_eraseSubtree (ids : List NodeId) (h : Changes start [] tree) :
    Changes start [] (ids.foldl eraseSubtree tree) := by
  induction ids generalizing tree with
  | nil => exact h
  | cons id ids ih => exact ih (h.erase id)

end Changes

/-! ## Edits -/

theorem changes_plant (hok : tree.plant kind parent = some (next, id)) :
    Changes tree (tree.planting kind parent) next := by
  by_cases hkind : kind = .columns
  · subst hkind
    obtain ⟨minted, filled, hmint, hfilled, rfl⟩ := plant_columns_eq_some_iff.1 hok
    rw [planting_columns hmint]
    exact ((Changes.refl.make (some parent) hmint).appendColumns hfilled).writeColumnCount _ _
  · obtain ⟨minted, hmint, rfl⟩ := (plant_eq_some_iff_of_ne hkind).1 hok
    rw [planting_of_ne hkind]
    exact Changes.refl.make (some parent) hmint

theorem changes_addComponent {index : Option Nat}
    (hok : tree.addComponent kind parent index = .ok (next, id)) :
    Changes tree (tree.planting kind parent) next := by
  obtain ⟨holder, -, -, -, planted, hplant, hplaced⟩ := addComponent_eq_ok_iff.1 hok
  obtain ⟨-, rfl⟩ := requireChildren_eq_ok_iff.1 hplaced
  exact (changes_plant hplant).modifyChildren _ _

theorem changes_detach (tree : Tree) (id parent : NodeId) (kind : Kind) :
    Changes tree [] (tree.detach id parent kind) := by
  have hlist := (Changes.refl : Changes tree [] tree).modifyChildren parent (without id)
  unfold detach
  split
  · exact hlist.writeColumnCount parent _
  · exact hlist

theorem changes_removeComponent (hok : tree.removeComponent id = .ok next) :
    Changes tree [] next := by
  obtain ⟨node, -, -, hnext⟩ := removeComponent_eq_ok_iff.1 hok
  split at hnext
  · rw [← hnext]
    exact Changes.refl.erase id
  · rw [← hnext.2]
    exact (changes_detach tree id _ _).erase id

theorem Changes.setColumnsCount {count : Nat} (h : Changes start [] tree)
    (hok : tree.setColumnsCount id count = .ok next) :
    Changes start (tree.growth id (clampColumns count - (tree.childrenOf id).length)) next := by
  obtain ⟨node, hget, -, resized, hresized, rfl⟩ := setColumnsCount_eq_ok_iff.1 hok
  rw [childrenOf_eq hget]
  refine Changes.writeColumnCount id _ ?_
  by_cases hlt : node.childList.length < clampColumns count
  case pos =>
    rw [resize_of_lt hlt] at hresized
    exact h.appendColumns hresized
  case neg =>
    -- A row that does not grow makes no ids.
    have hle := Nat.le_of_not_lt hlt
    rw [resize_of_ge hle] at hresized
    cases hresized
    rw [Nat.sub_eq_zero_of_le hle, growth]
    exact (h.modifyChildren id _).foldl_eraseSubtree _

theorem changes_updateComponent {patch : List (String × Json)}
    (hok : tree.updateComponent id patch = .ok next) :
    Changes tree (tree.resizing id patch) next := by
  obtain ⟨node, properties, hget, hpatched, hnext⟩ := updateComponent_eq_ok_iff.1 hok
  obtain ⟨hkind, hrange⟩ := patched_eq_ok hpatched
  have hsame : ∀ other, tree.nodes[id]? = some other → other = node := by
    intro other hother
    rw [hget] at hother
    exact (Option.some.inj hother).symm
  rw [resizing, get?, hget]
  dsimp only
  rw [hpatched]
  split at hnext
  case h_1 row =>
    have hrecord : Changes tree [] (tree.recordRow id row node.childList.length) := by
      refine Changes.refl.modify id fun other hother => ⟨?_, fun _ => rfl⟩
      exact hsame other hother ▸ hkind
    dsimp only
    split at hnext
    case isTrue hcount =>
      rw [if_pos hcount, ← hnext]
      exact hrecord
    case isFalse hcount =>
      have hresized := hrecord.setColumnsCount hnext
      rw [Sound.childrenOf_recordRow hget] at hresized
      rw [if_neg hcount]
      exact hresized
  case h_2 hother =>
    have hpatch : Changes tree [] (tree.modify id fun node => { node with properties }) := by
      refine Changes.refl.modify id fun other hget' => ⟨?_, fun _ => hrange⟩
      exact hsame other hget' ▸ hkind
    rw [← hnext]
    split
    case h_1 row hrow => exact absurd (Except.ok.inj hrow) (hother row)
    case h_2 => exact hpatch

theorem changes_reorderComponents {source target : Nat}
    (hok : tree.reorderComponents parent source target = .ok next) : Changes tree [] next := by
  obtain ⟨node, -, -, -, rfl⟩ := reorderComponents_eq_ok_iff.1 hok
  exact Changes.refl.modifyChildren parent _

theorem changes_moveComponent {target : NodeId} {index : Option Nat}
    (hok : tree.moveComponent id target index = .ok next) : Changes tree [] next := by
  obtain ⟨node, -, -, -, holder, -, -, -, placed, hplaced, rfl⟩ := moveComponent_eq_ok_iff.1 hok
  obtain ⟨-, rfl⟩ := requireChildren_eq_ok_iff.1 hplaced
  have hunlist : Changes tree [] (tree.unlist id node.parent) := by
    unfold unlist
    split
    · exact Changes.refl.modifyChildren _ _
    · exact .refl
  exact (hunlist.modifyChildren target _).modify id fun _ _ => ⟨rfl, fun hrange => hrange⟩

end Tree

end MailTemplate
