import MailTemplate.Proofs.Tree.Applied
import MailTemplate.Proofs.Tree.Minting

/-!
# The Ids That an Edit Makes

`Tree.growth`, `Tree.planting` and `Tree.resizing` list the ids that are made for more columns of a
row, for a new component and for a row that a patch resizes, as far as the edit comes. It comes to
its end just if no making of an id is without end (`Making.Stuck`).
-/

namespace MailTemplate

/-- The making of a new id in a tree, for a component of a kind. -/
structure Making where
  /-- The tree in which the id is made. -/
  tree : Tree
  /-- The kind of the component that the id is for. -/
  kind : Kind

namespace Making

/-- The id that is made, if there is one left. -/
def id? (m : Making) : Option NodeId :=
  (m.tree.mint m.kind).map Prod.fst

/-- No number is left for the id, so that the search for one never ends. -/
def Stuck (m : Making) : Prop :=
  m.tree.Exhausted m.kind

theorem id?_of_mint {tree next : Tree} {kind : Kind} {id : NodeId}
    (h : tree.mint kind = some (id, next)) : id? ⟨tree, kind⟩ = some id :=
  congrArg (Option.map Prod.fst) h

theorem not_stuck_of_mint {tree : Tree} {kind : Kind} {made : NodeId × Tree}
    (h : tree.mint kind = some made) : ¬ Stuck ⟨tree, kind⟩ := by
  intro hstuck
  rw [Tree.mint_eq_none_iff.2 hstuck] at h
  cases h

end Making

namespace Tree

variable {tree : Tree} {kind : Kind} {parent row : NodeId} {count : Nat}

/-- The ids that are made when a row gets some more columns. -/
def growth (tree : Tree) (row : NodeId) : (count : Nat) → List Making
  | 0 => []
  | count + 1 =>
    ⟨tree, .column⟩ ::
      match tree.appendColumn row with
      | some next => next.growth row count
      | none => []

theorem growth_succ {next : Tree} (h : tree.appendColumn row = some next) :
    tree.growth row (count + 1) = ⟨tree, .column⟩ :: next.growth row count := by
  rw [growth, h]

theorem appendColumn_eq_none_iff : tree.appendColumn row = none ↔ tree.Exhausted .column := by
  rw [← mint_eq_none_iff, appendColumn, Option.bind_eq_bind, Option.bind_eq_none_iff]
  constructor
  · intro h
    cases hmint : tree.mint .column with
    | none => rfl
    | some made => cases h made hmint
  · intro hmint made hmade
    rw [hmint] at hmade
    cases hmade

/-- Columns are added to the end unless one of them gets no id. -/
theorem appendColumns_eq_none_iff :
    tree.appendColumns row count = none ↔ ∃ m ∈ tree.growth row count, m.Stuck := by
  induction count generalizing tree with
  | zero => exact iff_of_false (fun h => nomatch h) fun ⟨_, hmem, _⟩ => nomatch hmem
  | succ count ih =>
    rw [appendColumns, growth, List.exists_mem_cons_iff]
    cases hfirst : tree.appendColumn row with
    | none => exact iff_of_true rfl (.inl (appendColumn_eq_none_iff.1 hfirst))
    | some next =>
      obtain ⟨id, minted, hmint, -⟩ := appendColumn_eq_some_iff.1 hfirst
      rw [or_iff_right (Making.not_stuck_of_mint hmint)]
      exact ih

theorem not_stuck_of_appendColumns (h : (tree.appendColumns row count).isSome = true) :
    ∀ m ∈ tree.growth row count, ¬ m.Stuck := by
  intro m hmem hstuck
  rw [appendColumns_eq_none_iff.2 ⟨m, hmem, hstuck⟩] at h
  cases h

/-- The ids that are made for a new component; a row comes with its columns. -/
def planting (tree : Tree) (kind : Kind) (parent : NodeId) : List Making :=
  ⟨tree, kind⟩ ::
    match kind, tree.mint kind with
    | .columns, some (id, minted) => (minted.bareRow id parent).growth id minColumns
    | _, _ => []

theorem planting_columns {minted : Tree} {id : NodeId}
    (h : tree.mint .columns = some (id, minted)) :
    tree.planting .columns parent =
      ⟨tree, .columns⟩ :: (minted.bareRow id parent).growth id minColumns := by
  unfold planting
  rw [h]

theorem planting_of_ne (h : kind ≠ .columns) : tree.planting kind parent = [⟨tree, kind⟩] := by
  cases kind <;> first | exact absurd rfl h | rfl

/-- A component is made unless it gets no id, or a column that it comes with gets none. -/
theorem plant_eq_none_iff :
    tree.plant kind parent = none ↔ ∃ m ∈ tree.planting kind parent, m.Stuck := by
  cases hmint : tree.mint kind with
  | none =>
    refine iff_of_true ?_ ⟨_, List.mem_cons_self, mint_eq_none_iff.1 hmint⟩
    rw [plant, hmint]
    rfl
  | some made =>
    obtain ⟨id, minted⟩ := made
    have hends : ¬ Making.Stuck ⟨tree, kind⟩ := Making.not_stuck_of_mint hmint
    by_cases hkind : kind = .columns
    · -- The row itself has got its id, so all depends on the columns.
      subst hkind
      rw [planting_columns hmint, List.exists_mem_cons_iff, or_iff_right hends,
        ← appendColumns_eq_none_iff]
      refine eq_none_iff_of_exists_iff ?_
      constructor
      · rintro ⟨⟨planted, made⟩, hplant⟩
        obtain ⟨minted', filled, hmint', hfilled, -⟩ := plant_columns_eq_some_iff.1 hplant
        rw [hmint] at hmint'
        cases hmint'
        exact ⟨filled, hfilled⟩
      · rintro ⟨filled, hfilled⟩
        exact ⟨_, plant_columns_eq_some_iff.2 ⟨minted, filled, hmint, hfilled, rfl⟩⟩
    · rw [planting_of_ne hkind, List.exists_mem_cons_iff, or_iff_right hends]
      refine iff_of_false (fun hnone => ?_) fun ⟨_, hmem, _⟩ => nomatch hmem
      have hsome : tree.plant kind parent = some (_, id) :=
        (plant_eq_some_iff_of_ne hkind).2 ⟨minted, hmint, rfl⟩
      rw [hnone] at hsome
      cases hsome

/-- The ids that are made when a patch is laid over a record, which is when a row gets more
columns. -/
def resizing (tree : Tree) (id : NodeId) (patch : List (String × Json)) : List Making :=
  match tree.get? id with
  | none => []
  | some node =>
    let count := node.childList.length
    match patched node.properties patch with
    | .ok (.columns row) =>
      if row.columns.toNat = count then []
      else (tree.recordRow id row count).growth id (clampColumns row.columns.toNat - count)
    | _ => []

theorem resizing_of_ne {id : NodeId} {node : Node} {patch : List (String × Json)} {row : Columns}
    (hget : tree.nodes[id]? = some node)
    (hpatched : patched node.properties patch = .ok (.columns row))
    (hcount : row.columns.toNat ≠ node.childList.length) :
    tree.resizing id patch = (tree.recordRow id row node.childList.length).growth id
      (clampColumns row.columns.toNat - node.childList.length) := by
  rw [resizing, get?, hget]
  dsimp only
  rw [hpatched]
  exact if_neg hcount

/-! ## Edits without end -/

theorem exists_stuck_of_addComponent {index : Option Nat}
    (h : tree.addComponent kind parent index = .error .endless) :
    ∃ m ∈ tree.planting kind parent, m.Stuck := by
  unfold addComponent at h
  simp only [bind_eq_error_iff, guard_eq_error_iff, Unfinished.liftM_refused_ne_endless,
    Unfinished.liftM_endless_eq_endless_iff, reduceCtorEq, and_false, false_or] at h
  -- Once the component is made, the edit comes to its end.
  obtain ⟨-, -, -, -, hplant | ⟨_, -, _, -, hlast⟩⟩ := h
  · exact plant_eq_none_iff.1 hplant
  · cases hlast

theorem exists_stuck_of_setColumnsCount
    (h : tree.setColumnsCount row count = .error .endless) :
    ∃ m ∈ tree.growth row (clampColumns count - (tree.childrenOf row).length), m.Stuck := by
  unfold setColumnsCount at h
  simp only [bind_eq_error_iff, guard_eq_error_iff, Unfinished.liftM_refused_ne_endless,
    Unfinished.liftM_endless_eq_endless_iff, Unfinished.liftM_refused_eq_ok_iff,
    require_eq_ok_iff, reduceCtorEq, and_false, false_or] at h
  obtain ⟨node, hget, -, hresize | ⟨_, -, hlast⟩⟩ := h
  · rw [resize] at hresize
    split at hresize
    · rwa [childrenOf_eq hget, ← appendColumns_eq_none_iff]
    · cases hresize
  · cases hlast

theorem exists_stuck_of_updateComponent {id : NodeId} {patch : List (String × Json)}
    (h : tree.updateComponent id patch = .error .endless) :
    ∃ m ∈ tree.resizing id patch, m.Stuck := by
  unfold updateComponent at h
  simp only [bind_eq_error_iff, Unfinished.liftM_refused_ne_endless,
    Unfinished.liftM_refused_eq_ok_iff, require_eq_ok_iff, false_or] at h
  obtain ⟨node, hget, properties, hpatched, hlast⟩ := h
  split at hlast
  case h_1 row =>
    split at hlast
    case isTrue => cases hlast
    case isFalse hcount =>
      have hrow := getElem?_recordRow hget row node.childList.length
      change (tree.recordRow id row node.childList.length).setColumnsCount id _ = _ at hlast
      have hstuck := exists_stuck_of_setColumnsCount hlast
      rw [childrenOf_eq hrow] at hstuck
      rwa [resizing_of_ne hget hpatched hcount]
  case h_2 => cases hlast

end Tree

end MailTemplate
