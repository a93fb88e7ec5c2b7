import MailTemplate.Proofs.Command.Soundness
import MailTemplate.Proofs.Tree.Descendants
import MailTemplate.Proofs.Tree.Listing

/-!
# When a Command Applies

On a tree without violations it can be told before anything is changed whether a command applies,
and if not, for what reason.

* `Command.check` is what is checked beforehand, and `Command.Applies` says in terms of the tree
  what the checks come to.
* `Command.settles_run` says that nothing can go wrong after the checks, but that a command may
  never end.
* `Command.outcome_execute` puts it together.
-/

namespace MailTemplate

/-! ## What the checks come to -/

namespace Tree

variable {tree : Tree} {id other : NodeId} {node : Node}

/-- A computation reports only nodes as missing that are not there. -/
def ReportsAbsent {α : Type} (tree : Tree) (x : Except EditError α) : Prop :=
  ∀ id, x = .error (.missingNode id) → tree.contains id = false

namespace ReportsAbsent

variable {α β : Type}

theorem pure (a : α) : tree.ReportsAbsent (.ok a) :=
  fun _ h => nomatch h

theorem require_bind {f : Node → Except EditError α} (h : ∀ node, tree.ReportsAbsent (f node)) :
    tree.ReportsAbsent (tree.require id >>= f) := by
  intro other heq
  unfold require get? at heq
  cases hget : tree.nodes[id]? with
  | none =>
    rw [hget] at heq
    cases heq
    exact contains_eq_false_iff.2 hget
  | some node =>
    rw [hget] at heq
    exact h node other heq

theorem guard {c : Prop} [Decidable c] {reason : EditError} {f : β → Except EditError α}
    {x : Except EditError α} (hreason : ∀ id, reason ≠ .missingNode id)
    (h : tree.ReportsAbsent x) : tree.ReportsAbsent (if c then throw reason >>= f else x) := by
  intro other heq
  split at heq
  · exact absurd (Except.error.inj heq) (hreason other)
  · exact h other heq

end ReportsAbsent

theorem isOk_patched (properties : Properties) (patch : List (String × Json)) :
    (patched properties patch).isOk =
      (Properties.decode properties.kind (properties.encode.merge (.object patch))).isOk := by
  unfold patched
  split
  case h_1 hread => rw [hread]; rfl
  case h_2 hread => rw [hread]; rfl

/-- The row of a column has the fewest columns that a row may have, or more. -/
theorem Sound.length_le_iff {parent : NodeId} (h : tree.Sound)
    (hget : tree.nodes[id]? = some node) (hne : id ≠ rootId) (hparent : node.parent = some parent)
    (hkind : node.kind = .column) :
    (tree.childrenOf parent).length ≤ minColumns ↔
      (tree.childrenOf parent).length = minColumns := by
  obtain ⟨_, row, hnames, hrow, -, haccepts⟩ := SoundBut.placed h hget hne
  rw [hparent] at hnames
  cases hnames
  obtain ⟨hmin, -⟩ := (h.fits hrow).length_bounds ((Kind.accepts_column_iff haccepts).2 hkind)
  rw [childrenOf_eq hrow]
  omega

end Tree

namespace Command

/-! ## The checks -/

/-- What is checked of a command before anything is changed: the first reason why it does not
apply. -/
def check (tree : Tree) : Command → Except EditError Unit
  | .addComponent kind parent _ => do
    let node ← tree.require parent
    if kind = .column then throw .columnManaged
    if !node.kind.accepts kind then throw (.illegalChild node.kind kind)
    return ()
  | .removeComponent id => do
    let node ← tree.require id
    if id = rootId then throw .rootRemoved
    match node.parent with
    | none => return ()
    | some parent =>
      if node.kind = .column ∧ (tree.childrenOf parent).length ≤ minColumns then
        throw .tooFewColumns
      return ()
  | .updateComponent id patch => do
    let node ← tree.require id
    let _ ← Tree.patched node.properties patch
    return ()
  | .reorderComponents parent oldIndex newIndex => do
    let length := (← tree.require parent).childList.length
    if length ≤ oldIndex.toNat then throw (.indexOutOfRange oldIndex.toNat length)
    if length ≤ newIndex.toNat then throw (.indexOutOfRange newIndex.toNat length)
    return ()
  | .moveComponent id target _ => do
    let node ← tree.require id
    if id = rootId then throw .rootMoved
    if node.kind = .column then throw .columnManaged
    let holder ← tree.require target
    if !holder.kind.accepts node.kind then throw (.illegalChild holder.kind node.kind)
    if target = id ∨ tree.isAncestor id target then throw (.cycle id target)
    return ()
  | .setColumnsCount id _ => do
    let node ← tree.require id
    if node.kind ≠ .columns then throw (.wrongKind id node.kind .columns)
    return ()

/-- The conditions under which a command applies. -/
def Applies (tree : Tree) : Command → Prop
  | .addComponent kind parent _ =>
    ∃ node, tree.get? parent = some node ∧ kind ≠ .column ∧ node.kind.accepts kind = true
  | .removeComponent id =>
    ∃ node, tree.get? id = some node ∧ id ≠ rootId ∧
      ¬ (node.kind = .column ∧ ∃ parent, node.parent = some parent ∧
        (tree.childrenOf parent).length = minColumns)
  | .updateComponent id patch =>
    ∃ node, tree.get? id = some node ∧
      (Properties.decode node.kind (node.properties.encode.merge (.object patch))).isOk = true
  | .reorderComponents parent oldIndex newIndex =>
    ∃ node, tree.get? parent = some node ∧ oldIndex.toNat < node.childList.length ∧
      newIndex.toNat < node.childList.length
  | .moveComponent id target _ =>
    ∃ node, tree.get? id = some node ∧ id ≠ rootId ∧ node.kind ≠ .column ∧
      ∃ holder, tree.get? target = some holder ∧ holder.kind.accepts node.kind = true ∧
        target ≠ id ∧ target ∉ tree.descendants id
  | .setColumnsCount id _ => ∃ node, tree.get? id = some node ∧ node.kind = .columns

variable {tree : Tree} {command : Command}

/-! ## Nothing goes wrong after the checks -/

/-- What a computation makes of its checks: it gives a result or never ends if they are passed, and
is refused for the reason of the first that fails if not. -/
inductive Settles {α : Type} : Except EditError Unit → Except EditFailure α → Prop
  | done (a : α) : Settles (.ok ()) (.ok a)
  | endless : Settles (.ok ()) (.error .endless)
  | refused (reason : EditError) : Settles (.error reason) (.error (.refused reason))

namespace Settles

variable {α β γ : Type}

/-- A computation that is its checks and then what always ends. -/
theorem of_eq_map {x : Except EditError Unit} {y : Except EditError α} {f : α → β}
    (h : x = (fun _ => ()) <$> y) : Settles x (liftM y >>= fun a => pure (f a)) := by
  subst h
  cases y with
  | ok a => exact .done (f a)
  | error reason => exact .refused reason

theorem ofEndless (x : Option α) : Settles (.ok ()) (Unfinished.ofEndless x) := by
  cases x with
  | some a => exact .done a
  | none => exact .endless

theorem bind_pure {x : Except EditError Unit} {y : Except EditFailure α} {f : α → β}
    (h : Settles x y) : Settles x (y >>= fun a => pure (f a)) := by
  cases h with
  | done a => exact .done (f a)
  | endless => exact .endless
  | refused reason => exact .refused reason

theorem bind_lift {x : Except EditError α} {f : α → Except EditError Unit}
    {g : α → Except EditFailure β} (h : ∀ a, x = .ok a → Settles (f a) (g a)) :
    Settles (x >>= f) (liftM x >>= g) := by
  cases x with
  | ok a => exact h a rfl
  | error reason => exact .refused reason

theorem guard {c : Prop} [Decidable c] {reason : EditError} {f : γ → Except EditError Unit}
    {g : γ → Except EditFailure α} {x : Except EditError Unit} {y : Except EditFailure α}
    (h : ¬ c → Settles x y) :
    Settles (if c then throw reason >>= f else x)
      (if c then throw (.refused reason) >>= g else y) := by
  split
  case isTrue => exact .refused reason
  case isFalse hc => exact h hc

end Settles

theorem settles_addComponent (h : tree.Sound) (kind : Kind) (parent : NodeId)
    (index : Option UInt64) :
    Settles (check tree (.addComponent kind parent index))
      (tree.addComponent kind parent (index.map UInt64.toNat)) := by
  rw [check, Tree.addComponent]
  refine .bind_lift fun node hnode => .guard fun _ => .guard fun haccepts => ?_
  cases hplant : tree.plant kind parent with
  | none => exact .endless
  | some planted =>
    -- The parent lists its children also after the new component was made.
    have hlists : planted.1.Lists parent :=
      (h.lists (Tree.require_eq_ok_iff.1 hnode) (by simpa using haccepts)).plant hplant
    change Settles (.ok ()) (liftM (planted.1.requireChildren parent _) >>= _)
    rw [Tree.requireChildren_of_lists hlists]
    exact .done _

theorem settles_setColumnsCount (tree : Tree) (id : NodeId) (count : Int64) :
    Settles (check tree (.setColumnsCount id count))
      (tree.setColumnsCount id ((natOf? count).getD 0)) := by
  rw [check, Tree.setColumnsCount]
  refine .bind_lift fun node _ => .guard fun _ => ?_
  exact (Settles.ofEndless _).bind_pure

theorem settles_updateComponent (tree : Tree) (id : NodeId) (patch : List (String × Json)) :
    Settles (check tree (.updateComponent id patch)) (tree.updateComponent id patch) := by
  rw [check, Tree.updateComponent]
  refine .bind_lift fun node hnode => .bind_lift fun properties _ => ?_
  cases properties with
  | columns row =>
    -- A row with another record is still a row, so it can be resized.
    have hrow := Tree.getElem?_recordRow (Tree.require_eq_ok_iff.1 hnode) row node.childList.length
    dsimp only
    split
    · exact .done _
    · change Settles (.ok ()) ((tree.recordRow id row node.childList.length).setColumnsCount id _)
      rw [Tree.setColumnsCount_of_row hrow rfl]
      exact .ofEndless _
  | _ => exact .done _

theorem check_eq_map_moveComponent (h : tree.Sound) (id target : NodeId) (index : Option Int64) :
    check tree (.moveComponent id target index) =
      (fun _ => ()) <$> tree.moveComponent id target (index.bind natOf?) := by
  rw [check, Tree.moveComponent]
  cases tree.require id with
  | error reason => rfl
  | ok node =>
    refine guard_eq_map_guard Iff.rfl (guard_eq_map_guard Iff.rfl ?_)
    cases hholder : tree.require target with
    | error reason => rfl
    | ok holder =>
      refine guard_eq_map_guard_of_not Iff.rfl fun haccepts => guard_eq_map_guard Iff.rfl ?_
      -- The new parent lists its children also after the old one has dropped the component.
      have hlists : (tree.unlist id node.parent).Lists target :=
        (h.lists (Tree.require_eq_ok_iff.1 hholder) (by simpa using haccepts)).unlist node.parent
      change pure () =
        (fun _ => ()) <$> ((tree.unlist id node.parent).requireChildren target _ >>= _)
      rw [Tree.requireChildren_of_lists hlists]
      rfl

/-- A command that comes through the checks applies or never ends, and any other is skipped for the
reason that the checks give: nothing goes wrong once something was changed. -/
theorem settles_run (h : tree.Sound) (command : Command) :
    Settles (command.check tree) (command.run tree) := by
  cases command with
  | addComponent kind parent index => exact (settles_addComponent h kind parent index).bind_pure
  | removeComponent id =>
    refine .of_eq_map ?_
    rw [check, Tree.removeComponent]
    cases tree.require id with
    | error reason => rfl
    | ok node =>
      refine guard_eq_map_guard Iff.rfl ?_
      cases node.parent with
      | none => rfl
      | some parent => exact guard_eq_map_guard Iff.rfl rfl
  | updateComponent id patch => exact (settles_updateComponent tree id patch).bind_pure
  | reorderComponents parent oldIndex newIndex =>
    refine .of_eq_map ?_
    rw [check, Tree.reorderComponents]
    cases tree.require parent with
    | error reason => rfl
    | ok node => exact guard_eq_map_guard Iff.rfl (guard_eq_map_guard Iff.rfl rfl)
  | moveComponent id target index => exact .of_eq_map (check_eq_map_moveComponent h id target index)
  | setColumnsCount id count => exact (settles_setColumnsCount tree id count).bind_pure

/-- The checks come to the conditions. -/
theorem check_eq_ok_iff (h : tree.violations = []) :
    command.check tree = .ok () ↔ command.Applies tree := by
  have hsound : tree.Sound := Tree.violations_eq_nil_iff_sound.1 h
  cases command with
  | addComponent kind parent index =>
    simp only [check, Applies, Tree.get?, bind_eq_ok_iff, Tree.require_eq_ok_iff, guard_eq_ok_iff,
      pure_eq_ok_iff, Bool.not_eq_true', Bool.not_eq_false, and_true, Ne]
  | removeComponent id =>
    simp only [check, Applies, Tree.get?, bind_eq_ok_iff, Tree.require_eq_ok_iff, guard_eq_ok_iff]
    refine exists_congr fun node => and_congr_right fun hget => and_congr_right fun hne => ?_
    obtain ⟨parent, -, hparent, -⟩ := SoundBut.placed hsound hget hne
    simp only [hparent, guard_eq_ok_iff, pure_eq_ok_iff, and_true, Option.some.injEq,
      exists_eq_left']
    exact not_congr (and_congr_right (hsound.length_le_iff hget hne hparent))
  | updateComponent id patch =>
    simp only [check, Applies, Tree.get?, bind_eq_ok_iff, Tree.require_eq_ok_iff, pure_eq_ok_iff,
      and_true, ← isOk_iff_exists, Tree.isOk_patched, Node.kind]
  | reorderComponents parent oldIndex newIndex =>
    simp only [check, Applies, Tree.get?, bind_eq_ok_iff, Tree.require_eq_ok_iff, guard_eq_ok_iff,
      pure_eq_ok_iff, Nat.not_le, and_true]
  | moveComponent id target index =>
    simp only [check, Applies, Tree.get?, bind_eq_ok_iff, Tree.require_eq_ok_iff, guard_eq_ok_iff,
      pure_eq_ok_iff, Bool.not_eq_true', Bool.not_eq_false, and_true, not_or, Ne]
    refine exists_congr fun node => and_congr_right fun hget => ?_
    rw [Tree.mem_descendants_iff h hget]
  | setColumnsCount id count =>
    simp only [check, Applies, Tree.get?, bind_eq_ok_iff, Tree.require_eq_ok_iff, guard_eq_ok_iff,
      pure_eq_ok_iff, and_true, Ne, not_not]

/-- The checks report only a node as missing that is not there. -/
theorem reportsAbsent_check (tree : Tree) (command : Command) :
    tree.ReportsAbsent (command.check tree) := by
  cases command with
  | addComponent kind parent index =>
    exact .require_bind fun node => .guard nofun (.guard nofun (.pure ()))
  | removeComponent id =>
    refine .require_bind fun node => .guard nofun ?_
    cases node.parent with
    | none => exact .pure ()
    | some parent => exact .guard nofun (.pure ())
  | updateComponent id patch =>
    refine .require_bind fun node => ?_
    unfold Tree.patched
    split <;> exact nofun
  | reorderComponents parent oldIndex newIndex =>
    exact .require_bind fun node => .guard nofun (.guard nofun (.pure ()))
  | moveComponent id target index =>
    exact .require_bind fun node => .guard nofun (.guard nofun
      (.require_bind fun holder => .guard nofun (.guard nofun (.pure ()))))
  | setColumnsCount id count =>
    exact .require_bind fun node => .guard nofun (.pure ())

/-- What comes of a command is what its checks decide. -/
theorem execute_of_check (h : tree.Sound) (command : Command) :
    (∀ reason, command.check tree = .error reason →
      command.execute tree = some (tree, .skipped reason)) ∧
      (command.check tree = .ok () → command.execute tree = none ∨
        ∃ next created, command.execute tree = some (next, .applied created)) := by
  have hsettles := settles_run h command
  rw [execute]
  generalize command.check tree = checked, command.run tree = ran at hsettles
  cases hsettles with
  | done result =>
    obtain ⟨next, created⟩ := result
    exact ⟨fun _ hfailed => (nomatch hfailed), fun _ => .inr ⟨next, created, rfl⟩⟩
  | endless => exact ⟨fun _ hfailed => (nomatch hfailed), fun _ => .inl rfl⟩
  | refused reason =>
    refine ⟨fun other hfailed => ?_, fun hpassed => nomatch hpassed⟩
    cases hfailed
    rfl

/-- On a tree without violations, a command never ends just if it applies and makes an id for which
there is no number left. If it ends, it applies just under its conditions; if it is skipped, it is
for a reason that was found before anything was changed; and only a node that is not there is
reported as missing. -/
theorem outcome_execute (tree : Tree) (command : Command) (h : tree.violations = []) :
    (command.execute tree = none ↔ command.Applies tree ∧ command.Exhausts tree) ∧
      ∀ next outcome, command.execute tree = some (next, outcome) →
        (outcome.isApplied = true ↔ command.Applies tree) ∧
          (∀ reason, outcome = .skipped reason ↔ command.check tree = .error reason) ∧
          ∀ id, outcome = .skipped (.missingNode id) → tree.contains id = false := by
  obtain ⟨hrefused, hpassed⟩ :=
    execute_of_check (Tree.violations_eq_nil_iff_sound.1 h) command
  rw [← execute_eq_none_iff, ← check_eq_ok_iff h]
  constructor
  · refine ⟨fun hnone => ⟨?_, hnone⟩, And.right⟩
    cases hcheck : command.check tree with
    | ok => rfl
    | error reason =>
      rw [hrefused reason hcheck] at hnone
      cases hnone
  · intro next outcome hok
    cases hcheck : command.check tree with
    | ok =>
      obtain hnone | ⟨last, created, hlast⟩ := hpassed hcheck
      · rw [hok] at hnone
        cases hnone
      · rw [hok] at hlast
        cases hlast
        exact ⟨iff_of_true rfl rfl, fun reason => iff_of_false nofun nofun, nofun⟩
    | error reason =>
      rw [hrefused reason hcheck] at hok
      cases hok
      refine ⟨iff_of_false Bool.false_ne_true nofun, fun other => ?_, fun id hmissing => ?_⟩
      · rw [Outcome.skipped.injEq, Except.error.injEq]
      · cases hmissing
        exact reportsAbsent_check tree command id hcheck

/-- A row can be added to the tree of the root alone, for there are ids for it. -/
theorem outcome_execute_firstRow :
    let addRow := addComponent .columns rootId none
    Tree.empty.violations = [] ∧ ¬ addRow.Exhausts Tree.empty ∧
      ∃ next outcome, addRow.execute Tree.empty = some (next, outcome) ∧
        outcome.isApplied = true := by
  intro addRow
  have hsound : Tree.empty.violations = [] := by decide +kernel
  have hroot : Tree.empty.get? rootId = some (.fresh none Kind.root.defaults) := by decide +kernel
  have happlies : addRow.Applies Tree.empty := ⟨_, hroot, by decide, by decide⟩
  have hids : ¬ addRow.Exhausts Tree.empty := not_exhausts_of_isSome (by decide +kernel)
  obtain ⟨next, outcome, hok⟩ := exists_execute hids
  have hends := (outcome_execute Tree.empty addRow hsound).2 next outcome hok
  exact ⟨hsound, hids, next, outcome, hok, hends.1.2 happlies⟩

/-- A row of two columns, the second of which has an id with the largest number. -/
def lastNumber : Tree :=
  let nodes : List (NodeId × Node) := [
    (rootId, ⟨none, .root {}, some ["columns-1"]⟩),
    ("columns-1", ⟨some rootId, .columns {}, some ["column-2", "column-18446744073709551615"]⟩),
    ("column-2", ⟨some "columns-1", .column {}, some []⟩),
    ("column-18446744073709551615", ⟨some "columns-1", .column {}, some []⟩)]
  .ofNodes (.ofList nodes)

/-- The row can have one more column, and ids for it are not in use; but the counter has come to its
end, so none of them is found. -/
theorem execute_lastNumber :
    lastNumber.violations = [] ∧ (setColumnsCount "columns-1" 3).Applies lastNumber ∧
      lastNumber.contains "column-3" = false ∧
      (setColumnsCount "columns-1" 3).execute lastNumber = none := by
  have hget : lastNumber.get? "columns-1" = some ⟨some rootId, .columns {},
      some ["column-2", "column-18446744073709551615"]⟩ := by decide +kernel
  exact ⟨by decide +kernel, ⟨_, hget, rfl⟩, by decide +kernel,
    Option.isNone_iff_eq_none.1 (by decide +kernel)⟩

end Command

end MailTemplate
