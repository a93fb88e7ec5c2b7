import MailTemplate.Command.Basic
import MailTemplate.Proofs.Tree.Updating

/-!
# Updates of Different Nodes

What an update does, and whether it applies, depends on the node that it is for and on nothing else,
as long as the patch does not ask for another number of columns. So it makes no difference which of
two nodes is updated first.

* `Command.execute_update` gives the tree and the outcome of an update by its node.
* `Command.updates_commute` is the conclusion.
-/

namespace MailTemplate

open Json

/-- The node with the record of a patch, or as it is if the patch does not fit. -/
def Node.patchedBy (patch : List (String × Json)) (node : Node) : Node :=
  match Tree.patched node.properties patch with
  | .ok properties => { node with properties }
  | .error _ => node

/-- What comes of an update, by the node that is found for it. -/
def Outcome.ofUpdate (id : NodeId) (patch : List (String × Json)) : Option Node → Outcome
  | none => .skipped (.missingNode id)
  | some node =>
    match Tree.patched node.properties patch with
    | .ok _ => .applied none
    | .error reason => .skipped reason

namespace Command

variable {tree : Tree} {id a b : NodeId} {patch p q : List (String × Json)}

/-- An update reads and changes one node. -/
theorem execute_update (hfits : ∀ node, tree.nodes[id]? = some node → node.Fits)
    (hnamed : lookup "columns" patch = none) :
    (Command.updateComponent id patch).execute tree =
      some (tree.modify id (Node.patchedBy patch), .ofUpdate id patch tree.nodes[id]?) := by
  have hsame : ∀ {nodes : Nodes}, tree.nodes.modify id (Node.patchedBy patch) = nodes →
      tree.modify id (Node.patchedBy patch) = { tree with nodes } :=
    fun heq => congrArg (fun nodes : Nodes => { tree with nodes }) heq
  rw [execute, run]
  cases hget : tree.nodes[id]? with
  | none =>
    have hmissing : tree.updateComponent id patch = .error (.refused (.missingNode id)) := by
      rw [Tree.updateComponent, Tree.require, Tree.get?, hget]
      rfl
    rw [hmissing, hsame (modify_eq_self hget)]
    rfl
  | some node =>
    rw [Tree.updateComponent_eq_map hget (hfits node hget) hnamed,
      hsame (modify_eq_insert _ hget), Node.patchedBy, Outcome.ofUpdate]
    cases Tree.patched node.properties patch with
    | ok properties =>
      refine congrArg some (Prod.ext (congrArg (fun nodes : Nodes => { tree with nodes }) ?_) rfl)
      exact modify_eq_insert _ hget
    | error reason =>
      refine congrArg some (Prod.ext (congrArg (fun nodes : Nodes => { tree with nodes }) ?_) rfl)
      exact (insert_eq_self hget).symm

/-- Updates of two different nodes of a tree without violations, or of ids that are not there, can
be made in either order: the same tree comes of it, and each of them applies or is skipped for the
same reason as it is alone. -/
theorem updates_commute (h : tree.violations = []) (hne : a ≠ b)
    (hp : "columns" ∉ p.map Prod.fst) (hq : "columns" ∉ q.map Prod.fst) :
    let first := Command.updateComponent a p
    let second := Command.updateComponent b q
    ∃ afterFirst afterSecond both ofFirst ofSecond,
      first.execute tree = some (afterFirst, ofFirst) ∧
        second.execute tree = some (afterSecond, ofSecond) ∧
        second.execute afterFirst = some (both, ofSecond) ∧
        first.execute afterSecond = some (both, ofFirst) := by
  intro first second
  have hsound : tree.Sound := Tree.violations_eq_nil_iff_sound.1 h
  rw [← lookup_eq_none_iff] at hp hq
  -- The node of the one is found as it was after the other has been updated.
  have ha : (tree.modify b (Node.patchedBy q)).nodes[a]? = tree.nodes[a]? := by
    rw [Tree.nodes_modify, getElem?_modify_eq, if_neg hne]
  have hb : (tree.modify a (Node.patchedBy p)).nodes[b]? = tree.nodes[b]? := by
    rw [Tree.nodes_modify, getElem?_modify_eq, if_neg hne.symm]
  have hswap : (tree.modify b (Node.patchedBy q)).modify a (Node.patchedBy p) =
      (tree.modify a (Node.patchedBy p)).modify b (Node.patchedBy q) :=
    congrArg (fun nodes : Nodes => { tree with nodes }) (modify_modify_comm hne _ _).symm
  have hfirst := execute_update (fun _ hget => hsound.fits (ha ▸ hget)) hp
  have hsecond := execute_update (fun _ hget => hsound.fits (hb ▸ hget)) hq
  rw [ha, hswap] at hfirst
  rw [hb] at hsecond
  exact ⟨_, _, _, _, _, execute_update (fun _ hget => hsound.fits hget) hp,
    execute_update (fun _ hget => hsound.fits hget) hq, hsecond, hfirst⟩

/-- A heading is given a level that is pulled into range, and the row around it a gap that is no
number: the first applies and the second is skipped, in either order. -/
theorem updates_commute_nestedRows :
    let first := Command.updateComponent "title" [("level", .ofNat 9)]
    let second := Command.updateComponent "row" [("gap", .string "wide")]
    Tree.nestedRows.violations = [] ∧ "title" ≠ "row" ∧
      "columns" ∉ [("level", Json.ofNat 9)].map Prod.fst ∧
      "columns" ∉ [("gap", Json.string "wide")].map Prod.fst ∧
      ∃ afterFirst afterSecond both ofSecond,
        first.execute Tree.nestedRows = some (afterFirst, .applied none) ∧
          second.execute Tree.nestedRows = some (afterSecond, ofSecond) ∧
          second.execute afterFirst = some (both, ofSecond) ∧
          first.execute afterSecond = some (both, .applied none) ∧ ofSecond.isApplied = false := by
  intro first second
  have hne : "title" ≠ "row" := by decide
  have hp : "columns" ∉ [("level", Json.ofNat 9)].map Prod.fst := by decide
  have hq : "columns" ∉ [("gap", Json.string "wide")].map Prod.fst := by decide
  obtain ⟨afterFirst, afterSecond, both, ofFirst, ofSecond, hfirst, hsecond, hlater, hlater'⟩ :=
    updates_commute Tree.violations_nestedRows hne hp hq
  have happlied : (first.execute Tree.nestedRows).map Prod.snd = some (.applied none) := by
    decide +kernel
  have hskipped : (second.execute Tree.nestedRows).map (Outcome.isApplied ∘ Prod.snd) =
      some false := by
    decide +kernel
  rw [hfirst] at happlied
  rw [hsecond] at hskipped
  obtain rfl : ofFirst = .applied none := Option.some.inj happlied
  exact ⟨Tree.violations_nestedRows, hne, hp, hq, afterFirst, afterSecond, both, ofSecond, hfirst,
    hsecond, hlater, hlater', Option.some.inj hskipped⟩

end Command

end MailTemplate
