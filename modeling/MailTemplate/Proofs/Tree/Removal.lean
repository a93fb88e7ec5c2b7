import MailTemplate.Proofs.Tree.Descendants
import MailTemplate.Proofs.Tree.Editing

/-!
# What a Removal Takes Away

A node is taken out together with all that hangs from it. The nodes to be taken out are found down
the lists of children, and in a sound tree they are those that have the node on their chain of
parents.

* `Tree.getElem?_eraseAll_eq_some_iff` says what is left of any nodes, sound or not.
* `Pruned` says what is found after some children of a node were taken out; `SoundBut.pruned` is
  where it comes from.
* `Tree.removeComponent_prunes` puts it together for the removal of a component.
-/

namespace MailTemplate

variable {nodes nodes' : Nodes} {id parent child top other : NodeId} {node node' n : Node}
  {dropped : List NodeId}

/-! ## Down the lists of children -/

/-- The node of an id lists another id. -/
def Holds (nodes : Nodes) (parent child : NodeId) : Prop :=
  ∃ node, nodes[parent]? = some node ∧ child ∈ node.childList

theorem holds_erase_iff :
    Holds (nodes.erase id) parent child ↔ parent ≠ id ∧ Holds nodes parent child := by
  simp only [Holds, getElem?_erase_eq_some_iff, and_assoc, exists_and_left]

/-- Nothing hangs from an id that is not there. -/
theorem eq_of_reflTransGen_holds (hnone : nodes[top]? = none)
    (h : Relation.ReflTransGen (Holds nodes) top other) : other = top := by
  rcases h.cases_head with heq | ⟨_, ⟨_, hget, -⟩, -⟩
  · exact heq.symm
  · rw [hnone] at hget
    cases hget

/-- What hangs from an id while a node is there hangs from it or from a child of the node when the
node is taken out, unless it is the node itself. -/
theorem reflTransGen_holds_erase (hget : nodes[id]? = some node)
    (h : Relation.ReflTransGen (Holds nodes) top other) :
    other = id ∨ Relation.ReflTransGen (Holds (nodes.erase id)) top other ∨
      ∃ child ∈ node.childList, Relation.ReflTransGen (Holds (nodes.erase id)) child other := by
  -- The way down is cut at its last visit of the node, so it is taken from its upper end.
  induction h using Relation.ReflTransGen.head_induction_on with
  | refl => exact .inr (.inl .refl)
  | @head top next hholds _ ih =>
    rcases ih with heq | hnext | hchild
    · exact .inl heq
    · by_cases heq : top = id
      · obtain ⟨holder, hholder, hmem⟩ := hholds
        rw [heq, hget] at hholder
        cases hholder
        exact .inr (.inr ⟨next, hmem, hnext⟩)
      · exact .inr (.inl (.head (holds_erase_iff.2 ⟨heq, hholds⟩) hnext))
    · exact .inr (.inr hchild)

/-- What is left when the ids on a stack are taken out are the nodes that hang from none of them. -/
theorem Tree.getElem?_eraseAll_eq_some_iff {stack : List NodeId} :
    (eraseAll nodes stack)[other]? = some n ↔
      nodes[other]? = some n ∧
        ∀ top ∈ stack, ¬ Relation.ReflTransGen (Holds nodes) top other := by
  fun_induction eraseAll nodes stack with
  | case1 nodes => simp
  | case2 nodes id stack hnone ih =>
    -- The first id is not there, and then nothing hangs from it.
    rw [ih, List.forall_mem_cons]
    refine and_congr_right fun hget => (and_iff_right fun hbelow => ?_).symm
    rw [eq_of_reflTransGen_holds hnone hbelow, hnone] at hget
    cases hget
  | case3 nodes id stack node hsome hlt ih =>
    -- The first node goes, and its children take its place on the stack: what has hung from the
    -- node hangs from one of them now.
    rw [ih, getElem?_erase_eq_some_iff]
    constructor
    · rintro ⟨⟨hne, hget⟩, hnot⟩
      refine ⟨hget, fun top htop hbelow => ?_⟩
      rcases reflTransGen_holds_erase hsome hbelow with heq | hleft | ⟨child, hmem, hleft⟩
      · exact hne heq
      · rcases List.mem_cons.1 htop with rfl | htop
        · exact hne (eq_of_reflTransGen_holds Std.ExtTreeMap.getElem?_erase_self hleft)
        · exact hnot top (List.mem_append_right _ htop) hleft
      · exact hnot child (List.mem_append_left _ hmem) hleft
    · rintro ⟨hget, hnot⟩
      refine ⟨⟨fun heq => hnot id List.mem_cons_self (heq ▸ .refl), hget⟩,
        fun top htop hleft => ?_⟩
      have hbelow : Relation.ReflTransGen (Holds nodes) top other :=
        Relation.ReflTransGen.mono (fun _ _ hholds => (holds_erase_iff.1 hholds).2) _ _ hleft
      rcases List.mem_append.1 htop with hmem | htop
      · exact hnot id List.mem_cons_self (.head ⟨node, hsome, hmem⟩ hbelow)
      · exact hnot top (List.mem_cons_of_mem _ htop) hbelow

/-! ## Pruned nodes -/

/-- Some ids are gone with all that hangs from them, the node of an id has been replaced, and all
else is as before. -/
structure Pruned (nodes nodes' : Nodes) (id : NodeId) (node' : Node) (dropped : List NodeId) :
    Prop where
  /-- The node that takes the place of the old one. -/
  atNode : nodes'[id]? = some node'
  /-- What has a dropped id on its chain of parents is gone. -/
  gone : ∀ {top other : NodeId}, top ∈ dropped →
    Relation.ReflTransGen (IsParent nodes) top other → nodes'[other]? = none
  /-- All else is as before. -/
  elsewhere : ∀ {other : NodeId}, other ≠ id →
    (∀ top ∈ dropped, ¬ Relation.ReflTransGen (IsParent nodes) top other) →
    nodes'[other]? = nodes[other]?

namespace SoundBut

variable {opened : List NodeId}

/-- In a sound tree a node lists the nodes that name it as their parent. -/
theorem holds_iff_isParent (h : SoundBut nodes [] opened) :
    Holds nodes parent child ↔ IsParent nodes parent child := by
  constructor
  · rintro ⟨holder, hholder, hmem⟩
    exact (h.isParent_iff_mem hholder).2 hmem
  · rintro ⟨below, hbelow, hnames⟩
    obtain ⟨holder, hholder⟩ := h.parentsExist hbelow hnames
    exact ⟨holder, hholder, (h.isParent_iff_mem hholder).1 ⟨below, hbelow, hnames⟩⟩

/-- No node hangs from one of its children. -/
theorem not_reflTransGen_child (h : SoundBut nodes [] opened) (hget : nodes[id]? = some node)
    (hmem : child ∈ node.childList) : ¬ Relation.ReflTransGen (IsParent nodes) child id :=
  fun hbelow => not_transGen_self h.forest.wellFounded id
    (.head' ((h.isParent_iff_mem hget).2 hmem) hbelow)

/-- A node may drop some of its children, which are taken out with all that hangs from them. -/
theorem pruned (h : SoundBut nodes [] opened) (hget : nodes[id]? = some node)
    (hdropped : dropped ⊆ node.childList) (hkept : node'.childList ⊆ node.childList) :
    Pruned nodes (Tree.eraseAll (nodes.insert id node') dropped) id node' dropped := by
  have hholds : ∀ {above below : NodeId}, Holds (nodes.insert id node') above below →
      IsParent nodes above below := by
    rintro above below ⟨holder, hholder, hmem⟩
    rw [getElem?_insert_eq] at hholder
    split at hholder
    case isTrue heq =>
      cases hholder
      exact heq ▸ (h.isParent_iff_mem hget).2 (hkept hmem)
    case isFalse => exact (h.isParent_iff_mem hholder).2 hmem
  -- The way down from a dropped child does not come to the node, whose list is the only new one.
  have hbelow : ∀ top ∈ dropped, ∀ other,
      Relation.ReflTransGen (Holds (nodes.insert id node')) top other ↔
        Relation.ReflTransGen (IsParent nodes) top other := by
    refine fun top htop other =>
      ⟨Relation.ReflTransGen.mono (fun _ _ => hholds) _ _, fun hway => ?_⟩
    induction hway with
    | refl => exact .refl
    | @tail above below hway hparent ih =>
      obtain ⟨holder, hholder, hmem⟩ := h.holds_iff_isParent.2 hparent
      have hne : above ≠ id := by
        rintro rfl
        exact h.not_reflTransGen_child hget (hdropped htop) hway
      exact ih.tail ⟨holder, (getElem?_insert_of_ne _ hne).trans hholder, hmem⟩
  refine ⟨?_, fun {top other} htop hway => ?_, fun {other} hne hnot => ?_⟩
  · refine Tree.getElem?_eraseAll_eq_some_iff.2 ⟨Std.ExtTreeMap.getElem?_insert_self, ?_⟩
    exact fun top htop hway => h.not_reflTransGen_child hget (hdropped htop)
      ((hbelow top htop id).1 hway)
  · rw [Option.eq_none_iff_forall_ne_some]
    exact fun n hn => (Tree.getElem?_eraseAll_eq_some_iff.1 hn).2 top htop
      ((hbelow top htop other).2 hway)
  · refine Option.ext fun n => ?_
    rw [Tree.getElem?_eraseAll_eq_some_iff, getElem?_insert_of_ne _ hne]
    exact and_iff_left fun top htop hway => hnot top htop ((hbelow top htop other).1 hway)

end SoundBut

namespace Pruned

/-- The node that was replaced may be changed further. -/
theorem modify (h : Pruned nodes nodes' id node' dropped) (change : Node → Node) :
    Pruned nodes (nodes'.modify id change) id (change node') dropped where
  atNode := by rw [getElem?_modify_eq, if_pos rfl, h.atNode, Option.map_some]
  gone htop hway := by
    rw [getElem?_modify_eq, h.gone htop hway]
    split <;> rfl
  elsewhere hne hnot := by
    rw [getElem?_modify_eq, if_neg hne]
    exact h.elsewhere hne hnot

/-- Nothing is gone but what hangs from a dropped id, and nothing is new. -/
theorem exists_iff (h : Pruned nodes nodes' id node' dropped) (hget : nodes[id]? = some node) :
    (∃ n, nodes'[other]? = some n) ↔ (∃ n, nodes[other]? = some n) ∧
      ∀ top ∈ dropped, ¬ Relation.ReflTransGen (IsParent nodes) top other := by
  by_cases hnot : ∀ top ∈ dropped, ¬ Relation.ReflTransGen (IsParent nodes) top other
  · rw [and_iff_left hnot]
    by_cases heq : other = id
    · rw [heq, h.atNode, hget]
      exact iff_of_true ⟨node', rfl⟩ ⟨node, rfl⟩
    · rw [h.elsewhere heq hnot]
  · refine iff_of_false ?_ fun hsome => hnot hsome.2
    rintro ⟨n, hn⟩
    refine hnot fun top htop hway => ?_
    rw [h.gone htop hway] at hn
    cases hn

/-- What is still there is as before, but for the node that was replaced. -/
theorem eq_of_get (h : Pruned nodes nodes' id node' dropped) (hne : other ≠ id)
    (hget : nodes'[other]? = some n) : nodes'[other]? = nodes[other]? := by
  refine h.elsewhere hne fun top htop hway => ?_
  rw [h.gone htop hway] at hget
  cases hget

end Pruned

/-! ## Removing a component -/

/-- A node has lost a child of a kind, and nothing else of it has changed but the number of columns
that a row records. -/
structure Node.Loses (holder holder' : Node) (id : NodeId) (kind : Kind) : Prop where
  parent : holder'.parent = holder.parent
  /-- The other children are still in order. -/
  children : ∃ before after, holder.children = some (before ++ id :: after) ∧
    holder'.children = some (before ++ after)
  /-- A row that has lost a column records the number of those that are left. -/
  ofColumn : kind = .column → ∃ row count, holder.properties = .columns row ∧
    holder'.properties = .columns { row with columns := count } ∧
    count.toNat = holder'.childList.length
  /-- The loss of anything else is not recorded. -/
  ofOther : kind ≠ .column → holder'.properties = holder.properties

namespace Tree

variable {tree next : Tree}

/-- A list without an entry is what stands before and after it. -/
theorem without_append_cons {before after : List NodeId} (h : (before ++ id :: after).Nodup) :
    without id (before ++ id :: after) = before ++ after := by
  obtain ⟨-, hafter, hapart⟩ := List.nodup_append.1 h
  have hbefore : ∀ other ∈ before, other ≠ id := fun other hmem =>
    hapart other hmem id List.mem_cons_self
  have hrest : ∀ other ∈ after, other ≠ id := fun other hmem heq =>
    (List.nodup_cons.1 hafter).1 (heq ▸ hmem)
  rw [without, List.filter_append, List.filter_cons_of_neg (by simp),
    List.filter_eq_self.2 (by simpa using hbefore), List.filter_eq_self.2 (by simpa using hrest)]

theorem nextNumber_detach (id parent : NodeId) (kind : Kind) :
    (tree.detach id parent kind).nextNumber = tree.nextNumber := by
  unfold detach
  split <;> rfl

namespace Sound

/-- When a node is detached, only its parent changes. -/
theorem nodes_detach (h : tree.Sound) (hget : tree.nodes[id]? = some node) (hne : id ≠ rootId)
    (hparent : node.parent = some parent) :
    ∃ holder holder', tree.nodes[parent]? = some holder ∧ holder.Loses holder' id node.kind ∧
      (tree.detach id parent node.kind).nodes = tree.nodes.insert parent holder' := by
  obtain ⟨_, holder, hnames, hholder, hmem, haccepts⟩ := SoundBut.placed h hget hne
  rw [hparent] at hnames
  cases hnames
  have hcontainer := Node.isSome_children_of_mem hmem
  have hlist := Node.children_eq_some hcontainer
  have hnodup := (SoundBut.forest h).nodup_childList hholder
  obtain ⟨before, after, hchildren⟩ := List.append_of_mem hmem
  rw [hchildren] at hlist hnodup
  have hwithout : without id holder.childList = before ++ after := by
    rw [hchildren, without_append_cons hnodup]
  have hnodes : (tree.modifyChildren parent (without id)).nodes =
      tree.nodes.insert parent { holder with children := some (before ++ after) } := by
    rw [nodes_modifyChildren_of_some hholder hcontainer, hwithout]
  -- Only a row records how many children it has.
  by_cases hcolumn : node.kind = .column
  · have hrow := (Kind.accepts_column_iff haccepts).2 hcolumn
    obtain ⟨row, hproperties⟩ := Node.kind_eq_columns hrow
    have hmax : (before ++ after).length ≤ maxColumns := by
      have hlength := ((h.fits hholder).length_bounds hrow).2
      rw [hchildren] at hlength
      refine le_trans ?_ hlength
      simp
    refine ⟨holder, { holder with
      properties := .columns { row with columns := .ofNat (before ++ after).length }
      children := some (before ++ after) }, hholder, ⟨rfl, ⟨before, after, hlist, rfl⟩, fun _ =>
        ⟨row, _, hproperties, rfl, toNat_ofNat_of_le_maxColumns hmax⟩,
        fun hother => absurd hcolumn hother⟩, ?_⟩
    have hafter : (tree.modifyChildren parent (without id)).nodes[parent]? =
        some { holder with children := some (before ++ after) } := by
      rw [hnodes, Std.ExtTreeMap.getElem?_insert_self]
    rw [Tree.detach, if_pos hcolumn, nodes_writeColumnCount, childrenOf_eq hafter, hnodes,
      modify_insert_self, recordCount, hproperties]
    rfl
  · refine ⟨holder, { holder with children := some (before ++ after) }, hholder,
      ⟨rfl, ⟨before, after, hlist, rfl⟩, fun heq => absurd heq hcolumn, fun _ => rfl⟩, ?_⟩
    rw [Tree.detach, if_neg hcolumn, hnodes]

/-- A removed component is gone with all that hangs from it, and only its parent has changed. -/
theorem pruned_removeComponent (h : tree.Sound) (hok : tree.removeComponent id = .ok next) :
    ∃ node parent holder holder', tree.nodes[id]? = some node ∧ node.parent = some parent ∧
      tree.nodes[parent]? = some holder ∧ holder.Loses holder' id node.kind ∧
      Pruned tree.nodes next.nodes parent holder' [id] := by
  obtain ⟨node, hget, hne, hnext⟩ := removeComponent_eq_ok_iff.1 hok
  obtain ⟨parent, -, hparent, -⟩ := SoundBut.placed h hget hne
  rw [hparent] at hnext
  obtain ⟨-, rfl⟩ := hnext
  obtain ⟨holder, holder', hholder, hloses, hnodes⟩ := h.nodes_detach hget hne hparent
  refine ⟨node, parent, holder, holder', hget, hparent, hholder, hloses, ?_⟩
  obtain ⟨before, after, hlist, hlist'⟩ := hloses.children
  rw [eraseSubtree, hnodes]
  refine SoundBut.pruned h hholder ?_ ?_
  · rw [Node.childList_eq hlist]
    simp
  · rw [Node.childList_eq hlist, Node.childList_eq hlist']
    intro other hmem
    simp only [List.mem_append, List.mem_cons] at hmem ⊢
    exact hmem.imp_right .inr

end Sound

/-- What an id does not hang from: it is another id, which is not on its chain of parents. -/
theorem not_reflTransGen_isParent_iff :
    ¬ Relation.ReflTransGen (IsParent tree.nodes) top other ↔
      other ≠ top ∧ tree.isAncestor top other = false := by
  rw [Relation.reflTransGen_iff_eq_or_transGen, not_or, ← isAncestor_iff, Bool.not_eq_true]

/-- In a tree without violations, the removal of a component takes out just the component and what
has it on its chain of parents. Its parent loses it, which a row records if it is a column, and no
other node changes. -/
theorem removeComponent_prunes (h : tree.violations = [])
    (hok : tree.removeComponent id = .ok next) :
    (∀ other, next.contains other = true ↔
      tree.contains other = true ∧ other ≠ id ∧ tree.isAncestor id other = false) ∧
    ∃ node parent holder holder', tree.get? id = some node ∧ node.parent = some parent ∧
      tree.get? parent = some holder ∧ next.get? parent = some holder' ∧
      holder.Loses holder' id node.kind ∧
      ∀ other, other ≠ parent → next.contains other = true →
        next.get? other = tree.get? other := by
  obtain ⟨node, parent, holder, holder', hget, hparent, hholder, hloses, hpruned⟩ :=
    (violations_eq_nil_iff_sound.1 h).pruned_removeComponent hok
  constructor
  · intro other
    rw [contains_iff_exists, contains_iff_exists, hpruned.exists_iff hholder,
      List.forall_mem_singleton, not_reflTransGen_isParent_iff]
  · refine ⟨node, parent, holder, holder', hget, hparent, hholder, hpruned.atNode, hloses,
      fun other hne hthere => ?_⟩
    obtain ⟨n, hn⟩ := contains_iff_exists.1 hthere
    exact hpruned.eq_of_get hne hn

/-- A row of three columns, the last of which holds a row of two columns, and a text below it. -/
def nestedRows : Tree :=
  let nodes : List (NodeId × Node) := [
    (rootId, ⟨none, .root {}, some ["row", "footer"]⟩),
    ("row", ⟨some rootId, .columns { columns := 3 }, some ["left", "middle", "right"]⟩),
    ("left", ⟨some "row", .column {}, some ["title"]⟩),
    ("title", ⟨some "left", .heading {}, none⟩),
    ("middle", ⟨some "row", .column {}, some []⟩),
    ("right", ⟨some "row", .column {}, some ["inner"]⟩),
    ("inner", ⟨some "right", .columns {}, some ["inner-left", "inner-right"]⟩),
    ("inner-left", ⟨some "inner", .column {}, some ["note"]⟩),
    ("inner-right", ⟨some "inner", .column {}, some []⟩),
    ("note", ⟨some "inner-left", .text {}, none⟩),
    ("footer", ⟨some rootId, .text {}, none⟩)]
  .ofNodes (.ofList nodes)

theorem violations_nestedRows : nestedRows.violations = [] := by
  decide +kernel

/-- With the last column goes a text that is three levels below it. -/
theorem removeComponent_prunes_lastColumn :
    nestedRows.violations = [] ∧ ∃ next, nestedRows.removeComponent "right" = .ok next ∧
      next.contains "note" = false ∧ next.contains "title" = true ∧
      next.get? "footer" = nestedRows.get? "footer" := by
  obtain ⟨next, hok⟩ : ∃ next, nestedRows.removeComponent "right" = .ok next :=
    isOk_iff_exists.1 (by decide +kernel)
  obtain ⟨hids, node, parent, -, -, hnode, hparent, -, -, -, hothers⟩ :=
    removeComponent_prunes violations_nestedRows hok
  have hrow : parent = "row" := by
    have hnames : (nestedRows.get? "right").bind Node.parent = some "row" := by decide +kernel
    rw [hnode, Option.bind_some, hparent] at hnames
    exact Option.some.inj hnames
  refine ⟨violations_nestedRows, next, hok, ?_, (hids _).2 (by decide +kernel),
    hothers _ (by rw [hrow]; decide) ((hids _).2 (by decide +kernel))⟩
  rw [← Bool.not_eq_true, hids]
  decide +kernel

end Tree

end MailTemplate
