import MailTemplate.Proofs.Storage.Fallback
import MailTemplate.Proofs.Tree.Upkeep
import MailTemplate.Storage.Repair

/-!
# Rebuilding from Stored Records

Whatever the records are, the nodes that are rebuilt from a queue of placements hang together below
the placements: a record is kept once, by a parent that holds its kind, and the parent does not hang
from it.

* `Placement.Adopted` says what a parent keeps of the records that it lists.
* `Pending` is the invariant of the queue, and `Rebuilt` what is known of the outcome.
-/

namespace MailTemplate

namespace Placement

variable {parent id : NodeId} {parentKind kind : Kind} {record : Record}

theorem kind_ofRecord (parent : Option NodeId) :
    (ofRecord id parent kind record).kind = kind := by
  rw [Placement.kind, ofRecord, Properties.kind_clamp, Properties.kind_ofStored]

theorem candidate?_eq_some_iff {unclaimed : Records} :
    candidate? parentKind unclaimed id = some (kind, record) ↔
      unclaimed[id]? = some record ∧ Kind.ofName? record.kind = some kind ∧
        parentKind.accepts kind = true := by
  unfold candidate?
  cases unclaimed[id]? with
  | none => simp
  | some other =>
    cases hname : Kind.ofName? other.kind with
    | none =>
      simp only [hname, Option.some.injEq, reduceCtorEq, false_iff]
      rintro ⟨rfl, hkind, -⟩
      rw [hname] at hkind
      cases hkind
    | some otherKind =>
      by_cases haccepts : parentKind.accepts otherKind = true
      · simp only [hname, if_pos haccepts, Option.some.injEq, Prod.mk.injEq]
        constructor
        · rintro ⟨rfl, rfl⟩
          exact ⟨rfl, hname, haccepts⟩
        · rintro ⟨rfl, hkind, -⟩
          rw [hname] at hkind
          exact ⟨Option.some.inj hkind, rfl⟩
      · simp only [hname, if_neg haccepts, Option.some.injEq, reduceCtorEq, false_iff]
        rintro ⟨rfl, hkind, haccepts'⟩
        rw [hname] at hkind
        cases hkind
        exact haccepts haccepts'

/-- Records that a parent has kept, and those that are left. -/
structure Adopted (parent : NodeId) (parentKind : Kind) (unclaimed : Records)
    (kept : List Placement) (left : Records) : Prop where
  /-- No record is kept twice. -/
  nodup : (kept.map Placement.id).Nodup
  /-- A kept record was there, names the parent, is of a kind that it holds and in range. -/
  fitting : ∀ p ∈ kept, (unclaimed[p.id]?).isSome = true ∧ p.parent = some parent ∧
    parentKind.accepts p.kind = true ∧ p.properties.InRange
  /-- All but the kept records are left. -/
  leftover : ∀ id, left[id]? = if id ∈ kept.map Placement.id then none else unclaimed[id]?

theorem adopted_adopt (parent : NodeId) (parentKind : Kind) (room : Nat) (unclaimed : Records)
    (listed : List NodeId) :
    Adopted parent parentKind unclaimed (adopt parent parentKind room unclaimed listed).1
      (adopt parent parentKind room unclaimed listed).2 := by
  fun_induction adopt parent parentKind room unclaimed listed with
  | case1 | case2 =>
    exact ⟨List.nodup_nil, fun _ hmem => absurd hmem List.not_mem_nil, fun _ => rfl⟩
  | case3 room unclaimed id listed kind record found kept left heq ih =>
    rw [heq] at ih
    obtain ⟨hrecord, -, haccepts⟩ := candidate?_eq_some_iff.1 found
    -- Records are kept once, for what is kept is taken away.
    have hnot : id ∉ kept.map Placement.id := by
      intro hmem
      obtain ⟨p, hp, hid⟩ := List.mem_map.1 hmem
      have hthere := (ih.fitting p hp).1
      rw [getElem?_erase_eq, if_pos hid] at hthere
      cases hthere
    refine ⟨?_, ?_, ?_⟩
    · exact List.nodup_cons.2 ⟨hnot, ih.nodup⟩
    · intro p hp
      rcases List.mem_cons.1 hp with rfl | hp
      · refine ⟨?_, rfl, ?_, Properties.inRange_clamp _⟩
        · exact Option.isSome_iff_exists.2 ⟨record, hrecord⟩
        · rw [kind_ofRecord]
          exact haccepts
      · obtain ⟨hthere, hrest⟩ := ih.fitting p hp
        obtain ⟨other, hother⟩ := Option.isSome_iff_exists.1 hthere
        exact ⟨Option.isSome_iff_exists.2 ⟨other, (getElem?_erase_eq_some_iff.1 hother).2⟩, hrest⟩
    · intro other
      rw [ih.leftover other, getElem?_erase_eq]
      change _ = if other ∈ id :: kept.map Placement.id then none else unclaimed[other]?
      by_cases hmem : other ∈ kept.map Placement.id
      · rw [if_pos hmem, if_pos (List.mem_cons_of_mem _ hmem)]
      · by_cases heq : other = id <;> simp [hmem, heq]
  | case4 room unclaimed id listed found ih => exact ih

theorem length_adopt_le (parent : NodeId) (parentKind : Kind) (room : Nat) (unclaimed : Records)
    (listed : List NodeId) :
    (adopt parent parentKind room unclaimed listed).1.length ≤ room := by
  fun_induction adopt parent parentKind room unclaimed listed with
  | case1 | case2 => exact Nat.zero_le _
  | case3 room unclaimed id listed kind record found kept left heq ih =>
    rw [heq] at ih
    exact Nat.succ_le_succ ih
  | case4 room unclaimed id listed found ih => exact ih

/-- What the children of a placement are. -/
theorem adopted_children (p : Placement) (unclaimed : Records) :
    Adopted p.id p.kind unclaimed (p.children unclaimed).1 (p.children unclaimed).2 :=
  adopted_adopt p.id p.kind p.room unclaimed p.listed

/-- A leaf keeps nothing, so its node lists what it keeps. -/
theorem childList_node (p : Placement) (unclaimed : Records) :
    (p.node ((p.children unclaimed).1.map Placement.id)).childList =
      (p.children unclaimed).1.map Placement.id := by
  unfold Placement.node Node.childList
  split
  · rfl
  case isFalse hleaf =>
    cases hkept : (p.children unclaimed).1 with
    | nil => rfl
    | cons q kept =>
      obtain ⟨-, -, haccepts, -⟩ :=
        (p.adopted_children unclaimed).fitting q (hkept ▸ List.mem_cons_self)
      exact absurd (Kind.isContainer_of_accepts haccepts) hleaf

end Placement

/-- Placements that are waiting for their children: they have left the records, each once, and
their parents have left the queue. -/
structure Pending (unclaimed : Records) (queue : List Placement) : Prop where
  nodup : (queue.map Placement.id).Nodup
  claimed : ∀ p ∈ queue, unclaimed[p.id]? = none
  above : ∀ p ∈ queue, ∀ parent, p.parent = some parent →
    parent ∉ queue.map Placement.id ∧ unclaimed[parent]? = none
  inRange : ∀ p ∈ queue, p.properties.InRange

/-- What is rebuilt hangs below the queue and comes from the queue and the records. -/
structure Rebuilt (unclaimed : Records) (queue : List Placement) (nodes : Nodes) : Prop where
  forest : Forest nodes (queue.map Placement.id)
  known : ∀ {id : NodeId} {node : Node}, nodes[id]? = some node →
    id ∈ queue.map Placement.id ∨ (unclaimed[id]?).isSome = true
  placed : ∀ p ∈ queue, ∃ node, nodes[p.id]? = some node ∧ node.parent = p.parent ∧
    node.properties = p.properties
  rows : ∀ {id : NodeId} {node : Node}, nodes[id]? = some node → node.kind = .columns →
    node.childList.length ≤ maxColumns
  inRange : AllInRange nodes

variable {unclaimed : Records} {queue : List Placement} {p : Placement}

/-- The next placement is taken off the queue, and the children that it keeps are put in line. -/
theorem Pending.next (h : Pending unclaimed (p :: queue)) :
    Pending (p.children unclaimed).2 (queue ++ (p.children unclaimed).1) := by
  have hkept := p.adopted_children unclaimed
  obtain ⟨hfirst, hqueue⟩ := List.nodup_cons.1 h.nodup
  -- What is kept was among the records, so it was not in the queue.
  have hthere : ∀ id ∈ (p.children unclaimed).1.map Placement.id,
      (unclaimed[id]?).isSome = true := by
    intro id hmem
    obtain ⟨q, hq, rfl⟩ := List.mem_map.1 hmem
    exact (hkept.fitting q hq).1
  have hgone : ∀ {id : NodeId}, unclaimed[id]? = none → (p.children unclaimed).2[id]? = none ∧
      id ∉ (p.children unclaimed).1.map Placement.id := by
    intro id hnone
    have hnot : id ∉ (p.children unclaimed).1.map Placement.id := by
      intro hmem
      have hsome := hthere id hmem
      rw [hnone] at hsome
      cases hsome
    rw [hkept.leftover id, if_neg hnot]
    exact ⟨hnone, hnot⟩
  refine ⟨?_, ?_, ?_, ?_⟩
  · -- Each is in line once.
    rw [List.map_append]
    refine hqueue.append hkept.nodup fun id hmem => ?_
    obtain ⟨q, hq, rfl⟩ := List.mem_map.1 hmem
    exact (hgone (h.claimed q (List.mem_cons_of_mem p hq))).2
  · -- All that are in line have left the records.
    intro q hq
    rcases List.mem_append.1 hq with hq | hq
    · exact (hgone (h.claimed q (List.mem_cons_of_mem p hq))).1
    · rw [hkept.leftover, if_pos (List.mem_map_of_mem hq)]
  · intro q hq parent hparent
    rw [List.map_append, List.mem_append, not_or]
    rcases List.mem_append.1 hq with hq | hq
    · obtain ⟨hnot, hnone⟩ := h.above q (List.mem_cons_of_mem p hq) parent hparent
      obtain ⟨hleft, hnot'⟩ := hgone hnone
      exact ⟨⟨fun hmem => hnot (List.mem_cons_of_mem p.id hmem), hnot'⟩, hleft⟩
    · -- The parent of what is kept is the placement that was taken off.
      rw [(hkept.fitting q hq).2.1] at hparent
      cases hparent
      obtain ⟨hleft, hnot⟩ := hgone (h.claimed p List.mem_cons_self)
      exact ⟨⟨hfirst, hnot⟩, hleft⟩
  · intro q hq
    rcases List.mem_append.1 hq with hq | hq
    · exact h.inRange q (List.mem_cons_of_mem p hq)
    · exact (hkept.fitting q hq).2.2.2

namespace Rebuilt

variable {nodes : Nodes}

/-- What is rebuilt after a placement was taken off the queue was known before. -/
theorem known_before
    (h : Rebuilt (p.children unclaimed).2 (queue ++ (p.children unclaimed).1) nodes)
    {id : NodeId} {node : Node} (hget : nodes[id]? = some node) :
    id ∈ queue.map Placement.id ∨ (unclaimed[id]?).isSome = true := by
  have hkept := p.adopted_children unclaimed
  rcases h.known hget with hmem | hleft
  · rw [List.map_append, List.mem_append] at hmem
    rcases hmem with hmem | hmem
    · exact .inl hmem
    · obtain ⟨q, hq, rfl⟩ := List.mem_map.1 hmem
      exact .inr (hkept.fitting q hq).1
  · rw [hkept.leftover id] at hleft
    split at hleft
    · cases hleft
    · exact .inr hleft

theorem absent (h : Rebuilt (p.children unclaimed).2 (queue ++ (p.children unclaimed).1) nodes)
    {id : NodeId} (hnot : id ∉ queue.map Placement.id) (hnone : unclaimed[id]? = none) :
    nodes[id]? = none := by
  cases hget : nodes[id]? with
  | none => rfl
  | some node =>
    rcases h.known_before hget with hmem | hsome
    · exact absurd hmem hnot
    · rw [hnone] at hsome
      cases hsome

/-- The node of the next placement gathers the children that it keeps. -/
theorem gathers (h : Pending unclaimed (p :: queue))
    (hrest : Rebuilt (p.children unclaimed).2 (queue ++ (p.children unclaimed).1) nodes) :
    Gathers nodes (queue.map Placement.id) p.id
      (p.node ((p.children unclaimed).1.map Placement.id)) := by
  have hkept := p.adopted_children unclaimed
  have hlist := p.childList_node unclaimed
  have hnext := h.next.nodup
  rw [List.map_append] at hnext
  refine ⟨?_, ?_, ?_, ?_, ?_⟩
  · exact hrest.absent (List.nodup_cons.1 h.nodup).1 (h.claimed p List.mem_cons_self)
  · unfold Placement.node Node.kind Placement.kind
    cases p.properties.kind.isContainer <;> rfl
  · rw [hlist]
    exact hkept.nodup
  · -- What is kept was put in line, so it is rebuilt by now and names the placement.
    intro childId hmem
    rw [hlist] at hmem
    refine ⟨fun hmem' => List.disjoint_of_nodup_append hnext hmem' hmem, ?_⟩
    obtain ⟨q, hq, rfl⟩ := List.mem_map.1 hmem
    obtain ⟨child, hget, hparent, hproperties⟩ := hrest.placed q (List.mem_append_right _ hq)
    obtain ⟨-, hnames, haccepts, -⟩ := hkept.fitting q hq
    have hkind : child.kind = q.kind := congrArg Properties.kind hproperties
    exact ⟨child, hget, hparent.trans hnames, hkind ▸ haccepts⟩
  · -- The parent is not there yet, so no chain of parents leads to it.
    intro parent hparent hbelow
    obtain ⟨hnot, hnone⟩ := h.above p List.mem_cons_self parent hparent
    have hgone := hrest.absent (fun hmem => hnot (List.mem_cons_of_mem _ hmem)) hnone
    rcases Relation.ReflTransGen.cases_tail hbelow with rfl | ⟨_, -, node, hget, -⟩
    · exact hnot List.mem_cons_self
    · exact ne_of_free hget hgone rfl

/-- The next placement is put above the children that it keeps. -/
theorem insert (h : Pending unclaimed (p :: queue))
    (hrest : Rebuilt (p.children unclaimed).2 (queue ++ (p.children unclaimed).1) nodes) :
    Rebuilt unclaimed (p :: queue)
      (nodes.insert p.id (p.node ((p.children unclaimed).1.map Placement.id))) := by
  have hlist := p.childList_node unclaimed
  refine ⟨?_, ?_, ?_, ?_, ?_⟩
  · refine Forest.insert (hrest.forest.congr fun top => ?_) (gathers h hrest)
    rw [hlist, List.map_append, List.mem_append, List.mem_append, or_comm]
  · intro id node hget
    rw [getElem?_insert_eq] at hget
    split at hget
    case isTrue heq => exact .inl (heq ▸ List.mem_cons_self)
    case isFalse => exact (hrest.known_before hget).imp_left (List.mem_cons_of_mem _)
  · intro q hq
    rcases List.mem_cons.1 hq with rfl | hq
    · exact ⟨_, Std.ExtTreeMap.getElem?_insert_self, rfl, rfl⟩
    · obtain ⟨node, hget, hnode⟩ := hrest.placed q (List.mem_append_left _ hq)
      refine ⟨node, (getElem?_insert_of_ne _ ?_).trans hget, hnode⟩
      exact fun heq => (List.nodup_cons.1 h.nodup).1 (heq ▸ List.mem_map_of_mem hq)
  · intro id node hget hkind
    rw [getElem?_insert_eq] at hget
    split at hget
    · -- A row has room for as many columns as it may have.
      cases hget
      have hroom : p.room = maxColumns := if_pos hkind
      rw [hlist, List.length_map, ← hroom]
      exact Placement.length_adopt_le p.id p.kind p.room unclaimed p.listed
    · exact hrest.rows hget hkind
  · intro id node hget
    rw [getElem?_insert_eq] at hget
    split at hget
    · cases hget
      exact h.inRange p List.mem_cons_self
    · exact hrest.inRange hget

end Rebuilt

/-- Whatever waits in line and whatever the records are, the nodes hang below the line. -/
theorem rebuilt_rebuild (h : Pending unclaimed queue) :
    Rebuilt unclaimed queue (rebuild unclaimed queue) := by
  -- The queue is read forwards and the nodes are put in backwards: `next` goes in, `insert` out.
  fun_induction rebuild unclaimed queue with
  | case1 unclaimed =>
    refine ⟨Forest.empty [], ?_, fun _ hmem => absurd hmem List.not_mem_nil, ?_, ?_⟩
    · exact fun hget => absurd hget getElem?_empty_ne_some
    · exact fun hget => absurd hget getElem?_empty_ne_some
    · exact fun hget => absurd hget getElem?_empty_ne_some
  | case2 unclaimed p queue hsize ih => exact .insert h (ih h.next)

end MailTemplate
