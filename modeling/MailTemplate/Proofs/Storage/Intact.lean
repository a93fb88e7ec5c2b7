import MailTemplate.Proofs.Storage.Repair
import MailTemplate.Storage.Audit

/-!
# Loading Intact Records

Records that spell out sound nodes load as these nodes: every parent keeps all children that it
lists, and no row is to be filled up.

* `Record.loaded?` is the node that a record spells out, with what it records pulled into range.
* `Spelled` is the invariant of the queue while such records are rebuilt.
* `Tree.exists_ofRecords_of_sound` is the outcome.
-/

namespace MailTemplate

/-- A node that is waiting for its children. -/
def Node.placement (id : NodeId) (node : Node) : Placement where
  id := id
  parent := node.parent
  properties := node.properties
  listed := node.childList

/-- A node with what it records pulled into range. -/
def Node.clamp (node : Node) : Node :=
  { node with properties := node.properties.clamp }

theorem Kind.ofName?_eq_some_iff {name : String} {kind : Kind} :
    Kind.ofName? name = some kind ↔ name = kind.name := by
  constructor
  · intro h
    rw [ofName?] at h
    have hname := List.find?_some h
    exact (beq_iff_eq.1 hname).symm
  · rintro rfl
    cases kind <;> decide

/-- What a record says of the node that it spells out. -/
theorem Records.nodeOf?_eq_some_iff {record : Record} {node : Node} :
    nodeOf? record = some node ↔
      record.kind = node.kind.name ∧ record.parent = node.parent ∧
        Properties.ofStored node.kind record.properties = node.properties ∧
        record.children = node.children := by
  rw [nodeOf?, Option.map_eq_some_iff]
  constructor
  · rintro ⟨kind, hkind, rfl⟩
    rw [Node.kind, Properties.kind_ofStored]
    exact ⟨Kind.ofName?_eq_some_iff.1 hkind, rfl, rfl, rfl⟩
  · rintro ⟨hkind, hparent, hproperties, hchildren⟩
    refine ⟨node.kind, Kind.ofName?_eq_some_iff.2 hkind, ?_⟩
    rw [hparent, hproperties, hchildren]

@[simp]
theorem Node.kind_clamp (node : Node) : node.clamp.kind = node.kind :=
  Properties.kind_clamp node.properties

/-- The node that a record spells out, if its kind is known, with what it records pulled into
range. -/
def Record.loaded? (record : Record) : Option Node :=
  (Records.nodeOf? record).map Node.clamp

theorem Record.loaded?_eq_some {record : Record} {node : Node} (h : record.loaded? = some node) :
    Kind.ofName? record.kind = some node.kind ∧ record.parent = node.parent ∧
      (Properties.ofStored node.kind record.properties).clamp = node.properties ∧
      record.children = node.children := by
  obtain ⟨spelled, hspelled, rfl⟩ := Option.map_eq_some_iff.1 h
  obtain ⟨hkind, hparent, hproperties, hchildren⟩ := Records.nodeOf?_eq_some_iff.1 hspelled
  rw [Node.kind_clamp, hproperties]
  exact ⟨Kind.ofName?_eq_some_iff.2 hkind, hparent, rfl, hchildren⟩

namespace Placement

variable {parent : NodeId} {parentKind : Kind} {room : Nat} {unclaimed : Records}

/-- The record of a node is placed as the node. -/
theorem ofRecord_of_loaded? {id : NodeId} {record : Record} {node : Node}
    (h : record.loaded? = some node) :
    ofRecord id node.parent node.kind record = node.placement id := by
  obtain ⟨-, -, hproperties, hchildren⟩ := Record.loaded?_eq_some h
  unfold ofRecord Node.placement Node.childList
  rw [hproperties, hchildren]

/-- A parent keeps all that it lists if the records spell it out so. -/
theorem adopt_spelled {nodes : Nodes} {listed : List NodeId} (hroom : listed.length ≤ room)
    (hnodup : listed.Nodup)
    (hlisted : ∀ id ∈ listed, ∃ child, nodes[id]? = some child ∧
      (unclaimed[id]?).bind Record.loaded? = some child ∧ child.parent = some parent ∧
      parentKind.accepts child.kind = true) :
    (adopt parent parentKind room unclaimed listed).1.map Placement.id = listed ∧
      ∀ q ∈ (adopt parent parentKind room unclaimed listed).1,
        ∃ child, nodes[q.id]? = some child ∧ q = child.placement q.id := by
  have hcandidate : ∀ {unclaimed : Records} {id : NodeId} {child : Node},
      (unclaimed[id]?).bind Record.loaded? = some child →
      parentKind.accepts child.kind = true →
      ∃ record, record.loaded? = some child ∧
        candidate? parentKind unclaimed id = some (child.kind, record) := by
    intro unclaimed id child hspelled haccepts
    obtain ⟨record, hrecord, hloaded⟩ := Option.bind_eq_some_iff.1 hspelled
    exact ⟨record, hloaded,
      candidate?_eq_some_iff.2 ⟨hrecord, (Record.loaded?_eq_some hloaded).1, haccepts⟩⟩
  fun_induction adopt parent parentKind room unclaimed listed with
  | case1 unclaimed listed =>
    -- There is room for all that is listed, so nothing is cut off here.
    rw [List.length_eq_zero_iff.1 (Nat.le_zero.1 hroom)]
    exact ⟨rfl, fun _ hmem => absurd hmem List.not_mem_nil⟩
  | case2 => exact ⟨rfl, fun _ hmem => absurd hmem List.not_mem_nil⟩
  | case3 room unclaimed id listed kind record found kept left heq ih =>
    rw [List.nodup_cons] at hnodup
    obtain ⟨child, hget, hspelled, hparent, haccepts⟩ := hlisted id List.mem_cons_self
    obtain ⟨other, hloaded, hfound⟩ := hcandidate hspelled haccepts
    rw [hfound] at found
    cases found
    rw [heq] at ih
    obtain ⟨hids, hkept⟩ := ih (Nat.le_of_succ_le_succ hroom) hnodup.2 fun other hmem => by
      obtain ⟨n, hn, hspelled', hrest⟩ := hlisted other (List.mem_cons_of_mem _ hmem)
      have hne : other ≠ id := fun heq => hnodup.1 (heq ▸ hmem)
      refine ⟨n, hn, ?_, hrest⟩
      rw [getElem?_erase_of_ne hne]
      exact hspelled'
    rw [← hparent, ofRecord_of_loaded? hloaded]
    refine ⟨congrArg (id :: ·) hids, fun q hq => ?_⟩
    rcases List.mem_cons.1 hq with rfl | hq
    · exact ⟨child, hget, rfl⟩
    · exact hkept q hq
  | case4 room unclaimed id listed found ih =>
    -- A listed child has its record, so it is not passed over.
    obtain ⟨child, -, hspelled, -, haccepts⟩ := hlisted id List.mem_cons_self
    obtain ⟨record, -, hfound⟩ := hcandidate hspelled haccepts
    rw [hfound] at found
    cases found

end Placement

/-- Nodes are waiting to be rebuilt from the records that spell them out: the tops are in line, and
the records are those of the other nodes. -/
structure Spelled (nodes : Nodes) (unclaimed : Records) (queue : List Placement) : Prop where
  forest : Forest nodes (queue.map Placement.id)
  nodup : (queue.map Placement.id).Nodup
  queued : ∀ p ∈ queue, ∃ node, nodes[p.id]? = some node ∧ p = node.placement p.id
  records : ∀ id, (unclaimed[id]?).bind Record.loaded? =
    if id ∈ queue.map Placement.id then none else nodes[id]?
  rows : ∀ {id : NodeId} {node : Node}, nodes[id]? = some node → node.kind = .columns →
    node.childList.length ≤ maxColumns

namespace Spelled

variable {nodes : Nodes} {unclaimed : Records} {queue : List Placement} {p : Placement}
  {node : Node}

/-- The next node keeps what it lists. -/
theorem children (h : Spelled nodes unclaimed (p :: queue)) (hget : nodes[p.id]? = some node)
    (hp : p = node.placement p.id) :
    (p.children unclaimed).1.map Placement.id = node.childList ∧
      ∀ q ∈ (p.children unclaimed).1,
        ∃ child, nodes[q.id]? = some child ∧ q = child.placement q.id := by
  have hkind : p.kind = node.kind := congrArg Placement.kind hp
  have hlisted : p.listed = node.childList := congrArg Placement.listed hp
  unfold Placement.children
  rw [hkind, hlisted]
  refine Placement.adopt_spelled ?_ (h.forest.nodup_childList hget) fun id hmem => ?_
  · unfold Placement.room
    rw [hkind, hlisted]
    split
    case isTrue hrow => exact h.rows hget hrow
    case isFalse => exact Nat.le_refl _
  · obtain ⟨child, hchild, hparent, haccepts⟩ := h.forest.child hget hmem
    refine ⟨child, hchild, ?_, hparent, haccepts⟩
    rw [h.records, if_neg fun htop => h.forest.unlisted hget htop hmem, hchild]

/-- Without the next node, what it lists is in line. -/
theorem next (h : Spelled nodes unclaimed (p :: queue)) (hget : nodes[p.id]? = some node)
    (hp : p = node.placement p.id) :
    Spelled (nodes.erase p.id) (p.children unclaimed).2 (queue ++ (p.children unclaimed).1) := by
  obtain ⟨hids, hkept⟩ := h.children hget hp
  obtain ⟨hfirst, hqueue⟩ := List.nodup_cons.1 h.nodup
  have hmap : (queue ++ (p.children unclaimed).1).map Placement.id =
      queue.map Placement.id ++ node.childList := by
    rw [List.map_append, hids]
  have hapart : List.Disjoint (queue.map Placement.id) node.childList := fun id hmem hlisted =>
    h.forest.unlisted hget (List.mem_cons_of_mem _ hmem) hlisted
  refine ⟨?_, ?_, ?_, ?_, ?_⟩
  · refine (h.forest.uproot hget).congr fun top => ?_
    rw [hmap, List.mem_append, List.mem_append, or_comm]
  · rw [hmap]
    exact hqueue.append (h.forest.nodup_childList hget) hapart
  · intro q hq
    rcases List.mem_append.1 hq with hq | hq
    · obtain ⟨n, hn, heq⟩ := h.queued q (List.mem_cons_of_mem p hq)
      have hne : q.id ≠ p.id := fun heq' => hfirst (heq' ▸ List.mem_map_of_mem hq)
      exact ⟨n, (getElem?_erase_of_ne hne).trans hn, heq⟩
    · -- A node does not list itself, being a top.
      obtain ⟨n, hn, heq⟩ := hkept q hq
      have hmem : q.id ∈ node.childList := hids ▸ List.mem_map_of_mem hq
      have hne : q.id ≠ p.id := fun heq' =>
        h.forest.unlisted hget List.mem_cons_self (heq' ▸ hmem)
      exact ⟨n, (getElem?_erase_of_ne hne).trans hn, heq⟩
  · -- A record is left just for a node that is not in line.
    intro id
    have hleft := (p.adopted_children unclaimed).leftover id
    rw [hids] at hleft
    rw [hleft, hmap, getElem?_erase_eq]
    by_cases hmem : id ∈ node.childList
    · simp [hmem]
    · rw [if_neg hmem, h.records]
      by_cases heq : id = p.id <;> simp [hmem, heq]
  · exact fun hother => h.rows (getElem?_erase_eq_some_iff.1 hother).2

end Spelled

/-- What is rebuilt from the records that spell out nodes are the nodes. -/
theorem rebuild_spelled {nodes : Nodes} {unclaimed : Records} {queue : List Placement}
    (h : Spelled nodes unclaimed queue) : rebuild unclaimed queue = nodes := by
  -- What is put in last is the next node of the line, so the other nodes are rebuilt without it.
  fun_induction rebuild unclaimed queue generalizing nodes with
  | case1 unclaimed => exact h.forest.eq_empty.symm
  | case2 unclaimed p queue hsize ih =>
    obtain ⟨node, hget, hp⟩ := h.queued p List.mem_cons_self
    have hnode : p.node ((p.children unclaimed).1.map Placement.id) = node := by
      rw [(h.children hget hp).1]
      have hparent : p.parent = node.parent := congrArg Placement.parent hp
      have hproperties : p.properties = node.properties := congrArg Placement.properties hp
      have hchildren := Node.children_eq (h.forest.container hget)
      rw [Placement.node, Placement.kind, hparent, hproperties]
      exact congrArg (Node.mk node.parent node.properties) hchildren.symm
    rw [ih (h.next hget hp), hnode]
    exact insert_erase_self hget

namespace Tree

variable {tree : Tree} {records : Records} {nodes : Nodes}

/-- A row that fits is left as it is. -/
theorem exists_fillRow_of_fits {row : NodeId} {node : Node} (hget : tree.nodes[row]? = some node)
    (hkind : node.kind = .columns) (hfits : node.Fits) :
    ∃ next, tree.fillRow row = some next ∧ next.nodes = tree.nodes := by
  obtain ⟨record, hrecord⟩ := Node.kind_eq_columns hkind
  unfold Node.Fits at hfits
  rw [hrecord] at hfits
  obtain ⟨hmin, -, hcount⟩ := hfits
  have hsame : recordCount node.childList.length node = node := by
    rw [recordCount, hrecord, ← hcount, UInt32.ofNat_toNat]
    change { node with properties := .columns record } = node
    rw [← hrecord]
  refine ⟨tree.writeColumnCount row node.childList.length, fillRow_eq_some_iff.2 ?_, ?_⟩
  · rw [childrenOf_eq hget, Nat.sub_eq_zero_of_le hmin]
    exact ⟨tree, rfl, rfl⟩
  · rw [nodes_writeColumnCount, modify_eq_insert _ hget, hsame, insert_eq_self hget]

theorem exists_foldlM_fillRow_of_fits {rows : List NodeId}
    (hrows : ∀ row ∈ rows, ∃ node, tree.nodes[row]? = some node ∧ node.kind = .columns ∧
      node.Fits) : ∃ next, rows.foldlM fillRow tree = some next ∧ next.nodes = tree.nodes := by
  induction rows generalizing tree with
  | nil => exact ⟨tree, rfl, rfl⟩
  | cons row rows ih =>
    obtain ⟨node, hget, hkind, hfits⟩ := hrows row List.mem_cons_self
    obtain ⟨first, hfirst, hsame⟩ := exists_fillRow_of_fits hget hkind hfits
    have hothers : ∀ other ∈ rows, ∃ node, first.nodes[other]? = some node ∧
        node.kind = .columns ∧ node.Fits := by
      rw [hsame]
      exact fun other hmem => hrows other (List.mem_cons_of_mem _ hmem)
    obtain ⟨next, hnext, hlater⟩ := ih hothers
    exact ⟨next, foldlM_cons_eq_some_iff.2 ⟨first, hfirst, hnext⟩, hlater.trans hsame⟩

/-- Sound nodes are all kept when the records that spell them out are loaded. -/
theorem kept_of_sound (hspelled : ∀ id : NodeId, (records[id]?).bind Record.loaded? = nodes[id]?)
    (h : SoundBut nodes [] []) : records.kept = nodes := by
  obtain ⟨root, hroot, hparent, hkind⟩ := h.root
  have hloaded := (hspelled rootId).trans hroot
  obtain ⟨record, hrecord, hloaded⟩ := Option.bind_eq_some_iff.1 hloaded
  rw [Records.kept_of_some hrecord]
  refine rebuild_spelled ⟨h.forest, List.nodup_singleton _, ?_, ?_, ?_⟩
  · intro p hp
    rw [List.mem_singleton.1 hp, ← hparent, ← hkind, Placement.ofRecord_of_loaded? hloaded]
    exact ⟨root, hroot, rfl⟩
  · intro id
    rw [getElem?_erase_eq, ← hspelled]
    change (if id = rootId then none else records[id]?).bind Record.loaded? =
      if id ∈ [rootId] then none else (records[id]?).bind Record.loaded?
    by_cases heq : id = rootId <;> simp [heq]
  · exact fun hget hrow => ((h.fits hget List.not_mem_nil).length_bounds hrow).2

/-- Records that spell out sound nodes load as these nodes. -/
theorem exists_ofRecords_of_sound
    (hspelled : ∀ id : NodeId, (records[id]?).bind Record.loaded? = nodes[id]?)
    (h : SoundBut nodes [] []) : ∃ tree, ofRecords records = some tree ∧ tree.nodes = nodes := by
  obtain ⟨root, hroot, -⟩ := h.root
  obtain ⟨record, hrecord, -⟩ := Option.bind_eq_some_iff.1 ((hspelled rootId).trans hroot)
  have hkept := kept_of_sound hspelled h
  have hrows : ∀ row ∈ rowIds records.kept, ∃ node, (ofNodes records.kept).nodes[row]? = some node ∧
      node.kind = .columns ∧ node.Fits := by
    intro row hmem
    obtain ⟨node, hget, hkind⟩ := mem_rowIds_iff.1 hmem
    exact ⟨node, hget, hkind, h.fits (hkept ▸ hget) List.not_mem_nil⟩
  obtain ⟨tree, hok, hnodes⟩ := exists_foldlM_fillRow_of_fits hrows
  exact ⟨tree, (ofRecords_of_some hrecord).trans hok, hnodes.trans hkept⟩

end Tree

end MailTemplate
