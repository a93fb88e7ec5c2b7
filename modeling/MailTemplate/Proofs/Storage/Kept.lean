import MailTemplate.Proofs.Storage.Rebuild

/-!
# What Is Kept of the Records

A parent keeps what it lists in the order in which it lists it, and passes over an id only if there
is no record that it can keep, if the record was kept elsewhere, or if it is a row that is full.

* `Placement.mem_adopt_or_full` says it for one parent and the records that are left.
* `Sourced` says it for all nodes that are rebuilt; `sourced_rebuild` is the induction on the queue.
-/

namespace MailTemplate

/-- There is a record of an id that a parent of a kind can keep. -/
def Records.Eligible (records : Records) (parentKind : Kind) (id : NodeId) : Prop :=
  ∃ record kind, records[id]? = some record ∧ Kind.ofName? record.kind = some kind ∧
    parentKind.accepts kind = true

/-- A row is full of children that it lists before an id. -/
structure CutOff (node : Node) (listed : List NodeId) (id : NodeId) : Prop where
  row : node.kind = .columns
  full : node.childList.length = maxColumns
  before : ∃ before after, listed = before ++ id :: after ∧ id ∉ before ∧
    node.childList.Sublist before

namespace Placement

variable {parent id : NodeId} {parentKind : Kind} {room : Nat} {unclaimed : Records}
  {listed : List NodeId}

theorem exists_candidate?_iff :
    (∃ found, candidate? parentKind unclaimed id = some found) ↔
      unclaimed.Eligible parentKind id := by
  constructor
  · rintro ⟨⟨kind, record⟩, hfound⟩
    exact ⟨record, kind, candidate?_eq_some_iff.1 hfound⟩
  · rintro ⟨record, kind, hrecord⟩
    exact ⟨(kind, record), candidate?_eq_some_iff.2 hrecord⟩

/-- What a parent keeps is in the order in which it lists it. -/
theorem sublist_adopt (parent : NodeId) (parentKind : Kind) (room : Nat) (unclaimed : Records)
    (listed : List NodeId) :
    ((adopt parent parentKind room unclaimed listed).1.map Placement.id).Sublist listed := by
  fun_induction adopt parent parentKind room unclaimed listed with
  | case1 | case2 => exact List.nil_sublist _
  | case3 room unclaimed id listed kind record found kept left heq ih =>
    rw [heq] at ih
    exact ih.cons_cons id
  | case4 room unclaimed id listed found ih => exact ih.cons id

/-- What a parent keeps comes from a record that it can keep. -/
theorem exists_record_of_mem_adopt :
    ∀ q ∈ (adopt parent parentKind room unclaimed listed).1, ∃ record kind,
      unclaimed[q.id]? = some record ∧ Kind.ofName? record.kind = some kind ∧
        q = ofRecord q.id (some parent) kind record := by
  fun_induction adopt parent parentKind room unclaimed listed with
  | case1 | case2 => exact fun _ hmem => absurd hmem List.not_mem_nil
  | case3 room unclaimed id listed kind record found kept left heq ih =>
    rw [heq] at ih
    intro q hq
    rcases List.mem_cons.1 hq with rfl | hq
    · obtain ⟨hrecord, hkind, -⟩ := candidate?_eq_some_iff.1 found
      exact ⟨record, kind, hrecord, hkind, rfl⟩
    · obtain ⟨other, otherKind, hother, hrest⟩ := ih q hq
      exact ⟨other, otherKind, (getElem?_erase_eq_some_iff.1 hother).2, hrest⟩
  | case4 room unclaimed id listed found ih => exact ih

/-- A parent keeps each listed id that it can keep, unless it has no room left at its turn. -/
theorem mem_adopt_or_full (parent : NodeId) (parentKind : Kind) (room : Nat) (unclaimed : Records)
    (hmem : id ∈ listed) (hfound : unclaimed.Eligible parentKind id) :
    id ∈ (adopt parent parentKind room unclaimed listed).1.map Placement.id ∨
      (adopt parent parentKind room unclaimed listed).1.length = room ∧
        ∃ before after, listed = before ++ id :: after ∧ id ∉ before ∧
          ((adopt parent parentKind room unclaimed listed).1.map Placement.id).Sublist before := by
  fun_induction adopt parent parentKind room unclaimed listed with
  | case1 unclaimed listed =>
    obtain ⟨before, after, hlisted, hnot⟩ := List.eq_append_cons_of_mem hmem
    exact .inr ⟨rfl, before, after, hlisted, hnot, List.nil_sublist _⟩
  | case2 => exact absurd hmem List.not_mem_nil
  | case3 room unclaimed first listed kind record found kept left heq ih =>
    rw [heq] at ih
    by_cases hfirst : id = first
    · exact .inl (hfirst ▸ List.mem_cons_self)
    · obtain ⟨other, otherKind, hother, hrest⟩ := hfound
      rcases ih (List.mem_of_ne_of_mem hfirst hmem)
          ⟨other, otherKind, (getElem?_erase_of_ne hfirst).trans hother, hrest⟩ with hkept | hfull
      · exact .inl (List.mem_cons_of_mem _ hkept)
      · obtain ⟨hlength, before, after, hlisted, hnot, hsublist⟩ := hfull
        refine .inr ⟨congrArg (· + 1) hlength, first :: before, after, ?_, ?_, ?_⟩
        · rw [hlisted, List.cons_append]
        · rw [List.mem_cons, not_or]
          exact ⟨hfirst, hnot⟩
        · exact hsublist.cons_cons first
  | case4 room unclaimed first listed found ih =>
    -- What is passed over here cannot be kept, so it is not the id.
    have hfirst : id ≠ first := by
      rintro rfl
      obtain ⟨other, hother⟩ := exists_candidate?_iff.2 hfound
      rw [hother] at found
      cases found
    rcases ih (List.mem_of_ne_of_mem hfirst hmem) hfound with hkept | hfull
    · exact .inl hkept
    · obtain ⟨hlength, before, after, hlisted, hnot, hsublist⟩ := hfull
      refine .inr ⟨hlength, first :: before, after, ?_, ?_, hsublist.cons first⟩
      · rw [hlisted, List.cons_append]
      · rw [List.mem_cons, not_or]
        exact ⟨hfirst, hnot⟩

end Placement

/-- A node keeps children that are listed for it, in that order, and each of those that can be kept
is there, unless the node is a full row. -/
structure Retains (unclaimed : Records) (nodes : Nodes) (listed : List NodeId) (node : Node) :
    Prop where
  sublist : node.childList.Sublist listed
  eligible : ∀ id ∈ listed, unclaimed.Eligible node.kind id →
    (∃ n, nodes[id]? = some n) ∨ CutOff node listed id

/-- All nodes come from the queue or from the records, and keep of what is listed for them all that
can be kept. -/
structure Sourced (unclaimed : Records) (queue : List Placement) (nodes : Nodes) : Prop where
  queued : ∀ p ∈ queue, ∃ node, nodes[p.id]? = some node ∧ node.kind = p.kind ∧
    Retains unclaimed nodes p.listed node
  recorded : ∀ {id : NodeId} {node : Node}, nodes[id]? = some node →
    id ∉ queue.map Placement.id → ∃ record, unclaimed[id]? = some record ∧
      Kind.ofName? record.kind = some node.kind ∧
      Retains unclaimed nodes (record.children.getD []) node

namespace Retains

variable {unclaimed left : Records} {nodes nodes' : Nodes} {listed : List NodeId} {node : Node}

/-- It does no harm if some of what could be kept was kept before. -/
theorem of_leftover (h : Retains left nodes listed node)
    (hkept : ∀ id : NodeId, (∃ n, nodes'[id]? = some n) ∨ left[id]? = unclaimed[id]?)
    (hsub : ∀ {id : NodeId} {n : Node}, nodes[id]? = some n → ∃ n, nodes'[id]? = some n) :
    Retains unclaimed nodes' listed node where
  sublist := h.sublist
  eligible id hmem heligible := by
    rcases hkept id with hthere | hleft
    · exact .inl hthere
    · obtain ⟨record, kind, hrecord, hrest⟩ := heligible
      refine (h.eligible id hmem ⟨record, kind, hleft.trans hrecord, hrest⟩).imp_left ?_
      exact fun ⟨n, hn⟩ => hsub hn

/-- A placement retains what it lists among the children that it keeps. -/
theorem of_children (p : Placement)
    (hthere : ∀ q ∈ (p.children unclaimed).1, ∃ n, nodes[q.id]? = some n) :
    Retains unclaimed nodes p.listed (p.node ((p.children unclaimed).1.map Placement.id)) := by
  have hlist := p.childList_node unclaimed
  have hsublist : ((p.children unclaimed).1.map Placement.id).Sublist p.listed :=
    Placement.sublist_adopt p.id p.kind p.room unclaimed p.listed
  refine ⟨?_, fun id hmem heligible => ?_⟩
  · rw [hlist]
    exact hsublist
  · rcases Placement.mem_adopt_or_full p.id p.kind p.room unclaimed hmem heligible with
      hkept | ⟨hlength, before, after, hlisted, hnot, hbefore⟩
    · obtain ⟨q, hq, rfl⟩ := List.mem_map.1 hkept
      exact .inl (hthere q hq)
    · by_cases hrow : p.kind = .columns
      · refine .inr ⟨hrow, ?_, before, after, hlisted, hnot, ?_⟩
        · rw [hlist, List.length_map]
          exact hlength.trans (if_pos hrow)
        · rw [hlist]
          exact hbefore
      · -- Any other parent has room for all that it lists.
        have hroom : p.room = p.listed.length := if_neg hrow
        have hle := hbefore.length_le
        rw [List.length_map, hlength, hroom, hlisted, List.length_append, List.length_cons] at hle
        omega

end Retains

theorem sourced_rebuild {unclaimed : Records} {queue : List Placement}
    (h : Pending unclaimed queue) : Sourced unclaimed queue (rebuild unclaimed queue) := by
  fun_induction rebuild unclaimed queue with
  | case1 unclaimed =>
    refine ⟨fun _ hmem => absurd hmem List.not_mem_nil, fun hget => ?_⟩
    exact absurd hget getElem?_empty_ne_some
  | case2 unclaimed p queue hsize ih =>
    have hrest := ih h.next
    have hkept := p.adopted_children unclaimed
    obtain ⟨hfirst, -⟩ := List.nodup_cons.1 h.nodup
    generalize hnodes : rebuild (p.children unclaimed).2 (queue ++ (p.children unclaimed).1) =
      nodes at hrest ⊢
    generalize hnode : p.node ((p.children unclaimed).1.map Placement.id) = node at *
    have hsub : ∀ {id : NodeId} {n : Node}, nodes[id]? = some n →
        ∃ n, (nodes.insert p.id node)[id]? = some n := by
      intro id n hget
      rw [getElem?_insert_eq]
      split
      · exact ⟨node, rfl⟩
      · exact ⟨n, hget⟩
    -- What is not left to the rest of the queue is among what the placement keeps.
    have hthere : ∀ q ∈ (p.children unclaimed).1,
        ∃ n, (nodes.insert p.id node)[q.id]? = some n := by
      intro q hq
      obtain ⟨n, hget, -⟩ := hrest.queued q (List.mem_append_right _ hq)
      exact hsub hget
    have hleft : ∀ id : NodeId, (∃ n, (nodes.insert p.id node)[id]? = some n) ∨
        (p.children unclaimed).2[id]? = unclaimed[id]? := by
      intro id
      rw [hkept.leftover id]
      split
      case isTrue hmem =>
        obtain ⟨q, hq, rfl⟩ := List.mem_map.1 hmem
        exact .inl (hthere q hq)
      case isFalse => exact .inr rfl
    refine ⟨fun q hq => ?_, fun {id n} hget hnot => ?_⟩
    · rcases List.mem_cons.1 hq with rfl | hq
      · refine ⟨node, Std.ExtTreeMap.getElem?_insert_self, hnode ▸ rfl, ?_⟩
        rw [← hnode]
        exact .of_children q (hnode ▸ hthere)
      · obtain ⟨n, hget, hkind, hretains⟩ := hrest.queued q (List.mem_append_left _ hq)
        have hne : q.id ≠ p.id := fun heq => hfirst (heq ▸ List.mem_map_of_mem hq)
        exact ⟨n, (getElem?_insert_of_ne _ hne).trans hget, hkind, hretains.of_leftover hleft hsub⟩
    · rw [List.map_cons, List.mem_cons, not_or] at hnot
      rw [getElem?_insert_of_ne _ hnot.1] at hget
      by_cases hchild : id ∈ (p.children unclaimed).1.map Placement.id
      · -- What the placement keeps comes from the records, and is in line behind the queue.
        obtain ⟨q, hq, rfl⟩ := List.mem_map.1 hchild
        obtain ⟨record, kind, hrecord, hname, heq⟩ := Placement.exists_record_of_mem_adopt q hq
        obtain ⟨n', hget', hkind, hretains⟩ := hrest.queued q (List.mem_append_right _ hq)
        rw [hget] at hget'
        cases hget'
        have hqkind : q.kind = kind := by rw [heq, Placement.kind_ofRecord]
        have hlisted : q.listed = record.children.getD [] := by rw [heq]; rfl
        rw [hlisted] at hretains
        exact ⟨record, hrecord, by rw [hname, hkind, hqkind], hretains.of_leftover hleft hsub⟩
      · have hqueue : id ∉ (queue ++ (p.children unclaimed).1).map Placement.id := by
          rw [List.map_append, List.mem_append, not_or]
          exact ⟨hnot.2, hchild⟩
        obtain ⟨record, hrecord, hname, hretains⟩ := hrest.recorded hget hqueue
        rw [hkept.leftover id, if_neg hchild] at hrecord
        exact ⟨record, hrecord, hname, hretains.of_leftover hleft hsub⟩

end MailTemplate
