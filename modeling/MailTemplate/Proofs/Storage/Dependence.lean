import MailTemplate.Proofs.Storage.Faithful

/-!
# What Loading Depends On

A tree is rebuilt from the root along lists of children, so it depends on the records that are
reached in this way and on nothing else: not on the other records, and of each record just on the
kind, on what its properties read as, and on the children that it lists.

* `Records.Reaches` are the ids that are reached from the root.
* `Record.Alike` says that two records load alike, and `Tree.ofRecords_congr` that records which are
  alike wherever the root reaches load as the same tree.
* `Tree.ofRecords_eq_of_reached` says that other records do not matter at all.
-/

namespace MailTemplate

/-- Two records are loaded as the same node with the same children in line. -/
structure Record.Alike (r s : Record) : Prop where
  kind : r.kind = s.kind
  properties : ∀ kind, Properties.ofStored kind r.properties = .ofStored kind s.properties
  children : r.children.getD [] = s.children.getD []

theorem Record.Alike.refl (r : Record) : r.Alike r :=
  ⟨rfl, fun _ => rfl, rfl⟩

/-- The ids that are reached from the root along the lists of children of records. -/
def Records.Reaches (records : Records) : NodeId → Prop :=
  Relation.ReflTransGen (fun parent child => child ∈ records.listed parent) rootId

/-- Records are alike at some ids, and what they list there are again such ids. -/
structure Records.AlikeOn (ids : Set NodeId) (left right : Records) : Prop where
  alike : ∀ id ∈ ids, Option.Rel Record.Alike left[id]? right[id]?
  closed : ∀ id ∈ ids, ∀ record, left[id]? = some record →
    ∀ child ∈ record.children.getD [], child ∈ ids

namespace Records.AlikeOn

variable {ids : Set NodeId} {left right : Records}

/-- Taking away the records of an id on both sides keeps the others alike. -/
theorem erase (h : AlikeOn ids left right) (key : NodeId) :
    AlikeOn ids (left.erase key) (right.erase key) where
  alike id hmem := by
    rw [getElem?_erase_eq, getElem?_erase_eq]
    by_cases heq : id = key
    · rw [if_pos heq, if_pos heq]
      exact .none
    · rw [if_neg heq, if_neg heq]
      exact h.alike id hmem
  closed id hmem record hget := h.closed id hmem record (getElem?_erase_eq_some_iff.1 hget).2

end Records.AlikeOn

namespace Placement

variable {ids : Set NodeId} {left right : Records} {parent id : NodeId} {parentKind kind : Kind}
  {r s : Record}

theorem ofRecord_congr (h : r.Alike s) (parent : Option NodeId) :
    ofRecord id parent kind r = ofRecord id parent kind s := by
  rw [ofRecord, ofRecord, h.properties, h.children]

/-- A parent finds the same candidate in records that are alike. -/
theorem candidate?_congr (parentKind : Kind) (h : Records.AlikeOn ids left right)
    (hmem : id ∈ ids) :
    Option.Rel (fun l r => l.1 = r.1 ∧ l.2.Alike r.2) (candidate? parentKind left id)
      (candidate? parentKind right id) := by
  have halike := h.alike id hmem
  unfold candidate?
  -- From here on only the two records matter, and not where they were found.
  generalize left[id]? = l at halike ⊢
  generalize right[id]? = r at halike ⊢
  cases halike with
  | none => exact .none
  | @some r s halike =>
    dsimp only
    rw [halike.kind]
    cases Kind.ofName? s.kind with
    | none => exact .none
    | some kind =>
      dsimp only
      split
      · exact .some ⟨rfl, halike⟩
      · exact .none

theorem adopt_nil (room : Nat) (unclaimed : Records) :
    adopt parent parentKind room unclaimed [] = ([], unclaimed) := by
  cases room <;> rfl

/-- A parent keeps the same of records that are alike, and leaves records that are alike. -/
theorem adopt_congr (parent : NodeId) (parentKind : Kind) (room : Nat) {listed : List NodeId}
    (h : Records.AlikeOn ids left right) (hlisted : ∀ id ∈ listed, id ∈ ids) :
    (adopt parent parentKind room left listed).1 = (adopt parent parentKind room right listed).1 ∧
      Records.AlikeOn ids (adopt parent parentKind room left listed).2
        (adopt parent parentKind room right listed).2 := by
  fun_induction adopt parent parentKind room left listed generalizing right with
  | case1 =>
    rw [adopt]
    exact ⟨rfl, h⟩
  | case2 =>
    rw [adopt_nil]
    exact ⟨rfl, h⟩
  | case3 room left id listed kind record found kept rest heq ih =>
    rw [List.forall_mem_cons] at hlisted
    have hsame := candidate?_congr parentKind h hlisted.1
    rw [found] at hsame
    generalize hfound : candidate? parentKind right id = other at hsame
    obtain @⟨_, ⟨_, record'⟩, rfl, halike⟩ := hsame
    -- The id is kept on both sides, and what is left is without it on both.
    obtain ⟨hkept, hrest⟩ := ih (h.erase id) hlisted.2
    rw [heq] at hkept hrest
    rw [adopt, hfound]
    exact ⟨congrArg₂ List.cons (ofRecord_congr halike _) hkept, hrest⟩
  | case4 room left id listed found ih =>
    rw [List.forall_mem_cons] at hlisted
    have hsame := candidate?_congr parentKind h hlisted.1
    rw [found] at hsame
    generalize hfound : candidate? parentKind right id = other at hsame
    -- The id is passed over on both sides, and nothing is taken from the records.
    cases hsame
    rw [adopt, hfound]
    exact ih h hlisted.2

/-- Children that are kept list what is reached from their parent. -/
theorem listed_mem_of_children {p : Placement} (h : Records.AlikeOn ids left right)
    (hlisted : ∀ id ∈ p.listed, id ∈ ids) :
    ∀ q ∈ (p.children left).1, ∀ id ∈ q.listed, id ∈ ids := by
  intro q hq
  have hmem : q.id ∈ ids :=
    hlisted _ ((sublist_adopt p.id p.kind p.room left p.listed).subset (List.mem_map_of_mem hq))
  obtain ⟨record, kind, hget, -, heq⟩ := exists_record_of_mem_adopt q hq
  rw [heq]
  exact h.closed q.id hmem record hget

end Placement

/-- What is rebuilt from a queue is the same for records that are alike where the queue reaches. -/
theorem rebuild_congr {ids : Set NodeId} {left right : Records} {queue : List Placement}
    (h : Records.AlikeOn ids left right) (hqueue : ∀ p ∈ queue, ∀ id ∈ p.listed, id ∈ ids) :
    rebuild left queue = rebuild right queue := by
  fun_induction rebuild left queue generalizing right with
  | case1 => rw [rebuild]
  | case2 left p queue hsize ih =>
    rw [List.forall_mem_cons] at hqueue
    have hchildren : (p.children left).1 = (p.children right).1 ∧
        Records.AlikeOn ids (p.children left).2 (p.children right).2 :=
      Placement.adopt_congr p.id p.kind p.room h hqueue.1
    -- The queue goes on with the children, which list again only what is reached.
    rw [rebuild, ← hchildren.1, ih hchildren.2]
    intro q hq
    rcases List.mem_append.1 hq with hq | hq
    · exact hqueue.2 q hq
    · exact Placement.listed_mem_of_children h hqueue.1 q hq

namespace Tree

variable {P Q : Records}

/-- What the root reaches is closed under the lists of children. -/
theorem alikeOn_reaches (h : ∀ id, P.Reaches id → Option.Rel Record.Alike P[id]? Q[id]?) :
    Records.AlikeOn {id | P.Reaches id} P Q where
  alike := h
  closed id hmem record hget child hchild := by
    refine Relation.ReflTransGen.tail hmem ?_
    rwa [Records.listed_of_get hget]

/-- Records that are alike wherever the root reaches load as the same tree. -/
theorem ofRecords_congr (h : ∀ id, P.Reaches id → Option.Rel Record.Alike P[id]? Q[id]?) :
    ofRecords P = ofRecords Q := by
  have hreached := alikeOn_reaches h
  have hroot := h rootId .refl
  generalize hrootP : P[rootId]? = record at hroot
  generalize hrootQ : Q[rootId]? = record' at hroot
  cases hroot with
  | none => rw [ofRecords_of_none hrootP, ofRecords_of_none hrootQ]
  | @some r s halike =>
    -- The root is taken out first, and the queue begins with its list.
    have hkept : P.kept = Q.kept := by
      rw [Records.kept_of_some hrootP, Records.kept_of_some hrootQ,
        Placement.ofRecord_congr halike none]
      refine rebuild_congr (hreached.erase rootId) ?_
      rw [List.forall_mem_singleton]
      intro child hchild
      exact hreached.closed rootId .refl r hrootP child (halike.children ▸ hchild)
    rw [ofRecords_of_some hrootP, ofRecords_of_some hrootQ, hkept]

/-- Two collections of records that have the same record, or none, at each id that the root reaches
load as the same tree, with the same new columns and the same number for the next id, or both come
to no end. -/
theorem ofRecords_eq_of_reached (P Q : Records) (h : ∀ id, P.Reaches id → P[id]? = Q[id]?) :
    ofRecords P = ofRecords Q := by
  refine ofRecords_congr fun id hid => ?_
  rw [← h id hid]
  cases P[id]? with
  | none => exact .none
  | some record => exact .some (.refl record)

end Tree

/-- Records with two more that list each other. -/
def Records.withLoop (records : Records) : Records :=
  let row : Record := ⟨"row-900", "columns", some "column-7", .null, some ["column-7"]⟩
  let column : Record := ⟨"column-7", "column", some "row-900", .null, some ["row-900"]⟩
  (records.insert "row-900" row).insert "column-7" column

theorem Tree.ofRecords_eq_of_reached_withLoop :
    (∀ id, (Records.salvage tangled).Reaches id →
        (Records.salvage tangled)[id]? = (Records.salvage tangled).withLoop[id]?) ∧
      (Tree.ofRecords (Records.salvage tangled)).isSome = true ∧
      Tree.ofRecords (Records.salvage tangled) =
        Tree.ofRecords (Records.salvage tangled).withLoop := by
  -- Three ids are closed under what they list, and neither new record stands under one of them.
  have hlisted : ∀ parent ∈ ["root", "row-1", "gone"],
      ∀ child ∈ (Records.salvage tangled).listed parent, child ∈ ["root", "row-1", "gone"] := by
    decide +kernel
  have hsame : ∀ id, (Records.salvage tangled).Reaches id →
      (Records.salvage tangled)[id]? = (Records.salvage tangled).withLoop[id]? := by
    intro id hid
    have hmem : id ∈ ["root", "row-1", "gone"] := by
      induction hid with
      | refl => exact List.mem_cons_self
      | tail _ hchild ih => exact hlisted _ ih _ hchild
    rw [Records.withLoop, getElem?_insert_of_ne, getElem?_insert_of_ne]
    · rintro rfl
      revert hmem
      decide
    · rintro rfl
      revert hmem
      decide
  exact ⟨hsame, by decide +kernel, Tree.ofRecords_eq_of_reached _ _ hsame⟩

end MailTemplate
