import MailTemplate.Storage.Fallback
import MailTemplate.Storage.Text
import MailTemplate.Tree.Rows

/-!
# Loading and Repair

Any stored records load as a sound tree. The tree is rebuilt from the root record along the lists of
children, nearest to the root first. A child is kept if its record exists, is of a known kind that
the parent holds, and was not kept elsewhere before; a row keeps at most four columns and is filled
up to two. Whatever the root does not reach is left out. Only the search for ids of new columns may
come to no end, and then there is no tree.

* `Tree.ofRecords` loads records, `Tree.ofJson` any JSON value, `Tree.ofText` a text.
-/

namespace MailTemplate

open Json (ReadError)

/-- A record that has found its place, and whose children are to be taken in. -/
structure Placement where
  /-- The id under which it is kept. -/
  id : NodeId
  /-- The node that keeps it. -/
  parent : Option NodeId
  /-- What it records, read and pulled into range. -/
  properties : Properties
  /-- The children that it lists. -/
  listed : List NodeId

namespace Placement

/-- A stored record of a kind at its place. -/
def ofRecord (id : NodeId) (parent : Option NodeId) (kind : Kind) (record : Record) :
    Placement where
  id := id
  parent := parent
  properties := (Properties.ofStored kind record.properties).clamp
  listed := record.children.getD []

/-- The kind of the component. -/
def kind (p : Placement) : Kind :=
  p.properties.kind

/-- How many children there is room for. -/
def room (p : Placement) : Nat :=
  if p.kind = .columns then maxColumns else p.listed.length

/-- The record of an id that a parent can keep, with its kind. -/
def candidate? (parentKind : Kind) (unclaimed : Records) (id : NodeId) : Option (Kind × Record) :=
  match unclaimed[id]? with
  | some record =>
    match Kind.ofName? record.kind with
    | some kind => if parentKind.accepts kind then some (kind, record) else none
    | none => none
  | none => none

/-- The listed children that a parent keeps while there is room, and the records left over. -/
def adopt (parent : NodeId) (parentKind : Kind) :
    (room : Nat) → (unclaimed : Records) → (listed : List NodeId) → List Placement × Records
  | 0, unclaimed, _ => ([], unclaimed)
  | _, unclaimed, [] => ([], unclaimed)
  | room + 1, unclaimed, id :: listed =>
    match candidate? parentKind unclaimed id with
    | some (kind, record) =>
      let (kept, left) := adopt parent parentKind room (unclaimed.erase id) listed
      (ofRecord id (some parent) kind record :: kept, left)
    | none => adopt parent parentKind (room + 1) unclaimed listed

/-- The children that a placed record keeps, and the records left over. -/
def children (p : Placement) (unclaimed : Records) : List Placement × Records :=
  adopt p.id p.kind p.room unclaimed p.listed

/-- The node of a placed record with the children it keeps. -/
def node (p : Placement) (kept : List NodeId) : Node where
  parent := p.parent
  properties := p.properties
  children := if p.kind.isContainer then some kept else none

end Placement

/-- Each child that is kept takes one record away. -/
theorem Placement.size_adopt (parent : NodeId) (parentKind : Kind) (room : Nat)
    (unclaimed : Records) (listed : List NodeId) :
    (adopt parent parentKind room unclaimed listed).1.length +
      (adopt parent parentKind room unclaimed listed).2.size ≤ unclaimed.size := by
  fun_induction adopt parent parentKind room unclaimed listed with
  | case1 | case2 => simp
  | case3 room unclaimed id listed kind record found kept left eq ih =>
    simp only [eq, List.length_cons] at ih ⊢
    have present : unclaimed[id]?.isSome := by
      unfold candidate? at found
      split at found <;> simp_all
    have member : id ∈ unclaimed := Std.ExtTreeMap.mem_iff_isSome_getElem?.2 present
    have positive : unclaimed.size ≠ 0 := fun hz =>
      Std.ExtTreeMap.ne_empty_of_mem member (Std.ExtTreeMap.eq_empty_iff_size_eq_zero.2 hz)
    rw [Std.ExtTreeMap.size_erase, if_pos (Std.ExtTreeMap.mem_iff_contains.1 member)] at ih
    omega
  | case4 _ _ _ _ _ ih => exact ih

/-- The nodes of the placements in a queue and of all that they keep, in breadth-first order. -/
def rebuild (unclaimed : Records) : (queue : List Placement) → Nodes
  | [] => ∅
  | p :: queue =>
    have := Placement.size_adopt p.id p.kind p.room unclaimed p.listed
    (rebuild (p.children unclaimed).2 (queue ++ (p.children unclaimed).1)).insert p.id
      (p.node ((p.children unclaimed).1.map Placement.id))
termination_by queue => unclaimed.size + queue.length
decreasing_by simp only [Placement.children, List.length_append, List.length_cons]; omega

namespace Tree

/-- Fills a row up to the fewest columns, and records how many it has. -/
def fillRow (tree : Tree) (row : NodeId) : Option Tree := do
  let count := (tree.childrenOf row).length
  let filled ← tree.appendColumns row (minColumns - count)
  return filled.writeColumnCount row (if count < minColumns then minColumns else count)

/-- The ids of the rows among nodes. -/
def rowIds (nodes : Nodes) : List NodeId :=
  (nodes.toList.filter fun (_, node) => node.kind = .columns).map Prod.fst

/-- The tree of stored records; without a root record it is the empty tree. -/
def ofRecords (records : Records) : Option Tree :=
  match records[rootId]? with
  | none => some .empty
  | some record =>
    let nodes := rebuild (records.erase rootId) [.ofRecord rootId none .root record]
    (rowIds nodes).foldlM fillRow (ofNodes nodes)

/-- The tree of any JSON value. What is not a well-formed record is left out. -/
def ofJson (json : Json) : Option Tree :=
  ofRecords (Records.salvage json)

/-- The tree of a text, which has to be JSON. -/
def ofText (text : String) : Except ReadError (Option Tree) := do
  return ofJson (← Json.ofText text)

end Tree

end MailTemplate
