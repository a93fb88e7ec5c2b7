import MailTemplate.Command.Basic
import MailTemplate.Proofs.Storage.Intact
import MailTemplate.Proofs.Tree.Outline

/-!
# The Audit and the Repair Agree

The audit finds nothing wrong with stored records just if the repair leaves every record at its
place, and the stored properties record a width and numbers of columns that are right.

* `Records.PlacedIn` says that a tree has the records' ids, kinds, parents and children.
* `Records.RecordsFit` says that the stored properties fit the records.
* `Records.audit_eq_nil_iff` ties both to the audit.
-/

namespace MailTemplate

/-- A node that fits still fits when its record is pulled into range. -/
theorem Node.Fits.clamp {node : Node} (h : node.Fits) : node.clamp.Fits := by
  by_cases hkind : node.kind = .columns
  · obtain ⟨row, hrow⟩ := Node.kind_eq_columns hkind
    refine h.congr ?_ fun _ => rfl
    rw [Node.clamp, hrow]
    rfl
  · refine Node.fits_of_inRange (Properties.inRange_clamp _) fun hclamp => hkind ?_
    rw [← hclamp, Node.kind_clamp]

/-- Soundness looks at the form of the nodes, and at what they record. -/
theorem SoundBut.of_sameForm {nodes nodes' : Nodes} {loose opened : List NodeId}
    (h : SoundBut nodes loose opened) (hsame : SameForm nodes nodes')
    (hfits : ∀ {id : NodeId} {node : Node}, nodes'[id]? = some node → id ∉ opened → node.Fits) :
    SoundBut nodes' loose opened := by
  obtain ⟨root, hroot, hparent, hkind⟩ := h.root
  obtain ⟨root', hroot', hparent', hkind', -⟩ := hsame.exists_of_get hroot
  exact ⟨⟨root', hroot', hparent'.trans hparent, hkind'.trans hkind⟩,
    h.forest.of_sameForm hsame, hfits⟩

namespace Records

variable {records : Records} {tree : Tree} {record : Record}

/-- All records are of known kinds. -/
def Known (records : Records) : Prop :=
  ∀ (id : NodeId) record, records[id]? = some record → ∃ kind, Kind.ofName? record.kind = some kind

/-- A tree has nodes at the ids of the records and at no others, and each is of the kind, names the
parent and has the children of its record. -/
def PlacedIn (records : Records) (tree : Tree) : Prop :=
  ∀ id, (tree.get? id).map (fun node => (node.kind.name, node.parent, node.children)) =
    (records[id]?).map fun record => (record.kind, record.parent, record.children)

/-- The stored properties of the root record a width in range, and those of a row the number of its
children. -/
structure RecordsFit (records : Records) : Prop where
  width : ∀ record page, records[rootId]? = some record →
    Properties.ofStored .root record.properties = .root page →
    minWidth ≤ page.maxWidth ∧ page.maxWidth ≤ maxWidth
  columns : ∀ (id : NodeId) record row, records[id]? = some record →
    record.kind = Kind.columns.name →
    Properties.ofStored .columns record.properties = .columns row →
    row.columns.toNat = (record.children.getD []).length

/-! ## The tree that the records spell out -/

theorem getElem?_verbatim (records : Records) (id : NodeId) :
    records.verbatim.nodes[id]? = (records[id]?).bind nodeOf? :=
  Std.ExtTreeMap.getElem?_filterMap'

theorem unknownKinds_eq_nil_iff : records.unknownKinds = [] ↔ records.Known := by
  unfold unknownKinds Known
  rw [List.filterMap_eq_nil_iff, Prod.forall]
  refine forall₂_congr fun id record => ?_
  rw [mem_toList_iff]
  refine imp_congr_right fun _ => ?_
  cases hkind : Kind.ofName? record.kind <;> simp [hkind]

theorem audit_eq_nil_iff_sound :
    records.audit = [] ↔ records.Known ∧ records.verbatim.Sound := by
  rw [audit, List.append_eq_nil_iff, unknownKinds_eq_nil_iff, Tree.violations_eq_nil_iff_sound]

theorem isSome_nodeOf? :
    (nodeOf? record).isSome = true ↔ ∃ kind, Kind.ofName? record.kind = some kind := by
  rw [nodeOf?, Option.isSome_map, Option.isSome_iff_exists]

/-- All records have their place in a tree just if the tree has the form that they spell out. -/
theorem placedIn_iff :
    records.PlacedIn tree ↔ records.Known ∧ SameForm tree.nodes records.verbatim.nodes := by
  unfold PlacedIn Known SameForm
  rw [← forall_and]
  refine forall_congr' fun id => ?_
  rw [getElem?_verbatim, Tree.get?]
  cases hrecord : records[id]? with
  | none => simp
  | some record =>
    simp only [Option.some.injEq, forall_eq', ← isSome_nodeOf?, Option.map_some, Option.bind_some]
    constructor
    · intro hplaced
      obtain ⟨node, hget, heq⟩ := Option.map_eq_some_iff.1 hplaced
      simp only [Prod.mk.injEq] at heq
      obtain ⟨hkind, hparent, hchildren⟩ := heq
      have hspelled : nodeOf? record = some ⟨record.parent,
          .ofStored node.kind record.properties, record.children⟩ := by
        rw [nodeOf?, Kind.ofName?_eq_some_iff.2 hkind.symm, Option.map_some]
      rw [hspelled, hget, Option.map_some, Option.map_some, Node.form, Node.form, hparent,
        hchildren, Node.kind, Node.kind, Properties.kind_ofStored]
      exact ⟨rfl, rfl⟩
    · rintro ⟨hknown, hform⟩
      obtain ⟨spelled, hspelled⟩ := Option.isSome_iff_exists.1 hknown
      obtain ⟨hkind, hparent, -, hchildren⟩ := nodeOf?_eq_some_iff.1 hspelled
      rw [hspelled, Option.map_some] at hform
      obtain ⟨node, hget, heq⟩ := Option.map_eq_some_iff.1 hform
      simp only [Node.form, Prod.mk.injEq] at heq
      rw [hget, Option.map_some, heq.1, heq.2.1, heq.2.2, hkind, hparent, hchildren]

/-! ## What the records record -/

/-- What is spelled out soundly is loaded as it is, but for what is out of range. -/
theorem exists_sameForm_ofRecords (h : records.verbatim.Sound) :
    ∃ tree, Tree.ofRecords records = some tree ∧ SameForm tree.nodes records.verbatim.nodes := by
  let nodes : Nodes := records.verbatim.nodes.map fun _ node => node.clamp
  have hget : ∀ id : NodeId, nodes[id]? = (records.verbatim.nodes[id]?).map Node.clamp :=
    fun _ => Std.ExtTreeMap.getElem?_map
  have hsame : SameForm nodes records.verbatim.nodes := by
    intro id
    rw [hget, Option.map_map]
    refine congrFun (congrArg Option.map (funext fun node => ?_)) _
    rw [Function.comp_apply, Node.form, Node.kind_clamp]
    rfl
  have hsound : SoundBut nodes [] [] := by
    refine SoundBut.of_sameForm h hsame.symm fun {other node} hother _ => ?_
    rw [hget] at hother
    obtain ⟨spelled, hspelled, rfl⟩ := Option.map_eq_some_iff.1 hother
    exact (h.fits hspelled).clamp
  obtain ⟨tree, hok, hloaded⟩ :
      ∃ tree, Tree.ofRecords records = some tree ∧ tree.nodes = nodes := by
    refine Tree.exists_ofRecords_of_sound (fun id => ?_) hsound
    rw [hget, getElem?_verbatim, Option.map_bind]
    rfl
  exact ⟨tree, hok, hloaded ▸ hsame⟩

theorem recordsFit_of_sound (h : records.verbatim.Sound) : records.RecordsFit where
  width record page hrecord hpage := by
    obtain ⟨root, hroot, -, hkind⟩ := h.root
    have hfits : root.Fits := h.fits hroot
    rw [getElem?_verbatim, hrecord, Option.bind_some] at hroot
    obtain ⟨-, -, hproperties, -⟩ := nodeOf?_eq_some_iff.1 hroot
    rw [hkind, hpage] at hproperties
    rw [Node.Fits, ← hproperties] at hfits
    exact (clampWidth_eq_self_iff _).1 hfits
  columns id record row hrecord hkind hrow := by
    have hspelled : nodeOf? record = some ⟨record.parent, .columns row, record.children⟩ :=
      nodeOf?_eq_some_iff.2 ⟨hkind, rfl, hrow, rfl⟩
    have hget := getElem?_verbatim records id
    rw [hrecord, Option.bind_some, hspelled] at hget
    exact (h.fits hget).2.2

/-- What is spelled out in the form of a sound tree is sound, if the records fit. -/
theorem sound_verbatim (h : tree.Sound) (hsame : SameForm tree.nodes records.verbatim.nodes)
    (hrecords : records.RecordsFit) : records.verbatim.Sound := by
  have hforest := h.forest.of_sameForm hsame
  refine SoundBut.of_sameForm h hsame fun {id spelled} hget _ => ?_
  obtain ⟨node, hnode, -, hkind, hchildren⟩ := hsame.symm.exists_of_get hget
  have hspelled := (getElem?_verbatim records id).symm.trans hget
  obtain ⟨record, hrecord, hspelled⟩ := Option.bind_eq_some_iff.1 hspelled
  obtain ⟨hname, -, hproperties, hlisted⟩ := nodeOf?_eq_some_iff.1 hspelled
  unfold Node.Fits
  cases hp : spelled.properties with
  | root page =>
    -- Only the root is of its kind.
    have hroot : spelled.kind = .root := congrArg Properties.kind hp
    have hid : id = rootId := by
      by_contra hne
      exact hforest.kind_ne_root hget hne hroot
    rw [hroot, hp] at hproperties
    exact (clampWidth_eq_self_iff _).2 (hrecords.width record page (hid ▸ hrecord) hproperties)
  | columns row =>
    have hrow : spelled.kind = .columns := congrArg Properties.kind hp
    have hbounds := (h.fits hnode).length_bounds (hkind.trans hrow)
    have hlist : spelled.childList = node.childList := by
      rw [Node.childList, Node.childList, hchildren]
    rw [hrow, hp] at hproperties
    rw [hrow] at hname
    have hcount := hrecords.columns id record row hrecord hname hproperties
    rw [hlisted] at hcount
    exact ⟨hlist ▸ hbounds.1, hlist ▸ hbounds.2, hcount⟩
  | _ => trivial

/-- The audit finds nothing wrong just if the repair ends and leaves every record at its place, with
its kind, parent and children, and the stored properties record a width and numbers of columns that
fit. -/
theorem audit_eq_nil_iff (records : Records) :
    records.audit = [] ↔
      ∃ tree, Tree.ofRecords records = some tree ∧ records.PlacedIn tree ∧ records.RecordsFit := by
  rw [audit_eq_nil_iff_sound]
  constructor
  · rintro ⟨hknown, hsound⟩
    obtain ⟨tree, hok, hsame⟩ := exists_sameForm_ofRecords hsound
    exact ⟨tree, hok, placedIn_iff.2 ⟨hknown, hsame⟩, recordsFit_of_sound hsound⟩
  · rintro ⟨tree, hok, hplaced, hrecords⟩
    obtain ⟨hknown, hsame⟩ := placedIn_iff.1 hplaced
    exact ⟨hknown, sound_verbatim (Tree.sound_ofRecords hok) hsame hrecords⟩

/-- The records of a row with its two columns below the root. -/
def ofRow : Records :=
  ofTree (((Command.addComponent .columns rootId none).execute .empty).get (by decide +kernel)).1

theorem audit_eq_nil_iff_ofRow :
    ofRow.audit = [] ∧
      ∃ tree, Tree.ofRecords ofRow = some tree ∧ ofRow.PlacedIn tree ∧ ofRow.RecordsFit := by
  have haudit : ofRow.audit = [] := by decide +kernel
  exact ⟨haudit, (audit_eq_nil_iff ofRow).1 haudit⟩

end Records

end MailTemplate
