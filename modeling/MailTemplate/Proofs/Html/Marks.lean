import MailTemplate.Proofs.Html.Names
import MailTemplate.Proofs.Tree.Lookup
import Mathlib.Data.List.Forall2

/-!
# Marks and Strings

The brackets and quotes of a document are the program's own. Two trees that differ in the strings
that their components record, but not in how many line breaks their texts hold, compile to documents
with the same marks in the same order, and neither has an ampersand that starts no entity.

## Main definitions

* `Properties.blank`: a record with all its strings emptied.
* `Tree.SameButStrings`: two trees with the same nodes but for strings.

## Main results

* `Tree.blank_fragment`: the fragments of such trees are the same markup but for texts.
* `Tree.marks_compile`: so their documents have the same marks.
-/

namespace MailTemplate

open Html

/-- The record with all its strings emptied. A string that is absent stays absent. -/
def Properties.blank : Properties → Properties
  | .root p =>
    .root { p with backgroundColor := "", contentBackgroundColor := "", fontFamily := "" }
  | .text p => .text { p with text := "", color := "" }
  | .heading h => .heading { h with text := "", color := "" }
  | .button b => .button { b with text := "", url := "", backgroundColor := "", textColor := "" }
  | .image i => .image { i with src := "", alt := "", link := i.link.map fun _ => "" }
  | .divider d => .divider { d with color := "" }
  | .spacer s => .spacer s
  | .columns r => .columns { r with backgroundColor := r.backgroundColor.map fun _ => "" }
  | .column c => .column { c with backgroundColor := c.backgroundColor.map fun _ => "" }

/-- How many line breaks the text of a component shows. -/
def Properties.lineBreaks : Properties → Nat
  | .text p => Html.lineBreaks p.text.toList
  | .heading h => Html.lineBreaks h.text.toList
  | _ => 0

/-- Two nodes are the same but for strings, and their texts have as many lines. -/
structure Node.SameButStrings (a b : Node) : Prop where
  parent : a.parent = b.parent
  children : a.children = b.children
  blank : a.properties.blank = b.properties.blank
  lineBreaks : a.properties.lineBreaks = b.properties.lineBreaks

/-- Two trees have the same ids, and at each id the same node but for strings. -/
def Tree.SameButStrings (a b : Tree) : Prop :=
  ∀ id : NodeId, Option.Rel Node.SameButStrings (a.get? id) (b.get? id)

/-! ## Parts of fragments -/

section Parts

variable {attributes attributes' width width' more more' : List Attribute}
  {content content' cells cells' : List Markup}

@[simp]
theorem blank_attribute (name value : String) :
    (⟨name, value⟩ : Attribute).blank = ⟨name, ""⟩ := rfl

@[simp]
theorem blank_style (declarations : List (String × String)) :
    (Attribute.style declarations).blank = ⟨"style", ""⟩ := rfl

theorem blank_cell (hattributes : attributes.map Attribute.blank = attributes'.map Attribute.blank)
    (hcontent : content.map Markup.blank = content'.map Markup.blank) :
    (cell attributes content).blank = (cell attributes' content').blank := by
  simp only [cell, Markup.blank, hattributes, hcontent]

theorem blank_layoutTable (hwidth : width.map Attribute.blank = width'.map Attribute.blank)
    (hmore : more.map Attribute.blank = more'.map Attribute.blank)
    (hcells : cells.map Markup.blank = cells'.map Markup.blank) :
    (layoutTable width more cells).blank = (layoutTable width' more' cells').blank := by
  -- The line feeds between the cells are put in after blanking as well as before.
  have hrow : ∀ cells : List Markup,
      (cells.flatMap fun cell => [cell, lineFeed]).map Markup.blank =
        (cells.map Markup.blank).flatMap fun cell => [cell, lineFeed.blank] := by
    intro cells
    simp [List.map_flatMap, List.flatMap_map]
  simp only [layoutTable, Markup.blank, List.map_append, List.map_cons, hwidth, hmore, hrow, hcells]

/-- A table of one cell around some content. -/
theorem blank_frame (hwidth : width.map Attribute.blank = width'.map Attribute.blank)
    (hmore : more.map Attribute.blank = more'.map Attribute.blank)
    (hattributes : attributes.map Attribute.blank = attributes'.map Attribute.blank)
    (hcontent : content.map Markup.blank = content'.map Markup.blank) :
    (layoutTable width more [cell attributes content]).blank =
      (layoutTable width' more' [cell attributes' content']).blank :=
  blank_layoutTable hwidth hmore
    (by simp only [List.map_cons, List.map_nil, blank_cell hattributes hcontent])

theorem blank_block (hattributes : attributes.map Attribute.blank = attributes'.map Attribute.blank)
    (hcontent : content.map Markup.blank = content'.map Markup.blank) :
    (block attributes content).map Markup.blank =
      (block attributes' content').map Markup.blank := by
  simp only [block, List.map_cons, blank_frame rfl rfl hattributes hcontent]

/-- A piece on lines of its own. -/
theorem blank_ownLine {m m' : Markup} (h : m.blank = m'.blank) :
    [lineFeed, m, lineFeed].map Markup.blank = [lineFeed, m', lineFeed].map Markup.blank := by
  simp only [List.map_cons, h]

theorem blank_background {color color' : Option String}
    (h : (color.map fun _ => "") = color'.map fun _ => "") :
    (background color).map Attribute.blank = (background color').map Attribute.blank := by
  cases color <;> cases color' <;> simp_all [background]

theorem blank_brokenLines (lines : List String) :
    (brokenLines lines).map Markup.blank = brokenLines (lines.map fun _ => "") := by
  fun_induction brokenLines lines with
  | case1 => rfl
  | case2 line => simp [brokenLines, Markup.blank]
  | case3 line rest hmore ih =>
    obtain ⟨next, rest, rfl⟩ := List.exists_cons_of_ne_nil hmore
    simpa [brokenLines, Markup.blank] using ih

/-- Texts with as many line breaks are broken in as many places. -/
theorem blank_multiline {s t : String} (h : Html.lineBreaks s.toList = Html.lineBreaks t.toList) :
    (multiline s).map Markup.blank = (multiline t).map Markup.blank := by
  rw [multiline, multiline, blank_brokenLines, blank_brokenLines, List.map_const', List.map_const',
    length_lines, length_lines, h]

end Parts

/-! ## Kinds of fragments

Only the break count of a text, the level of a heading and the presence of an optional string show
in the blanked markup of a component. -/

theorem Paragraph.blank_markup {p q : Paragraph}
    (h : Html.lineBreaks p.text.toList = Html.lineBreaks q.text.toList) :
    p.markup.map Markup.blank = q.markup.map Markup.blank := by
  rw [Paragraph.markup, Paragraph.markup]
  exact blank_block (by simp) (blank_multiline h)

theorem Heading.blank_markup {h k : Heading} (hlevel : h.level = k.level)
    (hbreaks : Html.lineBreaks h.text.toList = Html.lineBreaks k.text.toList) :
    h.markup.map Markup.blank = k.markup.map Markup.blank := by
  rw [Heading.markup, Heading.markup]
  refine blank_block (by simp) ?_
  simp only [List.map_cons, Markup.blank, hlevel, blank_multiline hbreaks, blank_style]

theorem Button.blank_markup (b c : Button) :
    b.markup.map Markup.blank = c.markup.map Markup.blank := by
  rw [Button.markup, Button.markup]
  refine blank_block (by simp) (blank_ownLine ?_)
  exact blank_frame rfl rfl (by simp) (by simp [Markup.blank])

theorem Image.blank_markup {i j : Image} (h : (i.link.map fun _ => "") = j.link.map fun _ => "")
    (available available' : UInt32) :
    (i.markup available).map Markup.blank = (j.markup available').map Markup.blank := by
  rw [Image.markup, Image.markup]
  refine blank_block (by simp) ?_
  revert h
  cases i.link <;> cases j.link <;> simp [Markup.blank]

theorem Divider.blank_markup (d e : Divider) :
    d.markup.map Markup.blank = e.markup.map Markup.blank := by
  rw [Divider.markup, Divider.markup]
  refine blank_block (by simp) (blank_ownLine ?_)
  exact blank_frame (by simp) rfl (by simp) rfl

theorem Spacer.blank_markup (s t : Spacer) :
    s.markup.map Markup.blank = t.markup.map Markup.blank := by
  rw [Spacer.markup, Spacer.markup]
  exact blank_block (by simp) rfl

section Rows

variable {content content' : List Markup} {width width' : UInt32}
  {columns columns' : List (Column × List Markup)}

theorem Column.blank_cell {c d : Column} {gap gap' : Option UInt32}
    (hcolor : (c.backgroundColor.map fun _ => "") = d.backgroundColor.map fun _ => "")
    (hcontent : content.map Markup.blank = content'.map Markup.blank) :
    (c.cell width gap content).blank = (d.cell width' gap' content').blank := by
  unfold Column.cell
  refine MailTemplate.blank_cell (by simp) (blank_ownLine ?_)
  exact blank_frame rfl (blank_background hcolor) (by simp)
    (by simp only [List.map_cons, hcontent])

/-- Two columns with their contents are the same but for strings and texts. -/
def SameColumn (x y : Column × List Markup) : Prop :=
  ((x.1.backgroundColor.map fun _ => "") = y.1.backgroundColor.map fun _ => "") ∧
    x.2.map Markup.blank = y.2.map Markup.blank

theorem Columns.blank_cells (r s : Columns) (h : List.Forall₂ SameColumn columns columns') :
    (r.cells width columns).map Markup.blank = (s.cells width' columns').map Markup.blank := by
  induction h with
  | nil => rfl
  | @cons x y rest rest' hfirst hrest ih =>
    -- Whether a gap follows shows in a style only, and the rest is empty on both sides or on none.
    cases hrest with
    | nil => simpa [cells] using Column.blank_cell hfirst.1 hfirst.2
    | cons hnext hrest =>
      simp only [cells, List.map_cons, List.cons.injEq] at ih ⊢
      exact ⟨Column.blank_cell hfirst.1 hfirst.2, ih⟩

theorem Columns.blank_markup {r s : Columns}
    (hcolor : (r.backgroundColor.map fun _ => "") = s.backgroundColor.map fun _ => "")
    (hcolumns : List.Forall₂ SameColumn columns columns') :
    (r.markup width columns).map Markup.blank = (s.markup width' columns').map Markup.blank := by
  simp only [markup, List.map_cons, List.map_nil, List.cons.injEq, and_true]
  refine blank_frame rfl (blank_background hcolor) (by simp) (blank_ownLine ?_)
  exact blank_layoutTable rfl rfl (r.blank_cells s hcolumns)

end Rows

/-! ## Fragments and documents -/

namespace Tree

variable {a b : Tree}

/-- At each id both trees have no node, or both have one. -/
theorem SameButStrings.none_or_some (h : a.SameButStrings b) (id : NodeId) :
    (a.get? id = none ∧ b.get? id = none) ∨
      ∃ m n, a.get? id = some m ∧ b.get? id = some n ∧ m.SameButStrings n := by
  have hid := h id
  revert hid
  cases a.get? id <;> cases b.get? id <;> rintro (hnode | _)
  · exact .inl ⟨rfl, rfl⟩
  · exact .inr ⟨_, _, rfl, rfl, hnode⟩

theorem SameButStrings.childrenOf_eq (h : a.SameButStrings b) (id : NodeId) :
    a.childrenOf id = b.childrenOf id := by
  unfold childrenOf
  rcases h.none_or_some id with ⟨ha, hb⟩ | ⟨m, n, ha, hb, hnode⟩
  · rw [ha, hb]
  · rw [ha, hb]
    exact congrArg (Option.getD · []) hnode.children

/-- The same children of a row are columns, and each is the same but for its background. -/
theorem SameButStrings.columnsAmong (h : a.SameButStrings b) (ids : List NodeId) :
    List.Forall₂ (fun x y => x.1 = y.1 ∧
        (x.2.backgroundColor.map fun _ => "") = y.2.backgroundColor.map fun _ => "")
      (a.columnsAmong ids) (b.columnsAmong ids) := by
  induction ids with
  | nil => exact .nil
  | cons id ids ih =>
    rw [Tree.columnsAmong, Tree.columnsAmong] at ih ⊢
    rw [List.filterMap_cons, List.filterMap_cons]
    rcases h.none_or_some id with ⟨ha, hb⟩ | ⟨⟨_, p, _⟩, ⟨_, q, _⟩, ha, hb, hnode⟩
    · rw [ha, hb]
      exact ih
    · have hblank : p.blank = q.blank := hnode.blank
      rw [ha, hb]
      dsimp only [Option.map_some]
      cases p <;> cases q <;> simp only [Properties.blank, reduceCtorEq] at hblank
      case column c d =>
        rw [Properties.column.injEq, Column.mk.injEq] at hblank
        exact .cons ⟨rfl, hblank.1⟩ ih
      all_goals exact ih

theorem blank_fragment (h : a.SameButStrings b) (levels : Nat) (id : NodeId)
    (available available' : UInt32) :
    (a.fragment levels id available).map Markup.blank =
      (b.fragment levels id available').map Markup.blank := by
  -- The content of a cell is two levels below its row, so one level back is not enough.
  induction levels using Nat.strong_induction_on generalizing id available available' with
  | _ levels ih =>
    cases levels with
    | zero => simp [fragment]
    | succ levels =>
      have hchildren : ∀ inner < levels + 1, ∀ (ids : List NodeId) (w w' : UInt32),
          (ids.flatMap (a.fragment inner · w)).map Markup.blank =
            (ids.flatMap (b.fragment inner · w')).map Markup.blank := by
        intro inner hlt ids w w'
        simp only [List.map_flatMap]
        exact List.flatMap_congr fun child _ => ih inner hlt child w w'
      rw [fragment, fragment]
      rcases h.none_or_some id with ⟨ha, hb⟩ | ⟨⟨_, p, list⟩, ⟨_, q, list'⟩, ha, hb, hnode⟩
      · rw [ha, hb]
      · have hlist : list = list' := hnode.children
        have hblank : p.blank = q.blank := hnode.blank
        have hbreaks : p.lineBreaks = q.lineBreaks := hnode.lineBreaks
        subst hlist
        simp only [ha, hb, Node.childList]
        cases p <;> cases q <;> simp only [Properties.blank, reduceCtorEq] at hblank
        case root => exact hchildren levels (Nat.lt_succ_self _) _ _ _
        case text => exact Paragraph.blank_markup hbreaks
        case heading =>
          rw [Properties.heading.injEq, Heading.mk.injEq] at hblank
          exact Heading.blank_markup hblank.2.1 hbreaks
        case button => exact Button.blank_markup _ _
        case image =>
          rw [Properties.image.injEq, Image.mk.injEq] at hblank
          exact Image.blank_markup hblank.2.2.2.2.1 _ _
        case divider => exact Divider.blank_markup _ _
        case spacer => exact Spacer.blank_markup _ _
        case column => exact hchildren levels (Nat.lt_succ_self _) _ _ _
        case columns =>
          rw [Properties.columns.injEq, Columns.mk.injEq] at hblank
          refine Columns.blank_markup hblank.2.2.2 ?_
          rw [List.forall₂_map_left_iff, List.forall₂_map_right_iff]
          refine (h.columnsAmong (list.getD [])).imp ?_
          rintro ⟨x, c⟩ ⟨y, d⟩ ⟨rfl, hcolor⟩
          refine ⟨hcolor, ?_⟩
          cases levels with
          | zero => rfl
          | succ inner =>
            dsimp only
            rw [h.childrenOf_eq]
            exact hchildren inner (by omega) _ _ _

end Tree

theorem blank_documentHead {s t : Option String} (h : s.isSome = t.isSome) :
    (documentHead s).blank = (documentHead t).blank := by
  cases s <;> cases t <;> simp_all [documentHead, Markup.blank]

section Document

variable {content content' : List Markup}

theorem Page.blank_body (page page' : Page)
    (hcontent : content.map Markup.blank = content'.map Markup.blank) :
    (page.body content).blank = (page'.body content').blank := by
  simp only [body, Markup.blank, List.map_cons, List.map_nil, blank_style, Markup.element.injEq,
    List.cons.injEq, and_true, true_and]
  refine blank_frame rfl (by simp) (by simp) (blank_ownLine ?_)
  exact blank_frame (by simp) (by simp) rfl (by simp only [List.map_cons, hcontent])

theorem Page.blank_document (page page' : Page) {s t : Option String}
    (htitle : s.isSome = t.isSome)
    (hcontent : content.map Markup.blank = content'.map Markup.blank) :
    (page.document s content).blank = (page'.document t content').blank := by
  simp only [document, Markup.blank, List.map_cons, blank_documentHead htitle,
    page.blank_body page' hcontent]

end Document

namespace Tree

variable {a b : Tree} {s t : Option String}

theorem blank_content (h : a.SameButStrings b) (available available' : UInt32) :
    (a.content available).map Markup.blank = (b.content available').map Markup.blank := by
  rw [content, content, h.childrenOf_eq, List.map_flatMap, List.map_flatMap]
  exact List.flatMap_congr fun child _ => blank_fragment h maxNesting child available available'

/-- In every document each ampersand starts an entity. -/
theorem referenced_compile (tree : Tree) (title : Option String) :
    Referenced (tree.compile title).toList := by
  let page := tree.page?.getD {}
  have hdoctype : Referenced doctype.toList := referenced_of_not_mem (by decide +kernel)
  have hbreak : Referenced ['\n'] := referenced_of_not_mem (by decide)
  have hdocument : Referenced
      (contentChars [page.document title (tree.content page.contentWidth), lineFeed]) :=
    referenced_contentChars
      (by simpa using page.wellNamed_document title (tree.wellNamed_content page.contentWidth))
  simpa [compile, write, page] using (hdoctype.append hbreak).append hdocument

/-- Documents of trees that differ in strings only have the same brackets and quotes in the same
order, and each ampersand in them starts an entity. -/
theorem marks_compile (hsame : a.SameButStrings b) (htitle : s.isSome = t.isSome) :
    (a.compile s).toList.filter isMark = (b.compile t).toList.filter isMark ∧
      Referenced (a.compile s).toList ∧ Referenced (b.compile t).toList := by
  have hdocument : ∀ page page' : Page,
      [page.document s (a.content page.contentWidth), lineFeed].map Markup.blank =
        [page'.document t (b.content page'.contentWidth), lineFeed].map Markup.blank := by
    intro page page'
    have hcontent := blank_content hsame page.contentWidth page'.contentWidth
    simp only [List.map_cons, page.blank_document page' htitle hcontent]
  refine ⟨?_, a.referenced_compile s, b.referenced_compile t⟩
  simp only [compile, write, String.toList_append, String.toList_ofList, List.filter_append,
    filter_isMark_contentChars (hdocument (a.page?.getD {}) (b.page?.getD {}))]

/-- The tree that holds one text in a colour. -/
def oneText (text color : String) : Tree :=
  .ofNodes (((∅ : Nodes).insert rootId ⟨none, .root {}, some ["text-1"]⟩).insert "text-1"
    ⟨some rootId, .text { text, color }, none⟩)

/-- A harmless text and one that looks like markup, with a title each. -/
theorem marks_compile_script :
    (oneText "one\ntwo" "#333333").SameButStrings (oneText "<script>\r\n&amp;" "\"><b>") ∧
      (some "Hello").isSome = (some "</title>").isSome ∧
      ((oneText "one\ntwo" "#333333").compile (some "Hello")).toList.filter isMark =
        ((oneText "<script>\r\n&amp;" "\"><b>").compile (some "</title>")).toList.filter isMark ∧
      Referenced ((oneText "one\ntwo" "#333333").compile (some "Hello")).toList ∧
      Referenced ((oneText "<script>\r\n&amp;" "\"><b>").compile (some "</title>")).toList := by
  have hsame : (oneText "one\ntwo" "#333333").SameButStrings
      (oneText "<script>\r\n&amp;" "\"><b>") := by
    intro id
    simp only [oneText, ofNodes, get?, getElem?_insert_eq]
    split_ifs
    · exact .some ⟨rfl, rfl, rfl, by decide +kernel⟩
    · exact .some ⟨rfl, rfl, rfl, rfl⟩
    · rw [Std.ExtTreeMap.getElem?_empty]
      exact .none
  have htitle : (some "Hello").isSome = (some "</title>").isSome := rfl
  exact ⟨hsame, htitle, marks_compile hsame htitle⟩

end Tree

end MailTemplate
