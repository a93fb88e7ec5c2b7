import MailTemplate.Proofs.Html.Names

/-!
# Nesting of Tags

Reads the tags of a text back, the stretches from an opening angle bracket to the next closing one,
and matches end tags with start tags on a stack. Of what is written of a tree every start tag is
closed in order, whatever the tree holds and however deep it is.

## Main definitions

* `tags?`: the tags of a text, in order.
* `openAfter`: the names that some tags leave open.

## Main results

* `tags?_contentChars`: reading well-named markup gives the tags that it was written with.
* `Tree.balanced_output`: documents and fragments are balanced.
-/

namespace MailTemplate

namespace Html

/-- A tag by its part in the nesting. -/
inductive Tag where
  /-- A start tag. -/
  | opening (name : List Char)
  /-- An end tag. -/
  | closing (name : List Char)
  /-- A start tag that closes itself. -/
  | single
deriving DecidableEq

/-- The tag with some characters between its brackets. A start tag is named by what comes before the
first blank, and it closes itself if it ends in a slash. -/
def Tag.ofChars (cs : List Char) : Tag :=
  match cs with
  | '/' :: name => .closing name
  | _ => if cs.getLast? = some '/' then .single else .opening (cs.takeWhile (!·.isWhitespace))

mutual

/-- The tags of a text, if each has an end. -/
def tags? : List Char → Option (List Tag)
  | [] => some []
  | c :: cs => if c = '<' then tagsInside? [] cs else tags? cs

/-- The tags of what is left of a text inside a tag, of which some has been read. -/
def tagsInside? (read : List Char) : List Char → Option (List Tag)
  | [] => none
  | c :: cs =>
    if c = '>' then (tags? cs).map (Tag.ofChars read :: ·) else tagsInside? (read ++ [c]) cs

end

/-- The names that are open after some tags, the innermost first, given those that are open before.
There are none if an end tag does not close the innermost. -/
def openAfter : (names : List (List Char)) → List Tag → Option (List (List Char))
  | names, [] => some names
  | names, .opening name :: tags => openAfter (name :: names) tags
  | names, .single :: tags => openAfter names tags
  | [], .closing _ :: _ => none
  | innermost :: names, .closing name :: tags =>
    if name = innermost then openAfter names tags else none

/-- Each start tag is closed by an end tag of its name, and the innermost one first. -/
def Balanced (tags : List Tag) : Prop :=
  openAfter [] tags = some []

/-! ## Reading a tag -/

/-- What is read of a text, inside a tag or outside, is read of it in front of another text too. -/
theorem tags?_append_or (xs ys : List Char) :
    (∀ tags, tags? xs = some tags → tags? (xs ++ ys) = (tags? ys).map (tags ++ ·)) ∧
      ∀ read tags, tagsInside? read xs = some tags →
        tagsInside? read (xs ++ ys) = (tags? ys).map (tags ++ ·) := by
  induction xs with
  | nil => simp [tags?, tagsInside?]
  | cons c xs ih =>
    obtain ⟨houtside, hinside⟩ := ih
    constructor
    · intro tags hread
      rw [tags?] at hread
      rw [List.cons_append, tags?]
      split_ifs at hread ⊢
      · exact hinside [] tags hread
      · exact houtside tags hread
    · intro read tags hread
      rw [tagsInside?] at hread
      rw [List.cons_append, tagsInside?]
      split_ifs at hread ⊢
      · -- The tag ends here, so the text behind it is outside again.
        obtain ⟨more, hmore, rfl⟩ := Option.map_eq_some_iff.1 hread
        rw [houtside more hmore, Option.map_map]
        rfl
      · exact hinside (read ++ [c]) tags hread

theorem tags?_append {xs ys : List Char} {front back : List Tag} (hx : tags? xs = some front)
    (hy : tags? ys = some back) : tags? (xs ++ ys) = some (front ++ back) := by
  rw [(tags?_append_or xs ys).1 front hx, hy, Option.map_some]

theorem tags?_of_not_mem {cs : List Char} (h : '<' ∉ cs) : tags? cs = some [] := by
  induction cs with
  | nil => rfl
  | cons c cs ih =>
    rw [List.mem_cons, not_or] at h
    rw [tags?, if_neg (Ne.symm h.1), ih h.2]

theorem tagsInside?_of_not_mem {cs : List Char} (h : '>' ∉ cs) (read : List Char) :
    tagsInside? read (cs ++ ['>']) = some [Tag.ofChars (read ++ cs)] := by
  induction cs generalizing read with
  | nil => simp [tagsInside?, tags?]
  | cons c cs ih =>
    rw [List.mem_cons, not_or] at h
    rw [List.cons_append, tagsInside?, if_neg (Ne.symm h.1), ih h.2, List.append_assoc,
      List.singleton_append]

/-- A tag is read up to the bracket that closes it. -/
theorem tags?_bracketed {cs : List Char} (h : '>' ∉ cs) :
    tags? ('<' :: (cs ++ ['>'])) = some [Tag.ofChars cs] := by
  rw [tags?, if_pos rfl, tagsInside?_of_not_mem h, List.nil_append]

section TagChars

variable {tag : String} {attributes : List Attribute}

theorem not_mem_attributes (hattributes : ∀ a ∈ attributes, isName a.name) :
    '>' ∉ attributes.flatMap Attribute.chars := by
  rw [List.mem_flatMap]
  rintro ⟨a, ha, hmem⟩
  have hname := not_mem_of_isName (hattributes a ha) (c := '>') rfl
  have hvalue : '>' ∉ escapeChars a.value.toList := fun hmem =>
    absurd (isMark_of_mem_escapeChars hmem) (by decide)
  simp [Attribute.chars, hname, hvalue] at hmem

theorem not_mem_tagChars (htag : isName tag) (hattributes : ∀ a ∈ attributes, isName a.name) :
    '>' ∉ tagChars tag attributes := by
  rw [tagChars, List.mem_append, not_or]
  exact ⟨not_mem_of_isName htag rfl, not_mem_attributes hattributes⟩

theorem exists_cons_of_isName (h : isName tag) :
    ∃ c cs, tag.toList = c :: cs ∧ isNameChar c := by
  cases htag : tag.toList with
  | nil => simp [isName, htag] at h
  | cons c cs => exact ⟨c, cs, rfl, isNameChar_of_mem h (htag ▸ List.mem_cons_self)⟩

/-- What is no end tag is read to its last character. -/
theorem Tag.ofChars_of_isName (h : isName tag) (rest : List Char) :
    Tag.ofChars (tag.toList ++ rest) =
      if (tag.toList ++ rest).getLast? = some '/' then .single
      else .opening ((tag.toList ++ rest).takeWhile (!·.isWhitespace)) := by
  obtain ⟨c, cs, htag, hc⟩ := exists_cons_of_isName h
  rw [htag, List.cons_append]
  unfold Tag.ofChars
  split
  · -- A name does not start with a slash.
    rename_i name heq
    rw [List.cons.injEq] at heq
    rw [heq.1] at hc
    cases hc
  · rfl

/-- A start tag ends in a character of its name or in a quote. -/
theorem getLast?_tagChars_ne (h : isName tag) (attributes : List Attribute) :
    (tagChars tag attributes).getLast? ≠ some '/' := by
  rcases List.eq_nil_or_concat attributes with rfl | ⟨init, a, rfl⟩
  · rw [tagChars, List.flatMap_nil, List.append_nil]
    exact fun hlast => not_mem_of_isName h rfl (List.mem_of_getLast? hlast)
  · have hquote : ∃ cs, tagChars tag (init.concat a) = cs ++ ['"'] :=
      ⟨tag.toList ++ init.flatMap Attribute.chars ++
        (' ' :: a.name.toList ++ '=' :: '"' :: escapeChars a.value.toList),
        by simp [tagChars, Attribute.chars]⟩
    obtain ⟨cs, hquote⟩ := hquote
    rw [hquote, List.getLast?_concat]
    decide

theorem takeWhile_tagChars (h : isName tag) (attributes : List Attribute) :
    (tagChars tag attributes).takeWhile (!·.isWhitespace) = tag.toList := by
  have hname : ∀ c ∈ tag.toList, (!c.isWhitespace) = true := by
    intro c hc
    by_contra hblank
    simp only [Bool.not_eq_true, Bool.not_eq_false', Char.isWhitespace, Bool.or_eq_true,
      decide_eq_true_eq] at hblank
    rcases hblank with ((rfl | rfl) | rfl) | rfl <;> exact not_mem_of_isName h rfl hc
  have hrest : (attributes.flatMap Attribute.chars).takeWhile (!·.isWhitespace) = [] := by
    cases attributes with
    | nil => rfl
    | cons a attributes => simp [Attribute.chars, Char.isWhitespace]
  rw [tagChars, List.takeWhile_append_of_pos hname, hrest, List.append_nil]

theorem Tag.ofChars_tagChars (h : isName tag) :
    Tag.ofChars (tagChars tag attributes) = .opening tag.toList := by
  have hlast := getLast?_tagChars_ne h attributes
  have htake := takeWhile_tagChars h attributes
  rw [tagChars] at hlast htake ⊢
  rw [Tag.ofChars_of_isName h, if_neg hlast, htake]

theorem Tag.ofChars_void (h : isName tag) :
    Tag.ofChars (tagChars tag attributes ++ [' ', '/']) = .single := by
  rw [tagChars, List.append_assoc, Tag.ofChars_of_isName h, if_pos (by simp)]

end TagChars

/-! ## Reading markup -/

/-- The tags that a piece of markup is written with. -/
def Markup.tags : Markup → List Tag
  | .text _ | .space => []
  | .void _ _ => [.single]
  | .element tag _ content =>
    .opening tag.toList :: (content.flatMap Markup.tags ++ [.closing tag.toList])

theorem tags?_flatMap {content : List Markup} (h : ∀ m ∈ content, tags? m.chars = some m.tags) :
    tags? (contentChars content) = some (content.flatMap Markup.tags) := by
  induction content with
  | nil => rfl
  | cons m content ih =>
    rw [List.forall_mem_cons] at h
    rw [contentChars, List.flatMap_cons]
    exact tags?_append h.1 (ih h.2)

/-- Well-named markup reads back as the tags that it was written with. -/
theorem Markup.tags?_chars {m : Markup} (h : m.WellNamed) : tags? m.chars = some m.tags := by
  induction m with
  | text s =>
    rw [chars, tags]
    exact tags?_of_not_mem fun hmem => absurd (isMark_of_mem_escapeChars hmem) (by decide)
  | space =>
    rw [chars, tags]
    exact tags?_of_not_mem (by decide)
  | void tag attributes =>
    rw [WellNamed] at h
    have hinside : '>' ∉ tagChars tag attributes ++ [' ', '/'] := by
      simp [not_mem_tagChars h.1 h.2]
    have hread := tags?_bracketed hinside
    rw [Tag.ofChars_void h.1] at hread
    simpa [chars, tags] using hread
  | element tag attributes content ih =>
    rw [WellNamed] at h
    obtain ⟨htag, hattributes, hcontent⟩ := h
    have hstart := tags?_bracketed (not_mem_tagChars htag hattributes)
    rw [Tag.ofChars_tagChars htag] at hstart
    have hinner := tags?_flatMap fun m hm => ih m hm (hcontent m hm)
    have hend : tags? ('<' :: ('/' :: tag.toList ++ ['>'])) = some [.closing tag.toList] :=
      tags?_bracketed (by simp [not_mem_of_isName htag (c := '>') rfl])
    simpa [chars, tags] using tags?_append (tags?_append hstart hinner) hend

theorem tags?_contentChars {content : List Markup} (h : ∀ m ∈ content, m.WellNamed) :
    tags? (contentChars content) = some (content.flatMap Markup.tags) :=
  tags?_flatMap fun m hm => Markup.tags?_chars (h m hm)

/-! ## Matching tags -/

theorem openAfter_flatMap {content : List Markup}
    (h : ∀ m ∈ content, ∀ names rest, openAfter names (m.tags ++ rest) = openAfter names rest)
    (names : List (List Char)) (rest : List Tag) :
    openAfter names (content.flatMap Markup.tags ++ rest) = openAfter names rest := by
  induction content with
  | nil => rfl
  | cons m content ih =>
    rw [List.forall_mem_cons] at h
    rw [List.flatMap_cons, List.append_assoc, h.1, ih h.2]

/-- A piece of markup leaves open what was open before it. -/
theorem Markup.openAfter_tags (m : Markup) (names : List (List Char)) (rest : List Tag) :
    openAfter names (m.tags ++ rest) = openAfter names rest := by
  induction m generalizing names rest with
  | text s => simp [tags]
  | space => simp [tags]
  | void tag attributes => simp [tags, openAfter]
  | element tag attributes content ih =>
    -- The content is between the start tag and the end tag, and leaves the start tag innermost.
    simp only [tags, List.cons_append, List.append_assoc, List.nil_append, openAfter,
      openAfter_flatMap ih, if_true]

theorem balanced_tags (content : List Markup) : Balanced (content.flatMap Markup.tags) := by
  rw [Balanced, ← List.append_nil (content.flatMap Markup.tags)]
  exact openAfter_flatMap (fun m _ => m.openAfter_tags) [] []

end Html

open Html

theorem tags?_doctype : tags? doctype.toList = some [.opening "!DOCTYPE".toList] := by
  decide +kernel

/-- In every document all tags after the type of the document are balanced, and in every fragment
all tags are. -/
theorem Tree.balanced_output (tree : Tree) :
    (∀ title, ∃ tags,
      tags? (tree.compile title).toList = some (.opening "!DOCTYPE".toList :: tags) ∧
        Balanced tags) ∧
    ∀ id available, ∃ tags,
      tags? (tree.renderNode id available).toList = some tags ∧ Balanced tags := by
  constructor
  · intro title
    let page := tree.page?.getD {}
    let content := [page.document title (tree.content page.contentWidth), lineFeed]
    have hnamed : ∀ m ∈ content, m.WellNamed := by
      simpa [content] using page.wellNamed_document title (tree.wellNamed_content page.contentWidth)
    have hbreak : tags? ['\n'] = some [] := rfl
    refine ⟨content.flatMap Markup.tags, ?_, balanced_tags content⟩
    simpa [compile, write, content, page] using
      tags?_append (tags?_append tags?_doctype hbreak) (tags?_contentChars hnamed)
  · intro id available
    refine ⟨_, ?_, balanced_tags (tree.fragment maxNesting id available)⟩
    rw [renderNode, write, String.toList_ofList]
    exact tags?_contentChars (tree.wellNamed_fragment maxNesting id available)

end MailTemplate
