import MailTemplate.Html.Markup
import MailTemplate.Proofs.Html.Escape

/-!
# Written Markup

Facts about the characters of a piece of markup, each by induction over the piece.

## Main definitions

* `Markup.WellNamed`: the names of elements and attributes are made of letters, digits and hyphens.
* `Markup.blank`: the markup without its texts, so that only its structure is left.

## Main results

* `referenced_contentChars`: well-named markup is written with ampersands only in front of entities.
* `filter_isMark_contentChars`: the marks that markup is written with do not depend on its texts.
-/

namespace MailTemplate.Html

/-- Induction over a piece of markup, with a hypothesis for each piece of its content. -/
@[elab_as_elim, induction_eliminator]
theorem Markup.induct {motive : Markup → Prop} (text : ∀ s, motive (.text s))
    (space : motive .space) (void : ∀ tag attributes, motive (.void tag attributes))
    (element : ∀ tag attributes content, (∀ m ∈ content, motive m) →
      motive (.element tag attributes content)) : ∀ m, motive m
  | .text s => text s
  | .space => space
  | .void tag attributes => void tag attributes
  | .element tag attributes content =>
    element tag attributes content fun m _ => induct text space void element m

theorem contentChars_eq_flatMap (content : List Markup) :
    contentChars content = content.flatMap Markup.chars := by
  induction content with
  | nil => rfl
  | cons m content ih => rw [contentChars, ih, List.flatMap_cons]

@[simp]
theorem contentChars_append (xs ys : List Markup) :
    contentChars (xs ++ ys) = contentChars xs ++ contentChars ys := by
  simp only [contentChars_eq_flatMap, List.flatMap_append]

/-! ## Names -/

/-- Whether a character may stand in a name. -/
def isNameChar (c : Char) : Bool :=
  c.isAlphanum || c == '-'

/-- Whether a text may stand as a name. -/
def isName (s : String) : Bool :=
  !s.toList.isEmpty && s.toList.all isNameChar

/-- All elements and attributes of a piece of markup are named by names. -/
def Markup.WellNamed : Markup → Prop
  | .text _ | .space => True
  | .void tag attributes => isName tag ∧ ∀ a ∈ attributes, isName a.name
  | .element tag attributes content =>
    isName tag ∧ (∀ a ∈ attributes, isName a.name) ∧ ∀ m ∈ content, m.WellNamed

theorem isNameChar_of_mem {s : String} {c : Char} (h : isName s) (hc : c ∈ s.toList) :
    isNameChar c := by
  rw [isName, Bool.and_eq_true, List.all_eq_true] at h
  exact h.2 c hc

/-- Names keep clear of the characters with a meaning around them. -/
theorem not_mem_of_isName {s : String} {c : Char} (h : isName s) (hc : isNameChar c = false) :
    c ∉ s.toList := by
  intro hmem
  rw [isNameChar_of_mem h hmem] at hc
  cases hc

theorem referenced_of_isName {s : String} (h : isName s) : Referenced s.toList :=
  referenced_of_not_mem (not_mem_of_isName h rfl)

/-! ## Ampersands -/

theorem Attribute.referenced_chars {a : Attribute} (h : isName a.name) : Referenced a.chars := by
  have hblank : Referenced [' '] := referenced_of_not_mem (by decide)
  have hopen : Referenced ['=', '"'] := referenced_of_not_mem (by decide)
  have hclose : Referenced ['"'] := referenced_of_not_mem (by decide)
  simpa [Attribute.chars] using
    (hblank.append (referenced_of_isName h)).append
      ((hopen.append (referenced_escapeChars a.value.toList)).append hclose)

theorem referenced_tagChars {tag : String} {attributes : List Attribute} (htag : isName tag)
    (hattributes : ∀ a ∈ attributes, isName a.name) : Referenced (tagChars tag attributes) :=
  (referenced_of_isName htag).append
    (referenced_flatMap fun a ha => Attribute.referenced_chars (hattributes a ha))

theorem Markup.referenced_chars {m : Markup} (h : m.WellNamed) : Referenced m.chars := by
  have hopen : Referenced ['<'] := referenced_of_not_mem (by decide)
  have hclose : Referenced ['>'] := referenced_of_not_mem (by decide)
  induction m with
  | text s => exact referenced_escapeChars s.toList
  | space => exact referenced_of_mem_entities (by decide +kernel)
  | void tag attributes =>
    rw [WellNamed] at h
    have hend : Referenced [' ', '/', '>'] := referenced_of_not_mem (by decide)
    simpa [chars] using (hopen.append (referenced_tagChars h.1 h.2)).append hend
  | element tag attributes content ih =>
    rw [WellNamed] at h
    obtain ⟨htag, hattributes, hcontent⟩ := h
    have hstart := (hopen.append (referenced_tagChars htag hattributes)).append hclose
    have hinner : Referenced (contentChars content) := by
      rw [contentChars_eq_flatMap]
      exact referenced_flatMap fun m hm => ih m hm (hcontent m hm)
    have hslash : Referenced ['<', '/'] := referenced_of_not_mem (by decide)
    have hend := (hslash.append (referenced_of_isName htag)).append hclose
    simpa [chars] using (hstart.append hinner).append hend

/-- Well-named markup has ampersands only in front of entities. -/
theorem referenced_contentChars {content : List Markup} (h : ∀ m ∈ content, m.WellNamed) :
    Referenced (contentChars content) := by
  rw [contentChars_eq_flatMap]
  exact referenced_flatMap fun m hm => m.referenced_chars (h m hm)

/-! ## Marks -/

/-- The attribute without its value. -/
def Attribute.blank (a : Attribute) : Attribute :=
  { a with value := "" }

/-- The markup without its texts and without the values of its attributes. -/
def Markup.blank : Markup → Markup
  | .text _ => .text ""
  | .space => .space
  | .void tag attributes => .void tag (attributes.map Attribute.blank)
  | .element tag attributes content =>
    .element tag (attributes.map Attribute.blank) (content.map Markup.blank)

theorem Attribute.filter_isMark_chars_blank (a : Attribute) :
    a.blank.chars.filter isMark = a.chars.filter isMark := by
  simp [Attribute.chars, Attribute.blank, List.filter_cons]

theorem filter_isMark_tagChars_blank (tag : String) (attributes : List Attribute) :
    (tagChars tag (attributes.map Attribute.blank)).filter isMark =
      (tagChars tag attributes).filter isMark := by
  simp only [tagChars, List.filter_append, List.flatMap_map, List.filter_flatMap,
    Attribute.filter_isMark_chars_blank]

theorem Markup.filter_isMark_chars_blank (m : Markup) :
    m.blank.chars.filter isMark = m.chars.filter isMark := by
  induction m with
  | text s => simp [blank, chars]
  | space => rw [blank]
  | void tag attributes =>
    simp [blank, chars, List.filter_cons, filter_isMark_tagChars_blank]
  | element tag attributes content ih =>
    have hinner : (contentChars (content.map blank)).filter isMark =
        (contentChars content).filter isMark := by
      simp only [contentChars_eq_flatMap, List.flatMap_map, List.filter_flatMap]
      exact List.flatMap_congr ih
    simp [blank, chars, List.filter_cons, filter_isMark_tagChars_blank, hinner]

/-- Markup that differs in texts only has the same marks in the same order. -/
theorem filter_isMark_contentChars {xs ys : List Markup}
    (h : xs.map Markup.blank = ys.map Markup.blank) :
    (contentChars xs).filter isMark = (contentChars ys).filter isMark := by
  have hblank : ∀ content : List Markup, (contentChars content).filter isMark =
      (contentChars (content.map Markup.blank)).filter isMark := by
    intro content
    simp only [contentChars_eq_flatMap, List.flatMap_map, List.filter_flatMap,
      Markup.filter_isMark_chars_blank]
  rw [hblank xs, hblank ys, h]

end MailTemplate.Html
