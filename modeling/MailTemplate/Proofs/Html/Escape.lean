import MailTemplate.Html.Escape
import Mathlib.Data.List.Infix

/-!
# Escaped Text

What escaping leaves of a text: none of the characters that make markup, and ampersands only where
an entity starts. Of the lines of a text there is one more than it has line breaks.

* `filter_isMark_escapeChars` and `referenced_escapeChars` are what the writer of markup relies on.
* `length_lines` counts lines by one reading of the text from left to right.
-/

namespace MailTemplate.Html

/-- Whether a character makes markup: it delimits a tag or an attribute value. -/
def isMark (c : Char) : Bool :=
  c == '<' || c == '>' || c == '"' || c == '\''

/-- The entities that documents use. -/
def entities : List (List Char) :=
  ["&quot;", "&amp;", "&#39;", "&lt;", "&gt;", "&nbsp;"].map String.toList

/-- Every ampersand starts one of the entities. -/
def Referenced (cs : List Char) : Prop :=
  ∀ before after, cs = before ++ '&' :: after → ∃ e ∈ entities, e <+: '&' :: after

/-! ## Marks -/

theorem isMark_of_mem_entity {c d : Char} (h : d ∈ entity c) : isMark d = false := by
  unfold entity at h
  split_ifs at h with hquot hamp hapos hlt hgt
  -- The entities are spelled without marks, and all other characters stand for themselves.
  case neg =>
    obtain rfl := List.mem_singleton.1 h
    simp [isMark, hquot, hapos, hlt, hgt]
  all_goals
    revert d
    simp [isMark]

theorem isMark_of_mem_escapeChars {cs : List Char} {c : Char} (h : c ∈ escapeChars cs) :
    isMark c = false := by
  obtain ⟨d, -, hd⟩ := List.mem_flatMap.1 h
  exact isMark_of_mem_entity hd

/-- No mark of a text survives. -/
@[simp]
theorem filter_isMark_escapeChars (cs : List Char) : (escapeChars cs).filter isMark = [] := by
  rw [List.filter_eq_nil_iff]
  intro c hc
  simp [isMark_of_mem_escapeChars hc]

/-! ## Ampersands -/

theorem referenced_of_not_mem {cs : List Char} (h : '&' ∉ cs) : Referenced cs := by
  rintro before after rfl
  simp at h

/-- An entity has its only ampersand in front. -/
theorem referenced_of_mem_entities {e : List Char} (he : e ∈ entities) : Referenced e := by
  have hspelled : ∀ e ∈ entities, e = '&' :: e.tail ∧ '&' ∉ e.tail := by decide +kernel
  obtain ⟨hhead, htail⟩ := hspelled e he
  intro before after heq
  cases before with
  | nil => exact ⟨_, he, heq ▸ List.prefix_refl _⟩
  | cons c before =>
    -- Behind its first character the entity has no ampersand.
    rw [hhead, List.cons_append, List.cons.injEq] at heq
    simp [heq.2] at htail

theorem Referenced.append {xs ys : List Char} (hx : Referenced xs) (hy : Referenced ys) :
    Referenced (xs ++ ys) := by
  intro before after heq
  rcases List.append_eq_append_iff.1 heq with ⟨middle, rfl, rfl⟩ | ⟨middle, rfl, hmiddle⟩
  · exact hy middle after rfl
  · cases middle with
    | nil => exact hy [] after hmiddle.symm
    | cons c middle =>
      rw [List.cons_append, List.cons.injEq] at hmiddle
      obtain ⟨rfl, rfl⟩ := hmiddle
      obtain ⟨e, he, hprefix⟩ := hx before middle rfl
      exact ⟨e, he, hprefix.trans (List.prefix_append ('&' :: middle) ys)⟩

theorem referenced_flatMap {α : Type} {xs : List α} {f : α → List Char}
    (h : ∀ x ∈ xs, Referenced (f x)) : Referenced (xs.flatMap f) := by
  induction xs with
  | nil => exact referenced_of_not_mem (List.not_mem_nil)
  | cons x xs ih =>
    rw [List.flatMap_cons]
    exact (h x List.mem_cons_self).append (ih fun y hy => h y (List.mem_cons_of_mem _ hy))

theorem referenced_entity (c : Char) : Referenced (entity c) := by
  unfold entity
  split_ifs with hquot hamp
  case neg => exact referenced_of_not_mem (by simpa using Ne.symm hamp)
  all_goals exact referenced_of_mem_entities (by decide +kernel)

theorem referenced_escapeChars (cs : List Char) : Referenced (escapeChars cs) :=
  referenced_flatMap fun c _ => referenced_entity c

/-! ## Line breaks -/

/-- How many line breaks a text has: the pair of a carriage return and a line feed is one, and so is
each of the two alone. -/
def lineBreaks : List Char → Nat
  | '\r' :: '\n' :: rest => lineBreaks rest + 1
  | c :: rest => (if c = '\r' ∨ c = '\n' then 1 else 0) + lineBreaks rest
  | [] => 0

theorem count_normalizeBreaks (cs : List Char) :
    (normalizeBreaks cs).count '\n' = lineBreaks cs := by
  unfold normalizeBreaks
  fun_induction joinPairs cs with
  | case1 rest ih => simp [lineBreaks, ih]
  | case2 c rest hpair ih =>
    rw [lineBreaks.eq_2 c rest hpair, List.map_cons, List.count_cons, ih, Nat.add_comm]
    by_cases hreturn : c = '\r' <;> by_cases hfeed : c = '\n' <;> simp [hreturn, hfeed]
  | case3 => rfl

theorem length_splitLines (cs : List Char) : (splitLines cs).length = cs.count '\n' + 1 := by
  induction cs with
  | nil => rfl
  | cons c cs ih =>
    rw [splitLines, List.count_cons]
    by_cases hfeed : c = '\n'
    · simp [hfeed, ih]
    · cases hsplit : splitLines cs with
      | nil => simp [hsplit] at ih
      | cons line lines =>
        rw [hsplit] at ih
        simpa [hfeed] using ih

theorem length_lines (s : String) : (lines s).length = lineBreaks s.toList + 1 := by
  rw [lines, List.length_map, length_splitLines, count_normalizeBreaks]

end MailTemplate.Html
