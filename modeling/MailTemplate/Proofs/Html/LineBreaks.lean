import MailTemplate.Html.Markup
import MailTemplate.Proofs.Html.Entities

/-!
# Line Breaks in Markup

A text of several lines is written in three passes: its line breaks become line feeds, which takes
two passes, and the lines between these are escaped with a tag between two of them. One reading of
the text from left to right, which looks one character ahead, writes the same.

* `normalizeBreaks_eq_feedBreaks` makes one pass of the first two, and `contentChars_brokenLines`
  one of the last with them.
* `countTags_flatMap` and `unbreak_flatMap` read the tags in what is written. They are found again
  because no entity has a character of a tag's ends.
-/

namespace MailTemplate.Html

/-- The tag of a line break. -/
def breakTag : List Char :=
  ['<', 'b', 'r', ' ', '/', '>']

/-- A text in one reading from left to right: a tag for the pair of a carriage return and a line
feed, one for each of the two alone, and all other characters escaped. -/
def escapeBroken : List Char → List Char
  | '\r' :: '\n' :: rest => breakTag ++ escapeBroken rest
  | c :: rest => (if c = '\r' ∨ c = '\n' then breakTag else entity c) ++ escapeBroken rest
  | [] => []

/-- A text with a line feed for each of its line breaks, in one reading from left to right. -/
def feedBreaks : List Char → List Char
  | '\r' :: '\n' :: rest => '\n' :: feedBreaks rest
  | c :: rest => (if c = '\r' then '\n' else c) :: feedBreaks rest
  | [] => []

/-- At how many places in a text the tag of a line break stands. -/
def countTags (cs : List Char) : Nat :=
  cs.tails.countP fun rest => breakTag.isPrefixOf rest

/-- A text with a line feed for each tag of a line break. -/
def unbreak : List Char → List Char
  | '<' :: 'b' :: 'r' :: ' ' :: '/' :: '>' :: rest => '\n' :: unbreak rest
  | c :: rest => c :: unbreak rest
  | [] => []

/-! ## One reading -/

/-- Joining the pairs and then replacing the carriage returns that are left is one reading: joining
takes the line feed of a pair with it, and so makes no new pair. -/
theorem normalizeBreaks_eq_feedBreaks (cs : List Char) : normalizeBreaks cs = feedBreaks cs := by
  unfold normalizeBreaks
  fun_induction joinPairs cs with
  | case1 rest ih => simp [feedBreaks, ih]
  | case2 c rest hpair ih => rw [feedBreaks.eq_2 c rest hpair, List.map_cons, ih]
  | case3 => rfl

/-- What stands for a character of a text whose line breaks are line feeds. -/
def brokenChar (c : Char) : List Char :=
  if c = '\n' then breakTag else entity c

theorem flatMap_feedBreaks (cs : List Char) :
    (feedBreaks cs).flatMap brokenChar = escapeBroken cs := by
  fun_induction feedBreaks cs with
  | case1 rest ih => simp [escapeBroken, brokenChar, ih]
  | case2 c rest hpair ih =>
    rw [escapeBroken.eq_2 c rest hpair, List.flatMap_cons, ih, brokenChar]
    by_cases hreturn : c = '\r' <;> simp [hreturn]
  | case3 => rfl

/-! ## Lines with tags between them -/

theorem splitLines_ne_nil (cs : List Char) : splitLines cs ≠ [] := by
  intro hnil
  have hlength := length_splitLines cs
  simp [hnil] at hlength

theorem contentChars_brokenLines_cons (line : String) {lines : List String} (hlines : lines ≠ []) :
    contentChars (brokenLines (line :: lines)) =
      escapeChars line.toList ++ breakTag ++ contentChars (brokenLines lines) := by
  cases lines with
  | nil => exact absurd rfl hlines
  | cons next lines => simp [brokenLines, contentChars, Markup.chars, tagChars, breakTag]

/-- Splitting at the line feeds and writing the lines with tags between them puts a tag in place of
each line feed. -/
theorem contentChars_brokenLines (cs : List Char) :
    contentChars (brokenLines ((splitLines cs).map String.ofList)) = cs.flatMap brokenChar := by
  induction cs with
  | nil => rfl
  | cons c cs ih =>
    have hlines := splitLines_ne_nil cs
    rw [List.flatMap_cons, ← ih, splitLines, brokenChar]
    by_cases hfeed : c = '\n'
    · -- An empty line comes in front.
      rw [if_pos hfeed, if_pos hfeed, List.map_cons,
        contentChars_brokenLines_cons _ (by simpa using hlines)]
      simp [escapeChars]
    · -- The first line gets one character more.
      rw [if_neg hfeed, if_neg hfeed]
      cases hsplit : splitLines cs with
      | nil => exact absurd hsplit hlines
      | cons line lines =>
        cases lines with
        | nil => simp [brokenLines, contentChars, Markup.chars, escapeChars_cons]
        | cons next lines =>
          simp only [List.map_cons]
          rw [contentChars_brokenLines_cons _ (List.cons_ne_nil _ _),
            contentChars_brokenLines_cons _ (List.cons_ne_nil _ _)]
          simp [escapeChars_cons]

theorem contentChars_multiline (s : String) :
    contentChars (multiline s) = (feedBreaks s.toList).flatMap brokenChar := by
  rw [multiline, lines, contentChars_brokenLines, normalizeBreaks_eq_feedBreaks]

/-! ## Tags -/

theorem not_mem_entity (c : Char) : '<' ∉ entity c :=
  fun hmem => absurd (isMark_of_mem_entity hmem) (by decide)

theorem countTags_cons (c : Char) (cs : List Char) :
    countTags (c :: cs) = countTags cs + if breakTag.isPrefixOf (c :: cs) then 1 else 0 := by
  rw [countTags, List.tails_cons, List.countP_cons]
  rfl

/-- No tag starts in characters without its first one. -/
theorem countTags_append {cs : List Char} (hcs : '<' ∉ cs) (rest : List Char) :
    countTags (cs ++ rest) = countTags rest := by
  induction cs with
  | nil => rfl
  | cons c cs ih =>
    obtain ⟨hc, hcs⟩ := List.ne_and_not_mem_of_not_mem_cons hcs
    rw [List.cons_append, countTags_cons, ih hcs]
    simp [breakTag, hc]

theorem countTags_breakTag_append (rest : List Char) :
    countTags (breakTag ++ rest) = countTags rest + 1 := by
  -- The tag itself starts one, and no other starts before its end.
  have htail : countTags (breakTag.tail ++ rest) = countTags rest :=
    countTags_append (by decide) rest
  have hsplit : breakTag ++ rest = '<' :: (breakTag.tail ++ rest) := rfl
  rw [hsplit, countTags_cons, htail]
  simp [breakTag]

/-- There are as many tags as line feeds. -/
theorem countTags_flatMap (cs : List Char) : countTags (cs.flatMap brokenChar) = cs.count '\n' := by
  induction cs with
  | nil => rfl
  | cons c cs ih =>
    rw [List.flatMap_cons, brokenChar, List.count_cons]
    by_cases hfeed : c = '\n'
    · rw [if_pos hfeed, countTags_breakTag_append, ih]
      simp [hfeed]
    · rw [if_neg hfeed, countTags_append (not_mem_entity c), ih]
      simp [hfeed]

/-- Characters without the first one of a tag are passed over. -/
theorem unbreak_append {cs : List Char} (hcs : '<' ∉ cs) (rest : List Char) :
    unbreak (cs ++ rest) = cs ++ unbreak rest := by
  induction cs with
  | nil => rfl
  | cons c cs ih =>
    obtain ⟨hc, hcs⟩ := List.ne_and_not_mem_of_not_mem_cons hcs
    rw [List.cons_append, List.cons_append, ← ih hcs]
    simp [unbreak, Ne.symm hc]

/-- With its line feeds back, the text is what escaping it alone writes. -/
theorem unbreak_flatMap (cs : List Char) : unbreak (cs.flatMap brokenChar) = escapeChars cs := by
  induction cs with
  | nil => rfl
  | cons c cs ih =>
    rw [List.flatMap_cons, escapeChars_cons, brokenChar, ← ih]
    by_cases hfeed : c = '\n'
    · -- A line feed is its own escape.
      rw [if_pos hfeed, hfeed]
      rfl
    · rw [if_neg hfeed, unbreak_append (not_mem_entity c)]

/-- A text of several lines is written in one reading from left to right. It has a tag for each line
break, and with line feeds for the tags and characters for the entities it is the text again, with
each line break a line feed. -/
theorem multiline_oneReading (s : String) :
    (write (multiline s)).toList = escapeBroken s.toList ∧
      countTags (write (multiline s)).toList = lineBreaks s.toList ∧
      unescapeChars (unbreak (write (multiline s)).toList) = feedBreaks s.toList := by
  rw [write, String.toList_ofList, contentChars_multiline]
  refine ⟨flatMap_feedBreaks s.toList, ?_, ?_⟩
  · rw [countTags_flatMap, ← normalizeBreaks_eq_feedBreaks, count_normalizeBreaks]
  · rw [unbreak_flatMap, unescapeChars_escapeChars]

/-- Two returns before a feed are two line breaks: the second one belongs to the feed. -/
example : escapeBroken ['\r', '\r', '\n', '&'] = breakTag ++ breakTag ++ entity '&' := by decide

end MailTemplate.Html
