import MailTemplate.Proofs.Json.Literals

/-!
# Reading What Was Written

The text of a value reads as the value, in either style, as long as its numbers are whole and its
containers do not nest too deep. What follows the text must not go on with a number.

* `Json.depth` is how deep containers nest, and `Json.Whole` says that all numbers are whole.
* `Layout.Spaced` says what may stand around the parts of a container, and both styles keep to it.
* `readsBack_of_whole` reads a value in the middle of a text.
-/

namespace MailTemplate.Json

mutual

/-- How deep lists and objects nest in a value. -/
def depth : Json → Nat
  | .array items => itemsDepth items + 1
  | .object members => membersDepth members + 1
  | _ => 0

/-- How deep they nest in items. -/
def itemsDepth : List Json → Nat
  | [] => 0
  | item :: rest => max (depth item) (itemsDepth rest)

/-- How deep they nest in the values of members. -/
def membersDepth : List (String × Json) → Nat
  | [] => 0
  | (_, value) :: rest => max (depth value) (membersDepth rest)

end

/-- All numbers in a value are whole. -/
inductive Whole : Json → Prop
  | null : Whole .null
  | bool (b : Bool) : Whole (.bool b)
  | integer (i : Integer) : Whole (.number (.integer i))
  | string (s : String) : Whole (.string s)
  | array {items : List Json} (hitems : ∀ item ∈ items, Whole item) : Whole (.array items)
  | object {members : List (String × Json)} (hvalues : ∀ member ∈ members, Whole member.2) :
    Whole (.object members)

variable {c d e n : Cursor} {x y : Char} {rest blanks : List Char} {json : Json} {items : List Json}
  {members : List (String × Json)} {style : Style} {level limit : Nat}

@[simp]
theorem whole_array_iff : (Json.array items).Whole ↔ ∀ item ∈ items, item.Whole :=
  ⟨fun h => by cases h with | array hitems => exact hitems, .array⟩

@[simp]
theorem whole_object_iff : (Json.object members).Whole ↔ ∀ member ∈ members, member.2.Whole :=
  ⟨fun h => by cases h with | object hvalues => exact hvalues, .object⟩

theorem itemsDepth_le_iff : itemsDepth items ≤ limit ↔ ∀ item ∈ items, item.depth ≤ limit := by
  induction items with
  | nil => simp [itemsDepth]
  | cons item items ih => rw [itemsDepth, Nat.max_le, ih, List.forall_mem_cons]

theorem membersDepth_le_iff :
    membersDepth members ≤ limit ↔ ∀ member ∈ members, member.2.depth ≤ limit := by
  induction members with
  | nil => simp [membersDepth]
  | cons member members ih => rw [membersDepth, Nat.max_le, ih, List.forall_mem_cons]

/-! ## Layouts -/

/-- All characters are blanks. -/
def Blanks (text : List Char) : Prop :=
  ∀ x ∈ text, Cursor.isBlank x = true

/-- All that stands around the parts of a container is blank, but for a comma and a colon. -/
structure Layout.Spaced (layout : Layout) : Prop where
  opening : Blanks layout.opening
  between : ∃ blanks, layout.between = ',' :: blanks ∧ Blanks blanks
  closing : Blanks layout.closing
  colon : ∃ blanks, layout.colon = ':' :: blanks ∧ Blanks blanks

theorem blanks_nil : Blanks [] :=
  List.forall_mem_nil _

theorem blanks_lineBreak (depth : Nat) : Blanks (lineBreak depth) :=
  List.forall_mem_cons.2 ⟨rfl, fun _ hmem => List.eq_of_mem_replicate hmem ▸ rfl⟩

theorem spaced_compact (depth : Nat) : (Style.compact depth).Spaced :=
  ⟨blanks_nil, ⟨[], rfl, blanks_nil⟩, blanks_nil, ⟨[], rfl, blanks_nil⟩⟩

theorem spaced_pretty (depth : Nat) : (Style.pretty depth).Spaced :=
  ⟨blanks_lineBreak _, ⟨_, rfl, blanks_lineBreak _⟩, blanks_lineBreak _,
    ⟨[' '], rfl, List.forall_mem_singleton.2 rfl⟩⟩

theorem endsNumber_cons (hdigit : x.isDigit = false) (hpoint : x ≠ '.') (hlower : x ≠ 'e')
    (hupper : x ≠ 'E') : EndsNumber (x :: rest) := by
  rintro _ ⟨⟩
  exact ⟨hdigit, hpoint, hlower, hupper⟩

theorem endsNumber_blanks (hblanks : Blanks blanks) (hrest : EndsNumber rest) :
    EndsNumber (blanks ++ rest) := by
  cases blanks with
  | nil => exact hrest
  | cons x blanks =>
    have hx : Cursor.isBlank x = true := hblanks x List.mem_cons_self
    have hcases : x = ' ' ∨ x = '\n' ∨ x = '\t' ∨ x = '\r' := by
      simpa [Cursor.isBlank, or_assoc] using hx
    rcases hcases with rfl | rfl | rfl | rfl <;>
      exact endsNumber_cons rfl (by decide) (by decide) (by decide)

theorem Layout.Spaced.endsNumber_between {layout : Layout} (h : layout.Spaced) (rest : List Char) :
    EndsNumber (layout.between ++ rest) := by
  obtain ⟨blanks, hbetween, -⟩ := h.between
  rw [hbetween, List.cons_append]
  exact endsNumber_cons rfl (by decide) (by decide) (by decide)

/-! ## Parts of containers -/

/-- The text of a value begins with a character that is neither blank nor closes a list. -/
theorem chars_eq_cons (hwhole : json.Whole) (style : Style) (level : Nat) :
    ∃ x more, chars style level json = x :: more ∧ Cursor.isBlank x = false ∧ x ≠ ']' := by
  cases hwhole with
  | null => exact ⟨_, _, rfl, rfl, by decide⟩
  | bool b => cases b <;> exact ⟨_, _, rfl, rfl, by decide⟩
  | integer i =>
    rw [chars, Number.chars, Integer.chars]
    split
    · exact ⟨_, _, rfl, rfl, by decide⟩
    · obtain ⟨x, more, hchars, -⟩ := digitChars_eq_cons i.value.natAbs
      have hx : x.isDigit = true := isDigit_of_mem_digitChars x (hchars ▸ List.mem_cons_self)
      refine ⟨x, more, hchars, ?_, isDigit_ne hx rfl⟩
      simp [Cursor.isBlank, isDigit_ne hx (y := ' ') rfl, isDigit_ne hx (y := '\n') rfl,
        isDigit_ne hx (y := '\t') rfl, isDigit_ne hx (y := '\r') rfl]
  | string s => exact ⟨_, _, rfl, rfl, by decide⟩
  | @array items _ => cases items <;> exact ⟨_, _, rfl, rfl, by decide⟩
  | @object members _ =>
    cases members with
    | nil => exact ⟨_, _, rfl, rfl, by decide⟩
    | cons member members => exact ⟨_, _, rfl, rfl, by decide⟩

/-- The text of a value reads as the value, wherever it stands. -/
def ReadsBack (style : Style) (level limit : Nat) (json : Json) : Prop :=
  ∀ ⦃c : Cursor⦄ ⦃rest : List Char⦄, c.rest = chars style level json ++ rest → EndsNumber rest →
    ∃ n, Form limit c json n ∧ n.rest = rest

theorem reached_letters (word : List Char) (h : c.rest = word ++ rest) :
    ∃ n, reached (letters word c) = some n ∧ n.rest = rest := by
  induction word generalizing c with
  | nil => exact ⟨c, rfl, h⟩
  | cons x word ih =>
    obtain ⟨n, hreached, hn⟩ := ih (rest_step h)
    obtain ⟨d, hletters, rfl⟩ := reached_eq_some_iff.1 hreached
    refine ⟨d.val, ?_, hn⟩
    rw [letters]
    split
    case h_1 hnil => simp [hnil] at h
    case h_2 hcons =>
      rw [hcons] at h
      cases h
      rw [if_pos rfl, hletters]
      rfl

theorem closed_of_rest {closing : Char} (h : c.rest = blanks ++ closing :: rest)
    (hblanks : Blanks blanks) (hclosing : Cursor.isBlank closing = false) :
    ∃ n, Closed closing c n ∧ n.rest = rest := by
  have hplace := rest_skipBlanks h hblanks hclosing
  exact ⟨_, .intro hplace, rest_step hplace⟩

/-- The first part of a container begins after the opening. -/
theorem partAt_first (closing : Char) {text : List Char} (h : c.rest = blanks ++ text)
    (hblanks : Blanks blanks) (htext : text = x :: rest) (hx : Cursor.isBlank x = false)
    (hne : x ≠ closing) : ∃ d, PartAt closing true c d ∧ d.rest = text := by
  subst htext
  have hplace := rest_skipBlanks h hblanks hx
  exact ⟨_, .first hplace hne, hplace⟩

/-- Another part begins after the comma. -/
theorem partAt_next (closing : Char) {text : List Char} (h : c.rest = ',' :: (blanks ++ text))
    (hblanks : Blanks blanks) (htext : text = x :: rest) (hx : Cursor.isBlank x = false)
    (hne : x ≠ closing) : ∃ d, PartAt closing false c d ∧ d.rest = text := by
  subst htext
  have hcomma : c.skipBlanks.rest = ',' :: (blanks ++ x :: rest)  := by
    rw [skipBlanks_of_rest h rfl, h]
  have hplace := rest_skipBlanks (rest_step hcomma) hblanks hx
  exact ⟨_, .next hcomma hplace hne, hplace⟩

/-- An item reads back where a part of a list begins. -/
theorem run_item {isFirst : Bool} (hreads : ReadsBack style level limit json)
    (hpart : PartAt ']' isFirst c d) (h : d.rest = chars style level json ++ rest)
    (hrest : EndsNumber rest) : ∃ n, (readValue limit).run d = some (json, n) ∧ n.rest = rest := by
  obtain ⟨n, hform, hn⟩ := hreads h hrest
  rw [← hpart.skipBlanks_eq] at hform
  exact ⟨n, run_readValue_iff.2 hform, hn⟩

/-- A member reads back where a part of an object begins. -/
theorem member_of_chars {isFirst : Bool} {key : String} {colon : List Char}
    (hwhole : json.Whole) (hreads : ReadsBack style level limit json)
    (hpart : PartAt '}' isFirst c d) (hcolon : Blanks colon)
    (h : d.rest = stringChars key ++ ':' :: (colon ++ (chars style level json ++ rest)))
    (hrest : EndsNumber rest) :
    ∃ e n, KeyAt isFirst c key e ∧ ran (memberValue (readValue limit) e) = some (json, n) ∧
      n.rest = rest := by
  -- The key, the colon and the value, each from where the one before it ends.
  obtain ⟨_, e, hquote, hkey, he⟩ := readString_of_stringChars key h
  have hplace : e.skipBlanks.rest = ':' :: (colon ++ (chars style level json ++ rest))  := by
    rw [skipBlanks_of_rest he rfl, he]
  obtain ⟨x, more, hchars, hx, -⟩ := chars_eq_cons hwhole style level
  have hvalue : e.skipBlanks.step.skipBlanks.rest = chars style level json ++ rest := by
    have hstep := rest_step hplace
    rw [hchars, List.cons_append] at hstep ⊢
    exact rest_skipBlanks hstep hcolon hx
  obtain ⟨n, hform, hn⟩ := hreads hvalue hrest
  refine ⟨e, n, .intro hpart hquote hkey, ?_, hn⟩
  exact ran_memberValue_iff.2 ⟨⟨_, hplace⟩, run_readValue_iff.2 hform⟩

variable (hspaced : ∀ depth, (style depth).Spaced)

include hspaced

theorem endsNumber_itemChars (items : List Json) :
    EndsNumber (itemChars style level items ++ ((style level).closing ++ ']' :: rest)) := by
  cases items with
  | nil =>
    rw [itemChars, List.nil_append]
    refine endsNumber_blanks (hspaced level).closing ?_
    exact endsNumber_cons rfl (by decide) (by decide) (by decide)
  | cons item items =>
    simp only [itemChars, List.append_assoc]
    exact (hspaced level).endsNumber_between _

theorem endsNumber_memberChars (members : List (String × Json)) :
    EndsNumber (memberChars style level members ++ ((style level).closing ++ '}' :: rest)) := by
  cases members with
  | nil =>
    rw [memberChars, List.nil_append]
    refine endsNumber_blanks (hspaced level).closing ?_
    exact endsNumber_cons rfl (by decide) (by decide) (by decide)
  | cons member members =>
    simp only [memberChars, List.append_assoc]
    exact (hspaced level).endsNumber_between _

/-- The text of the items after the first one reads as the items. -/
theorem items_of_itemChars (hwhole : ∀ item ∈ items, item.Whole)
    (hreads : ∀ item ∈ items, ReadsBack style (level + 1) limit item)
    (h : c.rest = itemChars style level items ++ ((style level).closing ++ ']' :: rest)) :
    ∃ n, Items (readValue limit) false c items n ∧ n.rest = rest := by
  induction items generalizing c with
  | nil =>
    obtain ⟨n, hclosed, hn⟩ := closed_of_rest h (hspaced level).closing rfl
    exact ⟨n, .nil hclosed, hn⟩
  | cons item items ih =>
    rw [List.forall_mem_cons] at hwhole hreads
    obtain ⟨blanks, hbetween, hblanks⟩ := (hspaced level).between
    obtain ⟨x, more, hchars, hx, hne⟩ := chars_eq_cons hwhole.1 style (level + 1)
    simp only [itemChars, hbetween, List.append_assoc, List.cons_append] at h
    obtain ⟨d, hpart, hd⟩ := partAt_next ']' h hblanks (by rw [hchars]; rfl) hx hne
    -- A comma or the closing bracket follows the item, so a number ends there.
    obtain ⟨e, hitem, he⟩ := run_item hreads.1 hpart hd (endsNumber_itemChars hspaced items)
    obtain ⟨n, hitems, hn⟩ := ih hwhole.2 hreads.2 he
    exact ⟨n, .cons hpart hitem hitems, hn⟩

/-- The text of the members after the first one reads as the members. -/
theorem members_of_memberChars (hwhole : ∀ member ∈ members, member.2.Whole)
    (hreads : ∀ member ∈ members, ReadsBack style (level + 1) limit member.2)
    (h : c.rest = memberChars style level members ++ ((style level).closing ++ '}' :: rest)) :
    ∃ n, Members (readValue limit) false c members n ∧ n.rest = rest := by
  induction members generalizing c with
  | nil =>
    obtain ⟨n, hclosed, hn⟩ := closed_of_rest h (hspaced level).closing rfl
    exact ⟨n, .nil hclosed, hn⟩
  | cons member members ih =>
    obtain ⟨key, value⟩ := member
    rw [List.forall_mem_cons] at hwhole hreads
    obtain ⟨blanks, hbetween, hblanks⟩ := (hspaced level).between
    obtain ⟨colon, hcolon, hcolonBlanks⟩ := (hspaced level).colon
    simp only [memberChars, hbetween, hcolon, List.append_assoc, List.cons_append] at h
    obtain ⟨d, hpart, hd⟩ := partAt_next '}' h hblanks (x := '"') rfl rfl (by decide)
    obtain ⟨e, f, hkey, hvalue, hf⟩ := member_of_chars hwhole.1 hreads.1 hpart hcolonBlanks hd
      (endsNumber_memberChars hspaced members)
    obtain ⟨n, hmembers, hn⟩ := ih hwhole.2 hreads.2 hf
    exact ⟨n, .cons hkey hvalue hmembers, hn⟩

/-- The text of a list reads as the list if the items read back. -/
theorem readsBack_array (hwhole : ∀ item ∈ items, item.Whole)
    (hreads : ∀ item ∈ items, ReadsBack style (level + 1) limit item) :
    ReadsBack style level (limit + 1) (.array items) := by
  intro c rest h _
  cases items with
  | nil =>
    obtain ⟨n, hclosed, hn⟩ := closed_of_rest (rest_step h) blanks_nil rfl
    exact ⟨n, .array h (.nil hclosed), hn⟩
  | cons item items =>
    rw [List.forall_mem_cons] at hwhole hreads
    simp only [chars, List.append_assoc, List.cons_append, List.nil_append] at h
    obtain ⟨x, more, hchars, hx, hne⟩ := chars_eq_cons hwhole.1 style (level + 1)
    obtain ⟨d, hpart, hd⟩ :=
      partAt_first ']' (rest_step h) (hspaced level).opening (by rw [hchars]; rfl) hx hne
    obtain ⟨e, hitem, he⟩ := run_item hreads.1 hpart hd (endsNumber_itemChars hspaced items)
    obtain ⟨n, hitems, hn⟩ := items_of_itemChars hspaced hwhole.2 hreads.2 he
    exact ⟨n, .array h (.cons hpart hitem hitems), hn⟩

/-- The text of an object reads as the object if the values of its members read back. -/
theorem readsBack_object (hwhole : ∀ member ∈ members, member.2.Whole)
    (hreads : ∀ member ∈ members, ReadsBack style (level + 1) limit member.2) :
    ReadsBack style level (limit + 1) (.object members) := by
  intro c rest h _
  cases members with
  | nil =>
    obtain ⟨n, hclosed, hn⟩ := closed_of_rest (rest_step h) blanks_nil rfl
    exact ⟨n, .object h (.nil hclosed), hn⟩
  | cons member members =>
    obtain ⟨key, value⟩ := member
    rw [List.forall_mem_cons] at hwhole hreads
    obtain ⟨colon, hcolon, hcolonBlanks⟩ := (hspaced level).colon
    simp only [chars, hcolon, List.append_assoc, List.cons_append, List.nil_append] at h
    obtain ⟨d, hpart, hd⟩ := partAt_first '}' (rest_step h) (hspaced level).opening
      (x := '"') rfl rfl (by decide)
    obtain ⟨e, f, hkey, hvalue, hf⟩ := member_of_chars hwhole.1 hreads.1 hpart hcolonBlanks hd
      (endsNumber_memberChars hspaced members)
    obtain ⟨n, hmembers, hn⟩ := members_of_memberChars hspaced hwhole.2 hreads.2 hf
    exact ⟨n, .object h (.cons hkey hvalue hmembers), hn⟩

/-- The text of a value whose numbers are whole reads as the value, if it does not nest too deep. -/
theorem readsBack_of_whole (hwhole : json.Whole) (hdepth : json.depth ≤ limit) (level : Nat) :
    ReadsBack style level limit json := by
  -- A container takes one level off the limit and puts its parts one level deeper.
  induction hwhole generalizing limit level with
  | null =>
    intro c rest h _
    obtain ⟨n, hreached, hn⟩ := reached_letters ['u', 'l', 'l'] (rest_step h)
    exact ⟨n, .null h hreached, hn⟩
  | bool b =>
    intro c rest h _
    cases b with
    | true =>
      obtain ⟨n, hreached, hn⟩ := reached_letters ['r', 'u', 'e'] (rest_step h)
      exact ⟨n, .true h hreached, hn⟩
    | false =>
      obtain ⟨n, hreached, hn⟩ := reached_letters ['a', 'l', 's', 'e'] (rest_step h)
      exact ⟨n, .false h hreached, hn⟩
  | integer i =>
    intro c rest h hend
    exact form_of_integer i h hend limit
  | string s =>
    intro c rest h _
    obtain ⟨_, n, hquote, hread, hn⟩ := readString_of_stringChars s h
    exact ⟨n, .string hquote hread, hn⟩
  | @array items hitems ih =>
    obtain ⟨limit, rfl⟩ := Nat.exists_eq_add_of_le' (Nat.le_trans (Nat.le_add_left 1 _) hdepth)
    have hdepths := itemsDepth_le_iff.1 (Nat.le_of_succ_le_succ hdepth)
    exact readsBack_array hspaced hitems fun item hmem => ih item hmem (hdepths item hmem) _
  | @object members hvalues ih =>
    obtain ⟨limit, rfl⟩ := Nat.exists_eq_add_of_le' (Nat.le_trans (Nat.le_add_left 1 _) hdepth)
    have hdepths := membersDepth_le_iff.1 (Nat.le_of_succ_le_succ hdepth)
    exact readsBack_object hspaced hvalues fun member hmem => ih member hmem (hdepths member hmem) _

omit hspaced in
theorem endsNumber_nil : EndsNumber [] := by
  rintro _ ⟨⟩

/-- The text of a value is read to its end as the value. -/
theorem run_readValue_chars (hwhole : json.Whole) (hdepth : json.depth ≤ limit) :
    ∃ n, (readValue limit).run (Cursor.start (String.ofList (chars style 0 json))) =
      some (json, n) ∧ n.rest = [] := by
  set c := Cursor.start (String.ofList (chars style 0 json)) with hc
  have hstart : c.rest = chars style 0 json ++ [] := by
    rw [hc, Cursor.start, String.toList_ofList, List.append_nil]
  obtain ⟨n, hform, hn⟩ := readsBack_of_whole hspaced hwhole hdepth 0 hstart endsNumber_nil
  obtain ⟨x, more, hchars, hx, -⟩ := chars_eq_cons hwhole style 0
  rw [hchars, List.cons_append] at hstart
  rw [← skipBlanks_of_rest hstart hx] at hform
  exact ⟨n, run_readValue_iff.2 hform, hn⟩

end MailTemplate.Json
