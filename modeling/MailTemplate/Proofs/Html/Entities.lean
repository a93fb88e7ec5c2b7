import MailTemplate.Proofs.Html.Escape

/-!
# Entities Read Back

Escaping loses nothing. The five characters with a meaning in markup and the entities in their place
determine each other, so one pass over an escaped text from left to right restores the text, also
one that is itself spelled like an entity.

* `unescapeChars_escapeChars` restores a text.
* `amp_of_escapeChars` finds the character of the text behind each ampersand.
-/

namespace MailTemplate.Html

/-- The characters with a meaning in markup. -/
def specials : List Char :=
  ['"', '&', '\'', '<', '>']

/-- The entities in their place. -/
def specialEntities : List String :=
  ["&quot;", "&amp;", "&#39;", "&lt;", "&gt;"]

/-- Characters with each of the five entities read as its character, in one pass from left to
right: what an entity stands for is not read again. -/
def unescapeChars : List Char → List Char
  | '&' :: 'q' :: 'u' :: 'o' :: 't' :: ';' :: rest => '"' :: unescapeChars rest
  | '&' :: 'a' :: 'm' :: 'p' :: ';' :: rest => '&' :: unescapeChars rest
  | '&' :: '#' :: '3' :: '9' :: ';' :: rest => '\'' :: unescapeChars rest
  | '&' :: 'l' :: 't' :: ';' :: rest => '<' :: unescapeChars rest
  | '&' :: 'g' :: 't' :: ';' :: rest => '>' :: unescapeChars rest
  | c :: rest => c :: unescapeChars rest
  | [] => []

/-- A text with each of the five entities read as its character. -/
def unescape (s : String) : String :=
  String.ofList (unescapeChars s.toList)

/-! ## One character -/

theorem map_entity_specials :
    (specials.map fun c => String.ofList (entity c)) = specialEntities :=
  rfl

/-- All other characters stand for themselves. -/
theorem entity_of_not_mem {c : Char} (hc : c ∉ specials) : entity c = [c] := by
  simp only [specials, List.mem_cons, List.not_mem_nil, or_false, not_or] at hc
  obtain ⟨hquot, hamp, hapos, hlt, hgt⟩ := hc
  simp [entity, hquot, hamp, hapos, hlt, hgt]

/-- An ampersand in what stands for a character is the start of the entity of a special one. -/
theorem amp_of_entity {c : Char} {before after : List Char}
    (h : entity c = before ++ '&' :: after) : c ∈ specials ∧ before = [] := by
  by_cases hc : c ∈ specials
  · refine ⟨hc, ?_⟩
    -- Each entity has its only ampersand in front.
    have hspelled : ∀ c ∈ specials, '&' ∉ (entity c).tail := by simp [specials, entity]
    cases before with
    | nil => rfl
    | cons b before =>
      have htail := hspelled c hc
      simp [h] at htail
  · rw [entity_of_not_mem hc, List.singleton_eq_append_iff] at h
    -- The ampersand itself is special.
    obtain ⟨-, h⟩ | ⟨-, h⟩ := h
    · obtain rfl : '&' = c := by simpa using congrArg List.head? h
      exact absurd (by decide) hc
    · cases h

/-- Passing over what stands for a character gives the character. -/
@[simp]
theorem unescapeChars_entity_append (c : Char) (rest : List Char) :
    unescapeChars (entity c ++ rest) = c :: unescapeChars rest := by
  by_cases hc : c ∈ specials
  · simp only [specials, List.mem_cons, List.not_mem_nil, or_false] at hc
    rcases hc with rfl | rfl | rfl | rfl | rfl <;> simp [entity, unescapeChars]
  · have hamp : c ≠ '&' := by
      rintro rfl
      exact hc (by decide)
    rw [entity_of_not_mem hc]
    simp [unescapeChars, hamp]

/-! ## Texts -/

theorem escapeChars_cons (c : Char) (cs : List Char) :
    escapeChars (c :: cs) = entity c ++ escapeChars cs :=
  List.flatMap_cons

theorem escapeChars_append (cs ds : List Char) :
    escapeChars (cs ++ ds) = escapeChars cs ++ escapeChars ds :=
  List.flatMap_append

@[simp]
theorem toList_escape (s : String) : (escape s).toList = escapeChars s.toList :=
  String.toList_ofList

@[simp]
theorem escape_append (s t : String) : escape (s ++ t) = escape s ++ escape t := by
  rw [escape, String.toList_append, escapeChars_append, String.ofList_append]
  rfl

/-- Reading the entities back restores the text. -/
@[simp]
theorem unescapeChars_escapeChars (cs : List Char) : unescapeChars (escapeChars cs) = cs := by
  induction cs with
  | nil => rfl
  | cons c cs ih => rw [escapeChars_cons, unescapeChars_entity_append, ih]

/-- Text that is spelled like an entity comes back as it was. -/
example : escape "&lt;" = "&amp;lt;" ∧ unescape "&amp;lt;" = "&lt;" := by decide +kernel

/-- At an ampersand of an escaped text stands the entity of a special character of the text. -/
theorem amp_of_escapeChars {cs before after : List Char}
    (h : escapeChars cs = before ++ '&' :: after) :
    ∃ c ∈ specials, ∃ rest, c :: rest <:+ cs ∧ '&' :: after = entity c ++ escapeChars rest := by
  induction cs generalizing before with
  | nil => simp [escapeChars] at h
  | cons c cs ih =>
    rw [escapeChars_cons, List.append_eq_append_iff] at h
    -- The ampersand stands behind what stands for the first character, or in it.
    obtain ⟨middle, rfl, hrest⟩ | ⟨middle, hfirst, hrest⟩ := h
    · obtain ⟨d, hd, rest, hsuffix, heq⟩ := ih hrest
      exact ⟨d, hd, rest, hsuffix.trans (List.suffix_cons c cs), heq⟩
    · cases middle with
      | nil =>
        obtain ⟨d, hd, rest, hsuffix, heq⟩ :=
          ih (show escapeChars cs = [] ++ '&' :: after from hrest.symm)
        exact ⟨d, hd, rest, hsuffix.trans (List.suffix_cons c cs), heq⟩
      | cons m middle =>
        obtain ⟨rfl, -⟩ := List.cons.inj hrest
        obtain ⟨hc, rfl⟩ := amp_of_entity hfirst
        refine ⟨c, hc, cs, List.suffix_refl _, ?_⟩
        rw [hfirst, List.nil_append, hrest]

end MailTemplate.Html
