import MailTemplate.Proofs.Html.Entities
import Mathlib.Data.String.Basic

/-!
# Escaping by Bytes

One scan over the bytes of a text escapes it. The scan copies the text in slices: it keeps in mind
where the part begins that is not yet written, and at a byte with a meaning in markup it writes that
part, then the entity. A slice may only be taken between characters, so that the scan gives a text
at all is part of what it does.

* `scanFrom_eq` is the state of the scan between two characters: all before `start` is written, and
  nothing from there on has a meaning in markup so far.
* `writeEscaped_eq` and `foldlM_writeEscaped` are the scan over a text and over pieces of it.
-/

namespace MailTemplate.Html

open String (utf8Len utf8EncodeChar)

/-! ## Slices -/

/-- The part of a text between two byte offsets; there is none if an offset is inside a character or
beyond the end, or the offsets are not in order. -/
def slice? (s : String) (start stop : Nat) : Option String :=
  if String.Pos.Raw.isValid s ⟨start⟩ && String.Pos.Raw.isValid s ⟨stop⟩ &&
      decide (start ≤ stop) then
    some (String.Pos.Raw.extract s ⟨start⟩ ⟨stop⟩)
  else none

/-- The bytes of a text. -/
def bytesOf (s : String) : List UInt8 :=
  s.toUTF8.data.toList

theorem isValid_utf8Len (cs ds : List Char) :
    String.Pos.Raw.isValid (String.ofList (cs ++ ds)) ⟨utf8Len cs⟩ = true := by
  rw [String.Pos.Raw.isValid_eq_true_iff, String.Pos.Raw.isValid_iff_exists_append]
  exact ⟨String.ofList cs, String.ofList ds, String.ofList_append, by simp⟩

/-- The offsets at both ends of some characters of a text give these characters. -/
theorem slice?_utf8Len (before middle after : List Char) :
    slice? (String.ofList (before ++ middle ++ after)) (utf8Len before)
      (utf8Len before + utf8Len middle) = some (String.ofList middle) := by
  have hstart := isValid_utf8Len before (middle ++ after)
  have hstop := isValid_utf8Len (before ++ middle) after
  rw [← List.append_assoc] at hstart
  rw [String.utf8Len_append] at hstop
  rw [slice?, hstart, hstop, String.extract_of_valid]
  simp

/-- The accented letter has two bytes, and no slice starts at the second of them. -/
example : slice? "é<" 0 2 = some "é" ∧ slice? "é<" 1 2 = none := by decide +kernel

theorem bytesOf_ofList (cs : List Char) :
    bytesOf (String.ofList cs) = cs.flatMap utf8EncodeChar := by
  rw [bytesOf, String.toUTF8_eq_toByteArray, String.toByteArray_ofList, List.utf8Encode]
  simp

/-! ## The scan -/

/-- The entity in place of a byte, if the byte has a meaning in markup. -/
def byteEntity (b : UInt8) : Option String :=
  if b = 34 then some "&quot;"
  else if b = 38 then some "&amp;"
  else if b = 39 then some "&#39;"
  else if b = 60 then some "&lt;"
  else if b = 62 then some "&gt;"
  else none

/-- Writes the rest of the text `s` behind `out`. Everything before the offset `start` is written,
and the given bytes are those from the offset `i` on. -/
def scanFrom (s out : String) (start i : Nat) : List UInt8 → Option String
  | [] => do
    let last ← slice? s start s.utf8ByteSize
    return out ++ last
  | b :: rest =>
    match byteEntity b with
    | none => scanFrom s out start (i + 1) rest
    | some e => do
      let unwritten ← slice? s start i
      scanFrom s (out ++ unwritten ++ e) (i + 1) (i + 1) rest

/-- Writes a text behind `out`, escaped. -/
def writeEscaped (out s : String) : Option String :=
  scanFrom s out 0 0 (bytesOf s)

/-! ## Bytes of a character -/

/-- A character with a meaning in markup is one byte, and the byte has its entity. -/
theorem utf8EncodeChar_of_mem {c : Char} (hc : c ∈ specials) :
    ∃ b e, utf8EncodeChar c = [b] ∧ byteEntity b = some e ∧ String.ofList (entity c) = e := by
  simp only [specials, List.mem_cons, List.not_mem_nil, or_false] at hc
  rcases hc with rfl | rfl | rfl | rfl | rfl <;> exact ⟨_, _, rfl, rfl, rfl⟩

/-- A character is one byte with its own number, or all its bytes are beyond the numbers of such
bytes. -/
theorem utf8EncodeChar_cases (c : Char) :
    (utf8EncodeChar c = [UInt8.ofNat c.toNat] ∧ c.toNat < 128) ∨
      ∀ b ∈ utf8EncodeChar c, 128 ≤ b.toNat := by
  unfold utf8EncodeChar
  simp only
  split_ifs with hone htwo hthree
  · left
    exact ⟨rfl, Nat.lt_succ_of_le hone⟩
  -- Each first byte of several is made from 192 upwards, and each later one from 128 upwards.
  all_goals
    right
    simp only [List.mem_cons, List.not_mem_nil, or_false, forall_eq_or_imp, forall_eq,
      UInt8.toNat_ofNat']
    omega

/-- No byte of another character has a meaning in markup, wherever in the character it is. -/
theorem byteEntity_of_not_mem {c : Char} (hc : c ∉ specials) {b : UInt8}
    (hb : b ∈ utf8EncodeChar c) : byteEntity b = none := by
  rcases utf8EncodeChar_cases c with ⟨hone, hascii⟩ | hbeyond
  · obtain rfl : b = UInt8.ofNat c.toNat := by simpa [hone] using hb
    -- Of the characters of one byte, only the special ones have an entity.
    have hsingle : ∀ n < 128, Char.ofNat n ∉ specials → byteEntity (UInt8.ofNat n) = none := by
      decide +kernel
    apply hsingle c.toNat hascii
    rwa [Char.ofNat_toNat]
  · have hbyte := hbeyond b hb
    unfold byteEntity
    split_ifs with hquot hamp hapos hlt hgt
    case neg => rfl
    all_goals
      subst b
      exact absurd hbyte (by decide)

/-- Bytes without a meaning are passed over. -/
theorem scanFrom_append {bs : List UInt8} (hbs : ∀ b ∈ bs, byteEntity b = none) (s out : String)
    (start i : Nat) (rest : List UInt8) :
    scanFrom s out start i (bs ++ rest) = scanFrom s out start (i + bs.length) rest := by
  induction bs generalizing i with
  | nil => rfl
  | cons b bs ih =>
    have hb : byteEntity b = none := hbs b List.mem_cons_self
    rw [List.cons_append, scanFrom, hb]
    simp only
    rw [ih (fun b hb => hbs b (List.mem_cons_of_mem _ hb)), List.length_cons, Nat.add_assoc,
      Nat.add_comm 1]

/-! ## The run -/

/-- The scan stands before the characters `after`, and `pending` is what it has passed over since it
last wrote: it writes both, escaped. -/
theorem scanFrom_eq (before pending after : List Char) (hpending : ∀ c ∈ pending, c ∉ specials)
    (out : String) :
    scanFrom (String.ofList (before ++ pending ++ after)) out (utf8Len before)
      (utf8Len before + utf8Len pending) (after.flatMap utf8EncodeChar) =
        some (out ++ String.ofList (pending ++ escapeChars after)) := by
  -- The induction is on what lies ahead. What is passed over moves to `pending`, what is written
  -- to `before`, so the text stays the same.
  induction after generalizing before pending out with
  | nil =>
    -- At the end, what is pending is the last slice.
    have hslice := slice?_utf8Len before pending []
    rw [List.append_nil] at hslice ⊢
    rw [List.flatMap_nil, scanFrom, String.utf8ByteSize_ofList, String.utf8Len_append, hslice]
    simp [escapeChars]
  | cons c after ih =>
    rw [List.flatMap_cons, escapeChars_cons]
    by_cases hc : c ∈ specials
    · -- What is pending goes out in one slice, then the entity.
      obtain ⟨b, e, hbyte, hentity, rfl⟩ := utf8EncodeChar_of_mem hc
      have hsize : c.utf8Size = 1 := by rw [← String.length_utf8EncodeChar, hbyte]; rfl
      have hrest := ih (before ++ pending ++ [c]) [] (by simp)
        (out ++ String.ofList pending ++ String.ofList (entity c))
      rw [hbyte, List.singleton_append, scanFrom, hentity]
      simp only [slice?_utf8Len, Option.bind_eq_bind, Option.bind_some]
      simpa [hsize, String.append_assoc, Nat.add_assoc] using hrest
    · -- The character joins what is pending.
      have hbytes : ∀ b ∈ utf8EncodeChar c, byteEntity b = none :=
        fun b hb => byteEntity_of_not_mem hc hb
      have hjoined : ∀ d ∈ pending ++ [c], d ∉ specials := by
        simpa [or_imp, forall_and] using And.intro hpending hc
      have hrest := ih before (pending ++ [c]) hjoined out
      rw [scanFrom_append hbytes, String.length_utf8EncodeChar, entity_of_not_mem hc]
      simpa [Nat.add_assoc] using hrest

/-- The scan gives a text, whatever characters of several bytes there are, and gives what escaping
character by character gives. -/
theorem writeEscaped_eq (out s : String) : writeEscaped out s = some (out ++ escape s) := by
  -- At the start nothing is written, and nothing is passed over.
  have hscan := scanFrom_eq [] [] s.toList (by simp) out
  rw [writeEscaped, ← String.ofList_toList (s := s), bytesOf_ofList]
  simpa [escape] using hscan

/-- Pieces written one after the other. -/
theorem foldlM_writeEscaped (out : String) (pieces : List String) :
    pieces.foldlM writeEscaped out = some (out ++ escape (String.join pieces)) := by
  induction pieces generalizing out with
  | nil => simp [escape, escapeChars]
  | cons piece pieces ih =>
    rw [List.foldlM_cons, writeEscaped_eq]
    simp [ih, String.append_assoc]

/-! ## Escaped text -/

/-- How the text `t` answers to the text `s` that it escapes. -/
structure Escapes (s t : String) : Prop where
  /-- No character of it makes markup. -/
  unmarked : ∀ c ∈ t.toList, isMark c = false
  /-- Every ampersand in it starts one of the five entities. -/
  referenced : ∀ before after, t.toList = before ++ '&' :: after →
    ∃ e ∈ specialEntities, e.toList <+: '&' :: after
  /-- Reading the entities back, in one pass from left to right, restores the text. -/
  restored : unescape t = s
  /-- The scan by bytes always comes to its end, and writes it behind all that is there. -/
  scanned : ∀ out, writeEscaped out s = some (out ++ t)
  /-- Where the text is cut into pieces does not show when they are written one by one. -/
  pieced : ∀ out pieces, String.join pieces = s → pieces.foldlM writeEscaped out = some (out ++ t)

/-- Escaping loses nothing of a text, and does not depend on the pieces in which the text comes. -/
theorem escapes_escape (s : String) : Escapes s (escape s) where
  unmarked := by
    intro c hc
    rw [toList_escape] at hc
    exact isMark_of_mem_escapeChars hc
  referenced := by
    intro before after h
    rw [toList_escape] at h
    obtain ⟨c, hc, rest, -, hafter⟩ := amp_of_escapeChars h
    refine ⟨String.ofList (entity c), ?_, ?_⟩
    · rw [← map_entity_specials]
      exact List.mem_map_of_mem hc
    · rw [String.toList_ofList, hafter]
      exact List.prefix_append (entity c) (escapeChars rest)
  restored := by
    rw [unescape, toList_escape, unescapeChars_escapeChars, String.ofList_toList]
  scanned := fun out => writeEscaped_eq out s
  pieced := by
    rintro out pieces rfl
    exact foldlM_writeEscaped out pieces

end MailTemplate.Html
