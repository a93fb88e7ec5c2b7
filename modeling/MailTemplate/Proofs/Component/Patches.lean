import MailTemplate.Proofs.Json.Merge
import MailTemplate.Proofs.Tree.Agreement

/-!
# Patches and the Signs of Zeros

A patch that is laid over two records which differ in the sign of a zero line height only gives two
such records again, or the same error for both. For the sign is seen in the JSON of a record only
where the line height stands, and there the patch either replaces the value or leaves it alone.

* `unsignedLine` drops the sign in a member of an object. It makes no difference for a merge
  (`mergeMembers_unsignedLine`), and none for what is read but for the sign there
  (`Paragraph.readMembers_unsigned`).
* `Tree.patched_unsigned` says so of a whole patch.
-/

namespace MailTemplate

open Json Json.Shape

/-! ## Numbers in both formats -/

namespace Binary.Finite

variable {f : Format}

theorem unsigned_of_ne_zero {x : Finite f} (h : x.significand ≠ 0) : x.unsigned = x := by
  cases x
  simpa [unsigned] using fun _ => h

/-- Narrowing keeps the sign of a zero, and so does not care for it. -/
theorem narrow_unsigned (x : Finite .double) : x.unsigned.narrow.unsigned = x.narrow.unsigned := by
  by_cases hzero : x.significand = 0
  · obtain ⟨negative, significand, exponent, hreduced, hheld⟩ := x
    have hnarrow : ∀ sign, Value.round .single sign significand 1 exponent =
        .finite ⟨sign, 0, 0, .inr ⟨rfl, rfl⟩, by decide⟩ := by
      intro sign
      rw [show significand = 0 from hzero, Value.round, if_pos rfl]
      exact Value.ofScaled_eq_finite (by rw [reduce, if_pos rfl]) _ _
    simp [narrow, unsigned, hnarrow, Value.unsigned]
  · rw [unsigned_of_ne_zero hzero]

theorem widen_unsigned (x : Finite .single) : x.unsigned.widen.unsigned = x.widen.unsigned := by
  simp [widen, unsigned]

end Binary.Finite

/-! ## Members of an object -/

namespace Json

/-- The value, where a zero with a point loses its sign. -/
def unsigned : Json → Json
  | .number (.float x) => .number (.float x.unsigned)
  | json => json

theorem isObject_unsigned (json : Json) : json.unsigned.isObject = json.isObject := by
  unfold unsigned
  split <;> rfl

theorem unsigned_of_isObject {json : Json} (h : json.isObject = true) : json.unsigned = json := by
  unfold unsigned
  split
  · cases h
  · rfl

/-- Numbers are replaced by a merge, so their signs do not matter for it. -/
theorem merge_unsigned (old value : Json) :
    (old.merge value).unsigned = old.unsigned.merge value.unsigned := by
  by_cases h : old.isObject = false ∨ value.isObject = false
  · rw [merge_eq_self h, merge_eq_self (by rwa [isObject_unsigned, isObject_unsigned])]
  · rw [not_or, Bool.not_eq_false, Bool.not_eq_false] at h
    rw [unsigned_of_isObject h.1, unsigned_of_isObject h.2]
    refine unsigned_of_isObject ?_
    -- Two objects give an object.
    unfold merge
    split
    · rfl
    · exact h.2

/-- The member, where a line height of zero loses its sign. -/
def unsignedLine (member : String × Json) : String × Json :=
  (member.1, if member.1 = "lineHeight" then member.2.unsigned else member.2)

theorem laidOver_unsignedLine (key : String) (old : Option Json) (value : Json) :
    (unsignedLine (key, laidOver old value)).2 =
      laidOver (old.map fun old => (unsignedLine (key, old)).2) (unsignedLine (key, value)).2 := by
  cases old with
  | none => rfl
  | some old =>
    simp only [unsignedLine, laidOver, Option.map_some, Option.elim_some]
    split
    · exact merge_unsigned old value
    · rfl

theorem upsert_unsignedLine (key : String) (value : Json) (members : List (String × Json)) :
    (upsert key (laidOver · value) members).map unsignedLine =
      upsert key (laidOver · (unsignedLine (key, value)).2) (members.map unsignedLine) := by
  induction members with
  | nil => rfl
  | cons member members ih =>
    obtain ⟨k, v⟩ := member
    by_cases hk : k = key
    · subst hk
      have hlaid := laidOver_unsignedLine k (some v) value
      simp only [upsert, if_true, List.map_cons, unsignedLine] at hlaid ⊢
      rw [hlaid]
      rfl
    · simp only [upsert, if_neg hk, List.map_cons, ih, unsignedLine]

theorem mergeMembers_unsignedLine (members patch : List (String × Json)) :
    (mergeMembers members patch).map unsignedLine =
      mergeMembers (members.map unsignedLine) (patch.map unsignedLine) := by
  induction patch generalizing members with
  | nil => simp [mergeMembers]
  | cons member patch ih =>
    obtain ⟨key, value⟩ := member
    rw [mergeMembers_cons, ih, upsert_unsignedLine, List.map_cons]
    exact mergeMembers_cons.symm

end Json

/-! ## Texts -/

namespace Paragraph

variable {r r' : Paragraph}

/-- The default line height is no zero. -/
theorem unsigned_default : ({} : Paragraph).lineHeight.unsigned = ({} : Paragraph).lineHeight := by
  decide +kernel

theorem decode_single_unsigned (value : Json) :
    Binary.Value.unsigned <$> Codec.single.decode value.unsigned =
      Binary.Value.unsigned <$> Codec.single.decode value := by
  unfold Json.unsigned
  split
  · exact congrArg Except.ok (Binary.Finite.narrow_unsigned _)
  · rfl

/-- A member is read alike into records that differ in the sign of a zero only. -/
theorem read_of_unsigned {α : Type} (name : String) (codec : Codec α) (get : Paragraph → α)
    {set : α → Paragraph → Paragraph} (hset : ∀ x, (set x r').unsigned = (set x r).unsigned)
    (value : Json) :
    unsigned <$> (Shape.Field.of name codec get set).read value r' =
      unsigned <$> (Shape.Field.of name codec get set).read value r := by
  dsimp only [Shape.Field.of]
  cases codec.decode value with
  | error mismatch => rfl
  | ok x => exact congrArg Except.ok (hset x)

/-- A line height is read alike from values that differ in the sign of a zero only. -/
theorem read_lineHeight_unsigned (value : Json) (h : r'.unsigned = r.unsigned) :
    unsigned <$> ((fun x => { r' with lineHeight := x }) <$> Codec.single.decode value.unsigned) =
      unsigned <$> ((fun x => { r with lineHeight := x }) <$> Codec.single.decode value) := by
  have hset : ∀ (r : Paragraph) (read : Except Mismatch (Binary.Value .single)),
      unsigned <$> ((fun x => { r with lineHeight := x }) <$> read) =
        (fun x => { r.unsigned with lineHeight := x }) <$> (Binary.Value.unsigned <$> read) := by
    intro r read
    cases read <;> rfl
  rw [hset, hset, h, decode_single_unsigned]

theorem read_unsigned {field : Shape.Field Paragraph} (hmem : field ∈ shape.fields) (value : Json)
    (h : r'.unsigned = r.unsigned) :
    unsigned <$> field.read (unsignedLine (field.name, value)).2 r' =
      unsigned <$> field.read value r := by
  have hparts := h
  simp only [unsigned, Paragraph.mk.injEq] at hparts
  simp only [shape, List.mem_cons, List.not_mem_nil, or_false] at hmem
  rcases hmem with rfl | rfl | rfl | rfl | rfl | rfl | rfl
  case inr.inr.inr.inr.inr.inl => exact read_lineHeight_unsigned value h
  all_goals exact read_of_unsigned _ _ _ (fun x => by simp [unsigned, hparts]) value

theorem readMembers_unsigned (members : List (String × Json)) (h : r'.unsigned = r.unsigned) :
    unsigned <$> shape.readMembers r' (members.map unsignedLine) =
      unsigned <$> shape.readMembers r members := by
  induction members generalizing r r' with
  | nil => exact congrArg Except.ok h
  | cons member members ih =>
    obtain ⟨key, value⟩ := member
    rw [List.map_cons, unsignedLine, Shape.readMembers, Shape.readMembers]
    cases hfield : shape.field? key with
    | none => exact ih h -- A member without a field is passed over.
    | some field =>
      have hname : field.name = key := by simpa using List.find?_some hfield
      have hread := read_unsigned (List.mem_of_find?_eq_some hfield) value h
      rw [hname] at hread
      exact map_bind_congr hread fun s' s hs => ih hs

/-- Members that differ in the sign of a line height of zero only read alike. -/
theorem readMembers_congr {members members' : List (String × Json)}
    (h : members'.map unsignedLine = members.map unsignedLine) :
    unsigned <$> shape.readMembers shape.initial members' =
      unsigned <$> shape.readMembers shape.initial members := by
  rw [← readMembers_unsigned members' rfl, h, readMembers_unsigned members rfl]

theorem written_unsigned (r : Paragraph) :
    (shape.fields.map fun field => (field.name, field.write r.unsigned)).map unsignedLine =
      (shape.fields.map fun field => (field.name, field.write r)).map unsignedLine := by
  have hline : (Codec.single.encode r.lineHeight.unsigned).unsigned =
      (Codec.single.encode r.lineHeight).unsigned := by
    cases r.lineHeight with
    | finite x => exact congrArg (fun x => Json.number (.float x)) x.widen_unsigned
    | _ => rfl
  simp [shape, Shape.Field.of, unsignedLine, unsigned, hline]

theorem decode_merge_unsigned (r : Paragraph) (patch : List (String × Json)) :
    unsigned <$> shape.decode ((shape.encode r.unsigned).merge (.object patch)) =
      unsigned <$> shape.decode ((shape.encode r).merge (.object patch)) := by
  simp only [Shape.encode, Json.merge, Shape.decode]
  refine readMembers_congr ?_
  rw [mergeMembers_unsignedLine, mergeMembers_unsignedLine, written_unsigned]

end Paragraph

/-! ## Records of any kind -/

namespace Properties

theorem unsigned_clamp (properties : Properties) :
    properties.clamp.unsigned = properties.unsigned.clamp := by
  cases properties with
  | text r =>
    rw [clamp, unsigned, clamp, Paragraph.unsigned, Binary.Value.isFinite_unsigned,
      Binary.Value.isNegative_unsigned]
    by_cases hline : (r.lineHeight.isFinite && !r.lineHeight.isNegative) = true
    · rw [if_pos hline, if_pos hline]
      rfl
    · rw [if_neg hline, if_neg hline, unsigned, Paragraph.unsigned, Paragraph.unsigned_default]
  | _ => rfl

/-- Reading a text with a patch laid over it. -/
theorem decode_merge_text (r : Paragraph) (patch : List (String × Json)) :
    decode .text ((text r).encode.merge (.object patch)) =
      .text <$> Paragraph.shape.decode ((Paragraph.shape.encode r).merge (.object patch)) := by
  have hwritten : (text r).encode = Paragraph.shape.encode r :=
    @encode_within _ _ Paragraph.shape text _ (fun _ => rfl) r
  rw [hwritten]
  exact @decode_within _ _ Paragraph.shape text _ (fun _ => rfl) _

end Properties

/-- A patch gives the same for a record with and without the sign of a zero, but for such a sign. -/
theorem Tree.patched_unsigned (properties : Properties) (patch : List (String × Json)) :
    Properties.unsigned <$> patched properties.unsigned patch =
      Properties.unsigned <$> patched properties patch := by
  cases properties with
  | text r =>
    have hread := Paragraph.decode_merge_unsigned r patch
    simp only [patched, Properties.unsigned, Properties.kind, Properties.decode_merge_text]
    cases hold : Paragraph.shape.decode ((Paragraph.shape.encode r).merge (.object patch)) with
    | error mismatch =>
      rw [hold] at hread
      rw [map_eq_error_iff.1 hread]
    | ok s =>
      rw [hold] at hread
      obtain ⟨s', hnew, hsame⟩ := map_eq_ok_iff.1 hread
      rw [hnew]
      refine congrArg Except.ok ?_
      rw [Properties.unsigned_clamp, Properties.unsigned_clamp]
      exact congrArg (fun r => (Properties.text r).clamp) hsame
  | _ => rfl

end MailTemplate
