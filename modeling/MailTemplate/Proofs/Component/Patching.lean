import MailTemplate.Proofs.Component.Fields
import MailTemplate.Proofs.Tree.Applied

/-!
# What a Patch Does to a Record

A record is written, merged with a patch, read again and pulled into range. Field by field, it then
holds what the patch has under the name of the field, laid over what the field was before; and a
field that was in range and is not named comes out as it went in.

* `Shape.Regular.decode_merge_iff` reduces a patched record to its fields.
* `Tree.patched_keeps` says what a patch leaves alone.
* `Tree.patched_patched` says that it makes no difference to lay a patch over a record twice.
-/

namespace MailTemplate

open Json Json.Codec Json.Shape

/-! ## Field by field -/

namespace Json.Shape

variable {ρ α : Type} {shape : Shape ρ} {field : Field ρ} {r s : ρ} {value : Json}
  {patch : List (String × Json)}

/-- The value that a patched record has for a field. -/
def Field.laid (field : Field ρ) (patch : List (String × Json)) (record : ρ) : Json :=
  match lookup field.name patch with
  | some value => (field.write record).merge value
  | none => field.write record

theorem Field.laid_of_some (h : lookup field.name patch = some value) (record : ρ) :
    field.laid patch record = (field.write record).merge value := by
  rw [laid, h]

theorem Field.laid_of_none (h : lookup field.name patch = none) (record : ρ) :
    field.laid patch record = field.write record := by
  rw [laid, h]

/-- What a field is written as says what it is. -/
def Field.Telling (field : Field ρ) : Prop :=
  ∀ {value : Json} {r s : ρ}, field.Holds value r → field.Holds value s →
    field.write r = field.write s

theorem Field.telling_of {name : String} {codec : Codec α} {get : ρ → α} {set : α → ρ → ρ}
    (hget : ∀ a r, get (set a r) = a) (hset : ∀ r, set (get r) r = r) :
    (Field.of name codec get set).Telling := by
  intro value r s hr hs
  rw [Field.holds_of_iff hget hset] at hr hs
  rw [Field.write_of, Field.write_of, Except.ok.inj (hr.symm.trans hs)]

namespace Regular

variable (h : shape.Regular)
include h

theorem lookup_merge_written (hmem : field ∈ shape.fields) (hkeys : (patch.map Prod.fst).Nodup) :
    lookup field.name (mergeMembers (shape.written r) patch) = some (field.laid patch r) := by
  rw [lookup_mergeMembers hkeys, lookup_written h.nodup hmem, Field.laid]
  cases lookup field.name patch <;> rfl

/-- A record is what is read after a patch was laid over another one just if each of its fields
holds the value that the patched record has for it. -/
theorem decode_merge_iff (hkeys : (patch.map Prod.fst).Nodup) :
    shape.decode ((shape.encode r).merge (.object patch)) = .ok s ↔
      ∀ field ∈ shape.fields, field.Holds (field.laid patch r) s := by
  have hmerged := nodup_keys_mergeMembers (nodup_written h.nodup r) patch
  have hentry : ∀ field ∈ shape.fields,
      shape.entry (mergeMembers (shape.written r) patch) field = field.laid patch r := by
    intro field hmem
    rw [entry, h.lookup_merge_written hmem hkeys, Option.getD_some]
  have hholds : ∀ {s'}, shape.decode (.object (mergeMembers (shape.written r) patch)) = .ok s' →
      ∀ field ∈ shape.fields, field.Holds (field.laid patch r) s' := by
    intro s' hread field hmem
    rw [← hentry field hmem]
    exact h.holds_entry hmem hmerged hread
  change shape.decode (.object (mergeMembers (shape.written r) patch)) = .ok s ↔ _
  refine ⟨hholds, fun hall => ?_⟩
  -- Each member fits its field, so some record is read; it agrees with this one field by field.
  have hok : (shape.decode (.object (mergeMembers (shape.written r) patch))).isOk = true := by
    rw [h.isOk_decode_iff]
    rintro ⟨key, value⟩ hmember field hfield
    obtain ⟨hmem, rfl⟩ := mem_of_field?_eq_some hfield
    rw [← lookup_eq_some_iff hmerged, h.lookup_merge_written hmem hkeys] at hmember
    obtain rfl := Option.some.inj hmember
    rw [(h.regular field hmem).total _ _ s, hall field hmem]
    rfl
  obtain ⟨s', hread⟩ := isOk_iff_exists.1 hok
  rw [hread, h.ext s' s fun field hmem => ⟨_, hholds hread field hmem, hall field hmem⟩]

end Regular

/-- What is found under a key of a written record. -/
theorem get?_encode (hnodup : (shape.fields.map Field.name).Nodup) (key : String) :
    (shape.encode r).get? key = (shape.field? key).map (·.write r) := by
  cases hfield : shape.field? key with
  | some field =>
    obtain ⟨hmem, rfl⟩ := mem_of_field?_eq_some hfield
    exact lookup_written hnodup hmem
  | none =>
    refine lookup_eq_none_iff.2 fun hkey => ?_
    rw [List.map_map] at hkey
    obtain ⟨field, hmem, rfl⟩ := List.mem_map.1 hkey
    exact nomatch hfield.symm.trans (field?_of_mem hnodup hmem)

section Within

variable {τ : Type} {inject : ρ → τ} {project : τ → Option ρ}
  (hproject : ∀ r, project (inject r) = some r)
include hproject

theorem Field.holds_within (field : Field ρ) :
    (field.within inject project).Holds value (inject r) ↔ field.Holds value r := by
  unfold Field.Holds
  rw [Field.read_within hproject, map_eq_ok_iff]
  constructor
  · rintro ⟨s, hread, heq⟩
    obtain rfl := injective_of_project hproject heq
    exact hread
  · exact fun hread => ⟨r, hread, rfl⟩

theorem Field.laid_within (field : Field ρ) :
    (field.within inject project).laid patch (inject r) = field.laid patch r := by
  rw [laid, laid, write_within hproject]
  rfl

end Within

end Json.Shape

theorem Json.get?_eq_none_of_isObject {json : Json} (h : json.isObject = false) (key : String) :
    json.get? key = none := by
  cases json with
  | object => cases h
  | _ => rfl

/-- An object without members adds nothing to one with members. -/
theorem Json.get?_merge_nil (json : Json) (key : String) :
    (json.merge (.object [])).get? key = json.get? key := by
  cases json <;> rfl

theorem Json.Codec.Lawful.encode_inj {α : Type} {codec : Codec α} (h : codec.Lawful) {a b : α} :
    codec.encode a = codec.encode b ↔ a = b := by
  refine ⟨fun heq => ?_, congrArg codec.encode⟩
  have hread : codec.decode (codec.encode a) = .ok a := h a
  exact Except.ok.inj (hread.symm.trans (heq ▸ h b))

theorem Json.Codec.Flat.merge_encode {α : Type} {codec : Codec α} (h : codec.Flat) (a : α)
    (value : Json) : (codec.encode a).merge value = value :=
  merge_eq_self (.inl (h a))

/-! ## Paddings -/

namespace Padding

variable {padding next : Padding} {value : Json} {named : List (String × Json)} {side : String}

@[simp]
theorem telling : ∀ field ∈ shape.fields, field.Telling := by
  simp [shape, Field.telling_of]

/-- It makes no difference to lay an object over a padding twice. -/
theorem decode_merge_again (hvalue : value.Distinct)
    (hread : shape.decode ((shape.encode padding).merge value) = .ok next) :
    shape.decode ((shape.encode next).merge value) = .ok next := by
  cases value with
  | object named =>
    rw [regular.decode_merge_iff hvalue.nodup_keys] at hread ⊢
    intro field hmem
    cases hfound : lookup field.name named with
    | none =>
      rw [Field.laid_of_none hfound]
      exact holds_write next field hmem
    | some side =>
      have hheld := hread field hmem
      rw [Field.laid_of_some hfound] at hheld ⊢
      rw [merge_eq_self (.inl (flat_write _ field hmem))] at hheld ⊢
      exact hheld
  | _ => exact hread

/-- A side that is not named stays as it is. -/
theorem get?_merge (hkeys : (named.map Prod.fst).Nodup) (hside : side ∉ named.map Prod.fst)
    (hread : shape.decode ((shape.encode padding).merge (.object named)) = .ok next) :
    (shape.encode next).get? side = (shape.encode padding).get? side := by
  rw [regular.decode_merge_iff hkeys] at hread
  rw [get?_encode regular.nodup, get?_encode regular.nodup]
  cases hfield : shape.field? side with
  | none => rfl
  | some field =>
    obtain ⟨hmem, rfl⟩ := mem_of_field?_eq_some hfield
    have hheld := hread field hmem
    rw [Field.laid_of_none (lookup_eq_none_iff.2 hside)] at hheld
    exact congrArg some (telling field hmem hheld (holds_write padding field hmem))

end Padding

namespace Json.Shape.Field.Plain

variable {ρ : Type} {field : Shape.Field ρ} {r s : ρ} {value : Json}

/-- It makes no difference to lay a value over a field twice. -/
theorem holds_merge_again (h : field.Plain) (hvalue : value.Distinct)
    (hheld : field.Holds ((field.write r).merge value) s) :
    field.Holds ((field.write s).merge value) s := by
  cases h with
  | flat hflat =>
    rw [merge_eq_self (.inl (hflat r))] at hheld
    rwa [merge_eq_self (.inl (hflat s))]
  | @padding name get set hget =>
    obtain ⟨padding, hread, hset⟩ := map_eq_ok_iff.1 hheld
    obtain rfl : get s = padding := hset ▸ hget padding s
    exact map_eq_ok_iff.2 ⟨_, Padding.decode_merge_again hvalue hread, hset⟩

/-- An object leaves the sides of a padding alone that it does not name. -/
theorem get?_write_of_merge {named : List (String × Json)} {side : String} (h : field.Plain)
    (hkeys : (named.map Prod.fst).Nodup) (hside : side ∉ named.map Prod.fst)
    (hheld : field.Holds ((field.write r).merge (.object named)) s) :
    (field.write s).get? side = (field.write r).get? side := by
  cases h with
  | flat hflat =>
    rw [get?_eq_none_of_isObject (hflat s), get?_eq_none_of_isObject (hflat r)]
  | @padding name get set hget =>
    obtain ⟨padding, hread, hset⟩ := map_eq_ok_iff.1 hheld
    obtain rfl : get s = padding := hset ▸ hget padding s
    exact Padding.get?_merge hkeys hside hread

end Json.Shape.Field.Plain

/-! ## Records of any kind -/

/-- The records of a kind are one case of the records of all kinds, and what a field of theirs is
written as says what it is. -/
theorem Kind.exists_telling (kind : Kind) :
    ∃ (ρ : Type) (shape : Shape ρ) (inject : ρ → Properties) (project : Properties → Option ρ),
      kind.shape = shape.within inject project ∧ (∀ r, project (inject r) = some r) ∧
      shape.Regular ∧ (∀ field ∈ shape.fields, field.Plain ∧ field.Telling) ∧
      ∀ properties : Properties, properties.kind = kind ↔ ∃ r, inject r = properties := by
  cases kind with
  | root =>
    exact ⟨_, _, _, _, rfl, fun _ => rfl, Page.regular,
      by simp [Page.shape, Field.telling_of],
      fun properties => by cases properties <;> simp [Properties.kind]⟩
  | text =>
    exact ⟨_, _, _, _, rfl, fun _ => rfl, Paragraph.regular,
      by simp [Paragraph.shape, Field.telling_of],
      fun properties => by cases properties <;> simp [Properties.kind]⟩
  | heading =>
    exact ⟨_, _, _, _, rfl, fun _ => rfl, Heading.regular,
      by simp [Heading.shape, Field.telling_of],
      fun properties => by cases properties <;> simp [Properties.kind]⟩
  | button =>
    exact ⟨_, _, _, _, rfl, fun _ => rfl, Button.regular,
      by simp [Button.shape, Field.telling_of],
      fun properties => by cases properties <;> simp [Properties.kind]⟩
  | image =>
    exact ⟨_, _, _, _, rfl, fun _ => rfl, Image.regular,
      by simp [Image.shape, Field.telling_of],
      fun properties => by cases properties <;> simp [Properties.kind]⟩
  | divider =>
    exact ⟨_, _, _, _, rfl, fun _ => rfl, Divider.regular,
      by simp [Divider.shape, Field.telling_of],
      fun properties => by cases properties <;> simp [Properties.kind]⟩
  | spacer =>
    exact ⟨_, _, _, _, rfl, fun _ => rfl, Spacer.regular,
      by simp [Spacer.shape, Field.telling_of],
      fun properties => by cases properties <;> simp [Properties.kind]⟩
  | columns =>
    exact ⟨_, _, _, _, rfl, fun _ => rfl, Columns.regular,
      by simp [Columns.shape, Field.telling_of],
      fun properties => by cases properties <;> simp [Properties.kind]⟩
  | column =>
    exact ⟨_, _, _, _, rfl, fun _ => rfl, Column.regular,
      by simp [Column.shape, Field.telling_of],
      fun properties => by cases properties <;> simp [Properties.kind]⟩

/-- A field of a kind is a field of the records that are the kind's case of all records. -/
theorem Kind.exists_inner {kind : Kind} {field : Shape.Field Properties}
    (hmem : field ∈ kind.shape.fields) :
    ∃ (ρ : Type) (inner : Shape.Field ρ) (inject : ρ → Properties)
      (project : Properties → Option ρ), field = inner.within inject project ∧
      (∀ r, project (inject r) = some r) ∧ inner.Plain ∧ inner.Telling ∧
      ∀ properties : Properties, properties.kind = kind ↔ ∃ r, inject r = properties := by
  obtain ⟨ρ, shape, inject, project, hshape, hproject, -, hfields, hcase⟩ := kind.exists_telling
  rw [hshape] at hmem
  obtain ⟨inner, hinner, rfl⟩ := List.mem_map.1 hmem
  obtain ⟨hplain, htelling⟩ := hfields inner hinner
  exact ⟨ρ, inner, inject, project, rfl, hproject, hplain, htelling, hcase⟩

/-- The line height in range: the default takes the place of one that is not. -/
def Paragraph.legalLine (lineHeight : Binary.Value .single) : Binary.Value .single :=
  if lineHeight.isFinite && !lineHeight.isNegative then lineHeight
  else ({} : Paragraph).lineHeight

theorem Properties.clamp_text (r : Paragraph) :
    (text r).clamp = text { r with lineHeight := Paragraph.legalLine r.lineHeight } := by
  rw [clamp, Paragraph.legalLine]
  split <;> rfl

/-- Line heights that are written alike are the same, or none of them is finite. -/
theorem Paragraph.legalLine_congr {x y : Binary.Value .single}
    (h : single.encode x = single.encode y) : legalLine x = legalLine y := by
  cases x with
  | finite x =>
    cases y with
    | finite y =>
      have heq : x.widen = y.widen := by simpa [single] using h
      rw [← x.narrow_widen, heq, y.narrow_widen]
    | _ => cases h
  | _ =>
    cases y with
    | finite y => cases h
    | _ => rfl

namespace Properties

variable {old new : Properties} {field : Shape.Field Properties} {value : Json}
  {patch : List (String × Json)}

/-- A record is what is read after a patch was laid over another one just if it is of the same kind
and each of its fields holds the value that the patched record has for it. -/
theorem decode_merge_iff (hkeys : (patch.map Prod.fst).Nodup) :
    decode old.kind (old.encode.merge (.object patch)) = .ok new ↔
      new.kind = old.kind ∧
        ∀ field ∈ old.kind.shape.fields, field.Holds (field.laid patch old) new := by
  obtain ⟨ρ, shape, inject, project, hshape, hproject, hregular, -, hcase⟩ :=
    old.kind.exists_telling
  obtain ⟨r, hr⟩ := (hcase old).1 rfl
  rw [hcase new, encode, decode, hshape, ← hr, encode_within hproject, decode_within hproject,
    map_eq_ok_iff, ← exists_and_right]
  refine exists_congr fun s => ?_
  rw [hregular.decode_merge_iff hkeys, forall_fields_within, and_comm]
  refine and_congr_right fun hs => ?_
  simp only [← hs, Field.holds_within hproject, Field.laid_within hproject]

/-- A field with a finite value is read back as it was written. -/
theorem holds_write (h : old.Finite) (hmem : field ∈ old.kind.shape.fields) :
    field.Holds (field.write old) old := by
  have hread : decode old.kind (old.encode.merge (.object [])) = .ok old := decode_encode h
  have hkeys : (([] : List (String × Json)).map Prod.fst).Nodup := List.nodup_nil
  exact ((decode_merge_iff hkeys).1 hread).2 field hmem

variable (hkind : new.kind = old.kind) (hmem : field ∈ old.kind.shape.fields)
include hkind hmem

theorem write_eq_of_holds (hold : field.Holds value old) (hnew : field.Holds value new) :
    field.write new = field.write old := by
  obtain ⟨ρ, inner, inject, project, rfl, hproject, -, htelling, hcase⟩ := Kind.exists_inner hmem
  obtain ⟨r, rfl⟩ := (hcase old).1 rfl
  obtain ⟨s, rfl⟩ := (hcase new).1 hkind
  rw [Field.holds_within hproject] at hold hnew
  rw [write_within hproject, write_within hproject]
  exact htelling hnew hold

theorem holds_merge_again (hvalue : value.Distinct)
    (hheld : field.Holds ((field.write old).merge value) new) :
    field.Holds ((field.write new).merge value) new := by
  obtain ⟨ρ, inner, inject, project, rfl, hproject, hplain, -, hcase⟩ := Kind.exists_inner hmem
  obtain ⟨r, rfl⟩ := (hcase old).1 rfl
  obtain ⟨s, rfl⟩ := (hcase new).1 hkind
  rw [Field.holds_within hproject, write_within hproject] at hheld ⊢
  exact hplain.holds_merge_again hvalue hheld

theorem get?_write_of_merge {named : List (String × Json)} {side : String}
    (hkeys : (named.map Prod.fst).Nodup) (hside : side ∉ named.map Prod.fst)
    (hheld : field.Holds ((field.write old).merge (.object named)) new) :
    (field.write new).get? side = (field.write old).get? side := by
  obtain ⟨ρ, inner, inject, project, rfl, hproject, hplain, -, hcase⟩ := Kind.exists_inner hmem
  obtain ⟨r, rfl⟩ := (hcase old).1 rfl
  obtain ⟨s, rfl⟩ := (hcase new).1 hkind
  rw [Field.holds_within hproject, write_within hproject] at hheld
  rw [write_within hproject, write_within hproject]
  exact hplain.get?_write_of_merge hkeys hside hheld

omit hkind in
/-- What is pulled into range is not written as an object, so that whatever is laid over it replaces
it. -/
theorem merge_write_clamp (value : Json) :
    (field.write old.clamp).merge value = (field.write old).merge value := by
  revert field
  cases old with
  | root r =>
    simp [kind, Kind.shape, Shape.within, Page.shape, Field.write_of, clamp,
      flat_uint32.merge_encode]
  | text r =>
    simp [kind, Kind.shape, Shape.within, Paragraph.shape, Field.write_of, clamp_text,
      flat_single.merge_encode]
  | heading r =>
    simp [kind, Kind.shape, Shape.within, Heading.shape, Field.write_of, clamp,
      flat_uint8.merge_encode]
  | _ => exact fun _ => rfl

/-- A field is pulled into range alike if it is written alike. -/
theorem write_clamp_congr (h : field.write new = field.write old) :
    field.write new.clamp = field.write old.clamp := by
  revert field
  cases old with
  | root r =>
    cases new with
    | root s =>
      simp +contextual [kind, Kind.shape, Shape.within, Page.shape, Field.write_of, clamp,
        uint32_lawful.encode_inj]
    | _ => cases hkind
  | text r =>
    cases new with
    | text s =>
      simp +contextual [kind, Kind.shape, Shape.within, Paragraph.shape, Field.write_of, clamp_text]
      exact fun heq => congrArg single.encode (Paragraph.legalLine_congr heq)
    | _ => cases hkind
  | heading r =>
    cases new with
    | heading s =>
      simp +contextual [kind, Kind.shape, Shape.within, Heading.shape, Field.write_of, clamp,
        uint8_lawful.encode_inj]
    | _ => cases hkind
  | _ =>
    cases new with
    | _ => first | exact fun _ heq => heq | cases hkind

end Properties

/-! ## Patches -/

namespace Tree

variable {old new : Properties} {field : Shape.Field Properties} {key side : String}
  {patch named : List (String × Json)}

theorem patched_eq_ok_iff :
    patched old patch = .ok new ↔ ∃ read,
      Properties.decode old.kind (old.encode.merge (.object patch)) = .ok read ∧
        read.clamp = new := by
  unfold patched
  cases Properties.decode old.kind (old.encode.merge (.object patch)) <;> simp

/-- A field in range that is read back as it was is not pulled anywhere. -/
theorem write_clamp_of_holds {read : Properties} (hrange : old.InRange)
    (hkind : read.kind = old.kind) (hmem : field ∈ old.kind.shape.fields)
    (hheld : field.Holds (field.write old) read) : field.write read.clamp = field.write old := by
  have hsame : field.write read = field.write old :=
    Properties.write_eq_of_holds hkind hmem (Properties.holds_write hrange.finite hmem) hheld
  rw [Properties.write_clamp_congr hkind hmem hsame, hrange]

/-- A patch leaves the fields alone that it does not name. -/
theorem patched_keeps (hrange : old.InRange) (hkeys : (patch.map Prod.fst).Nodup)
    (hpatched : patched old patch = .ok new) (hnot : key ∉ patch.map Prod.fst) :
    new.encode.get? key = old.encode.get? key := by
  obtain ⟨read, hread, rfl⟩ := patched_eq_ok_iff.1 hpatched
  obtain ⟨hkind, hheld⟩ := (Properties.decode_merge_iff hkeys).1 hread
  rw [Properties.encode, Properties.encode, Properties.kind_clamp, hkind,
    get?_encode old.kind.nodup_names, get?_encode old.kind.nodup_names]
  cases hfield : old.kind.shape.field? key with
  | none => rfl
  | some field =>
    obtain ⟨hmem, rfl⟩ := mem_of_field?_eq_some hfield
    have hback := hheld field hmem
    rw [Field.laid_of_none (lookup_eq_none_iff.2 hnot)] at hback
    exact congrArg some (write_clamp_of_holds hrange hkind hmem hback)

/-- An object in a patch leaves the sides of a padding alone that it does not name. -/
theorem patched_keeps_side (hkeys : (patch.map Prod.fst).Nodup)
    (hsides : (named.map Prod.fst).Nodup) (hpatched : patched old patch = .ok new)
    (hobject : lookup key patch = some (.object named)) (hnot : side ∉ named.map Prod.fst) :
    (new.encode.get? key).bind (Json.get? side) = (old.encode.get? key).bind (Json.get? side) := by
  obtain ⟨read, hread, rfl⟩ := patched_eq_ok_iff.1 hpatched
  obtain ⟨hkind, hheld⟩ := (Properties.decode_merge_iff hkeys).1 hread
  rw [Properties.encode, Properties.encode, Properties.kind_clamp, hkind,
    get?_encode old.kind.nodup_names, get?_encode old.kind.nodup_names]
  cases hfield : old.kind.shape.field? key with
  | none => rfl
  | some field =>
    obtain ⟨hmem, rfl⟩ := mem_of_field?_eq_some hfield
    have hlaid := hheld field hmem
    rw [Field.laid_of_some hobject] at hlaid
    rw [Option.map_some, Option.map_some, Option.bind_some, Option.bind_some,
      ← get?_merge_nil (field.write read.clamp), Properties.merge_write_clamp (hkind ▸ hmem),
      get?_merge_nil]
    exact Properties.get?_write_of_merge hkind hmem hsides hnot hlaid

/-- It makes no difference to lay a patch over a record twice. -/
theorem patched_patched (hrange : old.InRange) (hdistinct : (Json.object patch).Distinct)
    (hpatched : patched old patch = .ok new) : patched new patch = .ok new := by
  have hkeys := hdistinct.nodup_keys
  obtain ⟨read, hread, rfl⟩ := patched_eq_ok_iff.1 hpatched
  obtain ⟨hkind, hheld⟩ := (Properties.decode_merge_iff hkeys).1 hread
  have hclamp := read.kind_clamp
  -- What is read the second time is what was read the first time, before it was pulled into range.
  refine patched_eq_ok_iff.2 ⟨read, (Properties.decode_merge_iff hkeys).2 ⟨hclamp.symm, ?_⟩, rfl⟩
  intro field hmem
  rw [hclamp] at hmem
  have hback := hheld field (hkind ▸ hmem)
  cases hfound : lookup field.name patch with
  | none =>
    rw [Field.laid_of_none hfound] at hback ⊢
    rwa [write_clamp_of_holds hrange hkind (hkind ▸ hmem) hback]
  | some value =>
    rw [Field.laid_of_some hfound] at hback ⊢
    rw [Properties.merge_write_clamp hmem]
    exact Properties.holds_merge_again hkind (hkind ▸ hmem)
      (hdistinct.of_mem (mem_of_lookup_eq_some hfound)) hback

end Tree

/-! ## Rows -/

theorem Json.lookup_filter_ne {key other : String} {members : List (String × Json)} :
    lookup key (members.filter (·.1 ≠ other)) =
      if key = other then none else lookup key members := by
  induction members with
  | nil => simp [lookup]
  | cons member members ih =>
    obtain ⟨k, v⟩ := member
    rw [List.filter_cons, lookup_cons]
    by_cases hk : k = other
    · rw [if_neg (by simpa using hk), ih, hk]
      by_cases heq : key = other
      · rw [if_pos heq, if_pos heq]
      · rw [if_neg heq, if_neg heq, if_neg heq]
    · rw [if_pos (by simpa using hk), lookup_cons, ih]
      by_cases heq : key = other
      · rw [if_pos heq, if_pos heq, if_neg (heq ▸ Ne.symm hk)]
      · rw [if_neg heq, if_neg heq]

namespace Columns

variable {r row : Columns} {field : Shape.Field Columns} {value : Json} {count : UInt32}
  {patch : List (String × Json)}

/-- The fields of a row but the number of its columns. -/
def others : List (Shape.Field Columns) :=
  shape.fields.tail

theorem name_of_mem_others : ∀ field ∈ others, field.name ≠ "columns" := by
  decide

theorem write_others (r : Columns) (count : UInt32) :
    ∀ field ∈ others, field.write { r with columns := count } = field.write r := by
  simp [others, shape, Field.write_of]

theorem holds_others (row : Columns) (count : UInt32) (value : Json) :
    ∀ field ∈ others, field.Holds value { row with columns := count } ↔ field.Holds value row := by
  simp [others, shape, Field.holds_of_iff]

theorem encode_columns (r : Columns) : (Properties.columns r).encode = shape.encode r :=
  @encode_within _ _ shape Properties.columns _ (fun _ => rfl) r

/-- The number of columns is written under its own key. -/
theorem get?_encode_others (r : Columns) (count : UInt32) {key : String} (hne : key ≠ "columns") :
    (Properties.columns { r with columns := count }).encode.get? key =
      (Properties.columns r).encode.get? key := by
  rw [encode_columns, encode_columns, get?_encode regular.nodup, get?_encode regular.nodup]
  cases hfield : shape.field? key with
  | none => rfl
  | some field =>
    obtain ⟨hmem, rfl⟩ := mem_of_field?_eq_some hfield
    rcases List.mem_cons.1 hmem with rfl | hmem
    · exact absurd rfl hne
    · exact congrArg some (write_others r count field hmem)

theorem holds_write_others (r : Columns) : ∀ field ∈ others, field.Holds (field.write r) r := by
  simp [others, shape]

end Columns

namespace Tree

variable {r row : Columns} {value : Json} {count : UInt32} {patch : List (String × Json)}

/-- A row is patched as a record of its own kind, of which nothing is pulled into range. -/
theorem patched_columns_eq_ok_iff :
    patched (.columns r) patch = .ok (.columns row) ↔
      Columns.shape.decode ((Columns.shape.encode r).merge (.object patch)) = .ok row := by
  have hdecode : ∀ json,
      Properties.decode .columns json = .columns <$> Columns.shape.decode json :=
    @decode_within _ _ Columns.shape Properties.columns _ (fun _ => rfl)
  rw [patched, Properties.kind, Columns.encode_columns, hdecode]
  cases Columns.shape.decode ((Columns.shape.encode r).merge (.object patch)) <;>
    simp [Properties.clamp]

/-- A patched row has the number of columns of the patch, if it has one, and its other fields are
patched independently of it. -/
theorem patched_columns_iff (hkeys : (patch.map Prod.fst).Nodup) :
    patched (.columns r) patch = .ok (.columns row) ↔
      uint32.decode ((lookup "columns" patch).getD (uint32.encode r.columns)) = .ok row.columns ∧
        ∀ field ∈ Columns.others, field.Holds (field.laid patch r) row := by
  have hlaid : ∀ field : Shape.Field Columns, field.name = "columns" →
      field.write r = uint32.encode r.columns →
      field.laid patch r = (lookup "columns" patch).getD (uint32.encode r.columns) := by
    intro field hname hwrite
    rw [Field.laid, hname, hwrite]
    cases lookup "columns" patch with
    | none => rfl
    | some value => exact flat_uint32.merge_encode _ _
  rw [patched_columns_eq_ok_iff, Columns.regular.decode_merge_iff hkeys]
  refine List.forall_mem_cons.trans (and_congr_left fun _ => ?_)
  rw [hlaid _ rfl rfl]
  exact Field.holds_of_iff (fun _ _ => rfl) fun _ => rfl

/-- A patch that names the number of columns does not care how many there were. -/
theorem patched_columns_recount (hkeys : (patch.map Prod.fst).Nodup)
    (hnamed : lookup "columns" patch = some value) (count : UInt32)
    (hpatched : patched (.columns r) patch = .ok (.columns row)) :
    patched (.columns { r with columns := count }) patch = .ok (.columns row) := by
  rw [patched_columns_iff hkeys, hnamed] at hpatched ⊢
  refine ⟨hpatched.1, fun field hmem => ?_⟩
  have hheld := hpatched.2 field hmem
  rwa [Field.laid, ← Columns.write_others r count field hmem, ← Field.laid] at hheld

/-- Without the number of columns a patch does the same to the other fields. -/
theorem patched_columns_filter (hkeys : (patch.map Prod.fst).Nodup)
    (hpatched : patched (.columns r) patch = .ok (.columns row)) :
    patched (.columns r) (patch.filter (·.1 ≠ "columns")) =
      .ok (.columns { row with columns := r.columns }) := by
  have hkeys' : ((patch.filter (·.1 ≠ "columns")).map Prod.fst).Nodup :=
    hkeys.sublist (List.filter_sublist.map Prod.fst)
  rw [patched_columns_iff hkeys] at hpatched
  rw [patched_columns_iff hkeys', lookup_filter_ne, if_pos rfl, Option.getD_none]
  refine ⟨uint32_lawful r.columns, fun field hmem => ?_⟩
  rw [Columns.holds_others row r.columns _ field hmem, Field.laid, lookup_filter_ne,
    if_neg (Columns.name_of_mem_others field hmem)]
  exact hpatched.2 field hmem

/-- A patch that does not name the number of columns leaves it alone, whatever keys it repeats. -/
theorem columns_eq_of_patched (hnot : lookup "columns" patch = none)
    (hpatched : patched (.columns r) patch = .ok (.columns row)) : row.columns = r.columns := by
  let field : Shape.Field Columns :=
    .of "columns" uint32 Columns.columns fun x r => { r with columns := x }
  have hmem : field ∈ Columns.shape.fields := List.mem_cons_self
  have hheld := Columns.regular.holds_entry hmem
    (nodup_keys_mergeMembers (nodup_written Columns.regular.nodup r) patch)
    (patched_columns_eq_ok_iff.1 hpatched)
  -- The patch has nothing for the field, so it is read from what the row was written as.
  have hkept : lookup field.name (mergeMembers (Columns.shape.written r) patch) =
      some (field.write r) :=
    (lookup_mergeMembers_of_not_mem (lookup_eq_none_iff.1 hnot)).trans
      (lookup_written Columns.regular.nodup hmem)
  have hentry : Columns.shape.entry (mergeMembers (Columns.shape.written r) patch) field =
      uint32.encode r.columns := by
    rw [entry, hkept, Option.getD_some]
    rfl
  rw [hentry, Field.holds_of_iff (fun _ _ => rfl) fun _ => rfl] at hheld
  exact Except.ok.inj (hheld.symm.trans (uint32_lawful r.columns))

theorem patched_columns_singleton (hcount : uint32.decode value = .ok count) :
    patched (.columns r) [("columns", value)] = .ok (.columns { r with columns := count }) := by
  have hkeys : ([("columns", value)].map Prod.fst).Nodup := List.nodup_singleton _
  rw [patched_columns_iff hkeys]
  refine ⟨hcount, fun field hmem => ?_⟩
  have hne := Columns.name_of_mem_others field hmem
  rw [Columns.holds_others r count _ field hmem, Field.laid_of_none]
  · exact Columns.holds_write_others r field hmem
  · rw [lookup_cons, if_neg hne]
    rfl

end Tree

end MailTemplate
