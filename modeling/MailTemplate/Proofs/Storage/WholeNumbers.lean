import MailTemplate.Proofs.Storage.OwnEntry

/-!
# Stored Whole Numbers

A stored whole number is read as the nearest one that its field may hold, whatever else is stored
beside it. It may be read with the whole record or laid over the defaults, as it is or pulled into
the range of a word or of a byte: the number comes out the same.

## Main definitions

* `WholeNumber`: a whole number that components of a kind record, with its range.
* `WholeNumber.all`: all of them, but for the number of columns of a row.

## Main results

* `Properties.holds_ofStored`: a field holds the first form of its entry that it can be read from.
* `Properties.ofStored_wholeNumber`: a stored whole number comes out as the nearest legal one.
-/

namespace MailTemplate

open Json Json.Codec Json.Shape

/-- A whole number that components of a kind record. -/
structure WholeNumber where
  kind : Kind
  /-- The key under which it is stored. -/
  key : String
  /-- The number in a record of the kind; an image may have none. -/
  value? : Properties → Option Int
  /-- The smallest legal number. -/
  low : Int := 0
  /-- The largest legal number. -/
  high : Int := 4294967295

/-- The number of a range that is nearest to a number. -/
def pulled (low high z : Int) : Int :=
  max low (min high z)

namespace WholeNumber

/-- The legal number nearest to a stored one: it is pulled into the range of a word first. -/
def legal (number : WholeNumber) (z : Int) : Int :=
  pulled number.low number.high (pulled 0 4294967295 z)

/-- The whole numbers that components record, other than the number of columns of a row. -/
def all : List WholeNumber := [
  { kind := .root, key := "maxWidth", low := 320, high := 1200
    value? := fun | .root r => some r.maxWidth.toNat | _ => none },
  { kind := .text, key := "fontSize"
    value? := fun | .text r => some r.fontSize.toNat | _ => none },
  { kind := .heading, key := "level", low := 1, high := 6
    value? := fun | .heading r => some r.level.toNat | _ => none },
  { kind := .heading, key := "fontSize"
    value? := fun | .heading r => some r.fontSize.toNat | _ => none },
  { kind := .button, key := "borderRadius"
    value? := fun | .button r => some r.borderRadius.toNat | _ => none },
  { kind := .button, key := "fontSize"
    value? := fun | .button r => some r.fontSize.toNat | _ => none },
  { kind := .image, key := "width"
    value? := fun | .image r => r.width.map fun w => w.toNat | _ => none },
  { kind := .divider, key := "thickness"
    value? := fun | .divider r => some r.thickness.toNat | _ => none },
  { kind := .divider, key := "widthPercent"
    value? := fun | .divider r => some r.widthPercent.toNat | _ => none },
  { kind := .spacer, key := "height"
    value? := fun | .spacer r => some r.height.toNat | _ => none },
  { kind := .columns, key := "gap"
    value? := fun | .columns r => some r.gap.toNat | _ => none }]

/-- No other member of any record can be a whole number, but for the two that are named. -/
example : ∀ kind ∈ Kind.all, ∀ field ∈ kind.shape.fields,
    (field.read (.ofNat 0) kind.defaults).isOk =
      (["columns", "lineHeight"].contains field.name ||
        all.any fun number => number.kind == kind && number.key == field.name) := by
  decide +kernel

end WholeNumber

/-! ## The first form that can be read -/

namespace Properties

variable {kind : Kind} {field : Shape.Field Properties} {entry form : Json}
  {members : List (String × Json)}

theorem takes_iff (hmem : field ∈ kind.shape.fields) (value : Json) :
    kind.shape.Takes field.name value ↔ (field.read value kind.defaults).isOk = true := by
  rw [Takes, field?_of_mem kind.nodup_names hmem]
  exact ⟨fun hall => hall field rfl, fun hok _ heq => Option.some.inj heq ▸ hok⟩

/-- What is laid over a default that is no object replaces it. -/
theorem choice_of_flat (hmem : field ∈ kind.shape.fields)
    (hflat : (field.write kind.defaults).isObject = false)
    (hform : (attempts entry).find? (fun form => (field.read form kind.defaults).isOk) =
      some form) :
    choice kind field.name (lookup field.name (defaultMembers kind)) entry = some form := by
  have hlaid : (attempts entry).map (laidOver (lookup field.name (defaultMembers kind))) =
      attempts entry := by
    rw [lookup_defaultMembers hmem]
    refine (List.map_congr_left fun form _ => ?_).trans (List.map_id _)
    exact merge_eq_self (.inl hflat)
  have hfits : (fun laid => fits kind (.object [(field.name, laid)])) =
      fun laid => (field.read laid kind.defaults).isOk := by
    funext laid
    rw [Bool.eq_iff_iff, fits_single_iff, takes_iff hmem]
  rw [choice, hlaid, hfits, hform]
  rfl

/-- A field whose default is no object holds the first form of its entry that it can be read from,
whether the record is read as a whole or not. -/
theorem holds_ofStored (hmem : field ∈ kind.shape.fields)
    (hflat : (field.write kind.defaults).isObject = false)
    (hkeys : (members.map Prod.fst).Nodup) (hentry : lookup field.name members = some entry)
    (hform : (attempts entry).find? (fun form => (field.read form kind.defaults).isOk) =
      some form) :
    field.Holds form (ofStored kind (.object members)) := by
  cases hfits : fits kind (.object members) with
  | true =>
    -- The entry is read as it is, which is the first of its forms.
    obtain ⟨record, hread⟩ := isOk_iff_exists.1 hfits
    have hok := (takes_iff hmem entry).1 (fits_object_iff.1 hfits _ (mem_of_lookup_eq_some hentry))
    have hfirst : (attempts entry).find? (fun form => (field.read form kind.defaults).isOk) =
        some entry := List.find?_cons_of_pos hok
    obtain rfl := Option.some.inj (hfirst.symm.trans hform)
    have hheld := holds_entry hmem hkeys hread
    rw [Shape.entry, hentry, Option.getD_some] at hheld
    simpa only [ofStored, hread] using hheld
  | false =>
    obtain ⟨merged, hmerged, hnodup, -, hlookup⟩ := exists_laidOut kind hkeys
    have hread := decode_laidOut hkeys hfits
    rw [hmerged] at hread
    have hheld := holds_entry hmem hnodup hread
    rw [Shape.entry, hlookup, hentry, Option.elim_some, choice_of_flat hmem hflat hform] at hheld
    exact hheld

end Properties

/-! ## Whole numbers by their codecs -/

/-- The value that a codec reads from the first form of an entry that it can read. -/
def firstRead {α : Type} (codec : Codec α) (entry : Json) : Option α :=
  (Properties.attempts entry).findSome? fun form => (codec.decode form).toOption

/-- The largest word. -/
def maxWord : UInt32 := .ofNat (UInt32.size - 1)

theorem firstRead_eq {α : Type} (codec : Codec α) (entry : Json) :
    firstRead codec entry =
      (codec.decode entry).toOption.or ((codec.decode (entry.saturated maxWord)).toOption.or
        (codec.decode (entry.saturated 255)).toOption) := by
  have hforms : Properties.attempts entry =
      [entry, entry.saturated maxWord, entry.saturated 255] := rfl
  simp only [firstRead, hforms, List.findSome?_cons, List.findSome?_nil]
  cases (codec.decode entry).toOption with
  | some a => rfl
  | none =>
    cases (codec.decode (entry.saturated maxWord)).toOption with
    | some a => rfl
    | none => cases (codec.decode (entry.saturated 255)).toOption <;> rfl

theorem toOption_uint32 (i : Integer) :
    (uint32.decode (.number (.integer i))).toOption =
      if 0 ≤ i.value ∧ i.value < 4294967296 then some (.ofNat i.value.toNat) else none := by
  simp only [uint32, integer]
  split_ifs <;> rfl

theorem toOption_uint8 (i : Integer) :
    (uint8.decode (.number (.integer i))).toOption =
      if 0 ≤ i.value ∧ i.value < 256 then some (.ofNat i.value.toNat) else none := by
  simp only [uint8, integer]
  split_ifs <;> rfl

theorem saturate_of_le {ceiling : UInt32} {z : Int} (h : 0 ≤ z) (h' : z ≤ ceiling.toNat) :
    saturate ceiling z = .ofNat z.toNat := by
  rw [saturate, if_neg (by omega), if_neg (by omega)]

theorem toNat_maxWord : maxWord.toNat = 4294967295 :=
  UInt32.toNat_ofNat_of_lt' (by decide)

theorem decode_ofUInt32 (word : UInt32) :
    uint32.decode (.number (.integer (.ofUInt32 word))) = .ok word := by
  have hencode : uint32.encode word = .number (.integer (.ofUInt32 word)) := rfl
  rw [← hencode]
  exact uint32_lawful word

/-- A whole number that is no word is read as the nearest one. -/
theorem firstRead_uint32 (i : Integer) :
    firstRead uint32 (.number (.integer i)) = some (saturate maxWord i.value) := by
  rw [firstRead_eq, toOption_uint32, Json.saturated, decode_ofUInt32]
  split_ifs with hword
  · rw [Option.some_or, saturate_of_le hword.1 (by rw [toNat_maxWord]; omega)]
  · rfl

/-- The byte nearest to a whole number. -/
def nearestByte (z : Int) : UInt8 :=
  .ofNat (saturate 255 z).toNat

theorem toNat_nearestByte (z : Int) : ((nearestByte z).toNat : Int) = pulled 0 255 z := by
  have hbyte := toNat_saturate 255 z
  rw [show (255 : UInt32).toNat = 255 from rfl] at hbyte
  rw [nearestByte, UInt8.toNat_ofNat_of_lt' (by rw [UInt8.size]; omega), hbyte, pulled]
  rfl

/-- A whole number that is no byte is read as the nearest one. -/
theorem firstRead_uint8 (i : Integer) :
    firstRead uint8 (.number (.integer i)) = some (nearestByte i.value) := by
  have hword := toNat_saturate maxWord i.value
  have hbyte := toNat_saturate 255 i.value
  rw [toNat_maxWord] at hword
  rw [show (255 : UInt32).toNat = 255 from rfl] at hbyte
  rw [firstRead_eq, nearestByte]
  simp only [Json.saturated, toOption_uint8, Integer.ofUInt32, Int.toNat_natCast]
  generalize (saturate maxWord i.value).toNat = word at hword ⊢
  generalize (saturate 255 i.value).toNat = byte at hbyte ⊢
  by_cases hfirst : 0 ≤ i.value ∧ i.value < 256
  · -- The number is a byte.
    rw [if_pos hfirst, Option.some_or, show byte = i.value.toNat by omega]
  rw [if_neg hfirst, Option.none_or]
  by_cases hneg : i.value < 0
  · -- As a word it is zero, and as a byte too.
    rw [if_pos (by omega), Option.some_or, show word = byte by omega]
  · -- As a word it is still above all bytes.
    rw [if_neg (by omega), if_pos (by omega), Option.none_or]

theorem firstRead_nullable (i : Integer) :
    firstRead (nullable uint32) (.number (.integer i)) =
      some (some (saturate maxWord i.value)) := by
  have hform : ∀ i : Integer, ((nullable uint32).decode (.number (.integer i))).toOption =
      (uint32.decode (.number (.integer i))).toOption.map some := by
    intro i
    show (some <$> uint32.decode (.number (.integer i))).toOption = _
    cases uint32.decode (.number (.integer i)) <;> rfl
  have hword := firstRead_uint32 i
  rw [firstRead_eq] at hword ⊢
  simp only [Json.saturated, hform, ← Option.map_or] at hword ⊢
  rw [hword, Option.map_some]

/-! ## Records in range -/

theorem toNat_clampWidth (width : UInt32) :
    ((clampWidth width).toNat : Int) = pulled 320 1200 width.toNat := by
  rw [clampWidth, minWidth, maxWidth, pulled]
  simp only [UInt32.lt_iff_toNat_lt]
  split_ifs with hlow hhigh
  all_goals
    simp only [UInt32.reduceToNat] at *
    omega

theorem toNat_clampLevel (level : UInt8) :
    ((clampLevel level).toNat : Int) = pulled 1 6 level.toNat := by
  rw [clampLevel, pulled]
  simp only [UInt8.lt_iff_toNat_lt]
  split_ifs with hlow hhigh
  all_goals
    simp only [UInt8.reduceToNat] at *
    omega

/-! ## The numbers of each kind -/

/-- The records of a kind are those of a shape, as one case of the records of all kinds. -/
structure Kind.RecordsOf {ρ : Type} (kind : Kind) (shape : Shape ρ) (inject : ρ → Properties) :
    Prop where
  within : ∃ project : Properties → Option ρ,
    kind.shape = shape.within inject project ∧ ∀ r, project (inject r) = some r
  cases : ∀ record : Properties, record.kind = kind → ∃ r, inject r = record

namespace Kind

/-- The type of the records of a kind. -/
def Record : Kind → Type
  | .root => Page
  | .text => Paragraph
  | .heading => Heading
  | .button => Button
  | .image => Image
  | .divider => Divider
  | .spacer => Spacer
  | .columns => Columns
  | .column => Column

/-- The shape of the records of a kind. -/
def recordShape : (kind : Kind) → Shape kind.Record
  | .root => Page.shape
  | .text => Paragraph.shape
  | .heading => Heading.shape
  | .button => Button.shape
  | .image => Image.shape
  | .divider => Divider.shape
  | .spacer => Spacer.shape
  | .columns => Columns.shape
  | .column => Column.shape

/-- A record of a kind as the properties of a component. -/
def inject : (kind : Kind) → kind.Record → Properties
  | .root => .root
  | .text => .text
  | .heading => .heading
  | .button => .button
  | .image => .image
  | .divider => .divider
  | .spacer => .spacer
  | .columns => .columns
  | .column => .column

/-- The records of a kind are those of its shape. -/
theorem recordsOf (kind : Kind) : kind.RecordsOf kind.recordShape kind.inject := by
  refine ⟨?_, fun record hrecord => ?_⟩
  · cases kind <;> exact ⟨_, rfl, fun _ => rfl⟩
  · subst hrecord
    cases record <;> exact ⟨_, rfl⟩

end Kind

namespace WholeNumber

/-- The number is kept in a field of its kind that can be read from every whole number, and then
holds the nearest legal one once the record is in range. -/
def Recorded (number : WholeNumber) : Prop :=
  ∃ field ∈ number.kind.shape.fields, field.name = number.key ∧
    (field.write number.kind.defaults).isObject = false ∧
    ∀ i : Integer, ∃ form,
      (Properties.attempts (.number (.integer i))).find?
        (fun form => (field.read form number.kind.defaults).isOk) = some form ∧
      ∀ record : Properties, record.kind = number.kind → field.Holds form record →
        number.value? record.clamp = some (number.legal i.value)

section Recorded

variable {ρ α : Type} {number : WholeNumber} {shape : Shape ρ} {inject : ρ → Properties}

/-- A number is recorded in a field if the codec of the field reads it from whole numbers. -/
theorem recorded_of_field {codec : Codec α} (get : ρ → α) (read : Int → α) {set : α → ρ → ρ}
    (hrecords : number.kind.RecordsOf shape inject)
    (hmem : Field.of number.key codec get set ∈ shape.fields)
    (hget : ∀ a r, get (set a r) = a) (hset : ∀ r, set (get r) r = r) (hflat : codec.Flat)
    (hread : ∀ i : Integer, firstRead codec (.number (.integer i)) = some (read i.value))
    (hvalue : ∀ r z, get r = read z → number.value? (inject r).clamp = some (number.legal z)) :
    number.Recorded := by
  obtain ⟨⟨project, hshape, hproject⟩, hcases⟩ := hrecords
  have hdefaults : number.kind.defaults = inject shape.initial := congrArg Shape.initial hshape
  refine ⟨(Field.of number.key codec get set).within inject project, ?_, rfl, ?_, fun i => ?_⟩
  · rw [hshape]
    exact List.mem_map_of_mem hmem
  · rw [hdefaults, write_within hproject]
    exact hflat _
  · have hsome := hread i
    rw [firstRead, findSome?_toOption] at hsome
    obtain ⟨form, hform, hdecoded⟩ := Option.bind_eq_some_iff.1 hsome
    refine ⟨form, ?_, fun record hkind hheld => ?_⟩
    · -- A form can be read for the field just if the codec can read it.
      rw [← hform, hdefaults]
      congr 1
      funext form
      rw [Field.read_within hproject, isOk_map]
      exact isOk_map _ _
    · obtain ⟨r, rfl⟩ := hcases record hkind
      rw [Field.holds_within hproject, Field.holds_of_iff hget hset,
        toOption_eq_some_iff.1 hdecoded, Except.ok.injEq] at hheld
      exact hvalue r i.value hheld.symm

/-- A word that has no range of its own comes out as the nearest word. -/
theorem legal_of_word (hlow : number.low = 0) (hhigh : number.high = 4294967295) (z : Int) :
    number.legal z = (saturate maxWord z).toNat := by
  rw [legal, hlow, hhigh, toNat_saturate, toNat_maxWord]
  simp only [pulled]
  omega

theorem recorded_of_word (get : ρ → UInt32) {set : UInt32 → ρ → ρ}
    (hrecords : number.kind.RecordsOf shape inject)
    (hmem : Field.of number.key uint32 get set ∈ shape.fields)
    (hget : ∀ a r, get (set a r) = a) (hset : ∀ r, set (get r) r = r)
    (hlow : number.low = 0) (hhigh : number.high = 4294967295)
    (hvalue : ∀ r, number.value? (inject r).clamp = some ((get r).toNat : Int)) :
    number.Recorded := by
  refine recorded_of_field get (saturate maxWord) hrecords hmem hget hset flat_uint32
    firstRead_uint32 fun r z hr => ?_
  rw [hvalue, hr, legal_of_word hlow hhigh]

end Recorded

theorem recorded_of_mem : ∀ number ∈ all, number.Recorded := by
  simp only [all, List.forall_mem_cons]
  refine ⟨?_, ?_, ?_, ?_, ?_, ?_, ?_, ?_, ?_, ?_, ?_, List.forall_mem_nil _⟩
  · -- The content width has a range of its own.
    refine recorded_of_field Page.maxWidth (saturate maxWord) (Kind.recordsOf .root) (.head _)
      (fun _ _ => rfl) (fun _ => rfl) flat_uint32 firstRead_uint32
      fun r z hr => congrArg some ?_
    show ((clampWidth r.maxWidth).toNat : Int) = _
    rw [toNat_clampWidth, hr, toNat_saturate, toNat_maxWord]
    rfl
  · refine recorded_of_word Paragraph.fontSize (Kind.recordsOf .text) (.tail _ (.head _))
      (fun _ _ => rfl) (fun _ => rfl) rfl rfl fun r => ?_
    exact congrArg _ (Properties.clamp_text r)
  · -- The heading level is a byte, with a range of its own.
    refine recorded_of_field Heading.level nearestByte (Kind.recordsOf .heading)
      (.tail _ (.head _)) (fun _ _ => rfl) (fun _ => rfl) flat_uint8 firstRead_uint8
      fun r z hr => congrArg some ?_
    show ((clampLevel r.level).toNat : Int) = pulled 1 6 (pulled 0 4294967295 z)
    rw [toNat_clampLevel, hr, toNat_nearestByte]
    simp only [pulled]
    omega
  · exact recorded_of_word Heading.fontSize (Kind.recordsOf .heading) (.tail _ (.tail _ (.head _)))
      (fun _ _ => rfl) (fun _ => rfl) rfl rfl fun _ => rfl
  · exact recorded_of_word Button.borderRadius (Kind.recordsOf .button)
      (.tail _ (.tail _ (.tail _ (.tail _ (.head _))))) (fun _ _ => rfl) (fun _ => rfl) rfl rfl
      fun _ => rfl
  · exact recorded_of_word Button.fontSize (Kind.recordsOf .button)
      (.tail _ (.tail _ (.tail _ (.tail _ (.tail _ (.head _)))))) (fun _ _ => rfl) (fun _ => rfl)
      rfl rfl fun _ => rfl
  · -- The width of an image may be absent.
    refine recorded_of_field Image.width (fun z => some (saturate maxWord z))
      (Kind.recordsOf .image) (.tail _ (.tail _ (.head _))) (fun _ _ => rfl) (fun _ => rfl)
      (flat_nullable flat_uint32) firstRead_nullable fun r z hr => ?_
    show r.width.map (fun w => (w.toNat : Int)) = _
    rw [hr, Option.map_some, legal_of_word rfl rfl]
  · exact recorded_of_word Divider.thickness (Kind.recordsOf .divider) (.tail _ (.head _))
      (fun _ _ => rfl) (fun _ => rfl) rfl rfl fun _ => rfl
  · exact recorded_of_word Divider.widthPercent (Kind.recordsOf .divider)
      (.tail _ (.tail _ (.tail _ (.head _)))) (fun _ _ => rfl) (fun _ => rfl) rfl rfl fun _ => rfl
  · exact recorded_of_word Spacer.height (Kind.recordsOf .spacer) (.head _) (fun _ _ => rfl)
      (fun _ => rfl) rfl rfl fun _ => rfl
  · exact recorded_of_word Columns.gap (Kind.recordsOf .columns) (.tail _ (.head _))
      (fun _ _ => rfl) (fun _ => rfl) rfl rfl fun _ => rfl

end WholeNumber

namespace Properties

/-- A stored whole number is read as the legal number nearest to it, whatever else is stored. -/
theorem ofStored_wholeNumber (number : WholeNumber) (hnumber : number ∈ WholeNumber.all)
    (members : List (String × Json)) (hkeys : (members.map Prod.fst).Nodup) (i : Integer)
    (hentry : lookup number.key members = some (.number (.integer i))) :
    number.value? (ofStored number.kind (.object members)).clamp =
      some (number.legal i.value) := by
  obtain ⟨field, hmem, hname, hflat, hforms⟩ := WholeNumber.recorded_of_mem number hnumber
  obtain ⟨form, hform, hvalue⟩ := hforms i
  rw [← hname] at hentry
  exact hvalue _ (kind_ofStored _ _) (holds_ofStored hmem hflat hkeys hentry hform)

/-- A heading with a level beyond all words, and a padding that does not fit. -/
def deepHeading : List (String × Json) :=
  [("padding", .string "wide"), ("level", .number (.integer ⟨10000000000000000000, by decide⟩))]

theorem ofStored_wholeNumber_deepHeading :
    ∃ level ∈ WholeNumber.all, level.kind = .heading ∧ level.key = "level" ∧
      (deepHeading.map Prod.fst).Nodup ∧
      lookup "level" deepHeading =
        some (.number (.integer ⟨10000000000000000000, by decide⟩)) ∧
      level.value? (ofStored .heading (.object deepHeading)).clamp = some 6 := by
  have hlevel : WholeNumber.all[2] ∈ WholeNumber.all := List.getElem_mem _
  have hkeys : (deepHeading.map Prod.fst).Nodup := by decide
  have hentry : lookup "level" deepHeading =
      some (.number (.integer ⟨10000000000000000000, by decide⟩)) := rfl
  exact ⟨_, hlevel, rfl, rfl, hkeys, hentry,
    ofStored_wholeNumber _ hlevel deepHeading hkeys _ hentry⟩

end Properties

end MailTemplate
