import MailTemplate.Proofs.Component.Patching
import MailTemplate.Proofs.Json.Reordering
import MailTemplate.Proofs.Storage.FieldByField

/-!
# Fields Read from Their Own Entries

Stored properties that do not fit as a whole are laid over the defaults member by member. What comes
of it can be read at any time, so the defaults never take the place of the whole record; and each
field of the record is what comes of its own entry alone.

## Main definitions

* `Properties.AlikeIn`: two records of a kind hold the same in a field.
* `Json.nearest`: a value with its numbers replaced by the nearest whole numbers of a range.
* `Properties.ofEntry`: the record of the entry of one key alone, laid over the defaults in the
  first of three forms that fits.

## Main results

* `Properties.alikeIn_of_lookup`: members that have the same entry for a field agree in that field.
* `Properties.ofStored_eachField`: each field is read from its own entry.
-/

namespace MailTemplate

/-! ## Numbers in a range -/

namespace Json

/-- The whole number nearest to a whole number, of those from zero to a word. -/
def Integer.nearest (largest : UInt32) (z : Int) : Integer :=
  ⟨max 0 (min largest.toNat z), by have := largest.toNat_lt; omega⟩

mutual

/-- A value with each number in it, but for those in lists, rounded down and brought to the nearest
of the whole numbers from zero to a word. -/
def nearest (largest : UInt32) : Json → Json
  | .number (.integer i) => .number (.integer (.nearest largest i.value))
  | .number (.float x) => .number (.integer (.nearest largest x.floor))
  | .object members => .object (nearestMembers largest members)
  | .null => .null
  | .bool b => .bool b
  | .string s => .string s
  | .array items => .array items

/-- The same for the value of each member. -/
def nearestMembers (largest : UInt32) : List (String × Json) → List (String × Json)
  | [] => []
  | (key, value) :: rest => (key, value.nearest largest) :: nearestMembers largest rest

end

theorem toNat_saturate (largest : UInt32) (z : Int) :
    ((saturate largest z).toNat : Int) = max 0 (min (largest.toNat : Int) z) := by
  have hlargest := largest.toNat_lt
  unfold saturate
  split_ifs with hneg habove
  · rw [UInt32.toNat_zero]
    omega
  · omega
  · rw [UInt32.toNat_ofNat_of_lt' (by rw [UInt32.size]; omega)]
    omega

theorem ofUInt32_saturate (largest : UInt32) (z : Int) :
    Integer.ofUInt32 (saturate largest z) = .nearest largest z := by
  simp only [Integer.ofUInt32, Integer.nearest, toNat_saturate]

theorem nearestMembers_eq_map (largest : UInt32) (members : List (String × Json)) :
    nearestMembers largest members = members.map fun m => (m.1, m.2.nearest largest) := by
  induction members with
  | nil => rfl
  | cons member members ih => exact congrArg (_ :: ·) ih

theorem saturated_eq_nearest (largest : UInt32) (json : Json) :
    json.saturated largest = json.nearest largest := by
  induction json using Json.induct with
  | number n => cases n <;> rw [saturated, nearest, ofUInt32_saturate]
  | object members ih =>
    rw [saturated_object, nearest, nearestMembers_eq_map]
    exact congrArg Json.object (List.map_congr_left fun m hm => by rw [ih m hm])
  | _ => rfl

end Json

namespace Properties

open Json Json.Shape

variable {kind : Kind} {key : String} {entry : Json} {field : Shape.Field Properties}
  {members members' : List (String × Json)} {a b record : Properties}

/-- Two records of a kind hold the same in a field: what some value stands for. -/
structure AlikeIn (kind : Kind) (field : Shape.Field Properties) (a b : Properties) : Prop where
  left : a.kind = kind
  right : b.kind = kind
  shared : ∃ value, field.Holds value a ∧ field.Holds value b

/-- The record of an entry laid over the defaults: as it is if it fits so, or else with its numbers
brought to the nearest words, or else to the nearest bytes. If it fits in none of these forms, these
are the defaults. -/
def ofEntry (kind : Kind) (key : String) (entry : Json) : Properties :=
  let laid := fun form => decode kind (kind.defaults.encode.merge (.object [(key, form)]))
  match laid entry, laid (entry.nearest 4294967295), laid (entry.nearest 255) with
  | .ok record, _, _ => record
  | .error _, .ok record, _ => record
  | .error _, .error _, .ok record => record
  | .error _, .error _, .error _ => kind.defaults

/-- The record of the entry that members have for a key, and of no other; without one, these are the
defaults. -/
def ofOwnEntry (kind : Kind) (key : String) (members : List (String × Json)) : Properties :=
  (lookup key members).elim kind.defaults (ofEntry kind key)

/-- Members laid over the defaults one after the other. -/
def laidOut (kind : Kind) (members : List (String × Json)) : Json :=
  members.foldl (fun merged (key, entry) => overlay kind merged key entry) kind.defaults.encode

/-! ## Records and their fields -/

/-- Each field of the record that is read holds what its entry stands for. -/
theorem holds_entry (hmem : field ∈ kind.shape.fields) (hkeys : (members.map Prod.fst).Nodup)
    (hread : decode kind (.object members) = .ok record) :
    field.Holds (kind.shape.entry members field) record := by
  obtain ⟨ρ, shape, inject, project, hshape, hproject, hregular, -⟩ := kind.exists_regular
  rw [hshape] at hmem ⊢
  obtain ⟨inner, hinner, rfl⟩ := List.mem_map.1 hmem
  rw [decode, hshape, decode_within hproject] at hread
  obtain ⟨r, hr, rfl⟩ := map_eq_ok_iff.1 hread
  have hheld := hregular.holds_entry hinner hkeys hr
  rw [← entry_within hproject] at hheld
  exact (Field.holds_within hproject inner).2 hheld

/-- Two records are the same if each field holds in both what it holds in some third record. -/
theorem eq_of_alikeIn (ha : a.kind = kind) (hb : b.kind = kind)
    (h : ∀ field ∈ kind.shape.fields, ∃ own, AlikeIn kind field a own ∧ AlikeIn kind field b own) :
    a = b := by
  obtain ⟨ρ, shape, inject, project, hshape, hproject, hregular, -, hcase⟩ := kind.exists_telling
  obtain ⟨r, rfl⟩ := (hcase a).1 ha
  obtain ⟨s, rfl⟩ := (hcase b).1 hb
  rw [hshape, forall_fields_within] at h
  refine congrArg inject (hregular.ext r s fun field hmem => ?_)
  obtain ⟨own, ⟨-, hown, value, hr, hvalue⟩, ⟨-, -, value', hs, hvalue'⟩⟩ := h field hmem
  obtain ⟨o, rfl⟩ := (hcase own).1 hown
  rw [Field.holds_within hproject] at hr hvalue hs hvalue'
  -- Both values stand for what the third record holds, so they are read alike.
  refine ⟨value, hr, ?_⟩
  rwa [Field.Holds, (hregular.regular field hmem).agrees hvalue hvalue']

/-! ## Laying members over the defaults -/

theorem exists_laidOut (kind : Kind) (hkeys : (members.map Prod.fst).Nodup) :
    ∃ merged, laidOut kind members = .object merged ∧ (merged.map Prod.fst).Nodup ∧
      fits kind (.object merged) = true ∧
      ∀ key, lookup key merged =
        (lookup key members).elim (lookup key (defaultMembers kind))
          (choice kind key (lookup key (defaultMembers kind))) := by
  rw [laidOut, encode_defaults]
  exact exists_foldl_overlay (nodup_defaultMembers kind) (fits_defaults kind) hkeys

theorem exists_decode_laidOut (kind : Kind) (hkeys : (members.map Prod.fst).Nodup) :
    ∃ record, decode kind (laidOut kind members) = .ok record := by
  obtain ⟨merged, hmerged, -, hfits, -⟩ := exists_laidOut kind hkeys
  rw [hmerged]
  exact isOk_iff_exists.1 hfits

/-- Members that have the same entry for a field, or none, agree in that field. -/
theorem alikeIn_of_lookup (hmem : field ∈ kind.shape.fields)
    (hkeys : (members.map Prod.fst).Nodup) (hkeys' : (members'.map Prod.fst).Nodup)
    (hsame : lookup field.name members = lookup field.name members')
    (ha : decode kind (laidOut kind members) = .ok a)
    (hb : decode kind (laidOut kind members') = .ok b) : AlikeIn kind field a b := by
  obtain ⟨merged, hmerged, hnodup, -, hlookup⟩ := exists_laidOut kind hkeys
  obtain ⟨merged', hmerged', hnodup', -, hlookup'⟩ := exists_laidOut kind hkeys'
  rw [hmerged] at ha
  rw [hmerged'] at hb
  -- What is left under the key depends on the entry for it only.
  have hentry : kind.shape.entry merged field = kind.shape.entry merged' field := by
    rw [entry, entry, hlookup, hlookup', hsame]
  refine ⟨kind_of_decode ha, kind_of_decode hb, kind.shape.entry merged field, ?_, ?_⟩
  · exact holds_entry hmem hnodup ha
  · rw [hentry]
    exact holds_entry hmem hnodup' hb

theorem decode_laidOut_nil : decode kind (laidOut kind []) = .ok kind.defaults := by
  have hread := decode_encode (inRange_defaults kind).finite
  rwa [kind.kind_defaults] at hread

/-- An entry is tried as it is, then brought to the nearest words, then to the nearest bytes. -/
theorem overlay_eq (kind : Kind) (merged : Json) (key : String) (entry : Json) :
    overlay kind merged key entry =
      if fits kind (merged.merge (.object [(key, entry)])) then
        merged.merge (.object [(key, entry)])
      else if fits kind (merged.merge (.object [(key, entry.nearest 4294967295)])) then
        merged.merge (.object [(key, entry.nearest 4294967295)])
      else if fits kind (merged.merge (.object [(key, entry.nearest 255)])) then
        merged.merge (.object [(key, entry.nearest 255)])
      else merged := by
  -- The forms that the overlay goes through are those that are spelled here.
  have hforms : attempts entry = [entry, entry.nearest 4294967295, entry.nearest 255] := by
    rw [attempts, saturated_eq_nearest, saturated_eq_nearest]
    rfl
  rw [overlay, hforms]
  simp only [List.map_cons, List.map_nil, List.find?_cons, List.find?_nil]
  grind

theorem decode_laidOut_single (key : String) (entry : Json) :
    decode kind (laidOut kind [(key, entry)]) = .ok (ofEntry kind key entry) := by
  have hlaid : laidOut kind [(key, entry)] = overlay kind kind.defaults.encode key entry := rfl
  have hdefaults : decode kind kind.defaults.encode = .ok kind.defaults := decode_laidOut_nil
  -- The form that fits first is the one whose record is taken.
  rw [hlaid, overlay_eq, ofEntry]
  dsimp only
  split_ifs with hentry hword hbyte
  · obtain ⟨record, hrecord⟩ := isOk_iff_exists.1 hentry
    rw [hrecord]
  · obtain ⟨_, hfirst⟩ := not_isOk_iff_exists.1 hentry
    obtain ⟨record, hrecord⟩ := isOk_iff_exists.1 hword
    rw [hfirst, hrecord]
  · obtain ⟨_, hfirst⟩ := not_isOk_iff_exists.1 hentry
    obtain ⟨_, hsecond⟩ := not_isOk_iff_exists.1 hword
    obtain ⟨record, hrecord⟩ := isOk_iff_exists.1 hbyte
    rw [hfirst, hsecond, hrecord]
  · obtain ⟨_, hfirst⟩ := not_isOk_iff_exists.1 hentry
    obtain ⟨_, hsecond⟩ := not_isOk_iff_exists.1 hword
    obtain ⟨_, hthird⟩ := not_isOk_iff_exists.1 hbyte
    rw [hfirst, hsecond, hthird, hdefaults]

/-- The record of the entry for one key is what comes of laying that entry over the defaults. -/
theorem exists_decode_ofOwnEntry (kind : Kind) (key : String) (members : List (String × Json)) :
    ∃ own, (own.map Prod.fst).Nodup ∧ lookup key own = lookup key members ∧
      decode kind (laidOut kind own) = .ok (ofOwnEntry kind key members) := by
  rw [ofOwnEntry]
  cases hfound : lookup key members with
  | none => exact ⟨[], List.nodup_nil, rfl, decode_laidOut_nil⟩
  | some entry =>
    refine ⟨[(key, entry)], List.nodup_singleton key, ?_, decode_laidOut_single key entry⟩
    rw [lookup_cons, if_pos rfl]

/-- Each field is read from its own entry. -/
theorem alikeIn_ofOwnEntry (hmem : field ∈ kind.shape.fields) (hkeys : (members.map Prod.fst).Nodup)
    (hread : decode kind (laidOut kind members) = .ok record) :
    AlikeIn kind field record (ofOwnEntry kind field.name members) := by
  obtain ⟨own, hown, hsame, hrecord⟩ := exists_decode_ofOwnEntry kind field.name members
  exact alikeIn_of_lookup hmem hkeys hown hsame.symm hread hrecord

/-! ## Properties that do not fit as a whole -/

/-- What does not fit as a whole is what comes of laying its members over the defaults, and that can
be read. -/
theorem decode_laidOut (hkeys : (members.map Prod.fst).Nodup)
    (hnot : fits kind (.object members) = false) :
    decode kind (laidOut kind members) = .ok (ofStored kind (.object members)) := by
  obtain ⟨record, hread⟩ := exists_decode_laidOut kind hkeys
  rw [ofStored]
  split
  case h_1 properties hdirect =>
    rw [fits, hdirect] at hnot
    cases hnot
  case h_2 =>
    show _ = Except.ok ((decode kind (laidOut kind members)).toOption.getD kind.defaults)
    rw [hread]
    rfl

/-- Each field of a record is that of its own entry among some members, and it is so all the way
while the members are laid over the defaults. -/
structure ReadsByField (kind : Kind) (members : List (String × Json)) (record : Properties) :
    Prop where
  /-- After each of the members a record can be read, made of the entries so far. -/
  along : ∀ before, before <+: members →
    ∃ a, decode kind (laidOut kind before) = .ok a ∧
      ∀ field ∈ kind.shape.fields, AlikeIn kind field a (ofOwnEntry kind field.name before)
  /-- A member leaves the fields of other names as they are, whether it fits or not. -/
  kept : ∀ before key entry, before ++ [(key, entry)] <+: members →
    ∃ a b, decode kind (laidOut kind before) = .ok a ∧
      decode kind (laidOut kind (before ++ [(key, entry)])) = .ok b ∧
      ∀ field ∈ kind.shape.fields, field.name ≠ key → AlikeIn kind field a b
  /-- The record is what can be read in the end. -/
  final : decode kind (laidOut kind members) = .ok record
  fields : ∀ field ∈ kind.shape.fields,
    AlikeIn kind field record (ofOwnEntry kind field.name members)
  /-- No other record of the kind has these fields. -/
  unique : ∀ other : Properties, other.kind = kind →
    (∀ field ∈ kind.shape.fields, AlikeIn kind field other (ofOwnEntry kind field.name members)) →
    other = record

/-- If stored properties do not fit as a whole, each of their fields is read from its own entry, in
the first form of it that fits, or is the default. The defaults never replace the whole record. -/
theorem ofStored_eachField (kind : Kind) (members : List (String × Json))
    (hkeys : (members.map Prod.fst).Nodup) (hnot : fits kind (.object members) = false) :
    ReadsByField kind members (ofStored kind (.object members)) where
  along before hearly := by
    have hbefore := hkeys.sublist (hearly.sublist.map Prod.fst)
    obtain ⟨a, ha⟩ := exists_decode_laidOut kind hbefore
    exact ⟨a, ha, fun field hmem => alikeIn_ofOwnEntry hmem hbefore ha⟩
  kept before key entry hearly := by
    have hnext := hkeys.sublist (hearly.sublist.map Prod.fst)
    have hbefore := hnext.sublist ((List.sublist_append_left before _).map Prod.fst)
    obtain ⟨a, ha⟩ := exists_decode_laidOut kind hbefore
    obtain ⟨b, hb⟩ := exists_decode_laidOut kind hnext
    refine ⟨a, b, ha, hb, fun field hmem hname => alikeIn_of_lookup hmem hbefore hnext ?_ ha hb⟩
    -- The new member has another key, so the entry for the field is the same.
    rw [lookup_append, lookup_cons, if_neg hname]
    exact (Option.or_none).symm
  final := decode_laidOut hkeys hnot
  fields field hmem := alikeIn_ofOwnEntry hmem hkeys (decode_laidOut hkeys hnot)
  unique other hkind hfields := by
    refine eq_of_alikeIn hkind (kind_ofStored kind _) fun field hmem => ?_
    exact ⟨_, hfields field hmem, alikeIn_ofOwnEntry hmem hkeys (decode_laidOut hkeys hnot)⟩

/-- A text with a font size that does not fit, a padding for one side, and a member of no field. -/
def hugeFont : List (String × Json) :=
  [("padding", .object [("top", .ofNat 5)]), ("fontSize", .string "huge"), ("note", .null),
    ("color", .string "#ff0000")]

theorem ofStored_eachField_hugeFont :
    (hugeFont.map Prod.fst).Nodup ∧ fits .text (.object hugeFont) = false ∧
      ReadsByField .text hugeFont (ofStored .text (.object hugeFont)) := by
  have hkeys : (hugeFont.map Prod.fst).Nodup := by decide
  have hnot : fits .text (.object hugeFont) = false := by decide +kernel
  exact ⟨hkeys, hnot, ofStored_eachField .text hugeFont hkeys hnot⟩

example : ofStored .text (.object hugeFont) =
    .text { padding := ⟨5, 20, 10, 20⟩, color := "#ff0000" } := by
  decide +kernel

end Properties

end MailTemplate
