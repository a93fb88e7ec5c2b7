import MailTemplate.Proofs.Fallible
import MailTemplate.Proofs.Json.Merge
import MailTemplate.Proofs.Json.Shape

/-!
# What Each Field Reads As

A record is no more than what its fields hold. If the fields do not get in each other's way, an
object reads as a record just if each member can be read for its field alone, and two objects read
as the same record just if each field is read alike from both.

* `Field.Regular` and `Shape.Regular` are the laws of a field and of the fields of a record.
* `Shape.entry` is the value from which a field is read.
* `Shape.isOk_decode_iff` and `Shape.decode_eq_iff` are the two equivalences.
-/

namespace MailTemplate.Json.Shape

variable {ρ τ α β : Type}

/-! ## The laws of fields -/

/-- A field holds what a value stands for, so that reading it from the value changes nothing. -/
def Field.Holds (field : Field ρ) (value : Json) (record : ρ) : Prop :=
  field.read value record = .ok record

/-- A field can be set to what a value stands for, whatever the record is. -/
structure Field.Regular (field : Field ρ) : Prop where
  /-- It does not depend on the record whether a value fits. -/
  total : ∀ value r s, (field.read value r).isOk = (field.read value s).isOk
  settles : ∀ {value r r'}, field.read value r = .ok r' → field.Holds value r'
  /-- Two values that stand for the same are read alike. -/
  agrees : ∀ {value value' r}, field.Holds value r → field.Holds value' r →
    field.read value = field.read value'

/-- A field is left as it is when another one is read. -/
def Field.Apart (field other : Field ρ) : Prop :=
  ∀ {value' : Json} {r r' : ρ}, other.read value' r = .ok r' →
    ∀ value, field.Holds value r' ↔ field.Holds value r

/-- A record is made up of its fields. -/
structure Regular (shape : Shape ρ) : Prop where
  nodup : (shape.fields.map Field.name).Nodup
  regular : ∀ field ∈ shape.fields, field.Regular
  apart : ∀ field ∈ shape.fields, ∀ other ∈ shape.fields, field.name ≠ other.name →
    field.Apart other
  /-- The record without members is read as it is written. -/
  initial : ∀ field ∈ shape.fields, field.Holds (field.write shape.initial) shape.initial
  /-- Two records are the same if all their fields hold the same. -/
  ext : ∀ r s, (∀ field ∈ shape.fields, ∃ value, field.Holds value r ∧ field.Holds value s) → r = s

/-- A value can be read for a key, if there is a field of that name. -/
def Takes (shape : Shape ρ) (key : String) (value : Json) : Prop :=
  ∀ field, shape.field? key = some field → (field.read value shape.initial).isOk = true

/-- The value that stands for a field among members, that of the initial record if none does. -/
def entry (shape : Shape ρ) (members : List (String × Json)) (field : Field ρ) : Json :=
  (lookup field.name members).getD (field.write shape.initial)

/-- The members that a record is written as. -/
def written (shape : Shape ρ) (record : ρ) : List (String × Json) :=
  shape.fields.map fun field => (field.name, field.write record)

section Member

variable {name name' : String} {codec : Codec α} {get : ρ → α} {set : α → ρ → ρ}
  {codec' : Codec β} {get' : ρ → β} {set' : β → ρ → ρ}

theorem Field.holds_of_iff (hget : ∀ a r, get (set a r) = a) (hset : ∀ r, set (get r) r = r)
    {value : Json} {r : ρ} :
    (Field.of name codec get set).Holds value r ↔ codec.decode value = .ok (get r) := by
  unfold Field.Holds Field.of
  rw [map_eq_ok_iff]
  constructor
  · rintro ⟨a, hread, hsame⟩
    rw [hread, ← hget a r, hsame]
  · exact fun hread => ⟨get r, hread, hset r⟩

theorem Field.regular_of (hget : ∀ a r, get (set a r) = a) (hset : ∀ r, set (get r) r = r) :
    (Field.of name codec get set).Regular where
  total value r s := by
    dsimp only [Field.of]
    cases codec.decode value <;> rfl
  settles {value r r'} hread := by
    rw [Field.holds_of_iff hget hset]
    obtain ⟨a, ha, rfl⟩ := map_eq_ok_iff.1 hread
    rw [ha, hget]
  agrees hheld hheld' := by
    rw [Field.holds_of_iff hget hset] at hheld hheld'
    funext r
    dsimp only [Field.of]
    rw [hheld, hheld']

theorem Field.apart_of (hget : ∀ a r, get (set a r) = a) (hset : ∀ r, set (get r) r = r)
    (hother : ∀ b r, get (set' b r) = get r) :
    (Field.of name codec get set).Apart (Field.of name' codec' get' set') := by
  intro value' r r' hread value
  obtain ⟨b, -, rfl⟩ := map_eq_ok_iff.1 hread
  rw [Field.holds_of_iff hget hset, Field.holds_of_iff hget hset, hother]

theorem Field.exists_holds_iff (hget : ∀ a r, get (set a r) = a) (hset : ∀ r, set (get r) r = r)
    {r s : ρ} :
    (∃ value, (Field.of name codec get set).Holds value r ∧
      (Field.of name codec get set).Holds value s) ↔
      (∃ value, codec.decode value = .ok (get r)) ∧ get r = get s := by
  simp only [Field.holds_of_iff hget hset]
  constructor
  · rintro ⟨value, hread, hread'⟩
    exact ⟨⟨value, hread⟩, Except.ok.inj (hread.symm.trans hread')⟩
  · rintro ⟨⟨value, hread⟩, heq⟩
    exact ⟨value, hread, heq ▸ hread⟩

theorem Field.holds_write (hset : ∀ r, set (get r) r = r) {r : ρ} (h : codec.Restores (get r)) :
    (Field.of name codec get set).Holds ((Field.of name codec get set).write r) r := by
  rw [Field.Holds, Field.read_write_of_restores get h, hset]

theorem Field.write_of (r : ρ) : (Field.of name codec get set).write r = codec.encode (get r) := rfl

theorem Field.holds_encode_iff (hget : ∀ a r, get (set a r) = a) (hset : ∀ r, set (get r) r = r)
    (h : codec.Lawful) {a : α} {r : ρ} :
    (Field.of name codec get set).Holds (codec.encode a) r ↔ a = get r := by
  have hread : codec.decode (codec.encode a) = .ok a := h a
  rw [Field.holds_of_iff hget hset, hread, Except.ok.injEq]

/-- Two values are read alike just if they stand for the same. -/
theorem Field.read_of_eq_iff (hget : ∀ a r, get (set a r) = a) (r : ρ) {value value' : Json} :
    (Field.of name codec get set).read value = (Field.of name codec get set).read value' ↔
      codec.decode value = codec.decode value' := by
  constructor
  · intro heq
    refine map_injective (fun a b hab => ?_) (congrFun heq r)
    rw [← hget a r, hab, hget]
  · intro heq
    funext s
    dsimp only [Field.of]
    rw [heq]

end Member

/-! ## Reading members -/

variable {shape : Shape ρ} {field : Field ρ} {key : String} {value : Json} {record r r' : ρ}
  {members members' : List (String × Json)}

theorem mem_of_field?_eq_some (h : shape.field? key = some field) :
    field ∈ shape.fields ∧ field.name = key :=
  ⟨List.mem_of_find?_eq_some h, by simpa using List.find?_some h⟩

theorem readMembers_cons_of_none (h : shape.field? key = none) :
    shape.readMembers r ((key, value) :: members) = shape.readMembers r members := by
  rw [readMembers, h]

theorem readMembers_cons_of_some (h : shape.field? key = some field) :
    shape.readMembers r ((key, value) :: members) =
      field.read value r >>= (shape.readMembers · members) := by
  rw [readMembers, h]

theorem lookup_written (hnodup : (shape.fields.map Field.name).Nodup)
    (hmem : field ∈ shape.fields) :
    lookup field.name (shape.written record) = some (field.write record) := by
  refine (lookup_eq_some_iff ?_).2 (List.mem_map_of_mem hmem)
  rw [written, List.map_map]
  exact hnodup

theorem nodup_written (hnodup : (shape.fields.map Field.name).Nodup) (record : ρ) :
    ((shape.written record).map Prod.fst).Nodup := by
  rw [written, List.map_map]
  exact hnodup

namespace Regular

variable (h : shape.Regular)
include h

theorem isOk_readMembers_iff (record : ρ) (members : List (String × Json)) :
    (shape.readMembers record members).isOk = true ↔
      ∀ member ∈ members, shape.Takes member.1 member.2 := by
  induction members generalizing record with
  | nil => exact iff_of_true rfl fun _ hmem => absurd hmem List.not_mem_nil
  | cons member members ih =>
    obtain ⟨key, value⟩ := member
    rw [List.forall_mem_cons]
    cases hfield : shape.field? key with
    | none =>
      have htakes : shape.Takes key value := by
        intro field hfound
        rw [hfield] at hfound
        cases hfound
      rw [readMembers_cons_of_none hfield, ih]
      exact (and_iff_right htakes).symm
    | some field =>
      obtain ⟨hmem, -⟩ := mem_of_field?_eq_some hfield
      -- Whether a member fits does not depend on what was read before it.
      have htakes : shape.Takes key value ↔ (field.read value record).isOk = true := by
        rw [(h.regular field hmem).total value record shape.initial, Takes, hfield]
        exact ⟨fun hall => hall field rfl, fun hok _ heq => Option.some.inj heq ▸ hok⟩
      rw [readMembers_cons_of_some hfield, htakes]
      cases field.read value record with
      | error mismatch => exact iff_of_false Bool.false_ne_true fun hall => nomatch hall.1
      | ok read => exact (ih read).trans (and_iff_right (a := true = true) rfl).symm

/-- A field that has no member is left as it is. -/
theorem holds_readMembers_iff (hmem : field ∈ shape.fields)
    (hnot : field.name ∉ members.map Prod.fst) (hread : shape.readMembers r members = .ok r')
    (value : Json) : field.Holds value r' ↔ field.Holds value r := by
  induction members generalizing r with
  | nil =>
    cases hread
    exact Iff.rfl
  | cons member members ih =>
    obtain ⟨key, value'⟩ := member
    rw [List.map_cons, List.mem_cons, not_or] at hnot
    cases hfield : shape.field? key with
    | none =>
      rw [readMembers_cons_of_none hfield] at hread
      exact ih hnot.2 hread
    | some other =>
      rw [readMembers_cons_of_some hfield] at hread
      obtain ⟨middle, hfirst, hread⟩ := bind_eq_ok_iff.1 hread
      obtain ⟨hother, hname⟩ := mem_of_field?_eq_some hfield
      -- The first member is for another field, and so are the rest.
      have hapart : field.Apart other := h.apart field hmem other hother (hname ▸ hnot.1)
      exact (ih hnot.2 hread).trans (hapart hfirst value)

/-- A field that has a member holds what it stands for. -/
theorem holds_of_readMembers (hmem : field ∈ shape.fields) (hkeys : (members.map Prod.fst).Nodup)
    (hread : shape.readMembers r members = .ok r') (hfound : (field.name, value) ∈ members) :
    field.Holds value r' := by
  induction members generalizing r with
  | nil => cases hfound
  | cons member members ih =>
    obtain ⟨key, value'⟩ := member
    rw [List.map_cons, List.nodup_cons] at hkeys
    rcases List.mem_cons.1 hfound with heq | hfound
    · -- What is read after this member has other names.
      cases heq
      rw [readMembers_cons_of_some (field?_of_mem h.nodup hmem)] at hread
      obtain ⟨middle, hfirst, hread⟩ := bind_eq_ok_iff.1 hread
      exact (h.holds_readMembers_iff hmem hkeys.1 hread value).2
        ((h.regular field hmem).settles hfirst)
    · cases hfield : shape.field? key with
      | none =>
        rw [readMembers_cons_of_none hfield] at hread
        exact ih hkeys.2 hread hfound
      | some other =>
        rw [readMembers_cons_of_some hfield] at hread
        obtain ⟨middle, -, hread⟩ := bind_eq_ok_iff.1 hread
        exact ih hkeys.2 hread hfound

/-- Each field of the record that is read holds what its entry stands for. -/
theorem holds_entry (hmem : field ∈ shape.fields) (hkeys : (members.map Prod.fst).Nodup)
    (hread : shape.decode (.object members) = .ok record) :
    field.Holds (shape.entry members field) record := by
  rw [decode] at hread
  unfold entry
  cases hfound : lookup field.name members with
  | none =>
    rw [lookup_eq_none_iff] at hfound
    exact (h.holds_readMembers_iff hmem hfound hread _).2 (h.initial field hmem)
  | some value => exact h.holds_of_readMembers hmem hkeys hread (mem_of_lookup_eq_some hfound)

/-- An object can be read just if each member can be read for its field. -/
theorem isOk_decode_iff :
    (shape.decode (.object members)).isOk = true ↔
      ∀ member ∈ members, shape.Takes member.1 member.2 :=
  h.isOk_readMembers_iff shape.initial members

/-- Two objects read as the same record just if each field is read alike from both. -/
theorem decode_eq_iff (hkeys : (members.map Prod.fst).Nodup)
    (hkeys' : (members'.map Prod.fst).Nodup)
    (hok : (shape.decode (.object members)).isOk = true)
    (hok' : (shape.decode (.object members')).isOk = true) :
    shape.decode (.object members) = shape.decode (.object members') ↔
      ∀ field ∈ shape.fields,
        field.read (shape.entry members field) = field.read (shape.entry members' field) := by
  obtain ⟨r, hread⟩ := isOk_iff_exists.1 hok
  obtain ⟨r', hread'⟩ := isOk_iff_exists.1 hok'
  constructor
  · intro heq field hmem
    have hsame := heq.symm.trans hread
    exact (h.regular field hmem).agrees (h.holds_entry hmem hkeys hread)
      (h.holds_entry hmem hkeys' hsame)
  · intro hall
    rw [hread, hread']
    -- Each field holds in both records what its entry among the first members stands for.
    refine congrArg Except.ok (h.ext r r' fun field hmem => ?_)
    have hheld' := h.holds_entry hmem hkeys' hread'
    refine ⟨shape.entry members field, h.holds_entry hmem hkeys hread, ?_⟩
    rwa [Field.Holds, hall field hmem]

end Regular

/-! ## One case of a larger type -/

theorem forall_fields_within {p : Field τ → Prop} (inject : ρ → τ) (project : τ → Option ρ) :
    (∀ field ∈ (shape.within inject project).fields, p field) ↔
      ∀ field ∈ shape.fields, p (field.within inject project) :=
  List.forall_mem_map

section Within

variable {inject : ρ → τ} {project : τ → Option ρ} (hproject : ∀ r, project (inject r) = some r)
include hproject

theorem injective_of_project : Function.Injective inject := by
  intro r s heq
  have hsame := congrArg project heq
  rw [hproject, hproject] at hsame
  exact Option.some.inj hsame

theorem takes_within :
    (shape.within inject project).Takes key value ↔ shape.Takes key value := by
  unfold Takes
  rw [field?_within]
  cases shape.field? key with
  | none => simp
  | some field =>
    simp only [Option.map_some, Option.some.injEq, forall_eq']
    change ((field.within inject project).read value (inject shape.initial)).isOk = true ↔ _
    rw [field.read_within hproject, isOk_map]

theorem write_within (field : Field ρ) (record : ρ) :
    (field.within inject project).write (inject record) = field.write record := by
  simp only [Field.within, hproject]

theorem entry_within (members : List (String × Json)) (field : Field ρ) :
    (shape.within inject project).entry members (field.within inject project) =
      shape.entry members field :=
  congrArg (lookup field.name members).getD (write_within hproject field shape.initial)

theorem read_within_eq_iff {value' : Json} :
    (field.within inject project).read value = (field.within inject project).read value' ↔
      field.read value = field.read value' := by
  constructor
  · intro heq
    funext r
    have hsame := congrFun heq (inject r)
    rw [Field.read_within hproject, Field.read_within hproject] at hsame
    exact map_injective (injective_of_project hproject) hsame
  · intro heq
    funext t
    simp only [Field.within, heq]

theorem isOk_decode_within (json : Json) :
    ((shape.within inject project).decode json).isOk = (shape.decode json).isOk := by
  rw [decode_within hproject, isOk_map]

theorem decode_within_eq_iff {json json' : Json} :
    (shape.within inject project).decode json = (shape.within inject project).decode json' ↔
      shape.decode json = shape.decode json' := by
  rw [decode_within hproject, decode_within hproject]
  exact ⟨fun heq => map_injective (injective_of_project hproject) heq, congrArg _⟩

end Within

end MailTemplate.Json.Shape
