import MailTemplate.Component.Style
import MailTemplate.Proofs.Fallible
import MailTemplate.Proofs.Json.Fields
import MailTemplate.Proofs.Json.Reordering
import MailTemplate.Storage.Record

/-!
# Reading in Any Order

A record reads the same from members in any order: its members are read one by one, two fields may
be read in either order, and a key is not repeated. Which member an error is about does depend on
the order, so reading is compared by its outcome.

* `Codec.Respects` says that values which differ only in order are read as related values.
* `Shape.Field.Commutes` says that two fields may be read in either order.
* `Shape.respects` concludes it for a record from its fields.
-/

namespace MailTemplate.Json

variable {α β ρ : Type}

/-- Values that differ only in order are read as related values, or neither of them is read. -/
def Codec.Respects (codec : Codec α) (R : α → α → Prop) : Prop :=
  ∀ ⦃a b : Json⦄, Reordered a b → a.Distinct → Related R (codec.decode a) (codec.decode b)

namespace Codec

/-- A codec that reads no list and no object does not see an order. -/
theorem respects_of_scalar {codec : Codec α}
    (harray : ∀ items items',
      Related Eq (codec.decode (.array items)) (codec.decode (.array items')))
    (hobject : ∀ members members',
      Related Eq (codec.decode (.object members)) (codec.decode (.object members'))) :
    codec.Respects Eq := by
  intro a b h ha
  cases h.form ha with
  | same => exact .refl _
  | array => exact harray _ _
  | object => exact hobject _ _

@[simp]
theorem respects_string : string.Respects Eq :=
  respects_of_scalar (fun _ _ => .error _ _) fun _ _ => .error _ _

@[simp]
theorem respects_bool : bool.Respects Eq :=
  respects_of_scalar (fun _ _ => .error _ _) fun _ _ => .error _ _

@[simp]
theorem respects_uint8 : uint8.Respects Eq :=
  respects_of_scalar (fun _ _ => .error _ _) fun _ _ => .error _ _

@[simp]
theorem respects_uint32 : uint32.Respects Eq :=
  respects_of_scalar (fun _ _ => .error _ _) fun _ _ => .error _ _

@[simp]
theorem respects_single : single.Respects Eq :=
  respects_of_scalar (fun _ _ => .error _ _) fun _ _ => .error _ _

@[simp]
theorem respects_nullable {codec : Codec α} (h : codec.Respects Eq) :
    (nullable codec).Respects Eq := by
  intro a b hab ha
  cases hab.form ha with
  | same => exact .refl _
  | array => exact (h hab ha).map fun _ _ => congrArg some
  | object => exact (h hab ha).map fun _ _ => congrArg some

theorem respects_present {codec : Codec α} (h : codec.Respects Eq) : codec.present.Respects Eq :=
  fun _ _ hab ha => (h hab ha).map fun _ _ => congrArg some

theorem respects_list {codec : Codec α} (h : codec.Respects Eq) : codec.list.Respects Eq := by
  intro a b hab ha
  cases hab.form ha with
  | same => exact .refl _
  | object => exact .error _ _
  | @array items items' hitems =>
    cases ha with
    | array hdistinct =>
      change Related Eq (items.mapM codec.decode) (items'.mapM codec.decode)
      -- Items keep their places, so the order matters within each item alone.
      clear hab
      induction hitems with
      | nil => exact .refl _
      | cons hitem _ ih =>
        rw [List.forall_mem_cons] at hdistinct
        rw [List.mapM_cons, List.mapM_cons]
        refine (h hitem hdistinct.1).bind fun _ _ heq => ?_
        exact heq ▸ (ih hdistinct.2).bind fun _ _ heq => heq ▸ .refl _

@[simp]
theorem respects_choice {all : List α} {name : α → String} : (choice all name).Respects Eq := by
  intro a b hab ha
  cases hab.form ha with
  | same => exact .refl _
  | array => exact .error _ _
  | @object members members' hkeys hfound =>
    have hlength := hkeys.length_eq
    rw [List.length_map, List.length_map] at hlength
    match members, members', hlength with
    | [], [], _ => exact .refl _
    | [(key, value)], [(key', value')], _ =>
      -- The one name is the same, and stands for a null on both sides or on neither.
      obtain rfl : key = key' := by simpa using hkeys
      have hvalue := hfound key
      rw [lookup_cons, lookup_cons, if_pos rfl, if_pos rfl] at hvalue
      cases hvalue with
      | some hvalue =>
        refine (Related.refl _).bind ?_
        rintro a _ rfl
        have hnull : isNull value = isNull value' := by
          cases hvalue.form (ha.of_mem List.mem_cons_self) <;> rfl
        rw [hnull]
        cases isNull value'
        · exact .error _ _
        · exact .refl _
    | _ :: _ :: _, _ :: _ :: _, _ => exact .error _ _

end Codec

namespace Shape

variable {R : ρ → ρ → Prop} {shape : Shape ρ}

/-- Values that differ only in order are read into related records as related records. -/
def Field.Respects (field : Field ρ) (R : ρ → ρ → Prop) : Prop :=
  ∀ ⦃a b : Json⦄ ⦃r s : ρ⦄, Reordered a b → a.Distinct → R r s →
    Related R (field.read a r) (field.read b s)

/-- Two fields may be read in either order. -/
def Field.Commutes (field other : Field ρ) : Prop :=
  ∀ (a b : Json) (r : ρ),
    Related Eq (field.read a r >>= other.read b) (other.read b r >>= field.read a)

section Member

variable {name name' : String} {codec : Codec α} {get : ρ → α} {set : α → ρ → ρ}
  {codec' : Codec β} {get' : ρ → β} {set' : β → ρ → ρ}

theorem Field.respects_of {S : α → α → Prop} (h : codec.Respects S)
    (hset : ∀ a b r s, S a b → R r s → R (set a r) (set b s)) :
    (Field.of name codec get set).Respects R :=
  fun _ _ _ _ hab ha hrs => (h hab ha).map fun _ _ hS => hset _ _ _ _ hS hrs

@[simp]
theorem Field.respects_eq_of (h : codec.Respects Eq) : (Field.of name codec get set).Respects Eq :=
  Field.respects_of h fun _ _ _ _ ha hr => ha ▸ hr ▸ rfl

@[simp]
theorem Field.commutes_of (hset : ∀ a b r, set a (set' b r) = set' b (set a r)) :
    (Field.of name codec get set).Commutes (Field.of name' codec' get' set') := by
  intro a b r
  dsimp only [Field.of]
  cases codec.decode a with
  | error e =>
    cases codec'.decode b with
    | error e' => exact .error _ _
    | ok y => exact .error _ _
  | ok x =>
    cases codec'.decode b with
    | error e' => exact .error _ _
    | ok y => exact .ok (hset x y r).symm

end Member

variable {members members' : List (String × Json)}

/-- Members may be read in any order. -/
theorem readMembers_perm
    (hcommutes : ∀ field ∈ shape.fields, ∀ other ∈ shape.fields, field.name ≠ other.name →
      field.Commutes other)
    (h : members.Perm members') (hkeys : (members.map Prod.fst).Nodup) (r : ρ) :
    Related Eq (shape.readMembers r members) (shape.readMembers r members') := by
  induction h generalizing r with
  | nil => exact .refl _
  | cons member _ ih =>
    obtain ⟨key, value⟩ := member
    rw [List.map_cons, List.nodup_cons] at hkeys
    cases hfield : shape.field? key with
    | none =>
      rw [readMembers_cons_of_none hfield, readMembers_cons_of_none hfield]
      exact ih hkeys.2 r
    | some field =>
      rw [readMembers_cons_of_some hfield, readMembers_cons_of_some hfield]
      refine (Related.refl _).bind ?_
      rintro s _ rfl
      exact ih hkeys.2 s
  | swap first second members =>
    obtain ⟨key, value⟩ := first
    obtain ⟨key', value'⟩ := second
    have hne : key ≠ key' := by
      rintro rfl
      rw [List.map_cons, List.map_cons, List.nodup_cons] at hkeys
      exact hkeys.1 List.mem_cons_self
    -- Two members that change places only meet if both of them are read into fields.
    cases hfield : shape.field? key with
    | none =>
      rw [readMembers_cons_of_none hfield]
      cases hfield' : shape.field? key' with
      | none =>
        rw [readMembers_cons_of_none hfield', readMembers_cons_of_none hfield',
          readMembers_cons_of_none hfield]
        exact .refl _
      | some field' =>
        rw [readMembers_cons_of_some hfield', readMembers_cons_of_some hfield']
        refine (Related.refl _).bind ?_
        rintro s _ rfl
        rw [readMembers_cons_of_none hfield]
        exact .refl _
    | some field =>
      rw [readMembers_cons_of_some hfield]
      cases hfield' : shape.field? key' with
      | none =>
        rw [readMembers_cons_of_none hfield', readMembers_cons_of_some hfield]
        refine (Related.refl _).bind ?_
        rintro s _ rfl
        rw [readMembers_cons_of_none hfield']
        exact .refl _
      | some field' =>
        obtain ⟨hmem, hname⟩ := mem_of_field?_eq_some hfield
        obtain ⟨hmem', hname'⟩ := mem_of_field?_eq_some hfield'
        have hswap := hcommutes field' hmem' field hmem (by rw [hname, hname']; exact hne.symm)
          value' value r
        rw [readMembers_cons_of_some hfield']
        simp only [readMembers_cons_of_some hfield, readMembers_cons_of_some hfield']
        rw [← bind_assoc, ← bind_assoc]
        refine hswap.bind ?_
        rintro s _ rfl
        exact .refl _
  | trans hperm _ ih ih' =>
    exact (ih hkeys r).trans_eq (ih' ((hperm.map Prod.fst).nodup_iff.1 hkeys) r)

/-- Members with values in another order are read as related records. -/
theorem readMembers_respects (hfields : ∀ field ∈ shape.fields, field.Respects R)
    (h : List.Forall₂ (fun m m' => m.1 = m'.1 ∧ Reordered m.2 m'.2) members members')
    (hdistinct : ∀ member ∈ members, member.2.Distinct) {r s : ρ} (hrs : R r s) :
    Related R (shape.readMembers r members) (shape.readMembers s members') := by
  induction h generalizing r s with
  | nil => exact .ok hrs
  | @cons member member' _ _ hmember _ ih =>
    obtain ⟨key, value⟩ := member
    obtain ⟨_, value'⟩ := member'
    obtain ⟨rfl, hvalue⟩ := hmember
    rw [List.forall_mem_cons] at hdistinct
    cases hfield : shape.field? key with
    | none =>
      rw [readMembers_cons_of_none hfield, readMembers_cons_of_none hfield]
      exact ih hdistinct.2 hrs
    | some field =>
      rw [readMembers_cons_of_some hfield, readMembers_cons_of_some hfield]
      exact (hfields field (mem_of_field?_eq_some hfield).1 hvalue hdistinct.1 hrs).bind
        fun _ _ hrs => ih hdistinct.2 hrs

/-- Items in another order inside are read as related records, with as many items left. -/
theorem readItems_respects {fields : List (Field ρ)} {items items' : List Json}
    (hfields : ∀ field ∈ fields, field.Respects R) (h : List.Forall₂ Reordered items items')
    (hdistinct : ∀ item ∈ items, item.Distinct) {r s : ρ} (hrs : R r s) :
    Related (fun x y => R x.1 y.1 ∧ x.2 = y.2) (readItems r fields items)
      (readItems s fields items') := by
  induction fields generalizing r s items items' with
  | nil =>
    cases h with
    | nil => exact .ok ⟨hrs, rfl⟩
    | cons => exact .ok ⟨hrs, rfl⟩
  | cons field fields ih =>
    rw [List.forall_mem_cons] at hfields
    cases h with
    | nil => exact .ok ⟨hrs, rfl⟩
    | cons hitem hrest =>
      rw [List.forall_mem_cons] at hdistinct
      exact (hfields.1 hitem hdistinct.1 hrs).bind
        fun _ _ hrs => ih hfields.2 hrest hdistinct.2 hrs

/-- A record is read alike from lists with items that differ only in order. -/
theorem decode_array_respects (hfields : ∀ field ∈ shape.fields, field.Respects R)
    (hinitial : R shape.initial shape.initial) {items items' : List Json}
    (h : List.Forall₂ Reordered items items') (hdistinct : (Json.array items).Distinct) :
    Related R (shape.decode (.array items)) (shape.decode (.array items')) := by
  cases hdistinct with
  | array hdistinct =>
    refine (readItems_respects hfields h hdistinct hinitial).bind ?_
    rintro ⟨r, more⟩ ⟨s, _⟩ ⟨hrs, rfl⟩
    cases more
    · exact .ok hrs
    · exact .error _ _

/-- A record whose fields may be read in any order is read alike from values that differ only in
order. -/
theorem respects
    (hcommutes : ∀ field ∈ shape.fields, ∀ other ∈ shape.fields, field.name ≠ other.name →
      field.Commutes other)
    (hfields : ∀ field ∈ shape.fields, field.Respects R)
    (hinitial : R shape.initial shape.initial) : shape.codec.Respects R := by
  intro a b hab ha
  have hb := hab.distinct ha
  cases hab.form ha with
  | same =>
    -- Nothing is in another order, but it is not said that a record is related to itself.
    cases a with
    | object members =>
      refine readMembers_respects hfields ?_ (fun _ hmem => ha.of_mem hmem) hinitial
      exact List.forall₂_same.2 fun m _ => ⟨rfl, .refl m.2⟩
    | array items =>
      exact decode_array_respects hfields hinitial (List.forall₂_same.2 fun x _ => .refl x) ha
    | _ => exact .error _ _
  | array hitems => exact decode_array_respects hfields hinitial hitems ha
  | object _ hfound =>
    -- First the values change under their keys, then the members change places.
    obtain ⟨aligned, haligned, hperm⟩ :=
      Reordered.exists_aligned ha.nodup_keys hb.nodup_keys hfound
    have hread := readMembers_respects hfields haligned (fun _ hmem => ha.of_mem hmem) hinitial
    have hkeys := (hperm.map Prod.fst).nodup_iff.2 hb.nodup_keys
    exact hread.trans_eq (readMembers_perm hcommutes hperm hkeys shape.initial)

end Shape

end MailTemplate.Json
