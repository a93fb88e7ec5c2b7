import MailTemplate.Proofs.Json.Fields

/-!
# Values That Repeat No Key

Whether a value repeats a key can be computed. In a value that repeats none there is nothing for
`Json.unique` to do, and a record does not see it either as long as the key of no field is repeated.

* `Json.induct` is induction over a value, with a hypothesis for each item and each member.
* `Json.isDistinct_iff` makes `Json.Distinct` decidable.
* `Json.unique_eq_self` says that a value without repeated keys stays as it is.
* `Shape.readMembers_uniqueMembers` compares a record of members with that of their last values.
-/

namespace MailTemplate.Json

theorem sizeOf_value_lt {member : String × Json} {members : List (String × Json)}
    (hmem : member ∈ members) : sizeOf member.2 < sizeOf members := by
  have hmember := List.sizeOf_lt_of_mem hmem
  obtain ⟨key, value⟩ := member
  rw [Prod.mk.sizeOf_spec] at hmember
  show sizeOf value < sizeOf members
  omega

/-- Induction over a value, with a hypothesis for each item of a list and each member of an
object. -/
@[elab_as_elim]
theorem induct {motive : Json → Prop} (null : motive .null) (bool : ∀ b, motive (.bool b))
    (number : ∀ n, motive (.number n)) (string : ∀ s, motive (.string s))
    (array : ∀ items, (∀ item ∈ items, motive item) → motive (.array items))
    (object : ∀ members, (∀ member ∈ members, motive member.2) → motive (.object members)) :
    ∀ json, motive json
  | .null => null
  | .bool b => bool b
  | .number n => number n
  | .string s => string s
  | .array items => array items fun item _ => induct null bool number string array object item
  | .object members =>
    object members fun member hmem =>
      have := sizeOf_value_lt hmem
      induct null bool number string array object member.2

mutual

/-- Whether no object in a value has a key twice. -/
def isDistinct : Json → Bool
  | .array items => areDistinct items
  | .object members => decide (members.map Prod.fst).Nodup && haveDistinct members
  | _ => true

/-- `isDistinct` for all items. -/
def areDistinct : List Json → Bool
  | [] => true
  | item :: rest => isDistinct item && areDistinct rest

/-- `isDistinct` for the values of all members. -/
def haveDistinct : List (String × Json) → Bool
  | [] => true
  | (_, value) :: rest => isDistinct value && haveDistinct rest

end

theorem areDistinct_iff {items : List Json} :
    areDistinct items = true ↔ ∀ item ∈ items, item.isDistinct = true := by
  induction items with
  | nil => exact iff_of_true rfl (List.forall_mem_nil _)
  | cons item items ih => rw [areDistinct, Bool.and_eq_true, ih, List.forall_mem_cons]

theorem haveDistinct_iff {members : List (String × Json)} :
    haveDistinct members = true ↔ ∀ member ∈ members, member.2.isDistinct = true := by
  induction members with
  | nil => exact iff_of_true rfl (List.forall_mem_nil _)
  | cons member members ih => rw [haveDistinct, Bool.and_eq_true, ih, List.forall_mem_cons]

theorem isDistinct_iff {json : Json} : json.isDistinct = true ↔ json.Distinct := by
  induction json using induct with
  | array items ih =>
    rw [isDistinct, areDistinct_iff]
    refine (forall₂_congr ih).trans ⟨.array, fun h => ?_⟩
    cases h with
    | array hitems => exact hitems
  | object members ih =>
    rw [isDistinct, Bool.and_eq_true, decide_eq_true_iff, haveDistinct_iff, forall₂_congr ih]
    exact ⟨fun h => .object h.1 h.2, fun h => ⟨h.nodup_keys, fun _ hmem => h.of_mem hmem⟩⟩
  | _ => exact iff_of_true rfl (by constructor)

instance : DecidablePred Distinct := fun _ =>
  decidable_of_iff _ isDistinct_iff

/-! ## Nothing to settle -/

variable {members kept : List (String × Json)}

/-- A new key goes to the end. -/
theorem upsert_eq_append {key : String} (hkey : key ∉ members.map Prod.fst)
    (update : Option Json → Json) :
    upsert key update members = members ++ [(key, update none)] := by
  induction members with
  | nil => rfl
  | cons member members ih =>
    obtain ⟨k, v⟩ := member
    rw [List.map_cons, List.mem_cons, not_or] at hkey
    rw [upsert, if_neg (Ne.symm hkey.1), ih hkey.2, List.cons_append]

theorem foldl_upsert_eq_append (kept : List (String × Json))
    (hkeys : ((kept ++ members).map Prod.fst).Nodup) :
    members.foldl (fun kept m => upsert m.1 (fun _ => m.2) kept) kept = kept ++ members := by
  induction members generalizing kept with
  | nil => exact (List.append_nil kept).symm
  | cons member members ih =>
    have hnew : member.1 ∉ kept.map Prod.fst := by
      rw [List.map_append, List.map_cons] at hkeys
      exact fun hmem => List.disjoint_of_nodup_append hkeys hmem List.mem_cons_self
    rw [List.foldl_cons, upsert_eq_append hnew, ih, List.append_assoc, List.singleton_append]
    rwa [List.append_assoc, List.singleton_append]

theorem uniqueMembers_eq_self (hkeys : (members.map Prod.fst).Nodup) :
    uniqueMembers members = members :=
  foldl_upsert_eq_append [] hkeys

theorem uniqueItems_eq_map (items : List Json) : uniqueItems items = items.map unique := by
  induction items with
  | nil => rfl
  | cons item items ih => rw [uniqueItems, ih, List.map_cons]

theorem uniqueValues_eq_map (members : List (String × Json)) :
    uniqueValues members = members.map fun m => (m.1, m.2.unique) := by
  induction members with
  | nil => rfl
  | cons member members ih => rw [uniqueValues, ih, List.map_cons]

/-- A value without repeated keys stays as it is. -/
theorem unique_eq_self {json : Json} (h : json.Distinct) : json.unique = json := by
  induction h with
  | @array items hitems ih =>
    rw [unique, uniqueItems_eq_map, List.map_congr_left ih, List.map_id']
  | @object members hkeys hvalues ih =>
    have hsame : ∀ m ∈ members, (m.1, m.2.unique) = m := fun m hmem => by rw [ih m hmem]
    rw [unique, uniqueValues_eq_map, List.map_congr_left hsame, List.map_id',
      uniqueMembers_eq_self hkeys]
  | _ => rfl

/-! ## The last value of each key -/

variable {ρ : Type} {shape : Shape ρ} {known : String → Bool}

/-- Members that are picked by their keys are updated among themselves. -/
theorem filter_upsert (key : String) (update : Option Json → Json) :
    (upsert key update members).filter (fun m => known m.1) =
      if known key then upsert key update (members.filter fun m => known m.1)
      else members.filter fun m => known m.1 := by
  induction members with
  | nil =>
    cases hkey : known key with
    | true => simp [upsert, hkey]
    | false => simp [upsert, hkey]
  | cons member members ih =>
    obtain ⟨k, v⟩ := member
    by_cases hk : k = key
    · subst hk
      cases hkey : known k with
      | true => simp [upsert, hkey]
      | false => simp [upsert, hkey]
    · cases hmember : known k with
      | true =>
        simp only [upsert, if_neg hk, List.filter_cons, hmember, if_true, ih]
        split <;> rfl
      | false =>
        simp only [upsert, if_neg hk, List.filter_cons, hmember, Bool.false_eq_true, if_false, ih]

theorem filter_foldl_upsert (kept members : List (String × Json)) :
    (members.foldl (fun kept m => upsert m.1 (fun _ => m.2) kept) kept).filter
        (fun m => known m.1) =
      (members.filter fun m => known m.1).foldl (fun kept m => upsert m.1 (fun _ => m.2) kept)
        (kept.filter fun m => known m.1) := by
  induction members generalizing kept with
  | nil => rfl
  | cons member members ih =>
    rw [List.foldl_cons, ih, filter_upsert, List.filter_cons]
    split <;> rfl

/-- The last values of those keys that are picked are the last values among their members. -/
theorem filter_uniqueMembers (known : String → Bool) (members : List (String × Json)) :
    (uniqueMembers members).filter (fun m => known m.1) =
      uniqueMembers (members.filter fun m => known m.1) :=
  filter_foldl_upsert [] members

theorem nodup_uniqueMembers (members : List (String × Json)) :
    ((uniqueMembers members).map Prod.fst).Nodup := by
  have hfold : ∀ kept : List (String × Json), (kept.map Prod.fst).Nodup →
      ((members.foldl (fun kept m => upsert m.1 (fun _ => m.2) kept) kept).map Prod.fst).Nodup := by
    induction members with
    | nil => exact fun _ hkept => hkept
    | cons member members ih => exact fun kept hkept => ih _ (nodup_keys_upsert hkept _)
  exact hfold [] List.nodup_nil

/-- Members without a field do not matter to a record. -/
theorem Shape.readMembers_filter (record : ρ) (members : List (String × Json)) :
    shape.readMembers record (members.filter fun m => (shape.field? m.1).isSome) =
      shape.readMembers record members := by
  induction members generalizing record with
  | nil => rfl
  | cons member members ih =>
    obtain ⟨key, value⟩ := member
    cases hfield : shape.field? key with
    | none =>
      rw [List.filter_cons_of_neg (by simp [hfield]), ih, readMembers_cons_of_none hfield]
    | some field =>
      rw [List.filter_cons_of_pos (by simp [hfield]), readMembers_cons_of_some hfield,
        readMembers_cons_of_some hfield]
      exact congrArg (_ >>= ·) (funext ih)

/-- If no key of a field is repeated, the last values of all keys make the same record. -/
theorem Shape.readMembers_uniqueMembers (record : ρ)
    (hkeys : ((members.filter fun m => (shape.field? m.1).isSome).map Prod.fst).Nodup) :
    shape.readMembers record (uniqueMembers members) = shape.readMembers record members := by
  rw [← readMembers_filter, filter_uniqueMembers fun key => (shape.field? key).isSome,
    uniqueMembers_eq_self hkeys, readMembers_filter]

end MailTemplate.Json
