import MailTemplate.Json.Basic
import Mathlib.Data.List.Nodup

/-!
# Members of Objects

What is found under a key after a patch is laid over an object. As long as no key is repeated, an
object is no more than what is found under its keys.

* `Json.Distinct` says that no object in a value repeats a key.
* `Json.lookup_mergeMembers` says what is found in a merged object.
-/

namespace MailTemplate.Json

/-- No object in a value has a key twice. -/
inductive Distinct : Json → Prop
  | null : Distinct .null
  | bool (b : Bool) : Distinct (.bool b)
  | number (n : Number) : Distinct (.number n)
  | string (s : String) : Distinct (.string s)
  | array {items : List Json} (hitems : ∀ item ∈ items, Distinct item) : Distinct (.array items)
  | object {members : List (String × Json)} (hkeys : (members.map Prod.fst).Nodup)
      (hvalues : ∀ member ∈ members, Distinct member.2) : Distinct (.object members)

/-- A value laid over the old value of its key, if there is one. -/
def laidOver (old : Option Json) (value : Json) : Json :=
  old.elim value fun old => merge old value

variable {key other : String} {value default : Json} {members patch : List (String × Json)}

theorem Distinct.nodup_keys (h : Distinct (.object members)) : (members.map Prod.fst).Nodup := by
  cases h with
  | object hkeys hvalues => exact hkeys

theorem Distinct.of_mem (h : Distinct (.object members)) {member : String × Json}
    (hmem : member ∈ members) : Distinct member.2 := by
  cases h with
  | object hkeys hvalues => exact hvalues member hmem

/-- Without some of its members an object still repeats no key. -/
theorem Distinct.sublist (h : Distinct (.object members)) (hsub : patch.Sublist members) :
    Distinct (.object patch) :=
  .object (h.nodup_keys.sublist (hsub.map Prod.fst)) fun _ hmem => h.of_mem (hsub.subset hmem)

/-! ## Keys -/

theorem lookup_cons :
    lookup key ((other, value) :: members) =
      if key = other then some value else lookup key members := by
  rw [lookup]
  exact if_congr eq_comm rfl rfl

theorem lookup_eq_none_iff : lookup key members = none ↔ key ∉ members.map Prod.fst := by
  induction members with
  | nil => simp [lookup]
  | cons member members ih =>
    obtain ⟨k, v⟩ := member
    rw [lookup_cons, List.map_cons, List.mem_cons, not_or]
    by_cases hk : key = k
    · simp [hk]
    · rw [if_neg hk, ih]
      exact (and_iff_right hk).symm

/-- What is found under a key is a member. -/
theorem mem_of_lookup_eq_some (h : lookup key members = some value) : (key, value) ∈ members := by
  induction members with
  | nil => cases h
  | cons member members ih =>
    obtain ⟨k, v⟩ := member
    rw [lookup_cons] at h
    split at h
    case isTrue hk =>
      cases h
      exact hk ▸ List.mem_cons_self
    case isFalse => exact List.mem_cons_of_mem _ (ih h)

/-- Without repeated keys, each member is found under its key. -/
theorem lookup_eq_some_iff (hkeys : (members.map Prod.fst).Nodup) :
    lookup key members = some value ↔ (key, value) ∈ members := by
  refine ⟨mem_of_lookup_eq_some, fun hmem => ?_⟩
  cases hfound : lookup key members with
  | none =>
    rw [lookup_eq_none_iff] at hfound
    exact absurd (List.mem_map_of_mem hmem) hfound
  | some found =>
    have heq := List.inj_on_of_nodup_map hkeys (mem_of_lookup_eq_some hfound) hmem rfl
    cases heq
    rfl

/-! ## Merged members -/

theorem lookup_upsert (update : Option Json → Json) :
    lookup other (upsert key update members) =
      if other = key then some (update (lookup key members)) else lookup other members := by
  induction members with
  | nil => exact lookup_cons
  | cons member members ih =>
    obtain ⟨k, v⟩ := member
    by_cases hk : k = key
    · subst hk
      rw [upsert, if_pos rfl, lookup_cons, lookup_cons, if_pos rfl, lookup_cons]
      by_cases h : other = k
      · rw [if_pos h, if_pos h]
      · rw [if_neg h, if_neg h, if_neg h]
    · rw [upsert, if_neg hk, lookup_cons, ih, lookup_cons, if_neg (Ne.symm hk), lookup_cons]
      by_cases h : other = key
      · rw [if_pos h, if_pos h, if_neg (h ▸ Ne.symm hk)]
      · rw [if_neg h, if_neg h]

/-- A key that is there keeps its place, and a new one goes to the end. -/
theorem keys_upsert (update : Option Json → Json) :
    (upsert key update members).map Prod.fst =
      if key ∈ members.map Prod.fst then members.map Prod.fst
      else members.map Prod.fst ++ [key] := by
  induction members with
  | nil => rfl
  | cons member members ih =>
    obtain ⟨k, v⟩ := member
    by_cases hk : k = key
    · subst hk
      simp [upsert]
    · rw [upsert, if_neg hk, List.map_cons, ih, List.map_cons]
      simp only [List.mem_cons, Ne.symm hk, false_or]
      split <;> rfl

theorem nodup_keys_upsert (hkeys : (members.map Prod.fst).Nodup) (update : Option Json → Json) :
    ((upsert key update members).map Prod.fst).Nodup := by
  rw [keys_upsert]
  split
  case isTrue => exact hkeys
  case isFalse hkey =>
    exact hkeys.append (List.nodup_singleton key) (List.disjoint_singleton.2 hkey)

theorem mergeMembers_cons :
    mergeMembers members ((key, value) :: patch) =
      mergeMembers (upsert key (laidOver · value) members) patch := by
  rw [mergeMembers]
  congr 2
  funext old
  cases old <;> rfl

theorem mergeMembers_append (front back : List (String × Json)) :
    mergeMembers members (front ++ back) = mergeMembers (mergeMembers members front) back := by
  induction front generalizing members with
  | nil => rw [List.nil_append, mergeMembers]
  | cons member front ih =>
    obtain ⟨k, v⟩ := member
    rw [List.cons_append, mergeMembers_cons, mergeMembers_cons, ih]

theorem nodup_keys_mergeMembers (hkeys : (members.map Prod.fst).Nodup)
    (patch : List (String × Json)) : ((mergeMembers members patch).map Prod.fst).Nodup := by
  induction patch generalizing members with
  | nil => rwa [mergeMembers]
  | cons member patch ih =>
    obtain ⟨k, v⟩ := member
    rw [mergeMembers_cons]
    exact ih (nodup_keys_upsert hkeys _)

/-- What a patch has under a key is laid over what the object has there. -/
theorem lookup_mergeMembers (hpatch : (patch.map Prod.fst).Nodup) :
    lookup key (mergeMembers members patch) =
      ((lookup key patch).map (laidOver (lookup key members))).or (lookup key members) := by
  induction patch generalizing members with
  | nil => rw [mergeMembers]; rfl
  | cons member patch ih =>
    obtain ⟨k, v⟩ := member
    rw [List.map_cons, List.nodup_cons, ← lookup_eq_none_iff] at hpatch
    -- The first member of the patch is laid over before the others, which have other keys.
    rw [mergeMembers_cons, ih hpatch.2, lookup_upsert, lookup_cons]
    by_cases hk : key = k
    · subst hk
      rw [if_pos rfl, if_pos rfl, hpatch.1]
      rfl
    · rw [if_neg hk, if_neg hk]

/-- A key that the patch does not have keeps its value. -/
theorem lookup_mergeMembers_of_not_mem (hnot : key ∉ patch.map Prod.fst) :
    lookup key (mergeMembers members patch) = lookup key members := by
  induction patch generalizing members with
  | nil => rw [mergeMembers]
  | cons member patch ih =>
    obtain ⟨k, v⟩ := member
    rw [List.map_cons, List.mem_cons, not_or] at hnot
    rw [mergeMembers_cons, ih hnot.2, lookup_upsert, if_neg hnot.1]

/-- Laying a value over one that is no object, or one that is no object over it, replaces it. -/
theorem merge_eq_self (h : default.isObject = false ∨ value.isObject = false) :
    default.merge value = value := by
  unfold merge
  split
  · rcases h with h | h <;> cases h
  · rfl

end MailTemplate.Json
