import MailTemplate.Proofs.Json.Merge
import MailTemplate.Storage.Fallback
import Mathlib.Data.List.Perm.Basic

/-!
# Members in Another Order

Two values that differ only in the order of the members of their objects. As long as no key is
repeated, they are of the same form, and what is found under a key in one differs from what is found
in the other again only in order. So does what comes of pulling numbers into range, and of laying
the values over the same value.

* `Json.Reordered` is the relation, `Reordered.form` what it says about two values at their top.
* `Reordered.of_lookup` goes back from what is found under each key.
* `Reordered.merge` and `Reordered.saturated` are the two operations.
-/

namespace MailTemplate.Json

/-- Two values that differ only in the order of the members of their objects, at any depth. -/
inductive Reordered : Json → Json → Prop
  | refl (json : Json) : Reordered json json
  | trans {a b c : Json} (h : Reordered a b) (h' : Reordered b c) : Reordered a c
  | members {members members' : List (String × Json)} (h : members.Perm members') :
    Reordered (.object members) (.object members')
  | item {a b : Json} (before after : List Json) (h : Reordered a b) :
    Reordered (.array (before ++ a :: after)) (.array (before ++ b :: after))
  | value {a b : Json} (before after : List (String × Json)) (key : String) (h : Reordered a b) :
    Reordered (.object (before ++ (key, a) :: after)) (.object (before ++ (key, b) :: after))

variable {a b : Json} {key : String} {members members' patch patch' : List (String × Json)}

theorem lookup_append (before after : List (String × Json)) :
    lookup key (before ++ after) = (lookup key before).or (lookup key after) := by
  induction before with
  | nil => rfl
  | cons member before ih =>
    obtain ⟨k, v⟩ := member
    rw [List.cons_append, lookup_cons, lookup_cons, ih]
    split <;> rfl

/-- Without repeated keys the order of members does not matter to what is found under a key. -/
theorem lookup_perm (h : members.Perm members') (hkeys : (members.map Prod.fst).Nodup) :
    lookup key members = lookup key members' := by
  have hkeys' : (members'.map Prod.fst).Nodup := (h.map Prod.fst).nodup_iff.1 hkeys
  refine Option.ext fun value => ?_
  rw [lookup_eq_some_iff hkeys, lookup_eq_some_iff hkeys', h.mem_iff]

theorem map_fst_append_cons (before after : List (String × Json)) (value : Json) :
    (before ++ (key, value) :: after).map Prod.fst =
      before.map Prod.fst ++ key :: after.map Prod.fst := by
  rw [List.map_append, List.map_cons]

/-! ## The form of reordered values -/

/-- What two values that differ only in order have in common at their top. -/
inductive SameForm : Json → Json → Prop
  | same (json : Json) : SameForm json json
  | array {items items' : List Json} (h : List.Forall₂ Reordered items items') :
    SameForm (.array items) (.array items')
  | object {members members' : List (String × Json)}
    (hkeys : (members.map Prod.fst).Perm (members'.map Prod.fst))
    (h : ∀ key, Option.Rel Reordered (lookup key members) (lookup key members')) :
    SameForm (.object members) (.object members')

theorem Reordered.rel_refl (found : Option Json) : Option.Rel Reordered found found := by
  cases found with
  | none => exact .none
  | some value => exact .some (.refl value)

theorem Reordered.rel_trans {x y z : Option Json} (h : Option.Rel Reordered x y)
    (h' : Option.Rel Reordered y z) : Option.Rel Reordered x z := by
  cases h with
  | none => exact h'
  | some hxy =>
    cases h' with
    | some hyz => exact .some (hxy.trans hyz)

theorem Reordered.items_trans {items items' items'' : List Json}
    (h : List.Forall₂ Reordered items items') (h' : List.Forall₂ Reordered items' items'') :
    List.Forall₂ Reordered items items'' := by
  induction h generalizing items'' with
  | nil => exact h'
  | cons hitem _ ih =>
    cases h' with
    | cons hitem' hrest' => exact .cons (hitem.trans hitem') (ih hrest')

theorem SameForm.trans {c : Json} (h : SameForm a b) (h' : SameForm b c) : SameForm a c := by
  cases h with
  | same => exact h'
  | array hitems =>
    cases h' with
    | same => exact .array hitems
    | array hitems' => exact .array (Reordered.items_trans hitems hitems')
  | object hkeys hfound =>
    cases h' with
    | same => exact .object hkeys hfound
    | object hkeys' hfound' =>
      exact .object (hkeys.trans hkeys') fun key =>
        Reordered.rel_trans (hfound key) (hfound' key)

namespace Reordered

/-- Another order repeats no key either. -/
theorem distinct (h : Reordered a b) (ha : a.Distinct) : b.Distinct := by
  induction h with
  | refl => exact ha
  | trans _ _ ih ih' => exact ih' (ih ha)
  | members hperm =>
    refine .object ((hperm.map Prod.fst).nodup_iff.1 ha.nodup_keys) fun member hmem => ?_
    exact ha.of_mem (hperm.mem_iff.2 hmem)
  | @item a b before after _ ih =>
    cases ha with
    | array hitems =>
      rw [List.forall_mem_append, List.forall_mem_cons] at hitems
      refine .array ?_
      rw [List.forall_mem_append, List.forall_mem_cons]
      exact ⟨hitems.1, ih hitems.2.1, hitems.2.2⟩
  | @value a b before after key _ ih =>
    cases ha with
    | object hkeys hvalues =>
      rw [List.forall_mem_append, List.forall_mem_cons] at hvalues
      refine .object ?_ ?_
      · rwa [map_fst_append_cons, ← map_fst_append_cons before after a]
      · rw [List.forall_mem_append, List.forall_mem_cons]
        exact ⟨hvalues.1, ih hvalues.2.1, hvalues.2.2⟩

/-- Values that differ only in order are of the same form, and so are their parts. -/
theorem form (h : Reordered a b) (ha : a.Distinct) : SameForm a b := by
  induction h with
  | refl json => exact .same json
  | trans h h' ih ih' => exact (ih ha).trans (ih' (h.distinct ha))
  | members hperm =>
    refine .object (hperm.map Prod.fst) fun key => ?_
    rw [lookup_perm hperm ha.nodup_keys]
    exact rel_refl _
  | item before after h ih =>
    have hrefl := fun items : List Json => List.forall₂_same.2 fun x (_ : x ∈ items) => refl x
    exact .array (List.rel_append (hrefl before) (.cons h (hrefl after)))
  | @value a b before after key h ih =>
    refine .object ?_ fun other => ?_
    · rw [map_fst_append_cons, map_fst_append_cons]
    · rw [lookup_append, lookup_append, lookup_cons, lookup_cons]
      -- A key is found before the place, or at it, or after it.
      cases lookup other before with
      | some found => exact rel_refl _
      | none =>
        split
        · exact .some h
        · exact rel_refl _

/-! ## From what is found under each key -/

/-- Values under the same keys in the same order may be replaced one after the other. -/
theorem of_forall₂ (before : List (String × Json))
    (h : List.Forall₂ (fun m m' => m.1 = m'.1 ∧ Reordered m.2 m'.2) members members') :
    Reordered (.object (before ++ members)) (.object (before ++ members')) := by
  induction h generalizing before with
  | nil => exact refl _
  | @cons member member' members members' hmember _ ih =>
    obtain ⟨key, v⟩ := member
    obtain ⟨key', v'⟩ := member'
    obtain ⟨rfl, hvalue⟩ := hmember
    -- The members before the place stand in their new values already.
    have hrest := ih (before ++ [(key, v')])
    rw [List.append_assoc, List.append_assoc] at hrest
    exact (value before members key hvalue).trans hrest

/-- The members of one object can be put in the order of the other one. -/
theorem exists_aligned (hkeys : (members.map Prod.fst).Nodup)
    (hkeys' : (members'.map Prod.fst).Nodup)
    (h : ∀ key, Option.Rel Reordered (lookup key members) (lookup key members')) :
    ∃ aligned, List.Forall₂ (fun m m' => m.1 = m'.1 ∧ Reordered m.2 m'.2) members aligned ∧
      aligned.Perm members' := by
  let aligned := members.map fun m => (m.1, (lookup m.1 members').getD m.2)
  have hfst : aligned.map Prod.fst = members.map Prod.fst := by
    rw [List.map_map]
    rfl
  -- Each member finds its counterpart under its key.
  have hfound : ∀ m ∈ members, ∃ v', lookup m.1 members' = some v' ∧ Reordered m.2 v' := by
    intro m hmem
    have hrel := h m.1
    rw [(lookup_eq_some_iff hkeys).2 hmem] at hrel
    generalize lookup m.1 members' = found at hrel
    cases hrel with
    | some hv => exact ⟨_, rfl, hv⟩
  refine ⟨aligned, ?_, ?_⟩
  · refine List.forall₂_map_right_iff.2 (List.forall₂_same.2 fun m hmem => ?_)
    obtain ⟨v', hv', hreordered⟩ := hfound m hmem
    exact ⟨rfl, by rwa [hv']⟩
  · refine (List.perm_ext_iff_of_nodup (.of_map Prod.fst (hfst ▸ hkeys))
      (.of_map Prod.fst hkeys')).2 fun member => ?_
    constructor
    · intro hmem
      obtain ⟨m, hm, rfl⟩ := List.mem_map.1 hmem
      obtain ⟨v', hv', -⟩ := hfound m hm
      rw [hv']
      exact mem_of_lookup_eq_some hv'
    · intro hmem
      have hrel := h member.1
      have hmember := (lookup_eq_some_iff hkeys').2 hmem
      rw [hmember] at hrel
      generalize hfirst : lookup member.1 members = found at hrel
      cases hrel with
      | some hv =>
        refine List.mem_map.2 ⟨_, mem_of_lookup_eq_some hfirst, ?_⟩
        rw [hmember]
        rfl

/-- Objects differ only in order if what is found under each key does. -/
theorem of_lookup (hkeys : (members.map Prod.fst).Nodup) (hkeys' : (members'.map Prod.fst).Nodup)
    (h : ∀ key, Option.Rel Reordered (lookup key members) (lookup key members')) :
    Reordered (.object members) (.object members') := by
  obtain ⟨aligned, haligned, hperm⟩ := exists_aligned hkeys hkeys' h
  exact (of_forall₂ [] haligned).trans (.members hperm)

end Reordered

/-! ## Numbers pulled into range -/

theorem saturatedMembers_eq_map (ceiling : UInt32) (members : List (String × Json)) :
    saturatedMembers ceiling members = members.map fun m => (m.1, m.2.saturated ceiling) := by
  induction members with
  | nil => rfl
  | cons member members ih => exact congrArg (_ :: ·) ih

theorem saturated_object (ceiling : UInt32) (members : List (String × Json)) :
    (Json.object members).saturated ceiling =
      .object (members.map fun m => (m.1, m.2.saturated ceiling)) := by
  rw [saturated, saturatedMembers_eq_map]

theorem Distinct.saturated (ceiling : UInt32) (h : a.Distinct) :
    (a.saturated ceiling).Distinct := by
  induction h with
  | number n => cases n <;> exact .number _
  | object hkeys hvalues ih =>
    rw [saturated_object]
    refine .object ?_ fun member hmem => ?_
    · rwa [List.map_map]
    · obtain ⟨m, hm, rfl⟩ := List.mem_map.1 hmem
      exact ih m hm
  | array hitems => exact .array hitems
  | _ => constructor

theorem Reordered.saturated (ceiling : UInt32) (h : Reordered a b) :
    Reordered (a.saturated ceiling) (b.saturated ceiling) := by
  induction h with
  | refl => exact .refl _
  | trans _ _ ih ih' => exact ih.trans ih'
  | members hperm =>
    rw [saturated_object, saturated_object]
    exact .members (hperm.map _)
  | item before after h ih => exact .item before after h
  | value before after key h ih =>
    rw [saturated_object, saturated_object, List.map_append, List.map_append]
    exact .value _ _ key ih

/-! ## Values laid over a value -/

theorem Distinct.merge (ha : a.Distinct) (hb : b.Distinct) : (a.merge b).Distinct := by
  induction hb generalizing a with
  | @object patch hkeys hvalues ih =>
    cases ha with
    | @object members hmembers hold =>
      rw [Json.merge]
      have hmerged := nodup_keys_mergeMembers hmembers patch
      refine .object hmerged fun member hmem => ?_
      -- Under the key of a member is an old value, a new one, or a new one over an old one.
      have hfound := (lookup_eq_some_iff hmerged).2 hmem
      rw [lookup_mergeMembers hkeys] at hfound
      cases hnew : lookup member.1 patch with
      | none =>
        rw [hnew] at hfound
        exact hold _ (mem_of_lookup_eq_some hfound)
      | some value =>
        have hvalue := mem_of_lookup_eq_some hnew
        rw [hnew] at hfound
        rw [← (Option.some.inj hfound : laidOver (lookup member.1 members) value = member.2)]
        cases hover : lookup member.1 members with
        | none => exact hvalues _ hvalue
        | some old => exact ih _ hvalue (hold _ (mem_of_lookup_eq_some hover))
    | _ => exact .object hkeys hvalues
  | array hitems =>
    rw [merge_eq_self (.inr rfl)]
    exact .array hitems
  | _ =>
    rw [merge_eq_self (.inr rfl)]
    constructor

/-- Members in another order are laid over an object alike. -/
theorem Reordered.mergeMembers (hkeys : (members.map Prod.fst).Nodup)
    (hpatch : (patch.map Prod.fst).Nodup) (hpatch' : (patch'.map Prod.fst).Nodup)
    (h : ∀ key, Option.Rel Reordered ((lookup key patch).map (laidOver (lookup key members)))
      ((lookup key patch').map (laidOver (lookup key members)))) :
    Reordered (.object (mergeMembers members patch)) (.object (mergeMembers members patch')) := by
  refine .of_lookup (nodup_keys_mergeMembers hkeys _) (nodup_keys_mergeMembers hkeys _) ?_
  intro key
  rw [lookup_mergeMembers hpatch, lookup_mergeMembers hpatch']
  have hkey := h key
  generalize (lookup key patch).map _ = found at hkey ⊢
  generalize (lookup key patch').map _ = found' at hkey ⊢
  cases hkey with
  | none => exact rel_refl _
  | some hvalue => exact .some hvalue

theorem Reordered.merge {json : Json} (h : Reordered a b) (hjson : json.Distinct)
    (ha : a.Distinct) : Reordered (json.merge a) (json.merge b) := by
  induction h generalizing json with
  | refl => exact .refl _
  | trans h _ ih ih' => exact (ih hjson ha).trans (ih' hjson (h.distinct ha))
  | @members patch patch' hperm =>
    cases hjson with
    | object hkeys hvalues =>
      have hpatch := ha.nodup_keys
      refine .mergeMembers hkeys hpatch ((hperm.map Prod.fst).nodup_iff.1 hpatch) fun key => ?_
      rw [lookup_perm hperm hpatch]
      exact rel_refl _
    | _ => exact .members hperm
  | item before after h ih =>
    rw [merge_eq_self (.inr rfl), merge_eq_self (.inr rfl)]
    exact .item before after h
  | @value a b before after key h ih =>
    cases hjson with
    | @object members hkeys hvalues =>
      have hpatch := ha.nodup_keys
      have hpatch' := ((h.value before after key).distinct ha).nodup_keys
      have hvalue := ha.of_mem (List.mem_append_right before List.mem_cons_self)
      refine .mergeMembers hkeys hpatch hpatch' fun other => ?_
      -- The patches differ in one value, so what is found differs under its key alone.
      rw [lookup_append, lookup_append, lookup_cons, lookup_cons]
      cases lookup other before with
      | some found => exact rel_refl _
      | none =>
        split
        case isFalse => exact rel_refl _
        case isTrue =>
          refine .some ?_
          cases hover : lookup other members with
          | none => exact h
          | some old => exact ih (hvalues _ (mem_of_lookup_eq_some hover)) hvalue
    | _ => exact .value before after key h

end MailTemplate.Json
