import MailTemplate.Proofs.Json.Distinct
import Mathlib.Data.Fintype.EquivFin

/-!
# Patches Laid in Turn

What comes of several patches that are laid over a value one after another, down to the order of
the members. A patch that is laid over twice changes nothing the second time. Two patches can be
made one first, unless the first one holds something that is no object in a place where the second
one holds an object: then what the value has there would come through.

* `Json.keys_mergeMembers` is the order of the members, and `Json.eq_of_lookup` says that an object
  is no more than this order and what is found under its keys.
* `Json.Underlies` is the condition on two patches, `Json.merge_assoc` what follows from it, and
  `Json.underlies_of_merge_assoc` that nothing less will do.
-/

namespace MailTemplate.Json

/-- The value at the end of a path of keys. -/
def at? : (path : List String) → Json → Option Json
  | [], json => some json
  | key :: path, json => (json.get? key).bind (at? path)

/-- Wherever both of two values have something, and the second one has an object, the first one has
an object too. The empty path counts: it leads to the values themselves. -/
def Underlies (first second : Json) : Prop :=
  ∀ path a b, first.at? path = some a → second.at? path = some b →
    b.isObject = true → a.isObject = true

variable {value p q : Json} {key : String} {members members' patch patch' : List (String × Json)}

/-! ## The order of members -/

/-- The members of an object stay in their places, and the new ones of a patch come after them. -/
theorem keys_mergeMembers (hpatch : (patch.map Prod.fst).Nodup) :
    (mergeMembers members patch).map Prod.fst =
      members.map Prod.fst ++ (patch.map Prod.fst).filter (· ∉ members.map Prod.fst) := by
  induction patch generalizing members with
  | nil => rw [mergeMembers, List.map_nil, List.filter_nil, List.append_nil]
  | cons member patch ih =>
    obtain ⟨k, v⟩ := member
    rw [List.map_cons, List.nodup_cons] at hpatch
    rw [mergeMembers_cons, ih hpatch.2, keys_upsert, List.map_cons]
    by_cases hk : k ∈ members.map Prod.fst
    · rw [if_pos hk, List.filter_cons_of_neg (by simpa using hk)]
    · -- The key is new, and no other member of the patch has it.
      have hothers : ∀ other ∈ patch.map Prod.fst,
          decide (other ∉ members.map Prod.fst ++ [k]) =
            decide (other ∉ members.map Prod.fst) := by
        intro other hother
        have hne : other ≠ k := fun heq => hpatch.1 (heq ▸ hother)
        rw [decide_eq_decide, List.mem_append, List.mem_singleton, or_iff_left hne]
      rw [if_neg hk, List.filter_cons_of_pos (by simpa using hk), List.filter_congr hothers,
        List.append_assoc, List.singleton_append]

/-- Without repeated keys, members are made of the order of their keys and what is found there. -/
theorem map_lookup_keys (hkeys : (members.map Prod.fst).Nodup) :
    (members.map Prod.fst).map (fun key => (key, (lookup key members).getD .null)) = members := by
  rw [List.map_map]
  refine (List.map_congr_left fun member hmem => ?_).trans (List.map_id members)
  rw [Function.comp_apply, (lookup_eq_some_iff hkeys).2 hmem]
  rfl

theorem eq_of_lookup (hkeys : (members.map Prod.fst).Nodup)
    (horder : members.map Prod.fst = members'.map Prod.fst)
    (h : ∀ key, lookup key members = lookup key members') : members = members' := by
  have hkeys' : (members'.map Prod.fst).Nodup := horder ▸ hkeys
  rw [← map_lookup_keys hkeys, ← map_lookup_keys hkeys', horder]
  exact List.map_congr_left fun key _ => by rw [h]

/-! ## Values at the same path -/

theorem Underlies.isObject (h : p.Underlies q) (hq : q.isObject = true) : p.isObject = true :=
  h [] p q rfl rfl hq

/-- An object underlies another one if it does so under each key of both. -/
theorem underlies_object_iff :
    (Json.object members).Underlies (.object patch) ↔
      ∀ key a b, lookup key members = some a → lookup key patch = some b → a.Underlies b := by
  constructor
  · intro h key a b ha hb path old new hold hnew
    refine h (key :: path) old new ?_ ?_
    · rwa [at?, get?, ha]
    · rwa [at?, get?, hb]
  · intro h path old new hold hnew hobject
    cases path with
    | nil =>
      cases hold
      rfl
    | cons key path =>
      obtain ⟨a, ha, hold⟩ := Option.bind_eq_some_iff.1 hold
      obtain ⟨b, hb, hnew⟩ := Option.bind_eq_some_iff.1 hnew
      exact h key a b ha hb path old new hold hnew hobject

/-- A value that is no object has nothing under a path of keys. -/
theorem underlies_of_isObject_eq_false (hq : q.isObject = false) : p.Underlies q := by
  intro path old new hold hnew hobject
  cases path with
  | nil =>
    cases hnew
    exact absurd hobject (hq ▸ Bool.false_ne_true)
  | cons key path =>
    obtain ⟨b, hb, -⟩ := Option.bind_eq_some_iff.1 hnew
    cases q with
    | object patch => cases hq
    | _ => cases hb

theorem underlies_self (p : Json) : p.Underlies p := by
  intro path a b ha hb hobject
  rw [ha] at hb
  cases hb
  exact hobject

/-! ## The laws -/

/-- A value laid over itself stays as it is. -/
theorem merge_self (hp : p.Distinct) : p.merge p = p := by
  induction hp with
  | @object members hkeys hvalues ih =>
    rw [merge]
    refine congrArg Json.object (eq_of_lookup (nodup_keys_mergeMembers hkeys members) ?_ ?_)
    · rw [keys_mergeMembers hkeys, List.filter_eq_nil_iff.2, List.append_nil]
      intro key hkey
      simpa using hkey
    · intro key
      rw [lookup_mergeMembers hkeys]
      cases hfound : lookup key members with
      | none => rfl
      | some value => exact congrArg some (ih _ (mem_of_lookup_eq_some hfound))
  | _ => exact merge_eq_self (.inr rfl)

/-- The keys of a value and two patches come in the same order either way. -/
theorem keys_mergeMembers_mergeMembers (hpatch : (patch.map Prod.fst).Nodup)
    (hpatch' : (patch'.map Prod.fst).Nodup) :
    (mergeMembers (mergeMembers members patch) patch').map Prod.fst =
      (mergeMembers members (mergeMembers patch patch')).map Prod.fst := by
  rw [keys_mergeMembers hpatch', keys_mergeMembers hpatch,
    keys_mergeMembers (nodup_keys_mergeMembers hpatch patch'), keys_mergeMembers hpatch',
    List.filter_append, List.append_assoc, List.filter_filter]
  congr 2
  -- Of the second patch, those keys are new that neither the value nor the first patch has.
  refine List.filter_congr fun key _ => ?_
  simp only [List.mem_append, List.mem_filter]
  by_cases hmember : key ∈ members.map Prod.fst <;> simp [hmember]

/-- What is found under a key of a value and two patches is the same either way, if the values that
both patches have there can be made one first. -/
theorem lookup_mergeMembers_mergeMembers (hpatch : (patch.map Prod.fst).Nodup)
    (hpatch' : (patch'.map Prod.fst).Nodup)
    (h : ∀ old a b, lookup key members = some old → lookup key patch = some a →
      lookup key patch' = some b → (old.merge a).merge b = old.merge (a.merge b)) :
    lookup key (mergeMembers (mergeMembers members patch) patch') =
      lookup key (mergeMembers members (mergeMembers patch patch')) := by
  rw [lookup_mergeMembers hpatch', lookup_mergeMembers hpatch,
    lookup_mergeMembers (nodup_keys_mergeMembers hpatch patch'), lookup_mergeMembers hpatch']
  cases ha : lookup key patch with
  | none => cases lookup key patch' <;> rfl
  | some a =>
    cases hb : lookup key patch' with
    | none => rfl
    | some b =>
      cases hold : lookup key members with
      | none => rfl
      | some old => exact congrArg some (h old a b hold ha hb)

/-- What is no object replaces everything before it. -/
theorem merge_merge_of_isObject_eq_false (hq : q.isObject = false) :
    (value.merge p).merge q = value.merge (p.merge q) := by
  rw [merge_eq_self (.inr hq), merge_eq_self (.inr hq), merge_eq_self (.inr hq)]

/-- Two patches can be made one first if the first one underlies the second one. -/
theorem merge_assoc (hvalue : value.Distinct) (hp : p.Distinct) (hq : q.Distinct)
    (h : p.Underlies q) : (value.merge p).merge q = value.merge (p.merge q) := by
  induction hp generalizing value q with
  | @object patch hpatch hpatchValues ih =>
    cases hq with
    | @object patch' hpatch' hpatchValues' =>
      cases hvalue with
      | @object members hkeys hvalues =>
        simp only [merge]
        refine congrArg Json.object (eq_of_lookup ?_ ?_ fun key => ?_)
        · exact nodup_keys_mergeMembers (nodup_keys_mergeMembers hkeys patch) patch'
        · exact keys_mergeMembers_mergeMembers hpatch hpatch'
        · -- What both patches have under a key can be made one in the same way.
          refine lookup_mergeMembers_mergeMembers hpatch hpatch' fun old a b hold ha hb => ?_
          exact ih _ (mem_of_lookup_eq_some ha) (hvalues _ (mem_of_lookup_eq_some hold))
            (hpatchValues' _ (mem_of_lookup_eq_some hb)) (underlies_object_iff.1 h key a b ha hb)
      | _ => rfl
    | _ => exact merge_merge_of_isObject_eq_false rfl
  | _ =>
    cases hobject : q.isObject with
    | false => exact merge_merge_of_isObject_eq_false hobject
    | true => cases h.isObject hobject

/-- An object with a key of its own, laid under a patch that is an object, comes through. -/
theorem exists_merge_ne (patch : List (String × Json)) :
    ∃ value : Json, value.Distinct ∧ value.merge (.object patch) ≠ .object patch := by
  obtain ⟨own, hown⟩ := Infinite.exists_notMem_finset (patch.map Prod.fst).toFinset
  rw [List.mem_toFinset] at hown
  refine ⟨.object [(own, .null)], ?_, fun heq => ?_⟩
  · exact .object (List.nodup_singleton own) fun member hmem =>
      List.mem_singleton.1 hmem ▸ .null
  · rw [merge] at heq
    have hfound := congrArg (lookup own) (Json.object.inj heq)
    rw [lookup_mergeMembers_of_not_mem hown, lookup_cons, if_pos rfl,
      lookup_eq_none_iff.2 hown] at hfound
    cases hfound

/-- Two patches that can be made one over any value can be made one under each key of both. -/
theorem merge_assoc_below (hpatch : (patch.map Prod.fst).Nodup)
    (hpatch' : (patch'.map Prod.fst).Nodup)
    (h : ∀ value : Json, value.Distinct → (value.merge (.object patch)).merge (.object patch') =
      value.merge ((Json.object patch).merge (.object patch')))
    (hp : lookup key patch = some p) (hq : lookup key patch' = some q) (hvalue : value.Distinct) :
    (value.merge p).merge q = value.merge (p.merge q) := by
  -- The value is put under the key.
  have hunder := h (.object [(key, value)]) <| .object (List.nodup_singleton key)
    fun member hmem => List.mem_singleton.1 hmem ▸ hvalue
  simp only [merge] at hunder
  have hfound := congrArg (lookup key) (Json.object.inj hunder)
  rw [lookup_mergeMembers hpatch', lookup_mergeMembers hpatch,
    lookup_mergeMembers (nodup_keys_mergeMembers hpatch patch'), lookup_mergeMembers hpatch',
    hp, hq, lookup_cons, if_pos rfl] at hfound
  exact Option.some.inj hfound

/-- If two patches can be made one first, whatever they are laid over, then the first one underlies
the second one. -/
theorem underlies_of_merge_assoc (hp : p.Distinct) (hq : q.Distinct)
    (h : ∀ value : Json, value.Distinct → (value.merge p).merge q = value.merge (p.merge q)) :
    p.Underlies q := by
  -- Along the path, the patches under its first key can be made one, too.
  intro path
  induction path generalizing p q with
  | nil =>
    intro a b ha hb hobject
    cases ha
    cases hb
    by_contra hplain
    rw [Bool.not_eq_true] at hplain
    cases q with
    | object patch =>
      obtain ⟨value, hvalue, hne⟩ := exists_merge_ne patch
      have hover := h value hvalue
      -- The first patch erases the value on one side, and is erased itself on the other.
      rw [merge_eq_self (.inr hplain), merge_eq_self (.inl hplain)] at hover
      exact hne hover.symm
    | _ => cases hobject
  | cons key path ih =>
    intro a b ha hb
    obtain ⟨x, hx, hxa⟩ := Option.bind_eq_some_iff.1 ha
    obtain ⟨y, hy, hyb⟩ := Option.bind_eq_some_iff.1 hb
    cases p with
    | object patch =>
      cases q with
      | object patch' =>
        refine ih (hp.of_mem (mem_of_lookup_eq_some hx)) (hq.of_mem (mem_of_lookup_eq_some hy))
          (fun value hvalue => ?_) a b hxa hyb
        exact merge_assoc_below hp.nodup_keys hq.nodup_keys h hx hy hvalue
      | _ => cases hy
    | _ => cases hx

/-- A patch changes nothing the second time. Two patches that are laid over a value in turn are the
same as the second laid over the first, laid over the value: for all values just if the first one
has an object wherever both have something and the second one has an object. -/
theorem merge_in_turn (hp : p.Distinct) (hq : q.Distinct) :
    (∀ value : Json, value.Distinct → (value.merge p).merge p = value.merge p) ∧
      ((∀ value : Json, value.Distinct →
          (value.merge p).merge q = value.merge (p.merge q)) ↔ p.Underlies q) := by
  refine ⟨fun value hvalue => ?_, underlies_of_merge_assoc hp hq, fun h value hvalue => ?_⟩
  · rw [merge_assoc hvalue hp hp (underlies_self p), merge_self hp]
  · exact merge_assoc hvalue hp hq h

/-- Some paddings and a colour. -/
def dressed (paddings : List (String × Json)) (color : String) : Json :=
  .object [("color", .string color), ("padding", .object paddings)]

/-- The paddings of two patches are laid over those of a value in turn. Between them, a patch that
takes all paddings away would make a difference. -/
theorem merge_in_turn_paddings :
    let value := dressed [("top", .bool true)] "red"
    let first := dressed [("left", .bool true)] "blue"
    let second := Json.object [("padding", .object [("left", .null), ("top", .null)])]
    let bare := Json.object [("padding", .null)]
    (value.Distinct ∧ first.Distinct ∧ second.Distinct ∧ bare.Distinct) ∧
      (value.merge first).merge first = value.merge first ∧
      (value.merge first).merge second = value.merge (first.merge second) ∧
      value.merge first = dressed [("top", .bool true), ("left", .bool true)] "blue" ∧
      first.Underlies second ∧ ¬ bare.Underlies second ∧
      ¬ ∀ value : Json, value.Distinct →
        (value.merge bare).merge second = value.merge (bare.merge second) := by
  intro value first second bare
  have hvalue : value.Distinct := by decide +kernel
  have hfirst : first.Distinct := by decide +kernel
  have hsecond : second.Distinct := by decide +kernel
  have hbare : bare.Distinct := by decide +kernel
  have hunder : first.Underlies second := by
    refine underlies_object_iff.2 fun key a b ha hb => ?_
    cases List.mem_singleton.1 (mem_of_lookup_eq_some hb)
    cases ha
    refine underlies_object_iff.2 fun side a b _ hside => ?_
    rcases List.mem_pair.1 (mem_of_lookup_eq_some hside) with heq | heq
    · cases heq
      exact underlies_of_isObject_eq_false rfl
    · cases heq
      exact underlies_of_isObject_eq_false rfl
  have hnot : ¬ bare.Underlies second := fun h =>
    absurd (h ["padding"] _ _ rfl rfl rfl) (by decide)
  obtain ⟨htwice, hturn⟩ := merge_in_turn hfirst hsecond
  have hbetween := (merge_in_turn hbare hsecond).2
  exact ⟨⟨hvalue, hfirst, hsecond, hbare⟩, htwice value hvalue, hturn.2 hunder value hvalue, rfl,
    hunder, hnot, fun h => hnot (hbetween.1 h)⟩

end MailTemplate.Json
