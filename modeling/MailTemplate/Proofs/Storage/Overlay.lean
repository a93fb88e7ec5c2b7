import MailTemplate.Proofs.Component.Fields
import MailTemplate.Proofs.Storage.Fallback

/-!
# A Member That Does Not Fit

One stored member that does not fit makes the others be laid over the defaults one by one. Each of
them reads as before, but for a padding: the sides that it leaves out are zero in one case and those
of the default in the other.

* `Properties.Unfit` says that a member fits in none of the forms in which it is tried.
* `Properties.foldl_overlay` says what comes of laying members that fit over the defaults.
* `Properties.ofStored_unfit_iff` says just when such a member changes nothing.
-/

namespace MailTemplate.Properties

open Json Json.Shape

variable {kind : Kind} {key : String} {value : Json}
  {members entries before after : List (String × Json)}

/-- A member fits in none of its forms when it is laid over the defaults. -/
def Unfit (kind : Kind) (key : String) (value : Json) : Prop :=
  ∀ attempt ∈ attempts value,
    fits kind (kind.defaults.encode.merge (.object [(key, attempt)])) = false

instance : Decidable (Unfit kind key value) :=
  inferInstanceAs (Decidable (∀ attempt ∈ attempts value, _ = false))

/-- The members that the defaults of a kind are written as. -/
def defaultMembers (kind : Kind) : List (String × Json) :=
  kind.shape.written kind.defaults

theorem encode_defaults (kind : Kind) : kind.defaults.encode = .object (defaultMembers kind) := by
  rw [encode, kind.kind_defaults]
  rfl

theorem nodup_defaultMembers (kind : Kind) : ((defaultMembers kind).map Prod.fst).Nodup :=
  nodup_written kind.nodup_names kind.defaults

theorem lookup_defaultMembers {field : Shape.Field Properties} (hmem : field ∈ kind.shape.fields) :
    lookup field.name (defaultMembers kind) = some (field.write kind.defaults) :=
  lookup_written kind.nodup_names hmem

theorem fits_defaults (kind : Kind) : fits kind (.object (defaultMembers kind)) = true := by
  have hread := decode_encode (inRange_defaults kind).finite
  rw [kind.kind_defaults, encode_defaults] at hread
  rw [fits, hread]
  rfl

theorem fits_object_iff :
    fits kind (.object members) = true ↔ ∀ member ∈ members, kind.shape.Takes member.1 member.2 :=
  isOk_decode_object_iff

/-! ## Laying one member over others -/

theorem merge_single (members : List (String × Json)) (key : String) (value : Json) :
    (Json.object members).merge (.object [(key, value)]) =
      .object (upsert key (laidOver · value) members) := by
  rw [merge, mergeMembers_cons, mergeMembers]

/-- What a member is laid over may be read afterwards just if the member may be read for its key. -/
theorem fits_upsert_iff (hkeys : (members.map Prod.fst).Nodup)
    (hfits : fits kind (.object members) = true) :
    fits kind (.object (upsert key (laidOver · value) members)) = true ↔
      kind.shape.Takes key (laidOver (lookup key members) value) := by
  rw [fits_object_iff] at hfits ⊢
  constructor
  · intro hall
    refine hall (key, laidOver (lookup key members) value) (mem_of_lookup_eq_some ?_)
    rw [lookup_upsert, if_pos rfl]
  · rintro htakes ⟨other, laid⟩ hmem
    rw [← lookup_eq_some_iff (nodup_keys_upsert hkeys _), lookup_upsert] at hmem
    split at hmem
    case isTrue heq =>
      cases hmem
      exact heq ▸ htakes
    case isFalse => exact hfits _ (mem_of_lookup_eq_some hmem)

theorem overlay_of_takes (hkeys : (members.map Prod.fst).Nodup)
    (hfits : fits kind (.object members) = true)
    (htakes : kind.shape.Takes key (laidOver (lookup key members) value)) :
    overlay kind (.object members) key value = .object (upsert key (laidOver · value) members) := by
  have hfirst := (fits_upsert_iff hkeys hfits).2 htakes
  rw [← merge_single] at hfirst ⊢
  rw [overlay, attempts, List.map_cons, List.find?_cons_of_pos hfirst, Option.getD_some]

theorem overlay_of_not_takes (hkeys : (members.map Prod.fst).Nodup)
    (hfits : fits kind (.object members) = true)
    (hnot : ∀ attempt ∈ attempts value,
      ¬ kind.shape.Takes key (laidOver (lookup key members) attempt)) :
    overlay kind (.object members) key value = .object members := by
  have hnone : ((attempts value).map fun attempt =>
      (Json.object members).merge (.object [(key, attempt)])).find? (fits kind) = none := by
    rw [List.find?_eq_none]
    intro laid hmem hlaid
    obtain ⟨attempt, hattempt, rfl⟩ := List.mem_map.1 hmem
    rw [merge_single] at hlaid
    exact hnot attempt hattempt ((fits_upsert_iff hkeys hfits).1 hlaid)
  rw [overlay, hnone, Option.getD_none]

/-- Entries that fit are laid over members all at once. -/
theorem foldl_overlay (hkeys : (members.map Prod.fst).Nodup)
    (hfits : fits kind (.object members) = true) (hentries : (entries.map Prod.fst).Nodup)
    (htakes : ∀ entry ∈ entries,
      kind.shape.Takes entry.1 (laidOver (lookup entry.1 members) entry.2)) :
    entries.foldl (fun merged (key, value) => overlay kind merged key value) (.object members) =
        .object (mergeMembers members entries) ∧
      fits kind (.object (mergeMembers members entries)) = true := by
  -- Each entry that is laid over the members leaves an object that can be read.
  induction entries generalizing members with
  | nil =>
    rw [mergeMembers]
    exact ⟨rfl, hfits⟩
  | cons entry entries ih =>
    obtain ⟨key, value⟩ := entry
    rw [List.map_cons, List.nodup_cons] at hentries
    rw [List.forall_mem_cons] at htakes
    simp only [List.foldl_cons, overlay_of_takes hkeys hfits htakes.1, mergeMembers_cons]
    refine ih (nodup_keys_upsert hkeys _) ((fits_upsert_iff hkeys hfits).2 htakes.1) hentries.2 ?_
    -- The other entries have other keys.
    intro entry hmem
    have hkey : entry.1 ∈ entries.map Prod.fst := List.mem_map_of_mem hmem
    have hne : entry.1 ≠ key := fun heq => hentries.1 (heq ▸ hkey)
    rw [lookup_upsert, if_neg hne]
    exact htakes.2 entry hmem

/-! ## Laying members over the defaults -/

/-- A value that fits a field also fits if it is laid over the default. -/
theorem takes_over_default (hvalue : value.Distinct) (htakes : kind.shape.Takes key value) :
    kind.shape.Takes key (laidOver (lookup key (defaultMembers kind)) value) := by
  intro field hfield
  obtain ⟨hmem, rfl⟩ := mem_of_field?_eq_some hfield
  rw [lookup_defaultMembers hmem]
  exact Kind.isOk_read_merge_default hmem hvalue (htakes field hfield)

/-- A field is read alike from members by themselves and laid over the defaults just if its member
leaves out no side of a padding that is not zero by default. -/
theorem read_entry_merge_iff {field : Shape.Field Properties}
    (hmembers : (Json.object members).Distinct) (hfits : fits kind (.object members) = true)
    (hmem : field ∈ kind.shape.fields) :
    field.read (kind.shape.entry members field) =
        field.read (kind.shape.entry (mergeMembers (defaultMembers kind) members) field) ↔
      ∀ value, lookup field.name members = some value →
        Covers (field.write kind.defaults) value := by
  rw [entry, entry, lookup_mergeMembers hmembers.nodup_keys, lookup_defaultMembers hmem]
  cases hfound : lookup field.name members with
  | none =>
    -- Without a member the field is read from the default both times.
    exact iff_of_true rfl (by simp)
  | some value =>
    have hmember := mem_of_lookup_eq_some hfound
    have hread := fits_object_iff.1 hfits _ hmember field (field?_of_mem kind.nodup_names hmem)
    refine (Kind.read_merge_default_iff hmem (hmembers.of_mem hmember) hread).trans ?_
    exact ⟨fun hcovers _ heq => Option.some.inj heq ▸ hcovers, fun hall => hall value rfl⟩

/-- Members read alike by themselves and laid over the defaults just if no object among them leaves
out a side of a padding that is not zero by default. -/
theorem decode_merge_defaults_iff (hmembers : (Json.object members).Distinct)
    (hfits : fits kind (.object members) = true)
    (hmerged : fits kind (.object (mergeMembers (defaultMembers kind) members)) = true) :
    decode kind (.object members) =
        decode kind (.object (mergeMembers (defaultMembers kind) members)) ↔
      ∀ member ∈ members, ∀ default, kind.defaults.encode.get? member.1 = some default →
        Covers default member.2 := by
  have hkeys := hmembers.nodup_keys
  have hfields := fun (field : Shape.Field Properties) (hmem : field ∈ kind.shape.fields) =>
    read_entry_merge_iff hmembers hfits hmem
  rw [decode_object_eq_iff hkeys (nodup_keys_mergeMembers (nodup_defaultMembers kind) _) hfits
    hmerged, forall₂_congr hfields, encode_defaults]
  constructor
  · rintro hall ⟨key, value⟩ hmem default hdefault
    obtain ⟨field, hfield, heq⟩ := List.mem_map.1 (mem_of_lookup_eq_some hdefault)
    cases heq
    exact hall field hfield value ((lookup_eq_some_iff hkeys).2 hmem)
  · intro hall field hmem value hfound
    exact hall _ (mem_of_lookup_eq_some hfound) _ (lookup_defaultMembers hmem)

/-! ## One member that does not fit -/

theorem not_takes_of_unfit (hunfit : Unfit kind key value) :
    ∀ attempt ∈ attempts value,
      ¬ kind.shape.Takes key (laidOver (lookup key (defaultMembers kind)) attempt) := by
  intro attempt hmem htakes
  have hnot := hunfit attempt hmem
  rw [encode_defaults, merge_single, (fits_upsert_iff (nodup_defaultMembers kind)
    (fits_defaults kind)).2 htakes] at hnot
  cases hnot

/-- An object with a member that does not fit is not read as a whole. -/
theorem not_fits_of_unfit (hmem : (key, value) ∈ members) (hvalue : value.Distinct)
    (hunfit : Unfit kind key value) : fits kind (.object members) = false := by
  refine Bool.eq_false_iff.2 fun hfits => ?_
  have htakes := fits_object_iff.1 hfits _ hmem
  exact not_takes_of_unfit hunfit value List.mem_cons_self (takes_over_default hvalue htakes)

/-- A member that does not fit is left out when the members are laid over the defaults. -/
theorem foldl_overlay_of_unfit
    (hdistinct : (Json.object (before ++ (key, value) :: after)).Distinct)
    (hfits : fits kind (.object (before ++ after)) = true) (hunfit : Unfit kind key value) :
    (before ++ (key, value) :: after).foldl
        (fun merged (key, value) => overlay kind merged key value) kind.defaults.encode =
        .object (mergeMembers (defaultMembers kind) (before ++ after)) ∧
      fits kind (.object (mergeMembers (defaultMembers kind) (before ++ after))) = true := by
  have hnodup := nodup_defaultMembers kind
  have hgood := hdistinct.sublist ((List.sublist_cons_self (key, value) after).append_left before)
  have hkeys := hdistinct.nodup_keys
  rw [List.map_append, List.map_cons, List.nodup_append, List.nodup_cons] at hkeys
  obtain ⟨hbefore, ⟨-, hafter⟩, hapart⟩ := hkeys
  have htakes : ∀ member ∈ before ++ after,
      kind.shape.Takes member.1 (laidOver (lookup member.1 (defaultMembers kind)) member.2) :=
    fun member hmem =>
      takes_over_default (hgood.of_mem hmem) (fits_object_iff.1 hfits member hmem)
  obtain ⟨hfold, hfirst⟩ := foldl_overlay hnodup (fits_defaults kind) hbefore
    fun member hmem => htakes member (List.mem_append_left after hmem)
  -- The member and those after it have other keys than those before it.
  have hsame : ∀ other ∈ key :: after.map Prod.fst,
      lookup other (mergeMembers (defaultMembers kind) before) =
        lookup other (defaultMembers kind) := by
    intro other hmem
    rw [lookup_mergeMembers hbefore, lookup_eq_none_iff.2 fun h => hapart other h other hmem rfl]
    rfl
  have hmerged := nodup_keys_mergeMembers hnodup before
  rw [encode_defaults, List.foldl_append, hfold, mergeMembers_append, List.foldl_cons]
  dsimp only
  rw [overlay_of_not_takes hmerged hfirst]
  · refine foldl_overlay hmerged hfirst hafter fun member hmem => ?_
    rw [hsame member.1 (List.mem_cons_of_mem key (List.mem_map_of_mem hmem))]
    exact htakes member (List.mem_append_right before hmem)
  · rw [hsame key List.mem_cons_self]
    exact not_takes_of_unfit hunfit

/-- A stored member that does not fit changes nothing just if the other members leave out no side of
a padding that is not zero by default. -/
theorem ofStored_unfit_iff (kind : Kind) (before after : List (String × Json)) (key : String)
    (value : Json) (hdistinct : (Json.object (before ++ (key, value) :: after)).Distinct)
    (hfits : fits kind (.object (before ++ after)) = true) (hunfit : Unfit kind key value) :
    ofStored kind (.object (before ++ (key, value) :: after)) =
        ofStored kind (.object (before ++ after)) ↔
      ∀ member ∈ before ++ after, ∀ default, kind.defaults.encode.get? member.1 = some default →
        Covers default member.2 := by
  have hgood := hdistinct.sublist ((List.sublist_cons_self (key, value) after).append_left before)
  have hmem : (key, value) ∈ before ++ (key, value) :: after :=
    List.mem_append_right before List.mem_cons_self
  have hnot := not_fits_of_unfit hmem (hdistinct.of_mem hmem) hunfit
  obtain ⟨hfold, hmerged⟩ := foldl_overlay_of_unfit hdistinct hfits hunfit
  rw [← decode_merge_defaults_iff hgood hfits hmerged]
  -- One side is read as a whole, the other one from the defaults.
  obtain ⟨properties, hread⟩ := isOk_iff_exists.1 hfits
  obtain ⟨laid, hlaid⟩ := isOk_iff_exists.1 hmerged
  have hdirect : ofStored kind (.object (before ++ after)) = properties := by
    simp only [ofStored, hread]
  have hfallback : ofStored kind (.object (before ++ (key, value) :: after)) = laid := by
    rw [ofStored]
    split
    case h_1 read hok =>
      rw [fits, hok] at hnot
      cases hnot
    case h_2 =>
      simp only [hfold, hlaid]
      rfl
  rw [hdirect, hfallback, hread, hlaid, Except.ok.injEq]
  exact eq_comm

/-- Padding that is stored for the side above alone. -/
def topPadding : Json :=
  .object [("top", .ofNat 5)]

theorem distinct_topPadding :
    (Json.object ([("padding", topPadding)] ++
      ("fontSize", .string "huge") :: [("color", .string "#ff0000")])).Distinct := by
  refine .object (by decide) ?_
  simp only [List.cons_append, List.nil_append, List.forall_mem_cons]
  refine ⟨.object (by decide) ?_, .string _, .string _, List.forall_mem_nil _⟩
  rw [List.forall_mem_cons]
  exact ⟨.number _, List.forall_mem_nil _⟩

theorem ofStored_unfit_iff_topPadding :
    (Json.object ([("padding", topPadding)] ++
        ("fontSize", .string "huge") :: [("color", .string "#ff0000")])).Distinct ∧
      fits .text (.object ([("padding", topPadding)] ++ [("color", .string "#ff0000")])) = true ∧
      Unfit .text "fontSize" (.string "huge") ∧
      (ofStored .text (.object ([("padding", topPadding)] ++
            ("fontSize", .string "huge") :: [("color", .string "#ff0000")])) =
          ofStored .text (.object ([("padding", topPadding)] ++ [("color", .string "#ff0000")])) ↔
        ∀ member ∈ [("padding", topPadding)] ++ [("color", .string "#ff0000")], ∀ default,
          Kind.text.defaults.encode.get? member.1 = some default → Covers default member.2) := by
  have hfits : fits .text (.object ([("padding", topPadding)] ++
      [("color", .string "#ff0000")])) = true := by decide +kernel
  have hunfit : Unfit .text "fontSize" (.string "huge") := by decide +kernel
  exact ⟨distinct_topPadding, hfits, hunfit,
    ofStored_unfit_iff .text _ _ _ _ distinct_topPadding hfits hunfit⟩

/-- A font size that does not fit changes the padding of a text, if one side alone is stored. -/
theorem not_ofStored_unfit :
    ¬ ∀ (kind : Kind) (before after : List (String × Json)) (key : String) (value : Json),
      (Json.object (before ++ (key, value) :: after)).Distinct →
      fits kind (.object (before ++ after)) = true → Unfit kind key value →
      ofStored kind (.object (before ++ (key, value) :: after)) =
        ofStored kind (.object (before ++ after)) := by
  intro hall
  have heq := hall .text [("padding", topPadding)] [("color", .string "#ff0000")] "fontSize"
    (.string "huge") distinct_topPadding (by decide +kernel) (by decide +kernel)
  revert heq
  decide +kernel

end MailTemplate.Properties
