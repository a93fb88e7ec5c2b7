import MailTemplate.Proofs.Json.Distinct
import MailTemplate.Proofs.Storage.Overlay

/-!
# Laying Members over the Defaults

When stored properties do not fit as a whole, their members are laid over the defaults one after the
other, and each time the whole object has to be readable. What comes of it is settled key by key: it
depends on the default and on the entry of that key, not on what was laid over before.

* `Properties.choice` is what is found under a key afterwards.
* `Properties.exists_overlay` says it for one member, `Properties.exists_foldl_overlay` for all.
-/

namespace MailTemplate.Properties

open Json Json.Shape

variable {kind : Kind} {key : String} {value : Json} {members entries : List (String × Json)}

/-- What is found under a key after an entry was laid over the old value: the first form of the
entry that fits, laid over the old value, or else the old value. -/
def choice (kind : Kind) (key : String) (old : Option Json) (entry : Json) : Option Json :=
  (((attempts entry).map (laidOver old)).find? fun laid => fits kind (.object [(key, laid)])).or old

theorem fits_single_iff :
    fits kind (.object [(key, value)]) = true ↔ kind.shape.Takes key value := by
  rw [fits_object_iff, List.forall_mem_singleton]

/-- Whether an object can still be read with one more member depends on its value there alone. -/
theorem fits_merge_single (hkeys : (members.map Prod.fst).Nodup)
    (hfits : fits kind (.object members) = true) (attempt : Json) :
    fits kind ((Json.object members).merge (.object [(key, attempt)])) =
      fits kind (.object [(key, laidOver (lookup key members) attempt)]) := by
  rw [Bool.eq_iff_iff, merge_single, fits_upsert_iff hkeys hfits, fits_single_iff]

/-- One member that is laid over a readable object is settled under its key, and leaves the others
as they are. -/
theorem exists_overlay (hkeys : (members.map Prod.fst).Nodup)
    (hfits : fits kind (.object members) = true) (key : String) (value : Json) :
    ∃ merged, overlay kind (.object members) key value = .object merged ∧
      (merged.map Prod.fst).Nodup ∧ fits kind (.object merged) = true ∧
      ∀ other, lookup other merged =
        if other = key then choice kind key (lookup key members) value
        else lookup other members := by
  -- The first form that fits is looked for in both.
  let fitsOver := fun attempt => fits kind (.object [(key, laidOver (lookup key members) attempt)])
  have hsame : (fits kind ∘ fun attempt => (Json.object members).merge (.object [(key, attempt)])) =
      fitsOver :=
    funext fun attempt => fits_merge_single hkeys hfits attempt
  have hoverlay : overlay kind (.object members) key value =
      (((attempts value).find? fitsOver).map fun attempt =>
        (Json.object members).merge (.object [(key, attempt)])).getD (.object members) := by
    rw [overlay, List.find?_map, hsame]
  have hchoice : choice kind key (lookup key members) value =
      (((attempts value).find? fitsOver).map (laidOver (lookup key members))).or
        (lookup key members) := by
    rw [choice, List.find?_map]
    rfl
  rw [hoverlay, hchoice]
  cases hfound : (attempts value).find? fitsOver with
  | none =>
    refine ⟨members, rfl, hkeys, hfits, fun other => ?_⟩
    by_cases heq : other = key
    · rw [if_pos heq, heq]
      rfl
    · rw [if_neg heq]
  | some attempt =>
    have hfit : fitsOver attempt = true := List.find?_some hfound
    refine ⟨upsert key (laidOver · attempt) members, merge_single members key attempt,
      nodup_keys_upsert hkeys _, ?_, fun other => lookup_upsert _⟩
    rwa [← merge_single, fits_merge_single hkeys hfits]

/-- Entries that are laid over a readable object one after the other are each settled under their
key. -/
theorem exists_foldl_overlay (hkeys : (members.map Prod.fst).Nodup)
    (hfits : fits kind (.object members) = true) (hentries : (entries.map Prod.fst).Nodup) :
    ∃ merged, entries.foldl (fun merged (key, value) => overlay kind merged key value)
        (.object members) = .object merged ∧
      (merged.map Prod.fst).Nodup ∧ fits kind (.object merged) = true ∧
      ∀ key, lookup key merged =
        (lookup key entries).elim (lookup key members) (choice kind key (lookup key members)) := by
  -- The entries have different keys, so none of them finds what another one has left.
  induction entries generalizing members with
  | nil => exact ⟨members, rfl, hkeys, hfits, fun _ => rfl⟩
  | cons entry entries ih =>
    obtain ⟨key, value⟩ := entry
    rw [List.map_cons, List.nodup_cons, ← lookup_eq_none_iff] at hentries
    obtain ⟨first, hfirst, hfirstKeys, hfirstFits, hsettled⟩ :=
      exists_overlay hkeys hfits key value
    obtain ⟨merged, hmerged, hmergedKeys, hmergedFits, hrest⟩ :=
      ih hfirstKeys hfirstFits hentries.2
    refine ⟨merged, ?_, hmergedKeys, hmergedFits, fun other => ?_⟩
    · rw [List.foldl_cons, ← hmerged, ← hfirst]
    · rw [hrest, hsettled, lookup_cons]
      by_cases heq : other = key
      · rw [if_pos heq, if_pos heq, heq, hentries.1]
        rfl
      · rw [if_neg heq, if_neg heq]

end MailTemplate.Properties
