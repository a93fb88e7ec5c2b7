import MailTemplate.Proofs.Component.Orderless
import MailTemplate.Proofs.Storage.Dependence
import MailTemplate.Proofs.Storage.FieldByField
import MailTemplate.Proofs.Storage.RoundTrip

/-!
# Loading in Any Order

A JSON value loads as the same tree whatever the order of the members is, from the records down to
the sides of a padding. Properties that fit as a whole are read member by member, and those that do
not are laid over the defaults, where each key is settled by itself.

* `Properties.ofStored_reordered` says it for properties, `Record.decode_reordered` for a record.
* `Tree.ofJson_reordered` says it for a whole value.
-/

namespace MailTemplate

open Json Json.Codec Json.Shape

namespace Properties

variable {kind : Kind} {key : String} {a b : Json} {old : Option Json}
  {forms forms' : List Json}

theorem distinct_defaults (kind : Kind) : kind.defaults.encode.Distinct := by
  cases kind <;> decide +kernel

theorem laidOver_reordered (hold : ∀ json ∈ old, json.Distinct) (h : Reordered a b)
    (ha : a.Distinct) : Reordered (laidOver old a) (laidOver old b) := by
  cases old with
  | none => exact h
  | some json => exact h.merge (hold json rfl) ha

theorem distinct_laidOver (hold : ∀ json ∈ old, json.Distinct) (ha : a.Distinct) :
    (laidOver old a).Distinct := by
  cases old with
  | none => exact ha
  | some json => exact (hold json rfl).merge ha

/-- An entry is tried in the same forms, but for the order. -/
theorem attempts_reordered (h : Reordered a b) (ha : a.Distinct) :
    List.Forall₂ (fun x y => Reordered x y ∧ x.Distinct) (attempts a) (attempts b) :=
  .cons ⟨h, ha⟩ (.cons ⟨h.saturated _, ha.saturated _⟩ (.cons ⟨h.saturated _, ha.saturated _⟩ .nil))

/-- The first form that fits under a key is the same one, but for the order. -/
theorem find?_fits_reordered (kind : Kind) (key : String)
    (h : List.Forall₂ (fun x y => Reordered x y ∧ x.Distinct) forms forms') :
    Option.Rel Reordered (forms.find? fun laid => fits kind (.object [(key, laid)]))
      (forms'.find? fun laid => fits kind (.object [(key, laid)])) := by
  induction h with
  | nil => exact .none
  | @cons x y _ _ hxy _ ih =>
    have hsingle : (Json.object [(key, x)]).Distinct :=
      .object (List.nodup_singleton key) (List.forall_mem_singleton.2 hxy.2)
    have hfits : fits kind (.object [(key, x)]) = fits kind (.object [(key, y)]) :=
      (kind.respects (hxy.1.value [] [] key) hsingle).isOk_eq
    rw [List.find?_cons, List.find?_cons, hfits]
    split
    · exact .some hxy.1
    · exact ih

/-- What an entry leaves under its key is the same, but for the order. -/
theorem choice_reordered (hold : ∀ json ∈ old, json.Distinct) (h : Reordered a b)
    (ha : a.Distinct) : Option.Rel Reordered (choice kind key old a) (choice kind key old b) := by
  have hlaid : List.Forall₂ (fun x y => Reordered x y ∧ x.Distinct)
      ((attempts a).map (laidOver old)) ((attempts b).map (laidOver old)) := by
    rw [List.forall₂_map_left_iff, List.forall₂_map_right_iff]
    exact (attempts_reordered h ha).imp fun _ _ hxy =>
      ⟨laidOver_reordered hold hxy.1 hxy.2, distinct_laidOver hold hxy.2⟩
  have hfound := find?_fits_reordered kind key hlaid
  unfold choice
  generalize List.find? _ _ = found at hfound ⊢
  generalize List.find? _ _ = found' at hfound ⊢
  cases hfound with
  | none => exact Reordered.rel_refl old
  | some hvalue => exact .some hvalue

/-- What an entry leaves under its key repeats no key. -/
theorem distinct_choice (hold : ∀ json ∈ old, json.Distinct) (ha : a.Distinct) :
    ∀ json ∈ choice kind key old a, json.Distinct := by
  intro json hmem
  rcases Option.or_eq_some_iff.1 hmem with hfound | ⟨-, hkept⟩
  · obtain ⟨attempt, hattempt, rfl⟩ := List.mem_map.1 (List.mem_of_find?_eq_some hfound)
    refine distinct_laidOver hold ?_
    rcases List.mem_cons.1 hattempt with rfl | hattempt
    · exact ha
    · rcases List.mem_pair.1 hattempt with rfl | rfl <;> exact ha.saturated _
  · exact hold json hkept

variable {members members' : List (String × Json)}

/-- Members laid over the defaults in another order leave the same, but for the order. -/
theorem foldl_overlay_reordered (kind : Kind) (ha : (Json.object members).Distinct)
    (hb : (Json.object members').Distinct)
    (hfound : ∀ key, Option.Rel Reordered (lookup key members) (lookup key members')) :
    let laid := members.foldl (fun merged (key, entry) => overlay kind merged key entry)
      kind.defaults.encode
    Reordered laid (members'.foldl (fun merged (key, entry) => overlay kind merged key entry)
      kind.defaults.encode) ∧ laid.Distinct := by
  obtain ⟨merged, hmerged, hkeys, -, hlookup⟩ :=
    exists_foldl_overlay (nodup_defaultMembers kind) (fits_defaults kind) ha.nodup_keys
  obtain ⟨merged', hmerged', hkeys', -, hlookup'⟩ :=
    exists_foldl_overlay (nodup_defaultMembers kind) (fits_defaults kind) hb.nodup_keys
  have hdefaults := distinct_defaults kind
  rw [encode_defaults] at hdefaults ⊢
  have hold : ∀ key, ∀ json ∈ lookup key (defaultMembers kind), json.Distinct :=
    fun key json hmem => hdefaults.of_mem (mem_of_lookup_eq_some hmem)
  have hentry : ∀ {key entry}, lookup key members = some entry → entry.Distinct :=
    fun hmem => ha.of_mem (mem_of_lookup_eq_some hmem)
  dsimp only
  rw [hmerged, hmerged']
  constructor
  · -- Each key is settled by its default and its entry.
    refine .of_lookup hkeys hkeys' fun key => ?_
    have hkey := hfound key
    rw [hlookup, hlookup']
    cases hmem : lookup key members with
    | none =>
      rw [hmem] at hkey
      generalize lookup key members' = found' at hkey ⊢
      cases hkey
      exact Reordered.rel_refl _
    | some entry =>
      rw [hmem] at hkey
      generalize lookup key members' = found' at hkey ⊢
      cases hkey with
      | some hvalue => exact choice_reordered (hold key) hvalue (hentry hmem)
  -- Under each key stands a default, or what its entry leaves, and neither repeats a key.
  · refine .object hkeys fun member hmem => ?_
    have hmember := (lookup_eq_some_iff hkeys).2 hmem
    rw [hlookup] at hmember
    cases hfirst : lookup member.1 members with
    | none =>
      rw [hfirst] at hmember
      exact hold _ _ hmember
    | some entry =>
      rw [hfirst] at hmember
      exact distinct_choice (hold member.1) (hentry hfirst) _ hmember

/-- Properties read the same from values that differ only in the order of members, whether they fit
as a whole or not. -/
theorem ofStored_reordered (kind : Kind) (h : Reordered a b) (ha : a.Distinct) :
    ofStored kind a = ofStored kind b := by
  have hread : Related Eq (decode kind a) (decode kind b) := kind.respects h ha
  have hb := h.distinct ha
  cases h.form ha with
  | same => rfl
  | array => rfl
  | object _ hfound =>
    -- Either both fit as a whole, or the members of both are laid over the defaults.
    simp only [ofStored]
    generalize decode kind _ = read at hread ⊢
    generalize decode kind _ = read' at hread ⊢
    cases hread with
    | ok heq => exact heq
    | error e e' =>
      obtain ⟨hlaid, hdistinct⟩ := foldl_overlay_reordered kind ha hb hfound
      have hread : Related Eq (decode kind _) (decode kind _) := kind.respects hlaid hdistinct
      dsimp only
      generalize decode kind _ = read at hread ⊢
      generalize decode kind _ = read' at hread ⊢
      cases hread with
      | ok heq => exact heq
      | error e e' => rfl

end Properties

/-! ## Records -/

namespace Record

/-- Two drafts make records that load alike. -/
structure Draft.Alike (d e : Draft) : Prop where
  id : d.id = e.id
  kind : d.kind = e.kind
  parent : d.parent = e.parent
  properties : ∀ kind, Properties.ofStored kind (d.properties.getD .null) =
    .ofStored kind (e.properties.getD .null)
  children : d.children = e.children

variable {d e : Draft} {a b : Json}

theorem Draft.Alike.record (h : d.Alike e) (id : NodeId) (kind : String) :
    (d.record id kind).Alike (e.record id kind) :=
  ⟨rfl, h.properties, by rw [Draft.record, Draft.record, h.children]⟩

theorem Draft.Alike.ofMembers (h : d.Alike e) : Related Record.Alike d.ofMembers e.ofMembers := by
  rw [Draft.ofMembers, Draft.ofMembers, ← h.id, ← h.kind]
  cases d.id with
  | none => exact .error _ _
  | some id =>
    cases d.kind with
    | none => exact .error _ _
    | some kind => exact .ok (h.record id kind)

theorem Draft.Alike.ofItems (h : d.Alike e) : Related Record.Alike d.ofItems e.ofItems := by
  rw [Draft.ofItems, Draft.ofItems, ← h.id, ← h.kind]
  cases d.id with
  | none => exact .error _ _
  | some id =>
    cases d.kind with
    | none => exact .error _ _
    | some kind => exact .ok (h.record id kind)

theorem Draft.respects : Draft.shape.codec.Respects Draft.Alike := by
  refine Shape.respects (by simp [shape]) ?_ ⟨rfl, rfl, rfl, fun _ => rfl, rfl⟩
  simp only [shape, List.forall_mem_cons, List.not_mem_nil, false_implies, implies_true, and_true]
  refine ⟨?_, ?_, ?_, ?_, ?_⟩
  · refine Field.respects_of (respects_present respects_string) ?_
    rintro x _ r s rfl h
    exact { h with id := rfl }
  · refine Field.respects_of (respects_present respects_string) ?_
    rintro x _ r s rfl h
    exact { h with kind := rfl }
  · refine Field.respects_of (respects_present (respects_nullable respects_string)) ?_
    rintro x _ r s rfl h
    exact { h with parent := rfl }
  · -- Properties are read by kind, and only then do they not depend on the order.
    refine Field.respects_of
      (S := fun x y => ∀ kind, Properties.ofStored kind (x.getD .null) =
        .ofStored kind (y.getD .null))
      (fun _ _ hab ha => .ok fun kind => Properties.ofStored_reordered kind hab ha) ?_
    intro x y r s hxy h
    exact { h with properties := hxy }
  · refine Field.respects_of
      (respects_present (respects_nullable (respects_list respects_string))) ?_
    rintro x _ r s rfl h
    exact { h with children := rfl }

/-- Records are read from values that differ only in the order of members, and load alike. -/
theorem decode_reordered (h : Reordered a b) (ha : a.Distinct) :
    Related Record.Alike (decode a) (decode b) := by
  refine Related.bind (Draft.respects h ha) fun d e hde => ?_
  cases h.form ha with
  | same =>
    cases a with
    | array => exact hde.ofItems
    | _ => exact hde.ofMembers
  | array => exact hde.ofItems
  | object => exact hde.ofMembers

end Record

namespace Records

variable {members : List (String × Json)}

/-- Records with one more, if the value under its id is a well-formed record. -/
def keep (records : Records) (member : String × Json) : Records :=
  (Record.decode member.2).toOption.elim records (records.insert member.1)

theorem salvage_object (members : List (String × Json)) :
    salvage (.object members) = members.foldl keep ∅ := by
  refine congrArg (fun step => members.foldl step ∅) (funext₂ fun records member => ?_)
  rw [keep]
  dsimp only
  cases Record.decode member.2 <;> rfl

theorem getElem?_keep (records : Records) (key : String) (json : Json) (id : NodeId) :
    (keep records (key, json))[id]? =
      if id = key then (Record.decode json).toOption.or records[id]? else records[id]? := by
  rw [keep]
  cases (Record.decode json).toOption with
  | none => exact (ite_self _).symm
  | some record => exact getElem?_insert_eq records key id record

theorem getElem?_foldl_keep (hkeys : (members.map Prod.fst).Nodup) (records : Records)
    (id : NodeId) :
    (members.foldl keep records)[id]? =
      ((lookup id members).bind fun json => (Record.decode json).toOption).or records[id]? := by
  induction members generalizing records with
  | nil => rfl
  | cons member members ih =>
    obtain ⟨key, json⟩ := member
    rw [List.map_cons, List.nodup_cons, ← lookup_eq_none_iff] at hkeys
    rw [List.foldl_cons, ih hkeys.2, lookup_cons, getElem?_keep]
    -- The key of the first member does not come again, so what it leaves is final.
    by_cases heq : id = key
    · rw [if_pos heq, if_pos heq, heq, hkeys.1]
      rfl
    · rw [if_neg heq, if_neg heq]

/-- Without repeated keys the record of an id is what the value under that id reads as. -/
theorem getElem?_salvage (hkeys : (members.map Prod.fst).Nodup) (id : NodeId) :
    (salvage (.object members))[id]? =
      (lookup id members).bind fun json => (Record.decode json).toOption := by
  rw [salvage_object, getElem?_foldl_keep hkeys, Std.ExtTreeMap.getElem?_empty, Option.or_none]

end Records

/-! ## Trees -/

namespace Tree

variable {a b : Json}

theorem ofJson_eq_of_reordered (h : Reordered a b) (ha : a.Distinct) : ofJson a = ofJson b := by
  have hb := h.distinct ha
  cases h.form ha with
  | same => rfl
  | array => rfl
  | @object members members' _ hfound =>
    refine ofRecords_congr fun id _ => ?_
    rw [Records.getElem?_salvage ha.nodup_keys, Records.getElem?_salvage hb.nodup_keys]
    -- An id has the same record on both sides, up to what loads alike, or none on both.
    have hid := hfound id
    have hmember := fun json (hmem : lookup id members = some json) =>
      ha.of_mem (mem_of_lookup_eq_some hmem)
    generalize lookup id members = found at hid hmember
    generalize lookup id members' = found' at hid
    cases hid with
    | none => exact .none
    | some hvalue =>
      have hread := Record.decode_reordered hvalue (hmember _ rfl)
      rw [Option.bind_some, Option.bind_some]
      generalize Record.decode _ = read at hread ⊢
      generalize Record.decode _ = read' at hread ⊢
      cases hread with
      | ok halike => exact .some halike
      | error e e' => exact .none

/-- A tree that is loaded agrees with itself. -/
theorem agrees_of_ofRecords {records : Records} {loaded : Option Tree}
    (h : ofRecords records = loaded) :
    Option.Rel (fun s t => s.agrees t = true) (ofRecords records) loaded := by
  rw [h]
  cases loaded with
  | none => exact .none
  | some tree => exact .some (agrees_of_nodes_eq rfl (allInRange_ofRecords h))

/-- A value loads as the same tree whatever the order of the members of its objects is, at any
depth, and also when properties do not fit and are laid over the defaults one by one. -/
theorem ofJson_reordered (a b : Json) (h : Reordered a b) (ha : a.Distinct) :
    ofJson a = ofJson b ∧
      Option.Rel (fun s t => s.agrees t = true) (ofJson a) (ofJson b) := by
  have heq := ofJson_eq_of_reordered h ha
  exact ⟨heq, agrees_of_ofRecords heq⟩

/-- A text with a font size that does not fit, and with padding for two sides. -/
def unfitText : Json :=
  .object [
    ("root", .object [("id", .string "root"), ("type", .string "root"),
      ("children", .array [.string "text-1"])]),
    ("text-1", .object [("id", .string "text-1"), ("type", .string "text"),
      ("properties", .object [("fontSize", .string "huge"),
        ("padding", .object [("top", .ofNat 5), ("left", .ofNat 300)])])])]

/-- The same text with its members in another order at each depth. -/
def unfitTextReversed : Json :=
  .object [
    ("text-1", .object [("id", .string "text-1"), ("type", .string "text"),
      ("properties", .object [
        ("padding", .object [("left", .ofNat 300), ("top", .ofNat 5)]),
        ("fontSize", .string "huge")])]),
    ("root", .object [("id", .string "root"), ("type", .string "root"),
      ("children", .array [.string "text-1"])])]

theorem reordered_unfitText : Reordered unfitText unfitTextReversed := by
  refine .trans (.members (.swap _ _ _)) (.value [] _ "text-1" ?_)
  refine .value [("id", .string "text-1"), ("type", .string "text")] [] "properties" ?_
  exact .trans (.members (.swap _ _ _)) (.value [] _ "padding" (.members (.swap _ _ _)))

theorem ofJson_reordered_unfitText :
    Reordered unfitText unfitTextReversed ∧ unfitText.Distinct ∧
      Properties.fits .text (.object [("fontSize", .string "huge"),
        ("padding", .object [("top", .ofNat 5), ("left", .ofNat 300)])]) = false ∧
      (ofJson unfitText).isSome = true ∧ ofJson unfitText = ofJson unfitTextReversed ∧
      Option.Rel (fun s t => s.agrees t = true) (ofJson unfitText)
        (ofJson unfitTextReversed) := by
  have hdistinct : unfitText.Distinct := by decide +kernel
  exact ⟨reordered_unfitText, hdistinct, by decide +kernel, by decide +kernel,
    ofJson_reordered _ _ reordered_unfitText hdistinct⟩

end Tree

end MailTemplate
