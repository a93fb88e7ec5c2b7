import MailTemplate.Proofs.Json.Printing
import MailTemplate.Proofs.Storage.Readers

/-!
# Records Come Back From Their Text

The text of records reads as the records, in either style. This holds for all ids, kinds, parents
and lists of children, and for all properties that repeat no key, whose numbers are whole, and whose
containers leave room for the record and the object of all records around them.

* `Json.Storable` says this of properties.
* `Record.decodeOnce_toJson` and `Records.decodeOnce_toJson` decode what was encoded.
* `Records.ofText_toText` reads what was written.
-/

namespace MailTemplate

open Json

/-- Properties that come back from the text of records. -/
structure Json.Storable (json : Json) : Prop where
  /-- No object has a key twice. -/
  distinct : json.Distinct
  /-- All numbers are whole. -/
  whole : json.Whole
  /-- Two more containers stand around the properties of a record. -/
  depth_le : json.depth ≤ maxDepth - 2

namespace Record

variable {record : Record} {draft : Draft} {limit : Nat}

/-- The value of a member in the JSON form of a record, null for an absent one. -/
def written (record : Record) : Member → Json
  | .id => .string record.id
  | .kind => .string record.kind
  | .parent => Json.ofOption .string record.parent
  | .properties => record.properties
  | .children => Json.ofOption (fun ids => .array (ids.map .string)) record.children

/-- A draft with a member of a record. -/
def Draft.take (draft : Draft) (record : Record) : Member → Draft
  | .id => { draft with id := some record.id }
  | .kind => { draft with kind := some record.kind }
  | .parent => { draft with parent := some record.parent }
  | .properties => { draft with properties := some record.properties }
  | .children => { draft with children := some record.children }

theorem decode_string_ofOption (id : Option NodeId) :
    (Codec.nullable .string).decode (Json.ofOption .string id) = .ok id := by
  cases id <;> rfl

theorem mapM_decode_string (ids : List NodeId) :
    (ids.map Json.string).mapM Codec.string.decode = .ok ids := by
  induction ids with
  | nil => rfl
  | cons id ids ih =>
    rw [List.map_cons, List.mapM_cons, ih]
    rfl

theorem decode_list_ofOption (ids : Option (List NodeId)) :
    (Codec.nullable (.list .string)).decode
      (Json.ofOption (fun ids => .array (ids.map .string)) ids) = .ok ids := by
  cases ids with
  | none => rfl
  | some ids =>
    change some <$> (ids.map Json.string).mapM Codec.string.decode = _
    rw [mapM_decode_string]
    rfl

/-- Each member is read as it was written. -/
theorem toOption_read_written (hdistinct : record.properties.Distinct) (draft : Draft)
    (member : Member) :
    (member.field.read (record.written member).unique draft).toOption =
      some (draft.take record member) := by
  cases member with
  | id => rfl
  | kind => rfl
  | parent =>
    rw [Member.field, toOption_read_present, decode_nullable_unique decode_string_unique, written,
      decode_string_ofOption]
    rfl
  | properties =>
    rw [Member.field, toOption_read_present, written, unique_eq_self hdistinct]
    rfl
  | children =>
    rw [Member.field, toOption_read_present,
      decode_nullable_unique (decode_list_unique decode_string_unique), written,
      decode_list_ofOption]
    rfl

/-- A member that is not there yet is taken into a draft as it was written. -/
theorem keyed_written (hdistinct : record.properties.Distinct) (member : Member)
    (hnew : draft.has member = false) :
    draft.keyed (member.key, record.written member) = some (draft.take record member) := by
  have hfind : Member.all.find? (·.key == member.key) = some member := by cases member <;> rfl
  rw [Draft.keyed, hfind, Option.elim_some, hnew]
  exact toOption_read_written hdistinct draft member

/-- Members that differ and are not there yet are taken into a draft one after the other. -/
theorem foldlM_keyed_written (hdistinct : record.properties.Distinct) {members : List Member}
    (hnodup : members.Nodup) (hnew : ∀ member ∈ members, draft.has member = false) :
    (members.map fun member => (member.key, record.written member)).foldlM Draft.keyed draft =
      some (members.foldl (·.take record ·) draft) := by
  induction members generalizing draft with
  | nil => rfl
  | cons member members ih =>
    rw [List.forall_mem_cons] at hnew
    rw [List.nodup_cons] at hnodup
    have hread := toOption_eq_some_iff.1 (toOption_read_written hdistinct draft member)
    -- The draft has one more member, and none of those that follow.
    have hlater : ∀ other ∈ members, (draft.take record member).has other = false := by
      intro other hmem
      have hne : other ≠ member := fun heq => hnodup.1 (heq ▸ hmem)
      rw [has_of_read hread, decide_eq_false hne, hnew.2 other hmem, Bool.or_false]
    rw [List.map_cons, List.foldlM_cons, keyed_written hdistinct member hnew.1]
    exact ih hnodup.2 hlater

/-- The members of a record that are written: a leaf has no list of children. -/
def present (record : Record) : List Member :=
  if record.children.isSome then Member.all else [.id, .kind, .parent, .properties]

theorem toJson_eq (record : Record) :
    record.toJson =
      .object (record.present.map fun member => (member.key, record.written member)) := by
  obtain ⟨id, kind, parent, properties, children⟩ := record
  cases children <;> rfl

/-- A record is decoded as it was encoded. -/
theorem decodeOnce_toJson (hdistinct : record.properties.Distinct) :
    decodeOnce record.toJson = some record := by
  have hnodup : record.present.Nodup := by
    rw [present]
    split <;> decide
  have hnew : ∀ member ∈ record.present, Draft.has {} member = false := by
    intro member _
    cases member <;> rfl
  rw [toJson_eq, decodeOnce, foldlM_keyed_written hdistinct hnodup hnew, Option.bind_some]
  obtain ⟨id, kind, parent, properties, children⟩ := record
  cases children <;> rfl

theorem whole_written (h : record.properties.Whole) (member : Member) :
    (record.written member).Whole := by
  obtain ⟨id, kind, parent, properties, children⟩ := record
  cases member with
  | id => exact .string id
  | kind => exact .string kind
  | parent =>
    cases parent with
    | none => exact .null
    | some parent => exact .string parent
  | properties => exact h
  | children =>
    cases children with
    | none => exact .null
    | some children => exact .array (List.forall_mem_map.2 fun child _ => .string child)

theorem depth_written_le (h : record.properties.depth ≤ limit) (hlimit : 0 < limit)
    (member : Member) : (record.written member).depth ≤ limit := by
  obtain ⟨id, kind, parent, properties, children⟩ := record
  cases member with
  | id => exact Nat.zero_le limit
  | kind => exact Nat.zero_le limit
  | parent => cases parent <;> exact Nat.zero_le limit
  | properties => exact h
  | children =>
    cases children with
    | none => exact Nat.zero_le limit
    | some children =>
      have hstrings : itemsDepth (children.map .string) ≤ 0 :=
        itemsDepth_le_iff.2 (List.forall_mem_map.2 fun _ _ => Nat.le_refl 0)
      exact Nat.le_trans (Nat.succ_le_succ hstrings) hlimit

theorem whole_toJson (h : record.properties.Whole) : record.toJson.Whole := by
  rw [toJson_eq]
  exact .object (List.forall_mem_map.2 fun member _ => whole_written h member)

theorem depth_toJson_le (h : record.properties.depth ≤ limit) (hlimit : 0 < limit) :
    record.toJson.depth ≤ limit + 1 := by
  rw [toJson_eq]
  refine Nat.succ_le_succ (membersDepth_le_iff.2 ?_)
  exact List.forall_mem_map.2 fun member _ => depth_written_le h hlimit member

end Record

namespace Records

variable {records : Records} {limit : Nat}

/-- Entries are kept one after the other. -/
theorem foldlM_keyed_toJson {entries : List (NodeId × Record)}
    (h : ∀ entry ∈ entries, entry.2.properties.Distinct) (kept : Records) :
    (entries.map fun (id, record) => (id, record.toJson)).foldlM keyed kept =
      some (entries.foldl (fun kept entry => kept.insert entry.1 entry.2) kept) := by
  induction entries generalizing kept with
  | nil => rfl
  | cons entry entries ih =>
    rw [List.forall_mem_cons] at h
    rw [List.map_cons, List.foldlM_cons, keyed, Record.decodeOnce_toJson h.1]
    exact ih h.2 _

/-- Records are decoded as they were encoded. -/
theorem decodeOnce_toJson
    (h : ∀ (id : NodeId) (record : Record), records[id]? = some record →
      record.properties.Distinct) :
    decodeOnce records.toJson = some records := by
  have hentries : ∀ entry ∈ records.toList, entry.2.properties.Distinct :=
    fun _ hmem => h _ _ (mem_toList_iff.1 hmem)
  rw [toJson, decodeOnce, foldlM_keyed_toJson hentries, ← Std.ExtTreeMap.ofList_eq_foldl,
    ofList_toList]

theorem whole_toJson
    (h : ∀ (id : NodeId) (record : Record), records[id]? = some record →
      record.properties.Whole) : records.toJson.Whole :=
  .object (List.forall_mem_map.2 fun _ hmem => Record.whole_toJson (h _ _ (mem_toList_iff.1 hmem)))

theorem depth_toJson_le (hlimit : 0 < limit)
    (h : ∀ (id : NodeId) (record : Record), records[id]? = some record →
      record.properties.depth ≤ limit) : records.toJson.depth ≤ limit + 1 + 1 := by
  refine Nat.succ_le_succ (membersDepth_le_iff.2 (List.forall_mem_map.2 fun _ hmem => ?_))
  exact Record.depth_toJson_le (h _ _ (mem_toList_iff.1 hmem)) hlimit

/-- Records with storable properties come back from their text, without blanks or over several
lines. -/
theorem ofText_toText (records : Records)
    (h : ∀ (id : NodeId) (record : Record), records[id]? = some record →
      record.properties.Storable) (isPretty : Bool) :
    ofText (records.toText isPretty) = .ok records := by
  have hdecoded := decodeOnce_toJson fun id record hget => (h id record hget).distinct
  have hwhole := whole_toJson fun id record hget => (h id record hget).whole
  have hdepth := depth_toJson_le (by decide) fun id record hget => (h id record hget).depth_le
  -- Styles matter only in that all they put around the parts of a container are blanks.
  have hread : ∀ style : Style, (∀ depth, (style depth).Spaced) →
      ofText (String.ofList (chars style 0 records.toJson)) = .ok records := by
    intro style hspaced
    obtain ⟨n, hrun, hrest⟩ := run_readValue_chars hspaced hwhole hdepth
    refine readText_eq_ok_iff.2 ⟨n, ?_, ?_⟩
    · rw [decodes_read hrun, hdecoded, Option.map_some]
    · rw [Cursor.skipBlanks, hrest, Cursor.passWhile]
  cases isPretty with
  | false => exact hread .compact spaced_compact
  | true => exact hread .pretty spaced_pretty

/-- A record whose properties nest, with escapes in its keys and whole numbers at both limits. -/
def nestedRecord : Record where
  id := "a\x01"
  kind := "no kind"
  parent := some ""
  properties := .object [
    ("\"\\", .array [.object [("é😀\n", .number (.integer { value := 18446744073709551615 }))],
      .array [], .object []]),
    ("", .number (.integer { value := -9223372036854775808 }))]

/-- The nested record, which has no list of children, and one with an empty list. -/
def nestedRecords : Records :=
  Std.ExtTreeMap.insert
    (Std.ExtTreeMap.insert ∅ "root" { id := "", kind := "root", children := some [] })
    "text-1" nestedRecord

theorem ofText_toText_nestedRecords :
    (∀ (id : NodeId) (record : Record), nestedRecords[id]? = some record →
      record.properties.Storable) ∧
      ofText (nestedRecords.toText false) = .ok nestedRecords ∧
      ofText (nestedRecords.toText true) = .ok nestedRecords := by
  have hnested : nestedRecord.properties.Storable := by
    have hwhole : nestedRecord.properties.Whole := by simp [nestedRecord, Whole.integer]
    exact ⟨by decide, hwhole, by decide⟩
  have hroot : Json.null.Storable := ⟨.null, .null, by decide⟩
  have h : ∀ (id : NodeId) (record : Record), nestedRecords[id]? = some record →
      record.properties.Storable := by
    intro id record hget
    rw [nestedRecords, getElem?_insert_eq, getElem?_insert_eq] at hget
    split at hget
    · cases hget
      exact hnested
    · split at hget
      · cases hget
        exact hroot
      · exact absurd hget getElem?_empty_ne_some
  exact ⟨h, ofText_toText nestedRecords h false, ofText_toText nestedRecords h true⟩

end Records

end MailTemplate
