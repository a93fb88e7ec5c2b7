import MailTemplate.Proofs.Json.Distinct
import MailTemplate.Proofs.Json.Skipping
import MailTemplate.Storage.Text

/-!
# Strict Reading as Decoding

Stored text is read strictly by readers of its own, which never make a value of the whole. Wherever
a value can be read, each of them comes to what the value decodes to, and stops where the value
does.

* `Reader.Decodes` says this of a reader, up to a depth of containers.
* `Record.decodeOnce` decodes a record that names no member twice.
* `Records.decodes_read` says what records are read as.
-/

namespace MailTemplate

open Json

variable {α : Type} {c d n : Cursor} {x : Char} {rest : List Char} {depth : Nat} {json : Json}
  {isFirst : Bool}

namespace Json

/-- Where a value can be read, a reader comes to what the value decodes to, at the same place. -/
def Reader.Decodes (reader : Reader α) (depth : Nat) (decode : Json → Option α) : Prop :=
  ∀ ⦃c json n⦄, (readValue depth).run c = some (json, n) → reader.run c = (decode json).map (·, n)

variable {reader : Reader α} {decode : Json → Option α} {items : List Json}
  {members : List (String × Json)}

theorem run_readValue_skipBlanks (depth : Nat) (c : Cursor) :
    (readValue depth).run c.skipBlanks = (readValue depth).run c := by
  rw [run_readValue, run_readValue, skipBlanks_idem]

theorem run_readStringAs (expected : String) (h : c.skipBlanks.rest = '"' :: rest) :
    (readStringAs expected).run c = readString.run c.skipBlanks.step := by
  rw [readStringAs, run_afterBlanks]
  obtain ⟨first, hread, -, hnext⟩ := exists_readChar h
  rw [← hnext]
  simp only [Reader.run, h, hread, ok_bind]
  cases readString first.next <;> rfl

theorem run_readStringAs_of_ne (expected : String) (h : c.skipBlanks.rest = x :: rest)
    (hx : x ≠ '"') : (readStringAs expected).run c = none := by
  rw [readStringAs, run_afterBlanks, Reader.run]
  split
  case h_1 => rfl
  case h_2 hquote =>
    rw [h] at hquote
    cases hquote
    exact absurd rfl hx
  case h_3 => rfl

/-- A string is read where a string stands, and nothing else is. -/
theorem decodes_readStringAs (expected : String) (depth : Nat) :
    (readStringAs expected).Decodes depth fun json => (Codec.string.decode json).toOption := by
  intro c json n hread
  have hform := run_readValue_iff.1 hread
  obtain ⟨x, rest, hrest, hx⟩ := canBegin_of_form hform
  cases json with
  | string s =>
    cases hform with
    | string h hs =>
      rw [run_readStringAs expected h, hs]
      rfl
  | _ => exact run_readStringAs_of_ne expected hrest (ne_of_canBegin hx rfl)

/-- Typed items are read as the items decode. -/
theorem Items.ran_readItems_decoded {item : Reader α} (hitem : item.Decodes depth decode)
    (h : Items (readValue depth) isFirst c items n) :
    ∃ d, Closed ']' d n ∧ ran (readItems item isFirst c) = (items.mapM decode).map (·, d) := by
  induction h with
  | nil h => exact ⟨_, h.skipBlanks, ran_readItems_closed h⟩
  | cons hpart hread _ ih =>
    obtain ⟨d, hclosed, hmore⟩ := ih
    refine ⟨d, hclosed, ?_⟩
    rw [ran_readItems_part hpart, hitem hread, List.mapM_cons]
    cases decode _ with
    | none => rfl
    | some a =>
      rw [Option.map_some, Option.bind_some, hmore]
      cases List.mapM decode _ <;> rfl

/-- A typed list is read as its items decode. -/
theorem run_readList_decoded {item : Reader α} (hitem : item.Decodes depth decode)
    (hopening : c.rest = '[' :: rest) (h : Items (readValue depth) true c.step items n) :
    (readList item).run c = (items.mapM decode).map (·, n) := by
  obtain ⟨d, hclosed, hread⟩ := h.ran_readItems_decoded hitem
  rw [run_readList hopening, hread]
  cases items.mapM decode with
  | none => rfl
  | some xs =>
    rw [Option.map_some, Option.bind_some, reached_closeList hclosed]
    rfl

theorem toOption_mapM {f : Json → Except Mismatch α} (items : List Json) :
    (items.mapM f).toOption = items.mapM fun item => (f item).toOption := by
  induction items with
  | nil => rfl
  | cons item items ih =>
    rw [List.mapM_cons, List.mapM_cons, ← ih]
    cases f item with
    | error e => rfl
    | ok a => cases items.mapM f <;> rfl

end Json

namespace Record

theorem decodes_readId (depth : Nat) :
    readId.Decodes depth fun json => (Codec.string.decode json).toOption :=
  decodes_readStringAs "a string" depth

theorem run_readIds (h : c.skipBlanks.rest = '[' :: rest) :
    readIds.run c = (readList readId).run c.skipBlanks := by
  rw [readIds, run_afterBlanks]
  simp only [Reader.run, h]

theorem run_readIds_of_ne (h : c.skipBlanks.rest = x :: rest) (hx : x ≠ '[') :
    readIds.run c = none := by
  rw [readIds, run_afterBlanks, Reader.run]
  split
  case h_1 => rfl
  case h_2 hopening =>
    rw [h] at hopening
    cases hopening
    exact absurd rfl hx
  case h_3 => rfl

/-- A list of ids is read where a list of strings stands, and nothing else is. -/
theorem decodes_readIds (depth : Nat) :
    readIds.Decodes (depth + 1) fun json => (Codec.string.list.decode json).toOption := by
  intro c json n hread
  have hform := run_readValue_iff.1 hread
  obtain ⟨x, rest, hrest, hx⟩ := canBegin_of_form hform
  cases json with
  | array items =>
    cases hform with
    | array h hitems =>
      rw [run_readIds h, run_readList_decoded (decodes_readId depth) h hitems, ← toOption_mapM]
      rfl
  | _ => exact run_readIds_of_ne hrest (ne_of_canBegin hx rfl)

variable {reader : Reader α} {codec : Codec α}

theorem run_readNullable_null (h : c.skipBlanks.rest = 'n' :: rest)
    (hn : reached (letters ['u', 'l', 'l'] c.skipBlanks.step) = some n) :
    (readNullable reader).run c = some (none, n) := by
  obtain ⟨first, hread, -, hnext⟩ := exists_readChar h
  obtain ⟨d, hd, rfl⟩ := reached_eq_some_iff.1 (hnext ▸ hn)
  rw [readNullable, run_afterBlanks]
  simp only [Reader.run, h, hread, ok_bind, hd]
  rfl

theorem run_readNullable_of_ne (h : c.skipBlanks.rest = x :: rest) (hx : x ≠ 'n') :
    (readNullable reader).run c = (reader.run c.skipBlanks).map fun r => (some r.1, r.2) := by
  rw [readNullable, run_afterBlanks]
  refine run_map ?_
  split
  case h_1 hnull =>
    rw [h] at hnull
    cases hnull
    exact absurd rfl hx
  case h_2 => rfl

/-- A null is read as no value, and all else as the value that it decodes to. -/
theorem decodes_readNullable (h : reader.Decodes depth fun json => (codec.decode json).toOption) :
    (readNullable reader).Decodes depth fun json =>
      ((Codec.nullable codec).decode json).toOption := by
  intro c json n hread
  have hform := run_readValue_iff.1 hread
  obtain ⟨x, rest, hrest, hx⟩ := canBegin_of_form hform
  have hvalue (hne : x ≠ 'n') :
      (readNullable reader).run c = (some <$> codec.decode json).toOption.map (·, n) := by
    rw [run_readNullable_of_ne hrest hne, h (run_readValue_skipBlanks depth c ▸ hread)]
    dsimp only
    cases codec.decode json <;> rfl
  cases json with
  | null =>
    cases hform with
    | null h hn => exact run_readNullable_null h hn
  | _ => exact hvalue (ne_of_canBegin hx rfl)

theorem decodes_readProperties :
    readProperties.Decodes (maxDepth - 2) fun json => some json.unique := by
  intro c json n hread
  have hmap : readProperties.run c = ((readValue (maxDepth - 2)).run c).map fun r =>
      (r.1.unique, r.2) := run_map rfl
  rw [hmap, hread]
  rfl

/-! ## Members of a record -/

/-- A member among the fields of a record. -/
def Member.field : Member → Shape.Field Draft
  | .id => .of "id" (.present .string) Draft.id fun x d => { d with id := x }
  | .kind => .of "type" (.present .string) Draft.kind fun x d => { d with kind := x }
  | .parent =>
    .of "parentId" (.present (.nullable .string)) Draft.parent fun x d => { d with parent := x }
  | .properties =>
    .of "properties" (.present .any) Draft.properties fun x d => { d with properties := x }
  | .children =>
    .of "children" (.present (.nullable (.list .string))) Draft.children
      fun x d => { d with children := x }

theorem fields_shape : Draft.shape.fields = Member.all.map Member.field := rfl

theorem decode_string_unique (json : Json) :
    Codec.string.decode json.unique = Codec.string.decode json := by
  cases json <;> rfl

theorem decode_nullable_unique (h : ∀ json : Json, codec.decode json.unique = codec.decode json)
    (json : Json) :
    (Codec.nullable codec).decode json.unique = (Codec.nullable codec).decode json := by
  cases json with
  | array items => exact congrArg (some <$> ·) (h (.array items))
  | object members => exact congrArg (some <$> ·) (h (.object members))
  | _ => rfl

theorem decode_list_unique (h : ∀ json : Json, codec.decode json.unique = codec.decode json)
    (json : Json) : codec.list.decode json.unique = codec.list.decode json := by
  cases json with
  | array items =>
    change (uniqueItems items).mapM codec.decode = items.mapM codec.decode
    rw [uniqueItems_eq_map, List.mapM_map]
    exact congrArg (items.mapM ·) (funext h)
  | _ => rfl

theorem toOption_read_present {name : String} {get : Draft → Option α}
    {set : Option α → Draft → Draft} (codec : Codec α) (json : Json) (draft : Draft) :
    ((Shape.Field.of name codec.present get set).read json draft).toOption =
      (codec.decode json).toOption.map fun a => set (some a) draft := by
  change ((set · draft) <$> (some <$> codec.decode json)).toOption = _
  cases codec.decode json <;> rfl

/-- A member is read as its field reads the value, of whose repeated keys the last ones count. -/
theorem run_readMember (draft : Draft) (member : Member)
    (h : (readValue (maxDepth - 2)).run c = some (json, n)) :
    Reader.run (draft.readMember member) c =
      (member.field.read json.unique draft).toOption.map (·, n) := by
  -- Each of the readers is followed by setting the member.
  have hmap : ∀ {β : Type} {reader : Reader β} {decode : Json → Option β} {set : β → Draft},
      reader.Decodes (maxDepth - 2) decode →
      (reader.run c).map (fun r => (set r.1, r.2)) = ((decode json).map set).map (·, n) := by
    intro β reader decode set hreader
    rw [hreader h]
    cases decode json <;> rfl
  cases member with
  | id =>
    rw [Member.field, toOption_read_present, decode_string_unique]
    exact (run_map rfl).trans (hmap (decodes_readId _))
  | kind =>
    rw [Member.field, toOption_read_present, decode_string_unique]
    exact (run_map rfl).trans (hmap (decodes_readId _))
  | parent =>
    rw [Member.field, toOption_read_present, decode_nullable_unique decode_string_unique]
    exact (run_map rfl).trans (hmap (decodes_readNullable (decodes_readId _)))
  | properties =>
    rw [Member.field, toOption_read_present]
    exact (run_map rfl).trans (hmap decodes_readProperties)
  | children =>
    rw [Member.field, toOption_read_present,
      decode_nullable_unique (decode_list_unique decode_string_unique)]
    exact (run_map rfl).trans (hmap (decodes_readNullable (decodes_readIds _)))

/-! ## Records in object form -/

/-- A draft with one more member of an object: a known one must not be there yet, and an unknown one
is passed over. -/
def Draft.keyed (draft : Draft) (m : String × Json) : Option Draft :=
  (Member.all.find? (·.key == m.1)).elim (some draft) fun member =>
    if draft.has member then none else (member.field.read m.2.unique draft).toOption

theorem ran_memberValue_map {β : Type} {reader : Reader α} {reader' : Reader β} {f : α → Option β}
    {a : α} (h : ran (memberValue reader c) = some (a, n))
    (hreader : ∀ {c n a}, reader.run c = some (a, n) → reader'.run c = (f a).map (·, n)) :
    ran (memberValue reader' c) = (f a).map (·, n) := by
  obtain ⟨⟨rest, hcolon⟩, hread⟩ := ran_memberValue_iff.1 h
  rw [ran_memberValue hcolon]
  exact hreader hread

theorem ran_readKeyed (draft : Draft) (key : String) (c : Cursor) (json : Json) (n : Cursor)
    (h : ran (memberValue (readValue (maxDepth - 2)) c) = some (json, n)) :
    ran (draft.readKeyed key c) = (draft.keyed (key, json)).map (·, n) := by
  rw [Draft.readKeyed, Draft.keyed]
  split
  case h_1 hnone =>
    -- The key of no member: the value is passed over, whatever it is.
    rw [hnone]
    have hskip : ran (memberValue skipValue c) = some ((), n) :=
      ran_memberValue_map (f := fun _ => some ()) h run_skipValue
    have hkept : ran (memberValue skipValue c >>= fun r => pure (draft, r.2)) =
        (ran (memberValue skipValue c)).map fun r => (draft, r.2) :=
      outcome_bind_pure fun _ => rfl
    refine Eq.trans hkept ?_
    rw [hskip]
    rfl
  case h_2 member hsome =>
    -- The key of a member, which must not be there yet.
    rw [hsome]
    dsimp only [Option.elim]
    split
    case isTrue => rfl
    case isFalse =>
      exact ran_memberValue_map (f := fun json => (member.field.read json.unique draft).toOption) h
        fun hread => run_readMember draft member hread

theorem outcome_finish {β γ : Type} {view : β → γ} {f : Record → Except ReadError β}
    {f' : Record → Option γ} (made : Except Mismatch Record) (c : Cursor)
    (h : ∀ record, outcome view (f record) = f' record) :
    outcome view (finish made c >>= f) = made.toOption.bind f' := by
  cases made with
  | error e => rfl
  | ok record => exact h record

/-- A record in object form is read as its members are taken into a draft one after the other. -/
theorem run_readMembers {members : List (String × Json)} (hopening : c.rest = '{' :: rest)
    (h : Members (readValue (maxDepth - 2)) true c.step members n) :
    readMembers.run c =
      ((members.foldlM Draft.keyed {}).bind fun draft => draft.ofMembers.toOption).map (·, n) := by
  obtain ⟨d, hclosed, hread⟩ := h.ran_readMembers Draft.keyed ran_readKeyed
  have hrun : readMembers.run c =
      (ran (Json.readMembers Draft.readKeyed true {} c.step)).bind fun r =>
        r.1.ofMembers.toOption.bind fun record => (reached (closeObject r.2)).map (record, ·) := by
    refine outcome_readChar_bind (fun _ d =>
      (ran (Json.readMembers Draft.readKeyed true {} d)).bind fun r =>
        r.1.ofMembers.toOption.bind fun record => (reached (closeObject r.2)).map (record, ·))
      hopening fun s => ?_
    refine outcome_bind (fun r : Draft × s.next.Onward => (r.1, r.2.val)) fun r => ?_
    exact outcome_finish _ _ fun _ => outcome_bind_pure fun _ => rfl
  rw [hrun, hread]
  cases members.foldlM Draft.keyed {} with
  | none => rfl
  | some draft =>
    dsimp only [Option.map_some, Option.bind_some]
    cases draft.ofMembers.toOption with
    | none => rfl
    | some record =>
      rw [Option.bind_some, reached_closeObject hclosed]
      rfl

/-! ## Records in list form -/

theorem reached_closeList_part (h : PartAt ']' isFirst c d) : reached (closeList c) = none := by
  cases h with
  | first h hx =>
    simp only [reached, closeList, Cursor.blanks, h]
    split
    case h_1 => rfl
    case h_2 hclosing =>
      cases hclosing
      exact absurd rfl hx
    case h_3 => split <;> rfl
    case h_4 => rfl
  | next hcomma h hx =>
    simp only [reached, closeList, Cursor.blanks, hcomma]
    split <;> rfl

theorem ran_readItems_nil (draft : Draft) (isFirst : Bool) (c : Cursor) :
    ran (Draft.readItems draft isFirst [] c) = some (draft, c) := rfl

theorem ran_readItems_end (h : Closed ']' c n) (draft : Draft) (member : Member)
    (members : List Member) :
    ran (Draft.readItems draft isFirst (member :: members) c) = some (draft, c.skipBlanks) := by
  obtain ⟨d, hnext, heq⟩ := ran_eq_some_iff.1 (ran_nextItem_closed isFirst h)
  rw [Draft.readItems, hnext, ← heq]
  rfl

theorem ran_readItems_item (h : PartAt ']' isFirst c d) (draft : Draft) (member : Member)
    (members : List Member) :
    ran (Draft.readItems draft isFirst (member :: members) c) =
      (Reader.run (draft.readMember member) d).bind fun r =>
        ran (Draft.readItems r.1 false members r.2) := by
  obtain ⟨d, hnext, rfl⟩ := ran_eq_some_iff.1 (ran_nextItem_part h)
  rw [Draft.readItems, hnext, ok_bind]
  refine outcome_bind Step.reading fun s => ?_
  dsimp only
  rw [Step.reading]
  cases s.value.readItems false members s.next <;> rfl

variable {items : List Json}

/-- The items of a record in list form are read into its members in order, and its list is closed if
no item is left. -/
theorem ran_readItems (h : Items (readValue (maxDepth - 2)) isFirst c items n) (draft : Draft)
    (members : List Member) :
    ((ran (Draft.readItems draft isFirst members c)).bind fun r =>
        (reached (closeList r.2)).map fun n => (r.1, n)) =
      (Shape.readItems draft (members.map Member.field) (items.map unique)).toOption.bind fun r =>
        if r.2 then none else some (r.1, n) := by
  -- Members without an item are left out, but items without a member are an error.
  induction h generalizing draft members with
  | nil h =>
    cases members with
    | nil =>
      rw [ran_readItems_nil, Option.bind_some, reached_closeList h]
      rfl
    | cons member members =>
      rw [ran_readItems_end h, Option.bind_some, reached_closeList h.skipBlanks]
      rfl
  | cons hpart hread _ ih =>
    cases members with
    | nil =>
      rw [ran_readItems_nil, Option.bind_some, reached_closeList_part hpart]
      rfl
    | cons member members =>
      rw [ran_readItems_item hpart, run_readMember draft member hread, List.map_cons, List.map_cons,
        Shape.readItems]
      cases member.field.read _ draft with
      | error e => rfl
      | ok draft => exact ih draft members

theorem toOption_decode_array (items : List Json) :
    (decode (.array items)).toOption =
      (Shape.readItems {} Draft.shape.fields items).toOption.bind fun r =>
        if r.2 then none else r.1.ofItems.toOption := by
  change (Shape.decode Draft.shape (.array items) >>= fun draft => draft.ofItems).toOption = _
  rw [Shape.decode]
  change ((Shape.readItems {} Draft.shape.fields items >>= _) >>= _).toOption = _
  cases Shape.readItems {} Draft.shape.fields items with
  | error e => rfl
  | ok r =>
    obtain ⟨draft, more⟩ := r
    cases more <;> rfl

/-- A record in list form is read as its items are decoded. -/
theorem run_readItems (hopening : c.rest = '[' :: rest)
    (h : Items (readValue (maxDepth - 2)) true c.step items n) :
    readItems.run c = (decode (.array (items.map unique))).toOption.map (·, n) := by
  have hrun : readItems.run c =
      (ran (Draft.readItems {} true Member.all c.step)).bind fun r =>
        r.1.ofItems.toOption.bind fun record => (reached (closeList r.2)).map (record, ·) := by
    refine outcome_readChar_bind (fun _ d =>
      (ran (Draft.readItems {} true Member.all d)).bind fun r =>
        r.1.ofItems.toOption.bind fun record => (reached (closeList r.2)).map (record, ·))
      hopening fun s => ?_
    refine outcome_bind (fun r : Draft × s.next.Onward => (r.1, r.2.val)) fun r => ?_
    exact outcome_finish _ _ fun _ => outcome_bind_pure fun _ => rfl
  -- Whether the list is closed does not depend on what its draft makes.
  have hswap : readItems.run c =
      ((ran (Draft.readItems {} true Member.all c.step)).bind fun r =>
        (reached (closeList r.2)).map fun n => (r.1, n)).bind fun r =>
          r.1.ofItems.toOption.map (·, r.2) := by
    rw [hrun]
    cases ran (Draft.readItems {} true Member.all c.step) with
    | none => rfl
    | some r =>
      obtain ⟨draft, d⟩ := r
      dsimp only [Option.bind_some]
      cases reached (closeList d) with
      | none => cases draft.ofItems.toOption <;> rfl
      | some n =>
        dsimp only [Option.map_some, Option.bind_some]
        cases draft.ofItems.toOption <;> rfl
  rw [hswap, ran_readItems h, toOption_decode_array, fields_shape]
  cases Shape.readItems _ _ _ with
  | error e => rfl
  | ok r =>
    obtain ⟨draft, more⟩ := r
    cases more <;> rfl

/-! ## Records -/

/-- Decodes a record that names no member twice, as text has to. -/
def decodeOnce : Json → Option Record
  | .object members => (members.foldlM Draft.keyed {}).bind fun draft => draft.ofMembers.toOption
  | json => (decode json.unique).toOption

theorem run_readRecordAs_object {object list : Reader α} (expected : String)
    (h : c.skipBlanks.rest = '{' :: rest) :
    (readRecordAs expected object list).run c = object.run c.skipBlanks := by
  rw [readRecordAs, run_afterBlanks]
  simp only [Reader.run, h]

theorem run_readRecordAs_list {object list : Reader α} (expected : String)
    (h : c.skipBlanks.rest = '[' :: rest) :
    (readRecordAs expected object list).run c = list.run c.skipBlanks := by
  rw [readRecordAs, run_afterBlanks]
  simp only [Reader.run, h]

theorem run_readRecordAs_of_ne {object list : Reader α} (expected : String)
    (h : c.skipBlanks.rest = x :: rest) (hbrace : x ≠ '{') (hbracket : x ≠ '[') :
    (readRecordAs expected object list).run c = none := by
  rw [readRecordAs, run_afterBlanks, Reader.run]
  split
  case h_1 => rfl
  case h_2 hopening =>
    rw [h] at hopening
    cases hopening
    exact absurd rfl hbrace
  case h_3 hopening =>
    rw [h] at hopening
    cases hopening
    exact absurd rfl hbracket
  case h_4 => rfl

/-- A record is read as it decodes. -/
theorem decodes_read : read.Decodes (maxDepth - 2 + 1) decodeOnce := by
  intro c json n hread
  have hform := run_readValue_iff.1 hread
  obtain ⟨x, rest, hrest, hx⟩ := canBegin_of_form hform
  -- Anything but a list or an object fails at its first character, and decodes to nothing.
  cases json with
  | object members =>
    cases hform with
    | object h hmembers =>
      rw [read, run_readRecordAs_object _ h, run_readMembers h hmembers]
      rfl
  | array items =>
    cases hform with
    | array h hitems =>
      rw [read, run_readRecordAs_list _ h, run_readItems h hitems, decodeOnce, unique,
        uniqueItems_eq_map]
      exact fun _ heq => by cases heq
  | _ => exact run_readRecordAs_of_ne _ hrest (ne_of_canBegin hx rfl) (ne_of_canBegin hx rfl)

end Record

namespace Records

/-- Records with one more under its key. -/
def keyed (records : Records) (m : String × Json) : Option Records :=
  (Record.decodeOnce m.2).map (records.insert m.1)

/-- Decodes records, of which none names a member twice; of two under one id the last counts. -/
def decodeOnce : Json → Option Records
  | .object members => members.foldlM keyed ∅
  | _ => none

/-- Reads a record and keeps it under its key. -/
def readKeyed (records : Records) (id : String) (c : Cursor) :
    Except ReadError (Records × c.Onward) := do
  let (record, d) ← memberValue Record.read c
  return (records.insert id record, d)

theorem ran_readKeyed (records : Records) (id : String) (c : Cursor) (json : Json) (n : Cursor)
    (h : ran (memberValue (readValue (maxDepth - 2 + 1)) c) = some (json, n)) :
    ran (readKeyed records id c) = (records.keyed (id, json)).map (·, n) := by
  have hread : ran (readKeyed records id c) =
      (ran (memberValue Record.read c)).map fun r => (records.insert id r.1, r.2) :=
    outcome_bind_pure fun _ => rfl
  rw [hread, keyed, Record.ran_memberValue_map h fun hread => Record.decodes_read hread]
  cases Record.decodeOnce json <;> rfl

theorem run_read_object (h : c.skipBlanks.rest = '{' :: rest) :
    read.run c = (readObject readKeyed ∅).run c.skipBlanks := by
  rw [read, run_afterBlanks]
  simp only [Reader.run, h]
  rfl

theorem run_read_of_ne (h : c.skipBlanks.rest = x :: rest) (hx : x ≠ '{') : read.run c = none := by
  rw [read, run_afterBlanks, Reader.run]
  split
  case h_1 => rfl
  case h_2 hopening =>
    rw [h] at hopening
    cases hopening
    exact absurd rfl hx
  case h_3 => rfl

/-- Where a value can be read, records are read as they decode. -/
theorem decodes_read : read.Decodes (maxDepth - 2 + 1 + 1) decodeOnce := by
  intro c json n hread
  have hform := run_readValue_iff.1 hread
  obtain ⟨x, rest, hrest, hx⟩ := canBegin_of_form hform
  cases json with
  | object members =>
    cases hform with
    | object h hmembers =>
      obtain ⟨d, hclosed, hran⟩ := hmembers.ran_readMembers _ ran_readKeyed
      rw [run_read_object h, run_readObject h, hran, decodeOnce]
      cases List.foldlM keyed ∅ _ with
      | none => rfl
      | some records =>
        rw [Option.map_some, Option.bind_some, reached_closeObject hclosed]
        rfl
  | _ => exact run_read_of_ne hrest (ne_of_canBegin hx rfl)

end Records

end MailTemplate
