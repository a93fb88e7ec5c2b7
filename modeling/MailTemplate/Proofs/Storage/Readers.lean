import MailTemplate.Proofs.Storage.Orderless
import MailTemplate.Proofs.Storage.Strict

/-!
# Strict and Lenient Reading

A text can be read strictly, record by record, or leniently, as a value of which the well-formed
records are kept. Where both succeed they see the same records: a record that names no member twice
decodes to the same whether or not the last values of its other keys are picked out first, and under
an id the last record counts on both sides.

* `Record.decode_unique` compares the two ways to decode a record.
* `Records.salvage_unique` compares them for all records.
* `Tree.ofText_strict_lenient` says that the trees are the same.
-/

namespace MailTemplate

open Json

variable {json : Json} {members : List (String × Json)}

namespace Record

theorem mem_all (member : Member) : member ∈ Member.all := by
  cases member <;> decide

theorem key_injective {member other : Member} (h : other.key = member.key) : other = member :=
  have hkeys : (Member.all.map Member.key).Nodup := by decide
  List.inj_on_of_nodup_map hkeys (mem_all other) (mem_all member) h

theorem field?_shape (key : String) :
    Draft.shape.field? key = (Member.all.find? (·.key == key)).map Member.field := by
  have hname : ∀ member : Member, member.field.name = member.key := fun member => by
    cases member <;> rfl
  rw [Shape.field?, fields_shape, List.find?_map]
  simp only [Function.comp_def, hname]

theorem has_of_read {member other : Member} {draft draft' : Draft}
    (h : member.field.read json draft = .ok draft') :
    draft'.has other = (decide (other = member) || draft.has other) := by
  cases member <;>
    · obtain ⟨value, hvalue, rfl⟩ := map_eq_ok_iff.1 h
      obtain ⟨_, -, rfl⟩ := map_eq_ok_iff.1 hvalue
      cases other <;> rfl

/-- Members that are taken into a draft have different keys, as far as they are known, and are not
there yet; they are read as members of an object are. -/
theorem readMembers_of_keyed {draft draft' : Draft}
    (h : members.foldlM Draft.keyed draft = some draft') :
    ((members.filter fun m => (Draft.shape.field? m.1).isSome).map Prod.fst).Nodup ∧
      (∀ member : Member, member.key ∈ members.map Prod.fst → draft.has member = false) ∧
      Draft.shape.readMembers draft (uniqueValues members) = .ok draft' := by
  -- A member that was met is not met again, so keys that follow are new to the draft so far.
  induction members generalizing draft with
  | nil =>
    cases h
    exact ⟨List.nodup_nil, fun _ hmem => absurd hmem List.not_mem_nil, rfl⟩
  | cons m members ih =>
    obtain ⟨key, json⟩ := m
    rw [List.foldlM_cons] at h
    obtain ⟨first, hfirst, hrest⟩ := Option.bind_eq_some_iff.1 h
    obtain ⟨hnodup, hfresh, hread⟩ := ih hrest
    rw [Draft.keyed] at hfirst
    rw [uniqueValues]
    cases hfind : Member.all.find? (·.key == key) with
    | none =>
      rw [hfind] at hfirst
      cases hfirst
      have hfield : Draft.shape.field? key = none := by rw [field?_shape, hfind, Option.map_none]
      refine ⟨?_, fun member hmem => ?_, ?_⟩
      · rwa [List.filter_cons_of_neg (by simp [hfield])]
      · rw [List.map_cons, List.mem_cons] at hmem
        rcases hmem with rfl | hmem
        · exact absurd (beq_self_eq_true _) (List.find?_eq_none.1 hfind member (mem_all member))
        · exact hfresh member hmem
      · rwa [Shape.readMembers_cons_of_none hfield]
    | some member =>
      obtain rfl : member.key = key := by simpa using List.find?_some hfind
      rw [hfind] at hfirst
      obtain ⟨hnew, hfirst⟩ : draft.has member = false ∧
          (member.field.read json.unique draft).toOption = some first := by
        cases hhas : draft.has member with
        | true => simp [hhas] at hfirst
        | false => exact ⟨rfl, by simpa [hhas] using hfirst⟩
      have hvalue : member.field.read json.unique draft = .ok first := toOption_eq_some_iff.1 hfirst
      have hfield : Draft.shape.field? member.key = some member.field := by
        rw [field?_shape, hfind, Option.map_some]
      -- What was read is there from then on, so its key does not come again.
      have hlater : member.key ∉ members.map Prod.fst := by
        intro hmem
        have hagain := hfresh member hmem
        rw [has_of_read hvalue, decide_eq_true rfl] at hagain
        cases hagain
      refine ⟨?_, fun other hmem => ?_, ?_⟩
      · rw [List.filter_cons_of_pos (by simp [hfield]), List.map_cons, List.nodup_cons]
        refine ⟨fun hmem => hlater ?_, hnodup⟩
        exact (List.filter_sublist.map Prod.fst).subset hmem
      · rw [List.map_cons, List.mem_cons] at hmem
        rcases hmem with hkey | hmem
        · rwa [key_injective hkey]
        · have hkept := hfresh other hmem
          rw [has_of_read hvalue, Bool.or_eq_false_iff] at hkept
          exact hkept.2
      · rw [Shape.readMembers_cons_of_some hfield, hvalue]
        exact hread

/-- A record that names no member twice decodes to the same as with the last values picked out. -/
theorem decode_unique {record : Record} (h : decodeOnce json = some record) :
    decode json.unique = .ok record := by
  cases json with
  | object members =>
    obtain ⟨draft, hdraft, hrecord⟩ := Option.bind_eq_some_iff.1 h
    obtain ⟨hnodup, -, hread⟩ := readMembers_of_keyed hdraft
    have hkeys : (((uniqueValues members).filter fun m =>
        (Draft.shape.field? m.1).isSome).map Prod.fst).Nodup := by
      rwa [uniqueValues_eq_map, List.filter_map, List.map_map]
    have hdecode :
        Draft.shape.decode (.object (uniqueMembers (uniqueValues members))) = .ok draft := by
      rw [Shape.decode, Shape.readMembers_uniqueMembers _ hkeys]
      exact hread
    rw [unique, decode, hdecode]
    exact toOption_eq_some_iff.1 hrecord
  | _ => exact toOption_eq_some_iff.1 h

end Record

namespace Records

/-- As long as records are what the last values so far decode to, they are so with more members. -/
theorem getElem?_of_keyed {records records' : Records} {kept : List (String × Json)}
    (h : members.foldlM keyed records = some records')
    (hkept : ∀ id, records[id]? =
      (lookup id kept).bind fun json => (Record.decode json).toOption) (id : NodeId) :
    records'[id]? = (lookup id ((uniqueValues members).foldl
      (fun kept m => upsert m.1 (fun _ => m.2) kept) kept)).bind
        fun json => (Record.decode json).toOption := by
  -- Records and last values agree under every id, and a member changes both under its key alone.
  induction members generalizing records kept with
  | nil =>
    cases h
    exact hkept id
  | cons m members ih =>
    obtain ⟨key, json⟩ := m
    rw [List.foldlM_cons] at h
    obtain ⟨first, hfirst, hrest⟩ := Option.bind_eq_some_iff.1 h
    obtain ⟨record, hrecord, rfl⟩ := Option.map_eq_some_iff.1 hfirst
    rw [uniqueValues, List.foldl_cons]
    refine ih hrest fun other => ?_
    rw [getElem?_insert_eq, lookup_upsert, hkept]
    split
    · rw [Option.bind_some, Record.decode_unique hrecord]
      rfl
    · rfl

/-- Records that name no member twice are those that are kept once the last values are picked
out. -/
theorem salvage_unique {records : Records} (h : decodeOnce json = some records) :
    salvage json.unique = records := by
  cases json with
  | object members =>
    -- Under each id both keep what the last value of the id decodes to.
    refine Std.ExtTreeMap.ext_getElem? fun id => ?_
    have hkeys : ((uniqueMembers (uniqueValues members)).map Prod.fst).Nodup :=
      nodup_uniqueMembers _
    rw [unique, getElem?_salvage hkeys, getElem?_of_keyed h fun _ => ?_]
    · rfl
    · rw [Std.ExtTreeMap.getElem?_empty]
      rfl
  | _ => cases h

end Records

namespace Json

variable {α : Type} {reader : Reader α} {text : String} {a : α}

/-- A text is read by a reader that stops at its end, but for blanks. -/
theorem readText_eq_ok_iff :
    readText reader text = .ok a ↔
      ∃ n, reader.run (Cursor.start text) = some (a, n) ∧ n.skipBlanks.rest = [] := by
  rw [readText, bind_eq_ok_iff]
  constructor
  · rintro ⟨s, hread, hend⟩
    dsimp only at hend
    split at hend
    case isTrue hempty =>
      cases hend
      exact ⟨s.next, run_of_ok hread, List.isEmpty_iff.1 hempty⟩
    case isFalse => cases hend
  · rintro ⟨n, hrun, hend⟩
    obtain ⟨s, hread, heq⟩ := outcome_eq_some_iff.1 hrun
    cases heq
    refine ⟨s, hread, ?_⟩
    dsimp only
    rw [hend]
    rfl

end Json

namespace Tree

variable {text : String} {records : Records} {loaded : Option Tree}

theorem ofRecords_eq_of_texts (hstrict : Records.ofText text = .ok records)
    (hlenient : ofText text = .ok loaded) : ofRecords records = loaded := by
  obtain ⟨json, hjson, heq⟩ := bind_eq_ok_iff.1 hlenient
  cases heq
  obtain ⟨raw, hraw, heq⟩ := bind_eq_ok_iff.1 hjson
  cases heq
  obtain ⟨n, hread, -⟩ := readText_eq_ok_iff.1 hraw
  obtain ⟨_, hrecords, -⟩ := readText_eq_ok_iff.1 hstrict
  rw [Records.decodes_read hread] at hrecords
  obtain ⟨_, hdecoded, heq⟩ := Option.map_eq_some_iff.1 hrecords
  cases heq
  rw [ofJson, Records.salvage_unique hdecoded]

/-- Where a text can be read both strictly and leniently, the strict records load as the same tree
as the lenient ones, with repeated keys, records in list form and members of no meaning. -/
theorem ofText_strict_lenient (text : String) (records : Records) (loaded : Option Tree)
    (hstrict : Records.ofText text = .ok records) (hlenient : ofText text = .ok loaded) :
    ofRecords records = loaded ∧
      Option.Rel (fun s t => s.agrees t = true) (ofRecords records) loaded := by
  have heq := ofRecords_eq_of_texts hstrict hlenient
  exact ⟨heq, agrees_of_ofRecords heq⟩

/-- A text with a record in list form that comes twice, a repeated property and unknown members. -/
def looseText : String :=
  "\x7b\"root\": \x7b\"type\": \"root\", \"note\": [1.5], \"children\": [\"a-1\"], " ++
    "\"note\": \"\\ud83d\\ude00\", \"id\": \"root\"\x7d, \"a-1\": [\"a-1\", \"spacer\"], " ++
    "\"a-1\": [\"a-1\", \"text\", null, \x7b\"color\": 7, \"color\": \"#f00\"\x7d]\x7d"

theorem ofText_strict_lenient_looseText :
    ∃ records tree, Records.ofText looseText = .ok records ∧
      ofText looseText = .ok (some tree) ∧ ofRecords records = some tree ∧
        Option.Rel (fun s t => s.agrees t = true) (ofRecords records) (some tree) := by
  have hread : (Records.ofText looseText).isOk = true ∧
      ((ofText looseText).toOption.bind id).isSome = true := by
    decide +kernel
  obtain ⟨records, hstrict⟩ := isOk_iff_exists.1 hread.1
  obtain ⟨tree, htree⟩ := Option.isSome_iff_exists.1 hread.2
  obtain ⟨loaded, hlenient, rfl⟩ := Option.bind_eq_some_iff.1 htree
  have hlenient := toOption_eq_some_iff.1 hlenient
  exact ⟨records, tree, hstrict, hlenient,
    ofText_strict_lenient looseText records _ hstrict hlenient⟩

end Tree

end MailTemplate
