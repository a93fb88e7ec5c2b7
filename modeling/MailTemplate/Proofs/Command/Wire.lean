import MailTemplate.Command.Wire
import MailTemplate.Proofs.Json.Distinct
import MailTemplate.Proofs.Json.Orderless

/-!
# Commands Come Back From Their JSON Form

A command reads as itself from the value that it is written as. The members of that value may stand
in any order and among others that mean nothing to the command, and the name with all arguments may
also stand in a list.

* `Operation.readMembers_eq` reads arguments as the members of a record.
* `Command.command_reread_fields` and `Command.command_reread_written` read what was written, with
  an absent index as null and without it.
* `Command.decode_object_of_perm` and `Command.decode_items` read the two forms.
* `Command.decode_written` puts them together.
-/

namespace MailTemplate

open Json Json.Codec Json.Shape

/-- If all members of a key have the same value, it is found under the key. -/
theorem Json.lookup_eq_some_of_forall {key : String} {value : Json}
    {members : List (String × Json)} (hmem : (key, value) ∈ members)
    (hall : ∀ m ∈ members, m.1 = key → m.2 = value) : lookup key members = some value := by
  cases hfound : lookup key members with
  | none => exact absurd (List.mem_map_of_mem hmem) (lookup_eq_none_iff.1 hfound)
  | some found => exact congrArg some (hall _ (mem_of_lookup_eq_some hfound) rfl)

/-! ## Arguments one by one -/

namespace Json

variable {α ρ : Type} {codec : Codec α}

/-- A value that comes back counts as present. -/
theorem Codec.present_restores {a : α} (h : codec.Restores a) :
    codec.present.Restores (some a) := by
  rw [Restores] at h ⊢
  exact congrArg (some <$> ·) h

/-- An optional value that would be left out if it is absent can also stand there as null. -/
theorem Codec.decode_present_nullable (h : codec.Lawful) (hnull : ∀ a, codec.encode a ≠ .null)
    (value : Option α) :
    codec.nullable.present.decode (codec.nullable.present.encode (value.map some)) =
      .ok (some value) := by
  cases value with
  | none => rfl
  | some a => exact present_restores (nullable_lawful h hnull (some a))

/-- Written items are read as the fields one after the other, and none is left. -/
theorem Shape.readItems_written (record start : ρ) (fields : List (Field ρ)) :
    readItems start fields (fields.map fun field => field.write record) =
      (·, false) <$>
        fields.foldlM (fun read field => field.read (field.write record) read) start := by
  induction fields generalizing start with
  | nil => rfl
  | cons field fields ih =>
    rw [List.map_cons, readItems, List.foldlM_cons]
    cases field.read (field.write record) start with
    | error mismatch => rfl
    | ok read => exact ih read

end Json

namespace Arguments

@[simp]
theorem kindCodec_lawful : kindCodec.Lawful :=
  fun kind => named_restores (by cases kind <;> rfl)

/-- A patch that repeats no key comes back. -/
theorem patchCodec_restores {patch : List (String × Json)} (h : (Json.object patch).Distinct) :
    patchCodec.Restores patch := by
  have hsame : uniqueMembers (uniqueValues patch) = patch := by
    have hunique := unique_eq_self h
    rw [unique] at hunique
    exact Json.object.inj hunique
  exact congrArg Except.ok hsame

end Arguments

namespace Operation

variable {op : Operation} {members : List (String × Json)}

theorem ofName_name (op : Operation) : ofName op.name = .ok op := by
  cases op <;> rfl

theorem required_le (op : Operation) : op.required ≤ op.fields.length := by
  cases op <;> decide

theorem nodup_fields (op : Operation) : (op.fields.map Field.name).Nodup := by
  cases op <;> decide

/-- No argument has the key of the name. -/
theorem op_not_mem_fields (op : Operation) : "op" ∉ op.fields.map Field.name := by
  cases op <;> decide

theorem isSome_field?_iff {key : String} :
    (op.shape.field? key).isSome = true ↔ key ∈ op.fields.map Field.name := by
  rw [Shape.field?, List.find?_isSome, List.mem_map]
  simp only [beq_iff_eq, shape]

/-- The arguments may be read in any order. -/
theorem commutes_fields (op : Operation) :
    ∀ field ∈ op.shape.fields, ∀ other ∈ op.shape.fields, field.name ≠ other.name →
      field.Commutes other := by
  cases op <;> simp [shape, fields, Arguments.kindField, Arguments.parentField,
    Arguments.indexField, Arguments.idField, Arguments.patchField, Arguments.oldIndexField,
    Arguments.newIndexField, Arguments.targetField, Arguments.targetIndexField,
    Arguments.countField]

/-- If no argument is given twice, arguments are read as the members of a record. -/
theorem readMembers_eq (seen : List String) (a : Arguments)
    (hkeys : ((members.filter fun m => (op.shape.field? m.1).isSome).map Prod.fst).Nodup)
    (hseen : ∀ m ∈ members, (op.shape.field? m.1).isSome = true → m.1 ∉ seen) :
    op.readMembers seen a members = op.shape.readMembers a members := by
  induction members generalizing seen a with
  | nil => rfl
  | cons member members ih =>
    obtain ⟨key, value⟩ := member
    rw [List.forall_mem_cons] at hseen
    cases hfield : op.shape.field? key with
    | none =>
      rw [List.filter_cons_of_neg (by simp [hfield])] at hkeys
      rw [readMembers, hfield, readMembers_cons_of_none hfield]
      exact ih seen a hkeys hseen.2
    | some field =>
      rw [List.filter_cons_of_pos (by simp [hfield]), List.map_cons, List.nodup_cons] at hkeys
      rw [readMembers, hfield, readMembers_cons_of_some hfield]
      dsimp only
      rw [if_neg (hseen.1 (by simp [hfield]))]
      refine congrArg (_ >>= ·) (funext fun read => ih (key :: seen) read hkeys.2 ?_)
      -- What was just read does not come again.
      intro m hmem hsome hseen'
      rcases List.mem_cons.1 hseen' with heq | hold
      · exact hkeys.1 (List.mem_map.2 ⟨m, List.mem_filter.2 ⟨hmem, hsome⟩, heq⟩)
      · exact hseen.2 m hmem hsome hold

end Operation

namespace Command

/-- The patch of the command, if it has one, repeats no key. -/
def Distinct : Command → Prop
  | .updateComponent _ patch => (Json.object patch).Distinct
  | _ => True

/-- The members that the command is written as: its name and its arguments. -/
def members (command : Command) : List (String × Json) :=
  ("op", .string command.operation.name) :: command.encodeArguments

/-- The list form of the command: its name and all its arguments in order. -/
def items (command : Command) : List Json :=
  .string command.operation.name ::
    command.operation.fields.map fun field => field.write command.arguments

/-- The arguments that written fields are read as. -/
def reread (command : Command) (fields : List (Shape.Field Arguments)) :
    Except Mismatch Arguments :=
  fields.foldlM (fun read field => field.read (field.write command.arguments) read) {}

variable {command : Command}

/-! ## Reading what was written -/

/-- The command comes back from all its fields; an absent index is among them as null. -/
theorem command_reread_fields (h : command.Distinct) :
    command.reread command.operation.fields >>= command.operation.command = .ok command := by
  have hkind (kind : Kind) := present_restores (Arguments.kindCodec_lawful kind)
  have htext (text : String) := present_restores (string_lawful text)
  have hword (n : UInt64) := present_restores (uint64_lawful n)
  have hcount (n : Int64) := present_restores (int64_lawful n)
  have hword? := decode_present_nullable uint64_lawful fun _ heq => nomatch heq
  have hcount? := decode_present_nullable int64_lawful fun _ heq => nomatch heq
  unfold Restores at hkind htext hword hcount
  unfold reread
  cases command with
  | addComponent kind parent index =>
    simp only [operation, Operation.fields, Arguments.kindField, Arguments.parentField,
      Arguments.indexField, arguments, Field.of, List.foldlM_cons, List.foldlM_nil, hkind, htext,
      hword?, Except.map_ok, ok_bind]
    rfl
  | removeComponent id =>
    simp only [operation, Operation.fields, Arguments.idField, arguments, Field.of,
      List.foldlM_cons, List.foldlM_nil, htext, Except.map_ok, ok_bind]
    rfl
  | updateComponent id patch =>
    have hpatch := present_restores (Arguments.patchCodec_restores h)
    unfold Restores at hpatch
    simp only [operation, Operation.fields, Arguments.idField, Arguments.patchField, arguments,
      Field.of, List.foldlM_cons, List.foldlM_nil, htext, hpatch, Except.map_ok, ok_bind]
    rfl
  | reorderComponents parent oldIndex newIndex =>
    simp only [operation, Operation.fields, Arguments.parentField, Arguments.oldIndexField,
      Arguments.newIndexField, arguments, Field.of, List.foldlM_cons, List.foldlM_nil, htext, hword,
      Except.map_ok, ok_bind]
    rfl
  | moveComponent id target index =>
    simp only [operation, Operation.fields, Arguments.idField, Arguments.targetField,
      Arguments.targetIndexField, arguments, Field.of, List.foldlM_cons, List.foldlM_nil, htext,
      hcount?, Except.map_ok, ok_bind]
    rfl
  | setColumnsCount id count =>
    simp only [operation, Operation.fields, Arguments.idField, Arguments.countField, arguments,
      Field.of, List.foldlM_cons, List.foldlM_nil, htext, hcount, Except.map_ok, ok_bind]
    rfl

/-- The command comes back from the fields that are not null. -/
theorem command_reread_written (h : command.Distinct) :
    command.reread (command.operation.fields.filter fun field =>
        !isNull (field.write command.arguments)) >>= command.operation.command = .ok command := by
  have hkind (kind : Kind) := present_restores (Arguments.kindCodec_lawful kind)
  have htext (text : String) := present_restores (string_lawful text)
  unfold Restores at hkind htext
  have hall := command_reread_fields h
  -- Only an index can be missing, and it is the last field.
  cases command with
  | addComponent kind parent index =>
    cases index with
    | none =>
      change reread _ [Arguments.kindField, Arguments.parentField] >>= _ = _
      simp only [reread, Arguments.kindField, Arguments.parentField, arguments, Field.of,
        List.foldlM_cons, List.foldlM_nil, hkind, htext, Except.map_ok, ok_bind]
      rfl
    | some index => exact hall
  | moveComponent id target index =>
    cases index with
    | none =>
      change reread _ [Arguments.idField, Arguments.targetField] >>= _ = _
      simp only [reread, Arguments.idField, Arguments.targetField, arguments, Field.of,
        List.foldlM_cons, List.foldlM_nil, htext, Except.map_ok, ok_bind]
      rfl
    | some index => exact hall
  | _ => exact hall

theorem map_fst_encodeArguments_sublist (command : Command) :
    (command.encodeArguments.map Prod.fst).Sublist (command.operation.fields.map Field.name) := by
  have hmap : command.encodeArguments.map Prod.fst =
      (command.operation.fields.filter fun field => !isNull (field.write command.arguments)).map
        Field.name := by
    rw [encodeArguments, List.filter_map, List.map_map]
    rfl
  rw [hmap]
  exact List.filter_sublist.map _

/-- The arguments as written are those fields of the command that are not null. -/
theorem readMembers_encodeArguments (command : Command) :
    command.operation.shape.readMembers {} command.encodeArguments =
      command.reread (command.operation.fields.filter fun field =>
        !isNull (field.write command.arguments)) := by
  rw [encodeArguments, List.filter_map]
  exact Shape.readMembers_written command.operation.nodup_fields command.arguments {} fun _ hmem =>
    List.mem_of_mem_filter hmem

/-- The arguments may stand in any order and among members that no field is named after. -/
theorem ofMembers_of_perm (h : command.Distinct) {extra members : List (String × Json)}
    (hextra : ∀ m ∈ extra, m.1 ∉ command.operation.fields.map Field.name)
    (hperm : members.Perm (command.encodeArguments ++ extra)) :
    command.operation.ofMembers members = .ok command := by
  have hkeys : (command.encodeArguments.map Prod.fst).Nodup :=
    command.operation.nodup_fields.sublist command.map_fst_encodeArguments_sublist
  have hfields : (members.filter fun m => (command.operation.shape.field? m.1).isSome).Perm
      command.encodeArguments := by
    refine (hperm.filter _).trans (List.Perm.of_eq ?_)
    rw [List.filter_append, List.filter_eq_self.2, List.filter_eq_nil_iff.2, List.append_nil]
    · intro m hmem
      rw [Operation.isSome_field?_iff]
      exact hextra m hmem
    · intro m hmem
      rw [Operation.isSome_field?_iff]
      exact command.map_fst_encodeArguments_sublist.subset (List.mem_map_of_mem hmem)
  have hkeys' := (hfields.map Prod.fst).nodup_iff.2 hkeys
  -- Only members that a field is named after are read, and in any order.
  have hread : Related Eq (command.operation.readMembers [] {} members)
      (command.operation.shape.readMembers {} command.encodeArguments) := by
    rw [Operation.readMembers_eq [] {} hkeys' fun _ _ _ => List.not_mem_nil,
      ← Shape.readMembers_filter]
    exact Shape.readMembers_perm command.operation.commutes_fields hfields hkeys' {}
  rw [readMembers_encodeArguments] at hread
  obtain ⟨a, hwritten, hcommand⟩ := bind_eq_ok_iff.1 (command_reread_written h)
  rw [hwritten] at hread
  rw [Operation.ofMembers, hread.eq_ok]
  exact hcommand

/-- All fields of the command, with an absent index as null, are read as the command. -/
theorem ofItems_fields (h : command.Distinct) :
    command.operation.ofItems (command.operation.fields.map fun field =>
      field.write command.arguments) = .ok command := by
  obtain ⟨a, hread, hcommand⟩ := bind_eq_ok_iff.1 (command_reread_fields h)
  have hcount := Nat.not_lt.2 command.operation.required_le
  rw [reread] at hread
  rw [Operation.ofItems, readItems_written, hread, List.length_map]
  simp only [Except.map_ok, ok_bind, if_neg hcount]
  exact hcommand

/-! ## The two forms -/

/-- A command is read from its members in any order and among others, whatever these hold. -/
theorem decode_object_of_perm (h : command.Distinct) {extra members : List (String × Json)}
    (hextra : ∀ m ∈ extra, m.1 ≠ "op" ∧ m.1 ∉ command.operation.fields.map Field.name)
    (hperm : members.Perm (command.members ++ extra)) :
    decode (.object members) = .ok command := by
  have hother : ∀ m ∈ command.encodeArguments ++ extra, m.1 ≠ "op" := by
    intro m hmem
    rcases List.mem_append.1 hmem with hmem | hmem
    · intro heq
      refine command.operation.op_not_mem_fields ?_
      rw [← heq]
      exact command.map_fst_encodeArguments_sublist.subset (List.mem_map_of_mem hmem)
    · exact (hextra m hmem).1
  have hname : lookup "op" members = some (.string command.operation.name) := by
    refine lookup_eq_some_of_forall (hperm.mem_iff.2 List.mem_cons_self) fun m hmem heq => ?_
    rcases List.mem_cons.1 (hperm.mem_iff.1 hmem) with rfl | hmem
    · rfl
    · exact absurd heq (hother m hmem)
  have hrest : (members.filter (·.1 ≠ "op")).Perm (command.encodeArguments ++ extra) := by
    refine (hperm.filter _).trans (List.Perm.of_eq ?_)
    rw [Command.members, List.cons_append, List.filter_cons_of_neg (by simp), List.filter_eq_self.2]
    exact fun m hmem => decide_eq_true (hother m hmem)
  rw [decode, hname, Arguments.require, ok_bind, decodeOperation, Operation.ofName_name, ok_bind]
  exact ofMembers_of_perm h (fun m hmem => (hextra m hmem).2) hrest

/-- A command is read from its list form. -/
theorem decode_items (h : command.Distinct) : decode (.array command.items) = .ok command := by
  rw [items, decode, decodeOperation, Operation.ofName_name, ok_bind]
  exact ofItems_fields h

/-- A command comes back from the object that it is written as, from one with the same members in
another order and among others that it does not know, and from the list of its name and arguments,
with null for an index that is not given. -/
theorem decode_written (command : Command) (h : command.Distinct) :
    decode command.encode = .ok command ∧
      (∀ extra members : List (String × Json),
        (∀ m ∈ extra, m.1 ≠ "op" ∧ m.1 ∉ command.operation.fields.map Field.name) →
          members.Perm (command.members ++ extra) → decode (.object members) = .ok command) ∧
      decode (.array command.items) = .ok command := by
  refine ⟨?_, fun extra members => decode_object_of_perm h, decode_items h⟩
  have hnothing : ∀ m ∈ ([] : List (String × Json)),
      m.1 ≠ "op" ∧ m.1 ∉ command.operation.fields.map Field.name :=
    fun _ hmem => absurd hmem List.not_mem_nil
  exact decode_object_of_perm h hnothing (List.Perm.of_eq (List.append_nil _).symm)

/-- A command with members within the value of a member. -/
def uncolor : Command :=
  .updateComponent "n-text-1" [("style", .object [("color", .null)])]

/-- Its members the other way round, after one that means nothing. -/
theorem decode_written_uncolor :
    uncolor.Distinct ∧
      decode (.object [("note", .array []),
        ("properties", .object [("style", .object [("color", .null)])]),
        ("id", .string "n-text-1"), ("op", .string "updateComponent")]) = .ok uncolor :=
  have hdistinct : uncolor.Distinct := isDistinct_iff.1 (by decide)
  have hnote : ∀ m ∈ [("note", Json.array [])], m.1 ≠ "op" ∧ m.1 ∉ ["id", "properties"] := by
    decide
  ⟨hdistinct, (decode_written uncolor hdistinct).2.1 [("note", .array [])] _ hnote
    (List.reverse_perm (uncolor.members ++ [("note", Json.array [])]))⟩

end Command

end MailTemplate
