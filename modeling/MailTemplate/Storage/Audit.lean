import MailTemplate.Storage.Fallback
import MailTemplate.Storage.Record
import MailTemplate.Tree.Violation

/-!
# Auditing Stored Records

Checks stored records as they are, without repair: records of unknown kind are reported and left
out, and the others are checked as the tree that they spell out.
-/

namespace MailTemplate.Records

/-- The node that a record spells out, if its kind is known. -/
def nodeOf? (record : Record) : Option Node :=
  (Kind.ofName? record.kind).map fun kind =>
    { parent := record.parent
      properties := .ofStored kind record.properties
      children := record.children }

/-- The tree that the records of known kinds spell out. -/
def verbatim (records : Records) : Tree :=
  .ofNodes (records.filterMap fun _ record => nodeOf? record)

/-- The records of unknown kinds. -/
def unknownKinds (records : Records) : List Violation :=
  records.toList.filterMap fun (id, record) =>
    if (Kind.ofName? record.kind).isNone then some (.unknownKind id record.kind) else none

/-- All that is wrong with stored records. -/
def audit (records : Records) : List Violation :=
  records.unknownKinds ++ records.verbatim.violations

end MailTemplate.Records
