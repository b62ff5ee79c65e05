import Mailroom.Calendar.Day
import Mailroom.Message.Fixture
import Mailroom.Remote.Store

/-! Seeds: stores described by data, with labels and messages made before anything is asked. -/

namespace Mailroom.Remote.Store

open Mailroom.Message (Fixture Resource)

/-- The messages that data describes: one in raw form, a count of alike ones, or one fixture. -/
def messagesOf (v : Value) : List Resource :=
  match v.field? "raw", (v.numberAt? "count").bind Number.truncate? with
  | some raw, _ => [.ofValue raw]
  | none, some n => (List.range n.toNat).map fun i =>
      ({ Fixture.ofValue v with id := "m" ++ Day.padded 3 i } : Fixture).resource
  | none, none => [(Fixture.ofValue v).resource]

def seedMessages (s : Store) (v : Value) : Store := (messagesOf v).foldl seedMessage s

/-- The store with the label that data describes, a name alone or a record, and the label's id. -/
def seedLabelOf (s : Store) (v : Value) : String × Store :=
  match v with
  | .str name => s.seedLabel name none
  | v =>
    let (id, s) := s.seedLabel ((v.textAt? "name").getD "") (v.textAt? "id")
    (id, { s with labels := s.labels.modify id (LabelRecord.overwrite v.fields) })

/-- The store that data describes. -/
def ofValue (v : Value) : Store :=
  let s := (v.get "labels").items.foldl (fun s l => (s.seedLabelOf l).2) initial
  let s := (v.get "messages").items.foldl seedMessages s
  match (v.numberAt? "pageSize").bind Number.toRat? with
  | some n => { s with pageSize := n }
  | none => s

/-- The labels of the user as data: ids and names. -/
def userLabels (s : Store) : Value :=
  .arr ((s.labels.values.filter (·.origin == .user)).map fun l => .arr [.str l.id, .str l.name])

/-- The messages as data: ids and lists of label ids. -/
def messageLabels (s : Store) : Value :=
  .arr (s.messages.entries.map fun m => .arr [.str m.1, .ofTexts (m.2.labelIds.getD [])])

end Mailroom.Remote.Store
