import Mailroom.Program.Arguments
import Mailroom.Program.Surroundings

/-! Commands on labels: listing them, showing the tree of the user's labels, showing one, and
making, renaming and deleting labels of the user. -/

namespace Mailroom.Program

open Remote (Client Wire LabelOptions)
open Terminal (Action Console)

variable {ω : Type} [Wire ω] [Clock ω]

def labelDetails (e : Label.Entity) : Value :=
  let r := e.record
  .obj [("id", .str r.id), ("name", .str r.name), ("type", .str r.origin.name),
    ("messages_total", .num r.messagesTotal), ("messages_unread", .num r.messagesUnread),
    ("threads_total", .num r.threadsTotal), ("threads_unread", .num r.threadsUnread),
    ("label_list_visibility", .ofText? r.labelListVisibility),
    ("message_list_visibility", .ofText? r.messageListVisibility),
    ("color", (r.color.map Remote.Color.toValue).getD .null)]

/-- Print what is shown of a loaded label. -/
def showLabel (e : Label.EntityRef) : Command ω Unit := do
  let s : Mailbox ω ← Action.world
  Console.document (Mailbox ω) (((s.entity? e).map labelDetails).getD .null)

/-- A remark on a number of things. -/
def counted (n : Nat) (things : String) : String := n.repr ++ " " ++ things

/-- All labels: categories, system labels, then the user's. -/
def labelList (s : Surroundings) : Command ω Unit := do
  openMailbox s
  let d := (← Action.world : Mailbox ω).directory
  let nodes := d.registry.nodes.map d.node
  Console.list (Mailbox ω) (nodes.map fun n =>
    .obj [("id", .str n.id), ("name", .str n.name), ("kind", .str n.kind.name)]) none
  Console.hint (Mailbox ω) (counted nodes.length "label(s)")

def labelTree (s : Surroundings) : Command ω Unit := do
  openMailbox s
  match (← Action.world : Mailbox ω).directory.outline with
  | [] => Console.hint (Mailbox ω) "No user labels"
  | lines => Console.write (Mailbox ω) ("\n".intercalate lines ++ "\n")

def labelGet (s : Surroundings) (a : Arguments) : Command ω Unit := do
  openMailbox s
  showLabel (← findLabel (a.operand 0))

def labelCreate (s : Surroundings) (a : Arguments) : Command ω Unit := do
  openMailbox s
  let options : LabelOptions :=
    { labelListVisibility := a.text? "visibility", textColor := a.text? "text-color"
      backgroundColor := a.text? "bg-color" }
  let e ← Action.onWorld (Session.createLabel (a.operand 0) options)
  showLabel e
  Console.success (Mailbox ω)
    ("Label created: \"" ++ (← Action.world : Mailbox ω).entityName e ++ "\"")

def labelRename (s : Surroundings) (a : Arguments) : Command ω Unit := do
  openMailbox s
  let e ← findUserLabel (a.operand 0)
  let e ← Action.onWorld (Session.updateLabel e (some (a.operand 1)) {})
  let s : Mailbox ω ← Action.world
  Console.document (Mailbox ω) (.obj [("id", .str (s.entityId e)), ("name", .str (s.entityName e))])
  Console.success (Mailbox ω)
    ("Renamed \"" ++ a.operand 0 ++ "\" to \"" ++ s.entityName e ++ "\"")

/-- Delete a label of the user; a person at a terminal is asked first. -/
def labelDelete (s : Surroundings) (a : Arguments) : Command ω Unit := do
  openMailbox s
  let e ← findUserLabel (a.operand 0)
  let name := (← Action.world : Mailbox ω).entityName e
  let recursive := a.isGiven "recursive"
  let question := "Delete label \"" ++ name ++ "\""
    ++ (if recursive then " and everything below it" else "") ++ "?"
  let isAgreed ←
    if s.isInteractive && !a.isGiven "force" then Console.confirm (Mailbox ω) question
    else pure true
  if isAgreed then
    Action.onWorld (Session.deleteLabel e recursive)
    Console.document (Mailbox ω) (.obj [("label", .str name), ("deleted", .bool true)])
  else Console.hint (Mailbox ω) "Cancelled"

end Mailroom.Program
