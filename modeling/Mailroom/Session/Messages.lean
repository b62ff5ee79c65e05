import Mailroom.Session.Labels

/-! Messages of a session: reading them with their labels, and changing their labels. A message is
a snapshot; a change answers with a new one. -/

namespace Mailroom.Session

open Label (EntityRef NodeRef)
open Remote (LabelChange MailService)

variable {σ : Type} [MailService σ]

/-- The labels of a message, categories apart, for a list of label ids. The first id that is not
known makes the directory be refreshed, once. -/
def labelsOf : Bool → List String → Op σ (List EntityRef × List EntityRef)
  | _, [] => return ([], [])
  | asked, id :: rest => do
    let known := (← get).directory.registry.hasId id
    if !known && !asked then
      let _ ← refresh
    let e ← entity (← nodeById id)
    let (labels, categories) ← labelsOf (asked || !known) rest
    if (← get).entityKind e = .category then return (labels, e :: categories)
    else return (e :: labels, categories)

def messageOf (r : Message.Resource) : Op σ Message := do
  let (labels, categories) ← labelsOf false (r.labelIds.getD [])
  match categories with
  | [] => return .ofResource r labels none
  | [category] => return .ofResource r labels (some category)
  | _ =>
    let s ← get
    throw (.parse ("message " ++ r.id.getD "")
      ("expected at most one category, got "
        ++ ", ".intercalate (categories.map s.entityName)))

def message (id : String) : Op σ Message := do
  messageOf (← onOutside (MailService.getMessage id))

/-- Whether a thing is among a message's labels or is its category. -/
def messageContains (m : Message) (thing : Thing) : Op σ Bool := do
  let s ← get
  match thing with
  | .entity e => return s.carries m (s.entityId e) || s.isIn m (s.entityId e)
  | other => throw (.typeMismatch other.sortWord ("message " ++ m.id) "BaseLabel")

def change (m : Message) (c : LabelChange) : Op σ Message := do
  onOutside (MailService.modifyMessage m.id c)
  message m.id

/-- The ids of labels that a message may gain or lose; categories are refused. -/
def plainIds (s : Session σ) (m : Message) (labels : Thing) : Except Failure (List String) :=
  labels.items.mapM fun thing =>
    if thing.standsForCategory s then
      .error (.typeMismatch ("category \"" ++ thing.name s ++ "\"") ("message " ++ m.id)
        "Label, LabelProxy")
    else .ok (thing.id s)

def addLabels (m : Message) (labels : Thing) : Op σ Message := do
  let ids ← ofExcept (plainIds (← get) m labels)
  change m { add := some ids }

def removeLabels (m : Message) (labels : Thing) : Op σ Message := do
  let ids ← ofExcept (plainIds (← get) m labels)
  change m { remove := some ids }

/-- File a message under a category instead of the one it has. -/
def changeCategory (m : Message) (category : Thing) : Op σ Message := do
  let s ← get
  if category.isCategory s then
    change m ⟨some [category.id s], m.category.map fun c => [s.entityId c]⟩
  else throw (.typeMismatch category.sortWord ("message " ++ m.id) "Category")

def systemThing (l : Label.System) : Thing := .proxy (Label.Directory.system l)

def mark (m : Message) (l : Label.System) (isSet : Bool) : Op σ Message :=
  if isSet then addLabels m (systemThing l) else removeLabels m (systemThing l)

/-- Mark a message as read, or as unread. -/
def markRead (m : Message) (isRead : Bool) : Op σ Message := mark m .unread !isRead

/-- Mark a message as important, or not. -/
def markImportant (m : Message) (isImportant : Bool) : Op σ Message :=
  mark m .important isImportant

/-- Mark a message with a star, or without one. -/
def markStarred (m : Message) (isStarred : Bool) : Op σ Message := mark m .starred isStarred

/-- Take a message out of the inbox. -/
def archive (m : Message) : Op σ Message := removeLabels m (systemThing .inbox)

def trash (m : Message) : Op σ Message := do
  onOutside (MailService.trashMessage m.id)
  message m.id

/-- Take a message out of the trash. -/
def untrash (m : Message) : Op σ Message := do
  onOutside (MailService.untrashMessage m.id)
  message m.id

def deleteMessage (m : Message) : Op σ Unit := onOutside (MailService.deleteMessage m.id)

end Mailroom.Session
