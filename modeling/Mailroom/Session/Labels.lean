import Mailroom.Label.Rebuild
import Mailroom.Session.Thing

/-! Labels of a session: refreshing the directory, loading labels, and making, changing and
deleting labels of the user. A label is loaded when it is first asked for and again after every
refresh. Every change to the user's labels ends with a refresh. -/

namespace Mailroom.Session

open Label (Entity EntityRef NodeRef Directory)
open Remote (LabelRecord LabelBody LabelOptions MailService)

variable {σ : Type} [MailService σ]

/-- The labels of the user in a listing; ids that every mailbox has are never among them. -/
def userLabels (records : List LabelRecord) : List Label.Tag :=
  (records.filter fun r => r.origin == .user && !Label.isFixedId r.id).map LabelRecord.tag

/-- The directory after a complete refresh, and the nodes that were evicted. -/
def refreshed (d : Directory) (records : List LabelRecord) : List NodeRef × Directory :=
  let rebuilt := d.rebuild (userLabels records)
  (rebuilt.evicted, { rebuilt.directory with generation := d.generation + 1 })

/-- Fetch the listing of labels and rebuild the directory from it; the answer is the evicted
nodes. -/
def refresh : Op σ (List NodeRef) := do
  let records ← onOutside MailService.listLabels
  let (evicted, directory) := refreshed (← get).directory records
  modify fun s => { s with directory }
  return evicted

def addEntity (e : Entity) : Op σ EntityRef := do
  let r : EntityRef := ⟨(← get).entities.size⟩
  modify fun s => { s with entities := s.entities.push e }
  return r

def load (r : NodeRef) : Op σ EntityRef := do
  let n := (← get).directory.node r
  let record ← onOutside (MailService.getLabel n.id)
  addEntity (.ofRecord n.kind record)

/-- The label of a node, loaded unless it was since the last refresh. -/
def entity (r : NodeRef) : Op σ EntityRef := do
  match ← ofExcept ((← get).directory.standing r) with
  | .loaded e => return e
  | .missing generation =>
    let e ← load r
    modifyDirectory fun d => d.keep r e generation
    return e

/-- Forget the label of a node, so that it is loaded when it is next asked for. -/
def invalidate (r : NodeRef) : Op σ Unit :=
  modifyDirectory fun d => d.modifyNode r fun n => { n with cached := none }

/-- Ask the service again about a loaded label. -/
def reload (e : EntityRef) : Op σ EntityRef := do
  let record ← onOutside (MailService.getLabel ((← get).entityId e))
  modify fun s => { s with entities := s.entities.modify e.index (·.update record) }
  return e

def nodeById (id : String) : Op σ NodeRef := do ofExcept ((← get).directory.registry.getById id)

def nodeByName (name : String) : Op σ NodeRef := do
  ofExcept ((← get).directory.registry.getByName name)

def labelByName (name : String) : Op σ EntityRef := do entity (← nodeByName name)

/-- Make a label of the user. It is shown in both lists unless the options say otherwise. -/
def createLabel (name : String) (options : LabelOptions) : Op σ EntityRef := do
  let body := LabelBody.of (some name)
    { options with
      labelListVisibility := options.labelListVisibility.or (some "labelShow")
      messageListVisibility := options.messageListVisibility.or (some "show") }
  let id ← onOutside (MailService.createLabel body)
  let _ ← refresh
  let e ← entity (← nodeById id)
  if (← get).entityKind e = .user then return e
  else throw (.notFound ("user label " ++ id))

/-- Make a label directly below another. -/
def createChild (e : EntityRef) (name : String) (options : LabelOptions) : Op σ EntityRef := do
  createLabel ((← get).entityName e ++ "/" ++ name) options

/-- The label above another, if there is one. -/
def parent (e : EntityRef) : Op σ (Option EntityRef) := do
  let r ← nodeById ((← get).entityId e)
  match ((← get).directory.node r).parent with
  | some above => return some (← entity above)
  | none => return none

/-- The labels directly below another. -/
def children (e : EntityRef) : Op σ (List EntityRef) := do
  let r ← nodeById ((← get).entityId e)
  ((← get).directory.node r).children.values.mapM entity

/-- Rename or restyle a label; there must be something to change. -/
def updateLabel (e : EntityRef) (name : Option String) (options : LabelOptions) :
    Op σ EntityRef := do
  let body := LabelBody.of name options
  if body.isEmpty then throw (.validation "label update" "no fields to change")
  onOutside (MailService.updateLabel ((← get).entityId e) body)
  let _ ← reload e
  let _ ← refresh
  return e

def below (name : String) (records : List LabelRecord) : List LabelRecord :=
  records.filter fun r => r.origin == .user && Text.startsWith r.name (name ++ "/")

/-- Delete a label, and on demand all labels of the user below it. -/
def deleteLabel (e : EntityRef) (recursive : Bool) : Op σ Unit := do
  onOutside (MailService.deleteLabel ((← get).entityId e))
  if recursive then
    let records ← onOutside MailService.listLabels
    (below ((← get).entityName e) records).forM fun r =>
      onOutside (MailService.deleteLabel r.id)
  let _ ← refresh

/-- Whether a label contains a thing: a category the messages filed under it, any other label
itself, the labels below it and the messages that carry it. -/
def contains (e : EntityRef) (thing : Thing) : Op σ Bool := do
  let s ← get
  let id := s.entityId e
  let name := s.entityName e
  match s.entityKind e, thing with
  | .category, .message m => return s.isIn m id
  | .category, other =>
    throw (.typeMismatch (other.classWord s) ("category \"" ++ name ++ "\"") "Message")
  | _, .message m => return s.carries m id
  | _, .entity other =>
    match s.entity? e, s.entity? other with
    | some a, some b => return a.covers b
    | _, _ => return false
  | _, other =>
    throw (.typeMismatch (other.classWord s) ("label \"" ++ name ++ "\"") "BaseLabel, Message")

end Mailroom.Session
