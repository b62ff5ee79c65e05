import Mailroom.Data.Runs
import Mailroom.Label.Fixed
import Mailroom.Remote.Request
import Mailroom.Text.Split

/-! The store: a mail service in memory. It keeps labels and messages in the order of their
making, logs every request, and can be told to fail the next request of a method. -/

namespace Mailroom.Remote

/-- Labels and messages, the log of requests, and the failures to come. -/
structure Store where
  labels : Table String LabelRecord
  messages : Table String Message.Resource := .empty
  calls : List Request := []
  /-- How many messages a page holds at most. -/
  pageSize : Rat := 50
  planned : Table Method Failure := .empty
  /-- The number in the id of the next label that is made without one. -/
  nextLabel : Nat := 1

namespace Store

def systemIds : List String :=
  Label.System.all.map Label.System.id ++ Label.Category.all.map Label.Category.id

/-- A store without messages and without labels of the user. -/
def initial : Store where
  labels := .ofList (systemIds.map fun id => (id, ⟨id, id, .system, 0, 0, 0, 0, none, none, none⟩))

instance : Inhabited Store := ⟨initial⟩

/-- The store with a label of the user, and the label's id. -/
def seedLabel (s : Store) (name : String) (id? : Option String) : String × Store :=
  let (id, s) := match id? with
    | some id => (id, s)
    | none => ("Label_" ++ s.nextLabel.repr, { s with nextLabel := s.nextLabel + 1 })
  let label : LabelRecord := { id, name, origin := .user }
  (id, { s with labels := s.labels.put id label })

/-- The store with a message; one without an id is not kept. -/
def seedMessage (s : Store) (m : Message.Resource) : Store :=
  match LabelBody.chosen m.id with
  | some id => { s with messages := s.messages.put id m }
  | none => s

/-- The store with the labels of a message changed, if the message is there. -/
def changeLabels (s : Store) (change : LabelChange) (id : String) : Store :=
  { s with messages := s.messages.modify id fun m =>
      { m with labelIds := some (change.apply (m.labelIds.getD [])) } }

def dropMessage (s : Store) (id : String) : Store :=
  { s with messages := s.messages.remove id }

/-- A request is logged; the failure that was planned for its method happens and is over. -/
def record (r : Request) : Call Store Unit := do
  modify fun s => { s with calls := s.calls ++ [r] }
  match (← get).planned.get? r.method with
  | some failure =>
    modify fun s => { s with planned := s.planned.remove r.method }
    throw failure
  | none => return

def findLabel (id : String) : Call Store LabelRecord := do
  match (← get).labels.get? id with
  | some label => return label
  | none => throw (.api ("label " ++ id ++ " not found"))

/-- A message that must be there, with its list of labels. -/
def findMessage (id : String) : Call Store Message.Resource := do
  match (← get).messages.get? id with
  | some m => return { m with labelIds := some (m.labelIds.getD []) }
  | none => throw (.api ("message " ++ id ++ " not found"))

/-- The name that a label takes when the one named `old` is renamed: labels below it move along. -/
def renamed (old new name : String) : String :=
  match Text.after? (old ++ "/").toList name.toList with
  | some rest => new ++ "/" ++ String.ofList rest
  | none => name

def renameLabel (s : Store) (id old new : String) : Store :=
  let moved := s.labels.map fun label => { label with name := renamed old new label.name }
  { s with labels := moved.modify id fun label => { label with name := new } }

/-- Whether a message is on the list of a query. The search text is not looked at. -/
def isListed (q : ListQuery) (m : Message.Resource) : Bool :=
  let ids := m.labelIds.getD []
  (q.includeTrash || !(ids.contains "TRASH" || ids.contains "SPAM"))
    && (q.labelIds.getD []).all ids.contains

/-- A page of the messages of a query. The token of a page is its offset. -/
def page (s : Store) (q : ListQuery) : Page :=
  let matching := s.messages.values.filter (isListed q)
  let offset : Rat := match LabelBody.chosen q.pageToken with
    | some token => ((Number.read token).toRat?).getD 0
    | none => 0
  let size := Runs.lesser (q.maxResults.getD s.pageSize) s.pageSize
  let shown := Runs.slice matching offset (offset + size)
  let stop := offset + shown.length
  ⟨shown.filterMap (·.id),
    if stop < matching.length then some (Number.ofRat stop).text else none⟩

/-- The visibilities that a request gives, where they are not empty. -/
def restyled (body : LabelBody) (label : LabelRecord) : LabelRecord :=
  { label with
    labelListVisibility := (LabelBody.chosen body.labelListVisibility).or label.labelListVisibility
    messageListVisibility :=
      (LabelBody.chosen body.messageListVisibility).or label.messageListVisibility }

instance : MailService Store where
  profile := do
    record .profile
    return "me@example.com"
  listLabels := do
    record .listLabels
    return (← get).labels.values
  getLabel id := do
    record (.getLabel id)
    findLabel id
  createLabel body := do
    record (.createLabel body)
    let name := body.name.getD ""
    if (← get).labels.values.any (·.name == name) then
      throw (.api ("label name exists: " ++ name))
    let (id, s) := (← get).seedLabel name none
    set { s with labels := s.labels.modify id fun label =>
      { label with
        labelListVisibility := body.labelListVisibility
        messageListVisibility := body.messageListVisibility } }
    return id
  updateLabel id body := do
    record (.updateLabel id body)
    let label ← findLabel id
    if let some name := body.name then
      modify fun s => s.renameLabel id label.name name
    modify fun s => { s with labels := s.labels.modify id (restyled body) }
  deleteLabel id := do
    record (.deleteLabel id)
    let _ ← findLabel id
    modify fun s => { s with labels := s.labels.remove id }
  listMessages q := do
    record (.listMessages q)
    return (← get).page q
  getMessage id := do
    record (.getMessage id)
    findMessage id
  getMessages ids := do
    record (.getMessages ids)
    ids.mapM findMessage
  modifyMessage id change := do
    record (.modifyMessage id change)
    let _ ← findMessage id
    modify fun s => s.changeLabels change id
  trashMessage id := do
    record (.trashMessage id)
    modify fun s => s.changeLabels ⟨some ["TRASH"], some ["INBOX"]⟩ id
  untrashMessage id := do
    record (.untrashMessage id)
    modify fun s => s.changeLabels ⟨none, some ["TRASH"]⟩ id
  deleteMessage id := do
    record (.deleteMessage id)
    modify fun s => s.dropMessage id
  deleteMessages ids := do
    record (.deleteMessages ids)
    modify fun s => ids.foldl dropMessage s
  modifyMessages ids change := do
    record (.modifyMessages ids change)
    modify fun s => ids.foldl (changeLabels · change) s

end Store

/-- A clock that moves only when it is read or told to wait. -/
structure SteppedClock where
  time : Rat := 0
  /-- What each reading adds to the time. -/
  tick : Rat := 0
  sleeps : List Rat := []
deriving Inhabited

instance : Clock SteppedClock where
  now c := (c.time, { c with time := c.time + c.tick })
  sleep d := modify fun c => { c with time := c.time + d, sleeps := c.sleeps ++ [d] }

/-- A store beside a clock. -/
structure Bench where
  store : Store := .initial
  clock : SteppedClock := {}
deriving Inhabited

namespace Bench

/-- A computation on the store as one beside the clock. -/
def onStore {α : Type} (x : Call Store α) : Call Bench α := ExceptT.mk fun b =>
  let (a, store) := x.run b.store
  (a, { b with store })

instance : MailService Bench where
  profile := onStore MailService.profile
  listLabels := onStore MailService.listLabels
  getLabel id := onStore (MailService.getLabel id)
  createLabel body := onStore (MailService.createLabel body)
  updateLabel id body := onStore (MailService.updateLabel id body)
  deleteLabel id := onStore (MailService.deleteLabel id)
  listMessages q := onStore (MailService.listMessages q)
  getMessage id := onStore (MailService.getMessage id)
  getMessages ids := onStore (MailService.getMessages ids)
  modifyMessage id change := onStore (MailService.modifyMessage id change)
  trashMessage id := onStore (MailService.trashMessage id)
  untrashMessage id := onStore (MailService.untrashMessage id)
  deleteMessage id := onStore (MailService.deleteMessage id)
  deleteMessages ids := onStore (MailService.deleteMessages ids)
  modifyMessages ids change := onStore (MailService.modifyMessages ids change)

instance : Clock Bench where
  now b :=
    let (t, clock) := (Clock.now : StateM SteppedClock Rat) b.clock
    (t, { b with clock })
  sleep d b :=
    let (_, clock) := (Clock.sleep d : StateM SteppedClock Unit) b.clock
    ((), { b with clock })

end Bench

end Mailroom.Remote
