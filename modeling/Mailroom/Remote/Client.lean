import Mailroom.Data.Runs
import Mailroom.Remote.Request
import Mailroom.Remote.Retry

/-! The client: the mail service over a wire. Every request is tried again on a shortage of quota;
an error that remains is one of authorization or of the service, a fault that is no error goes
through as it is. Long lists of ids are cut into several requests. -/

namespace Mailroom.Remote

/-- A way to send requests. -/
class Wire (ω : Type) where
  send : Request → StateM ω (Except Fault Value)

/-- A client: the address of the account as far as it is known, and the wire. -/
structure Client (ω : Type) where
  email : String := "unknown"
  wire : ω

namespace Client

variable {ω α : Type}

def onWire (x : StateM ω α) : StateM (Client ω) α := fun c =>
  let (a, wire) := x c.wire
  (a, { c with wire })

/-- How often a request is made at most. -/
def maxAttempts : Nat := 5

/-- The pause before a request is made for the second time, in milliseconds. -/
def firstPause : Rat := 2000

/-- What a client reports of a fault that it met. -/
def failureOf (email : String) : Fault → Failure
  | .bare v => .escaped (.bare v)
  | fault =>
    match fault.isAuthorization with
    | .ok true => .auth email fault.text
    | .ok false => .api fault.text
    | .error raised => .escaped raised

variable [Wire ω] [Clock ω]

def request (r : Request) : Call (Client ω) Value := do
  let sent := retry (fun d => onWire (Clock.sleep d)) (onWire (Wire.send r))
    maxAttempts firstPause
  match ← (sent : StateM (Client ω) (Except Fault Value)) with
  | .ok v => return v
  | .error fault => throw (failureOf (← get).email fault)

/-- The address of the account, kept for later failures. -/
def profile : Call (Client ω) String := do
  let answer ← request .profile
  let email := (answer.textAt? "emailAddress").getD (← get).email
  modify fun c => { c with email }
  return email

def listLabels : Call (Client ω) (List LabelRecord) := do
  let answer ← request .listLabels
  return (answer.get "labels").items.map (LabelRecord.ofValue · "")

def getLabel (id : String) : Call (Client ω) LabelRecord := do
  let answer ← request (.getLabel id)
  return .ofValue answer id

/-- Make a label; an answer without an id is a failure. -/
def createLabel (body : LabelBody) : Call (Client ω) String := do
  let answer ← request (.createLabel body)
  match LabelBody.chosen (answer.textAt? "id") with
  | some id => return id
  | none =>
    throw (.api ("labels.create returned no id for \"" ++ body.name.getD "" ++ "\""))

/-- A request whose answer does not matter. -/
def perform (r : Request) : Call (Client ω) Unit := do
  let _ ← request r

/-- A query as it is sent: what is empty is left out. -/
def trimmed (q : ListQuery) : ListQuery :=
  { q with
    search := LabelBody.chosen q.search
    labelIds := q.labelIds.filter (!·.isEmpty)
    pageToken := LabelBody.chosen q.pageToken }

/-- A page of message ids; messages without an id are left out. -/
def listMessages (q : ListQuery) : Call (Client ω) Page := do
  let answer ← request (.listMessages (trimmed q))
  let ids := (answer.get "messages").items.filterMap fun m =>
    LabelBody.chosen (m.textAt? "id")
  return ⟨ids, answer.textAt? "nextPageToken"⟩

def fetchMessage (id : String) : Call (Client ω) Value := request (.getMessage id)

/-- Messages one after another, each handed to a visitor that may end the call. A fault that goes
through as it is ends it too. -/
def visitMessages {τ : Type} (visit : String → Except Failure Value → τ → τ × Option Failure) :
    List String → τ → StateM (Client ω) (τ × Option Failure)
  | [], t => return (t, none)
  | id :: rest, t => do
    match ← (fetchMessage id).run with
    | .error (.escaped fault) => return (t, some (.escaped fault))
    | answer =>
      match visit id answer t with
      | (t, none) => visitMessages visit rest t
      | (t, some failure) => return (t, some failure)

/-- Messages one after another; the first failure ends the call. -/
def getMessages (ids : List String) : Call (Client ω) (List Message.Resource) := do
  let visit (_ : String) (answer : Except Failure Value) (done : List Message.Resource) :=
    match answer with
    | .ok v => (done ++ [.ofValue v], none)
    | .error failure => (done, some failure)
  match ← (visitMessages visit ids [] : StateM (Client ω) _) with
  | (done, none) => return done
  | (_, some failure) => throw failure

/-- How many ids one request may carry. -/
def maxIds : Nat := 1000

def inPieces (ids : List String) (make : List String → Request) : Call (Client ω) Unit :=
  (Runs.chunks maxIds ids).forM fun piece => perform (make piece)

instance : MailService (Client ω) where
  profile := profile
  listLabels := listLabels
  getLabel := getLabel
  createLabel := createLabel
  updateLabel id body := perform (.updateLabel id body)
  deleteLabel id := perform (.deleteLabel id)
  listMessages := listMessages
  getMessage id := do return .ofValue (← fetchMessage id)
  getMessages := getMessages
  modifyMessage id change := perform (.modifyMessage id change)
  trashMessage id := perform (.trashMessage id)
  untrashMessage id := perform (.untrashMessage id)
  deleteMessage id := perform (.deleteMessage id)
  deleteMessages ids := inPieces ids .deleteMessages
  modifyMessages ids change := inPieces ids (.modifyMessages · change)

instance : Clock (Client ω) where
  now := onWire Clock.now
  sleep d := onWire (Clock.sleep d)

end Client

end Mailroom.Remote
