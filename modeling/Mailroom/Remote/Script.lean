import Mailroom.Remote.Client
import Mailroom.Remote.Form
import Mailroom.Remote.Seed

/-! Wires without a network: a script of replies, and a line to a store that raises planned faults
on the way. -/

namespace Mailroom.Remote

/-- Replies to come, and what was sent and waited so far. -/
structure Script where
  replies : List (Except Fault Value) := []
  sent : List Request := []
  waits : List Rat := []

instance : Wire Script where
  send r s :=
    let s := { s with sent := s.sent ++ [r] }
    match s.replies with
    | [] => (.error (.ofMessage "no scripted response"), s)
    | reply :: rest => (reply, { s with replies := rest })

instance : Clock Script where
  now := return 0
  sleep d := modify fun s => { s with waits := s.waits ++ [d] }

/-- A line to a store: the faults planned for each method in turn, what was sent, and a clock that
moves when it is told to wait. -/
structure Line where
  store : Store := .initial
  email : String := "me@example.com"
  faults : Table Method (List (Option Fault)) := .empty
  sent : List Request := []
  clock : SteppedClock := {}
deriving Inhabited

namespace Line

/-- The fault of a plan; null plans none. -/
def planned (v : Value) : Option Fault := if v == .null then none else some (.ofValue v)

/-- The line that data describes: the store's seed, the plan of faults by the names of methods on
a wire, and the account's address. -/
def ofValue (v : Value) : Line where
  store := .ofValue (v.get "seed")
  email := (v.textAt? "email").getD "me@example.com"
  faults := .ofList ((v.get "fail").fields.filterMap fun entry =>
    (Method.ofWireName? entry.1).map fun m => (m, entry.2.items.map planned))

def answer : Request → Call Store Value
  | .profile => return .obj []
  | .listLabels => do
    let labels ← MailService.listLabels
    return .obj [("labels", .arr (labels.map LabelRecord.toValue))]
  | .getLabel id => do return (← MailService.getLabel id).toValue
  | .createLabel body => do return .obj [("id", .str (← MailService.createLabel body))]
  | .updateLabel id body => do
    MailService.updateLabel id body
    return .obj []
  | .deleteLabel id => do
    MailService.deleteLabel id
    return .obj []
  | .listMessages q => do return (← MailService.listMessages q).toValue
  | .getMessage id => do return (← MailService.getMessage id).toValue
  | .getMessages ids => do
    return .arr ((← MailService.getMessages ids).map Message.Resource.toValue)
  | .modifyMessage id change => do
    MailService.modifyMessage id change
    return .obj []
  | .trashMessage id => do
    MailService.trashMessage id
    return .obj []
  | .untrashMessage id => do
    MailService.untrashMessage id
    return .obj []
  | .deleteMessage id => do
    MailService.deleteMessage id
    return .obj []
  | .deleteMessages ids => do
    MailService.deleteMessages ids
    return .obj []
  | .modifyMessages ids change => do
    MailService.modifyMessages ids change
    return .obj []

/-- What the store cannot do is raised as an error of status 404. -/
def faultOf : Failure → Fault
  | .api reason => .error "Error" reason [("code", .ofNat 404)]
  | other => .error "Error" other.message [("code", .ofNat 404)]

/-- The next fault planned for a method, and the line without it. -/
def nextFault (l : Line) (m : Method) : Option Fault × Line :=
  match l.faults.get? m with
  | some (fault :: rest) => (fault, { l with faults := l.faults.put m rest })
  | _ => (none, l)

instance : Wire Line where
  send r l :=
    let (fault, l) := { l with sent := l.sent ++ [r] }.nextFault r.method
    match fault with
    | some fault => (.error fault, l)
    | none =>
      if r.method = .profile then (.ok (.obj [("emailAddress", .str l.email)]), l)
      else
        match (answer r).run l.store with
        | (.ok v, store) => (.ok v, { l with store })
        | (.error failure, store) => (.error (faultOf failure), { l with store })

instance : Clock Line where
  now l :=
    let (t, clock) := (Clock.now : StateM SteppedClock Rat) l.clock
    (t, { l with clock })
  sleep d l :=
    let (_, clock) := (Clock.sleep d : StateM SteppedClock Unit) l.clock
    ((), { l with clock })

end Line

end Mailroom.Remote
