import Mailroom.Remote.Service

/-! Requests to the service as data: what was asked for, of which method, with which parameters. -/

namespace Mailroom.Remote

/-- The methods of the service. -/
inductive Method
  | profile
  | listLabels
  | getLabel
  | createLabel
  | updateLabel
  | deleteLabel
  | listMessages
  | getMessage
  | getMessages
  | modifyMessage
  | trashMessage
  | untrashMessage
  | deleteMessage
  | deleteMessages
  | modifyMessages
deriving DecidableEq, Repr

/-- A request. -/
inductive Request
  | profile
  | listLabels
  | getLabel (id : String)
  | createLabel (body : LabelBody)
  | updateLabel (id : String) (body : LabelBody)
  | deleteLabel (id : String)
  | listMessages (query : ListQuery)
  | getMessage (id : String)
  | getMessages (ids : List String)
  | modifyMessage (id : String) (change : LabelChange)
  | trashMessage (id : String)
  | untrashMessage (id : String)
  | deleteMessage (id : String)
  | deleteMessages (ids : List String)
  | modifyMessages (ids : List String) (change : LabelChange)
deriving DecidableEq, Repr

namespace Request

def method : Request → Method
  | profile => .profile
  | listLabels => .listLabels
  | getLabel _ => .getLabel
  | createLabel _ => .createLabel
  | updateLabel _ _ => .updateLabel
  | deleteLabel _ => .deleteLabel
  | listMessages _ => .listMessages
  | getMessage _ => .getMessage
  | getMessages _ => .getMessages
  | modifyMessage _ _ => .modifyMessage
  | trashMessage _ => .trashMessage
  | untrashMessage _ => .untrashMessage
  | deleteMessage _ => .deleteMessage
  | deleteMessages _ => .deleteMessages
  | modifyMessages _ _ => .modifyMessages

end Request

/-- Whether requests of the method change what the service keeps. -/
def Method.isMutating : Method → Bool
  | profile => false
  | listLabels => false
  | getLabel => false
  | listMessages => false
  | getMessage => false
  | getMessages => false
  | createLabel => true
  | updateLabel => true
  | deleteLabel => true
  | modifyMessage => true
  | trashMessage => true
  | untrashMessage => true
  | deleteMessage => true
  | deleteMessages => true
  | modifyMessages => true

end Mailroom.Remote
