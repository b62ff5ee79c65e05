import Mailroom.Remote.Request

/-! Forms of a request: as a call of the service, a name and arguments in order, and as it goes
over a wire, a method with named parameters. What a request leaves open is left out. -/

namespace Mailroom.Remote

/-- A query as data; what it leaves open is left out. -/
def ListQuery.toValue (q : ListQuery) : Value :=
  .recordOf [("q", q.search.map .str), ("labelIds", q.labelIds.map .ofTexts),
    ("maxResults", q.maxResults.map fun n => .num (.ofRat n)),
    ("includeSpamTrash", if q.includeTrash then some (.bool true) else none),
    ("pageToken", q.pageToken.map .str)]

/-- The query that data describes. -/
def ListQuery.ofValue (v : Value) : ListQuery where
  search := v.textAt? "q"
  labelIds := v.textsAt? "labelIds"
  maxResults := (v.numberAt? "maxResults").bind Number.toRat?
  includeTrash := (v.get "includeSpamTrash").isTruthy
  pageToken := v.textAt? "pageToken"

def Page.toValue (p : Page) : Value :=
  .obj [("messages", .arr (p.ids.map fun id => .obj [("id", .str id)])),
    ("nextPageToken", .ofText? p.nextPageToken)]

namespace Method

def all : List Method :=
  [.profile, .listLabels, .getLabel, .createLabel, .updateLabel, .deleteLabel, .listMessages,
    .getMessage, .getMessages, .modifyMessage, .trashMessage, .untrashMessage, .deleteMessage,
    .deleteMessages, .modifyMessages]

def callName : Method → String
  | profile => "getProfile"
  | listLabels => "listLabels"
  | getLabel => "getLabel"
  | createLabel => "createLabel"
  | updateLabel => "updateLabel"
  | deleteLabel => "deleteLabel"
  | listMessages => "listMessages"
  | getMessage => "getMessage"
  | getMessages => "batchGetMessages"
  | modifyMessage => "modifyMessage"
  | trashMessage => "trashMessage"
  | untrashMessage => "untrashMessage"
  | deleteMessage => "deleteMessage"
  | deleteMessages => "batchDeleteMessages"
  | modifyMessages => "batchModifyMessages"

/-- The name of a method on a wire; several messages are asked for one by one. -/
def wireName : Method → String
  | profile => "users.getProfile"
  | listLabels => "labels.list"
  | getLabel => "labels.get"
  | createLabel => "labels.create"
  | updateLabel => "labels.update"
  | deleteLabel => "labels.delete"
  | listMessages => "messages.list"
  | getMessage => "messages.get"
  | getMessages => "messages.get"
  | modifyMessage => "messages.modify"
  | trashMessage => "messages.trash"
  | untrashMessage => "messages.untrash"
  | deleteMessage => "messages.delete"
  | deleteMessages => "messages.batchDelete"
  | modifyMessages => "messages.batchModify"

def ofCallName? (name : String) : Option Method := all.find? fun m => m.callName == name

def ofWireName? (name : String) : Option Method := all.find? fun m => m.wireName == name

end Method

namespace Request

def arguments : Request → List Value
  | profile => []
  | listLabels => []
  | getLabel id => [.str id]
  | createLabel body => [body.toValue]
  | updateLabel id body => [.str id, body.toValue]
  | deleteLabel id => [.str id]
  | listMessages q => [q.toValue]
  | getMessage id => [.str id]
  | getMessages ids => [.ofTexts ids]
  | modifyMessage id change => [.str id, change.toValue]
  | trashMessage id => [.str id]
  | untrashMessage id => [.str id]
  | deleteMessage id => [.str id]
  | deleteMessages ids => [.ofTexts ids]
  | modifyMessages ids change => [.ofTexts ids, change.toValue]

/-- A request as a call: the name and the arguments. -/
def asCall (r : Request) : Value := .arr (.str r.method.callName :: r.arguments)

/-- The parameters of a request on a wire, besides the user. -/
def parameters : Request → List (String × Value)
  | profile => []
  | listLabels => []
  | getLabel id => [("id", .str id)]
  | createLabel body => [("requestBody", body.toValue)]
  | updateLabel id body =>
    [("id", .str id), ("requestBody", .obj (body.toValue.fields ++ [("id", .str id)]))]
  | deleteLabel id => [("id", .str id)]
  | listMessages q => q.toValue.fields
  | getMessage id => [("id", .str id), ("format", .str "full")]
  | getMessages ids => [("ids", .ofTexts ids)]
  | modifyMessage id change => [("id", .str id), ("requestBody", change.toValue)]
  | trashMessage id => [("id", .str id)]
  | untrashMessage id => [("id", .str id)]
  | deleteMessage id => [("id", .str id)]
  | deleteMessages ids => [("requestBody", .obj [("ids", .ofTexts ids)])]
  | modifyMessages ids change =>
    [("requestBody", .obj (("ids", .ofTexts ids) :: change.toValue.fields))]

def onWire (r : Request) : Value :=
  .obj [("method", .str r.method.wireName),
    ("params", .obj (("userId", .str "me") :: r.parameters))]

end Request

end Mailroom.Remote
