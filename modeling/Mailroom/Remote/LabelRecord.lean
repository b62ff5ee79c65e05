import Mailroom.Label.Registry

/-! Labels as the service keeps them, and the bodies of requests that make or change them. -/

namespace Mailroom.Remote

/-- Whether a label was made by the service or by the user. -/
inductive Origin
  | system
  | user
deriving DecidableEq, Repr

def Origin.name : Origin → String
  | system => "system"
  | user => "user"

/-- The colours of a label. -/
structure Color where
  background : String
  text : String
deriving DecidableEq, Repr

/-- The colours as data. -/
def Color.toValue (c : Color) : Value :=
  .obj [("backgroundColor", .str c.background), ("textColor", .str c.text)]

/-- A label as the service keeps it. -/
structure LabelRecord where
  id : String
  name : String
  origin : Origin
  messagesTotal : Number := 0
  messagesUnread : Number := 0
  threadsTotal : Number := 0
  threadsUnread : Number := 0
  messageListVisibility : Option String := none
  labelListVisibility : Option String := none
  color : Option Color := none
deriving DecidableEq, Repr

namespace LabelRecord

/-- The id and name of a label. -/
def tag (r : LabelRecord) : Label.Tag := ⟨r.id, r.name⟩

/-- The label that data describes; a missing id is the fallback's, other missing fields have
their plain values. -/
def ofValue (v : Value) (fallbackId : String) : LabelRecord where
  id := (v.textAt? "id").getD fallbackId
  name := (v.textAt? "name").getD ""
  origin := if v.field? "type" == some (.str "system") then .system else .user
  messagesTotal := count "messagesTotal"
  messagesUnread := count "messagesUnread"
  threadsTotal := count "threadsTotal"
  threadsUnread := count "threadsUnread"
  messageListVisibility := v.textAt? "messageListVisibility"
  labelListVisibility := v.textAt? "labelListVisibility"
  color := match v.field? "color" with
    | some (.obj fields) =>
      let part name := (((Value.obj fields).field? name).bind Value.asText?).getD ""
      some ⟨part "backgroundColor", part "textColor"⟩
    | _ => none
where
  /-- A count, zero if it is missing. -/
  count (name : String) : Number := ((v.field? name).bind Value.asNumber?).getD 0

def toValue (r : LabelRecord) : Value :=
  .obj [("id", .str r.id), ("name", .str r.name), ("type", .str r.origin.name),
    ("messagesTotal", .num r.messagesTotal), ("messagesUnread", .num r.messagesUnread),
    ("threadsTotal", .num r.threadsTotal), ("threadsUnread", .num r.threadsUnread),
    ("messageListVisibility", .ofText? r.messageListVisibility),
    ("labelListVisibility", .ofText? r.labelListVisibility),
    ("color", (r.color.map Color.toValue).getD .null)]

/-- The label with some fields given anew. -/
def overwrite (fields : List (String × Value)) (r : LabelRecord) : LabelRecord :=
  .ofValue (.record (r.toValue.fields ++ fields)) r.id

end LabelRecord

/-- What callers may choose about a label's looks. Texts that are empty choose nothing. -/
structure LabelOptions where
  labelListVisibility : Option String := none
  messageListVisibility : Option String := none
  textColor : Option String := none
  backgroundColor : Option String := none
deriving DecidableEq, Repr

/-- The choices that data describes. -/
def LabelOptions.ofValue (v : Value) : LabelOptions :=
  ⟨v.textAt? "labelListVisibility", v.textAt? "messageListVisibility", v.textAt? "textColor",
    v.textAt? "backgroundColor"⟩

/-- The body of a request that makes or changes a label. -/
structure LabelBody where
  name : Option String := none
  labelListVisibility : Option String := none
  messageListVisibility : Option String := none
  /-- The colour of the text and of the background. -/
  color : Option (Option String × Option String) := none
deriving DecidableEq, Repr

namespace LabelBody

/-- A text that is not empty. -/
def chosen (s : Option String) : Option String := s.filter (!·.isEmpty)

def of (name : Option String) (o : LabelOptions) : LabelBody where
  name
  labelListVisibility := chosen o.labelListVisibility
  messageListVisibility := chosen o.messageListVisibility
  color :=
    if (chosen o.textColor).isSome || (chosen o.backgroundColor).isSome then
      some (chosen o.textColor, chosen o.backgroundColor)
    else none

def isEmpty (b : LabelBody) : Bool := b == {}

def toValue (b : LabelBody) : Value :=
  .recordOf [("name", b.name.map .str), ("labelListVisibility", b.labelListVisibility.map .str),
    ("messageListVisibility", b.messageListVisibility.map .str),
    ("color", b.color.map fun (text, background) =>
      .recordOf [("textColor", text.map .str), ("backgroundColor", background.map .str)])]

/-- The body that data describes. -/
def ofValue (v : Value) : LabelBody where
  name := v.textAt? "name"
  labelListVisibility := v.textAt? "labelListVisibility"
  messageListVisibility := v.textAt? "messageListVisibility"
  color := (v.given? "color").map fun c => (c.textAt? "textColor", c.textAt? "backgroundColor")

end LabelBody

/-- Labels to add to and to remove from messages. -/
structure LabelChange where
  add : Option (List String) := none
  remove : Option (List String) := none
deriving DecidableEq, Repr

namespace LabelChange

def toValue (c : LabelChange) : Value :=
  .recordOf [("addLabelIds", c.add.map .ofTexts), ("removeLabelIds", c.remove.map .ofTexts)]

/-- The change that data describes. -/
def ofValue (v : Value) : LabelChange := ⟨v.textsAt? "addLabelIds", v.textsAt? "removeLabelIds"⟩

/-- A message's labels after the change: new ones at the end, then the removed ones taken out. -/
def apply (c : LabelChange) (ids : List String) : List String :=
  let added := (ids ++ c.add.getD []).foldl
    (fun done id => if done.contains id then done else done ++ [id]) []
  added.filter fun id => !(c.remove.getD []).contains id

end LabelChange

end Mailroom.Remote
